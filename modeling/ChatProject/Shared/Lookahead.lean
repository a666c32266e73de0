import ChatProject.Shared.Grammar

/-!
# How far a decoder looks

A decoder is handed everything that has been received, and a frame in it says with its `L` byte
where it ends.  `chat_decode_user_pass`, `chat_decode_groupname` and `chat_decode_group_rep_ok`
compare `L` with the number of bytes received once, at the front; each field after that is compared
with the number of bytes received and not with `L`.

* `fieldThen` — the step the three decoders are made of, `chatDecodeUserPass_eq_fields` and its two
  siblings say how.
* `fieldInside` — the field that such a step reads ends inside the payload, or is refused unread.
* `settled_fieldThen_iff` — this is what it takes for the step not to look at what follows.
* `decoders_inside_iff` — so a decoder looks only inside the frame exactly when each field it comes
  to is one of these.  `decoders_look_behind` has a frame of one byte of payload that is refused on
  its own and accepted in front of another frame.
-/

set_option autoImplicit false

namespace ChatProject

variable {α : Type}

/-! ## Field by field -/

/-- Read a wrapped field of at most `limit` bytes, and go on with what stands behind it. -/
def fieldThen (limit : Nat) (next : List UInt8 → List UInt8 → Except DecodeFault α)
    (body : List UInt8) : Except DecodeFault α :=
  match takeField body with
  | none => .error .malformed
  | some (field, rest) => if limit < field.length then .error .malformed else next field rest

/-- Read the port, and go on with it. -/
def portThen (next : UInt16 → Except DecodeFault α) : List UInt8 → Except DecodeFault α
  | n :: hi :: lo :: _ =>
    if n ≠ 2 then .error .malformed else next (UInt16.ofNat (hi.toNat * 256 + lo.toNat))
  | _ => .error .malformed

theorem fieldThen_eq_ok_iff {limit : Nat} {next : List UInt8 → List UInt8 → Except DecodeFault α}
    {body : List UInt8} {r : α} :
    fieldThen limit next body = .ok r ↔
      ∃ (n : UInt8) (field rest : List UInt8), body = n :: (field ++ rest) ∧
        n.toNat = field.length ∧ field.length ≤ limit ∧ next field rest = .ok r := by
  constructor
  · intro h
    rw [fieldThen] at h
    cases htake : takeField body with
    | none =>
      rw [htake] at h
      exact absurd h (by simp)
    | some p =>
      obtain ⟨field, rest⟩ := p
      rw [htake] at h
      obtain ⟨hle, hnext⟩ := guard_eq_ok h
      obtain ⟨hbody, hlen⟩ := takeField_eq_some htake
      exact ⟨_, field, rest, hbody, toNat_ofNat_of_le hlen, Nat.le_of_not_lt hle, hnext⟩
  · rintro ⟨n, field, rest, rfl, hn, hle, hnext⟩
    rw [fieldThen, takeField, hn, if_pos (by rw [List.length_append]; omega), List.take_left,
      List.drop_left]
    simp only
    rw [if_neg (Nat.not_lt.mpr hle), hnext]

theorem portThen_eq_ok_iff {next : UInt16 → Except DecodeFault α} {body : List UInt8} {r : α} :
    portThen next body = .ok r ↔
      ∃ (hi lo : UInt8) (rest : List UInt8), body = 2 :: hi :: lo :: rest ∧
        next (UInt16.ofNat (hi.toNat * 256 + lo.toNat)) = .ok r := by
  constructor
  · intro h
    match body, h with
    | n :: hi :: lo :: rest, h =>
      obtain ⟨hn, hnext⟩ := guard_eq_ok h
      rw [Ne, not_not] at hn
      exact ⟨hi, lo, rest, by rw [hn], hnext⟩
  · rintro ⟨hi, lo, rest, rfl, hnext⟩
    exact hnext

theorem DecodeSafe.fieldThen {limit : Nat}
    {next : List UInt8 → List UInt8 → Except DecodeFault α}
    (h : ∀ field rest, DecodeSafe (next field rest)) (body : List UInt8) :
    DecodeSafe (fieldThen limit next body) := by
  rw [ChatProject.fieldThen]
  cases takeField body with
  | none => exact fun fault hfault => (Except.error.inj hfault).symm
  | some p => exact .guard fun _ => h p.1 p.2

theorem DecodeSafe.portThen {next : UInt16 → Except DecodeFault α}
    (h : ∀ port, DecodeSafe (next port)) (body : List UInt8) :
    DecodeSafe (portThen next body) := by
  match body with
  | [] | [_] | [_, _] => exact fun fault hfault => (Except.error.inj hfault).symm
  | _ :: hi :: lo :: _ => exact .guard fun _ => h _

/-- Two decoders that end with a value or with -1 are the same if they deliver the same values. -/
theorem DecodeSafe.eq_of_ok_iff {x y : Except DecodeFault α} (hx : DecodeSafe x)
    (hy : DecodeSafe y) (h : ∀ r, x = .ok r ↔ y = .ok r) : x = y := by
  cases x with
  | ok r => exact ((h r).mp rfl).symm
  | error fault =>
    cases y with
    | ok r => exact (h r).mpr rfl
    | error fault' => rw [hx fault rfl, hy fault' rfl]

/-! ## The three decoders

Behind the header each of them is a chain of these steps, as long as the bytes received are at least
those that the frame declares. -/

theorem chatDecodeUserPass_eq_fields {t l : UInt8} {body : List UInt8}
    (hl : l.toNat ≤ body.length) :
    chatDecodeUserPass (t :: l :: body) =
      fieldThen chatMaxUsernameLen
        (fun user => fieldThen chatMaxPasswordLen fun pass _ => .ok (user, pass)) body := by
  refine (decodeSafe_chatDecodeUserPass _).eq_of_ok_iff
    (.fieldThen (fun _ => .fieldThen fun _ _ => .ok _) _) ?_
  rintro ⟨user, pass⟩
  simp only [fieldThen_eq_ok_iff]
  constructor
  · intro h
    obtain ⟨lu, lp, rest, rfl, hlu, hu, hlp, hp⟩ := chatDecodeUserPass_eq_ok h
    exact ⟨lu, user, _, rfl, hlu, hu, lp, pass, rest, rfl, hlp, hp, rfl⟩
  · rintro ⟨lu, user', _, rfl, hlu, hu, lp, pass', rest, rfl, hlp, hp, hr⟩
    obtain ⟨rfl, rfl⟩ := Prod.mk.inj (Except.ok.inj hr)
    simp only [List.length_cons, List.length_append] at hl
    exact chatDecodeUserPass_of_shape rfl (by omega) hlu hu hlp hp

/-- A frame without payload is refused. -/
theorem chatDecodeGroupname_empty {t : UInt8} (behind : List UInt8) :
    chatDecodeGroupname (t :: 0 :: behind) = .error .malformed := by
  have h1 : readByte (t :: 0 :: behind) 1 = .ok (0 : UInt8).toNat := readByte_at [t] rfl rfl
  simp only [chatDecodeGroupname, h1, bind, Except.bind]
  rw [if_neg (by simp), if_neg (by simp), if_pos (by decide)]

theorem chatDecodeGroupname_eq_fields {t l : UInt8} {body : List UInt8}
    (hl : l.toNat ≤ body.length) (hl1 : 1 ≤ l.toNat) :
    chatDecodeGroupname (t :: l :: body) =
      fieldThen chatMaxGroupnameLen (fun group _ => .ok group) body := by
  refine (decodeSafe_chatDecodeGroupname _).eq_of_ok_iff (.fieldThen (fun _ _ => .ok _) _) ?_
  intro group
  simp only [fieldThen_eq_ok_iff]
  constructor
  · intro h
    obtain ⟨lg, rest, rfl, hlg, hg⟩ := chatDecodeGroupname_eq_ok h
    exact ⟨lg, group, rest, rfl, hlg, hg, rfl⟩
  · rintro ⟨lg, group', rest, rfl, hlg, hg, hr⟩
    obtain rfl := Except.ok.inj hr
    simp only [List.length_cons, List.length_append] at hl
    exact chatDecodeGroupname_of_shape rfl (by omega) hl1 hlg hg

theorem chatDecodeGroupRepOk_empty {t : UInt8} (behind : List UInt8) :
    chatDecodeGroupRepOk (t :: 0 :: behind) = .error .malformed := by
  have h1 : readByte (t :: 0 :: behind) 1 = .ok (0 : UInt8).toNat := readByte_at [t] rfl rfl
  simp only [chatDecodeGroupRepOk, h1, bind, Except.bind]
  rw [if_pos (c := _ ∨ (0 : UInt8).toNat < 1) (.inr (by decide)), ite_self]

/-- The long form of a group reply. -/
theorem chatDecodeGroupRepOk_eq_fields {t l : UInt8} {body : List UInt8}
    (hl : l.toNat ≤ body.length + 1) (hl2 : 2 ≤ l.toNat) :
    chatDecodeGroupRepOk (t :: l :: 0 :: body) =
      fieldThen (chatMaxIpStrLen - 1) (fun ip => portThen fun port => .ok (.ok, ip, port))
        body := by
  refine (decodeSafe_chatDecodeGroupRepOk _).eq_of_ok_iff
    (.fieldThen (fun _ => .portThen fun _ => .ok _) _) ?_
  rintro ⟨status, ip, port⟩
  simp only [fieldThen_eq_ok_iff, portThen_eq_ok_iff]
  constructor
  · intro h
    obtain ⟨c, tail, hc, rfl, hform⟩ := chatDecodeGroupRepOk_eq_ok h
    obtain ⟨rfl, rfl⟩ := List.cons.inj hc
    rcases hform with ⟨hshort, -, -⟩ | ⟨-, lip, hi, lo, rest, rfl, hlip, him, rfl⟩
    · exact absurd hshort (by simp; omega)
    · exact ⟨lip, ip, _, rfl, hlip, Nat.le_sub_one_of_lt him, hi, lo, rest, rfl, rfl⟩
  · rintro ⟨lip, ip', _, rfl, hlip, him, hi, lo, rest, rfl, hr⟩
    rw [Except.ok.injEq, Prod.mk.injEq, Prod.mk.injEq] at hr
    obtain ⟨rfl, rfl, rfl⟩ := hr
    simp only [List.length_cons, List.length_append] at hl
    exact chatDecodeGroupRepOk_of_shape rfl (by omega) hl2 hlip
      (Nat.lt_of_le_sub_one (by decide) him)

/-! ## What follows the payload

`Settled` is the property for a decoder behind the header, `LooksInside` for the decoder itself. -/

/-- What follows the payload makes no difference. -/
def Settled (decode : List UInt8 → Except DecodeFault α) (payload : List UInt8) : Prop :=
  ∀ behind behind', decode (payload ++ behind) = decode (payload ++ behind')

/-- Two buffers that both start with the frame are decoded to the same return code and the same
outputs. -/
def LooksInside (decode : List UInt8 → Except DecodeFault α) (frame : List UInt8) : Prop :=
  ∀ b₁ b₂, frame <+: b₁ → frame <+: b₂ → decode b₁ = decode b₂

/-- The length byte of the next field is inside the payload, and so is the field, unless it is too
long for its array and refused. -/
def fieldInside (limit : Nat) (next : List UInt8 → Prop) : List UInt8 → Prop
  | [] => False
  | n :: rest => limit < n.toNat ∨ n.toNat ≤ rest.length ∧ next (rest.drop n.toNat)

/-- The length byte of the port is inside the payload, and so is the port, unless the length is
refused. -/
def portInside : List UInt8 → Prop
  | [] => False
  | n :: rest => n ≠ 2 ∨ 2 ≤ rest.length

/-- The payload holds the user name and the password. -/
def userPassInside : List UInt8 → Prop :=
  fieldInside chatMaxUsernameLen (fieldInside chatMaxPasswordLen fun _ => True)

/-- The payload is empty, which is refused, or holds the group name. -/
def groupnameInside (payload : List UInt8) : Prop :=
  payload = [] ∨ fieldInside chatMaxGroupnameLen (fun _ => True) payload

/-- The payload is of the short form, or holds the address and the port. -/
def groupRepOkInside : List UInt8 → Prop
  | [] => True
  | c :: tail => c ≠ 0 ∨ tail = [] ∨ fieldInside (chatMaxIpStrLen - 1) portInside tail

instance decidableFieldInside {limit : Nat} {next : List UInt8 → Prop} [DecidablePred next] :
    DecidablePred (fieldInside limit next)
  | [] => isFalse not_false
  | n :: _ => inferInstanceAs (Decidable (limit < n.toNat ∨ _ ∧ _))

instance : DecidablePred portInside
  | [] => isFalse not_false
  | n :: rest => inferInstanceAs (Decidable (n ≠ 2 ∨ 2 ≤ rest.length))

instance : DecidablePred userPassInside :=
  inferInstanceAs (DecidablePred (fieldInside _ (fieldInside _ fun _ => True)))

instance : DecidablePred groupnameInside := fun payload =>
  inferInstanceAs (Decidable (payload = [] ∨ fieldInside _ (fun _ => True) payload))

instance : DecidablePred groupRepOkInside
  | [] => isTrue trivial
  | c :: tail => inferInstanceAs (Decidable (c ≠ 0 ∨ tail = [] ∨ fieldInside _ portInside tail))

theorem settled_of_eq {decode : List UInt8 → Except DecodeFault α} {payload : List UInt8}
    {r : Except DecodeFault α} (h : ∀ behind, decode (payload ++ behind) = r) :
    Settled decode payload :=
  fun behind behind' => (h behind).trans (h behind').symm

/-- What is refused on its own and accepted with something behind it is not settled. -/
theorem not_settled {decode : List UInt8 → Except DecodeFault α} {payload : List UInt8}
    (behind : List UInt8) {r : α} (hbad : decode payload = .error .malformed)
    (hgood : decode (payload ++ behind) = .ok r) :
    ¬ Settled decode payload := by
  intro h
  have heq := h [] behind
  rw [List.append_nil, hbad, hgood] at heq
  exact absurd heq (by simp)

/-- **One step.**  Reading a field does not look behind the payload exactly when the field is inside
and the rest of the decoder does not look behind what is left. -/
theorem settled_fieldThen_iff {limit : Nat}
    {next : List UInt8 → List UInt8 → Except DecodeFault α} {inside : List UInt8 → Prop}
    (hok : ∀ field, ∃ rest r, next field rest = .ok r)
    (hnext : ∀ field rest, Settled (next field) rest ↔ inside rest) (payload : List UInt8) :
    Settled (fieldThen limit next) payload ↔ fieldInside limit inside payload := by
  cases payload with
  | nil =>
    obtain ⟨rest, r, hr⟩ := hok []
    refine iff_of_false (not_settled (0 :: rest) (r := r) rfl ?_) not_false
    exact fieldThen_eq_ok_iff.mpr ⟨0, [], rest, rfl, rfl, Nat.zero_le _, hr⟩
  | cons n rest =>
    by_cases hle : n.toNat ≤ rest.length
    · -- the field is there, so what follows the payload follows the rest
      have htake (behind : List UInt8) : fieldThen limit next (n :: rest ++ behind) =
          if limit < n.toNat then .error .malformed
          else next (rest.take n.toNat) (rest.drop n.toNat ++ behind) := by
        rw [fieldThen, List.cons_append, takeField, if_pos (by rw [List.length_append]; omega),
          List.take_append_of_le_length hle, List.drop_append_of_le_length hle]
        simp only
        rw [List.length_take, Nat.min_eq_left hle]
      by_cases hlim : limit < n.toNat
      · exact iff_of_true (settled_of_eq fun behind => (htake behind).trans (if_pos hlim))
          (.inl hlim)
      · have hrest : Settled (fieldThen limit next) (n :: rest) ↔
            Settled (next (rest.take n.toNat)) (rest.drop n.toNat) := by
          simp only [Settled, htake, if_neg hlim]
        rw [hrest, hnext]
        exact ⟨fun h => .inr ⟨hle, h⟩, fun h => (h.resolve_left hlim).2⟩
    · rw [Nat.not_le] at hle
      by_cases hlim : limit < n.toNat
      · refine iff_of_true (settled_of_eq (r := .error .malformed) fun behind => ?_) (.inl hlim)
        rw [fieldThen, List.cons_append, takeField]
        split_ifs with hfits
        · simp only
          rw [if_pos (by rw [List.length_take, Nat.min_eq_left hfits]; exact hlim)]
        · rfl
      · -- the missing bytes can be made up
        let field := rest ++ List.replicate (n.toNat - rest.length) 0
        have hfield : n.toNat = field.length := by
          rw [List.length_append, List.length_replicate]
          omega
        obtain ⟨tail, r, hr⟩ := hok field
        refine iff_of_false
          (not_settled (List.replicate (n.toNat - rest.length) 0 ++ tail) (r := r) ?_ ?_)
          (not_or.mpr ⟨hlim, fun h => Nat.not_le.mpr hle h.1⟩)
        · rw [fieldThen, takeField, if_neg (Nat.not_le.mpr hle)]
        · rw [List.cons_append, ← List.append_assoc]
          exact fieldThen_eq_ok_iff.mpr ⟨n, field, tail, rfl, hfield, by omega, hr⟩

theorem portThen_of_ne {next : UInt16 → Except DecodeFault α} {n : UInt8} (hn : n ≠ 2)
    (body : List UInt8) : portThen next (n :: body) = .error .malformed := by
  match body with
  | [] | [_] => rfl
  | hi :: lo :: _ => exact if_pos hn

theorem settled_portThen_iff {next : UInt16 → α} (payload : List UInt8) :
    Settled (portThen fun port => .ok (next port)) payload ↔ portInside payload := by
  have hmade (behind : List UInt8) (h : 2 ≤ behind.length) :
      ∃ r, portThen (fun port => .ok (next port)) (2 :: behind) = .ok r := by
    match behind, h with
    | hi :: lo :: rest, _ => exact ⟨_, rfl⟩
  match payload with
  | [] => exact iff_of_false (not_settled [2, 0, 0] rfl rfl) not_false
  | n :: rest =>
    by_cases hn : n = 2
    · subst hn
      by_cases hlen : 2 ≤ rest.length
      · match rest, hlen with
        | hi :: lo :: rest, hlen =>
          exact iff_of_true (settled_of_eq fun behind => rfl) (.inr hlen)
      · obtain ⟨r, hr⟩ := hmade (rest ++ [0, 0]) (by simp)
        refine iff_of_false (not_settled [0, 0] (r := r) ?_ hr) ?_
        · match rest, hlen with
          | [], _ | [_], _ => rfl
          | _ :: _ :: _, hlen => exact absurd (by simp) hlen
        · exact not_or.mpr ⟨not_not_intro rfl, hlen⟩
    · exact iff_of_true (settled_of_eq fun behind => portThen_of_ne hn (rest ++ behind)) (.inl hn)

/-! ## The decoders and the frame -/

/-- The header is in the frame, so what follows the frame follows the payload. -/
theorem looksInside_iff_settled {decode rest : List UInt8 → Except DecodeFault α}
    {frame payload : List UInt8}
    (h : ∀ behind, decode (frame ++ behind) = rest (payload ++ behind)) :
    LooksInside decode frame ↔ Settled rest payload := by
  constructor
  · intro hin behind behind'
    rw [← h, ← h]
    exact hin _ _ (List.prefix_append frame behind) (List.prefix_append frame behind')
  · rintro hset _ _ ⟨behind, rfl⟩ ⟨behind', rfl⟩
    rw [h, h]
    exact hset behind behind'

/-- A frame whose answer is settled by the header and the first byte of the payload. -/
theorem looksInside_of_eq {decode : List UInt8 → Except DecodeFault α} {frame : List UInt8}
    {r : Except DecodeFault α} (h : ∀ behind, decode (frame ++ behind) = r) :
    LooksInside decode frame := by
  rintro _ _ ⟨behind, rfl⟩ ⟨behind', rfl⟩
  rw [h, h]

section Frame

variable {t l : UInt8} {payload : List UInt8}

theorem le_length_append (hl : payload.length = l.toNat) (behind : List UInt8) :
    l.toNat ≤ (payload ++ behind).length := by
  rw [List.length_append]
  omega

theorem looksInside_userPass_iff (hl : payload.length = l.toNat) :
    LooksInside chatDecodeUserPass (t :: l :: payload) ↔ userPassInside payload := by
  refine (looksInside_iff_settled fun behind =>
    chatDecodeUserPass_eq_fields (le_length_append hl behind)).trans ?_
  refine settled_fieldThen_iff (fun user => ⟨[0], (user, []), rfl⟩) (fun user => ?_) payload
  exact settled_fieldThen_iff (fun pass => ⟨[], (user, pass), rfl⟩)
    fun pass rest => iff_of_true (settled_of_eq fun behind => rfl) trivial

theorem looksInside_groupname_iff (hl : payload.length = l.toNat) :
    LooksInside chatDecodeGroupname (t :: l :: payload) ↔ groupnameInside payload := by
  by_cases hnil : payload = []
  · subst hnil
    obtain rfl : l = 0 := UInt8.toNat_inj.mp hl.symm
    exact iff_of_true (looksInside_of_eq chatDecodeGroupname_empty) (.inl rfl)
  · have hl1 : 1 ≤ l.toNat := by
      rw [← hl]
      exact List.length_pos_iff.mpr hnil
    refine (looksInside_iff_settled fun behind =>
      chatDecodeGroupname_eq_fields (le_length_append hl behind) hl1).trans ?_
    refine (settled_fieldThen_iff (fun group => ⟨[], group, rfl⟩)
      (fun group rest => iff_of_true (settled_of_eq fun behind => rfl) trivial) payload).trans ?_
    exact (or_iff_right hnil).symm

theorem looksInside_groupRepOk_iff (hl : payload.length = l.toNat) :
    LooksInside chatDecodeGroupRepOk (t :: l :: payload) ↔ groupRepOkInside payload := by
  match payload, hl with
  | [], hl =>
    obtain rfl : l = 0 := UInt8.toNat_inj.mp hl.symm
    exact iff_of_true (looksInside_of_eq chatDecodeGroupRepOk_empty) trivial
  | c :: tail, hl =>
    rw [groupRepOkInside, ← or_assoc]
    by_cases hshort : c ≠ 0 ∨ tail = []
    · have hform : c ≠ 0 ∨ l.toNat = 1 := by
        refine hshort.imp_right fun hnil => ?_
        rw [← hl, hnil]
        rfl
      exact iff_of_true (looksInside_of_eq fun behind => chatDecodeGroupRepOk_short
        (le_length_append hl behind) (by rw [← hl]; simp) hform) (.inl hshort)
    · rw [or_iff_right hshort]
      rw [not_or, Ne, not_not] at hshort
      obtain ⟨rfl, hne⟩ := hshort
      have hpos := List.length_pos_iff.mpr hne
      rw [List.length_cons] at hl
      have hle (behind : List UInt8) : l.toNat ≤ (tail ++ behind).length + 1 := by
        rw [List.length_append]
        omega
      refine (looksInside_iff_settled fun behind =>
        chatDecodeGroupRepOk_eq_fields (hle behind) (by omega)).trans ?_
      exact settled_fieldThen_iff (fun ip => ⟨[2, 0, 0], (.ok, ip, _), rfl⟩)
        (fun ip rest => settled_portThen_iff rest) tail

/-- **How far the decoders look.**  Take a whole frame.  Each of the three decoders gives the same
answer on any two buffers that start with this frame exactly when every field it comes to, up to the
first that it refuses for its length, ends inside the payload. -/
theorem decoders_inside_iff (hl : payload.length = l.toNat) :
    (LooksInside chatDecodeUserPass (t :: l :: payload) ↔ userPassInside payload) ∧
      (LooksInside chatDecodeGroupname (t :: l :: payload) ↔ groupnameInside payload) ∧
      (LooksInside chatDecodeGroupRepOk (t :: l :: payload) ↔ groupRepOkInside payload) :=
  ⟨looksInside_userPass_iff hl, looksInside_groupname_iff hl, looksInside_groupRepOk_iff hl⟩

end Frame

/-- The requests for user `a`, password `b`, and for group `g`, and the reply with the address `1`
and port 6000, are decoded from their own bytes. -/
theorem decoders_inside_whole :
    LooksInside chatDecodeUserPass [1, 4, 1, 97, 1, 98] ∧
      LooksInside chatDecodeGroupname [7, 2, 1, 103] ∧
      LooksInside chatDecodeGroupRepOk [8, 6, 0, 1, 49, 2, 23, 112] :=
  ⟨(decoders_inside_iff rfl).1.mpr (by decide), (decoders_inside_iff rfl).2.1.mpr (by decide),
    (decoders_inside_iff rfl).2.2.mpr (by decide)⟩

/-- A group request whose payload is a length byte alone is refused; with a logout request behind
it, the two bytes of that are the group's name. -/
theorem decoders_look_behind :
    chatDecodeGroupname [7, 1, 2] = .error .malformed ∧
      chatDecodeGroupname ([7, 1, 2] ++ chatEncodeLogoutReq) = .ok [5, 0] ∧
      ¬ LooksInside chatDecodeGroupname [7, 1, 2] ∧
      ¬ LooksInside chatDecodeUserPass [1, 3, 1, 97, 1] ∧
      ¬ LooksInside chatDecodeGroupRepOk [8, 4, 0, 1, 49, 2] := by
  have hgroup : ¬ LooksInside chatDecodeGroupname [7, 1, 2] := by
    rw [looksInside_groupname_iff rfl]
    decide
  have huser : ¬ LooksInside chatDecodeUserPass [1, 3, 1, 97, 1] := by
    rw [looksInside_userPass_iff rfl]
    decide
  have hrep : ¬ LooksInside chatDecodeGroupRepOk [8, 4, 0, 1, 49, 2] := by
    rw [looksInside_groupRepOk_iff rfl]
    decide
  exact ⟨by decide, by decide, hgroup, huser, hrep⟩

end ChatProject
