import ChatProject.Shared.Codec

/-!
# The documented grammar of a payload

`protocol.h` says that the payload of a message is a sequence of sub-fields `[Li:1][Vi:Li]`, and
that this holds of fixed-size fields too: the port is `[L=2][hi][lo]` and the status is
`[L=1][code]`.  So a reader who knows nothing of the messages can still split every payload.

* `takeField`, `splitFields` — that reader: `splitFields_wrapAll` says it undoes the wrapping, and
  `splitFields_eq_some` that it accepts nothing else.
* `Encoding` — a call of one of the five encoders, with what it writes and the fields that are
  documented for it.
* `encoders_grammatical_iff` — the three request encoders follow the grammar.  The two reply
  encoders never do: they write the status byte bare.
-/

set_option autoImplicit false

namespace ChatProject

/-! ## Splitting a payload -/

/-- The sub-field at the front, and what stands behind it. -/
def takeField (payload : List UInt8) : Option (List UInt8 × List UInt8) :=
  match payload with
  | [] => none
  | n :: rest =>
    if n.toNat ≤ rest.length then some (rest.take n.toNat, rest.drop n.toNat) else none

/-- The sub-fields of a payload, for at most `rounds` of them. -/
def splitLoop : (rounds : Nat) → List UInt8 → Option (List (List UInt8))
  | 0, payload => if payload = [] then some [] else none
  | rounds + 1, payload =>
    if payload = [] then some []
    else
      match takeField payload with
      | none => none
      | some (field, rest) => (splitLoop rounds rest).map (field :: ·)

/-- The sub-fields a payload splits into, if it does so completely. -/
def splitFields (payload : List UInt8) : Option (List (List UInt8)) :=
  splitLoop payload.length payload

/-- A sub-field as it stands in a payload. -/
def wrap (field : List UInt8) : List UInt8 := UInt8.ofNat field.length :: field

theorem takeField_wrap {field : List UInt8} (h : field.length ≤ 255) (rest : List UInt8) :
    takeField (wrap field ++ rest) = some (field, rest) := by
  rw [wrap, List.cons_append, takeField, toNat_ofNat_of_le h,
    if_pos (by rw [List.length_append]; omega), List.take_left, List.drop_left]

theorem takeField_eq_some {payload field rest : List UInt8}
    (h : takeField payload = some (field, rest)) :
    payload = wrap field ++ rest ∧ field.length ≤ 255 := by
  cases payload with
  | nil => exact absurd h (by simp [takeField])
  | cons n body =>
    rw [takeField] at h
    by_cases hle : n.toNat ≤ body.length
    · rw [if_pos hle, Option.some_inj, Prod.mk.injEq] at h
      obtain ⟨rfl, rfl⟩ := h
      have hlen : (body.take n.toNat).length = n.toNat := by
        rw [List.length_take, Nat.min_eq_left hle]
      have hn := n.toNat_lt
      refine ⟨?_, by omega⟩
      rw [wrap, hlen, UInt8.ofNat_toNat, List.cons_append, List.take_append_drop]
    · rw [if_neg hle] at h
      exact absurd h (by simp)

/-- **The split undoes the wrapping.** -/
theorem splitLoop_wrapAll {fields : List (List UInt8)} (h : ∀ f ∈ fields, f.length ≤ 255)
    {rounds : Nat} (hrounds : fields.length ≤ rounds) :
    splitLoop rounds (fields.flatMap wrap) = some fields := by
  induction fields generalizing rounds with
  | nil => cases rounds <;> exact if_pos rfl
  | cons field fields ih =>
    obtain ⟨rounds, rfl⟩ : ∃ k, rounds = k + 1 :=
      ⟨rounds - 1, by rw [List.length_cons] at hrounds; omega⟩
    rw [splitLoop, List.flatMap_cons, takeField_wrap (h field List.mem_cons_self),
      if_neg (by simp [wrap])]
    simp only
    rw [ih (fun f hf => h f (List.mem_cons_of_mem field hf)) (by simpa using hrounds),
      Option.map_some]

theorem splitFields_wrapAll {fields : List (List UInt8)} (h : ∀ f ∈ fields, f.length ≤ 255) :
    splitFields (fields.flatMap wrap) = some fields := by
  refine splitLoop_wrapAll h ?_
  clear h
  induction fields with
  | nil => exact Nat.le_refl 0
  | cons field fields ih =>
    rw [List.flatMap_cons, List.length_append, wrap, List.length_cons, List.length_cons]
    omega

/-- **Nothing else splits.** -/
theorem splitFields_eq_some {payload : List UInt8} {fields : List (List UInt8)}
    (h : splitFields payload = some fields) :
    payload = fields.flatMap wrap ∧ ∀ f ∈ fields, f.length ≤ 255 := by
  rw [splitFields] at h
  generalize payload.length = rounds at h
  induction rounds generalizing payload fields with
  | zero =>
    rw [splitLoop] at h
    by_cases hnil : payload = []
    · rw [if_pos hnil, Option.some_inj] at h
      subst h hnil
      exact ⟨rfl, fun f hf => absurd hf List.not_mem_nil⟩
    · rw [if_neg hnil] at h
      exact absurd h (by simp)
  | succ rounds ih =>
    rw [splitLoop] at h
    by_cases hnil : payload = []
    · rw [if_pos hnil, Option.some_inj] at h
      subst h hnil
      exact ⟨rfl, fun f hf => absurd hf List.not_mem_nil⟩
    · rw [if_neg hnil] at h
      cases htake : takeField payload with
      | none =>
        rw [htake] at h
        exact absurd h (by simp)
      | some r =>
        obtain ⟨field, rest⟩ := r
        rw [htake] at h
        obtain ⟨fields', hrest, rfl⟩ := Option.map_eq_some_iff.mp h
        obtain ⟨hpayload, hlen⟩ := takeField_eq_some htake
        obtain ⟨hrest', hfields⟩ := ih hrest
        refine ⟨by rw [hpayload, hrest', List.flatMap_cons], fun f hf => ?_⟩
        rcases List.mem_cons.mp hf with rfl | hf
        · exact hlen
        · exact hfields f hf

/-! ## The encoders -/

/-- A call of an encoder. -/
inductive Encoding where
  | userPassReq (op : ChatOpcode) (user pass : CStr)
  | groupnameReq (op : ChatOpcode) (group : CStr)
  | logoutReq
  | statusRep (op : ChatOpcode) (status : ChatStatus)
  | groupRepOk (op : ChatOpcode) (mcastIp : CStr) (mcastPort : UInt16)

namespace Encoding

/-- The frame it writes, when it succeeds. -/
def frame : Encoding → Option (List UInt8)
  | userPassReq op user pass => chatEncodeUserPassReq op user pass
  | groupnameReq op group => chatEncodeGroupnameReq op group
  | logoutReq => some chatEncodeLogoutReq
  | statusRep op status => some (chatEncodeStatusRep op status)
  | groupRepOk op mcastIp mcastPort => chatEncodeGroupRepOk op mcastIp mcastPort

/-- The fields of the payload, as `protocol.h` documents them. -/
def fields : Encoding → List (List UInt8)
  | userPassReq _ user pass => [user.bytes, pass.bytes]
  | groupnameReq _ group => [group.bytes]
  | logoutReq => []
  | statusRep _ status => [[status.toByte]]
  | groupRepOk _ mcastIp mcastPort =>
    [[ChatStatus.ok.toByte], mcastIp.bytes,
      [UInt8.ofNat (mcastPort.toNat / 256), UInt8.ofNat (mcastPort.toNat % 256)]]

/-- The message is a reply, so that it carries a status. -/
def IsReply : Encoding → Prop
  | statusRep _ _ => True
  | groupRepOk _ _ _ => True
  | _ => False

/-- The payload splits into the documented fields. -/
def Grammatical (e : Encoding) (f : List UInt8) : Prop :=
  ∃ (t l : UInt8) (payload : List UInt8), f = t :: l :: payload ∧ payload.length = l.toNat ∧
    splitFields payload = some e.fields

/-- A frame whose payload is the wrapped fields. -/
theorem grammatical_of_eq {e : Encoding} {t l : UInt8} {payload : List UInt8}
    (hl : payload.length = l.toNat) (hpayload : payload = e.fields.flatMap wrap)
    (hfields : ∀ f ∈ e.fields, f.length ≤ 255) : e.Grammatical (t :: l :: payload) :=
  ⟨t, l, payload, rfl, hl, by rw [hpayload, splitFields_wrapAll hfields]⟩

theorem grammatical_userPassReq {op : ChatOpcode} {user pass : CStr} {f : List UInt8}
    (h : chatEncodeUserPassReq op user pass = some f) :
    (userPassReq op user pass).Grammatical f := by
  obtain ⟨hu, hp, rfl⟩ := chatEncodeUserPassReq_eq_some h
  have hu32 : user.bytes.length ≤ 32 := hu
  have hp32 : pass.bytes.length ≤ 32 := hp
  refine grammatical_of_eq ?_ (by simp [fields, wrap, CStr.length]) fun f hf => ?_
  · rw [toNat_ofNat_of_le (by simp only [CStr.length]; omega)]
    simp only [List.length_cons, List.length_append, CStr.length]
    omega
  · rcases List.mem_cons.mp hf with rfl | hf
    · omega
    · rw [List.mem_singleton.mp hf]
      omega

theorem grammatical_groupnameReq {op : ChatOpcode} {group : CStr} {f : List UInt8}
    (h : chatEncodeGroupnameReq op group = some f) : (groupnameReq op group).Grammatical f := by
  obtain ⟨hg, rfl⟩ := chatEncodeGroupnameReq_eq_some h
  have hg32 : group.bytes.length ≤ 32 := hg
  refine grammatical_of_eq ?_ (by simp [fields, wrap, CStr.length]) fun f hf => ?_
  · rw [toNat_ofNat_of_le (by simp only [CStr.length]; omega)]
    simp only [List.length_cons, CStr.length]
    omega
  · rw [List.mem_singleton.mp hf]
    omega

theorem grammatical_logoutReq : logoutReq.Grammatical chatEncodeLogoutReq :=
  ⟨_, 0, [], rfl, rfl, rfl⟩

/-- A payload that starts with a bare byte is not a wrapped one-byte field and more. -/
theorem bare_ne_wrapped {b : UInt8} {rest : List UInt8} {fields : List (List UInt8)}
    (hb : b = 1 → rest.head? ≠ some 1) : b :: rest ≠ ([b] :: fields).flatMap wrap := by
  intro h
  rw [List.flatMap_cons, wrap, List.cons_append, List.cons_append, List.cons.injEq] at h
  have hb1 : b = 1 := h.1
  refine hb hb1 ?_
  rw [h.2, hb1]
  rfl

theorem not_grammatical_statusRep (op : ChatOpcode) (status : ChatStatus) :
    ¬ (statusRep op status).Grammatical (chatEncodeStatusRep op status) := by
  rintro ⟨t, l, payload, hf, -, hsplit⟩
  rw [chatEncodeStatusRep, List.cons.injEq, List.cons.injEq] at hf
  obtain ⟨-, -, rfl⟩ := hf
  refine bare_ne_wrapped (fun _ => ?_) (splitFields_eq_some hsplit).1
  simp

theorem not_grammatical_groupRepOk {op : ChatOpcode} {mcastIp : CStr} {mcastPort : UInt16}
    {f : List UInt8} (h : chatEncodeGroupRepOk op mcastIp mcastPort = some f) :
    ¬ (groupRepOk op mcastIp mcastPort).Grammatical f := by
  rintro ⟨t, l, payload, rfl, -, hsplit⟩
  obtain ⟨-, hf⟩ := chatEncodeGroupRepOk_eq_some h
  rw [List.cons.injEq, List.cons.injEq] at hf
  obtain ⟨-, -, rfl⟩ := hf
  exact bare_ne_wrapped (fun h0 => absurd h0 (by decide)) (splitFields_eq_some hsplit).1

end Encoding

/-- **The encoders and the documented grammar.**  A call that succeeds writes a frame whose payload
splits into the documented fields exactly when the message is a request. -/
theorem encoders_grammatical_iff {e : Encoding} {f : List UInt8} (h : e.frame = some f) :
    e.Grammatical f ↔ ¬ e.IsReply := by
  cases e with
  | userPassReq op user pass =>
    exact iff_of_true (Encoding.grammatical_userPassReq h) not_false
  | groupnameReq op group => exact iff_of_true (Encoding.grammatical_groupnameReq h) not_false
  | logoutReq =>
    rw [← Option.some.inj h]
    exact iff_of_true Encoding.grammatical_logoutReq not_false
  | statusRep op status =>
    rw [← Option.some.inj h]
    exact iff_of_false (Encoding.not_grammatical_statusRep op status) (not_not_intro trivial)
  | groupRepOk op mcastIp mcastPort =>
    exact iff_of_false (Encoding.not_grammatical_groupRepOk h) (not_not_intro trivial)

/-- The documented example: REG for `abc` with `123`. -/
theorem encoders_grammatical_iff_register :
    let e := Encoding.userPassReq .regReq ⟨[97, 98, 99], by decide⟩ ⟨[49, 50, 51], by decide⟩
    e.frame = some [1, 8, 3, 97, 98, 99, 3, 49, 50, 51] ∧
      e.Grammatical [1, 8, 3, 97, 98, 99, 3, 49, 50, 51] :=
  ⟨rfl, (encoders_grammatical_iff rfl).mpr not_false⟩

/-- An address reply splits into an empty field, the address and the port, instead of the status,
the address and the port; a refusal does not split at all. -/
theorem replies_not_grammatical :
    (Encoding.groupRepOk .createGroupRep ⟨[49], by decide⟩ 6000).frame
        = some [8, 6, 0, 1, 49, 2, 23, 112] ∧
      splitFields [0, 1, 49, 2, 23, 112] = some [[], [49], [23, 112]] ∧
      (Encoding.groupRepOk .createGroupRep ⟨[49], by decide⟩ 6000).fields
        = [[0], [49], [23, 112]] ∧
      ¬ (Encoding.groupRepOk .createGroupRep ⟨[49], by decide⟩ 6000).Grammatical
        [8, 6, 0, 1, 49, 2, 23, 112] ∧
      (Encoding.statusRep .loginRep .errBadPassword).frame = some [4, 1, 3] ∧
      splitFields [3] = none ∧
      ¬ (Encoding.statusRep .loginRep .errBadPassword).Grammatical [4, 1, 3] := by
  have hfields : (Encoding.groupRepOk .createGroupRep ⟨[49], by decide⟩ 6000).frame
      = some [8, 6, 0, 1, 49, 2, 23, 112] := by decide
  exact ⟨hfields, by decide, by decide, Encoding.not_grammatical_groupRepOk hfields, by decide,
    by decide, Encoding.not_grammatical_statusRep .loginRep .errBadPassword⟩

end ChatProject
