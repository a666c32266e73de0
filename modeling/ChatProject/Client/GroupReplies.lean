import ChatProject.Client.ClientMng
import ChatProject.Shared.Codec

/-!
# What the client makes of a group reply

`chat_decode_group_rep_ok` reads two forms of reply, the long one with an address and the short one
with a status alone, and chooses by the status byte and the payload length.  The client reports what
comes out of it: it prints the address and opens the windows with it.

* `GroupReply.Faithful` — the reply can be relied upon: what is decoded is what was encoded, and a
  client that got this reply reports no address, and opens no window with an address, that the reply
  did not carry.
* `GroupReply.Strict` — what the frame has to look like for this, byte for byte.
* `groupReply_faithful_iff` — the one holds exactly when the other does.  The decoder itself is
  more generous: it takes a bare `ST_OK` for a success without an address (`bareOk_not_faithful`),
  and does not look at what stands behind the fields it reads.
-/

set_option autoImplicit false

namespace ChatProject

/-! ## The two forms -/

/-- A payload of exactly the long form is what the encoder writes for its address. -/
theorem chatEncodeGroupRepOk_of_shape {t l lip hi lo : UInt8} {ip : CStr}
    (hl : (0 :: lip :: (ip.bytes ++ [2, hi, lo])).length = l.toNat)
    (hlip : lip.toNat = ip.bytes.length) (him : ip.bytes.length < chatMaxIpStrLen) :
    chatEncodeGroupRepOk (.ofByte t) ip (UInt16.ofNat (hi.toNat * 256 + lo.toNat)) =
      some (t :: l :: 0 :: lip :: (ip.bytes ++ [2, hi, lo])) := by
  have hhi := hi.toNat_lt
  have hlo := lo.toNat_lt
  have hpayload : l.toNat = 5 + ip.length := by
    rw [← hl, List.length_cons, List.length_cons, List.length_append]
    show ip.bytes.length + 3 + 1 + 1 = 5 + ip.bytes.length
    omega
  have hport : (UInt16.ofNat (hi.toNat * 256 + lo.toNat)).toNat = hi.toNat * 256 + lo.toNat :=
    UInt16.toNat_ofNat_of_lt' (by simp only [UInt16.size]; omega)
  rw [chatEncodeGroupRepOk_eq him, ChatOpcode.toByte_ofByte, ofNat_eq_of_toNat hpayload,
    ofNat_eq_of_toNat (n := ip.length) hlip, hport,
    ofNat_eq_of_toNat (b := hi) (n := (hi.toNat * 256 + lo.toNat) / 256) (by omega),
    ofNat_eq_of_toNat (b := lo) (n := (hi.toNat * 256 + lo.toNat) % 256) (by omega)]

/-! ## A reply to rely upon -/

namespace GroupReply

/-- The frame is the success reply that carries this address. -/
def Carries (t : UInt8) (f : List UInt8) (ip : CStr) (port : UInt16) : Prop :=
  chatEncodeGroupRepOk (.ofByte t) ip port = some f

/-- What a call that created or joined `group` has told its caller, and done to the screen, rests on
the reply `f`. -/
structure Honest {ε : Type} (t : UInt8) (f : List UInt8) (os : Desktop ε) (al : Alloc) (e : ε)
    (m : ClientMng) (group : CStr) (r : ClientMng.Result ε) : Prop where
  /-- Success is reported with the address in the reply. -/
  reported : r.status = .ok → Carries t f r.outIp r.outPort
  /-- Windows are opened with the address in the reply, or not at all. -/
  windows : r.client.groups = m.groups ∧ r.desktop = e ∨
    Carries t f r.outIp r.outPort ∧
      (r.client.groups, r.desktop) =
        (m.groups.onJoin os group r.outIp r.outPort m.username al e).2

/-- **A reply to rely upon.** -/
structure Faithful (t : UInt8) (f : List UInt8) : Prop where
  /-- Success is decoded only from the encoding of what is delivered. -/
  ok : ∀ ip port, chatDecodeGroupRepOk f = .ok (.ok, ip, port) → Carries t f (.ofBuffer ip) port
  /-- Every other status is decoded only from its status reply. -/
  failed : ∀ st ip port, chatDecodeGroupRepOk f = .ok (st, ip, port) → st ≠ .ok →
    f = chatEncodeStatusRep (.ofByte t) st
  /-- A client that gets it while it creates a group. -/
  createGroup : ∀ {ε : Type} (os : Desktop ε) (al : Alloc) (e : ε) (m : ClientMng) (w : Wire)
    (group : CStr) (traffic : Traffic),
    m.exchange w (chatEncodeGroupnameReq .createGroupReq group) = (some f, traffic) →
    Honest t f os al e m group (m.createGroup w os al e group)
  /-- A client that gets it while it joins one. -/
  joinGroup : ∀ {ε : Type} (os : Desktop ε) (al : Alloc) (e : ε) (m : ClientMng) (w : Wire)
    (group : CStr) (traffic : Traffic),
    m.exchange w (chatEncodeGroupnameReq .joinGroupReq group) = (some f, traffic) →
    Honest t f os al e m group (m.joinGroup w os al e group)

/-- **What a strict decoder would insist on.**  Nothing stands behind an error status; a success has
an address; nothing stands behind the port, and the address has no NUL in it. -/
structure Strict (payload : List UInt8) : Prop where
  failed : ∀ c tail, payload = c :: tail → c ≠ 0 → tail = []
  not_bare : payload ≠ [0]
  address : ∀ (lip hi lo : UInt8) (ip tail : List UInt8),
    payload = 0 :: lip :: (ip ++ 2 :: hi :: lo :: tail) → lip.toNat = ip.length →
    ip.length < chatMaxIpStrLen → tail = [] ∧ 0 ∉ ip

variable {t l : UInt8} {payload : List UInt8}

theorem Strict.carries (h : Strict payload) (hl : payload.length = l.toNat) {ip : List UInt8}
    {port : UInt16} (hdec : chatDecodeGroupRepOk (t :: l :: payload) = .ok (.ok, ip, port)) :
    Carries t (t :: l :: payload) (.ofBuffer ip) port := by
  obtain ⟨c, tail, rfl, hc, ⟨hform, -, -⟩ | ⟨rfl, lip, hi, lo, rest, rfl, hlip, him, rfl⟩⟩ :=
    chatDecodeGroupRepOk_eq_ok hdec
  · obtain rfl : c = 0 := ChatStatus.ofByte_eq_ok_iff.mp hc.symm
    have hone : l.toNat = 1 := hform.resolve_left (not_not.mpr rfl)
    rw [hone, List.length_cons, Nat.add_eq_right, List.length_eq_zero_iff] at hl
    exact absurd (by rw [hl]) h.not_bare
  · obtain ⟨rfl, hip⟩ := h.address lip hi lo ip rest rfl hlip him
    have hbytes := bytes_ofBuffer hip
    rw [← hbytes] at hl hlip him
    have henc := chatEncodeGroupRepOk_of_shape (t := t) hl hlip him
    rwa [hbytes] at henc

theorem Strict.status (h : Strict payload) (hl : payload.length = l.toNat) {st : ChatStatus}
    {ip : List UInt8} {port : UInt16}
    (hdec : chatDecodeGroupRepOk (t :: l :: payload) = .ok (st, ip, port)) (hst : st ≠ .ok) :
    t :: l :: payload = chatEncodeStatusRep (.ofByte t) st := by
  obtain ⟨c, tail, rfl, rfl, -⟩ := chatDecodeGroupRepOk_eq_ok hdec
  have hc : c ≠ 0 := fun h0 => hst (ChatStatus.ofByte_eq_ok_iff.mpr h0)
  obtain rfl := h.failed c tail rfl hc
  rw [chatEncodeStatusRep, ChatOpcode.toByte_ofByte, ChatStatus.toByte_ofByte,
    ← ofNat_eq_of_toNat hl.symm]
  rfl

/-- What a call makes of a reply that carries what is decoded from it. -/
theorem honest_enterGroup {ε : Type} (os : Desktop ε) (al : Alloc) (e : ε) {m : ClientMng}
    {w : Wire} {op : ChatOpcode} {group : CStr} {f : List UInt8} {traffic : Traffic}
    (hok : ∀ ip port, chatDecodeGroupRepOk f = .ok (.ok, ip, port) →
      Carries t f (.ofBuffer ip) port)
    (hex : m.exchange w (chatEncodeGroupnameReq op group) = (some f, traffic)) :
    Honest t f os al e m group (m.enterGroup w os al e op group) := by
  cases hdec : chatDecodeGroupRepOk f with
  | error fault =>
    have hjoin : m.doGroupJoin w op group = (.errProtocol, .empty, 0, traffic) := by
      rw [ClientMng.doGroupJoin, hex]
      simp only [hdec]
    rw [ClientMng.enterGroup, hjoin]
    exact ⟨fun h => absurd h (by simp), .inl ⟨rfl, rfl⟩⟩
  | ok value =>
    obtain ⟨st, ip, port⟩ := value
    have hjoin : m.doGroupJoin w op group = (st, .ofBuffer ip, port, traffic) := by
      rw [ClientMng.doGroupJoin, hex]
      simp only [hdec]
    rw [ClientMng.enterGroup, hjoin]
    simp only
    by_cases hst : st = .ok
    · subst hst
      rw [if_pos rfl]
      exact ⟨fun _ => hok ip port hdec, .inr ⟨hok ip port hdec, rfl⟩⟩
    · rw [if_neg hst]
      exact ⟨fun h => absurd h hst, .inl ⟨rfl, rfl⟩⟩

theorem Strict.faithful (h : Strict payload) (hl : payload.length = l.toNat) :
    Faithful t (t :: l :: payload) where
  ok _ _ hdec := h.carries hl hdec
  failed _ _ _ hdec hst := h.status hl hdec hst
  createGroup os al e _ _ _ _ hex := honest_enterGroup os al e (fun _ _ => h.carries hl) hex
  joinGroup os al e _ _ _ _ hex := honest_enterGroup os al e (fun _ _ => h.carries hl) hex

theorem Faithful.strict (h : Faithful t (t :: l :: payload)) (hl : payload.length = l.toNat) :
    Strict payload := by
  refine ⟨?_, ?_, ?_⟩
  · rintro c tail rfl hc
    have hdec := chatDecodeGroupRepOk_short (t := t) hl.ge (by rw [← hl]; simp) (.inl hc)
    have hst : ChatStatus.ofByte c ≠ .ok := fun h0 => hc (ChatStatus.ofByte_eq_ok_iff.mp h0)
    exact (List.cons.inj (List.cons.inj (List.cons.inj (h.failed _ _ _ hdec hst)).2).2).2
  · rintro rfl
    have hcarries := h.ok _ _ (chatDecodeGroupRepOk_short hl.ge hl.le (.inr hl.symm))
    rw [Carries, chatEncodeGroupRepOk_eq (by decide), Option.some_inj] at hcarries
    exact absurd (congrArg List.length hcarries) (by simp)
  · rintro lip hi lo ip tail rfl hlip him
    simp only [List.length_cons, List.length_append] at hl
    have hdec : chatDecodeGroupRepOk (t :: l :: 0 :: lip :: (ip ++ 2 :: hi :: lo :: tail)) =
        .ok (.ok, ip, .ofNat (hi.toNat * 256 + lo.toNat)) :=
      chatDecodeGroupRepOk_of_shape rfl (by omega) (by omega) hlip him
    have hcarries := h.ok _ _ hdec
    -- decoding the encoded frame delivers what was encoded
    have hback := chatDecodeGroupRepOk_encode hcarries []
    rw [List.append_nil, hdec, Except.ok.injEq, Prod.mk.injEq, Prod.mk.injEq] at hback
    have hip := hback.2.1
    refine ⟨?_, hip ▸ CStr.noNul _⟩
    rw [hip] at him
    rw [Carries, chatEncodeGroupRepOk_eq him, Option.some_inj] at hcarries
    have hlen := congrArg List.length hcarries
    rw [← hip] at hlen
    simp only [List.length_cons, List.length_append, List.length_nil] at hlen
    exact List.length_eq_zero_iff.mp (by omega)

end GroupReply

open GroupReply

/-- **When a group reply means what the server sent.** -/
theorem groupReply_faithful_iff {t l : UInt8} {payload : List UInt8}
    (hl : payload.length = l.toNat) : Faithful t (t :: l :: payload) ↔ Strict payload :=
  ⟨fun h => h.strict hl, fun h => h.faithful hl⟩

/-- The reply to a failed request can be relied upon. -/
theorem groupReply_faithful_iff_failed : Faithful 8 [8, 1, 6] := by
  have hlen : ([6] : List UInt8).length = (1 : UInt8).toNat := rfl
  refine (groupReply_faithful_iff hlen).mpr ⟨?_, by decide, ?_⟩
  · intro c tail h _
    exact (List.cons.inj h).2.symm
  · intro lip hi lo ip tail h
    exact absurd h (by simp)

/-- A reply of the status byte `ST_OK` alone: the decoder takes it for a success, and the client
reports the empty address and port 0. -/
theorem bareOk_not_faithful :
    ¬ ∀ (t l : UInt8) (payload : List UInt8), payload.length = l.toNat →
      Faithful t (t :: l :: payload) := by
  intro h
  have hcarries := (h 8 1 [0] rfl).ok [] 0 rfl
  exact absurd hcarries (by unfold Carries; decide)

end ChatProject
