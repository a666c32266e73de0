import ChatProject.Shared.Protocol

/-!
# The codec as a whole

`Shared/Protocol.lean` embeds the encoders and the decoders and shows that each pair fits together.
Here the codec is looked at from outside, by somebody who has only the bytes.

* `codec_round_trip` — every value that can be encoded comes back, whatever follows its frame.
* `DecodeSafe` — a decoder ends with a value or with -1, and never by reading or writing where it
  must not.  `decoders_safe` says this of every decoder and every buffer.  A decoder that returns -1
  on every `tlv.Incomplete` buffer rejects every strict prefix of a frame.
* `chatDecodeUserPass_eq_ok_iff`, `chatDecodeGroupname_eq_ok_iff` — which buffers the two request
  decoders accept, byte for byte.
* `requests_canonical_iff` — the accepted buffers are more than the encoded ones: neither decoder
  asks whether its last field ends where the payload ends, nor whether a name has a NUL in it.
-/

set_option autoImplicit false

namespace ChatProject

open Framing

/-! ## Codes -/

/-- One comparison of a cast to an enumeration. -/
theorem ite_code {b code other : UInt8} (h : other = b) :
    (if b = code then code else other) = b := by
  split
  · next hb => exact hb.symm
  · exact h

/-- The cast of a byte to an opcode loses nothing. -/
theorem ChatOpcode.toByte_ofByte (b : UInt8) : (ChatOpcode.ofByte b).toByte = b := by
  rw [ChatOpcode.ofByte]
  simp only [apply_ite ChatOpcode.toByte]
  iterate 12 refine ite_code ?_
  rfl

/-- The cast of a byte to a status loses nothing. -/
theorem ChatStatus.toByte_ofByte (b : UInt8) : (ChatStatus.ofByte b).toByte = b := by
  rw [ChatStatus.ofByte]
  simp only [apply_ite ChatStatus.toByte]
  iterate 12 refine ite_code ?_
  rfl

theorem ChatStatus.ofByte_eq_ok_iff {b : UInt8} : ChatStatus.ofByte b = .ok ↔ b = 0 := by
  constructor
  · intro h
    rw [← ChatStatus.toByte_ofByte b, h]
    rfl
  · rintro rfl
    rfl

/-! ## Frames that are encoded -/

theorem isFrame_cons {t l : UInt8} {payload : List UInt8} (h : l.toNat = payload.length) :
    tlv.IsFrame (t :: l :: payload) := by
  show some (2 + l.toNat) = some (t :: l :: payload).length
  rw [h, List.length_cons, List.length_cons, Nat.add_comm]

/-- A frame of the protocol with type byte `t` and something in its payload. -/
structure Framed (t : UInt8) (f : List UInt8) : Prop where
  three_le : 3 ≤ f.length
  le_max : f.length ≤ chatMaxMsgSize
  header : ∃ l : UInt8, chatPeekHeader f = some (t, l) ∧ f.length = 2 + l.toNat

theorem Framed.isFrame {t : UInt8} {f : List UInt8} (h : Framed t f) : tlv.IsFrame f := by
  obtain ⟨l, hpeek, hlen⟩ := h.header
  rw [Framing.IsFrame, tlv_size_eq hpeek, hlen]

theorem framed_cons {t : UInt8} {n : Nat} {payload : List UInt8} (hn : n = payload.length)
    (hpos : 0 < n) (hmax : n ≤ chatMaxPayload) : Framed t (t :: UInt8.ofNat n :: payload) := by
  have hl : (UInt8.ofNat n).toNat = n := toNat_ofNat_of_le hmax
  refine ⟨?_, ?_, _, rfl, ?_⟩
  · rw [List.length_cons, List.length_cons]
    omega
  · rw [List.length_cons, List.length_cons, chatMaxMsgSize]
    omega
  · rw [hl, List.length_cons, List.length_cons]
    omega

theorem chatEncodeUserPassReq_eq_none_iff {op : ChatOpcode} {user pass : CStr} :
    chatEncodeUserPassReq op user pass = none ↔
      user.length > chatMaxUsernameLen ∨ pass.length > chatMaxPasswordLen := by
  by_cases h : user.length > chatMaxUsernameLen ∨ pass.length > chatMaxPasswordLen
  · exact iff_of_true (if_pos h) h
  · have hfit := h
    rw [not_or, Nat.not_lt, Nat.not_lt] at hfit
    rw [chatEncodeUserPassReq_eq hfit.1 hfit.2]
    exact iff_of_false (Option.some_ne_none _) h

theorem chatEncodeGroupnameReq_eq_none_iff {op : ChatOpcode} {group : CStr} :
    chatEncodeGroupnameReq op group = none ↔ group.length > chatMaxGroupnameLen := by
  by_cases h : group.length > chatMaxGroupnameLen
  · exact iff_of_true (if_pos h) h
  · rw [chatEncodeGroupnameReq_eq (Nat.le_of_not_lt h)]
    exact iff_of_false (Option.some_ne_none _) h

theorem chatEncodeGroupRepOk_eq_none_iff {op : ChatOpcode} {ip : CStr} {port : UInt16} :
    chatEncodeGroupRepOk op ip port = none ↔ ip.length ≥ chatMaxIpStrLen := by
  by_cases h : ip.length ≥ chatMaxIpStrLen
  · exact iff_of_true (if_pos h) h
  · rw [chatEncodeGroupRepOk_eq (Nat.lt_of_not_le h)]
    exact iff_of_false (Option.some_ne_none _) h

theorem framed_userPassReq {op : ChatOpcode} {user pass : CStr} {f : List UInt8}
    (h : chatEncodeUserPassReq op user pass = some f) : Framed op.toByte f := by
  obtain ⟨hu, hp, rfl⟩ := chatEncodeUserPassReq_eq_some h
  simp only [chatMaxUsernameLen, chatMaxPasswordLen] at hu hp
  refine framed_cons ?_ (by omega) (by rw [chatMaxPayload]; omega)
  simp only [List.length_cons, List.length_append, CStr.length]
  omega

theorem framed_groupnameReq {op : ChatOpcode} {group : CStr} {f : List UInt8}
    (h : chatEncodeGroupnameReq op group = some f) : Framed op.toByte f := by
  obtain ⟨hg, rfl⟩ := chatEncodeGroupnameReq_eq_some h
  simp only [chatMaxGroupnameLen] at hg
  refine framed_cons ?_ (by omega) (by rw [chatMaxPayload]; omega)
  simp only [List.length_cons, CStr.length]
  omega

theorem framed_groupRepOk {op : ChatOpcode} {ip : CStr} {port : UInt16} {f : List UInt8}
    (h : chatEncodeGroupRepOk op ip port = some f) : Framed op.toByte f := by
  obtain ⟨hip, rfl⟩ := chatEncodeGroupRepOk_eq_some h
  simp only [chatMaxIpStrLen] at hip
  refine framed_cons ?_ (by omega) (by rw [chatMaxPayload]; omega)
  simp only [List.length_cons, List.length_append, List.length_nil, CStr.length]
  omega

theorem framed_statusRep (op : ChatOpcode) (st : ChatStatus) :
    Framed op.toByte (chatEncodeStatusRep op st) :=
  framed_cons (n := 1) rfl Nat.one_pos (by decide)

/-! ## The round trip -/

/-- **An encoder and a decoder fit together.**  The encoder gives up exactly on what is too long;
what it writes is a frame of type `t`, and the decoder reads the value out of it again, whatever
stands behind. -/
structure RoundTrip {β : Type} (t : UInt8) (encoded : Option (List UInt8)) (TooLong : Prop)
    (decode : List UInt8 → Except DecodeFault β) (value : β) : Prop where
  eq_none_iff : encoded = none ↔ TooLong
  framed : ∀ f, encoded = some f → Framed t f
  decode_append : ∀ f, encoded = some f → ∀ rest, decode (f ++ rest) = .ok value

/-- A status reply never fails to be encoded, and every decoder that undoes it is its match. -/
theorem roundTrip_statusRep {β : Type} (op : ChatOpcode) {st : ChatStatus}
    {decode : List UInt8 → Except DecodeFault β} {value : β}
    (h : ∀ rest, decode (chatEncodeStatusRep op st ++ rest) = .ok value) :
    RoundTrip op.toByte (some (chatEncodeStatusRep op st)) False decode value := by
  refine ⟨iff_of_false (Option.some_ne_none _) not_false, ?_, ?_⟩
  · rintro f ⟨⟩
    exact framed_statusRep op st
  · rintro f ⟨⟩
    exact h

/-- **The codec round trip**, over the whole format: every opcode byte, every pair of names, every
group name, every status byte and every address. -/
theorem codec_round_trip (t b : UInt8) (user pass group ip : CStr) (port : UInt16) :
    RoundTrip t (chatEncodeUserPassReq (.ofByte t) user pass)
      (user.length > chatMaxUsernameLen ∨ pass.length > chatMaxPasswordLen)
      chatDecodeUserPass (user.bytes, pass.bytes) ∧
    RoundTrip t (chatEncodeGroupnameReq (.ofByte t) group) (group.length > chatMaxGroupnameLen)
      chatDecodeGroupname group.bytes ∧
    RoundTrip t (some (chatEncodeStatusRep (.ofByte t) (.ofByte b))) False
      chatDecodeStatusRep (.ofByte b) ∧
    RoundTrip t (chatEncodeGroupRepOk (.ofByte t) ip port) (ip.length ≥ chatMaxIpStrLen)
      chatDecodeGroupRepOk (.ok, ip.bytes, port) ∧
    (ChatStatus.ofByte b ≠ .ok →
      RoundTrip t (some (chatEncodeStatusRep (.ofByte t) (.ofByte b))) False
        chatDecodeGroupRepOk (.ofByte b, [], 0)) ∧
    (ChatStatus.ofByte b).toByte = b := by
  have ht : (ChatOpcode.ofByte t).toByte = t := ChatOpcode.toByte_ofByte t
  have hb : ChatStatus.ofByte (ChatStatus.ofByte b).toByte = .ofByte b := by
    rw [ChatStatus.toByte_ofByte]
  refine ⟨?_, ?_, ?_, ?_, ?_, ChatStatus.toByte_ofByte b⟩
  · exact ⟨chatEncodeUserPassReq_eq_none_iff, fun f h => ht ▸ framed_userPassReq h,
      fun f h => chatDecodeUserPass_encode h⟩
  · exact ⟨chatEncodeGroupnameReq_eq_none_iff, fun f h => ht ▸ framed_groupnameReq h,
      fun f h => chatDecodeGroupname_encode h⟩
  · have h := roundTrip_statusRep (.ofByte t) (chatDecodeStatusRep_encode hb)
    rwa [ht] at h
  · exact ⟨chatEncodeGroupRepOk_eq_none_iff, fun f h => ht ▸ framed_groupRepOk h,
      fun f h => chatDecodeGroupRepOk_encode h⟩
  · intro _
    have h := roundTrip_statusRep (.ofByte t) (chatDecodeGroupRepOk_status hb)
    rwa [ht] at h

/-- The short form of a group reply, as the decoder chooses it, whatever follows the frame. -/
theorem chatDecodeGroupRepOk_short {t l c : UInt8} {tail : List UInt8}
    (hl : l.toNat ≤ (c :: tail).length) (hl1 : 1 ≤ l.toNat) (hshort : c ≠ 0 ∨ l.toNat = 1) :
    chatDecodeGroupRepOk (t :: l :: c :: tail) = .ok (.ofByte c, [], 0) := by
  have h1 : readByte (t :: l :: c :: tail) 1 = .ok l.toNat := readByte_at [t] rfl rfl
  have h2 : readByte (t :: l :: c :: tail) 2 = .ok c.toNat := readByte_at [t, l] rfl rfl
  rw [List.length_cons] at hl
  simp only [chatDecodeGroupRepOk, h1, h2, bind, Except.bind, UInt8.ofNat_toNat]
  rw [if_neg (by simp only [List.length_cons]; omega),
    if_neg (by simp only [List.length_cons]; omega),
    if_pos (by rwa [Ne, ChatStatus.ofByte_eq_ok_iff])]

/-! ## What a decoder accepts

The reads of a decoder that went well say what stands at the cursor, and where the cursor goes
next.  Followed from the front to the back they give the buffer. -/

theorem readByte_eq_ok {buf : List UInt8} {i n : Nat} (h : readByte buf i = .ok n) :
    ∃ b : UInt8, n = b.toNat ∧ buf.drop i = b :: buf.drop (i + 1) := by
  rw [readByte] at h
  by_cases hi : i < buf.length
  · rw [List.getElem?_eq_getElem hi] at h
    exact ⟨buf[i], (Except.ok.inj h).symm, List.drop_eq_getElem_cons hi⟩
  · rw [List.getElem?_eq_none (Nat.le_of_not_lt hi)] at h
    exact absurd h (by simp)

theorem readSpan_eq_ok {buf v : List UInt8} {pos n : Nat} (h : readSpan buf pos n = .ok v) :
    v.length = n ∧ buf.drop pos = v ++ buf.drop (pos + n) := by
  rw [readSpan] at h
  by_cases hle : pos + n ≤ buf.length
  · rw [if_pos hle, Except.ok.injEq] at h
    subst h
    refine ⟨?_, ?_⟩
    · rw [List.length_take, List.length_drop]
      omega
    · rw [← List.drop_drop, List.take_append_drop]
  · rw [if_neg hle] at h
    exact absurd h (by simp)

theorem copyOut_eq_ok {cap : Nat} {v w : List UInt8} (h : copyOut cap v = .ok w) :
    w = v ∧ w.length < cap := by
  refine ⟨?_, length_of_copyOut_eq_ok h⟩
  rw [copyOut] at h
  split at h
  · exact (Except.ok.inj h).symm
  · exact absurd h (by simp)

/-- **What the user/password decoder accepts**: two wrapped fields within their limits, and then
anything. -/
theorem chatDecodeUserPass_eq_ok {t l : UInt8} {payload user pass : List UInt8}
    (h : chatDecodeUserPass (t :: l :: payload) = .ok (user, pass)) :
    ∃ lu lp : UInt8, ∃ rest : List UInt8, payload = lu :: (user ++ lp :: (pass ++ rest)) ∧
      lu.toNat = user.length ∧ user.length ≤ chatMaxUsernameLen ∧
      lp.toNat = pass.length ∧ pass.length ≤ chatMaxPasswordLen := by
  obtain ⟨hum, hpm⟩ := length_of_chatDecodeUserPass h
  rw [chatDecodeUserPass] at h
  obtain ⟨_, -, h⟩ := bind_eq_ok (of_ite_error_eq_ok h)
  obtain ⟨ulen, hul, h⟩ := bind_eq_ok (of_ite_error_eq_ok (of_ite_error_eq_ok h))
  obtain ⟨uspan, hus, h⟩ := bind_eq_ok (of_ite_error_eq_ok h)
  obtain ⟨user', hu, h⟩ := bind_eq_ok h
  obtain ⟨plen, hpl, h⟩ := bind_eq_ok (of_ite_error_eq_ok h)
  obtain ⟨pspan, hps, h⟩ := bind_eq_ok (of_ite_error_eq_ok h)
  obtain ⟨pass', hp, h⟩ := bind_eq_ok h
  rw [Except.ok.injEq, Prod.mk.injEq] at h
  obtain ⟨rfl, rfl⟩ := h
  obtain ⟨rfl, -⟩ := copyOut_eq_ok hu
  obtain ⟨rfl, -⟩ := copyOut_eq_ok hp
  obtain ⟨lu, rfl, hd2⟩ := readByte_eq_ok hul
  obtain ⟨hulen, hd3⟩ := readSpan_eq_ok hus
  obtain ⟨lp, rfl, hd4⟩ := readByte_eq_ok hpl
  obtain ⟨hplen, hd5⟩ := readSpan_eq_ok hps
  rw [hd3, hd4, hd5] at hd2
  exact ⟨lu, lp, _, hd2, hulen.symm, hum, hplen.symm, hpm⟩

/-- **What the group-name decoder accepts**: a wrapped field within its limit, and then
anything. -/
theorem chatDecodeGroupname_eq_ok {t l : UInt8} {payload group : List UInt8}
    (h : chatDecodeGroupname (t :: l :: payload) = .ok group) :
    ∃ lg : UInt8, ∃ rest : List UInt8, payload = lg :: (group ++ rest) ∧
      lg.toNat = group.length ∧ group.length ≤ chatMaxGroupnameLen := by
  have hgm := length_of_chatDecodeGroupname h
  rw [chatDecodeGroupname] at h
  obtain ⟨_, -, h⟩ := bind_eq_ok (of_ite_error_eq_ok h)
  obtain ⟨glen, hgl, h⟩ := bind_eq_ok (of_ite_error_eq_ok (of_ite_error_eq_ok h))
  obtain ⟨span, hs, h⟩ := bind_eq_ok (of_ite_error_eq_ok h)
  obtain ⟨rfl, -⟩ := copyOut_eq_ok h
  obtain ⟨lg, rfl, hd2⟩ := readByte_eq_ok hgl
  obtain ⟨hlen, hd3⟩ := readSpan_eq_ok hs
  rw [hd3] at hd2
  exact ⟨lg, _, hd2, hlen.symm, hgm⟩

/-- **What the group-reply decoder accepts.**  It looks at the status byte and at `L`: an error
status, or any status in a payload of one byte, is the short form; `ST_OK` in a longer payload is
the long form, with two wrapped fields and then anything. -/
theorem chatDecodeGroupRepOk_eq_ok {t l : UInt8} {payload ip : List UInt8} {st : ChatStatus}
    {port : UInt16} (h : chatDecodeGroupRepOk (t :: l :: payload) = .ok (st, ip, port)) :
    ∃ (c : UInt8) (tail : List UInt8), payload = c :: tail ∧ st = .ofByte c ∧
      ((c ≠ 0 ∨ l.toNat = 1) ∧ ip = [] ∧ port = 0 ∨
        c = 0 ∧ ∃ lip hi lo : UInt8, ∃ rest : List UInt8,
          tail = lip :: (ip ++ 2 :: hi :: lo :: rest) ∧ lip.toNat = ip.length ∧
          ip.length < chatMaxIpStrLen ∧ port = UInt16.ofNat (hi.toNat * 256 + lo.toNat)) := by
  rw [chatDecodeGroupRepOk] at h
  obtain ⟨len, hlen, h⟩ := bind_eq_ok (of_ite_error_eq_ok h)
  obtain rfl : l.toNat = len := Except.ok.inj hlen
  obtain ⟨code, hcode, h⟩ := bind_eq_ok (of_ite_error_eq_ok h)
  obtain ⟨c, rfl, hd2⟩ := readByte_eq_ok hcode
  rw [UInt8.ofNat_toNat] at h
  dsimp only at h
  by_cases hshort : ChatStatus.ofByte c ≠ .ok ∨ l.toNat = 1
  · rw [if_pos hshort, Except.ok.injEq, Prod.mk.injEq, Prod.mk.injEq] at h
    refine ⟨c, _, hd2, h.1.symm, .inl ⟨?_, h.2.1.symm, h.2.2.symm⟩⟩
    rwa [Ne, ChatStatus.ofByte_eq_ok_iff] at hshort
  · rw [if_neg hshort] at h
    rw [not_or, Ne, not_not] at hshort
    obtain ⟨iplen, hil, h⟩ := bind_eq_ok (of_ite_error_eq_ok h)
    obtain ⟨span, hs, h⟩ := bind_eq_ok (of_ite_error_eq_ok h)
    obtain ⟨ip', hip, h⟩ := bind_eq_ok h
    obtain ⟨portlen, hpl, h⟩ := bind_eq_ok (of_ite_error_eq_ok h)
    obtain ⟨hguard, h⟩ := guard_eq_ok h
    obtain ⟨hiN, hhi, h⟩ := bind_eq_ok h
    obtain ⟨loN, hlo, h⟩ := bind_eq_ok h
    rw [Except.ok.injEq, Prod.mk.injEq, Prod.mk.injEq] at h
    obtain ⟨rfl, rfl, rfl⟩ := h
    obtain ⟨rfl, him⟩ := copyOut_eq_ok hip
    obtain ⟨lip, rfl, hd3⟩ := readByte_eq_ok hil
    obtain ⟨hiplen, hd4⟩ := readSpan_eq_ok hs
    obtain ⟨two, rfl, hd5⟩ := readByte_eq_ok hpl
    obtain ⟨hi, rfl, hd6⟩ := readByte_eq_ok hhi
    obtain ⟨lo, rfl, hd7⟩ := readByte_eq_ok hlo
    obtain rfl : two = 2 := by
      rw [not_or, Ne, not_not] at hguard
      exact UInt8.toNat_inj.mp hguard.1
    rw [hd4, hd5, hd6, hd7] at hd3
    exact ⟨c, _, hd2, rfl, .inr ⟨ChatStatus.ofByte_eq_ok_iff.mp hshort.1, lip, hi, lo, _, hd3,
      hiplen.symm, him, rfl⟩⟩

theorem length_of_chatDecodeGroupRepOk {buf ip : List UInt8} {st : ChatStatus} {port : UInt16}
    (h : chatDecodeGroupRepOk buf = .ok (st, ip, port)) : ip.length < chatMaxIpStrLen := by
  match buf, h with
  | [], h | [_], h => exact absurd h (by simp [chatDecodeGroupRepOk])
  | t :: l :: payload, h =>
    obtain ⟨c, tail, -, -, ⟨-, rfl, -⟩ | ⟨-, lip, hi, lo, rest, -, -, him, -⟩⟩ :=
      chatDecodeGroupRepOk_eq_ok h
    · decide
    · exact him

/-! ## Hostile input

A decoder is a chain of guards, reads and copies.  Each guard is what makes the next read, or the
next copy, a safe one. -/

/-- The decoder ends with a value or with -1: it neither reads behind the buffer nor writes behind
an array of its caller's. -/
def DecodeSafe {α : Type} (x : Except DecodeFault α) : Prop :=
  ∀ fault, x = .error fault → fault = .malformed

namespace DecodeSafe

variable {α β : Type}

theorem ok (a : α) : DecodeSafe (.ok a) := fun _ h => absurd h (by simp)

theorem ite {c : Prop} [Decidable c] {x y : Except DecodeFault α} (hx : DecodeSafe x)
    (hy : ¬ c → DecodeSafe y) : DecodeSafe (if c then x else y) := by
  by_cases hc : c
  · rw [if_pos hc]
    exact hx
  · rw [if_neg hc]
    exact hy hc

theorem guard {c : Prop} [Decidable c] {x : Except DecodeFault α} (h : ¬ c → DecodeSafe x) :
    DecodeSafe (if c then .error .malformed else x) :=
  ite (fun _ hfault => (Except.error.inj hfault).symm) h

theorem bind {x : Except DecodeFault α} {f : α → Except DecodeFault β} (hx : DecodeSafe x)
    (hf : ∀ a, DecodeSafe (f a)) : DecodeSafe (x >>= f) := by
  cases x with
  | error fault => exact fun fault' h => hx fault' (congrArg _ (Except.error.inj h))
  | ok a => exact hf a

/-- Go on after a read within the buffer. -/
theorem read {buf : List UInt8} {i : Nat} {f : Nat → Except DecodeFault β} (hi : i < buf.length)
    (hf : ∀ n, DecodeSafe (f n)) : DecodeSafe (readByte buf i >>= f) := by
  refine bind ?_ hf
  rw [readByte, List.getElem?_eq_getElem hi]
  exact ok _

/-- Copying out a span of the buffer that the array has room for. -/
theorem copied {buf : List UInt8} {pos n cap : Nat} (hspan : pos + n ≤ buf.length)
    (hcap : n < cap) : DecodeSafe (readSpan buf pos n >>= fun v => copyOut cap v) := by
  have hlen : ((buf.drop pos).take n).length = n := by
    rw [List.length_take, List.length_drop]
    omega
  rw [readSpan, if_pos hspan]
  show DecodeSafe (copyOut cap ((buf.drop pos).take n))
  rw [copyOut_of_lt (by omega)]
  exact ok _

/-- Go on after it. -/
theorem copy {buf : List UInt8} {pos n cap : Nat} {f : List UInt8 → Except DecodeFault β}
    (hspan : pos + n ≤ buf.length) (hcap : n < cap) (hf : ∀ v, DecodeSafe (f v)) :
    DecodeSafe (readSpan buf pos n >>= fun v => copyOut cap v >>= f) := by
  rw [← bind_assoc]
  exact bind (copied hspan hcap) hf

end DecodeSafe

/-- `chat_peek_header` with its guard and its two reads written out. -/
def chatPeekHeaderReads (buf : List UInt8) : Except DecodeFault (UInt8 × UInt8) :=
  if buf.length < 2 then .error .malformed else do
  let type ← readByte buf 0
  let len ← readByte buf 1
  .ok (UInt8.ofNat type, UInt8.ofNat len)

theorem toOption_chatPeekHeaderReads (buf : List UInt8) :
    (chatPeekHeaderReads buf).toOption = chatPeekHeader buf := by
  match buf with
  | [] | [_] => rfl
  | t :: l :: rest =>
    have h0 : readByte (t :: l :: rest) 0 = .ok t.toNat := rfl
    have h1 : readByte (t :: l :: rest) 1 = .ok l.toNat := rfl
    simp only [chatPeekHeaderReads, h0, h1, bind, Except.bind, UInt8.ofNat_toNat]
    rw [if_neg (by simp only [List.length_cons]; omega)]
    rfl

theorem decodeSafe_chatPeekHeader (buf : List UInt8) : DecodeSafe (chatPeekHeaderReads buf) :=
  .guard fun h => .read (by omega) fun _ => .read (by omega) fun _ => .ok _

theorem decodeSafe_chatDecodeUserPass (buf : List UInt8) : DecodeSafe (chatDecodeUserPass buf) :=
  .guard fun _ => .read (by omega) fun payload =>
  .guard fun _ => .guard fun _ => .read (by omega) fun ulen =>
  .guard fun hu => .copy (by omega) (by omega) fun user =>
  .guard fun _ => .read (by omega) fun plen =>
  .guard fun hp => .copy (by omega) (by omega) fun pass => .ok _

theorem decodeSafe_chatDecodeStatusRep (buf : List UInt8) :
    DecodeSafe (chatDecodeStatusRep buf) :=
  .guard fun _ => .read (by omega) fun payload =>
  .guard fun _ => .read (by omega) fun code => .ok _

theorem decodeSafe_chatDecodeGroupname (buf : List UInt8) :
    DecodeSafe (chatDecodeGroupname buf) :=
  .guard fun _ => .read (by omega) fun payload =>
  .guard fun _ => .guard fun _ => .read (by omega) fun glen =>
  .guard fun hg => .copied (by omega) (by omega)

theorem decodeSafe_chatDecodeGroupRepOk (buf : List UInt8) :
    DecodeSafe (chatDecodeGroupRepOk buf) :=
  .guard fun _ => .read (by omega) fun payload =>
  .guard fun _ => .read (by omega) fun code =>
  .ite (.ok _) fun _ => .guard fun _ => .read (by omega) fun iplen =>
  .guard fun hip => .copy (by omega) (by omega) fun ip =>
  .guard fun _ => .read (by omega) fun portlen =>
  .guard fun hport => .read (by omega) fun hi => .read (by omega) fun lo => .ok _

/-! ### A frame that is cut off -/

/-- What every decoder finds out first: whether there is a header, and whether its length byte
promises more than there is. -/
theorem incomplete_cases {buf : List UInt8} (h : tlv.Incomplete buf) :
    buf.length < 2 ∨ ∃ l : UInt8, readByte buf 1 = .ok l.toNat ∧ buf.length < 2 + l.toNat := by
  match buf with
  | [] | [_] => exact .inl (by simp)
  | t :: l :: rest => exact .inr ⟨l, rfl, h _ rfl⟩

theorem chatDecodeUserPass_of_incomplete {buf : List UInt8} (h : tlv.Incomplete buf) :
    chatDecodeUserPass buf = .error .malformed := by
  rcases incomplete_cases h with hlt | ⟨l, hread, hlt⟩
  · exact if_pos hlt
  · simp only [chatDecodeUserPass, hread, bind, Except.bind]
    rw [if_pos hlt, ite_self]

theorem chatDecodeGroupname_of_incomplete {buf : List UInt8} (h : tlv.Incomplete buf) :
    chatDecodeGroupname buf = .error .malformed := by
  rcases incomplete_cases h with hlt | ⟨l, hread, hlt⟩
  · exact if_pos hlt
  · simp only [chatDecodeGroupname, hread, bind, Except.bind]
    rw [if_pos hlt, ite_self]

theorem chatDecodeGroupRepOk_of_incomplete {buf : List UInt8} (h : tlv.Incomplete buf) :
    chatDecodeGroupRepOk buf = .error .malformed := by
  rcases incomplete_cases h with hlt | ⟨l, hread, hlt⟩
  · exact if_pos (by omega)
  · simp only [chatDecodeGroupRepOk, hread, bind, Except.bind]
    rw [if_pos (Or.inl hlt), ite_self]

/-- The status decoder never compares `L` with the length it was given: it asks for three bytes and
for `L` to be 1. -/
theorem chatDecodeStatusRep_of_incomplete {buf : List UInt8} (h : tlv.Incomplete buf) :
    chatDecodeStatusRep buf = .error .malformed := by
  rcases incomplete_cases h with hlt | ⟨l, hread, hlt⟩
  · exact if_pos (by omega)
  · simp only [chatDecodeStatusRep, hread, bind, Except.bind]
    by_cases h3 : buf.length < 3
    · exact if_pos h3
    · rw [if_neg h3, if_pos (by omega)]

/-- **The decoders are safe on hostile input.**  On every buffer each of them reads only below the
length it was given and copies only what the array has room for; what it delivers fits with its
NUL; and it returns -1 on every strict prefix of a frame of its encoder. -/
theorem decoders_safe :
    (∀ buf : List UInt8,
      (chatPeekHeaderReads buf).toOption = chatPeekHeader buf ∧
      DecodeSafe (chatPeekHeaderReads buf) ∧ DecodeSafe (chatDecodeUserPass buf) ∧
      DecodeSafe (chatDecodeGroupname buf) ∧ DecodeSafe (chatDecodeStatusRep buf) ∧
      DecodeSafe (chatDecodeGroupRepOk buf)) ∧
    (∀ buf : List UInt8,
      (∀ user pass, chatDecodeUserPass buf = .ok (user, pass) →
        user.length + 1 ≤ 33 ∧ pass.length + 1 ≤ 33) ∧
      (∀ group, chatDecodeGroupname buf = .ok group → group.length + 1 ≤ 33) ∧
      (∀ st ip port, chatDecodeGroupRepOk buf = .ok (st, ip, port) → ip.length + 1 ≤ 16)) ∧
    (∀ (op : ChatOpcode) (f : List UInt8) (k : Nat), k < f.length →
      (∀ user pass, chatEncodeUserPassReq op user pass = some f →
        chatDecodeUserPass (f.take k) = .error .malformed) ∧
      (∀ group, chatEncodeGroupnameReq op group = some f →
        chatDecodeGroupname (f.take k) = .error .malformed) ∧
      (∀ st, chatEncodeStatusRep op st = f →
        chatDecodeStatusRep (f.take k) = .error .malformed ∧
        chatDecodeGroupRepOk (f.take k) = .error .malformed) ∧
      (∀ ip port, chatEncodeGroupRepOk op ip port = some f →
        chatDecodeGroupRepOk (f.take k) = .error .malformed) ∧
      (chatEncodeLogoutReq = f → chatPeekHeaderReads (f.take k) = .error .malformed)) := by
  refine ⟨fun buf => ⟨?_, ?_, ?_, ?_, ?_, ?_⟩, fun buf => ⟨?_, ?_, ?_⟩,
    fun op f k hk => ⟨?_, ?_, ?_, ?_, ?_⟩⟩
  · exact toOption_chatPeekHeaderReads buf
  · exact decodeSafe_chatPeekHeader buf
  · exact decodeSafe_chatDecodeUserPass buf
  · exact decodeSafe_chatDecodeGroupname buf
  · exact decodeSafe_chatDecodeStatusRep buf
  · exact decodeSafe_chatDecodeGroupRepOk buf
  · intro user pass h
    obtain ⟨hu, hp⟩ := length_of_chatDecodeUserPass h
    exact ⟨Nat.succ_le_succ hu, Nat.succ_le_succ hp⟩
  · intro group h
    exact Nat.succ_le_succ (length_of_chatDecodeGroupname h)
  · intro st ip port h
    exact length_of_chatDecodeGroupRepOk h
  · intro user pass h
    exact chatDecodeUserPass_of_incomplete ((framed_userPassReq h).isFrame.incomplete_take hk)
  · intro group h
    exact chatDecodeGroupname_of_incomplete ((framed_groupnameReq h).isFrame.incomplete_take hk)
  · rintro st rfl
    have hcut := (framed_statusRep op st).isFrame.incomplete_take hk
    exact ⟨chatDecodeStatusRep_of_incomplete hcut, chatDecodeGroupRepOk_of_incomplete hcut⟩
  · intro ip port h
    exact chatDecodeGroupRepOk_of_incomplete ((framed_groupRepOk h).isFrame.incomplete_take hk)
  · rintro rfl
    refine if_pos ?_
    rw [List.length_take]
    exact Nat.lt_of_le_of_lt (Nat.min_le_left _ _) hk

/-! ## Frames that no encoder writes

The program reads a delivered name up to its first NUL.  So a frame says the same as an encoded one,
without being one, in two ways: it has something behind the last field, or a NUL within a name. -/

theorem bytes_ofBuffer {v : List UInt8} (h : 0 ∉ v) : (CStr.ofBuffer v).bytes = v :=
  congrArg CStr.bytes (CStr.ofBuffer_bytes ⟨v, h⟩)

theorem ofNat_eq_of_toNat {b : UInt8} {n : Nat} (h : b.toNat = n) : UInt8.ofNat n = b := by
  rw [← h, UInt8.ofNat_toNat]

/-- The payload starts with two wrapped fields that the user/password decoder accepts, and `rest`
stands behind them. -/
structure UserPassShape (payload user pass rest : List UInt8) : Prop where
  eq : ∃ lu lp : UInt8, payload = lu :: (user ++ lp :: (pass ++ rest)) ∧
    lu.toNat = user.length ∧ lp.toNat = pass.length
  user_le : user.length ≤ chatMaxUsernameLen
  pass_le : pass.length ≤ chatMaxPasswordLen

/-- The payload starts with a wrapped field that the group-name decoder accepts, and `rest` stands
behind it. -/
structure GroupnameShape (payload group rest : List UInt8) : Prop where
  eq : ∃ lg : UInt8, payload = lg :: (group ++ rest) ∧ lg.toNat = group.length
  group_le : group.length ≤ chatMaxGroupnameLen

/-- On a whole frame the decoder accepts exactly the shape. -/
theorem chatDecodeUserPass_eq_ok_iff {t l : UInt8} {payload user pass : List UInt8}
    (hl : payload.length = l.toNat) :
    chatDecodeUserPass (t :: l :: payload) = .ok (user, pass) ↔
      ∃ rest, UserPassShape payload user pass rest := by
  constructor
  · intro h
    obtain ⟨lu, lp, rest, heq, hlu, hu, hlp, hp⟩ := chatDecodeUserPass_eq_ok h
    exact ⟨rest, ⟨lu, lp, heq, hlu, hlp⟩, hu, hp⟩
  · rintro ⟨rest, ⟨lu, lp, rfl, hlu, hlp⟩, hu, hp⟩
    refine chatDecodeUserPass_of_shape rfl ?_ hlu hu hlp hp
    rw [← hl]
    simp only [List.length_cons, List.length_append]
    omega

theorem chatDecodeGroupname_eq_ok_iff {t l : UInt8} {payload group : List UInt8}
    (hl : payload.length = l.toNat) :
    chatDecodeGroupname (t :: l :: payload) = .ok group ↔
      ∃ rest, GroupnameShape payload group rest := by
  constructor
  · intro h
    obtain ⟨lg, rest, heq, hlg, hg⟩ := chatDecodeGroupname_eq_ok h
    exact ⟨rest, ⟨lg, heq, hlg⟩, hg⟩
  · rintro ⟨rest, ⟨lg, rfl, hlg⟩, hg⟩
    rw [List.length_cons, List.length_append] at hl
    exact chatDecodeGroupname_of_shape rfl (by omega) (by omega) hlg hg

/-- A payload of exactly two wrapped C strings is what the encoder writes for them. -/
theorem chatEncodeUserPassReq_of_shape {t l : UInt8} {payload : List UInt8} {user pass : CStr}
    (hl : payload.length = l.toNat) (h : UserPassShape payload user.bytes pass.bytes []) :
    chatEncodeUserPassReq (.ofByte t) user pass = some (t :: l :: payload) := by
  obtain ⟨⟨lu, lp, heq, hlu, hlp⟩, hu, hp⟩ := h
  have hpayload : l.toNat = 1 + user.length + 1 + pass.length := by
    rw [← hl, heq, List.append_nil, List.length_cons, List.length_append, List.length_cons]
    simp only [CStr.length]
    omega
  rw [chatEncodeUserPassReq_eq hu hp, ChatOpcode.toByte_ofByte, ofNat_eq_of_toNat hpayload,
    ofNat_eq_of_toNat (n := user.length) hlu, ofNat_eq_of_toNat (n := pass.length) hlp, heq,
    List.append_nil]

theorem chatEncodeGroupnameReq_of_shape {t l : UInt8} {payload : List UInt8} {group : CStr}
    (hl : payload.length = l.toNat) (h : GroupnameShape payload group.bytes []) :
    chatEncodeGroupnameReq (.ofByte t) group = some (t :: l :: payload) := by
  obtain ⟨⟨lg, heq, hlg⟩, hg⟩ := h
  have hpayload : l.toNat = 1 + group.length := by
    rw [← hl, heq, List.append_nil, List.length_cons, Nat.add_comm]
    rfl
  rw [chatEncodeGroupnameReq_eq hg, ChatOpcode.toByte_ofByte, ofNat_eq_of_toNat hpayload,
    ofNat_eq_of_toNat (n := group.length) hlg, heq, List.append_nil]

/-- **When an accepted request is the encoded one.**  The decoders accept every payload that starts
with the wrapped names; the encoder gives the frame back exactly where the payload ends with the
last name and no name has a NUL in it. -/
theorem requests_canonical_iff {t l : UInt8} {payload : List UInt8}
    (hl : payload.length = l.toNat) :
    ((∀ user pass, chatDecodeUserPass (t :: l :: payload) = .ok (user, pass) →
        chatEncodeUserPassReq (.ofByte t) (.ofBuffer user) (.ofBuffer pass) =
          some (t :: l :: payload)) ↔
      ∀ user pass rest, UserPassShape payload user pass rest →
        rest = [] ∧ 0 ∉ user ∧ 0 ∉ pass) ∧
    ((∀ group, chatDecodeGroupname (t :: l :: payload) = .ok group →
        chatEncodeGroupnameReq (.ofByte t) (.ofBuffer group) = some (t :: l :: payload)) ↔
      ∀ group rest, GroupnameShape payload group rest → rest = [] ∧ 0 ∉ group) := by
  refine ⟨⟨?_, ?_⟩, ⟨?_, ?_⟩⟩
  · intro hcanon user pass rest hshape
    have hdec := (chatDecodeUserPass_eq_ok_iff (t := t) hl).mpr ⟨rest, hshape⟩
    have henc := hcanon user pass hdec
    -- decoding the encoded frame delivers what was encoded
    have hback := chatDecodeUserPass_encode henc []
    rw [List.append_nil, hdec, Except.ok.injEq, Prod.mk.injEq] at hback
    obtain ⟨hu, hp⟩ := hback
    refine ⟨?_, hu ▸ CStr.noNul _, hp ▸ CStr.noNul _⟩
    obtain ⟨⟨lu, lp, rfl, -, -⟩, hul, hpl⟩ := hshape
    rw [hu] at hul
    rw [hp] at hpl
    rw [chatEncodeUserPassReq_eq hul hpl, Option.some_inj] at henc
    have hlen := congrArg List.length henc
    rw [← hu, ← hp] at hlen
    simp only [List.length_cons, List.length_append] at hlen
    exact List.length_eq_zero_iff.mp (by omega)
  · intro hcond user pass hdec
    obtain ⟨rest, hshape⟩ := (chatDecodeUserPass_eq_ok_iff hl).mp hdec
    obtain ⟨rfl, hu, hp⟩ := hcond user pass rest hshape
    exact chatEncodeUserPassReq_of_shape hl (by rwa [bytes_ofBuffer hu, bytes_ofBuffer hp])
  · intro hcanon group rest hshape
    have hdec := (chatDecodeGroupname_eq_ok_iff (t := t) hl).mpr ⟨rest, hshape⟩
    have henc := hcanon group hdec
    have hback := chatDecodeGroupname_encode henc []
    rw [List.append_nil, hdec, Except.ok.injEq] at hback
    refine ⟨?_, hback ▸ CStr.noNul _⟩
    obtain ⟨⟨lg, rfl, -⟩, hgl⟩ := hshape
    rw [hback] at hgl
    rw [chatEncodeGroupnameReq_eq hgl, Option.some_inj] at henc
    have hlen := congrArg List.length henc
    rw [← hback] at hlen
    simp only [List.length_cons, List.length_append] at hlen
    exact List.length_eq_zero_iff.mp (by omega)
  · intro hcond group hdec
    obtain ⟨rest, hshape⟩ := (chatDecodeGroupname_eq_ok_iff hl).mp hdec
    obtain ⟨rfl, hg⟩ := hcond group rest hshape
    exact chatEncodeGroupnameReq_of_shape hl (by rwa [bytes_ofBuffer hg])

/-- An encoded frame comes back. -/
theorem requests_canonical_iff_encoded :
    chatDecodeUserPass [1, 4, 1, 97, 1, 98] = .ok ([97], [98]) ∧
      chatEncodeUserPassReq (.ofByte 1) (.ofBuffer [97]) (.ofBuffer [98]) =
        some [1, 4, 1, 97, 1, 98] := by
  have hdec : chatDecodeUserPass [1, 4, 1, 97, 1, 98] = .ok ([97], [98]) := rfl
  refine ⟨hdec, (requests_canonical_iff (t := 1) (l := 4) rfl).1.mpr ?_ [97] [98] hdec⟩
  rintro user pass rest ⟨⟨lu, lp, heq, hlu, hlp⟩, -, -⟩
  obtain ⟨rfl, huser⟩ := List.cons.inj heq
  obtain ⟨x, rfl⟩ := List.length_eq_one_iff.mp hlu.symm
  obtain ⟨rfl, hrest⟩ := List.cons.inj huser
  obtain ⟨rfl, hpass⟩ := List.cons.inj hrest
  obtain ⟨y, rfl⟩ := List.length_eq_one_iff.mp hlp.symm
  obtain ⟨rfl, rfl⟩ := List.cons.inj hpass
  exact ⟨rfl, by decide, by decide⟩

/-- One byte behind the password, or a NUL in a group name: the decoder takes the frame, and the
encoder would not have written it. -/
theorem requests_not_canonical :
    ¬ ∀ t l : UInt8, ∀ payload : List UInt8, payload.length = l.toNat →
      (∀ user pass, chatDecodeUserPass (t :: l :: payload) = .ok (user, pass) →
        chatEncodeUserPassReq (.ofByte t) (.ofBuffer user) (.ofBuffer pass) =
          some (t :: l :: payload)) ∧
      (∀ group, chatDecodeGroupname (t :: l :: payload) = .ok group →
        chatEncodeGroupnameReq (.ofByte t) (.ofBuffer group) = some (t :: l :: payload)) := by
  intro h
  have hbad := (h 1 5 [1, 97, 1, 98, 0] rfl).1 [97] [98] rfl
  exact absurd hbad (by decide)

end ChatProject
