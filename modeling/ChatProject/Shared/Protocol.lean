import ChatProject.Lib.Framing
import ChatProject.Shared.CRuntime

/-!
# The TLV control protocol

`shared/protocol.c`: one frame is `[T:1][L:1][payload:L]`, and the strings inside a payload are
wrapped as `[Li:1][Vi:Li]`.  Encoders return the bytes they write, or `none` where the C function
returns -1; the number the C function returns is the length of that list.

Decoders are handed a buffer together with its length.  In C nothing stops a decoder from reading
past that length or from writing past the caller's array, so both are outcomes of the model:
`readByte`, `readSpan` and `copyOut` raise `DecodeFault.readPastEnd` and
`DecodeFault.writePastEnd`, and `DecodeFault.malformed` is the honest -1.  What a decoder delivers
is the bytes it copied; the program reads them back as a C string (`CStr.ofBuffer`).

The second half of the file proves that each decoder undoes its encoder, which is what lets the
two ends of a connection be composed later, and says where one frame ends and the next begins
(`tlv`).
-/

set_option autoImplicit false

namespace ChatProject

/-! ## Constants -/

/-- `CHAT_MAX_PAYLOAD`: `L` is one byte. -/
def chatMaxPayload : Nat := 255

/-- `CHAT_MAX_MSG_SIZE`: `T + L + payload`. -/
def chatMaxMsgSize : Nat := 2 + chatMaxPayload

/-- `CHAT_MAX_USERNAME_LEN`. -/
def chatMaxUsernameLen : Nat := 32

/-- `CHAT_MAX_PASSWORD_LEN`. -/
def chatMaxPasswordLen : Nat := 32

/-- `CHAT_MAX_GROUPNAME_LEN`. -/
def chatMaxGroupnameLen : Nat := 32

/-- `CHAT_MAX_IP_STR_LEN`: the longest dotted quad and its NUL. -/
def chatMaxIpStrLen : Nat := 16

/-- `CHAT_MCAST_BASE_PORT`. -/
def chatMcastBasePort : UInt16 := 6000

/-! ## Opcodes and status codes -/

/-- `ChatOpcode`.  The server casts any type byte to it, so the bytes that name no opcode are
values too. -/
inductive ChatOpcode where
  | regReq | regRep
  | loginReq | loginRep
  | logoutReq | logoutRep
  | createGroupReq | createGroupRep
  | joinGroupReq | joinGroupRep
  | leaveGroupReq | leaveGroupRep
  | unknown (code : UInt8)
deriving DecidableEq, Repr

/-- `(uint8_t)op`. -/
def ChatOpcode.toByte : ChatOpcode → UInt8
  | .regReq => 0x01 | .regRep => 0x02
  | .loginReq => 0x03 | .loginRep => 0x04
  | .logoutReq => 0x05 | .logoutRep => 0x06
  | .createGroupReq => 0x07 | .createGroupRep => 0x08
  | .joinGroupReq => 0x09 | .joinGroupRep => 0x0A
  | .leaveGroupReq => 0x0B | .leaveGroupRep => 0x0C
  | .unknown code => code

/-- `(ChatOpcode)type`. -/
def ChatOpcode.ofByte (b : UInt8) : ChatOpcode :=
  if b = 0x01 then .regReq else if b = 0x02 then .regRep
  else if b = 0x03 then .loginReq else if b = 0x04 then .loginRep
  else if b = 0x05 then .logoutReq else if b = 0x06 then .logoutRep
  else if b = 0x07 then .createGroupReq else if b = 0x08 then .createGroupRep
  else if b = 0x09 then .joinGroupReq else if b = 0x0A then .joinGroupRep
  else if b = 0x0B then .leaveGroupReq else if b = 0x0C then .leaveGroupRep
  else .unknown b

/-- `ChatStatus`.  The client casts any status byte to it. -/
inductive ChatStatus where
  | ok
  | errUserExists
  | errUserNotFound
  | errBadPassword
  | errAlreadyLoggedIn
  | errNotLoggedIn
  | errGroupExists
  | errGroupNotFound
  | errAlreadyInGroup
  | errNotInGroup
  | errServerFull
  | errProtocol
  | unknown (code : UInt8)
deriving DecidableEq, Repr

/-- `(uint8_t)status`. -/
def ChatStatus.toByte : ChatStatus → UInt8
  | .ok => 0x00
  | .errUserExists => 0x01
  | .errUserNotFound => 0x02
  | .errBadPassword => 0x03
  | .errAlreadyLoggedIn => 0x04
  | .errNotLoggedIn => 0x05
  | .errGroupExists => 0x06
  | .errGroupNotFound => 0x07
  | .errAlreadyInGroup => 0x08
  | .errNotInGroup => 0x09
  | .errServerFull => 0x0A
  | .errProtocol => 0xFF
  | .unknown code => code

/-- `(ChatStatus)buf[2]`. -/
def ChatStatus.ofByte (b : UInt8) : ChatStatus :=
  if b = 0x00 then .ok else if b = 0x01 then .errUserExists
  else if b = 0x02 then .errUserNotFound else if b = 0x03 then .errBadPassword
  else if b = 0x04 then .errAlreadyLoggedIn else if b = 0x05 then .errNotLoggedIn
  else if b = 0x06 then .errGroupExists else if b = 0x07 then .errGroupNotFound
  else if b = 0x08 then .errAlreadyInGroup else if b = 0x09 then .errNotInGroup
  else if b = 0x0A then .errServerFull else if b = 0xFF then .errProtocol
  else .unknown b

/-- A status the server can compute: one of the twelve named codes. -/
def ChatStatus.Named (st : ChatStatus) : Prop := ∀ code, st ≠ .unknown code

theorem ChatStatus.ofByte_toByte {st : ChatStatus} (h : st.Named) :
    ChatStatus.ofByte st.toByte = st := by
  cases st with
  | unknown code => exact absurd rfl (h code)
  | _ => rfl

/-! ## Reading and copying under a bound -/

/-- How a decoder fails. -/
inductive DecodeFault where
  /-- The function returns -1. -/
  | malformed
  /-- An index at or past `buf_len` was read. -/
  | readPastEnd
  /-- More bytes were written than the caller's array holds. -/
  | writePastEnd
deriving DecidableEq, Repr

/-- `buf[i]`. -/
def readByte (buf : List UInt8) (i : Nat) : Except DecodeFault Nat :=
  match buf[i]? with
  | some b => .ok b.toNat
  | none => .error .readPastEnd

/-- The source of `memcpy(_, &buf[pos], n)`. -/
def readSpan (buf : List UInt8) (pos n : Nat) : Except DecodeFault (List UInt8) :=
  if pos + n ≤ buf.length then .ok ((buf.drop pos).take n) else .error .readPastEnd

/-- Copy `v` and a NUL into an array of `cap` bytes. -/
def copyOut (cap : Nat) (v : List UInt8) : Except DecodeFault (List UInt8) :=
  if v.length + 1 ≤ cap then .ok v else .error .writePastEnd

/-! ## The header -/

/-- `chat_peek_header`: `T` and `L`, or -1 below two bytes. -/
def chatPeekHeader (buf : List UInt8) : Option (UInt8 × UInt8) :=
  match buf with
  | t :: l :: _ => some (t, l)
  | _ => none

/-! ## Encoders -/

/-- `chat_encode_user_pass_req`: `[op][payload][Lu][user][Lp][pass]`. -/
def chatEncodeUserPassReq (op : ChatOpcode) (user pass : CStr) : Option (List UInt8) :=
  if user.length > chatMaxUsernameLen ∨ pass.length > chatMaxPasswordLen then none
  else
    let payload := 1 + user.length + 1 + pass.length
    if payload > chatMaxPayload then none
    else some ([op.toByte, UInt8.ofNat payload, UInt8.ofNat user.length] ++ user.bytes ++
      [UInt8.ofNat pass.length] ++ pass.bytes)

/-- `chat_encode_status_rep`: the status byte is not wrapped in a sub-field. -/
def chatEncodeStatusRep (op : ChatOpcode) (status : ChatStatus) : List UInt8 :=
  [op.toByte, 1, status.toByte]

/-- `chat_encode_groupname_req`: `[op][payload][Lg][group]`. -/
def chatEncodeGroupnameReq (op : ChatOpcode) (group : CStr) : Option (List UInt8) :=
  if group.length > chatMaxGroupnameLen then none
  else
    let payload := 1 + group.length
    if payload > chatMaxPayload then none
    else some ([op.toByte, UInt8.ofNat payload, UInt8.ofNat group.length] ++ group.bytes)

/-- `chat_encode_logout_req`: an empty payload. -/
def chatEncodeLogoutReq : List UInt8 := [ChatOpcode.logoutReq.toByte, 0]

/-- `chat_encode_group_rep_ok`: `[op][payload][ST_OK][Lip][ip][2][port_hi][port_lo]`. -/
def chatEncodeGroupRepOk (op : ChatOpcode) (mcastIp : CStr) (mcastPort : UInt16) :
    Option (List UInt8) :=
  if mcastIp.length ≥ chatMaxIpStrLen then none
  else
    let payload := 1 + (1 + mcastIp.length) + (1 + 2)
    if payload > chatMaxPayload then none
    else some ([op.toByte, UInt8.ofNat payload, ChatStatus.ok.toByte,
      UInt8.ofNat mcastIp.length] ++ mcastIp.bytes ++
      [2, UInt8.ofNat (mcastPort.toNat / 256), UInt8.ofNat (mcastPort.toNat % 256)])

/-! ## Decoders -/

/-- `chat_decode_user_pass`. -/
def chatDecodeUserPass (buf : List UInt8) : Except DecodeFault (List UInt8 × List UInt8) :=
  if buf.length < 2 then .error .malformed else do
  let payload ← readByte buf 1
  if 2 + payload > buf.length then .error .malformed else do
  if 2 ≥ buf.length then .error .malformed else do
  let ulen ← readByte buf 2
  if ulen > chatMaxUsernameLen ∨ 3 + ulen > buf.length then .error .malformed else do
  let user ← copyOut (chatMaxUsernameLen + 1) (← readSpan buf 3 ulen)
  let pos := 3 + ulen
  if pos ≥ buf.length then .error .malformed else do
  let plen ← readByte buf pos
  if plen > chatMaxPasswordLen ∨ pos + 1 + plen > buf.length then .error .malformed else do
  let pass ← copyOut (chatMaxPasswordLen + 1) (← readSpan buf (pos + 1) plen)
  .ok (user, pass)

/-- `chat_decode_status_rep`. -/
def chatDecodeStatusRep (buf : List UInt8) : Except DecodeFault ChatStatus :=
  if buf.length < 3 then .error .malformed else do
  let payload ← readByte buf 1
  if payload ≠ 1 then .error .malformed else do
  let code ← readByte buf 2
  .ok (ChatStatus.ofByte (UInt8.ofNat code))

/-- `chat_decode_groupname`. -/
def chatDecodeGroupname (buf : List UInt8) : Except DecodeFault (List UInt8) :=
  if buf.length < 2 then .error .malformed else do
  let payload ← readByte buf 1
  if 2 + payload > buf.length then .error .malformed else do
  if payload < 1 then .error .malformed else do
  let glen ← readByte buf 2
  if glen > chatMaxGroupnameLen ∨ 3 + glen > buf.length then .error .malformed else do
  copyOut (chatMaxGroupnameLen + 1) (← readSpan buf 3 glen)

/-- `chat_decode_group_rep_ok`: the status, and for `ST_OK` with a longer payload the address.
The short form leaves the empty string and port 0 in the outputs. -/
def chatDecodeGroupRepOk (buf : List UInt8) :
    Except DecodeFault (ChatStatus × List UInt8 × UInt16) :=
  if buf.length < 3 then .error .malformed else do
  let payload ← readByte buf 1
  if 2 + payload > buf.length ∨ payload < 1 then .error .malformed else do
  let code ← readByte buf 2
  let status := ChatStatus.ofByte (UInt8.ofNat code)
  if status ≠ .ok ∨ payload = 1 then .ok (status, [], 0) else do
  if 3 ≥ buf.length then .error .malformed else do
  let iplen ← readByte buf 3
  if iplen ≥ chatMaxIpStrLen ∨ 4 + iplen > buf.length then .error .malformed else do
  let ip ← copyOut chatMaxIpStrLen (← readSpan buf 4 iplen)
  let pos := 4 + iplen
  if pos ≥ buf.length then .error .malformed else do
  let portlen ← readByte buf pos
  if portlen ≠ 2 ∨ pos + 1 + 2 > buf.length then .error .malformed else do
  let hi ← readByte buf (pos + 1)
  let lo ← readByte buf (pos + 2)
  .ok (status, ip, UInt16.ofNat (hi * 256 + lo))

/-! ## What a decoder can deliver

`bind_eq_ok` takes a successful decoder apart step by step, without unfolding `bind`; the two
length bounds read off the `copyOut` step that every delivered string went through. -/

theorem bind_eq_ok {α β : Type} {x : Except DecodeFault α} {f : α → Except DecodeFault β} {r : β}
    (h : (x >>= f) = .ok r) : ∃ a, x = .ok a ∧ f a = .ok r := by
  cases x with
  | error e => exact absurd h (by simp [bind, Except.bind])
  | ok a => exact ⟨a, rfl, h⟩

theorem guard_eq_ok {α : Type} {c : Prop} [Decidable c] {e : DecodeFault}
    {x : Except DecodeFault α} {r : α} (h : (if c then .error e else x) = .ok r) :
    ¬ c ∧ x = .ok r := by
  split at h
  · exact absurd h (by simp)
  · next hc => exact ⟨hc, h⟩

theorem of_ite_error_eq_ok {α : Type} {c : Prop} [Decidable c] {e : DecodeFault}
    {x : Except DecodeFault α} {r : α} (h : (if c then .error e else x) = .ok r) : x = .ok r :=
  (guard_eq_ok h).2

theorem length_of_copyOut_eq_ok {cap : Nat} {v w : List UInt8} (h : copyOut cap v = .ok w) :
    w.length < cap := by
  rw [copyOut] at h
  split at h
  · rename_i hlt
    rw [Except.ok.injEq] at h
    exact h ▸ hlt
  · exact absurd h (by simp)

theorem length_of_chatDecodeUserPass {buf user pass : List UInt8}
    (h : chatDecodeUserPass buf = .ok (user, pass)) :
    user.length ≤ chatMaxUsernameLen ∧ pass.length ≤ chatMaxPasswordLen := by
  rw [chatDecodeUserPass] at h
  obtain ⟨payload, -, h⟩ := bind_eq_ok (of_ite_error_eq_ok h)
  obtain ⟨ulen, -, h⟩ := bind_eq_ok (of_ite_error_eq_ok (of_ite_error_eq_ok h))
  obtain ⟨uspan, -, h⟩ := bind_eq_ok (of_ite_error_eq_ok h)
  obtain ⟨user', hu, h⟩ := bind_eq_ok h
  obtain ⟨plen, -, h⟩ := bind_eq_ok (of_ite_error_eq_ok h)
  obtain ⟨pspan, -, h⟩ := bind_eq_ok (of_ite_error_eq_ok h)
  obtain ⟨pass', hp, h⟩ := bind_eq_ok h
  rw [Except.ok.injEq, Prod.mk.injEq] at h
  obtain ⟨rfl, rfl⟩ := h
  exact ⟨Nat.le_of_lt_succ (length_of_copyOut_eq_ok hu),
    Nat.le_of_lt_succ (length_of_copyOut_eq_ok hp)⟩

theorem length_of_chatDecodeGroupname {buf group : List UInt8}
    (h : chatDecodeGroupname buf = .ok group) : group.length ≤ chatMaxGroupnameLen := by
  rw [chatDecodeGroupname] at h
  obtain ⟨payload, -, h⟩ := bind_eq_ok (of_ite_error_eq_ok h)
  obtain ⟨glen, -, h⟩ := bind_eq_ok (of_ite_error_eq_ok (of_ite_error_eq_ok h))
  obtain ⟨span, -, h⟩ := bind_eq_ok (of_ite_error_eq_ok h)
  exact Nat.le_of_lt_succ (length_of_copyOut_eq_ok h)

/-! ## Round trips

A frame is read by walking a cursor over it, so each read of a decoder is the read of the byte, or
of the span, that stands right behind a known front.  The lemmas below say what such a read
returns; each round trip chains them along the frame. -/

theorem readByte_at (front : List UInt8) {buf rest : List UInt8} {b : UInt8} {i : Nat}
    (hbuf : buf = front ++ b :: rest) (hi : i = front.length) :
    readByte buf i = .ok b.toNat := by
  subst hbuf hi
  simp [readByte]

theorem readSpan_at (front : List UInt8) {buf v rest : List UInt8} {pos n : Nat}
    (hbuf : buf = front ++ (v ++ rest)) (hpos : pos = front.length) (hn : n = v.length) :
    readSpan buf pos n = .ok v := by
  subst hbuf hpos hn
  rw [readSpan, if_pos (by simp only [List.length_append]; omega), List.drop_left, List.take_left]

theorem copyOut_of_lt {cap : Nat} {v : List UInt8} (h : v.length < cap) :
    copyOut cap v = .ok v :=
  if_pos h

theorem toNat_ofNat_of_le {n : Nat} (h : n ≤ 255) : (UInt8.ofNat n).toNat = n :=
  UInt8.toNat_ofNat_of_lt' (by simp only [UInt8.size]; omega)

/-- What the user/password decoder needs of a frame to accept it. -/
theorem chatDecodeUserPass_of_shape {t l lu lp : UInt8} {buf user pass rest : List UInt8}
    (hbuf : buf = t :: l :: lu :: (user ++ lp :: (pass ++ rest)))
    (hl : l.toNat ≤ 2 + user.length + pass.length + rest.length)
    (hu : lu.toNat = user.length) (hum : user.length ≤ chatMaxUsernameLen)
    (hp : lp.toNat = pass.length) (hpm : pass.length ≤ chatMaxPasswordLen) :
    chatDecodeUserPass buf = .ok (user, pass) := by
  have h1 : readByte buf 1 = .ok l.toNat := readByte_at [t] hbuf rfl
  have h2 : readByte buf 2 = .ok lu.toNat := readByte_at [t, l] hbuf rfl
  have h3 : readSpan buf 3 lu.toNat = .ok user := readSpan_at [t, l, lu] hbuf rfl hu
  have h4 : readByte buf (3 + lu.toNat) = .ok lp.toNat :=
    readByte_at (t :: l :: lu :: user) hbuf (by simp only [List.length_cons]; omega)
  have h5 : readSpan buf (3 + lu.toNat + 1) lp.toNat = .ok pass :=
    readSpan_at (t :: l :: lu :: (user ++ [lp])) (show buf = _ ++ (pass ++ rest) by rw [hbuf]; simp)
      (by simp only [List.length_cons, List.length_append, List.length_nil]; omega) hp
  have hlen : buf.length = 4 + user.length + pass.length + rest.length := by
    rw [hbuf]
    simp only [List.length_cons, List.length_append]
    omega
  simp only [chatDecodeUserPass, h1, h2, h3, h4, h5, bind, Except.bind]
  rw [hlen, if_neg (by omega), if_neg (by omega), if_neg (by omega), if_neg (by omega),
    copyOut_of_lt (by omega)]
  simp only
  rw [if_neg (by omega), if_neg (by omega), copyOut_of_lt (by omega)]

/-- What the group-name decoder needs of a frame to accept it. -/
theorem chatDecodeGroupname_of_shape {t l lg : UInt8} {buf group rest : List UInt8}
    (hbuf : buf = t :: l :: lg :: (group ++ rest))
    (hl : l.toNat ≤ 1 + group.length + rest.length) (hl1 : 1 ≤ l.toNat)
    (hg : lg.toNat = group.length) (hgm : group.length ≤ chatMaxGroupnameLen) :
    chatDecodeGroupname buf = .ok group := by
  have h1 : readByte buf 1 = .ok l.toNat := readByte_at [t] hbuf rfl
  have h2 : readByte buf 2 = .ok lg.toNat := readByte_at [t, l] hbuf rfl
  have h3 : readSpan buf 3 lg.toNat = .ok group := readSpan_at [t, l, lg] hbuf rfl hg
  have hlen : buf.length = 3 + group.length + rest.length := by
    rw [hbuf]
    simp only [List.length_cons, List.length_append]
    omega
  simp only [chatDecodeGroupname, h1, h2, h3, bind, Except.bind]
  rw [hlen, if_neg (by omega), if_neg (by omega), if_neg (by omega), if_neg (by omega),
    copyOut_of_lt (by omega)]

/-- What the group-reply decoder needs of a frame to read an address out of it. -/
theorem chatDecodeGroupRepOk_of_shape {t l lip hi lo : UInt8} {buf ip rest : List UInt8}
    (hbuf : buf = t :: l :: 0 :: lip :: (ip ++ 2 :: hi :: lo :: rest))
    (hl : l.toNat ≤ 5 + ip.length + rest.length) (hl1 : 2 ≤ l.toNat)
    (hi' : lip.toNat = ip.length) (him : ip.length < chatMaxIpStrLen) :
    chatDecodeGroupRepOk buf = .ok (.ok, ip, UInt16.ofNat (hi.toNat * 256 + lo.toNat)) := by
  have h1 : readByte buf 1 = .ok l.toNat := readByte_at [t] hbuf rfl
  have h2 : readByte buf 2 = .ok (0 : UInt8).toNat := readByte_at [t, l] hbuf rfl
  have h3 : readByte buf 3 = .ok lip.toNat := readByte_at [t, l, 0] hbuf rfl
  have h4 : readSpan buf 4 lip.toNat = .ok ip := readSpan_at [t, l, 0, lip] hbuf rfl hi'
  have h5 : readByte buf (4 + lip.toNat) = .ok (2 : UInt8).toNat :=
    readByte_at (t :: l :: 0 :: lip :: ip) hbuf (by simp only [List.length_cons]; omega)
  have h6 : readByte buf (4 + lip.toNat + 1) = .ok hi.toNat :=
    readByte_at (t :: l :: 0 :: lip :: (ip ++ [2]))
      (show buf = _ ++ hi :: lo :: rest by rw [hbuf]; simp)
      (by simp only [List.length_cons, List.length_append, List.length_nil]; omega)
  have h7 : readByte buf (4 + lip.toNat + 2) = .ok lo.toNat :=
    readByte_at (t :: l :: 0 :: lip :: (ip ++ [2, hi]))
      (show buf = _ ++ lo :: rest by rw [hbuf]; simp)
      (by simp only [List.length_cons, List.length_append, List.length_nil]; omega)
  have hlen : buf.length = 7 + ip.length + rest.length := by
    rw [hbuf]
    simp only [List.length_cons, List.length_append]
    omega
  have hst : ChatStatus.ofByte (UInt8.ofNat (0 : UInt8).toNat) = .ok := by decide
  simp only [chatDecodeGroupRepOk, h1, h2, h3, h4, h5, h6, h7, bind, Except.bind, hst]
  rw [hlen, if_neg (by omega), if_neg (by omega), if_neg (by simp; omega), if_neg (by omega),
    if_neg (by omega), copyOut_of_lt him]
  simp only
  rw [if_neg (by omega), if_neg (by simp; omega)]

theorem chatEncodeUserPassReq_eq {op : ChatOpcode} {user pass : CStr}
    (hu : user.length ≤ chatMaxUsernameLen) (hp : pass.length ≤ chatMaxPasswordLen) :
    chatEncodeUserPassReq op user pass =
      some (op.toByte :: UInt8.ofNat (1 + user.length + 1 + pass.length) ::
        UInt8.ofNat user.length :: (user.bytes ++ UInt8.ofNat pass.length :: pass.bytes)) := by
  rw [chatEncodeUserPassReq, if_neg (by omega)]
  simp only [chatMaxUsernameLen, chatMaxPasswordLen] at hu hp
  rw [if_neg (by simp only [chatMaxPayload]; omega)]
  simp

/-- What the user/password encoder writes, it writes of names that fit. -/
theorem chatEncodeUserPassReq_eq_some {op : ChatOpcode} {user pass : CStr} {f : List UInt8}
    (h : chatEncodeUserPassReq op user pass = some f) :
    user.length ≤ chatMaxUsernameLen ∧ pass.length ≤ chatMaxPasswordLen ∧
      f = op.toByte :: UInt8.ofNat (1 + user.length + 1 + pass.length) ::
        UInt8.ofNat user.length :: (user.bytes ++ UInt8.ofNat pass.length :: pass.bytes) := by
  by_cases hbig : user.length > chatMaxUsernameLen ∨ pass.length > chatMaxPasswordLen
  · rw [chatEncodeUserPassReq, if_pos hbig] at h
    exact absurd h (by simp)
  rw [not_or, Nat.not_lt, Nat.not_lt] at hbig
  obtain ⟨hu, hp⟩ := hbig
  rw [chatEncodeUserPassReq_eq hu hp, Option.some_inj] at h
  exact ⟨hu, hp, h.symm⟩

theorem chatEncodeGroupnameReq_eq {op : ChatOpcode} {group : CStr}
    (hg : group.length ≤ chatMaxGroupnameLen) :
    chatEncodeGroupnameReq op group =
      some (op.toByte :: UInt8.ofNat (1 + group.length) :: UInt8.ofNat group.length ::
        group.bytes) := by
  rw [chatEncodeGroupnameReq, if_neg (by omega)]
  simp only [chatMaxGroupnameLen] at hg
  rw [if_neg (by simp only [chatMaxPayload]; omega)]
  simp

theorem chatEncodeGroupnameReq_eq_some {op : ChatOpcode} {group : CStr} {f : List UInt8}
    (h : chatEncodeGroupnameReq op group = some f) :
    group.length ≤ chatMaxGroupnameLen ∧
      f = op.toByte :: UInt8.ofNat (1 + group.length) :: UInt8.ofNat group.length ::
        group.bytes := by
  by_cases hbig : group.length > chatMaxGroupnameLen
  · rw [chatEncodeGroupnameReq, if_pos hbig] at h
    exact absurd h (by simp)
  rw [Nat.not_lt] at hbig
  rw [chatEncodeGroupnameReq_eq hbig, Option.some_inj] at h
  exact ⟨hbig, h.symm⟩

theorem chatEncodeGroupRepOk_eq {op : ChatOpcode} {ip : CStr} {port : UInt16}
    (hi : ip.length < chatMaxIpStrLen) :
    chatEncodeGroupRepOk op ip port =
      some (op.toByte :: UInt8.ofNat (5 + ip.length) :: 0 :: UInt8.ofNat ip.length ::
        (ip.bytes ++ [2, UInt8.ofNat (port.toNat / 256), UInt8.ofNat (port.toNat % 256)])) := by
  rw [chatEncodeGroupRepOk, if_neg (by omega)]
  simp only [chatMaxIpStrLen] at hi
  rw [if_neg (by simp only [chatMaxPayload]; omega),
    show 1 + (1 + ip.length) + (1 + 2) = 5 + ip.length by omega]
  simp [ChatStatus.toByte]

theorem chatEncodeGroupRepOk_eq_some {op : ChatOpcode} {ip : CStr} {port : UInt16} {f : List UInt8}
    (h : chatEncodeGroupRepOk op ip port = some f) :
    ip.length < chatMaxIpStrLen ∧
      f = op.toByte :: UInt8.ofNat (5 + ip.length) :: 0 :: UInt8.ofNat ip.length ::
        (ip.bytes ++ [2, UInt8.ofNat (port.toNat / 256), UInt8.ofNat (port.toNat % 256)]) := by
  by_cases hbig : ip.length ≥ chatMaxIpStrLen
  · rw [chatEncodeGroupRepOk, if_pos hbig] at h
    exact absurd h (by simp)
  rw [Nat.not_le] at hbig
  rw [chatEncodeGroupRepOk_eq hbig, Option.some_inj] at h
  exact ⟨hbig, h.symm⟩

/-- **The user/password decoder undoes its encoder**, whatever follows the frame. -/
theorem chatDecodeUserPass_encode {op : ChatOpcode} {user pass : CStr} {f : List UInt8}
    (h : chatEncodeUserPassReq op user pass = some f) (rest : List UInt8) :
    chatDecodeUserPass (f ++ rest) = .ok (user.bytes, pass.bytes) := by
  obtain ⟨hu, hp, rfl⟩ := chatEncodeUserPassReq_eq_some h
  have hu32 : user.bytes.length ≤ 32 := hu
  have hp32 : pass.bytes.length ≤ 32 := hp
  have h1 := toNat_ofNat_of_le (n := 1 + user.length + 1 + pass.length)
    (by simp only [CStr.length]; omega)
  have h2 := toNat_ofNat_of_le (n := user.length) (by simp only [CStr.length]; omega)
  have h3 := toNat_ofNat_of_le (n := pass.length) (by simp only [CStr.length]; omega)
  rw [List.cons_append, List.cons_append, List.cons_append, List.append_assoc, List.cons_append]
  exact chatDecodeUserPass_of_shape rfl (by rw [h1]; simp only [CStr.length]; omega) h2 hu h3 hp

/-- **The group-name decoder undoes its encoder**, whatever follows the frame. -/
theorem chatDecodeGroupname_encode {op : ChatOpcode} {group : CStr} {f : List UInt8}
    (h : chatEncodeGroupnameReq op group = some f) (rest : List UInt8) :
    chatDecodeGroupname (f ++ rest) = .ok group.bytes := by
  obtain ⟨hg, rfl⟩ := chatEncodeGroupnameReq_eq_some h
  have hg32 : group.bytes.length ≤ 32 := hg
  have h1 := toNat_ofNat_of_le (n := 1 + group.length) (by simp only [CStr.length]; omega)
  have h2 := toNat_ofNat_of_le (n := group.length) (by simp only [CStr.length]; omega)
  rw [List.cons_append, List.cons_append, List.cons_append]
  exact chatDecodeGroupname_of_shape rfl (by rw [h1]; simp only [CStr.length]; omega)
    (by rw [h1]; omega) h2 hg

/-- **The address decoder undoes the address encoder**, whatever follows the frame. -/
theorem chatDecodeGroupRepOk_encode {op : ChatOpcode} {ip : CStr} {port : UInt16}
    {f : List UInt8} (h : chatEncodeGroupRepOk op ip port = some f) (rest : List UInt8) :
    chatDecodeGroupRepOk (f ++ rest) = .ok (.ok, ip.bytes, port) := by
  obtain ⟨hip, rfl⟩ := chatEncodeGroupRepOk_eq_some h
  have hi16 : ip.bytes.length < 16 := hip
  have hport : port.toNat < 65536 := port.toNat_lt
  have h1 := toNat_ofNat_of_le (n := 5 + ip.length) (by simp only [CStr.length]; omega)
  have h2 := toNat_ofNat_of_le (n := ip.length) (by simp only [CStr.length]; omega)
  have h3 := toNat_ofNat_of_le (n := port.toNat / 256) (by omega)
  have h4 := toNat_ofNat_of_le (n := port.toNat % 256) (by omega)
  rw [List.cons_append, List.cons_append, List.cons_append, List.cons_append, List.append_assoc]
  refine (chatDecodeGroupRepOk_of_shape rfl (by rw [h1]; simp only [CStr.length]; omega)
    (by rw [h1]; omega) h2 hip).trans ?_
  rw [h3, h4, show port.toNat / 256 * 256 + port.toNat % 256 = port.toNat by omega]
  simp

/-- **The status decoder undoes the status encoder**, whatever follows the frame. -/
theorem chatDecodeStatusRep_encode {op : ChatOpcode} {st : ChatStatus}
    (h : ChatStatus.ofByte st.toByte = st) (rest : List UInt8) :
    chatDecodeStatusRep (chatEncodeStatusRep op st ++ rest) = .ok st := by
  have h1 : readByte (op.toByte :: 1 :: st.toByte :: rest) 1 = .ok (1 : UInt8).toNat :=
    readByte_at [op.toByte] rfl rfl
  have h2 : readByte (op.toByte :: 1 :: st.toByte :: rest) 2 = .ok st.toByte.toNat :=
    readByte_at [op.toByte, 1] rfl rfl
  show chatDecodeStatusRep (op.toByte :: 1 :: st.toByte :: rest) = _
  simp only [chatDecodeStatusRep, h1, h2, bind, Except.bind]
  rw [if_neg (by simp), if_neg (by decide), UInt8.ofNat_toNat, h]

/-- A plain status reply read by the address decoder: the status, and no address. -/
theorem chatDecodeGroupRepOk_status {op : ChatOpcode} {st : ChatStatus}
    (h : ChatStatus.ofByte st.toByte = st) (rest : List UInt8) :
    chatDecodeGroupRepOk (chatEncodeStatusRep op st ++ rest) = .ok (st, [], 0) := by
  have h1 : readByte (op.toByte :: 1 :: st.toByte :: rest) 1 = .ok (1 : UInt8).toNat :=
    readByte_at [op.toByte] rfl rfl
  have h2 : readByte (op.toByte :: 1 :: st.toByte :: rest) 2 = .ok st.toByte.toNat :=
    readByte_at [op.toByte, 1] rfl rfl
  show chatDecodeGroupRepOk (op.toByte :: 1 :: st.toByte :: rest) = _
  simp only [chatDecodeGroupRepOk, h1, h2, bind, Except.bind]
  rw [if_neg (by simp), if_neg (by simp), UInt8.ofNat_toNat, h, if_pos (.inr rfl)]

/-! ## Frames -/

/-- `[T:1][L:1][payload:L]`. -/
def tlv : Framing UInt8 where
  size s := (chatPeekHeader s).map fun header => 2 + header.2.toNat
  pos h := by
    obtain ⟨header, -, rfl⟩ := Option.map_eq_some_iff.mp h
    omega
  append {s n} t h := by
    match s, h with
    | a :: b :: s, h => exact h
  take {s n} h hn := by
    match s, h with
    | a :: b :: s, h =>
      obtain rfl : 2 + b.toNat = n := Option.some.inj h
      have htake : (a :: b :: s).take (2 + b.toNat) = a :: b :: s.take b.toNat := by
        rw [Nat.add_comm]
        rfl
      rw [htake]
      rfl

theorem tlv_size_eq {s : List UInt8} {t l : UInt8} (h : chatPeekHeader s = some (t, l)) :
    tlv.size s = some (2 + l.toNat) :=
  Option.map_eq_some_iff.mpr ⟨_, h, rfl⟩

theorem tlv_size_eq_none {s : List UInt8} (h : chatPeekHeader s = none) : tlv.size s = none :=
  Option.map_eq_none_iff.mpr h

/-- What a frame looks like. -/
theorem exists_of_isFrame {f : List UInt8} (h : tlv.IsFrame f) :
    ∃ t l payload, f = t :: l :: payload ∧ payload.length = l.toNat := by
  match f, h with
  | t :: l :: payload, h =>
    refine ⟨t, l, payload, rfl, ?_⟩
    have hlen : 2 + l.toNat = (t :: l :: payload).length := Option.some.inj h
    simp only [List.length_cons] at hlen
    omega

/-- The length byte bounds every frame. -/
theorem tlv_size_le {s : List UInt8} {n : Nat} (h : tlv.size s = some n) : n ≤ chatMaxMsgSize := by
  obtain ⟨⟨t, l⟩, -, rfl⟩ := Option.map_eq_some_iff.mp h
  have := l.toNat_lt
  simp only [chatMaxMsgSize, chatMaxPayload]
  omega

/-- An incomplete stream is shorter than the longest frame. -/
theorem length_of_incomplete {s : List UInt8} (h : tlv.Incomplete s) :
    s.length < chatMaxMsgSize := by
  match s with
  | [] | [_] => simp [chatMaxMsgSize, chatMaxPayload]
  | t :: l :: s =>
    have hsize := tlv_size_eq (s := t :: l :: s) rfl
    exact Nat.lt_of_lt_of_le (h _ hsize) (tlv_size_le hsize)

end ChatProject
