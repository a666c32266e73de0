import ChatProject.Client.ClientNet
import ChatProject.Lib.Machine

/-!
# The mock server

`tests/mock_server.c`, which the client was tested with before there was a server: one connection
after the other, registration and login only, and no more than 64 users.  Its header says that what
it replies is what the real server has to reply.

* `MockServer.serveClient` — one connection, from the first byte to the last.
* `serveClient_spec` — whatever the pieces the bytes arrive in, it answers the frames of the stream,
  one after the other.
-/

set_option autoImplicit false

namespace ChatProject

open Framing Machine

/-- `MAX_USERS`. -/
def mockMaxUsers : Nat := 64

/-- `MockUser`. -/
structure MockUser where
  name : CStr
  pass : CStr
deriving DecidableEq

/-- The static data of the program. -/
structure MockServer where
  /-- `g_users[0 .. g_user_count)`. -/
  users : List MockUser
  /-- There is room for no more. -/
  le : users.length ≤ mockMaxUsers

namespace MockServer

/-- At the start. -/
def empty : MockServer := ⟨[], by decide⟩

section
variable (m : MockServer)

/-- `find_user`. -/
def findUser (name : CStr) : Option MockUser := m.users.find? fun u => u.name = name

/-- `handle_register`. -/
def handleRegister (user pass : CStr) : ChatStatus × MockServer :=
  match m.findUser user with
  | some _ => (.errUserExists, m)
  | none =>
    if h : mockMaxUsers ≤ m.users.length then (.errServerFull, m)
    else
      (.ok, ⟨m.users ++ [⟨user.ncopy chatMaxUsernameLen, pass.ncopy chatMaxPasswordLen⟩], by
        rw [List.length_append]
        exact Nat.lt_of_not_le h⟩)

/-- `handle_login`. -/
def handleLogin (user pass : CStr) : ChatStatus :=
  match m.findUser user with
  | none => .errUserNotFound
  | some u => if u.pass ≠ pass then .errBadPassword else .ok

/-- The two reads at the head of `serve_client`'s loop: the type and the bytes of a frame. -/
def recvFrame (x : Inbox UInt8) : Option (UInt8 × List UInt8) × Inbox UInt8 :=
  match recvExact 2 [] x with
  | (none, x) => (none, x)
  | (some header, x) =>
    match chatPeekHeader header with
    | none => (none, x)
    | some (type, len) =>
      if 0 < len.toNat then
        match recvExact len.toNat [] x with
        | (none, x) => (none, x)
        | (some payload, x) => (some (type, header ++ payload), x)
      else (some (type, header), x)

/-- The rest of the loop, up to the reply. -/
def reply (type : UInt8) (buf : List UInt8) : MockServer × List UInt8 :=
  match ChatOpcode.ofByte type with
  | .regReq =>
    match chatDecodeUserPass buf with
    | .error _ => (m, chatEncodeStatusRep .regRep .errProtocol)
    | .ok (user, pass) =>
      let (status, m) := m.handleRegister (CStr.ofBuffer user) (CStr.ofBuffer pass)
      (m, chatEncodeStatusRep .regRep status)
  | .loginReq =>
    match chatDecodeUserPass buf with
    | .error _ => (m, chatEncodeStatusRep .loginRep .errProtocol)
    | .ok (user, pass) =>
      (m, chatEncodeStatusRep .loginRep
        (m.handleLogin (CStr.ofBuffer user) (CStr.ofBuffer pass)))
  | _ => (m, chatEncodeStatusRep .regRep .errProtocol)

end

theorem length_recvExact {need : Nat} {x y : Inbox UInt8} {read : List UInt8}
    (h : recvExact need [] x = (some read, y)) : y.bytes.length + need = x.bytes.length := by
  obtain ⟨read', y', hx, hlen, hr⟩ | ⟨y', -, -, hr⟩ := recvExact_cases need [] x (by simp)
  · obtain ⟨-, rfl⟩ := Prod.mk.inj (h.symm.trans hr)
    rw [List.length_nil] at hlen
    rw [hx, List.length_append]
    omega
  · rw [h] at hr
    exact absurd (congrArg Prod.fst hr) (by simp)

/-- A frame costs at least its header. -/
theorem length_recvFrame_lt {x y : Inbox UInt8} {frame : UInt8 × List UInt8}
    (h : recvFrame x = (some frame, y)) : y.bytes.length < x.bytes.length := by
  rw [recvFrame] at h
  split at h
  · exact absurd (congrArg Prod.fst h) (by simp)
  next header x₁ hheader =>
  have h₁ := length_recvExact hheader
  split at h
  · exact absurd (congrArg Prod.fst h) (by simp)
  next type len hpeek =>
  split at h
  · split at h
    · exact absurd (congrArg Prod.fst h) (by simp)
    next payload x₂ hpayload =>
    have h₂ := length_recvExact hpayload
    obtain rfl : x₂ = y := congrArg Prod.snd h
    omega
  · obtain rfl : x₁ = y := congrArg Prod.snd h
    omega

/-- `serve_client`, where `sends` has what the `send` calls of each reply return: what is left in
the program, and what has gone out. -/
def serveClient (m : MockServer) (x : Inbox UInt8) (sends : List (List Int)) :
    MockServer × List UInt8 :=
  match _h : recvFrame x with
  | (none, _) => (m, [])
  | (some (type, buf), x) =>
    let (m, out) := m.reply type buf
    let (code, sent) := sendLoop out 0 (sends.headD [])
    if code ≠ 0 then (m, out.take sent)
    else
      let (m, later) := serveClient m x sends.tail
      (m, out.take sent ++ later)
termination_by x.bytes.length
decreasing_by exact length_recvFrame_lt _h

/-! ## Whole streams -/

/-- The reads are those of the client. -/
theorem recvFrame_eq (x : Inbox UInt8) :
    recvFrame x = ((recvMsg 0 x).1.map fun r => (r.1.headD 0, r.1), (recvMsg 0 x).2) := by
  rw [recvFrame, recvMsg, if_neg (by decide)]
  rcases recvExact 2 [] x with ⟨_ | header, y⟩
  · rfl
  · rcases header with _ | ⟨type, _ | ⟨len, header⟩⟩
    · rfl
    · rfl
    · simp only [chatPeekHeader]
      by_cases hpos : 0 < len.toNat
      · simp only [if_pos hpos]
        rcases recvExact len.toNat [] y with ⟨_ | payload, z⟩ <;> rfl
      · simp only [if_neg hpos]
        rfl

/-- One turn of the loop, for a frame that has been read: its first byte is the type. -/
def step (m : MockServer) (frame : List UInt8) : MockServer × List UInt8 :=
  m.reply (frame.headD 0) frame

/-- The loop, without what it carries along to show that it ends. -/
theorem serveClient_eq (m : MockServer) (x : Inbox UInt8) (sends : List (List Int)) :
    serveClient m x sends =
      match recvFrame x with
      | (none, _) => (m, [])
      | (some (type, buf), x) =>
        let (m, out) := m.reply type buf
        let (code, sent) := sendLoop out 0 (sends.headD [])
        if code ≠ 0 then (m, out.take sent)
        else
          let (m, later) := serveClient m x sends.tail
          (m, out.take sent ++ later) := by
  rw [serveClient]
  split <;> (next h => rw [h])

/-- **Frame by frame.**  As long as every `send` takes something, the frames of the stream are
answered one after the other. -/
theorem serveClient_spec {frames : List (List UInt8)} (m : MockServer) {x : Inbox UInt8}
    {sends : List (List Int)} (hsends : ∀ answers ∈ sends, ∀ n ∈ answers, 0 < n)
    {rest : List UInt8} (h : tlv.Segmentation x.bytes frames rest) :
    serveClient m x sends =
      (run step m frames, ((trace step m frames).map Prod.snd).flatten) := by
  induction frames generalizing m x sends with
  | nil =>
    have hinc : tlv.Incomplete x.bytes := by
      rw [h.flatten]
      exact h.rest
    obtain ⟨y, -, hrecv⟩ : ∃ y, y.bytes = [] ∧ recvMsg 0 x = (none, y) :=
      recvMsg_of_incomplete (Int.le_refl 0) hinc
    rw [serveClient_eq, recvFrame_eq, hrecv]
    rfl
  | cons frame frames ih =>
    have hbytes : x.bytes = frame ++ (frames.flatten ++ rest) := by
      rw [h.flatten, List.flatten_cons, List.append_assoc]
    obtain ⟨y, hy, hrecv⟩ : ∃ y, y.bytes = frames.flatten ++ rest ∧
        recvMsg 0 x = (some (frame, frame.length), y) :=
      recvMsg_of_frame (Int.le_refl 0) (h.frames frame List.mem_cons_self) hbytes
    have hanswers : ∀ n ∈ sends.headD [], 0 < n := by
      cases sends with
      | nil => exact fun n hn => absurd hn List.not_mem_nil
      | cons answers sends => exact hsends answers List.mem_cons_self
    have htail : ∀ answers ∈ sends.tail, ∀ n ∈ answers, 0 < n := fun answers ha =>
      hsends answers (List.mem_of_mem_tail ha)
    have hlater := ih (step m frame).1 htail
      ⟨hy, fun f hf => h.frames f (List.mem_cons_of_mem _ hf), h.rest⟩
    rw [serveClient_eq, recvFrame_eq, hrecv]
    dsimp only [Option.map]
    rw [show m.reply (frame.headD 0) frame = step m frame from rfl,
      sendLoop_of_pos _ 0 _ hanswers (Nat.zero_le _)]
    dsimp only
    rw [if_neg (by decide), hlater, List.take_length]
    rfl

end MockServer

end ChatProject
