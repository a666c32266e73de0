import ChatProject.Client.ClientMng
import ChatProject.Server.ServerMng
import ChatProject.Shared.Codec

/-!
# Frames on the socket

`send` may take fewer bytes than it is offered, and says how many.  The client calls it again for
the rest (`client_net_send_all`); the server calls it once and its handlers do not look at the
answer (`ServerNet_SendMessage`).

* `ServerMng.sendMessageOnce` — the server's call with its answer; `sendMessageOnce_eq_wire` ties it
  to what the handlers hand over.
* `clientStream`, `wire` — what a sequence of calls puts on the socket, for the one and for the
  other.
* `streams_whole_iff` — the client's stream is its requests one after the other, whatever `send`
  answers; the server's is its replies one after the other exactly when each `send` takes the whole
  reply.  `truncated_reply_read_on` has what happens otherwise: the client reads the front of the
  next reply as the end of the one that was cut.
-/

set_option autoImplicit false

namespace ChatProject

/-! ## The client -/

/-- What a sequence of requests puts on the client's socket, each with its own course of the
wire. -/
def clientStream (m : ClientMng) (requests : List (List UInt8 × Wire)) : List UInt8 :=
  requests.flatMap fun r => (m.exchange r.2 (some r.1)).2.sent

theorem exchange_sent (m : ClientMng) (w : Wire) (buf : List UInt8) :
    (m.exchange w (some buf)).2.sent = (sendAll m.sockfd buf w.sends).2 := by
  rw [ClientMng.exchange]
  simp only
  split_ifs
  · rfl
  · split <;> rfl

/-- **The client's side.**  As long as no `send` fails, the requests go out whole. -/
theorem clientStream_eq {m : ClientMng} (hm : 0 ≤ m.sockfd) {requests : List (List UInt8 × Wire)}
    (h : ∀ r ∈ requests, ∀ n ∈ r.2.sends, 0 < n) :
    clientStream m requests = requests.flatMap Prod.fst := by
  refine List.flatMap_congr fun r hr => ?_
  rw [exchange_sent, sendAll_of_pos hm r.1 (h r hr)]

/-! ## The server -/

/-- What the `send` calls of the server put on a socket, where `packets` is what they are offered,
on this socket and on others, and `answers` what they return. -/
def wire (sockfd : Int) : (packets : List Packet) → (answers : List Int) → List UInt8
  | [], _ => []
  | (fd, buf) :: packets, answers =>
    (if fd = sockfd then buf.take (send buf.length answers).toNat else []) ++
      wire sockfd packets answers.tail

/-- What is offered on a socket, one after the other. -/
def offered (sockfd : Int) : (packets : List Packet) → List UInt8
  | [] => []
  | (fd, buf) :: packets => (if fd = sockfd then buf else []) ++ offered sockfd packets

/-- Every `send` on a socket takes all it is offered. -/
def Taken (sockfd : Int) : (packets : List Packet) → (answers : List Int) → Prop
  | [], _ => True
  | (fd, buf) :: packets, answers =>
    (fd = sockfd → (buf.length : Int) ≤ answers.headD buf.length) ∧
      Taken sockfd packets answers.tail

instance decidableTaken (sockfd : Int) :
    (packets : List Packet) → (answers : List Int) → Decidable (Taken sockfd packets answers)
  | [], _ => isTrue trivial
  | (_, _) :: packets, answers =>
    have := decidableTaken sockfd packets answers.tail
    inferInstanceAs (Decidable (_ ∧ Taken sockfd packets answers.tail))

namespace ServerMng

/-- `ServerNet_SendMessage` with what its `send` returns: the return code, and what has gone out. -/
def sendMessageOnce (sockfd : Int) (buf : List UInt8) (answers : List Int) : Int × List UInt8 :=
  if 0 > sockfd ∨ buf.length = 0 then (-1, [])
  else
    let n := send buf.length answers
    (n, buf.take n.toNat)

/-- What goes out is what the one `send` takes of what the handlers hand over. -/
theorem sendMessageOnce_eq_wire (sockfd : Int) (buf : List UInt8) (answers : List Int) :
    (sendMessageOnce sockfd buf answers).2 = wire sockfd (sendMessage sockfd buf) answers := by
  rw [sendMessageOnce, sendMessage]
  split_ifs with hbad
  · rfl
  · rw [wire, if_pos rfl, wire, List.append_nil]

/-- What the handlers hand to `send` in a run. -/
def handed (s : ServerMng) (es : List Event) : List Packet :=
  (Machine.trace step s es).flatMap Prod.snd

end ServerMng

theorem length_wire_le (sockfd : Int) (packets : List Packet) (answers : List Int) :
    (wire sockfd packets answers).length ≤ (offered sockfd packets).length := by
  induction packets generalizing answers with
  | nil => exact Nat.le_refl 0
  | cons p packets ih =>
    rw [wire, offered, List.length_append, List.length_append]
    refine Nat.add_le_add ?_ (ih answers.tail)
    split_ifs
    · rw [List.length_take]
      exact Nat.min_le_right _ _
    · exact Nat.le_refl 0

/-- **The server's side.**  The replies go out whole exactly when each `send` takes all of one. -/
theorem wire_eq_offered_iff (sockfd : Int) (packets : List Packet) (answers : List Int)
    (h : ∀ n ∈ answers, 0 < n) :
    wire sockfd packets answers = offered sockfd packets ↔ Taken sockfd packets answers := by
  induction packets generalizing answers with
  | nil => exact iff_of_true rfl trivial
  | cons p packets ih =>
    obtain ⟨fd, buf⟩ := p
    rw [wire, offered, Taken, ← ih answers.tail fun n hn => h n (List.mem_of_mem_tail hn)]
    by_cases hfd : fd = sockfd
    · simp only [hfd, if_true, forall_const]
      by_cases hall : (buf.length : Int) ≤ answers.headD buf.length
      · have hn : send buf.length answers = buf.length := Int.min_eq_right hall
        rw [hn, Int.toNat_natCast, List.take_length, List.append_cancel_left_eq]
        exact (and_iff_right hall).symm
      · -- what is missing here is not made up for later
        refine iff_of_false (fun heq => ?_) fun hboth => hall hboth.1
        have hn : send buf.length answers = answers.headD buf.length :=
          Int.min_eq_left (Int.le_of_not_le hall)
        have hnn : 0 ≤ answers.headD buf.length := by
          cases answers with
          | nil => exact Int.natCast_nonneg _
          | cons n answers => exact (h n List.mem_cons_self).le
        have hlen := congrArg List.length heq
        have hle := length_wire_le sockfd packets answers.tail
        rw [List.length_append, List.length_append, List.length_take, hn] at hlen
        omega
    · simp [hfd]

/-! ## What is handed over -/

/-- Everything that is handed to `send` is a frame. -/
def Whole (packets : List Packet) : Prop := ∀ p ∈ packets, tlv.IsFrame p.2

theorem whole_nil : Whole [] := fun _ hp => absurd hp List.not_mem_nil

theorem whole_sendReply {sockfd : Int} {rep : Option (List UInt8)}
    (h : ∀ repBuf, rep = some repBuf → tlv.IsFrame repBuf) : Whole (sendReply sockfd rep) := by
  cases rep with
  | none => exact whole_nil
  | some repBuf =>
    rw [sendReply, sendMessage]
    split_ifs
    · exact whole_nil
    · intro p hp
      rw [List.mem_singleton.mp hp]
      exact h repBuf rfl

theorem whole_sendStatus (sockfd : Int) (op : ChatOpcode) (status : ChatStatus) :
    Whole (sendStatus sockfd op status) :=
  whole_sendReply fun _ h => Option.some.inj h ▸ (framed_statusRep op status).isFrame

theorem whole_sendGroupRep (sockfd : Int) (op : ChatOpcode) (mcastIp : CStr) (mcastPort : UInt16) :
    Whole (sendReply sockfd (chatEncodeGroupRepOk op mcastIp mcastPort)) :=
  whole_sendReply fun _ h => (framed_groupRepOk h).isFrame

namespace ServerMng

theorem whole_handleCreateGroupReq (s : ServerMng) (sockfd : Int) (msg : List UInt8) (al : Alloc) :
    Whole (s.handleCreateGroupReq sockfd msg al).2 := by
  rw [handleCreateGroupReq]
  cases chatDecodeGroupname msg with
  | error fault => exact whole_nil
  | ok name =>
    simp only
    split_ifs
    · exact whole_sendStatus _ _ _
    · split
      · split
        · exact whole_sendGroupRep _ _ _ _
        · exact whole_sendStatus _ _ _
      · exact whole_sendStatus _ _ _

theorem whole_handleJoinGroupReq (s : ServerMng) (sockfd : Int) (msg : List UInt8) (al : Alloc) :
    Whole (s.handleJoinGroupReq sockfd msg al).2 := by
  rw [handleJoinGroupReq]
  cases chatDecodeGroupname msg with
  | error fault => exact whole_nil
  | ok name =>
    simp only
    split_ifs
    · exact whole_sendStatus _ _ _
    · split
      · split
        · exact whole_sendGroupRep _ _ _ _
        · exact whole_sendStatus _ _ _
      · exact whole_sendStatus _ _ _

/-- One call of the network layer. -/
theorem whole_step (s : ServerMng) (e : Event) : Whole (s.step e).2 := by
  cases e with
  | disconnect sockfd al => exact whole_nil
  | message sockfd msg al =>
    rw [step, handleMessage]
    cases chatPeekHeader msg with
    | none => exact whole_nil
    | some header =>
      simp only
      split
      · rw [handleRegisterReq]
        cases chatDecodeUserPass msg with
        | error fault => exact whole_nil
        | ok names => exact whole_sendStatus _ _ _
      · rw [handleLoginReq]
        cases chatDecodeUserPass msg with
        | error fault => exact whole_nil
        | ok names => exact whole_sendStatus _ _ _
      · exact whole_sendStatus _ _ _
      · exact s.whole_handleCreateGroupReq sockfd msg al
      · exact s.whole_handleJoinGroupReq sockfd msg al
      · rw [handleLeaveGroupReq]
        cases chatDecodeGroupname msg with
        | error fault => exact whole_nil
        | ok name =>
          simp only
          split <;> exact whole_sendStatus _ _ _
      · exact whole_nil

/-- A run of the server. -/
theorem whole_handed (s : ServerMng) (es : List Event) : Whole (s.handed es) := by
  induction es generalizing s with
  | nil => exact whole_nil
  | cons e es ih =>
    intro p hp
    rcases List.mem_append.mp hp with hp | hp
    · exact s.whole_step e p hp
    · exact ih (s.step e).1 p hp

end ServerMng

/-- **Frames on the socket.**  As long as no `send` fails, the client's stream is its requests,
whole and in order.  What the server hands to `send` are whole frames too; the stream of a socket is
those for this socket, whole and in order, exactly when each `send` on it takes all it is
offered. -/
theorem streams_whole_iff {m : ClientMng} (hm : 0 ≤ m.sockfd)
    {requests : List (List UInt8 × Wire)} (hrequests : ∀ r ∈ requests, ∀ n ∈ r.2.sends, 0 < n)
    (s : ServerMng) (es : List ServerMng.Event) (sockfd : Int) {answers : List Int}
    (hanswers : ∀ n ∈ answers, 0 < n) :
    clientStream m requests = requests.flatMap Prod.fst ∧ Whole (s.handed es) ∧
      (wire sockfd (s.handed es) answers = offered sockfd (s.handed es) ↔
        Taken sockfd (s.handed es) answers) :=
  ⟨clientStream_eq hm hrequests, s.whole_handed es,
    wire_eq_offered_iff sockfd (s.handed es) answers hanswers⟩

/-- Two registrations of `a` with `b` on socket 5. -/
def registerTwice : List ServerMng.Event :=
  [.message 5 [1, 4, 1, 97, 1, 98] [], .message 5 [1, 4, 1, 97, 1, 98] []]

/-- A socket on which the registration is granted. -/
def Wire.granted (sends : List Int) : Wire := ⟨sends, fun _ => ⟨[[2, 1, 0]], by decide, false⟩⟩

/-- The two requests, the first with a `send` that takes one byte at first. -/
def registerRequests : List (List UInt8 × Wire) :=
  [([1, 4, 1, 97, 1, 98], .granted [1]), ([1, 4, 1, 97, 1, 98], .granted [])]

/-- The requests go out whole, and so do the replies when each `send` takes three bytes or more. -/
theorem streams_whole_registerTwice :
    ∃ s₀, ServerMng.init [] = some s₀ ∧
      clientStream ⟨3, 0, .empty, ⟨0, []⟩⟩ registerRequests =
        [1, 4, 1, 97, 1, 98, 1, 4, 1, 97, 1, 98] ∧
      wire 5 (s₀.handed registerTwice) [3, 7] = offered 5 (s₀.handed registerTwice) := by
  have hinit : ((ServerMng.init []).map fun s => decide (Taken 5 (s.handed registerTwice) [3, 7])) =
      some true := by decide +kernel
  obtain ⟨s₀, h₀, htaken⟩ := Option.map_eq_some_iff.mp hinit
  have hsends : ∀ r ∈ registerRequests, ∀ n ∈ r.2.sends, 0 < n := by
    simp [registerRequests, Wire.granted]
  have hanswers : ∀ n ∈ ([3, 7] : List Int), 0 < n := by decide
  have hwhole := streams_whole_iff (m := ⟨3, 0, .empty, ⟨0, []⟩⟩) (by decide) hsends s₀
    registerTwice 5 hanswers
  exact ⟨s₀, h₀, hwhole.1, hwhole.2.2.mpr (of_decide_eq_true htaken)⟩

/-- A `send` that takes two bytes of the first reply: the client reads the type byte of the second
as the status of the first, and never gets back into step. -/
theorem truncated_reply_read_on :
    ∃ s₀, ServerMng.init [] = some s₀ ∧
      offered 5 (s₀.handed registerTwice) = [2, 1, 0] ++ [2, 1, 1] ∧
      wire 5 (s₀.handed registerTwice) [2] = [2, 1] ++ [2, 1, 1] ∧
      wire 5 (s₀.handed registerTwice) [2] ≠ offered 5 (s₀.handed registerTwice) ∧
      chatDecodeStatusRep [2, 1, 2] = .ok .errUserNotFound := by
  have hinit : ((ServerMng.init []).map fun s =>
      (offered 5 (s.handed registerTwice), wire 5 (s.handed registerTwice) [2])) =
      some ([2, 1, 0, 2, 1, 1], [2, 1, 2, 1, 1]) := by decide +kernel
  obtain ⟨s₀, h₀, hboth⟩ := Option.map_eq_some_iff.mp hinit
  obtain ⟨hoffered, hwire⟩ := Prod.mk.inj hboth
  refine ⟨s₀, h₀, hoffered, hwire, ?_, by decide⟩
  rw [hoffered, hwire]
  decide

end ChatProject
