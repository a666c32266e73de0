import ChatProject.Service.Atomic
import ChatProject.System.Agreement

/-!
# Many clients and one server

The whole system: any number of clients, each a process that makes one call after the other and
blocks in `send` and `recv` while it waits, the server with its loop and its slots, and the kernel
between them.  Nothing is atomic but a system call: a request goes out in pieces, the server reads
it in other pieces, and between any two of these steps everybody else may do something.

* `Peer` — a client and its connection: where its call stands (`Stage`), and the bytes on the way in
  both directions.
* `Network` — all of them, the server, the connections `accept` has not yet returned, and who is at
  the other end of which descriptor.
* `Network.step` — one system call of somebody.  The server's part is `Server.step`; a client's part
  is the loops of `client_net.c`, one call of `send` or `recv` at a time.
* `Network.Allowed` — what a blocking kernel promises: nobody returns from `accept` without a
  connection, or from `recv` with the end of a stream that has not ended.

A client may be killed at any moment, in the middle of a call as well (`Action.exit`).

What is taken for granted: `accept` returns descriptors that an `fd_set` has room for, the server
finds memory for everything once it has started, its one `send` takes the whole of a reply, and a
client's own calls do not fail while it is connected.  A server that has been stopped does nothing
any more; what its clients see then is left open.
-/

set_option autoImplicit false

namespace ChatProject

open Framing ServerMng

/-! ## A call in pieces -/

/-- How many bytes `client_net_recv_msg` asks for next, when it has `got` already: the rest of the
header, or of the payload the header announces. -/
def wanted (got : List UInt8) : Nat :=
  match chatPeekHeader got with
  | none => 2 - got.length
  | some (_, len) => 2 + len.toNat - got.length

/-- What the client still wants of a frame of which it has the front is not more than is missing,
and not nothing before the end. -/
theorem wanted_of_isFrame {got rest : List UInt8} (h : tlv.IsFrame (got ++ rest)) :
    wanted got ≤ rest.length ∧ (wanted got = 0 ↔ rest = []) := by
  rw [wanted]
  cases hpeek : chatPeekHeader got with
  | none =>
    obtain ⟨t, l, payload, heq, -⟩ := exists_of_isFrame h
    have hlen : got.length < 2 := by
      match got with
      | [] | [_] => simp
      | _ :: _ :: _ => simp [chatPeekHeader] at hpeek
    have htotal := congrArg List.length heq
    rw [List.length_append, List.length_cons, List.length_cons] at htotal
    simp only
    rw [← List.length_eq_zero_iff]
    omega
  | some header =>
    obtain ⟨t, l⟩ := header
    have hsize := tlv.append rest (tlv_size_eq hpeek)
    rw [h, Option.some_inj, List.length_append] at hsize
    simp only
    rw [← List.length_eq_zero_iff]
    omega

/-- A socket that takes everything at once and answers with `frame`. -/
def Wire.replying (frame : List UInt8) : Wire where
  sends := []
  incoming _ := (Channel.bytewise UInt8).cut frame

theorem Wire.bytes_replying (frame buf : List UInt8) :
    ((Wire.replying frame).incoming buf).bytes = frame ++ [] := by
  rw [List.append_nil]
  exact (Channel.bytewise UInt8).bytes_cut frame

namespace ClientMng

variable {ε : Type} (os : Desktop ε) {m : ClientMng} {w w' : Wire} {al : Alloc} {e : ε}
  {r : Request}

/-- Two results that differ in nothing but what is left on the socket. -/
structure Result.Same (res res' : Result ε) : Prop where
  status : res.status = res'.status
  outIp : res.outIp = res'.outIp
  outPort : res.outPort = res'.outPort
  client : res.client = res'.client
  desktop : res.desktop = res'.desktop

theorem Result.Same.ite {c : Prop} [Decidable c] {a a' b b' : Result ε} (h : a.Same a')
    (h' : b.Same b') : (if c then a else b).Same (if c then a' else b') := by
  by_cases hc : c
  · rw [if_pos hc, if_pos hc]
    exact h
  · rw [if_neg hc, if_neg hc]
    exact h'

theorem doGroupJoin_congr {op : ChatOpcode} {g : CStr}
    (h : (m.exchange w (chatEncodeGroupnameReq op g)).1 =
      (m.exchange w' (chatEncodeGroupnameReq op g)).1) :
    ∃ status ip port traffic traffic', m.doGroupJoin w op g = (status, ip, port, traffic) ∧
      m.doGroupJoin w' op g = (status, ip, port, traffic') := by
  rw [doGroupJoin, doGroupJoin]
  rcases hx : m.exchange w (chatEncodeGroupnameReq op g) with ⟨reply, traffic⟩
  rcases hx' : m.exchange w' (chatEncodeGroupnameReq op g) with ⟨reply', traffic'⟩
  rw [hx, hx'] at h
  obtain rfl : reply = reply' := h
  cases reply with
  | none => exact ⟨_, _, _, _, _, rfl, rfl⟩
  | some buf =>
    simp only
    cases chatDecodeGroupRepOk buf with
    | error fault => exact ⟨_, _, _, _, _, rfl, rfl⟩
    | ok out => exact ⟨_, _, _, _, _, rfl, rfl⟩

theorem enterGroup_congr {op : ChatOpcode} {g : CStr}
    (h : (m.exchange w (chatEncodeGroupnameReq op g)).1 =
      (m.exchange w' (chatEncodeGroupnameReq op g)).1) :
    (m.enterGroup w os al e op g).Same (m.enterGroup w' os al e op g) := by
  obtain ⟨status, ip, port, traffic, traffic', hj, hj'⟩ := doGroupJoin_congr h
  simp only [enterGroup, hj, hj']
  exact .ite ⟨rfl, rfl, rfl, rfl, rfl⟩ ⟨rfl, rfl, rfl, rfl, rfl⟩

/-- The reply is all a call learns from its socket. -/
theorem call_congr (h : (m.exchange w r.encode).1 = (m.exchange w' r.encode).1) :
    (m.call os w al e r).Same (m.call os w' al e r) := by
  cases r with
  | createGroup g => exact enterGroup_congr os h
  | joinGroup g => exact enterGroup_congr os h
  | register n p =>
    simp only [Request.encode] at h
    simp only [call, register, doUserPass, h]
    exact ⟨rfl, rfl, rfl, rfl, rfl⟩
  | login n p =>
    simp only [Request.encode] at h
    simp only [call, login, doUserPass, h]
    exact .ite ⟨rfl, rfl, rfl, rfl, rfl⟩ ⟨rfl, rfl, rfl, rfl, rfl⟩
  | logout =>
    simp only [Request.encode] at h
    simp only [call, logout, h]
    exact .ite ⟨rfl, rfl, rfl, rfl, rfl⟩ ⟨rfl, rfl, rfl, rfl, rfl⟩
  | leaveGroup g =>
    simp only [Request.encode] at h
    simp only [call, leaveGroup, h]
    exact .ite ⟨rfl, rfl, rfl, rfl, rfl⟩ ⟨rfl, rfl, rfl, rfl, rfl⟩

/-- **Pieces make no difference.**  Whatever the pieces a request goes out in and its reply comes
in, the call ends as it does on a socket that takes and gives everything at once. -/
theorem call_of_pieces (hfd : 0 ≤ m.sockfd) (hsends : ∀ n ∈ w.sends, 0 < n)
    {buf frame rest : List UInt8} (hbuf : r.encode = some buf) (hframe : tlv.IsFrame frame)
    (hin : (w.incoming buf).bytes = frame ++ rest) :
    (m.call os w al e r).Same (m.call os (.replying frame) al e r) := by
  obtain ⟨_, hx, -⟩ := exchange_of_frame hfd hsends hframe hin
  obtain ⟨_, hx', -⟩ := exchange_of_frame hfd (fun n hn => absurd hn List.not_mem_nil) hframe
    (Wire.bytes_replying frame buf)
  exact call_congr os (by rw [hbuf, hx, hx'])

end ClientMng

/-! ## The state -/

/-- Where the call of a client stands. -/
inductive Stage where
  /-- There is none. -/
  | idle
  /-- In `client_net_send_all`: of the request `buf`, `sent` bytes have gone out. -/
  | sending (r : Request) (buf : List UInt8) (sent : Nat)
  /-- In `client_net_recv_msg`: `got` of the reply has come in. -/
  | receiving (r : Request) (got : List UInt8)

/-- The client's end of the connection. -/
inductive Link where
  /-- There is no connection yet. -/
  | unmade
  | made
  /-- The client is gone. -/
  | ended
deriving DecidableEq

/-- A client and its connection. -/
structure Peer (ε : Type) where
  client : ClientMng
  /-- The state of the client's operating system. -/
  desktop : ε
  stage : Stage
  link : Link
  /-- What the client has sent and the server has not yet read. -/
  up : List UInt8
  /-- What the server has sent and the client has not yet read. -/
  down : List UInt8

/-- The client before `client_mng_create`: what that will make of it is written down already. -/
structure Peer.New {ε : Type} (p : Peer ε) : Prop where
  sockfd : 0 ≤ p.client.sockfd
  loggedIn : p.client.loggedIn = 0
  groups : p.client.groups.groups = []
  stage : p.stage = .idle
  link : p.link = .unmade
  up : p.up = []
  down : p.down = []

/-- Everybody. -/
structure Network (κ ε : Type) where
  server : Server
  peers : κ → Peer ε
  /-- The connections that have been made and that `accept` has not returned yet. -/
  backlog : List κ
  /-- The client at the other end of a descriptor of the server. -/
  peerOf : Int → Option κ

/-! ## The clients' steps -/

/-- What the surroundings decide about one step of the server. -/
structure Turn where
  /-- `*_keepRunning`. -/
  keepRunning : Bool
  selected : Selected
  /-- What `accept` returns. -/
  accepted : Int
  /-- How many of the bytes that are on the way have arrived. -/
  size : Nat

/-- One system call of somebody. -/
inductive Action (κ : Type) where
  /-- `connect`, in `client_mng_create`. -/
  | connect (k : κ)
  /-- The user asks for something. -/
  | ask (k : κ) (r : Request)
  /-- `send`, when there is room for `n` bytes. -/
  | send (k : κ) (n : Nat)
  /-- `recv`, when `n` bytes have arrived. -/
  | recv (k : κ) (n : Nat) (al : Alloc)
  /-- The client process ends; `kept` of the bytes on the way still arrive. -/
  | exit (k : κ) (kept : Nat)
  /-- A step of the server. -/
  | serve (a : Turn)

/-- Some system call, or all that are left of a pass of the server in which there is nothing to
read. -/
inductive Stride (κ : Type) where
  | act (a : Action κ)
  | rest

namespace Peer

variable {ε : Type} (os : Desktop ε) (p : Peer ε)

/-- `connect`. -/
def connect : Peer ε := { p with link := .made }

/-- A call begins. -/
def ask (r : Request) (buf : List UInt8) : Peer ε := { p with stage := .sending r buf 0 }

/-- `send` has taken `n` bytes. -/
def send (r : Request) (buf : List UInt8) (sent n : Nat) : Peer ε :=
  { p with
    up := p.up ++ (buf.drop sent).take n
    stage := if sent + n = buf.length then .receiving r [] else .sending r buf (sent + n) }

/-- `recv` has returned `n` bytes, and the reply is not complete. -/
def recv (r : Request) (got : List UInt8) (n : Nat) : Peer ε :=
  { p with stage := .receiving r (got ++ p.down.take n), down := p.down.drop n }

/-- What the call returns, once the reply is complete. -/
def result (al : Alloc) (r : Request) (frame : List UInt8) : ClientMng.Result ε :=
  p.client.call os (.replying frame) al p.desktop r

/-- `recv` has returned `n` bytes, and with them the call returns. -/
def finish (al : Alloc) (r : Request) (got : List UInt8) (n : Nat) : Peer ε :=
  { p with
    client := (p.result os al r (got ++ p.down.take n)).client
    desktop := (p.result os al r (got ++ p.down.take n)).desktop
    stage := .idle
    down := p.down.drop n }

/-- The process ends. -/
def exit (kept : Nat) : Peer ε :=
  { p with stage := .idle, link := .ended, up := p.up.take kept, down := [] }

end Peer

/-- What the user is told. -/
def ClientMng.Result.note {κ ε : Type} (res : ClientMng.Result ε) (k : κ) (r : Request) : Note κ :=
  .answered k r res.status
    (if res.status = .ok then r.enters.map fun _ => ⟨res.outIp, res.outPort⟩ else none)

/-- The slot the coming step of the loop reads from. -/
def Loop.reads {σ : Type} (s : Loop σ) : Option (Fin maxClients) :=
  match s.phase with
  | .scan i => if h : i < maxClients then if s.readable ⟨i, h⟩ then some ⟨i, h⟩ else none else none
  | _ => none

instance {σ : Type} (s : Loop σ) : Decidable s.Accepts :=
  inferInstanceAs (Decidable (s.phase = .accept ∧ s.readSet s.net.listenFd = true))

namespace Network

variable {κ ε : Type} [DecidableEq κ] (os : Desktop ε) (N : Network κ ε)

/-- Somebody's record is rewritten. -/
def withPeer (k : κ) (p : Peer ε) : Network κ ε :=
  { N with peers := Function.update N.peers k p }

theorem withPeer_peers (k : κ) (p : Peer ε) (k' : κ) :
    (N.withPeer k p).peers k' = if k' = k then p else N.peers k' := Function.update_apply ..

/-! ## The server's steps -/

/-- A step in which nothing is accepted or read. -/
def turn (a : Turn) : Network κ ε :=
  { N with server := N.server.step ⟨a.keepRunning, a.selected, -1, .arrived 0 []⟩ }

/-- `accept`: the kernel takes the first connection off its queue and gives it a descriptor.  A
connection that is closed again, because there is no slot for it, leads nowhere. -/
def accept (accepted : Int) : Network κ ε :=
  let server := N.server.step ⟨true, .interrupted, accepted, .arrived 0 []⟩
  match N.backlog with
  | [] => { N with server }
  | k :: backlog =>
    if accepted = -1 then { N with server }
    else
      { N with
        server
        backlog
        peerOf := Function.update N.peerOf accepted
          (if server.net.tables.opened accepted then some k else none) }

/-- What the server sends goes to whoever is at the other end, the whole of it. -/
def deliver (peerOf : Int → Option κ) (peers : κ → Peer ε) (p : Packet) : κ → Peer ε :=
  match peerOf p.1 with
  | none => peers
  | some k => Function.update peers k { peers k with down := (peers k).down ++ p.2 }

/-- The server reads from the client `k` on slot `i`. -/
def readFrom (i : Fin maxClients) (k : κ) (size : Nat) : Network κ ε :=
  let slot := N.server.net.clients i
  let x := Inbox.arrived size (N.peers k).up
  let server := N.server.step ⟨true, .interrupted, -1, x⟩
  -- what this one call of `recv` leaves on the socket
  let unread := (handleClientData onMsg onDisc slot N.server.net.tables x N.server.ctx).2.2.1
  let peers := Function.update N.peers k { N.peers k with up := unread.bytes }
  { N with
    server := { server with ctx := { server.ctx with sent := [] } }
    peers := server.ctx.sent.foldl (deliver N.peerOf) peers
    peerOf := if server.net.tables.opened slot.fd then N.peerOf
      else Function.update N.peerOf slot.fd none }

/-- One step of the server. -/
def serve (a : Turn) : Network κ ε :=
  if N.server.Accepts then N.accept a.accepted
  else
    match N.server.reads with
    | none => N.turn a
    | some i =>
      match N.peerOf (N.server.net.clients i).fd with
      | none => N
      | some k => N.readFrom i k a.size

/-! ## The steps -/

/-- `recv`, by a client that waits for its reply. -/
def recvStep (k : κ) (n : Nat) (al : Alloc) : Network κ ε × Option (Note κ) :=
  match (N.peers k).stage with
  | .receiving r got =>
    let n := min n (wanted got)
    if n = 0 ∨ (N.peers k).down = [] then (N, none)
    else if wanted (got ++ (N.peers k).down.take n) = 0 then
      (N.withPeer k ((N.peers k).finish os al r got n),
        some (((N.peers k).result os al r (got ++ (N.peers k).down.take n)).note k r))
    else (N.withPeer k ((N.peers k).recv r got n), none)
  | _ => (N, none)

/-- What somebody's system call does; nothing, where it blocks. -/
def step : Action κ → Network κ ε × Option (Note κ)
  | .connect k =>
    if (N.peers k).link = .unmade then
      ({ N.withPeer k (N.peers k).connect with backlog := N.backlog ++ [k] }, none)
    else (N, none)
  | .ask k r =>
    match (N.peers k).link, (N.peers k).stage with
    | .made, .idle =>
      match r.encode with
      | none => (N, some (.rejected k r))
      | some buf => (N.withPeer k ((N.peers k).ask r buf), some (.asked k r))
    | _, _ => (N, none)
  | .send k n =>
    match (N.peers k).stage with
    | .sending r buf sent =>
      let n := min n (buf.length - sent)
      if n = 0 then (N, none) else (N.withPeer k ((N.peers k).send r buf sent n), none)
    | _ => (N, none)
  | .recv k n al => N.recvStep os k n al
  | .exit k kept =>
    if (N.peers k).link = .made then (N.withPeer k ((N.peers k).exit kept), some (.left k))
    else (N, none)
  | .serve a => (N.serve a, none)

/-- The client the coming step of the server reads from. -/
def reader : Option κ := N.server.reads.bind fun i => N.peerOf (N.server.net.clients i).fd

/-- What a blocking kernel promises; that a descriptor is one an `fd_set` has room for is
assumed. -/
def Allowed : Action κ → Prop
  | .serve a =>
    (N.server.Accepts → a.accepted = -1 ∨ N.backlog ≠ [] ∧ 0 ≤ a.accepted ∧
      a.accepted < fdSetSize ∧ N.server.net.tables.opened a.accepted = false) ∧
    ∀ k ∈ N.reader, (N.peers k).up = [] → (N.peers k).link = .ended
  | _ => True

instance decidableAllowed : ∀ a : Action κ, Decidable (N.Allowed a)
  | .connect _ | .ask _ _ | .send _ _ | .recv _ _ _ | .exit _ _ => .isTrue trivial
  | .serve a =>
    inferInstanceAs (Decidable ((N.server.Accepts → a.accepted = -1 ∨ N.backlog ≠ [] ∧
      0 ≤ a.accepted ∧ a.accepted < fdSetSize ∧ N.server.net.tables.opened a.accepted = false) ∧
      ∀ k ∈ N.reader, (N.peers k).up = [] → (N.peers k).link = .ended))

/-- A step, and what is seen of it. -/
def Next (N : Network κ ε) (l : Option (Note κ)) (N' : Network κ ε) : Prop :=
  ∃ a, N.Allowed a ∧ N.step os a = (N', l)

/-! ## Runs that are written down -/

/-- The pass over the slots has come to its end. -/
def rest : Network κ ε := { N with server := N.server.rest }

/-- There is nothing to read in what is left of the pass. -/
abbrev Resting : Prop := N.server.Resting

/-- A step of a pass in which there is nothing left to read. -/
theorem step_idle {N : Network κ ε} {i : Nat} (hphase : N.server.phase = .scan i)
    (h : ∀ j : Fin maxClients, i ≤ j → N.server.readable j = false) :
    ¬ N.server.Accepts ∧ N.server.reads = none ∧
      N.step os (.serve ⟨true, .interrupted, -1, 0⟩) =
        ({ N with server := { N.server with
            phase := if i < maxClients then .scan (i + 1) else .select } }, none) := by
  have hacc : ¬ N.server.Accepts := fun hacc => absurd (hphase.symm.trans hacc.1) (by simp)
  have hreads : N.server.reads = none := by
    rw [Loop.reads, hphase]
    simp only
    split
    · rename_i hi
      rw [if_neg (by rw [h ⟨i, hi⟩ (Nat.le_refl i)]; simp)]
    · rfl
  refine ⟨hacc, hreads, ?_⟩
  rw [step, serve, if_neg hacc, hreads]
  simp only [turn, Server.step, Loop.step_of_scan onMsg onDisc hphase h]

theorem next_idle {N : Network κ ε} {i : Nat} (hphase : N.server.phase = .scan i)
    (h : ∀ j : Fin maxClients, i ≤ j → N.server.readable j = false) :
    Next os N none { N with server := { N.server with
      phase := if i < maxClients then .scan (i + 1) else .select } } := by
  obtain ⟨hacc, hreads, hstep⟩ := step_idle os hphase h
  refine ⟨.serve ⟨true, .interrupted, -1, 0⟩, ⟨fun hacc' => absurd hacc' hacc, ?_⟩, hstep⟩
  intro k hk
  rw [reader, hreads] at hk
  exact absurd hk (by simp)

/-- **A pass in which there is nothing left to read comes to its end.** -/
theorem runs_rest {N : Network κ ε} (h : N.Resting) : Runs (Next os) N [] N.rest := by
  rw [Resting, Loop.Resting] at h
  split at h
  · rename_i i hphase
    -- on the slots that are left
    obtain ⟨left, hleft⟩ : ∃ left, maxClients - i = left := ⟨_, rfl⟩
    induction left generalizing N i with
    | zero =>
      have hend := Runs.single (next_idle os hphase h)
      rwa [if_neg (by omega)] at hend
    | succ left ih =>
      have hnext := Runs.single (next_idle os hphase h)
      rw [if_pos (by omega)] at hnext
      exact hnext.trans (ih _ rfl (fun j hj => h j (by omega)) (by omega))
  · exact h.elim

/-- What happens in a stride. -/
def stride : Stride κ → Network κ ε × Option (Note κ)
  | .act a => N.step os a
  | .rest => (N.rest, none)

def Strides : Stride κ → Prop
  | .act a => N.Allowed a
  | .rest => N.Resting

instance decidableStrides : ∀ a : Stride κ, Decidable (N.Strides a)
  | .act a => decidableAllowed N a
  | .rest => N.server.decidableResting

/-- Strides make a run. -/
theorem runs_of_strides {acts : List (Stride κ)}
    (h : Machine.Along (stride os) Strides N acts) :
    Runs (Next os) N ((Machine.trace (stride os) N acts).flatMap fun x => x.2.toList)
      (Machine.run (stride os) N acts) := by
  induction acts generalizing N with
  | nil => exact .refl
  | cons a acts ih =>
    refine Runs.trans ?_ (ih _ h.2)
    cases a with
    | act a => exact .single ⟨a, h.1, rfl⟩
    | rest => exact runs_rest os h.1

/-! ## What the server's steps do -/

section
variable {N : Network κ ε}

/-- What is left of the context once what was sent is on its way. -/
def quiet (m : Mng) : Mng := { m with sent := [] }

theorem reads_eq_some {σ : Type} {s : Loop σ} {i : Fin maxClients} (h : s.reads = some i) :
    s.phase = .scan i ∧ s.readable i = true := by
  rw [Loop.reads] at h
  split at h
  · rename_i k hphase
    split at h
    · rename_i hk
      split at h
      · rename_i hread
        obtain rfl := Option.some.inj h
        exact ⟨hphase, hread⟩
      · exact absurd h (by simp)
    · exact absurd h (by simp)
  · exact absurd h (by simp)

/-- A step in which nothing is accepted and nothing read changes neither the slots nor the
management layer. -/
theorem turn_idle {s : Server} (hacc : ¬ s.Accepts) (hreads : s.reads = none) (a : Answers) :
    (s.step a).net = s.net ∧ (s.step a).ctx = s.ctx := by
  rw [Server.step, Loop.step]
  split
  · split
    · exact ⟨rfl, rfl⟩
    · split <;> exact ⟨rfl, rfl⟩
  · rename_i hphase
    rw [if_neg fun h => hacc ⟨hphase, h⟩]
    exact ⟨rfl, rfl⟩
  · rename_i k hphase
    split
    · rename_i hk
      by_cases hread : s.readable ⟨k, hk⟩ = true
      · have hsome : s.reads = some ⟨k, hk⟩ := by
          rw [Loop.reads, hphase]
          simp only
          rw [dif_pos hk, if_pos hread]
        exact absurd (hreads.symm.trans hsome) (by simp)
      · rw [if_neg hread]
        exact ⟨rfl, rfl⟩
    · exact ⟨rfl, rfl⟩
  · exact ⟨rfl, rfl⟩

/-- The step that reads from a slot. -/
theorem step_of_reads {s : Server} {i : Fin maxClients} (h : s.reads = some i) (a : Answers) :
    s.step a = { s.serveSlot onMsg onDisc i a.inbox with phase := .scan (i + 1) } := by
  obtain ⟨hphase, hread⟩ := reads_eq_some h
  rw [Server.step, Loop.step, hphase]
  simp only
  rw [dif_pos i.isLt, if_pos hread]

/-- **What a read can do.**  The stream is at its end and the connection is taken down, or the next
piece arrives and the frames it completes are handed over. -/
theorem readFrom_cases (h : N.server.net.Inv) {i : Fin maxClients}
    (hreads : N.server.reads = some i) (k : κ) (size : Nat) :
    ((N.peers k).up = [] ∧ N.readFrom i k size =
      { N with
        server :=
          ⟨N.server.net.dropped i, N.server.readSet, .scan (i + 1),
            quiet (onDisc (N.server.net.clients i).fd N.server.ctx)⟩
        peers := (onDisc (N.server.net.clients i).fd N.server.ctx).sent.foldl (deliver N.peerOf)
          N.peers
        peerOf := Function.update N.peerOf (N.server.net.clients i).fd none }) ∨
    ∃ chunk rest frames c, chunk ≠ [] ∧ (N.peers k).up = chunk ++ rest ∧
      c.fd = (N.server.net.clients i).fd ∧ c.Settled ∧
      tlv.Segmentation ((N.server.net.clients i).data ++ chunk) frames c.data ∧
      N.readFrom i k size =
        { N with
          server :=
            ⟨N.server.net.kept i c, N.server.readSet, .scan (i + 1),
              quiet (frames.foldl (fun m msg => onMsg (N.server.net.clients i).fd msg m)
                N.server.ctx)⟩
          peers :=
            (frames.foldl (fun m msg => onMsg (N.server.net.clients i).fd msg m)
              N.server.ctx).sent.foldl (deliver N.peerOf)
              (Function.update N.peers k { N.peers k with up := rest }) } := by
  have hbytes := Inbox.bytes_arrived size (N.peers k).up
  obtain ⟨-, hread⟩ := reads_eq_some hreads
  have hocc : N.server.net.Occupied (N.server.net.clients i).fd := by
    refine ⟨fun hfree => ?_, i, rfl⟩
    rw [Loop.readable, hfree] at hread
    simp at hread
  rw [readFrom]
  simp only [step_of_reads hreads, Loop.serveSlot]
  obtain ⟨hend, hr⟩ | ⟨chunk, y, frames, c, hchunk, hx, hr, hfd, hc, hseg⟩ :=
    handleClientData_cases onMsg onDisc (h.settled i) N.server.net.tables
      (Inbox.arrived size (N.peers k).up) N.server.ctx
  · rw [hbytes] at hend
    refine .inl ⟨hend, ?_⟩
    simp only [hr, hbytes]
    rw [if_neg (by simp), show Function.update N.peers k { N.peers k with up := (N.peers k).up } =
      N.peers from Function.update_eq_self k N.peers]
    rfl
  · rw [hbytes] at hx
    refine .inr ⟨chunk, y.bytes, frames, c, hchunk, hx, hfd, hc, hseg, ?_⟩
    simp only [hr]
    rw [if_pos (h.opened _ hocc)]
    rfl

end

end Network

end ChatProject
