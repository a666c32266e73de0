import ChatProject.Server.UserMng

/-!
# The network layer of the server

`server/server_net.c`: one slot with a receive buffer per connection, and a `select` loop that
accepts connections and reads from them.  TCP hands over bytes in pieces of its own choosing, so a
slot collects them and `processBuffer` cuts whole frames off the front of its buffer.

* `ClientState` — a slot.  `ClientState.data` is the part of its buffer that has been received and
  not yet handed over; a slot is `Settled` when no frame in it is complete.
* `processBuffer_spec`, `handleClientData_cases` — what the two functions do: the frames handed to
  the management layer are the segmentation of what was left over and what has just arrived.
* `Loop` — the `while` loop of `ServerNet_Run`, cut into steps at its system calls: `select`, the
  `accept` after it, and one slot of the scan after the other.  What the system calls answer is the
  input of a step (`Answers`); the management layer is a parameter (`onMsg`, `onDisc`), as it is in
  the source.

The kernel's own table of open descriptors is part of the state (`FdTables.opened`), because what
`accept` may return depends on it.
-/

set_option autoImplicit false

namespace ChatProject

open Framing

/-! ## Slots -/

/-- `RECV_BUFFER_SIZE`. -/
def recvBufferSize : Nat := chatMaxMsgSize * 3

/-- `ClientState`. -/
structure ClientState where
  /-- The descriptor of the connection, -1 in a free slot. -/
  fd : Int
  /-- The receive buffer. -/
  buffer : List UInt8
  /-- It is an array of `RECV_BUFFER_SIZE` bytes. -/
  size : buffer.length = recvBufferSize
  /-- How many bytes at its front have been received and not yet been parsed. -/
  len : Nat

namespace ClientState

/-- A slot as `ServerNet_Create` leaves it.  What its buffer holds is never read. -/
def free : ClientState := ⟨-1, List.replicate recvBufferSize 0, List.length_replicate, 0⟩

variable (c : ClientState)

/-- The bytes that have been received and not yet been parsed. -/
def data : List UInt8 := c.buffer.take c.len

/-- The slot after a frame of `totalMsgLen` bytes has been handed over: the rest moves to the front
of the buffer (`memmove`). -/
def consume (totalMsgLen : Nat) : ClientState :=
  let len := sizeSub c.len totalMsgLen
  if 0 < len then
    { c with
      len
      buffer := writeAt c.buffer 0 ((c.buffer.drop totalMsgLen).take len)
      size := (length_writeAt _ _ _).trans c.size }
  else { c with len }

/-- The slot after `recv` has written `bytes` behind what was there. -/
def receive (bytes : List UInt8) : ClientState :=
  { c with
    len := c.len + bytes.length
    buffer := writeAt c.buffer c.len bytes
    size := (length_writeAt _ _ _).trans c.size }

/-- The slot after its connection is gone. -/
def reset : ClientState := { c with fd := -1, len := 0 }

/-- The slot after a new connection has been put in. -/
def install (newFd : Int) : ClientState := { c with fd := newFd, len := 0 }

/-- No frame in the buffer is complete. -/
structure Settled : Prop where
  incomplete : tlv.Incomplete c.data
  len_le : c.len ≤ recvBufferSize

@[simp] theorem consume_fd (n : Nat) : (c.consume n).fd = c.fd := by
  rw [consume]
  split <;> rfl

@[simp] theorem consume_len (n : Nat) : (c.consume n).len = sizeSub c.len n := by
  rw [consume]
  split <;> rfl

theorem consume_buffer (n : Nat) :
    (c.consume n).buffer =
      if 0 < sizeSub c.len n then
        writeAt c.buffer 0 ((c.buffer.drop n).take (sizeSub c.len n))
      else c.buffer := by
  by_cases h : 0 < sizeSub c.len n
  · simp only [consume, if_pos h]
  · simp only [consume, if_neg h]

theorem consume_len_lt {n : Nat} (hn : 0 < n) (h : n ≤ c.len) : (c.consume n).len < c.len := by
  rw [consume_len, sizeSub_eq h]
  omega

variable {c}

theorem length_data (h : c.len ≤ recvBufferSize) : c.data.length = c.len := by
  rw [data, List.length_take, c.size, Nat.min_eq_left h]

theorem data_consume {n : Nat} (h : c.len ≤ recvBufferSize) (hn : n ≤ c.len) :
    (c.consume n).data = c.data.drop n := by
  rw [data, data, List.drop_take, consume_len, consume_buffer, sizeSub_eq hn]
  by_cases hpos : 0 < c.len - n
  · rw [if_pos hpos]
    have hlen : ((c.buffer.drop n).take (c.len - n)).length = c.len - n := by
      rw [List.length_take, List.length_drop, c.size]
      omega
    have hfit : 0 + ((c.buffer.drop n).take (c.len - n)).length ≤ c.buffer.length := by
      rw [hlen, c.size]
      omega
    have htake := take_writeAt hfit
    rw [Nat.zero_add, hlen] at htake
    exact htake
  · rw [if_neg hpos, Nat.eq_zero_of_not_pos hpos, List.take_zero, List.take_zero]

theorem data_receive {bytes : List UInt8} (h : c.len + bytes.length ≤ recvBufferSize) :
    (c.receive bytes).data = c.data ++ bytes :=
  take_writeAt (h.trans_eq c.size.symm)

/-- A settled slot has room for at least two more frames. -/
theorem Settled.len_lt (h : c.Settled) : c.len < chatMaxMsgSize := by
  have hlt := length_of_incomplete h.incomplete
  rwa [length_data h.len_le] at hlt

theorem settled_of_empty (h : c.len = 0) : c.Settled := by
  refine ⟨?_, by omega⟩
  rw [data, h, List.take_zero]
  exact incomplete_nil

end ClientState

/-! ## Reassembly -/

section Reassembly
variable {σ : Type} (onMsg : Int → List UInt8 → σ → σ)

/-- `ProcessBuffer`. -/
def processBuffer (c : ClientState) (ctx : σ) : ClientState × σ :=
  match chatPeekHeader c.data with
  | none => (c, ctx)
  | some (_, length) =>
    let totalMsgLen := 2 + length.toNat
    if c.len < totalMsgLen then (c, ctx)
    else
      processBuffer (c.consume totalMsgLen) (onMsg c.fd (c.buffer.take totalMsgLen) ctx)
termination_by c.len
decreasing_by
  exact c.consume_len_lt (by omega) (Nat.le_of_not_lt ‹_›)

/-- **Reassembly.**  `processBuffer` hands over the frames of what is in the buffer, in order, and
leaves the incomplete rest. -/
theorem processBuffer_spec {c : ClientState} (h : c.len ≤ recvBufferSize) (ctx : σ) :
    ∃ frames, tlv.Segmentation c.data frames (processBuffer onMsg c ctx).1.data ∧
      (processBuffer onMsg c ctx).2 = frames.foldl (fun ctx msg => onMsg c.fd msg ctx) ctx ∧
      (processBuffer onMsg c ctx).1.fd = c.fd ∧ (processBuffer onMsg c ctx).1.len ≤ c.len := by
  fun_induction processBuffer onMsg c ctx with
  | case1 c ctx hpeek =>
    refine ⟨[], .nil fun n hn => ?_, rfl, rfl, Nat.le_refl _⟩
    rw [tlv_size_eq_none hpeek] at hn
    exact absurd hn (by simp)
  | case2 c ctx type length hpeek totalMsgLen hlt =>
    refine ⟨[], .nil fun n hn => ?_, rfl, rfl, Nat.le_refl _⟩
    rw [tlv_size_eq hpeek] at hn
    rw [ClientState.length_data h, ← Option.some.inj hn]
    exact hlt
  | case3 c ctx type length hpeek totalMsgLen hge ih =>
    have hle : totalMsgLen ≤ c.len := Nat.le_of_not_lt hge
    have hpos : 0 < totalMsgLen := tlv.pos (tlv_size_eq hpeek)
    have hlt := c.consume_len_lt hpos hle
    obtain ⟨frames, hseg, hctx, hfd, hlen⟩ := ih (by omega)
    -- the frame that is handed over is the front of what has been received
    have hframe : c.buffer.take totalMsgLen = c.data.take totalMsgLen := by
      rw [ClientState.data, List.take_take, Nat.min_eq_left hle]
    have hisFrame : tlv.IsFrame (c.data.take totalMsgLen) :=
      isFrame_take (tlv_size_eq hpeek) (by rwa [ClientState.length_data h])
    refine ⟨c.data.take totalMsgLen :: frames, ?_, ?_, ?_, by omega⟩
    · have hcons := hseg.cons hisFrame
      rwa [ClientState.data_consume h hle, List.take_append_drop] at hcons
    · rw [hctx, ClientState.consume_fd, hframe]
      rfl
    · rw [hfd, ClientState.consume_fd]

end Reassembly

/-! ## Descriptors -/

/-- `fd_set`: the descriptors whose bit is set. -/
abbrev FdSet := Int → Bool

/-- `FD_SET`. -/
def FdSet.set (fd : Int) (s : FdSet) : FdSet := Function.update s fd true

/-- `FD_CLR`. -/
def FdSet.clr (fd : Int) (s : FdSet) : FdSet := Function.update s fd false

/-- The two tables a connection is entered in. -/
structure FdTables where
  /-- The descriptors `select` is asked about. -/
  masterSet : FdSet
  /-- The kernel's: the descriptors of the process that are open. -/
  opened : FdSet

/-- `close(fd)`. -/
def FdTables.close (fd : Int) (t : FdTables) : FdTables := { t with opened := t.opened.clr fd }

/-! ## One connection -/

section Connection
variable {σ : Type} (onMsg : Int → List UInt8 → σ → σ) (onDisc : Int → σ → σ)

/-- `HandleClientData`. -/
def handleClientData (c : ClientState) (t : FdTables) (x : Inbox UInt8) (ctx : σ) :
    ClientState × FdTables × Inbox UInt8 × σ :=
  let spaceLeft := sizeSub recvBufferSize c.len
  if spaceLeft = 0 then (c, t, x, ctx)
  else
    match x.recv spaceLeft with
    | (some (b :: bs), x) =>
      let (c, ctx) := processBuffer onMsg (c.receive (b :: bs)) ctx
      (c, t, x, ctx)
    | (_, x) =>
      -- 0 and -1 alike: the descriptor is closed and taken off the set, the management layer is
      -- told while the slot still knows it, and then the slot is free
      let t := t.close c.fd
      let t := { t with masterSet := t.masterSet.clr c.fd }
      let ctx := onDisc c.fd ctx
      (c.reset, t, x, ctx)

/-- **What reading from a settled slot can do.**  Either the stream is at its end and the
connection is taken down, or something arrives and the frames it completes are handed over. -/
theorem handleClientData_cases {c : ClientState} (h : c.Settled) (t : FdTables) (x : Inbox UInt8)
    (ctx : σ) :
    (x.bytes = [] ∧ handleClientData onMsg onDisc c t x ctx =
      (c.reset, ⟨t.masterSet.clr c.fd, t.opened.clr c.fd⟩, x, onDisc c.fd ctx)) ∨
    ∃ chunk y frames c', chunk ≠ [] ∧ x.bytes = chunk ++ y.bytes ∧
      handleClientData onMsg onDisc c t x ctx =
        (c', t, y, frames.foldl (fun ctx msg => onMsg c.fd msg ctx) ctx) ∧
      c'.fd = c.fd ∧ c'.Settled ∧ tlv.Segmentation (c.data ++ chunk) frames c'.data := by
  have hlt := h.len_lt
  have hspace : sizeSub recvBufferSize c.len = recvBufferSize - c.len := sizeSub_eq h.len_le
  have hpos : 0 < recvBufferSize - c.len := by
    rw [recvBufferSize]
    omega
  rw [handleClientData]
  simp only [hspace]
  rw [if_neg (Nat.ne_of_gt hpos)]
  obtain ⟨hend, hrecv⟩ | ⟨chunk, y, hchunk, hlen, hrecv, hbytes, -⟩ := x.recv_cases hpos
  · refine .inl ⟨hend, ?_⟩
    rw [hrecv]
    cases x.broken <;> rfl
  · right
    rw [hrecv]
    obtain ⟨b, bs, rfl⟩ := List.exists_cons_of_ne_nil hchunk
    have hfit : c.len + (b :: bs).length ≤ recvBufferSize := by omega
    obtain ⟨frames, hseg, hctx, hfd, hle⟩ :=
      processBuffer_spec onMsg (c := c.receive (b :: bs)) hfit ctx
    rw [ClientState.data_receive hfit] at hseg
    exact ⟨b :: bs, y, frames, _, hchunk, hbytes, by simp only [hctx]; rfl, hfd,
      ⟨hseg.rest, hle.trans hfit⟩, hseg⟩

end Connection

/-! ## The slot table -/

/-- `MAX_CLIENTS`. -/
def maxClients : Nat := fdSetSize

/-- `struct ServerNet`, without the callbacks. -/
structure ServerNet where
  listenFd : Int
  maxFd : Int
  /-- `masterSet`, and beside it the table the kernel keeps. -/
  tables : FdTables
  clients : Fin maxClients → ClientState

namespace ServerNet

/-- `ServerNet_Create`: `listenFd` is what `SetupListeningSocket` returns, and `opened` are the
descriptors that are open then. -/
def create (al : Alloc) (listenFd : Int) (opened : FdSet) : Option ServerNet :=
  match malloc al with
  | (false, _) => none
  | (true, _) =>
    if listenFd = -1 then none
    else
      some
        { listenFd
          maxFd := listenFd
          tables := ⟨FdSet.set listenFd fun _ => false, opened⟩
          clients := fun _ => .free }

/-- The first free slot. -/
def freeSlot (net : ServerNet) : Option (Fin maxClients) :=
  (List.finRange maxClients).find? fun i => (net.clients i).fd = -1

/-- `HandleNewConnection`, where `accept` has returned `newFd`. -/
def handleNewConnection (net : ServerNet) (newFd : Int) : ServerNet :=
  if newFd = -1 then net
  else
    -- from here on the kernel has the descriptor open
    let tables := { net.tables with opened := net.tables.opened.set newFd }
    match net.freeSlot with
    | some i =>
      { net with
        clients := Function.update net.clients i ((net.clients i).install newFd)
        tables := { tables with masterSet := tables.masterSet.set newFd }
        maxFd := if newFd > net.maxFd then newFd else net.maxFd }
    | none => { net with tables := tables.close newFd }

end ServerNet

/-- The network layer right after its creation, listening on descriptor 3 with the standard streams
open. -/
def firstNet : ServerNet :=
  ⟨3, 3, ⟨FdSet.set 3 fun _ => false, fun fd => 0 ≤ fd ∧ fd ≤ 3⟩, fun _ => .free⟩

/-! ## The loop -/

/-- What `select` comes back with. -/
inductive Selected where
  /-- It left the bits of these descriptors set, of those it was asked about. -/
  | ready (fds : FdSet)
  /-- -1 with `EINTR`. -/
  | interrupted
  /-- -1 for another reason. -/
  | failed

/-- What the surroundings answer to the one system call a step of the loop makes. -/
structure Answers where
  /-- `*_keepRunning`. -/
  keepRunning : Bool
  /-- `select`. -/
  selected : Selected
  /-- `accept`. -/
  accepted : Int
  /-- What `recv` finds on the socket that is read. -/
  inbox : Inbox UInt8

/-- The peer has closed and sent nothing. -/
def nothingSent : Inbox UInt8 := ⟨[], List.not_mem_nil, false⟩

/-- Where in `ServerNet_Run` the loop stands. -/
inductive Phase where
  /-- At the head of the `while` loop. -/
  | select
  /-- `select` has returned; the listening socket is looked at next. -/
  | accept
  /-- The scan of the slots is at this one. -/
  | scan (i : Nat)
  /-- `ServerNet_Run` has returned this code. -/
  | stopped (code : Int)
deriving DecidableEq

/-- The state of `ServerNet_Run`. -/
structure Loop (σ : Type) where
  net : ServerNet
  readSet : FdSet
  phase : Phase
  ctx : σ

namespace Loop

variable {σ : Type} (onMsg : Int → List UInt8 → σ → σ) (onDisc : Int → σ → σ)

/-- The call of `ServerNet_Run`. -/
def start (net : ServerNet) (ctx : σ) : Loop σ := ⟨net, fun _ => false, .select, ctx⟩

/-- Whether slot `i` is occupied and its descriptor was reported readable. -/
def readable (s : Loop σ) (i : Fin maxClients) : Bool :=
  -1 ≠ (s.net.clients i).fd ∧ s.readSet (s.net.clients i).fd = true

/-- `HandleClientData` on slot `i`. -/
def serveSlot (s : Loop σ) (i : Fin maxClients) (x : Inbox UInt8) : Loop σ :=
  match handleClientData onMsg onDisc (s.net.clients i) s.net.tables x s.ctx with
  | (c, tables, _, ctx) =>
    { s with net := { s.net with clients := Function.update s.net.clients i c, tables }, ctx }

/-- One step of `ServerNet_Run`, up to the next system call. -/
def step (s : Loop σ) (a : Answers) : Loop σ :=
  match s.phase with
  | .select =>
    if a.keepRunning = false then { s with phase := .stopped 0 }
    else
      match a.selected with
      | .ready fds =>
        { s with readSet := fun fd => s.net.tables.masterSet fd && fds fd, phase := .accept }
      | .interrupted => s
      | .failed => { s with phase := .stopped (-1) }
  | .accept =>
    if s.readSet s.net.listenFd then
      { s with net := s.net.handleNewConnection a.accepted, phase := .scan 0 }
    else { s with phase := .scan 0 }
  | .scan i =>
    if h : i < maxClients then
      if s.readable ⟨i, h⟩ then
        { s.serveSlot onMsg onDisc ⟨i, h⟩ a.inbox with phase := .scan (i + 1) }
      else { s with phase := .scan (i + 1) }
    else { s with phase := .select }
  | .stopped _ => s

/-- What POSIX promises of `accept`: it fails, or returns a descriptor that is not open.  That the
descriptor is one an `fd_set` has room for is not promised and assumed here. -/
def Promised (s : Loop σ) (a : Answers) : Prop :=
  a.accepted = -1 ∨
    0 ≤ a.accepted ∧ a.accepted < fdSetSize ∧ s.net.tables.opened a.accepted = false

/-- A step in surroundings that keep the promise. -/
def Next (s s' : Loop σ) : Prop := ∃ a, s.Promised a ∧ s' = s.step onMsg onDisc a

/-- The states of `ServerNet_Run`. -/
def Reachable (s₀ s : Loop σ) : Prop := Relation.ReflTransGen (Next onMsg onDisc) s₀ s

end Loop

end ChatProject
