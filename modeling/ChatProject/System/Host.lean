import Mathlib.Logic.Function.Basic
import ChatProject.Client.JoinSteps
import ChatProject.Lib.Machine

/-!
# Clients and windows on one host

The client processes of a host share the kernel's message queues, and each has its windows send
their process ids through one of them.  `Host` is all of this: the clients with their entries and
the join each may be in the middle of, the queues, the windows that have been opened, and the
signals that have been sent.

A step is one call returning to one client, or one window sending its message, in any order
(`Host.step`).  `client_groups_mng_on_join` is taken apart at the calls it waits in
(`JoinCall.resume`); the other functions of `client_groups_mng.c` wait for nothing, and are one step
each.  A step that cannot happen where the host stands changes nothing.

Two things are in here that no program looks at: each call of `client_groups_mng_on_join` has a
number, and windows and entries remember theirs.
-/

set_option autoImplicit false

namespace ChatProject

/-! ## The state -/

/-- A window, with the message it sends. -/
structure Window where
  pid : Int
  /-- The kernel gives out positive process ids. -/
  pos : 0 < pid
  role : WindowRole
  /-- The process id of the client that opened it. -/
  parent : Nat
  /-- The join that opened it. -/
  call : Nat
  /-- The queue it was told. -/
  msqid : Int
deriving DecidableEq

/-- The window that gets this process id. -/
def Window.withPid (pid : { pid : Int // 0 < pid }) (role : WindowRole) (parent call : Nat)
    (msqid : Int) : Window :=
  ⟨pid, pid.2, role, parent, call, msqid⟩

@[simp] theorem Window.role_withPid (pid : { pid : Int // 0 < pid }) (role : WindowRole)
    (parent call : Nat) (msqid : Int) :
    (Window.withPid pid role parent call msqid).role = role := rfl

/-- An entry of a client's list. -/
structure Filed where
  entry : GroupEntry
  /-- The join that made it. -/
  call : Nat

/-- A client process. -/
structure HostClient where
  msqid : Int
  groups : List Filed
  /-- The join it is in, with its number. -/
  call : Option (Nat × JoinCall)

/-- `struct ClientGroupsMng`. -/
def HostClient.mng (cl : HostClient) : ClientGroupsMng := ⟨cl.msqid, cl.groups.map Filed.entry⟩

/-- The host. -/
structure Host where
  /-- The clients that are alive, by process id. -/
  clients : Nat → Option HostClient
  /-- The queues there are: key and id. -/
  queues : List (Int × Int)
  /-- The windows that have still to send their message. -/
  unsent : List Window
  /-- The messages on all queues, in the order they arrived. -/
  sent : List Window
  /-- All windows that have been opened. -/
  opened : List Window
  /-- The process ids that have been signalled. -/
  signalled : List Int
  /-- The number of the next join. -/
  calls : Nat

/-- What happens next. -/
inductive HostEvent where
  /-- `client_groups_mng_create`, with the id that a new queue would get, and whether `ListCreate`
  succeeds. -/
  | create (client : Nat) (fresh : Int) (listed : Bool)
  /-- `client_groups_mng_on_join` is called. -/
  | join (client : Nat) (groupName mcastIp : CStr) (mcastPort : UInt16) (username : CStr)
  /-- `system` returns: 0, with a window of this process id, or something else. -/
  | spawned (client : Nat) (pid : Option { pid : Int // 0 < pid })
  /-- `calloc`, or the `malloc` in `ListPushTail`, returns. -/
  | allocated (client : Nat) (ok : Bool)
  /-- `msgrcv` returns. -/
  | received (client : Nat)
  /-- `client_groups_mng_on_leave`. -/
  | leave (client : Nat) (groupName : CStr)
  /-- `client_groups_mng_clear`. -/
  | clear (client : Nat)
  /-- `client_groups_mng_destroy`. -/
  | destroy (client : Nat)
  /-- A window sends its message. -/
  | report (window : Window)

/-! ## What a join waits for -/

namespace JoinPhase

/-- The window that `system` is to open. -/
def spawns : JoinPhase → Option WindowRole
  | .spawnSender => some .sender
  | .spawnReceiver => some .receiver
  | _ => none

/-- The message that `msgrcv` is to get. -/
def receives : JoinPhase → Option WindowRole
  | .recvSender => some .sender
  | .recvReceiver _ => some .receiver
  | _ => none

/-- It waits for the allocator. -/
def allocates : JoinPhase → Bool
  | .allocEntry | .pushEntry _ _ => true
  | _ => false

end JoinPhase

/-! ## The kernel -/

namespace Host

/-- The host before anything has happened. -/
def empty : Host := ⟨fun _ => none, [], [], [], [], [], 0⟩

variable (h : Host)

def setClient (c : Nat) (cl : Option HostClient) : Host :=
  { h with clients := Function.update h.clients c cl }

/-- There is a queue with this id. -/
def HasQueue (msqid : Int) : Prop := ∃ q ∈ h.queues, q.2 = msqid

instance (msqid : Int) : Decidable (h.HasQueue msqid) :=
  inferInstanceAs (Decidable (∃ q ∈ h.queues, q.2 = msqid))

/-- `msgget(key, IPC_CREAT)`: the queue of this key, or a new one, for which the kernel has picked
an id that is not in use. -/
def msgget (key fresh : Int) : Option (Int × Host) :=
  match h.queues.find? fun q => q.1 = key with
  | some q => some (q.2, h)
  | none =>
    if 0 ≤ fresh ∧ ¬ h.HasQueue fresh then
      some (fresh, { h with queues := h.queues ++ [(key, fresh)] })
    else none

/-- `msgctl(msqid, IPC_RMID)`: the queue is gone, with the messages on it. -/
def msgctlRmid (msqid : Int) : Host :=
  { h with
    queues := h.queues.filter fun q => q.2 ≠ msqid
    sent := h.sent.filter fun w => w.msqid ≠ msqid }

/-- The first message of a role on a queue. -/
def firstMessage (msqid : Int) (role : WindowRole) : Option Window :=
  h.sent.find? fun w => w.msqid = msqid ∧ w.role = role

/-- A window is opened. -/
def openWindow (w : Window) : Host :=
  { h with opened := h.opened ++ [w], unsent := h.unsent ++ [w] }

/-- `msgsnd` in a window; on a queue that is gone the message is lost. -/
def msgsnd (w : Window) : Host :=
  if h.HasQueue w.msqid then { h with unsent := h.unsent.erase w, sent := h.sent ++ [w] }
  else { h with unsent := h.unsent.erase w }

def signal (pids : List Int) : Host := { h with signalled := h.signalled ++ pids }

/-! ## The clients -/

/-- What a resumed join leaves. -/
def settle (c : Nat) (cl : HostClient) (n : Nat) : Resumed → Host
  | .running call => h.setClient c (some { cl with call := some (n, call) })
  | .failed => h.setClient c (some { cl with call := none })
  | .dropped entry => (h.setClient c (some { cl with call := none })).signal entry.signals
  | .filed entry =>
    h.setClient c (some { cl with call := none, groups := cl.groups ++ [⟨entry, n⟩] })

/-- `client_groups_mng_create`, as far as it gets. -/
def create (c : Nat) (key fresh : Int) (listed : Bool) : Host :=
  match h.msgget key fresh with
  | none => h
  | some (msqid, h) => if listed then h.setClient c (some ⟨msqid, [], none⟩) else h.msgctlRmid msqid

/-- `client_groups_mng_on_join` up to the first `system`. -/
def join (c : Nat) (cl : HostClient) (call : JoinCall) : Host :=
  if (cl.groups.find? fun f => f.entry.name = call.groupName).isSome then h
  else
    { h.setClient c (some { cl with call := some (h.calls, call) }) with calls := h.calls + 1 }

/-- `system` returns to a join. -/
def spawned (c : Nat) (cl : HostClient) (n : Nat) (call : JoinCall)
    (pid : Option { pid : Int // 0 < pid }) : Host :=
  match call.phase.spawns with
  | none => h
  | some role =>
    match pid with
    | none => h.settle c cl n (call.resume (.status (-1)))
    | some pid =>
      (h.openWindow (.withPid pid role c n cl.msqid)).settle c cl n (call.resume (.status 0))

/-- The allocator returns to a join. -/
def allocated (c : Nat) (cl : HostClient) (n : Nat) (call : JoinCall) (ok : Bool) : Host :=
  if call.phase.allocates then h.settle c cl n (call.resume (.block ok)) else h

/-- `msgrcv` returns to a join: with a message, or with -1 when the queue is gone.  Otherwise it
goes on waiting. -/
def received (c : Nat) (cl : HostClient) (n : Nat) (call : JoinCall) : Host :=
  match call.phase.receives with
  | none => h
  | some role =>
    if h.HasQueue cl.msqid then
      match h.firstMessage cl.msqid role with
      | none => h
      | some w =>
        { h with sent := h.sent.erase w }.settle c cl n (call.resume (.pid (some w.pid)))
    else h.settle c cl n (call.resume (.pid none))

/-- `client_groups_mng_on_leave`. -/
def leave (c : Nat) (cl : HostClient) (groupName : CStr) : Host :=
  match cl.groups.find? fun f => f.entry.name = groupName with
  | none => h
  | some f =>
    (h.setClient c (some { cl with
      groups := cl.groups.eraseP fun f => f.entry.name = groupName })).signal f.entry.signals

/-- `client_groups_mng_clear`. -/
def clear (c : Nat) (cl : HostClient) : Host :=
  (h.setClient c (some { cl with groups := [] })).signal
    (cl.groups.flatMap fun f => f.entry.signals)

/-- `client_groups_mng_destroy`, after which the process is gone. -/
def destroy (c : Nat) (cl : HostClient) : Host :=
  let h := h.clear c cl
  (if 0 ≤ cl.msqid then h.msgctlRmid cl.msqid else h).setClient c none

/-! ## Steps and runs -/

/-- Something that a client does between its calls. -/
def whenIdle (c : Nat) (f : HostClient → Host) : Host :=
  match h.clients c with
  | some ⟨msqid, groups, none⟩ => f ⟨msqid, groups, none⟩
  | _ => h

/-- Something that a client does in a join. -/
def whenJoining (c : Nat) (f : HostClient → Nat → JoinCall → Host) : Host :=
  match h.clients c with
  | some ⟨msqid, groups, some (n, call)⟩ => f ⟨msqid, groups, some (n, call)⟩ n call
  | _ => h

variable (ftok : Nat → Int)

/-- One step.  `ftok` is the function of that name for the path `CHAT_CHILD_FTOK_PATH`. -/
def step (h : Host) : HostEvent → Host
  | .create c fresh listed =>
    if (h.clients c).isSome then h else h.create c (ftok (c % 256)) fresh listed
  | .join c groupName mcastIp mcastPort username =>
    h.whenIdle c fun cl => h.join c cl ⟨groupName, mcastIp, mcastPort, username, .spawnSender⟩
  | .spawned c pid => h.whenJoining c fun cl n call => h.spawned c cl n call pid
  | .allocated c ok => h.whenJoining c fun cl n call => h.allocated c cl n call ok
  | .received c => h.whenJoining c fun cl n call => h.received c cl n call
  | .leave c groupName => h.whenIdle c fun cl => h.leave c cl groupName
  | .clear c => h.whenIdle c fun cl => h.clear c cl
  | .destroy c => h.whenIdle c fun cl => h.destroy c cl
  | .report w => if w ∈ h.unsent then h.msgsnd w else h

/-- The host after a sequence of steps. -/
def run (es : List HostEvent) : Host := Machine.run (fun h e => (step ftok h e, ())) h es

/-! ## The functions of the client

Whatever operating system `onLeave` and `clear` are run on, they leave the list and send the signals
that the step does.  For `onJoin` this is `onJoin_eq_drive`, up to what happens in between. -/

section Functions

variable {h} {c : Nat} {cl : HostClient} {ε : Type} (os : Desktop ε) (e : ε)

theorem findEntry_mng (groupName : CStr) :
    cl.mng.findEntry groupName =
      (cl.groups.find? fun f => f.entry.name = groupName).map Filed.entry :=
  List.find?_map ..

theorem join_eq_self_iff (call : JoinCall) :
    h.join c cl call = h ↔ cl.mng.findEntry call.groupName ≠ none := by
  rw [join, findEntry_mng]
  cases cl.groups.find? fun f => f.entry.name = call.groupName with
  | some f => simp
  | none =>
    refine iff_of_false (fun heq => ?_) (by simp)
    have hcalls := congrArg Host.calls heq
    simp at hcalls

theorem leave_eq_onLeave (hc : h.clients c = some cl) (groupName : CStr) :
    ∃ cl' pids, (h.leave c cl groupName).clients c = some cl' ∧
      (h.leave c cl groupName).signalled = h.signalled ++ pids ∧
      cl.mng.onLeave os groupName e = (cl'.mng, pids.foldl (fun e pid => os.kill pid e) e) := by
  rw [leave, ClientGroupsMng.onLeave_eq_foldl, findEntry_mng]
  cases cl.groups.find? fun f => f.entry.name = groupName with
  | none => exact ⟨cl, [], hc, (List.append_nil _).symm, rfl⟩
  | some f =>
    refine ⟨_, f.entry.signals, Function.update_self .., rfl, ?_⟩
    simp only [Option.map_some, HostClient.mng, List.eraseP_map]
    rfl

theorem clear_eq_clear :
    ∃ cl' pids, (h.clear c cl).clients c = some cl' ∧
      (h.clear c cl).signalled = h.signalled ++ pids ∧
      cl.mng.clear os e = (cl'.mng, pids.foldl (fun e pid => os.kill pid e) e) := by
  refine ⟨_, _, Function.update_self .., rfl, ?_⟩
  rw [ClientGroupsMng.clear_eq_foldl, HostClient.mng, List.flatMap_map]
  rfl

end Functions

end Host

end ChatProject
