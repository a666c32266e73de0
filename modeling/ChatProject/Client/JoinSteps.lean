import ChatProject.Client.ClientGroupsMng

/-!
# A join, step by step

While `client_groups_mng_on_join` runs, other processes run too: the windows it has opened, and
other clients.  What they do falls between the calls it makes of the operating system and of the
allocator, so this is where the function is cut: a `JoinCall` is a call of it that waits for one of
these to return, and `JoinCall.resume` is what it does then.

* `onJoin_eq_drive` — on its own, answered by whatever operating system there is, this comes to
  `ClientGroupsMng.onJoin`.
* `killEntry_eq_foldl` and its siblings — the signals that `onLeave` and `clear` send.
-/

set_option autoImplicit false

namespace ChatProject

/-! ## The steps -/

/-- What a call of `client_groups_mng_on_join` is waiting for. -/
inductive JoinPhase where
  /-- The first `system`. -/
  | spawnSender
  /-- The second. -/
  | spawnReceiver
  /-- `calloc` of the entry. -/
  | allocEntry
  /-- The first `recv_child_pid`. -/
  | recvSender
  /-- The second. -/
  | recvReceiver (senderPid : Int)
  /-- The node that `ListPushTail` allocates. -/
  | pushEntry (senderPid receiverPid : Int)
deriving DecidableEq

/-- A call of `client_groups_mng_on_join` that has got past `find_entry`. -/
structure JoinCall where
  groupName : CStr
  mcastIp : CStr
  mcastPort : UInt16
  username : CStr
  phase : JoinPhase

/-- What it is answered. -/
inductive Answer where
  /-- By `system`. -/
  | status (rc : Int)
  /-- By `msgrcv`: the process id in the message, or `none` for -1. -/
  | pid (pid : Option Int)
  /-- By the allocator. -/
  | block (ok : Bool)

/-- How it goes on. -/
inductive Resumed where
  /-- To the next call. -/
  | running (call : JoinCall)
  /-- It returns -1. -/
  | failed
  /-- It returns -1, after `kill_entry`. -/
  | dropped (entry : GroupEntry)
  /-- It returns 0, with the entry in the list. -/
  | filed (entry : GroupEntry)

namespace JoinCall

/-- The entry it makes. -/
def entry (call : JoinCall) (senderPid receiverPid : Int) : GroupEntry :=
  ⟨call.groupName.ncopy chatMaxGroupnameLen, senderPid, receiverPid⟩

/-- One step.  An answer of another kind is none, and the call goes on waiting. -/
def resume (call : JoinCall) (answer : Answer) : Resumed :=
  match call.phase, answer with
  | .spawnSender, .status rc =>
    if rc ≠ 0 then .failed else .running { call with phase := .spawnReceiver }
  | .spawnReceiver, .status rc =>
    if rc ≠ 0 then .failed else .running { call with phase := .allocEntry }
  | .allocEntry, .block ok =>
    if ok = false then .failed else .running { call with phase := .recvSender }
  | .recvSender, .pid pid => .running { call with phase := .recvReceiver (pid.getD (-1)) }
  | .recvReceiver senderPid, .pid pid =>
    .running { call with phase := .pushEntry senderPid (pid.getD (-1)) }
  | .pushEntry senderPid receiverPid, .block ok =>
    if ok = false then .dropped (call.entry senderPid receiverPid)
    else .filed (call.entry senderPid receiverPid)
  | _, _ => .running call

end JoinCall

namespace ClientGroupsMng

variable {ε : Type} (os : Desktop ε) (m : ClientGroupsMng)

/-- The operating system, or the allocator, answers what a call waits for. -/
def ask (call : JoinCall) (al : Alloc) (e : ε) : Answer × Alloc × ε :=
  match call.phase with
  | .spawnSender =>
    match os.system (senderCommand call.groupName call.mcastIp call.mcastPort m.msqid
      call.username) e with
    | (rc, e) => (.status rc, al, e)
  | .spawnReceiver =>
    match os.system (receiverCommand call.groupName call.mcastIp call.mcastPort m.msqid) e with
    | (rc, e) => (.status rc, al, e)
  | .recvSender =>
    match os.msgrcv m.msqid .sender e with
    | (pid, e) => (.pid pid, al, e)
  | .recvReceiver _ =>
    match os.msgrcv m.msqid .receiver e with
    | (pid, e) => (.pid pid, al, e)
  | .allocEntry | .pushEntry _ _ => (.block (malloc al).1, (malloc al).2, e)

/-- A call that is answered at once each time, for at most `rounds` steps. -/
def drive : (rounds : Nat) → JoinCall → Alloc → ε → Int × ClientGroupsMng × ε
  | 0, _, _, e => (-1, m, e)
  | rounds + 1, call, al, e =>
    match m.ask os call al e with
    | (answer, al, e) =>
      match call.resume answer with
      | .running call => drive rounds call al e
      | .failed => (-1, m, e)
      | .dropped entry => (-1, m, killEntry os entry e)
      | .filed entry => (0, { m with groups := m.groups ++ [entry] }, e)

section Drive

variable (groupName mcastIp : CStr) (mcastPort : UInt16) (username : CStr) (rounds : Nat)
  (senderPid receiverPid : Int) (al : Alloc) (e : ε)

theorem drive_spawnSender :
    m.drive os (rounds + 1) ⟨groupName, mcastIp, mcastPort, username, .spawnSender⟩ al e =
      match os.system (senderCommand groupName mcastIp mcastPort m.msqid username) e with
      | (rc, e) =>
        if rc ≠ 0 then (-1, m, e)
        else m.drive os rounds ⟨groupName, mcastIp, mcastPort, username, .spawnReceiver⟩ al e := by
  rw [drive, ask]
  simp only [JoinCall.resume]
  split_ifs <;> rfl

theorem drive_spawnReceiver :
    m.drive os (rounds + 1) ⟨groupName, mcastIp, mcastPort, username, .spawnReceiver⟩ al e =
      match os.system (receiverCommand groupName mcastIp mcastPort m.msqid) e with
      | (rc, e) =>
        if rc ≠ 0 then (-1, m, e)
        else m.drive os rounds ⟨groupName, mcastIp, mcastPort, username, .allocEntry⟩ al e := by
  rw [drive, ask]
  simp only [JoinCall.resume]
  split_ifs <;> rfl

theorem drive_allocEntry :
    m.drive os (rounds + 1) ⟨groupName, mcastIp, mcastPort, username, .allocEntry⟩ al e =
      match malloc al with
      | (false, _) => (-1, m, e)
      | (true, al) =>
        m.drive os rounds ⟨groupName, mcastIp, mcastPort, username, .recvSender⟩ al e := by
  rw [drive, ask]
  rcases malloc al with ⟨ok, al⟩
  cases ok <;> rfl

theorem drive_recvSender :
    m.drive os (rounds + 1) ⟨groupName, mcastIp, mcastPort, username, .recvSender⟩ al e =
      match recvChildPid os m.msqid .sender e with
      | (pid, e) =>
        m.drive os rounds ⟨groupName, mcastIp, mcastPort, username, .recvReceiver pid⟩ al e := by
  rw [drive, ask, recvChildPid]
  rcases os.msgrcv m.msqid .sender e with ⟨pid, e⟩
  cases pid <;> rfl

theorem drive_recvReceiver :
    m.drive os (rounds + 1) ⟨groupName, mcastIp, mcastPort, username, .recvReceiver senderPid⟩
        al e =
      match recvChildPid os m.msqid .receiver e with
      | (pid, e) =>
        m.drive os rounds ⟨groupName, mcastIp, mcastPort, username, .pushEntry senderPid pid⟩ al
          e := by
  rw [drive, ask, recvChildPid]
  rcases os.msgrcv m.msqid .receiver e with ⟨pid, e⟩
  cases pid <;> rfl

theorem drive_pushEntry :
    m.drive os (rounds + 1)
        ⟨groupName, mcastIp, mcastPort, username, .pushEntry senderPid receiverPid⟩ al e =
      match malloc al with
      | (false, _) =>
        (-1, m, killEntry os ⟨groupName.ncopy chatMaxGroupnameLen, senderPid, receiverPid⟩ e)
      | (true, _) =>
        (0, { m with groups := m.groups ++
          [⟨groupName.ncopy chatMaxGroupnameLen, senderPid, receiverPid⟩] }, e) := by
  rw [drive, ask]
  rcases malloc al with ⟨ok, al⟩
  cases ok <;> rfl

/-- The last three steps. -/
theorem drive_received :
    m.drive os (rounds + 3) ⟨groupName, mcastIp, mcastPort, username, .recvSender⟩ al e =
      match recvChildPid os m.msqid .sender e with
      | (senderPid, e) =>
        match recvChildPid os m.msqid .receiver e with
        | (receiverPid, e) =>
          match malloc al with
          | (false, _) =>
            (-1, m, killEntry os ⟨groupName.ncopy chatMaxGroupnameLen, senderPid, receiverPid⟩ e)
          | (true, _) =>
            (0, { m with groups := m.groups ++
              [⟨groupName.ncopy chatMaxGroupnameLen, senderPid, receiverPid⟩] }, e) :=
  (m.drive_recvSender os groupName mcastIp mcastPort username (rounds + 2) al e).trans
    ((m.drive_recvReceiver os groupName mcastIp mcastPort username (rounds + 1) _ al _).trans
      (m.drive_pushEntry os groupName mcastIp mcastPort username rounds _ _ al _))

/-- **The steps are the function.** -/
theorem onJoin_eq_drive :
    m.onJoin os groupName mcastIp mcastPort username al e =
      match m.findEntry groupName with
      | some _ => (-1, m, e)
      | none => m.drive os 6 ⟨groupName, mcastIp, mcastPort, username, .spawnSender⟩ al e := by
  rw [onJoin]
  cases m.findEntry groupName with
  | some entry => rfl
  | none =>
    rw [drive_spawnSender]
    rcases os.system (senderCommand groupName mcastIp mcastPort m.msqid username) e with ⟨rc, e⟩
    by_cases hrc : rc ≠ 0
    · exact (if_pos hrc).trans (if_pos hrc).symm
    · refine (if_neg hrc).trans (Eq.trans ?_ (if_neg hrc).symm)
      rw [drive_spawnReceiver]
      rcases os.system (receiverCommand groupName mcastIp mcastPort m.msqid) e with ⟨rc', e⟩
      by_cases hrc' : rc' ≠ 0
      · exact (if_pos hrc').trans (if_pos hrc').symm
      · refine (if_neg hrc').trans (Eq.trans ?_ (if_neg hrc').symm)
        rw [drive_allocEntry]
        rcases malloc al with ⟨ok, al⟩
        cases ok with
        | false => rfl
        | true =>
          exact (m.drive_received os groupName mcastIp mcastPort username 0 al e).symm

end Drive

end ClientGroupsMng

/-! ## Signals -/

/-- The process ids that `kill_entry` signals. -/
def GroupEntry.signals (entry : GroupEntry) : List Int :=
  [entry.senderPid, entry.receiverPid].filter (0 < ·)

namespace ClientGroupsMng

variable {ε : Type} (os : Desktop ε) (m : ClientGroupsMng)

theorem killEntry_eq_foldl (entry : GroupEntry) (e : ε) :
    killEntry os entry e = entry.signals.foldl (fun e pid => os.kill pid e) e := by
  rw [killEntry, GroupEntry.signals]
  by_cases hs : 0 < entry.senderPid <;> by_cases hr : 0 < entry.receiverPid <;> simp [hs, hr]

theorem onLeave_eq_foldl (groupName : CStr) (e : ε) :
    m.onLeave os groupName e =
      match m.findEntry groupName with
      | none => (m, e)
      | some entry =>
        ({ m with groups := m.groups.eraseP fun e => e.name = groupName },
          entry.signals.foldl (fun e pid => os.kill pid e) e) := by
  rw [onLeave]
  cases m.findEntry groupName with
  | none => rfl
  | some entry => simp only [killEntry_eq_foldl]

theorem clear_eq_foldl (e : ε) :
    m.clear os e =
      ({ m with groups := [] },
        (m.groups.flatMap GroupEntry.signals).foldl (fun e pid => os.kill pid e) e) := by
  rw [clear, List.foldl_flatMap]
  simp only [killEntry_eq_foldl]

end ClientGroupsMng

end ChatProject
