import ChatProject.Shared.Protocol

/-!
# The chat windows of a client

`client/client_groups_mng.c`: for every group it is in, the client keeps an entry with the process
ids of the two windows it has opened for it.  Opening them goes through the shell and a message
queue, killing them through signals, and none of this is up to the program: the operating system is
a parameter (`Desktop`), with a state of its own.

What the rest of the client relies on is the list of names: `onJoin_cases` says that a join adds
the name to it or leaves it alone, `names_onLeave` that a leave takes it off.
-/

set_option autoImplicit false

namespace ChatProject

/-! ## The operating system -/

/-- The `mtype` of a message on the queue: the window it comes from. -/
inductive WindowRole where
  /-- `CHAT_CHILD_MTYPE_SENDER`. -/
  | sender
  /-- `CHAT_CHILD_MTYPE_RECEIVER`. -/
  | receiver
deriving DecidableEq

/-- What the client asks of the operating system. -/
structure Desktop (ε : Type) where
  /-- `system(cmd)`. -/
  system : List UInt8 → ε → Int × ε
  /-- `msgrcv` on a queue, for a message of one type: the process id in it, or `none` for -1. -/
  msgrcv : Int → WindowRole → ε → Option Int × ε
  /-- `kill(pid, SIGTERM)`. -/
  kill : Int → ε → ε

/-! ## Entries -/

/-- `GroupEntry`. -/
structure GroupEntry where
  name : CStr
  senderPid : Int
  receiverPid : Int

/-- `struct ClientGroupsMng`. -/
structure ClientGroupsMng where
  /-- The message queue. -/
  msqid : Int
  /-- The list of entries. -/
  groups : List GroupEntry

/-- `sizeof(cmd)`. -/
def cmdSize : Nat := 256

namespace ClientGroupsMng

variable {ε : Type} (os : Desktop ε)

/-- The names of the groups with an entry. -/
def names (m : ClientGroupsMng) : List CStr := m.groups.map GroupEntry.name

/-- `find_entry`. -/
def findEntry (m : ClientGroupsMng) (groupName : CStr) : Option GroupEntry :=
  m.groups.find? fun e => e.name = groupName

/-- `recv_child_pid`. -/
def recvChildPid (msqid : Int) (role : WindowRole) (e : ε) : Int × ε :=
  match os.msgrcv msqid role e with
  | (none, e) => (-1, e)
  | (some pid, e) => (pid, e)

/-- `kill_entry`. -/
def killEntry (entry : GroupEntry) (e : ε) : ε :=
  let e := if 0 < entry.senderPid then os.kill entry.senderPid e else e
  if 0 < entry.receiverPid then os.kill entry.receiverPid e else e

/-- The command line both windows are opened with, cut to the size of `cmd`. -/
def spawnCommand (role program : String) (groupName mcastIp : CStr) (mcastPort : UInt16)
    (msqid : Int) (last : CStr) : List UInt8 :=
  (literal "gnome-terminal --title='" ++ groupName.bytes ++ literal " (" ++ literal role ++
    literal ")' -- ./bin/" ++ literal program ++ literal " " ++ mcastIp.bytes ++ literal " " ++
    decimal mcastPort.toNat ++ literal " " ++ signedDecimal msqid ++ literal " '" ++ last.bytes ++
    literal "' &").take (cmdSize - 1)

/-- The command for the window that sends, which is told the username. -/
def senderCommand (groupName mcastIp : CStr) (mcastPort : UInt16) (msqid : Int)
    (username : CStr) : List UInt8 :=
  spawnCommand "sender" "chat_sender" groupName mcastIp mcastPort msqid username

/-- The command for the window that receives, which is told the group name. -/
def receiverCommand (groupName mcastIp : CStr) (mcastPort : UInt16) (msqid : Int) : List UInt8 :=
  spawnCommand "receiver" "chat_receiver" groupName mcastIp mcastPort msqid groupName

/-- `client_groups_mng_on_join`. -/
def onJoin (m : ClientGroupsMng) (groupName mcastIp : CStr) (mcastPort : UInt16)
    (username : CStr) (al : Alloc) (e : ε) : Int × ClientGroupsMng × ε :=
  match m.findEntry groupName with
  | some _ => (-1, m, e)
  | none =>
    match os.system (senderCommand groupName mcastIp mcastPort m.msqid username) e with
    | (rc, e) =>
      if rc ≠ 0 then (-1, m, e)
      else
        match os.system (receiverCommand groupName mcastIp mcastPort m.msqid) e with
        | (rc, e) =>
          if rc ≠ 0 then (-1, m, e)
          else
            match malloc al with
            | (false, _) => (-1, m, e)
            | (true, al) =>
              let (senderPid, e) := recvChildPid os m.msqid .sender e
              let (receiverPid, e) := recvChildPid os m.msqid .receiver e
              let entry := ⟨groupName.ncopy chatMaxGroupnameLen, senderPid, receiverPid⟩
              -- `ListPushTail` allocates a node
              match malloc al with
              | (false, _) => (-1, m, killEntry os entry e)
              | (true, _) => (0, { m with groups := m.groups ++ [entry] }, e)

/-- `client_groups_mng_on_leave`. -/
def onLeave (m : ClientGroupsMng) (groupName : CStr) (e : ε) : ClientGroupsMng × ε :=
  match m.findEntry groupName with
  | none => (m, e)
  | some entry =>
    ({ m with groups := m.groups.eraseP fun e => e.name = groupName }, killEntry os entry e)

/-- `client_groups_mng_clear`. -/
def clear (m : ClientGroupsMng) (e : ε) : ClientGroupsMng × ε :=
  ({ m with groups := [] }, m.groups.foldl (fun e entry => killEntry os entry e) e)

/-! ## The names -/

theorem findEntry_eq_none_iff {m : ClientGroupsMng} {g : CStr} :
    m.findEntry g = none ↔ g ∉ m.names := by
  rw [findEntry, List.find?_eq_none, names, List.mem_map]
  simp only [decide_eq_true_eq, not_exists, not_and]

/-- A join adds the name or leaves the list alone. -/
theorem onJoin_cases (m : ClientGroupsMng) {g : CStr} (hg : g.length ≤ chatMaxGroupnameLen)
    (ip : CStr) (port : UInt16) (username : CStr) (al : Alloc) (e : ε) :
    (m.onJoin os g ip port username al e).2.1.names = m.names ∨
    g ∉ m.names ∧ (m.onJoin os g ip port username al e).2.1.names = m.names ++ [g] := by
  rw [onJoin]
  split
  · exact .inl rfl
  rename_i hnone
  split
  split
  · exact .inl rfl
  split
  split
  · exact .inl rfl
  split
  · exact .inl rfl
  simp only
  split
  · exact .inl rfl
  · refine .inr ⟨findEntry_eq_none_iff.mp hnone, ?_⟩
    simp only [names, List.map_append, List.map_cons, List.map_nil, CStr.ncopy_eq_self hg]

/-- A leave takes the name off the list. -/
theorem names_onLeave (m : ClientGroupsMng) (g : CStr) (e : ε) :
    (m.onLeave os g e).1.names = m.names.erase g := by
  rw [onLeave]
  split
  · rename_i hnone
    rw [List.erase_of_not_mem (findEntry_eq_none_iff.mp hnone)]
  · have hsame : (fun entry : GroupEntry => decide (entry.name = g)) =
        (fun n => g == n) ∘ GroupEntry.name := by
      funext entry
      exact decide_eq_decide.mpr eq_comm
    rw [names, names, List.erase_eq_eraseP, List.eraseP_map, ← hsame]

end ClientGroupsMng

end ChatProject
