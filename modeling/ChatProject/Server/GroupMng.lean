import ChatProject.Server.Table
import ChatProject.Server.FreeMcQueue

/-!
# The group manager

`server/group_mng.c`: the groups on file, each with the address pair it holds and a count of its
members.  The manager knows no members, only how many there are; a group whose count drops to zero
is taken off file and its pair goes back to the pool.

Each operation is read off the two things the rest of the server can see of the manager, the
partial function `GroupMng.group` and the list `GroupMng.free`.  What an operation does under
allocation failures is one lemma per operation (`createGroup_cases`, `leaveGroup_of_last`), and what
it does without them another.
-/

set_option autoImplicit false

namespace ChatProject

/-- `Group`.  The member count never exceeds the number of users in memory, so a natural number
stands for the `size_t`. -/
structure Group where
  /-- The name the group is filed under. -/
  name : CStr
  /-- Its multicast address. -/
  mcastIp : CStr
  /-- Its port. -/
  mcastPort : UInt16
  /-- When this reaches 0 the group is destroyed and the address reclaimed. -/
  memberCount : Nat
deriving DecidableEq, Inhabited

/-- The pair a group holds. -/
def Group.pair (g : Group) : McastPair := ⟨g.mcastIp, g.mcastPort⟩

/-- The group as `GroupMng_CreateGroup` initialises it: the creator is its first member. -/
def Group.new (groupName : CStr) (pair : McastPair) : Group :=
  ⟨groupName.ncopy chatMaxGroupnameLen, pair.ip, pair.port, 1⟩

/-- `group->member_count++`. -/
def Group.countIn (g : Group) : Group := { g with memberCount := g.memberCount + 1 }

/-- `if (group->member_count > 0) group->member_count--`. -/
def Group.countOut (g : Group) : Group :=
  if g.memberCount > 0 then { g with memberCount := g.memberCount - 1 } else g

@[simp] theorem Group.name_countIn (g : Group) : g.countIn.name = g.name := rfl

@[simp] theorem Group.pair_countIn (g : Group) : g.countIn.pair = g.pair := rfl

@[simp] theorem Group.memberCount_countIn (g : Group) :
    g.countIn.memberCount = g.memberCount + 1 := rfl

@[simp] theorem Group.name_countOut (g : Group) : g.countOut.name = g.name := by
  rw [countOut]; split <;> rfl

@[simp] theorem Group.pair_countOut (g : Group) : g.countOut.pair = g.pair := by
  rw [countOut]; split <;> rfl

@[simp] theorem Group.memberCount_countOut (g : Group) :
    g.countOut.memberCount = g.memberCount - 1 := by
  rw [countOut]
  split
  · rfl
  · omega

/-- The undo of a join is exact. -/
@[simp] theorem Group.countOut_countIn (g : Group) : g.countIn.countOut = g := by
  rw [countOut, if_pos (by simp)]
  rfl

/-- `struct GroupMng`. -/
structure GroupMng where
  /-- The groups, by name. -/
  groupsByName : Table Group.name
  /-- The pool of free pairs. -/
  ipPool : FreeMcQueue

namespace GroupMng

/-- `GroupMng_Create`. -/
def create (pool : FreeMcQueue) (al : Alloc) : Option GroupMng × Alloc :=
  match malloc al with
  | (false, al) => (none, al)
  | (true, al) =>
    match Table.create al with
    | (none, al) => (none, al)
    | (some groups, al) => (some ⟨groups, pool⟩, al)

/-- `GroupMng_CreateGroup`: the status and, when it is `ST_OK`, the new group. -/
def createGroup (m : GroupMng) (groupName : CStr) (al : Alloc) :
    ChatStatus × Option Ptr × GroupMng × Alloc :=
  match m.groupsByName.find groupName with
  | some _ => (.errGroupExists, none, m, al)
  | none =>
    match m.ipPool.take with
    | (none, pool) => (.errServerFull, none, { m with ipPool := pool }, al)
    | (some pair, pool) =>
      match malloc al with
      | (false, al) =>
        let r := pool.giveBack pair al
        (.errProtocol, none, { m with ipPool := r.2.1 }, r.2.2)
      | (true, al) =>
        match m.groupsByName.insert (Group.new groupName pair) al with
        | (.success, groups, al) => (.ok, some m.groupsByName.next, ⟨groups, pool⟩, al)
        | (_, groups, al) =>
          let r := pool.giveBack pair al
          (.errProtocol, none, ⟨groups, r.2.1⟩, r.2.2)

/-- `GroupMng_JoinGroup`: counts the member in and hands out the group. -/
def joinGroup (m : GroupMng) (groupName : CStr) : ChatStatus × Option Ptr × GroupMng :=
  match m.groupsByName.find groupName with
  | none => (.errGroupNotFound, none, m)
  | some group =>
    (.ok, some group,
      { m with groupsByName := m.groupsByName.modify group Group.countIn Group.name_countIn })

/-- `GroupMng_LeaveGroup`: counts a member out; an empty group is destroyed. -/
def leaveGroup (m : GroupMng) (groupName : CStr) (al : Alloc) : ChatStatus × GroupMng × Alloc :=
  match m.groupsByName.find groupName with
  | none => (.errGroupNotFound, m, al)
  | some group =>
    let groups := m.groupsByName.modify group Group.countOut Group.name_countOut
    if (groups.heap group).memberCount = 0 then
      let r := m.ipPool.giveBack (groups.heap group).pair al
      (.ok, ⟨groups.remove groupName, r.2.1⟩, r.2.2)
    else (.ok, { m with groupsByName := groups }, al)

/-! ## What the rest of the server sees -/

/-- The group on file under a name. -/
def group (m : GroupMng) : CStr → Option Group := m.groupsByName.lookup

/-- The free pairs, in the order they will be given out. -/
def free (m : GroupMng) : List McastPair := m.ipPool.toList

theorem create_spec {pool : FreeMcQueue} {al : Alloc} {m : GroupMng}
    (h : (create pool al).1 = some m) : m.group = (fun _ => none) ∧ m.free = pool.toList := by
  rw [create] at h
  split at h
  · exact absurd h (by simp)
  split at h
  · exact absurd h (by simp)
  next groups al' hg =>
  rw [Option.some_inj] at h
  subst h
  exact ⟨funext fun n => Table.lookup_eq_none_iff.mpr (Table.find_create (congrArg Prod.fst hg) n),
    rfl⟩

/-- The pointer a status comes with leads to the group on file. -/
theorem group_of_find {m : GroupMng} {name : CStr} {p : Ptr}
    (h : m.groupsByName.find name = some p) : m.group name = some (m.groupsByName.heap p) :=
  Table.lookup_of_find h

theorem name_of_group {m : GroupMng} {name : CStr} {g : Group} (h : m.group name = some g) :
    g.name = name :=
  Table.key_of_lookup h

/-! ### Creating -/

theorem createGroup_of_exists {m : GroupMng} {name : CStr} {g : Group} (al : Alloc)
    (h : m.group name = some g) : m.createGroup name al = (.errGroupExists, none, m, al) := by
  obtain ⟨p, hp, -⟩ := Table.exists_find_of_lookup h
  rw [createGroup]
  simp only [hp]

theorem createGroup_of_exhausted {m : GroupMng} {name : CStr} (al : Alloc)
    (h : m.group name = none) (hfree : m.free = []) :
    m.createGroup name al = (.errServerFull, none, m, al) := by
  have hf := Table.lookup_eq_none_iff.mp h
  rw [createGroup]
  simp only [hf, FreeMcQueue.take_of_toList_eq_nil hfree]

/-- **Everything creating a group can do** when the name is unused and a pair is free. -/
theorem createGroup_cases {m : GroupMng} {name : CStr} {pair : McastPair} {rest : List McastPair}
    (al : Alloc) (hlen : name.length ≤ chatMaxGroupnameLen) (h : m.group name = none)
    (hfree : m.free = pair :: rest) :
    (∃ p m' al', m.createGroup name al = (.ok, some p, m', al') ∧
      m'.groupsByName.find name = some p ∧
      m'.group = Function.update m.group name (some ⟨name, pair.ip, pair.port, 1⟩) ∧
      m'.free = rest ∧ (al = [] → al' = [])) ∨
    (∃ m' al', m.createGroup name al = (.errProtocol, none, m', al') ∧ al ≠ [] ∧
      m'.group = m.group ∧ (m'.free = rest ∨ m'.free = rest ++ [pair])) := by
  have hf := Table.lookup_eq_none_iff.mp h
  obtain ⟨htake, hrest⟩ := FreeMcQueue.take_of_toList_eq_cons hfree
  have htake' : m.ipPool.take = (some pair, m.ipPool.take.2) := by rw [← htake]
  have hnew : Group.new name pair = ⟨name, pair.ip, pair.port, 1⟩ := by
    rw [Group.new, CStr.ncopy_eq_self hlen]
  have hback : ∀ al, (m.ipPool.take.2.giveBack pair al).2.1.toList = rest ∨
      (m.ipPool.take.2.giveBack pair al).2.1.toList = rest ++ [pair] := by
    intro al
    rw [← hrest]
    exact FreeMcQueue.toList_giveBack_cases _ _ _
  rw [createGroup]
  simp only [hf]
  rw [htake']
  simp only
  rcases hm : malloc al with ⟨_ | _, al₁⟩
  · exact .inr ⟨_, _, rfl, ne_nil_of_malloc hm, rfl, hback al₁⟩
  simp only
  have hal := malloc_tail_nil hm
  obtain ⟨hdup, -⟩ | ⟨-, t', al', hins, hfind, hheap⟩ | ⟨-, t', al', hins, hfind, hheap⟩ :=
    m.groupsByName.insert_cases (Group.new name pair) al₁
  · rw [hnew] at hdup
    exact absurd hf hdup
  · rw [hins]
    refine .inr ⟨_, _, rfl, ?_, ?_, hback al'⟩
    · intro hnil
      have hok := (Table.insert_of_noFailure (t := m.groupsByName) (a := Group.new name pair)
        (by rw [hnew]; exact hf)).1
      rw [hal hnil] at hins
      rw [hins] at hok
      exact absurd hok (by simp)
    · show t'.lookup = m.groupsByName.lookup
      funext k
      rw [Table.lookup, Table.lookup, hfind, hheap]
  · rw [hins]
    refine .inl ⟨_, _, _, rfl, ?_, ?_, hrest, ?_⟩
    · show t'.find name = some m.groupsByName.next
      rw [hfind, hnew, Function.update_self]
    · show t'.lookup = _
      rw [Table.lookup_insert hfind hheap, hnew]
      rfl
    · intro hnil
      have hok := (Table.insert_of_noFailure (t := m.groupsByName) (a := Group.new name pair)
        (by rw [hnew]; exact hf)).2
      rw [hal hnil] at hins
      rw [hins] at hok
      exact hok

/-! ### Joining -/

theorem joinGroup_of_none {m : GroupMng} {name : CStr} (h : m.group name = none) :
    m.joinGroup name = (.errGroupNotFound, none, m) := by
  rw [joinGroup]
  simp only [Table.lookup_eq_none_iff.mp h]

theorem joinGroup_of_some {m : GroupMng} {name : CStr} {g : Group} (h : m.group name = some g) :
    ∃ p m', m.joinGroup name = (.ok, some p, m') ∧ m'.groupsByName.find name = some p ∧
      m'.group = Function.update m.group name (some g.countIn) ∧
      m'.free = m.free := by
  obtain ⟨p, hp, rfl⟩ := Table.exists_find_of_lookup h
  rw [joinGroup]
  simp only [hp]
  exact ⟨_, _, rfl, hp, Table.lookup_modify Group.name_countIn hp, rfl⟩

/-! ### Leaving -/

theorem leaveGroup_of_none {m : GroupMng} {name : CStr} (al : Alloc) (h : m.group name = none) :
    m.leaveGroup name al = (.errGroupNotFound, m, al) := by
  rw [leaveGroup]
  simp only [Table.lookup_eq_none_iff.mp h]

/-- A group with another member left only loses one from its count. -/
theorem leaveGroup_of_many {m : GroupMng} {name : CStr} {g : Group} (al : Alloc)
    (h : m.group name = some g) (hg : 2 ≤ g.memberCount) :
    ∃ m', m.leaveGroup name al = (.ok, m', al) ∧
      m'.group = Function.update m.group name (some g.countOut) ∧ m'.free = m.free := by
  obtain ⟨p, hp, rfl⟩ := Table.exists_find_of_lookup h
  rw [leaveGroup]
  simp only [hp, Table.heap_modify_self, Group.memberCount_countOut]
  rw [if_neg (by omega)]
  exact ⟨_, rfl, Table.lookup_modify Group.name_countOut hp, rfl⟩

/-- A group that loses its last member goes off file, and its pair back to the pool unless the
allocation there fails. -/
theorem leaveGroup_of_last {m : GroupMng} {name : CStr} {g : Group} (al : Alloc)
    (h : m.group name = some g) (hg : g.memberCount ≤ 1) :
    ∃ m' al', m.leaveGroup name al = (.ok, m', al') ∧
      m'.group = Function.update m.group name none ∧
      (m'.free = m.free ∨ m'.free = m.free ++ [g.pair]) ∧
      ((malloc al).1 = true → m.free.length < 255 →
        m'.free = m.free ++ [g.pair] ∧ al' = (malloc al).2) := by
  obtain ⟨p, hp, rfl⟩ := Table.exists_find_of_lookup h
  rw [leaveGroup]
  simp only [hp, Table.heap_modify_self, Group.memberCount_countOut, Group.pair_countOut]
  rw [if_pos (by omega)]
  refine ⟨_, _, rfl, ?_, FreeMcQueue.toList_giveBack_cases _ _ _, ?_⟩
  · refine (Table.lookup_remove (t := m.groupsByName.modify p _ _) (p := p) hp).trans ?_
    rw [Table.lookup_modify Group.name_countOut hp, Function.update_idem]
    rfl
  · intro hal hroom
    exact (FreeMcQueue.toList_giveBack _ hroom hal).2

end GroupMng

end ChatProject
