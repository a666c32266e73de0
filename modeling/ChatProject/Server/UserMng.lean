import Mathlib.Data.List.Basic
import ChatProject.Lib.Machine
import ChatProject.Server.Table
import ChatProject.Shared.Protocol

/-!
# The user manager

`server/user_mng.c`.  A session is recorded three times: the socket array points at the user, the
user's state says online, and the user's own descriptor field names the socket.  Six operations
update these by separate assignments, and `UserMng.Inv` says that they never disagree.

The file goes in three steps: the operations as the source has them; the invariant, and its
preservation by each of them (`UserMng.Inv.apply`, and over whole runs `userMng_session_index`);
and then, for states that satisfy it, what each operation does to the two partial functions the
rest of the server reasons about, `UserMng.user` and `UserMng.sock`.
-/

set_option autoImplicit false

namespace ChatProject

/-- `FD_SETSIZE`. -/
def fdSetSize : Nat := 1024

/-- The guard `0 > _sockfd || _sockfd >= FD_SETSIZE`: a descriptor that passes it is an index into
the socket array. -/
def fdIndex (sockfd : Int) : Option (Fin fdSetSize) :=
  if h : 0 ≤ sockfd ∧ sockfd < fdSetSize then some ⟨sockfd.toNat, by omega⟩ else none

theorem fdIndex_eq_some_iff {sockfd : Int} {i : Fin fdSetSize} :
    fdIndex sockfd = some i ↔ sockfd = (i : Nat) := by
  have hi := i.isLt
  rw [fdIndex]
  split
  · rw [Option.some_inj, Fin.ext_iff]
    simp only
    omega
  · simp only [reduceCtorEq, false_iff]
    omega

@[simp] theorem fdIndex_natCast (i : Fin fdSetSize) : fdIndex ((i : Nat) : Int) = some i :=
  fdIndex_eq_some_iff.mpr rfl

theorem exists_fdIndex {sockfd : Int} (h0 : 0 ≤ sockfd) (h : sockfd < fdSetSize) :
    ∃ i, fdIndex sockfd = some i :=
  ⟨_, dif_pos ⟨h0, h⟩⟩

/-- `UserState`. -/
inductive UserState where
  | offline
  | online
deriving DecidableEq, Repr, Inhabited

/-- `User`. -/
structure User where
  /-- The name the user is filed under. -/
  username : CStr
  /-- The password given at registration. -/
  password : CStr
  /-- Whether the user is logged in. -/
  state : UserState
  /-- The descriptor of the connection, -1 when offline. -/
  socketFd : Int
  /-- The names of the groups the user is in, oldest first. -/
  joinedGroups : List CStr
deriving DecidableEq, Inhabited

namespace User

/-- The user as `UserMng_Register` initialises it. -/
def new (username password : CStr) : User :=
  ⟨username.ncopy chatMaxUsernameLen, password.ncopy chatMaxPasswordLen, .offline, -1, []⟩

/-- The two assignments of `UserMng_Login`. -/
def bind (sockfd : Int) (u : User) : User := { u with state := .online, socketFd := sockfd }

/-- What `UserMng_Logout` leaves: no groups, offline, no socket. -/
def unbind (u : User) : User := { u with state := .offline, socketFd := -1, joinedGroups := [] }

/-- `ListPushTail` of a group name. -/
def addGroup (groupName : CStr) (u : User) : User :=
  { u with joinedGroups := u.joinedGroups ++ [groupName] }

/-- `ListItrRemove` at the first node with that name. -/
def dropGroup (groupName : CStr) (u : User) : User :=
  { u with joinedGroups := u.joinedGroups.erase groupName }

@[simp] theorem username_bind (sockfd : Int) (u : User) : (u.bind sockfd).username = u.username :=
  rfl

@[simp] theorem username_unbind (u : User) : u.unbind.username = u.username := rfl

@[simp] theorem username_addGroup (g : CStr) (u : User) : (u.addGroup g).username = u.username :=
  rfl

@[simp] theorem username_dropGroup (g : CStr) (u : User) : (u.dropGroup g).username = u.username :=
  rfl

end User

/-- `struct UserMng`. -/
structure UserMng where
  /-- The users, by name. -/
  usersByName : Table User.username
  /-- The user logged in on each descriptor. -/
  activeSockets : Fin fdSetSize → Option Ptr

namespace UserMng

/-! ## The operations -/

/-- `UserMng_Create`. -/
def create (al : Alloc) : Option UserMng × Alloc :=
  match malloc al with
  | (false, al) => (none, al)
  | (true, al) =>
    match Table.create al with
    | (none, al) => (none, al)
    | (some users, al) => (some ⟨users, fun _ => none⟩, al)

/-- `UserMng_Register`. -/
def register (m : UserMng) (username password : CStr) (al : Alloc) :
    ChatStatus × UserMng × Alloc :=
  match m.usersByName.find username with
  | some _ => (.errUserExists, m, al)
  | none =>
    match malloc al with
    | (false, al) => (.errServerFull, m, al)
    | (true, al) =>
      -- `ListCreate` for the user's own list
      match malloc al with
      | (false, al) => (.errServerFull, m, al)
      | (true, al) =>
        match m.usersByName.insert (User.new username password) al with
        | (.success, users, al) => (.ok, { m with usersByName := users }, al)
        | (_, users, al) => (.errServerFull, { m with usersByName := users }, al)

/-- `UserMng_Login`. -/
def login (m : UserMng) (username password : CStr) (sockfd : Int) : ChatStatus × UserMng :=
  match fdIndex sockfd with
  | none => (.errProtocol, m)
  | some i =>
    match m.activeSockets i with
    | some _ => (.errAlreadyLoggedIn, m)
    | none =>
      match m.usersByName.find username with
      | none => (.errUserNotFound, m)
      | some user =>
        if (m.usersByName.heap user).password ≠ password then (.errBadPassword, m)
        else if (m.usersByName.heap user).state = .online then (.errAlreadyLoggedIn, m)
        else (.ok,
          ⟨m.usersByName.modify user (User.bind sockfd) (User.username_bind sockfd),
            Function.update m.activeSockets i (some user)⟩)

/-- The loop of `UserMng_Logout`: take the head off the list, report it, start over. -/
def logoutLoop {σ : Type} (leaveCb : CStr → σ → σ) : List CStr → σ → σ
  | [], ctx => ctx
  | currentName :: rest, ctx => logoutLoop leaveCb rest (leaveCb currentName ctx)

/-- `UserMng_Logout`, with the callback's context passed along. -/
def logout {σ : Type} (m : UserMng) (sockfd : Int) (leaveCb : CStr → σ → σ) (ctx : σ) :
    ChatStatus × UserMng × σ :=
  match fdIndex sockfd with
  | none => (.errProtocol, m, ctx)
  | some i =>
    match m.activeSockets i with
    | none => (.errNotLoggedIn, m, ctx)
    | some user =>
      (.ok,
        ⟨m.usersByName.modify user User.unbind User.username_unbind,
          Function.update m.activeSockets i none⟩,
        logoutLoop leaveCb (m.usersByName.heap user).joinedGroups ctx)

/-- `UserMng_Disconnect`: an implicit logout. -/
def disconnect {σ : Type} (m : UserMng) (sockfd : Int) (leaveCb : CStr → σ → σ) (ctx : σ) :
    UserMng × σ :=
  (m.logout sockfd leaveCb ctx).2

/-- `UserMng_JoinGroup`. -/
def joinGroup (m : UserMng) (sockfd : Int) (groupName : CStr) (al : Alloc) :
    ChatStatus × UserMng × Alloc :=
  match fdIndex sockfd with
  | none => (.errProtocol, m, al)
  | some i =>
    match m.activeSockets i with
    | none => (.errNotLoggedIn, m, al)
    | some user =>
      if groupName ∈ (m.usersByName.heap user).joinedGroups then (.errAlreadyInGroup, m, al)
      else
        match malloc al with
        | (false, al) => (.errServerFull, m, al)
        | (true, al) =>
          match malloc al with
          | (false, al) => (.errServerFull, m, al)
          | (true, al) =>
            (.ok,
              { m with
                usersByName := m.usersByName.modify user (User.addGroup groupName)
                  (User.username_addGroup groupName) },
              al)

/-- `UserMng_LeaveGroup`. -/
def leaveGroup (m : UserMng) (sockfd : Int) (groupName : CStr) : ChatStatus × UserMng :=
  match fdIndex sockfd with
  | none => (.errProtocol, m)
  | some i =>
    match m.activeSockets i with
    | none => (.errNotLoggedIn, m)
    | some user =>
      if groupName ∈ (m.usersByName.heap user).joinedGroups then
        (.ok,
          { m with
            usersByName := m.usersByName.modify user (User.dropGroup groupName)
              (User.username_dropGroup groupName) })
      else (.errNotInGroup, m)

/-- `UserMng_IsLoggedIn`. -/
def isLoggedIn (m : UserMng) (sockfd : Int) : Bool :=
  match fdIndex sockfd with
  | none => false
  | some i => (m.activeSockets i).isSome

/-! ## The session index -/

/-- The three records of a session agree. -/
structure Inv (m : UserMng) : Prop where
  /-- Only users on file are logged in. -/
  filed : ∀ {i p}, m.activeSockets i = some p →
    m.usersByName.find (m.usersByName.heap p).username = some p
  /-- A socket points at a user exactly when the user is online on that socket. -/
  active_iff : ∀ {n p}, m.usersByName.find n = some p → ∀ i, m.activeSockets i = some p ↔
    (m.usersByName.heap p).state = .online ∧ (m.usersByName.heap p).socketFd = ((i : Nat) : Int)
  /-- An offline user has no socket, and only an offline user has none. -/
  offline_iff : ∀ {n p}, m.usersByName.find n = some p →
    ((m.usersByName.heap p).state = .offline ↔ (m.usersByName.heap p).socketFd = -1)
  /-- An online user's descriptor is one the array has an entry for. -/
  online_fd : ∀ {n p}, m.usersByName.find n = some p → (m.usersByName.heap p).state = .online →
    ∃ i : Fin fdSetSize, (m.usersByName.heap p).socketFd = ((i : Nat) : Int)

theorem inv_of_empty {m : UserMng} (hfind : ∀ n, m.usersByName.find n = none)
    (hsock : ∀ i, m.activeSockets i = none) : m.Inv where
  filed h := by rw [hsock] at h; exact absurd h (by simp)
  active_iff h := by rw [hfind] at h; exact absurd h (by simp)
  offline_iff h := by rw [hfind] at h; exact absurd h (by simp)
  online_fd h := by rw [hfind] at h; exact absurd h (by simp)

/-- The invariant reads the table only through `find` and `heap`. -/
theorem Inv.congr {m m' : UserMng} (h : m.Inv) (hfind : m'.usersByName.find = m.usersByName.find)
    (hheap : m'.usersByName.heap = m.usersByName.heap)
    (hsock : m'.activeSockets = m.activeSockets) : m'.Inv where
  filed := by rw [hfind, hheap, hsock]; exact h.filed
  active_iff := by rw [hfind, hheap, hsock]; exact h.active_iff
  offline_iff := by rw [hfind, hheap]; exact h.offline_iff
  online_fd := by rw [hfind, hheap]; exact h.online_fd

/-- Filing a new, offline user keeps the invariant. -/
theorem Inv.file {m m' : UserMng} (h : m.Inv) {u : User} (hu : u.state = .offline)
    (hfd : u.socketFd = -1) (hnew : m.usersByName.find u.username = none)
    (hfind : m'.usersByName.find =
      Function.update m.usersByName.find u.username (some m.usersByName.next))
    (hheap : m'.usersByName.heap = Function.update m.usersByName.heap m.usersByName.next u)
    (hsock : m'.activeSockets = m.activeSockets) : m'.Inv := by
  have hold : ∀ {n p}, m.usersByName.find n = some p →
      m'.usersByName.heap p = m.usersByName.heap p := by
    intro n p hp
    rw [hheap, Function.update_of_ne (Nat.ne_of_lt (Table.lt_next_of_find hp))]
  have hcases : ∀ {n p}, m'.usersByName.find n = some p →
      p = m.usersByName.next ∧ m'.usersByName.heap p = u ∨ m.usersByName.find n = some p := by
    intro n p hp
    rw [hfind] at hp
    by_cases hn : n = u.username
    · rw [hn, Function.update_self, Option.some_inj] at hp
      exact .inl ⟨hp.symm, by rw [← hp, hheap, Function.update_self]⟩
    · rw [Function.update_of_ne hn] at hp
      exact .inr hp
  constructor
  · intro i p hp
    rw [hsock] at hp
    have hf := h.filed hp
    rw [hold hf, hfind, Function.update_of_ne]
    · exact hf
    · intro heq
      rw [heq, hnew] at hf
      exact absurd hf (by simp)
  · intro n p hp i
    rw [hsock]
    rcases hcases hp with ⟨rfl, hpu⟩ | hf
    · rw [hpu, hu]
      simp only [reduceCtorEq, false_and, iff_false]
      intro hact
      exact Nat.lt_irrefl _ (Table.lt_next_of_find (h.filed hact))
    · rw [hold hf]
      exact h.active_iff hf i
  · intro n p hp
    rcases hcases hp with ⟨-, hpu⟩ | hf
    · rw [hpu, hu, hfd]
      simp
    · rw [hold hf]
      exact h.offline_iff hf
  · intro n p hp hon
    rcases hcases hp with ⟨-, hpu⟩ | hf
    · rw [hpu, hu] at hon
      exact absurd hon (by simp)
    · rw [hold hf] at hon ⊢
      exact h.online_fd hf hon

/-- A change to the group list alone keeps the invariant. -/
theorem Inv.modify {m : UserMng} (h : m.Inv) (p : Ptr) {f : User → User}
    (hf : ∀ u, (f u).username = u.username) (hst : ∀ u, (f u).state = u.state)
    (hfd : ∀ u, (f u).socketFd = u.socketFd) :
    ({ m with usersByName := m.usersByName.modify p f hf } : UserMng).Inv := by
  have hsame : ∀ q, ((m.usersByName.modify p f hf).heap q).state = (m.usersByName.heap q).state ∧
      ((m.usersByName.modify p f hf).heap q).socketFd = (m.usersByName.heap q).socketFd := by
    intro q
    by_cases hq : q = p
    · rw [hq, Table.heap_modify_self]
      exact ⟨hst _, hfd _⟩
    · rw [Table.heap_modify_of_ne hq]
      exact ⟨rfl, rfl⟩
  constructor
  · intro i q hq
    simp only [Table.find_modify, Table.key_heap_modify]
    exact h.filed hq
  · intro n q hq i
    simp only [(hsame q).1, (hsame q).2]
    exact h.active_iff hq i
  · intro n q hq
    simp only [(hsame q).1, (hsame q).2]
    exact h.offline_iff hq
  · intro n q hq hon
    simp only [(hsame q).1, (hsame q).2] at hon ⊢
    exact h.online_fd hq hon

/-- Binding an offline user to a free socket keeps the invariant. -/
theorem Inv.bind {m : UserMng} (h : m.Inv) {n : CStr} {p : Ptr} {i : Fin fdSetSize}
    (hp : m.usersByName.find n = some p) (hoff : (m.usersByName.heap p).state ≠ .online)
    (hfree : m.activeSockets i = none) :
    (⟨m.usersByName.modify p (User.bind ((i : Nat) : Int)) (User.username_bind _),
      Function.update m.activeSockets i (some p)⟩ : UserMng).Inv := by
  constructor
  · intro j q hq
    simp only at hq
    simp only [Table.find_modify, Table.key_heap_modify]
    by_cases hj : j = i
    · rw [hj, Function.update_self, Option.some_inj] at hq
      rw [← hq, Table.key_of_find hp]
      exact hp
    · rw [Function.update_of_ne hj] at hq
      exact h.filed hq
  · intro n' q hq j
    simp only [Table.find_modify] at hq ⊢
    by_cases hqp : q = p
    · subst hqp
      rw [Table.heap_modify_self]
      by_cases hj : j = i
      · simp [hj, User.bind]
      · rw [Function.update_of_ne hj, h.active_iff hq j]
        simp only [User.bind, true_and, hoff, false_and, false_iff]
        intro heq
        exact hj (Fin.ext (by omega))
    · rw [Table.heap_modify_of_ne hqp]
      by_cases hj : j = i
      · rw [hj, Function.update_self, Option.some_inj]
        refine ⟨fun heq => absurd heq.symm hqp, fun hon => ?_⟩
        rw [← h.active_iff hq i, hfree] at hon
        exact absurd hon (by simp)
      · rw [Function.update_of_ne hj]
        exact h.active_iff hq j
  · intro n' q hq
    simp only [Table.find_modify] at hq ⊢
    by_cases hqp : q = p
    · rw [hqp, Table.heap_modify_self]
      simp only [User.bind, reduceCtorEq]
    · rw [Table.heap_modify_of_ne hqp]
      exact h.offline_iff hq
  · intro n' q hq hon
    simp only [Table.find_modify] at hq hon ⊢
    by_cases hqp : q = p
    · rw [hqp, Table.heap_modify_self]
      exact ⟨i, rfl⟩
    · rw [Table.heap_modify_of_ne hqp] at hon ⊢
      exact h.online_fd hq hon

/-- Unbinding the user of a socket keeps the invariant. -/
theorem Inv.unbind {m : UserMng} (h : m.Inv) {p : Ptr} {i : Fin fdSetSize}
    (hact : m.activeSockets i = some p) :
    (⟨m.usersByName.modify p User.unbind User.username_unbind,
      Function.update m.activeSockets i none⟩ : UserMng).Inv := by
  have hon := (h.active_iff (h.filed hact) i).mp hact
  -- the unbound user was on this socket only
  have honly : ∀ {j}, m.activeSockets j = some p → j = i := by
    intro j hj
    have := ((h.active_iff (h.filed hact) j).mp hj).2
    exact Fin.ext (by omega)
  constructor
  · intro j q hq
    simp only at hq
    simp only [Table.find_modify, Table.key_heap_modify]
    by_cases hj : j = i
    · rw [hj, Function.update_self] at hq
      exact absurd hq (by simp)
    · rw [Function.update_of_ne hj] at hq
      exact h.filed hq
  · intro n q hq j
    simp only [Table.find_modify] at hq ⊢
    by_cases hqp : q = p
    · subst hqp
      rw [Table.heap_modify_self]
      simp only [User.unbind, reduceCtorEq, false_and, iff_false]
      by_cases hj : j = i
      · rw [hj, Function.update_self]
        simp
      · rw [Function.update_of_ne hj]
        exact fun hc => hj (honly hc)
    · rw [Table.heap_modify_of_ne hqp]
      by_cases hj : j = i
      · rw [hj, Function.update_self]
        simp only [reduceCtorEq, false_iff]
        intro hc
        rw [← h.active_iff hq i, hact, Option.some_inj] at hc
        exact hqp hc.symm
      · rw [Function.update_of_ne hj]
        exact h.active_iff hq j
  · intro n q hq
    simp only [Table.find_modify] at hq ⊢
    by_cases hqp : q = p
    · rw [hqp, Table.heap_modify_self]
      simp [User.unbind]
    · rw [Table.heap_modify_of_ne hqp]
      exact h.offline_iff hq
  · intro n q hq hon'
    simp only [Table.find_modify] at hq hon' ⊢
    by_cases hqp : q = p
    · rw [hqp, Table.heap_modify_self] at hon'
      exact absurd hon' (by simp [User.unbind])
    · rw [Table.heap_modify_of_ne hqp] at hon' ⊢
      exact h.online_fd hq hon'

/-! ### The operations keep it -/

theorem inv_create {al : Alloc} {m : UserMng} (h : (create al).1 = some m) : m.Inv := by
  rw [create] at h
  split at h
  · exact absurd h (by simp)
  split at h
  · exact absurd h (by simp)
  next users al' hu =>
  rw [Option.some_inj] at h
  subst h
  exact inv_of_empty (Table.find_create (congrArg Prod.fst hu)) fun _ => rfl

/-! What a call can make of the manager, once for everything that is proved about all calls. -/

section
variable (m : UserMng)

theorem login_manager (username password : CStr) (sockfd : Int) :
    (m.login username password sockfd).2 = m ∨
      ∃ i user, fdIndex sockfd = some i ∧ m.activeSockets i = none ∧
        m.usersByName.find username = some user ∧ (m.usersByName.heap user).state ≠ .online ∧
        (m.login username password sockfd).2 =
          ⟨m.usersByName.modify user (User.bind sockfd) (User.username_bind sockfd),
            Function.update m.activeSockets i (some user)⟩ := by
  rw [login]
  split
  · exact .inl rfl
  next i hi =>
  split
  · exact .inl rfl
  next hfree =>
  split
  · exact .inl rfl
  next user huser =>
  split
  · exact .inl rfl
  split
  · exact .inl rfl
  next hoff => exact .inr ⟨i, user, hi, hfree, huser, hoff, rfl⟩

theorem logout_manager {σ : Type} (sockfd : Int) (leaveCb : CStr → σ → σ) (ctx : σ) :
    (m.logout sockfd leaveCb ctx).2.1 = m ∨
      ∃ i user, fdIndex sockfd = some i ∧ m.activeSockets i = some user ∧
        (m.logout sockfd leaveCb ctx).2.1 =
          ⟨m.usersByName.modify user User.unbind User.username_unbind,
            Function.update m.activeSockets i none⟩ := by
  rw [logout]
  split
  · exact .inl rfl
  next i hi =>
  split
  · exact .inl rfl
  next user huser => exact .inr ⟨i, user, hi, huser, rfl⟩

theorem joinGroup_manager (sockfd : Int) (groupName : CStr) (al : Alloc) :
    (m.joinGroup sockfd groupName al).2.1 = m ∨
      ∃ user, (m.joinGroup sockfd groupName al).2.1 =
        { m with
          usersByName := m.usersByName.modify user (User.addGroup groupName)
            (User.username_addGroup groupName) } := by
  rw [joinGroup]
  split
  · exact .inl rfl
  split
  · exact .inl rfl
  next user _ =>
  split
  · exact .inl rfl
  split
  · exact .inl rfl
  split
  · exact .inl rfl
  · exact .inr ⟨user, rfl⟩

theorem leaveGroup_manager (sockfd : Int) (groupName : CStr) :
    (m.leaveGroup sockfd groupName).2 = m ∨
      ∃ user, (m.leaveGroup sockfd groupName).2 =
        { m with
          usersByName := m.usersByName.modify user (User.dropGroup groupName)
            (User.username_dropGroup groupName) } := by
  rw [leaveGroup]
  split
  · exact .inl rfl
  split
  · exact .inl rfl
  next user _ =>
  split
  · exact .inr ⟨user, rfl⟩
  · exact .inl rfl

end

section
variable {m : UserMng} (h : m.Inv)
include h

theorem Inv.register (username password : CStr) (al : Alloc) :
    (m.register username password al).2.1.Inv := by
  rw [UserMng.register]
  split
  · exact h
  split
  · exact h
  split
  · exact h
  next al' _ =>
  obtain ⟨-, t', hins, hfind, hheap⟩ | ⟨-, t', al'', hins, hfind, hheap⟩ |
    ⟨hnone, t', al'', hins, hfind, hheap⟩ :=
    m.usersByName.insert_cases (User.new username password) al'
  · rw [hins]
    exact h.congr hfind hheap rfl
  · rw [hins]
    exact h.congr hfind hheap rfl
  · rw [hins]
    exact h.file rfl rfl hnone hfind hheap rfl

theorem Inv.login (username password : CStr) (sockfd : Int) :
    (m.login username password sockfd).2.Inv := by
  obtain heq | ⟨i, user, hi, hfree, huser, hoff, heq⟩ := m.login_manager username password sockfd
  · rw [heq]
    exact h
  · rw [fdIndex_eq_some_iff] at hi
    subst hi
    rw [heq]
    exact h.bind huser hoff hfree

theorem Inv.logout {σ : Type} (sockfd : Int) (leaveCb : CStr → σ → σ) (ctx : σ) :
    (m.logout sockfd leaveCb ctx).2.1.Inv := by
  obtain heq | ⟨i, user, -, huser, heq⟩ := m.logout_manager sockfd leaveCb ctx
  · rw [heq]
    exact h
  · rw [heq]
    exact h.unbind huser

theorem Inv.joinGroup (sockfd : Int) (groupName : CStr) (al : Alloc) :
    (m.joinGroup sockfd groupName al).2.1.Inv := by
  obtain heq | ⟨user, heq⟩ := m.joinGroup_manager sockfd groupName al
  · rw [heq]
    exact h
  · rw [heq]
    exact h.modify user _ (fun _ => rfl) (fun _ => rfl)

theorem Inv.leaveGroup (sockfd : Int) (groupName : CStr) :
    (m.leaveGroup sockfd groupName).2.Inv := by
  obtain heq | ⟨user, heq⟩ := m.leaveGroup_manager sockfd groupName
  · rw [heq]
    exact h
  · rw [heq]
    exact h.modify user _ (fun _ => rfl) (fun _ => rfl)

end

/-! ### Whole runs of the manager -/

/-- A call of the manager, with its arguments and the allocation answers it meets.  `σ` is the
context the leave callback works on; a NULL callback is the one that leaves it alone. -/
inductive Op (σ : Type) where
  | register (username password : CStr) (al : Alloc)
  | login (username password : CStr) (sockfd : Int)
  | logout (sockfd : Int) (leaveCb : CStr → σ → σ)
  | disconnect (sockfd : Int) (leaveCb : CStr → σ → σ)
  | joinGroup (sockfd : Int) (groupName : CStr) (al : Alloc)
  | leaveGroup (sockfd : Int) (groupName : CStr)

/-- The manager and the callback's context after a call, and the status it returned. -/
def apply {σ : Type} : UserMng × σ → Op σ → (UserMng × σ) × Option ChatStatus
  | (m, ctx), .register username password al =>
    (((m.register username password al).2.1, ctx), some (m.register username password al).1)
  | (m, ctx), .login username password sockfd =>
    (((m.login username password sockfd).2, ctx), some (m.login username password sockfd).1)
  | (m, ctx), .logout sockfd leaveCb =>
    ((m.logout sockfd leaveCb ctx).2, some (m.logout sockfd leaveCb ctx).1)
  | (m, ctx), .disconnect sockfd leaveCb => (m.disconnect sockfd leaveCb ctx, none)
  | (m, ctx), .joinGroup sockfd groupName al =>
    (((m.joinGroup sockfd groupName al).2.1, ctx), some (m.joinGroup sockfd groupName al).1)
  | (m, ctx), .leaveGroup sockfd groupName =>
    (((m.leaveGroup sockfd groupName).2, ctx), some (m.leaveGroup sockfd groupName).1)

theorem Inv.apply {σ : Type} {m : UserMng} (h : m.Inv) (ctx : σ) (op : Op σ) :
    (UserMng.apply (m, ctx) op).1.1.Inv := by
  cases op with
  | register username password al => exact h.register username password al
  | login username password sockfd => exact h.login username password sockfd
  | logout sockfd leaveCb => exact h.logout sockfd leaveCb ctx
  | disconnect sockfd leaveCb => exact h.logout sockfd leaveCb ctx
  | joinGroup sockfd groupName al => exact h.joinGroup sockfd groupName al
  | leaveGroup sockfd groupName => exact h.leaveGroup sockfd groupName

/-- The call is one on this descriptor; a registration is on none. -/
def Op.On {σ : Type} (fd : Int) : Op σ → Prop
  | .register _ _ _ => True
  | .login _ _ sockfd => sockfd = fd
  | .logout sockfd _ => sockfd = fd
  | .disconnect sockfd _ => sockfd = fd
  | .joinGroup sockfd _ _ => sockfd = fd
  | .leaveGroup sockfd _ => sockfd = fd

/-- A call on one descriptor leaves the other entries of the socket array alone. -/
theorem activeSockets_apply {σ : Type} {m : UserMng} {ctx : σ} {op : Op σ} {fd : Int}
    (hop : op.On fd) {i : Fin fdSetSize} (hi : fd ≠ ((i : Nat) : Int)) :
    (apply (m, ctx) op).1.1.activeSockets i = m.activeSockets i := by
  have hne : ∀ {j}, fdIndex fd = some j → i ≠ j := by
    rintro j hj rfl
    exact hi (fdIndex_eq_some_iff.mp hj)
  have hlogout : ∀ leaveCb, (m.logout fd leaveCb ctx).2.1.activeSockets i = m.activeSockets i := by
    intro leaveCb
    obtain heq | ⟨j, user, hj, -, heq⟩ := m.logout_manager fd leaveCb ctx
    · rw [heq]
    · rw [heq]
      exact Function.update_of_ne (hne hj) ..
  cases op with
  | register username password al =>
    rw [apply, register]
    split
    · rfl
    split
    · rfl
    split
    · rfl
    split <;> rfl
  | login username password sockfd =>
    obtain rfl : sockfd = fd := hop
    rw [apply]
    obtain heq | ⟨j, user, hj, -, -, -, heq⟩ := m.login_manager username password sockfd
    · rw [heq]
    · rw [heq]
      exact Function.update_of_ne (hne hj) ..
  | logout sockfd leaveCb =>
    obtain rfl : sockfd = fd := hop
    exact hlogout leaveCb
  | disconnect sockfd leaveCb =>
    obtain rfl : sockfd = fd := hop
    exact hlogout leaveCb
  | joinGroup sockfd groupName al =>
    rw [apply]
    obtain heq | ⟨user, heq⟩ := m.joinGroup_manager sockfd groupName al <;> rw [heq]
  | leaveGroup sockfd groupName =>
    rw [apply]
    obtain heq | ⟨user, heq⟩ := m.leaveGroup_manager sockfd groupName <;> rw [heq]

/-- What at most one call, on one descriptor, makes of the manager. -/
def OneCall (fd : Int) (m m' : UserMng) : Prop :=
  m' = m ∨ ∃ (σ : Type) (ctx : σ) (op : Op σ), op.On fd ∧ m' = (apply (m, ctx) op).1.1

theorem OneCall.inv {fd : Int} {m m' : UserMng} (h : OneCall fd m m') (hm : m.Inv) : m'.Inv := by
  obtain rfl | ⟨σ, ctx, op, -, rfl⟩ := h
  · exact hm
  · exact hm.apply ctx op

theorem OneCall.activeSockets {fd : Int} {m m' : UserMng} (h : OneCall fd m m')
    {i : Fin fdSetSize} (hi : fd ≠ ((i : Nat) : Int)) :
    m'.activeSockets i = m.activeSockets i := by
  obtain rfl | ⟨σ, ctx, op, hop, rfl⟩ := h
  · rfl
  · exact activeSockets_apply hop hi

theorem OneCall.of_joinGroup {fd : Int} {m m' : UserMng} {groupName : CStr} {al al' : Alloc}
    {st : ChatStatus} (h : m.joinGroup fd groupName al = (st, m', al')) : OneCall fd m m' :=
  .inr ⟨Unit, (), .joinGroup fd groupName al, rfl, by rw [apply, h]⟩

theorem OneCall.of_leaveGroup {fd : Int} {m m' : UserMng} {groupName : CStr} {st : ChatStatus}
    (h : m.leaveGroup fd groupName = (st, m')) : OneCall fd m m' :=
  .inr ⟨Unit, (), .leaveGroup fd groupName, rfl, by rw [apply, h]⟩

theorem Inv.run {σ : Type} {m : UserMng} (h : m.Inv) (ctx : σ) (ops : List (Op σ)) :
    (Machine.run UserMng.apply (m, ctx) ops).1.Inv :=
  Machine.run_invariant (p := fun _ => True) (P := fun s : UserMng × σ => s.1.Inv)
    (fun s op _ hs => Inv.apply hs s.2 op) (fun _ _ => trivial) h

end UserMng

/-- **The session index.**  After any sequence of calls, with any arguments, callbacks and
allocation failures: a socket points at a registered user exactly when that user is online on that
socket; every socket entry is a registered user; a user is offline exactly when its descriptor is
-1; each user is filed under its own name, and no two users have the same name.  So a user is on at
most one socket. -/
theorem userMng_session_index {σ : Type} {al : Alloc} {m₀ : UserMng}
    (h₀ : (UserMng.create al).1 = some m₀) (ctx : σ) (ops : List (UserMng.Op σ)) :
    let m := (Machine.run UserMng.apply (m₀, ctx) ops).1
    (∀ (i : Fin fdSetSize), ∀ np ∈ m.usersByName.map.entries,
      (m.activeSockets i = some np.2 ↔
        (m.usersByName.heap np.2).state = .online ∧
          (m.usersByName.heap np.2).socketFd = ((i : Nat) : Int))) ∧
    (∀ (i : Fin fdSetSize) (p : Ptr), m.activeSockets i = some p →
      ∃ n, (n, p) ∈ m.usersByName.map.entries) ∧
    (∀ np ∈ m.usersByName.map.entries,
      ((m.usersByName.heap np.2).state = .offline ↔ (m.usersByName.heap np.2).socketFd = -1)) ∧
    (∀ np ∈ m.usersByName.map.entries, (m.usersByName.heap np.2).username = np.1) ∧
    (m.usersByName.objs.map User.username).Nodup ∧
    (∀ (i j : Fin fdSetSize) (p : Ptr), m.activeSockets i = some p → m.activeSockets j = some p →
      i = j) := by
  intro m
  have h : m.Inv := (UserMng.inv_create h₀).run ctx ops
  refine ⟨fun i np hnp => ?_, fun i p hp => ?_, fun np hnp => ?_, fun np hnp => ?_, ?_, ?_⟩
  · exact h.active_iff (Table.find_eq_some_iff.mpr hnp) i
  · exact ⟨_, Table.find_eq_some_iff.mp (h.filed hp)⟩
  · exact h.offline_iff (Table.find_eq_some_iff.mpr hnp)
  · exact Table.key_of_find (Table.find_eq_some_iff.mpr hnp)
  · exact m.usersByName.nodup_keys
  · intro i j p hi hj
    have hfi := ((h.active_iff (h.filed hi) i).mp hi).2
    have hfj := ((h.active_iff (h.filed hi) j).mp hj).2
    exact Fin.ext (by omega)

/-- A user registers, then logs in on descriptor 4. -/
theorem userMng_session_index_login :
    ∃ m₀, (UserMng.create []).1 = some m₀ ∧
      let m := (Machine.run UserMng.apply (m₀, ())
        [.register ⟨[97], by simp⟩ ⟨[98], by simp⟩ [],
          .login ⟨[97], by simp⟩ ⟨[98], by simp⟩ 4]).1
      (m.activeSockets ⟨4, by decide⟩).isSome = true ∧ ∀ i p, m.activeSockets i = some p →
        ∃ n, (n, p) ∈ m.usersByName.map.entries := by
  have hrun : (UserMng.create []).1.map (fun m₀ => ((Machine.run UserMng.apply (m₀, ())
      [.register ⟨[97], by simp⟩ ⟨[98], by simp⟩ [],
        .login ⟨[97], by simp⟩ ⟨[98], by simp⟩ 4]).1.activeSockets ⟨4, by decide⟩).isSome) =
        some true := by
    decide +kernel
  obtain ⟨m₀, h₀, hlogin⟩ := Option.map_eq_some_iff.mp hrun
  exact ⟨m₀, h₀, hlogin, (userMng_session_index h₀ () _).2.1⟩

namespace UserMng

/-! ## What the rest of the server sees -/

/-- The user on file under a name. -/
def user (m : UserMng) : CStr → Option User := m.usersByName.lookup

/-- The name of the user logged in on a descriptor. -/
def sock (m : UserMng) (i : Fin fdSetSize) : Option CStr :=
  (m.activeSockets i).map fun p => (m.usersByName.heap p).username

theorem create_spec {al : Alloc} {m : UserMng} (h : (create al).1 = some m) :
    m.user = (fun _ => none) ∧ m.sock = (fun _ => none) := by
  rw [create] at h
  split at h
  · exact absurd h (by simp)
  split at h
  · exact absurd h (by simp)
  next users al' hu =>
  rw [Option.some_inj] at h
  subst h
  exact ⟨funext fun n => Table.lookup_eq_none_iff.mpr (Table.find_create (congrArg Prod.fst hu) n),
    rfl⟩

theorem username_of_user {m : UserMng} {n : CStr} {u : User} (h : m.user n = some u) :
    u.username = n :=
  Table.key_of_lookup h

theorem sock_eq_none_iff {m : UserMng} {i : Fin fdSetSize} :
    m.sock i = none ↔ m.activeSockets i = none := by
  rw [sock, Option.map_eq_none_iff]

theorem exists_active_of_sock {m : UserMng} {i : Fin fdSetSize} {n : CStr}
    (h : m.sock i = some n) :
    ∃ p, m.activeSockets i = some p ∧ (m.usersByName.heap p).username = n := by
  rwa [sock, Option.map_eq_some_iff] at h

/-- The socket array and the users' own fields tell the same sessions. -/
theorem sock_eq_some_iff {m : UserMng} (h : m.Inv) {i : Fin fdSetSize} {n : CStr} :
    m.sock i = some n ↔
      ∃ u, m.user n = some u ∧ u.state = .online ∧ u.socketFd = ((i : Nat) : Int) := by
  constructor
  · intro hs
    obtain ⟨p, hp, rfl⟩ := exists_active_of_sock hs
    exact ⟨_, Table.lookup_of_find (h.filed hp), (h.active_iff (h.filed hp) i).mp hp⟩
  · rintro ⟨u, hu, hon⟩
    obtain ⟨p, hp, rfl⟩ := Table.exists_find_of_lookup hu
    rw [sock, (h.active_iff hp i).mpr hon, Option.map_some, Table.key_of_find hp]

/-- The user of a session, as the code reaches it: from the socket array, and through the map. -/
theorem exists_session {m : UserMng} (h : m.Inv) {i : Fin fdSetSize} {n : CStr} {u : User}
    (hs : m.sock i = some n) (hu : m.user n = some u) :
    ∃ p, m.activeSockets i = some p ∧ m.usersByName.find n = some p ∧
      m.usersByName.heap p = u := by
  obtain ⟨p, hp, rfl⟩ := exists_active_of_sock hs
  refine ⟨p, hp, h.filed hp, ?_⟩
  rw [user, Table.lookup_of_find (h.filed hp), Option.some_inj] at hu
  exact hu

/-- A write through a pointer leaves the names behind the sockets alone. -/
theorem sock_modify {m : UserMng} {p : Ptr} {f : User → User}
    (hf : ∀ u, (f u).username = u.username) :
    sock { m with usersByName := m.usersByName.modify p f hf } = m.sock := by
  funext i
  simp only [sock, Table.key_heap_modify]

/-! ### Registering -/

theorem register_of_exists {m : UserMng} {username : CStr} {u : User} (password : CStr) (al : Alloc)
    (h : m.user username = some u) :
    m.register username password al = (.errUserExists, m, al) := by
  obtain ⟨p, hp, -⟩ := Table.exists_find_of_lookup h
  rw [register]
  simp only [hp]

/-- **Everything registering an unused name can do.** -/
theorem register_cases {m : UserMng} (h : m.Inv) {username password : CStr} (al : Alloc)
    (hul : username.length ≤ chatMaxUsernameLen) (hpl : password.length ≤ chatMaxPasswordLen)
    (hnew : m.user username = none) :
    (∃ m' al', m.register username password al = (.ok, m', al') ∧
      m'.user = Function.update m.user username (some ⟨username, password, .offline, -1, []⟩) ∧
      m'.sock = m.sock) ∨
    (∃ m' al', m.register username password al = (.errServerFull, m', al') ∧ al ≠ [] ∧
      m'.user = m.user ∧ m'.sock = m.sock) := by
  have hf := Table.lookup_eq_none_iff.mp hnew
  have hu : User.new username password = ⟨username, password, .offline, -1, []⟩ := by
    rw [User.new, CStr.ncopy_eq_self hul, CStr.ncopy_eq_self hpl]
  rw [register]
  simp only [hf]
  rcases hm₁ : malloc al with ⟨_ | _, al₁⟩
  · exact .inr ⟨_, _, rfl, ne_nil_of_malloc hm₁, rfl, rfl⟩
  simp only
  rcases hm₂ : malloc al₁ with ⟨_ | _, al₂⟩
  · exact .inr ⟨_, _, rfl, fun hal => ne_nil_of_malloc hm₂ (malloc_tail_nil hm₁ hal), rfl, rfl⟩
  simp only
  obtain ⟨hdup, -⟩ | ⟨-, t', al', hins, hfind, hheap⟩ | ⟨-, t', al', hins, hfind, hheap⟩ :=
    m.usersByName.insert_cases (User.new username password) al₂
  · rw [hu] at hdup
    exact absurd hf hdup
  · rw [hins]
    refine .inr ⟨_, _, rfl, ?_, ?_, ?_⟩
    · intro hal
      have hok := (Table.insert_of_noFailure (t := m.usersByName)
        (a := User.new username password) (by rw [hu]; exact hf)).1
      rw [← malloc_tail_nil hm₂ (malloc_tail_nil hm₁ hal), hins] at hok
      exact absurd hok (by simp)
    · funext k
      show t'.lookup k = m.usersByName.lookup k
      rw [Table.lookup, Table.lookup, hfind, hheap]
    · funext i
      simp only [sock, hheap]
  · rw [hins]
    refine .inl ⟨_, _, rfl, ?_, ?_⟩
    · show t'.lookup = _
      rw [Table.lookup_insert hfind hheap, hu]
      rfl
    · funext i
      simp only [sock, hheap]
      cases hact : m.activeSockets i with
      | none => rfl
      | some p =>
        rw [Option.map_some, Option.map_some,
          Function.update_of_ne (Nat.ne_of_lt (Table.lt_next_of_find (h.filed hact)))]

/-! ### Logging in -/

theorem login_of_badFd {m : UserMng} {username password : CStr} {sockfd : Int}
    (hfd : fdIndex sockfd = none) : m.login username password sockfd = (.errProtocol, m) := by
  rw [login, hfd]

section
variable {m : UserMng} {username password : CStr} {sockfd : Int} {i : Fin fdSetSize}
  (hfd : fdIndex sockfd = some i)
include hfd

theorem login_of_busy {n : CStr} (hs : m.sock i = some n) :
    m.login username password sockfd = (.errAlreadyLoggedIn, m) := by
  obtain ⟨p, hp, -⟩ := exists_active_of_sock hs
  rw [login, hfd]
  simp only [hp]

theorem login_of_unknown (hs : m.sock i = none) (hu : m.user username = none) :
    m.login username password sockfd = (.errUserNotFound, m) := by
  rw [login, hfd]
  simp only [sock_eq_none_iff.mp hs, Table.lookup_eq_none_iff.mp hu]

theorem login_of_badPassword {u : User} (hs : m.sock i = none) (hu : m.user username = some u)
    (hp : u.password ≠ password) :
    m.login username password sockfd = (.errBadPassword, m) := by
  obtain ⟨p, hf, rfl⟩ := Table.exists_find_of_lookup hu
  rw [login, hfd]
  simp only [sock_eq_none_iff.mp hs, hf]
  rw [if_pos hp]

theorem login_of_online {u : User} (hs : m.sock i = none) (hu : m.user username = some u)
    (hp : u.password = password) (hon : u.state = .online) :
    m.login username password sockfd = (.errAlreadyLoggedIn, m) := by
  obtain ⟨p, hf, rfl⟩ := Table.exists_find_of_lookup hu
  rw [login, hfd]
  simp only [sock_eq_none_iff.mp hs, hf]
  rw [if_neg (by simpa using hp), if_pos hon]

theorem login_of_offline {u : User} (hs : m.sock i = none) (hu : m.user username = some u)
    (hp : u.password = password) (hoff : u.state = .offline) :
    ∃ m', m.login username password sockfd = (.ok, m') ∧
      m'.user = Function.update m.user username (some (u.bind sockfd)) ∧
      m'.sock = Function.update m.sock i (some username) := by
  obtain ⟨p, hf, rfl⟩ := Table.exists_find_of_lookup hu
  rw [login, hfd]
  simp only [sock_eq_none_iff.mp hs, hf]
  rw [if_neg (by simpa using hp), if_neg (by simp [hoff])]
  refine ⟨_, rfl, Table.lookup_modify (User.username_bind sockfd) hf, ?_⟩
  funext j
  simp only [sock, Table.key_heap_modify]
  by_cases hj : j = i
  · rw [hj, Function.update_self, Function.update_self, Option.map_some, Table.key_of_find hf]
  · rw [Function.update_of_ne hj, Function.update_of_ne hj, sock]

end

/-! ### Logging out -/

theorem logout_of_badFd {σ : Type} {m : UserMng} {sockfd : Int} {leaveCb : CStr → σ → σ} {ctx : σ}
    (hfd : fdIndex sockfd = none) : m.logout sockfd leaveCb ctx = (.errProtocol, m, ctx) := by
  rw [logout, hfd]

section
variable {m : UserMng} {sockfd : Int} {i : Fin fdSetSize} (hfd : fdIndex sockfd = some i)
include hfd

theorem logout_of_none {σ : Type} {leaveCb : CStr → σ → σ} {ctx : σ} (hs : m.sock i = none) :
    m.logout sockfd leaveCb ctx = (.errNotLoggedIn, m, ctx) := by
  rw [logout, hfd]
  simp only [sock_eq_none_iff.mp hs]

theorem logout_of_session (h : m.Inv) {σ : Type} (leaveCb : CStr → σ → σ) (ctx : σ) {n : CStr}
    {u : User} (hs : m.sock i = some n) (hu : m.user n = some u) :
    ∃ m', m.logout sockfd leaveCb ctx = (.ok, m', logoutLoop leaveCb u.joinedGroups ctx) ∧
      m'.user = Function.update m.user n (some u.unbind) ∧
      m'.sock = Function.update m.sock i none := by
  obtain ⟨p, hp, hf, rfl⟩ := exists_session h hs hu
  rw [logout, hfd]
  simp only [hp]
  refine ⟨_, rfl, Table.lookup_modify User.username_unbind hf, ?_⟩
  funext j
  simp only [sock, Table.key_heap_modify]
  by_cases hj : j = i
  · rw [hj, Function.update_self, Function.update_self, Option.map_none]
  · rw [Function.update_of_ne hj, Function.update_of_ne hj, sock]

/-! ### Joining and leaving -/

theorem isLoggedIn_eq : m.isLoggedIn sockfd = (m.sock i).isSome := by
  rw [isLoggedIn, hfd, sock, Option.isSome_map]

theorem joinGroup_of_member (h : m.Inv) {n groupName : CStr} {u : User} (al : Alloc)
    (hs : m.sock i = some n) (hu : m.user n = some u) (hg : groupName ∈ u.joinedGroups) :
    m.joinGroup sockfd groupName al = (.errAlreadyInGroup, m, al) := by
  obtain ⟨p, hp, hf, rfl⟩ := exists_session h hs hu
  rw [joinGroup, hfd]
  simp only [hp]
  rw [if_pos hg]

/-- **Everything joining a new group can do.** -/
theorem joinGroup_cases (h : m.Inv) {n groupName : CStr} {u : User} (al : Alloc)
    (hs : m.sock i = some n) (hu : m.user n = some u) (hg : groupName ∉ u.joinedGroups) :
    (∃ m' al', m.joinGroup sockfd groupName al = (.ok, m', al') ∧
      m'.user = Function.update m.user n (some (u.addGroup groupName)) ∧ m'.sock = m.sock ∧
      (al = [] → al' = [])) ∨
    (∃ al', m.joinGroup sockfd groupName al = (.errServerFull, m, al') ∧ al ≠ []) := by
  obtain ⟨p, hp, hf, rfl⟩ := exists_session h hs hu
  rw [joinGroup, hfd]
  simp only [hp]
  rw [if_neg hg]
  rcases hm₁ : malloc al with ⟨_ | _, al₁⟩
  · exact .inr ⟨_, rfl, ne_nil_of_malloc hm₁⟩
  simp only
  rcases hm₂ : malloc al₁ with ⟨_ | _, al₂⟩
  · exact .inr ⟨_, rfl, fun hal => ne_nil_of_malloc hm₂ (malloc_tail_nil hm₁ hal)⟩
  · exact .inl ⟨_, _, rfl, Table.lookup_modify (User.username_addGroup groupName) hf,
      sock_modify _, fun hal => malloc_tail_nil hm₂ (malloc_tail_nil hm₁ hal)⟩

theorem leaveGroup_of_none {groupName : CStr} (hs : m.sock i = none) :
    m.leaveGroup sockfd groupName = (.errNotLoggedIn, m) := by
  rw [leaveGroup, hfd]
  simp only [sock_eq_none_iff.mp hs]

theorem leaveGroup_of_stranger (h : m.Inv) {n groupName : CStr} {u : User}
    (hs : m.sock i = some n) (hu : m.user n = some u) (hg : groupName ∉ u.joinedGroups) :
    m.leaveGroup sockfd groupName = (.errNotInGroup, m) := by
  obtain ⟨p, hp, hf, rfl⟩ := exists_session h hs hu
  rw [leaveGroup, hfd]
  simp only [hp]
  rw [if_neg hg]

theorem leaveGroup_of_member (h : m.Inv) {n groupName : CStr} {u : User}
    (hs : m.sock i = some n) (hu : m.user n = some u) (hg : groupName ∈ u.joinedGroups) :
    ∃ m', m.leaveGroup sockfd groupName = (.ok, m') ∧
      m'.user = Function.update m.user n (some (u.dropGroup groupName)) ∧ m'.sock = m.sock := by
  obtain ⟨p, hp, hf, rfl⟩ := exists_session h hs hu
  rw [leaveGroup, hfd]
  simp only [hp]
  rw [if_pos hg]
  exact ⟨_, rfl, Table.lookup_modify (User.username_dropGroup groupName) hf, sock_modify _⟩

end

theorem leaveGroup_of_badFd {m : UserMng} {sockfd : Int} {groupName : CStr}
    (hfd : fdIndex sockfd = none) : m.leaveGroup sockfd groupName = (.errProtocol, m) := by
  rw [leaveGroup, hfd]

theorem isLoggedIn_of_badFd {m : UserMng} {sockfd : Int} (hfd : fdIndex sockfd = none) :
    m.isLoggedIn sockfd = false := by
  rw [isLoggedIn, hfd]

end UserMng

end ChatProject
