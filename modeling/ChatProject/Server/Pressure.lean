import ChatProject.Server.Membership

/-!
# Addresses under memory pressure

`FreeMcQueue_Take` frees the node of the pair it hands out, so `FreeMcQueue_Return` has to allocate
a new one, and none of its callers looks at what it returns.  Every undo path of CREATE goes through
it, and so does the ordinary end of a group.

* `ServerMng.returns` — the calls of `FreeMcQueue_Return` that one call on the server makes, as the
  allocation answers each of them finds; `ServerMng.returned_step` says that the handlers make them
  and do nothing else to the pool but take one pair.
* `Chat.Keeps` — pool and live groups hold exactly a given stock.
* `ServerMng.keeps_step` — a step in which every one of these calls finds memory keeps the stock,
  whatever other allocations fail.
* `no_pair_lost` — so does a run of such steps.  `pair_lost` is a run with one that does not.
-/

set_option autoImplicit false

namespace ChatProject

open Machine

namespace Chat

/-- Pool and live groups hold exactly the pairs of `all`. -/
structure Keeps (c : Chat) (all : List McastPair) : Prop where
  /-- No pair is in two places. -/
  owned : Ownership.Owned all c.free c.held
  /-- No pair is lost. -/
  complete : Ownership.Complete all c.free c.held

theorem Keeps.lending {all : List McastPair} {c d : Chat} (h : c.Keeps all) (hl : c.Lending d) :
    d.Keeps all :=
  ⟨hl.owned h.owned, hl.complete h.complete⟩

/-- The order of the pool does not matter. -/
theorem Keeps.of_perm {all : List McastPair} {c d : Chat} (h : c.Keeps all)
    (hgroup : d.group = c.group) (hfree : d.free.Perm c.free) : d.Keeps all := by
  have hheld := held_congr hgroup
  constructor
  · rw [hheld]
    exact h.owned.shrink (hfree.nodup_iff.mpr h.owned.nodup) fun _ hp => hfree.subset hp
  · intro p hp
    rw [hheld]
    exact (h.complete p hp).imp_left fun hmem => hfree.symm.subset hmem

end Chat

/-! ## The calls of `FreeMcQueue_Return` -/

/-- Calls of `FreeMcQueue_Return`, each on the pool that the one before has left and with the given
answers of `malloc` ahead of it, lead from `q` to the last pool. -/
inductive FreeMcQueue.Returned : FreeMcQueue → List Alloc → FreeMcQueue → Prop
  | nil (q : FreeMcQueue) : Returned q [] q
  | cons {q q' : FreeMcQueue} {als : List Alloc} (pair : McastPair) {al : Alloc}
    (h : Returned (q.giveBack pair al).2.1 als q') : Returned q (al :: als) q'

theorem FreeMcQueue.Returned.append {q q' q'' : FreeMcQueue} {als als' : List Alloc}
    (h : Returned q als q') (h' : Returned q' als' q'') : Returned q (als ++ als') q'' := by
  induction h with
  | nil => exact h'
  | cons pair _ ih => exact .cons pair (ih h')

open FreeMcQueue (Returned)

namespace GroupMng

/-- In `GroupMng_LeaveGroup`: for a group that loses its last member. -/
def leaveReturns (m : GroupMng) (groupName : CStr) (al : Alloc) : List Alloc :=
  match m.group groupName with
  | none => []
  | some g => if g.memberCount ≤ 1 then [al] else []

/-- In `GroupMng_CreateGroup`: when the group cannot be allocated, or not be filed. -/
def createReturns (m : GroupMng) (groupName : CStr) (al : Alloc) : List Alloc :=
  match m.groupsByName.find groupName with
  | some _ => []
  | none =>
    match m.ipPool.take with
    | (none, _) => []
    | (some pair, _) =>
      match malloc al with
      | (false, al) => [al]
      | (true, al) =>
        match m.groupsByName.insert (Group.new groupName pair) al with
        | (.success, _, _) => []
        | (_, _, al) => [al]

theorem returned_leaveGroup (m : GroupMng) (name : CStr) (al : Alloc) :
    Returned m.ipPool (m.leaveReturns name al) (m.leaveGroup name al).2.1.ipPool := by
  cases hg : m.group name with
  | none =>
    rw [leaveGroup_of_none al hg, leaveReturns, hg]
    exact .nil _
  | some g =>
    obtain ⟨p, hp, rfl⟩ := Table.exists_find_of_lookup hg
    rw [leaveGroup, leaveReturns, hg]
    simp only [hp, Table.heap_modify_self, Group.memberCount_countOut]
    by_cases hle : (m.groupsByName.heap p).memberCount ≤ 1
    · rw [if_pos hle, if_pos (by omega)]
      exact .cons _ (.nil _)
    · rw [if_neg hle, if_neg (by omega)]
      exact .nil _

/-- CREATE may take a pair first. -/
theorem returned_createGroup (m : GroupMng) (name : CStr) (al : Alloc) :
    ∃ q, (q = m.ipPool ∨ q = m.ipPool.take.2) ∧
      Returned q (m.createReturns name al) (m.createGroup name al).2.2.1.ipPool := by
  rw [createGroup, createReturns]
  cases m.groupsByName.find name with
  | some _ => exact ⟨m.ipPool, .inl rfl, .nil _⟩
  | none =>
    refine ⟨m.ipPool.take.2, .inr rfl, ?_⟩
    rcases m.ipPool.take with ⟨_ | pair, q⟩
    · exact .nil q
    · simp only
      rcases malloc al with ⟨_ | _, al₁⟩
      · exact .cons pair (.nil _)
      · simp only
        rcases m.groupsByName.insert (Group.new name pair) al₁ with ⟨res, t, al₂⟩
        cases res
        case success => exact .nil q
        all_goals exact .cons pair (.nil _)

theorem ipPool_joinGroup (m : GroupMng) (name : CStr) :
    (m.joinGroup name).2.2.ipPool = m.ipPool := by
  rw [joinGroup]
  cases m.groupsByName.find name <;> rfl

theorem leaveReturns_of_last {m : GroupMng} {name : CStr} {g : Group} (al : Alloc)
    (h : m.group name = some g) (hg : g.memberCount ≤ 1) : m.leaveReturns name al = [al] := by
  rw [leaveReturns, h]
  exact if_pos hg

/-- **A group that could not be created leaves its pair in the pool.** -/
theorem free_createGroup {m m' : GroupMng} {name : CStr} {pair : McastPair}
    {rest : List McastPair} {al al' : Alloc} {st : ChatStatus} (h : m.group name = none)
    (hfree : m.free = pair :: rest) (hroom : rest.length < 255)
    (hr : m.createGroup name al = (st, none, m', al'))
    (hret : ∀ a ∈ m.createReturns name al, (malloc a).1 = true) : m'.free = rest ++ [pair] := by
  have hf := Table.lookup_eq_none_iff.mp h
  obtain ⟨htake, hrest⟩ := FreeMcQueue.take_of_toList_eq_cons hfree
  have htake' : m.ipPool.take = (some pair, m.ipPool.take.2) := by rw [← htake]
  have hback : ∀ a, (malloc a).1 = true →
      (m.ipPool.take.2.giveBack pair a).2.1.toList = rest ++ [pair] := by
    intro a ha
    have hlist := (FreeMcQueue.toList_giveBack pair (by rw [hrest]; exact hroom) ha).2.1
    rwa [hrest] at hlist
  rw [createReturns] at hret
  rw [createGroup] at hr
  simp only [hf] at hret hr
  rw [htake'] at hret hr
  simp only at hret hr
  rcases hm : malloc al with ⟨_ | _, al₁⟩
  · rw [hm] at hret hr
    obtain rfl : _ = m' := congrArg (·.2.2.1) hr
    exact hback al₁ (hret al₁ List.mem_cons_self)
  · rw [hm] at hret hr
    simp only at hret hr
    rcases hins : m.groupsByName.insert (Group.new name pair) al₁ with ⟨res, t', al₂⟩
    rw [hins] at hret hr
    cases res
    case success => exact absurd (congrArg (·.2.1) hr) (by simp)
    all_goals
      obtain rfl : _ = m' := congrArg (·.2.2.1) hr
      exact hback al₂ (hret al₂ List.mem_cons_self)

/-- **A member who leaves**: what the pool shows is what the service says. -/
theorem free_leaveGroup {m : GroupMng} {c : Chat} {g : CStr} {al : Alloc}
    (hgroup : m.group = c.group) (hfree : m.free = c.free) (haddr : c.Addresses)
    (hret : ∀ a ∈ m.leaveReturns g al, (malloc a).1 = true) :
    (m.leaveGroup g al).2.1.free = (c.countOut g).free := by
  cases hg : c.group g with
  | none =>
    rw [leaveGroup_of_none al (hgroup ▸ hg), Chat.countOut_of_none hg]
    exact hfree
  | some gr =>
    have hmg : m.group g = some gr := hgroup ▸ hg
    by_cases hle : gr.memberCount ≤ 1
    · have hroom := haddr.length_lt (Chat.held_of_group hg)
      rw [length_mcastFill, ← hfree] at hroom
      rw [leaveReturns_of_last al hmg hle] at hret
      obtain ⟨m', al', h, -, -, hexact⟩ := leaveGroup_of_last al hmg hle
      rw [h, Chat.countOut_of_last hg hle]
      exact (hexact (hret al List.mem_cons_self) hroom).1.trans (by rw [hfree])
    · obtain ⟨m', h, -, hfree'⟩ := leaveGroup_of_many al hmg (by omega)
      rw [h, Chat.countOut_of_many hg (by omega)]
      exact hfree'.trans hfree

end GroupMng

namespace ServerMng

/-- In the loop of a logout. -/
def loopReturns : List CStr → GroupMng → Alloc → List Alloc
  | [], _, _ => []
  | groupName :: rest, m, al =>
    m.leaveReturns groupName al ++
      loopReturns rest (m.leaveGroup groupName al).2.1 (m.leaveGroup groupName al).2.2

/-- In a logout or a disconnect. -/
def logoutReturns (s : ServerMng) (sockfd : Int) (al : Alloc) : List Alloc :=
  (s.view.session sockfd).elim [] fun n => loopReturns (s.view.joined n) s.groupMng al

/-- In `HandleCreateGroupReq`: the group manager's own, and the one of the roll back. -/
def createReturns (s : ServerMng) (sockfd : Int) (groupName : CStr) (al : Alloc) : List Alloc :=
  if s.userMng.isLoggedIn sockfd = false then []
  else
    s.groupMng.createReturns groupName al ++
      match s.groupMng.createGroup groupName al with
      | (.ok, some _, groupMng, al) =>
        match s.userMng.joinGroup sockfd groupName al with
        | (.ok, _, _) => []
        | (_, _, al) => groupMng.leaveReturns groupName al
      | (_, _, _, _) => []

/-- In the undo of `HandleJoinGroupReq`. -/
def joinReturns (s : ServerMng) (sockfd : Int) (groupName : CStr) (al : Alloc) : List Alloc :=
  if s.userMng.isLoggedIn sockfd = false then []
  else
    match s.groupMng.joinGroup groupName with
    | (.ok, some _, groupMng) =>
      match s.userMng.joinGroup sockfd groupName al with
      | (.ok, _, _) => []
      | (_, _, al) => groupMng.leaveReturns groupName al
    | (_, _, _) => []

/-- In `HandleLeaveGroupReq`. -/
def leaveReturns (s : ServerMng) (sockfd : Int) (groupName : CStr) (al : Alloc) : List Alloc :=
  match s.userMng.leaveGroup sockfd groupName with
  | (.ok, _) => s.groupMng.leaveReturns groupName al
  | (_, _) => []

/-- The calls of `FreeMcQueue_Return` that one call on the server makes, as the answers that
`malloc` will give from there on. -/
def returns (s : ServerMng) : Event → List Alloc
  | .disconnect sockfd al => s.logoutReturns sockfd al
  | .message sockfd msg al =>
    match Request.parse msg with
    | some .logout => s.logoutReturns sockfd al
    | some (.createGroup groupName) => s.createReturns sockfd groupName al
    | some (.joinGroup groupName) => s.joinReturns sockfd groupName al
    | some (.leaveGroup groupName) => s.leaveReturns sockfd groupName al
    | _ => []

/-! ### The handlers make these calls -/

theorem returned_logoutLoop (l : List CStr) (m : GroupMng) (al : Alloc) :
    Returned m.ipPool (loopReturns l m al)
      (UserMng.logoutLoop onUserImplicitLeave l (m, al)).1.ipPool := by
  induction l generalizing m al with
  | nil => exact .nil _
  | cons g l ih =>
    exact (m.returned_leaveGroup g al).append (ih (m.leaveGroup g al).2.1 (m.leaveGroup g al).2.2)

/-- The end of a session is the logout loop on the groups of its user. -/
theorem groupMng_onDisconnect {s : ServerMng} (h : s.Inv) {fd : Int} (al : Alloc) {n : CStr}
    (hn : s.view.session fd = some n) : (s.onDisconnect fd al).groupMng =
      (UserMng.logoutLoop onUserImplicitLeave (s.view.joined n) (s.groupMng, al)).1 := by
  obtain ⟨i, hfd, hs⟩ := Chat.session_eq_some_iff.mp hn
  obtain ⟨u, hu, -⟩ := h.sessions.sock_iff.mp hs
  obtain ⟨m', hr, -, -⟩ := UserMng.logout_of_session hfd h.users
    onUserImplicitLeave (s.groupMng, al) hs hu
  rw [onDisconnect, UserMng.disconnect, hr, Chat.joined_of_user hu]

theorem returned_onDisconnect {s : ServerMng} (h : s.Inv) (fd : Int) (al : Alloc) :
    Returned s.groupMng.ipPool (s.logoutReturns fd al) (s.onDisconnect fd al).groupMng.ipPool := by
  rw [logoutReturns]
  cases hn : s.view.session fd with
  | none =>
    rw [onDisconnect_of_none al hn]
    exact .nil _
  | some n =>
    rw [groupMng_onDisconnect h al hn, Option.elim_some]
    exact returned_logoutLoop (s.view.joined n) s.groupMng al

theorem returned_handleCreateGroupReq (s : ServerMng) (fd : Int) {msg name : List UInt8}
    (al : Alloc) (hdec : chatDecodeGroupname msg = .ok name) :
    ∃ q, (q = s.groupMng.ipPool ∨ q = s.groupMng.ipPool.take.2) ∧
      Returned q (s.createReturns fd (CStr.ofBuffer name) al)
        (s.handleCreateGroupReq fd msg al).1.groupMng.ipPool := by
  rw [createReturns, handleCreateGroupReq, hdec]
  simp only
  split
  · exact ⟨s.groupMng.ipPool, .inl rfl, .nil _⟩
  obtain ⟨q, hq, hret⟩ := s.groupMng.returned_createGroup (CStr.ofBuffer name) al
  refine ⟨q, hq, ?_⟩
  rcases hc : s.groupMng.createGroup (CStr.ofBuffer name) al with ⟨st, p, m, al₁⟩
  rw [hc] at hret
  rcases p with _ | p
  · cases st <;> exact hret.append (.nil _)
  cases st
  case ok =>
    simp only
    rcases s.userMng.joinGroup fd (CStr.ofBuffer name) al₁ with ⟨st', _, al₂⟩
    cases st'
    case ok => exact hret.append (.nil _)
    all_goals exact hret.append (m.returned_leaveGroup (CStr.ofBuffer name) al₂)
  all_goals exact hret.append (.nil _)

theorem returned_handleJoinGroupReq (s : ServerMng) (fd : Int) {msg name : List UInt8} (al : Alloc)
    (hdec : chatDecodeGroupname msg = .ok name) :
    Returned s.groupMng.ipPool (s.joinReturns fd (CStr.ofBuffer name) al)
      (s.handleJoinGroupReq fd msg al).1.groupMng.ipPool := by
  rw [joinReturns, handleJoinGroupReq, hdec]
  simp only
  split
  · exact .nil _
  rw [← s.groupMng.ipPool_joinGroup (CStr.ofBuffer name)]
  rcases s.groupMng.joinGroup (CStr.ofBuffer name) with ⟨st, _ | p, m⟩
  · cases st <;> exact .nil _
  cases st
  case ok =>
    simp only
    rcases s.userMng.joinGroup fd (CStr.ofBuffer name) al with ⟨st', _, al₁⟩
    cases st'
    case ok => exact .nil _
    all_goals exact m.returned_leaveGroup (CStr.ofBuffer name) al₁
  all_goals exact .nil _

theorem returned_handleLeaveGroupReq (s : ServerMng) (fd : Int) {msg name : List UInt8}
    (al : Alloc) (hdec : chatDecodeGroupname msg = .ok name) :
    Returned s.groupMng.ipPool (s.leaveReturns fd (CStr.ofBuffer name) al)
      (s.handleLeaveGroupReq fd msg al).1.groupMng.ipPool := by
  rw [leaveReturns, handleLeaveGroupReq, hdec]
  simp only
  rcases s.userMng.leaveGroup fd (CStr.ofBuffer name) with ⟨st, _⟩
  cases st
  case ok => exact s.groupMng.returned_leaveGroup (CStr.ofBuffer name) al
  all_goals exact .nil _

/-- **The handlers make these calls**, and do nothing else to the pool but take a pair for a
CREATE. -/
theorem returned_step {s : ServerMng} (h : s.Inv) (e : Event) :
    ∃ q, (q = s.groupMng.ipPool ∨ q = s.groupMng.ipPool.take.2) ∧
      Returned q (s.returns e) (s.step e).1.groupMng.ipPool := by
  cases e with
  | disconnect fd al => exact ⟨s.groupMng.ipPool, .inl rfl, returned_onDisconnect h fd al⟩
  | message fd msg al =>
    cases hp : Request.parse msg with
    | none =>
      rw [step_of_no_request s fd al hp, returns, hp]
      exact ⟨s.groupMng.ipPool, .inl rfl, .nil _⟩
    | some r =>
      rw [step_eq_handler s fd al hp, returns, hp]
      cases r with
      | register n p =>
        rw [handler, handleRegisterReq]
        cases chatDecodeUserPass msg <;> exact ⟨s.groupMng.ipPool, .inl rfl, .nil _⟩
      | login n p =>
        rw [handler, handleLoginReq]
        cases chatDecodeUserPass msg <;> exact ⟨s.groupMng.ipPool, .inl rfl, .nil _⟩
      | logout =>
        rw [handler, handleLogoutReq_eq h]
        exact ⟨s.groupMng.ipPool, .inl rfl, returned_onDisconnect h fd al⟩
      | createGroup g =>
        obtain ⟨name, hdec, rfl⟩ := decode_of_parse hp (.inl rfl)
        exact s.returned_handleCreateGroupReq fd al hdec
      | joinGroup g =>
        obtain ⟨name, hdec, rfl⟩ := decode_of_parse hp (.inr (.inl rfl))
        exact ⟨s.groupMng.ipPool, .inl rfl, s.returned_handleJoinGroupReq fd al hdec⟩
      | leaveGroup g =>
        obtain ⟨name, hdec, rfl⟩ := decode_of_parse hp (.inr (.inr rfl))
        exact ⟨s.groupMng.ipPool, .inl rfl, s.returned_handleLeaveGroupReq fd al hdec⟩

/-- None of them runs out of memory. -/
def ReturnsSucceed (s : ServerMng) (e : Event) : Prop := ∀ a ∈ s.returns e, (malloc a).1 = true

instance (s : ServerMng) (e : Event) : Decidable (s.ReturnsSucceed e) :=
  inferInstanceAs (Decidable (∀ a ∈ s.returns e, (malloc a).1 = true))

/-! ## The pool after each handler -/

/-- The logout loop gives back what the service gives back. -/
theorem free_logoutLoop (l : List CStr) {m : GroupMng} {c : Chat} {al : Alloc}
    (hgroup : m.group = c.group) (hfree : m.free = c.free) (haddr : c.Addresses)
    (hret : ∀ a ∈ loopReturns l m al, (malloc a).1 = true) :
    (UserMng.logoutLoop onUserImplicitLeave l (m, al)).1.free = (l.foldl Chat.countOut c).free := by
  induction l generalizing m c al with
  | nil => exact hfree
  | cons g l ih =>
    rw [loopReturns] at hret
    have hfree' := GroupMng.free_leaveGroup hgroup hfree haddr
      fun a ha => hret a (List.mem_append_left _ ha)
    obtain ⟨-, hgroup', -⟩ := leaveGroup_refines g al hgroup (hfree ▸ List.Sublist.refl _)
    exact ih hgroup' hfree' (haddr.lending (Chat.lending_countOut c g))
      fun a ha => hret a (List.mem_append_right _ ha)

section
variable {s : ServerMng} (h : s.Inv) {fd : Int} {al : Alloc}
include h

theorem free_onDisconnect (hret : ∀ a ∈ s.logoutReturns fd al, (malloc a).1 = true) :
    (s.onDisconnect fd al).view.free = (s.view.hangUp fd).free := by
  rw [logoutReturns] at hret
  cases hn : s.view.session fd with
  | none => rw [onDisconnect_of_none al hn, Chat.hangUp_of_none hn]
  | some n =>
    rw [hn, Option.elim_some] at hret
    obtain ⟨i, hfd, hs⟩ := Chat.session_eq_some_iff.mp hn
    show (s.onDisconnect fd al).groupMng.free = _
    rw [groupMng_onDisconnect h al hn, Chat.hangUp_of_session hfd hs]
    exact free_logoutLoop (c := s.view) (s.view.joined n) rfl rfl h.addresses hret

theorem free_handleLeaveGroupReq {msg name : List UInt8}
    (hdec : chatDecodeGroupname msg = .ok name)
    (hv : s.view.verdict fd (.leaveGroup (CStr.ofBuffer name)) = .ok)
    (hret : ∀ a ∈ s.leaveReturns fd (CStr.ofBuffer name) al, (malloc a).1 = true) :
    (s.handleLeaveGroupReq fd msg al).1.view.free =
      (s.view.grant fd (.leaveGroup (CStr.ofBuffer name))).free := by
  obtain ⟨n, hn, hjoined⟩ := Chat.verdict_leaveGroup_eq_ok.mp hv
  obtain ⟨i, hfd, hs⟩ := Chat.session_eq_some_iff.mp hn
  obtain ⟨u, hu, -⟩ := h.sessions.sock_iff.mp hs
  obtain ⟨m₂, hr, -, -⟩ := UserMng.leaveGroup_of_member hfd h.users hs hu
    (by rwa [← Chat.joined_of_user hu])
  rw [leaveReturns, hr] at hret
  rw [handleLeaveGroupReq, hdec, Chat.grant_leaveGroup hn]
  simp only [hr]
  exact GroupMng.free_leaveGroup (c := s.view) rfl rfl h.addresses hret

/-- A CREATE that leaves the groups as they were leaves the pool as it was, up to its order. -/
theorem free_handleCreateGroupReq {msg name : List UInt8}
    (hdec : chatDecodeGroupname msg = .ok name)
    (hret : ∀ a ∈ s.createReturns fd (CStr.ofBuffer name) al, (malloc a).1 = true)
    (hsame : (s.handleCreateGroupReq fd msg al).1.view.group = s.view.group) :
    (s.handleCreateGroupReq fd msg al).1.view.free.Perm s.view.free := by
  by_cases hv : s.view.verdict fd (.createGroup (CStr.ofBuffer name)) = .ok
  · obtain ⟨n, pair, rest, hn, hg, hfree⟩ := Chat.verdict_createGroup_eq_ok.mp hv
    have hroom : rest.length < 255 := h.addresses.length_rest_lt hfree
    have hperm : (rest ++ [pair]).Perm s.view.free := by
      rw [hfree]
      exact List.perm_append_singleton pair rest
    rw [createReturns, isLoggedIn_eq_session, hn, if_neg (by simp)] at hret
    obtain ⟨m₁, m₂, hview, hr⟩ | ⟨p, m₁, al₁, al₂, hc, hj, hgroup, hfree₁, -, hr⟩ |
        ⟨m₁, al₁, hc, -, -, -, hr⟩ := handleCreateGroupReq_cases h fd al hdec hn hg hfree
    · -- the group is there: this was no failure
      obtain ⟨gr, hgr⟩ := Chat.exists_group_of_grant (.inl rfl) hv
      rw [hr, hview] at hsame
      rw [hsame, hg] at hgr
      exact absurd hgr (by simp)
    · rw [hc] at hret
      simp only [hj] at hret
      have hmg := (congrFun hgroup _).trans (Function.update_self ..)
      rw [GroupMng.leaveReturns_of_last al₂ hmg (Nat.le_refl 1)] at hret
      obtain ⟨m₃, al₃, hl, -, -, hexact⟩ := GroupMng.leaveGroup_of_last al₂ hmg (Nat.le_refl 1)
      have hback := (hexact (hret al₂ (List.mem_append_right _ List.mem_cons_self))
        (by rw [hfree₁]; exact hroom)).1
      rw [hfree₁] at hback
      rw [hr, hl]
      exact (List.Perm.of_eq hback).trans hperm
    · have hback := GroupMng.free_createGroup hg hfree hroom hc
        fun a ha => hret a (List.mem_append_left _ ha)
      rw [hr]
      exact (List.Perm.of_eq hback).trans hperm
  · rw [handleCreateGroupReq_of_refused fd al hdec hv]

end

/-! ## Whole steps -/

section
variable {s : ServerMng} (h : s.Inv) {all : List McastPair}
include h

/-- A granted LOGOUT or LEAVE gives back what the service gives back. -/
theorem free_of_granted {fd : Int} {msg : List UInt8} {al : Alloc} {r : Request}
    (hp : Request.parse msg = some r) (hr : r.Returns) (hv : s.view.verdict fd r = .ok)
    (hret : s.ReturnsSucceed (.message fd msg al)) :
    (s.step (.message fd msg al)).1.view.free = (s.view.grant fd r).free := by
  rw [step_eq_handler s fd al hp]
  rw [ReturnsSucceed, returns, hp] at hret
  cases r with
  | logout =>
    rw [handler, handleLogoutReq_eq h]
    exact free_onDisconnect h hret
  | leaveGroup g =>
    obtain ⟨name, hdec, rfl⟩ := decode_of_parse hp (.inr (.inr rfl))
    exact free_handleLeaveGroupReq h hdec hv hret
  | register | login | createGroup | joinGroup => exact absurd hr not_false

/-- A CREATE that came to nothing leaves the pool as it was, up to its order. -/
theorem free_of_failed {fd : Int} {msg : List UInt8} {al : Alloc} {g : CStr}
    (hp : Request.parse msg = some (.createGroup g))
    (hret : s.ReturnsSucceed (.message fd msg al))
    (hsame : (s.step (.message fd msg al)).1.view.group = s.view.group) :
    (s.step (.message fd msg al)).1.view.free.Perm s.view.free := by
  rw [step_eq_handler s fd al hp, handler] at hsame ⊢
  rw [ReturnsSucceed, returns, hp] at hret
  obtain ⟨name, hdec, rfl⟩ := decode_of_parse hp (.inl rfl)
  exact free_handleCreateGroupReq h hdec hret hsame

/-- **A step whose returns succeed keeps the stock**, whatever other allocations fail in it. -/
theorem keeps_step {e : Event} (hret : s.ReturnsSucceed e) (hk : s.view.Keeps all) :
    (s.step e).1.view.Keeps all := by
  cases e with
  | disconnect fd al =>
    have hgroup := (onDisconnect_refines h fd al).1.group
    exact (Chat.hangUp_induction Chat.Keeps.lending hk fd).of_perm hgroup
      (List.Perm.of_eq (free_onDisconnect h hret))
  | message fd msg al =>
    have hstep := step_refines h (.message fd msg al)
    generalize hc : (s.step (.message fd msg al)).1.view = c' at hstep ⊢
    generalize (s.step (.message fd msg al)).2 = sent at hstep
    cases hstep with
    | dropped hp => exact hk
    | @served _ _ _ r _ _ hp ho =>
      cases ho with
      | refused hv => exact hk
      | granted hv hloss hal =>
        refine (Chat.grant_induction Chat.Keeps.lending hk hv).of_perm hloss.group ?_
        by_cases hr : r.Returns
        · rw [← hc, free_of_granted h hp hr hv hret]
        · rw [hal (.inr hr)]
      | failed hv hal hfree hst =>
        obtain rfl | ⟨g, pair, rest, rfl, -, -⟩ := hfree
        · exact hk
        · have hperm := free_of_failed h hp hret (by rw [hc])
          rw [hc] at hperm
          exact hk.of_perm rfl hperm

end

/-- The pairs in the free pool together with those of the live groups. -/
def pairs (s : ServerMng) : List McastPair :=
  s.groupMng.free ++ s.groupMng.groupsByName.objs.map Group.pair

/-- What the pool was filled with is the stock from then on. -/
theorem keeps_init {al : Alloc} {s₀ : ServerMng} (h₀ : init al = some s₀) :
    s₀.view.Keeps s₀.view.free := by
  obtain ⟨-, -, -, hgroup, hfree⟩ := init_spec h₀
  have hheld : s₀.view.held = fun _ => none := by
    funext g
    rw [Chat.held, hgroup, Option.map_none]
  constructor
  · rw [hheld]
    exact Ownership.owned_full (nodup_mcastFill.sublist hfree) fun _ hp => hp
  · exact fun p hp => .inl hp

end ServerMng

/-! ## Whole runs -/

open ServerMng

/-- **No address is lost while returning one finds memory.**  In every run from a successful
`ServerMng_Init`, with any messages, disconnects and allocation failures: as long as the `malloc`
inside each `FreeMcQueue_Return` of a step succeeds, the pairs in the pool together with those of
the live groups are after each step, as a multiset, what they were right after initialisation. -/
theorem no_pair_lost {al : Alloc} {s₀ : ServerMng} (h₀ : ServerMng.init al = some s₀)
    {es : List Event} (hes : Along step ReturnsSucceed s₀ es) :
    ∀ es₁ es₂, es = es₁ ++ es₂ → (s₀.run es₁).pairs.Perm s₀.pairs := by
  rintro es₁ es₂ rfl
  have hkeeps := keeps_init h₀
  have hall : s₀.view.free.Nodup := (inv_init h₀).addresses.nodup
  have hrun : (s₀.run es₁).Inv ∧ (s₀.run es₁).view.Keeps s₀.view.free :=
    run_invariant_along (P := fun s : ServerMng => s.Inv ∧ s.view.Keeps s₀.view.free)
      (fun s e hret hs => ⟨hs.1.step e, keeps_step hs.1 hret hs.2⟩) hes.of_append
      ⟨inv_init h₀, hkeeps⟩
  exact (pairs_perm hrun.1 hall hrun.2.owned hrun.2.complete).trans
    (pairs_perm (inv_init h₀) hall hkeeps.owned hkeeps.complete).symm

/-- The group `g` is founded, a group `h` cannot be for want of memory, and `g` ends. -/
def underPressure : List Event :=
  firstGroup ++ [.message 4 [7, 2, 1, 104] [false], .message 4 [11, 2, 1, 103] []]

theorem no_pair_lost_underPressure :
    ∃ s₀, ServerMng.init [] = some s₀ ∧ (s₀.run underPressure).pairs.Perm s₀.pairs := by
  have hrun : (ServerMng.init []).map (fun s =>
      decide (Along step ReturnsSucceed s underPressure)) = some true := by
    decide +kernel
  obtain ⟨s₀, h₀, hes⟩ := Option.map_eq_some_iff.mp hrun
  exact ⟨s₀, h₀, no_pair_lost h₀ (of_decide_eq_true hes) underPressure []
    (List.append_nil _).symm⟩

/-- The group `g` is founded and ends, and there is no memory for its pair to come back. -/
def lastLeaves : List Event := firstGroup ++ [.message 4 [11, 2, 1, 103] [false]]

/-- **And is lost when it does not**: the last member leaves, and 254 pairs are left of 255. -/
theorem pair_lost :
    ∃ s₀, ServerMng.init [] = some s₀ ∧ s₀.pairs.length = 255 ∧
      (s₀.run lastLeaves).pairs.length = 254 ∧ ¬ (s₀.run lastLeaves).pairs.Perm s₀.pairs := by
  have hrun : (ServerMng.init []).map (fun s =>
      (s.pairs.length, (s.run lastLeaves).pairs.length)) = some (255, 254) := by
    decide +kernel
  obtain ⟨s₀, h₀, hlen⟩ := Option.map_eq_some_iff.mp hrun
  obtain ⟨hall, hleft⟩ := Prod.ext_iff.mp hlen
  refine ⟨s₀, h₀, hall, hleft, fun hperm => ?_⟩
  have heq := hperm.length_eq
  simp only at hall hleft
  omega

end ChatProject
