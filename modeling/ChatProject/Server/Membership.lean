import ChatProject.Server.Refinement

/-!
# Counts and addresses in every reachable state

The counter of a group lives in one manager, the lists of its members in the other, and six paths
through the handlers update them in two separate steps.  This file reads the invariants of
`Service/Books.lean` and `Service/Addresses.lean` back in the terms of the two managers:

* `membership_counters` — every count is the number of users that have the group on their list,
  whatever allocations fail; so the checks in the code that ask whether something has gone wrong
  never find that it has.
* `address_conservation` — as long as no allocation fails, the pool and the live groups together
  hold the 255 addresses, each once.

Two of those checks sit inside `GroupMng_LeaveGroup`, so `ServerMng.leaveCalls` lists the calls of
it that one call on the server makes, with the manager each of them finds; `leads_leaveCalls` says
that these calls are what the handlers do to the group manager.
-/

set_option autoImplicit false

namespace ChatProject

namespace ServerMng

/-! ## The calls of `GroupMng_LeaveGroup` -/

/-- A call of `GroupMng_LeaveGroup`: the manager it finds, and the name it is given. -/
abbrev LeaveCall := GroupMng × CStr

/-- `OnUserImplicitLeave`, and a note of the call it makes. -/
def noteImplicitLeave (groupName : CStr) (ctx : (GroupMng × Alloc) × List LeaveCall) :
    (GroupMng × Alloc) × List LeaveCall :=
  (onUserImplicitLeave groupName ctx.1, ctx.2 ++ [(ctx.1.1, groupName)])

/-- The calls a logout or a disconnect makes. -/
def logoutCalls (s : ServerMng) (sockfd : Int) (al : Alloc) : List LeaveCall :=
  (s.userMng.logout sockfd noteImplicitLeave ((s.groupMng, al), [])).2.2.2

/-- The call of the roll back in `HandleCreateGroupReq`. -/
def createCalls (s : ServerMng) (sockfd : Int) (groupName : CStr) (al : Alloc) : List LeaveCall :=
  if s.userMng.isLoggedIn sockfd = false then []
  else
    match s.groupMng.createGroup groupName al with
    | (.ok, some _, groupMng, al) =>
      match s.userMng.joinGroup sockfd groupName al with
      | (.ok, _, _) => []
      | (_, _, _) => [(groupMng, groupName)]
    | (_, _, _, _) => []

/-- The call of the undo in `HandleJoinGroupReq`. -/
def joinCalls (s : ServerMng) (sockfd : Int) (groupName : CStr) (al : Alloc) : List LeaveCall :=
  if s.userMng.isLoggedIn sockfd = false then []
  else
    match s.groupMng.joinGroup groupName with
    | (.ok, some _, groupMng) =>
      match s.userMng.joinGroup sockfd groupName al with
      | (.ok, _, _) => []
      | (_, _, _) => [(groupMng, groupName)]
    | (_, _, _) => []

/-- The call in `HandleLeaveGroupReq`. -/
def leaveGroupCalls (s : ServerMng) (sockfd : Int) (groupName : CStr) : List LeaveCall :=
  match s.userMng.leaveGroup sockfd groupName with
  | (.ok, _) => [(s.groupMng, groupName)]
  | (_, _) => []

/-- The calls of `GroupMng_LeaveGroup` that one call on the server makes. -/
def leaveCalls (s : ServerMng) : Event → List LeaveCall
  | .disconnect sockfd al => s.logoutCalls sockfd al
  | .message sockfd msg al =>
    match Request.parse msg with
    | some .logout => s.logoutCalls sockfd al
    | some (.createGroup groupName) => s.createCalls sockfd groupName al
    | some (.joinGroup groupName) => s.joinCalls sockfd groupName al
    | some (.leaveGroup groupName) => s.leaveGroupCalls sockfd groupName
    | _ => []

/-! ## Dispatch -/

/-- The handler `ServerMng_HandleMessage` calls for a request. -/
def handler (s : ServerMng) (sockfd : Int) (msg : List UInt8) (al : Alloc) :
    Request → ServerMng × List Packet
  | .register _ _ => s.handleRegisterReq sockfd msg al
  | .login _ _ => s.handleLoginReq sockfd msg
  | .logout => s.handleLogoutReq sockfd al
  | .createGroup _ => s.handleCreateGroupReq sockfd msg al
  | .joinGroup _ => s.handleJoinGroupReq sockfd msg al
  | .leaveGroup _ => s.handleLeaveGroupReq sockfd msg al

theorem step_eq_handler (s : ServerMng) (fd : Int) {msg : List UInt8} (al : Alloc) {r : Request}
    (hp : Request.parse msg = some r) : s.step (.message fd msg al) = s.handler fd msg al r := by
  rw [step, handleMessage]
  rw [Request.parse] at hp
  cases hpeek : chatPeekHeader msg with
  | none =>
    rw [hpeek] at hp
    exact absurd hp (by simp)
  | some header =>
  obtain ⟨type, len⟩ := header
  rw [hpeek] at hp
  simp only at hp ⊢
  generalize ChatOpcode.ofByte type = op at hp ⊢
  cases op
  case regReq | loginReq =>
    obtain ⟨n, p, rfl, -⟩ := Request.fits_of_parseUserPass hp
    rfl
  case logoutReq =>
    obtain rfl := Option.some_inj.mp hp
    rfl
  case createGroupReq | joinGroupReq | leaveGroupReq =>
    obtain ⟨g, rfl, -⟩ := Request.fits_of_parseGroupname hp
    rfl
  all_goals exact absurd hp (by simp)

/-- The requests about a group carry the name their decoder returns. -/
theorem decode_of_parse {msg : List UInt8} {r : Request} {g : CStr}
    (hp : Request.parse msg = some r)
    (hr : r = .createGroup g ∨ r = .joinGroup g ∨ r = .leaveGroup g) :
    ∃ name, chatDecodeGroupname msg = .ok name ∧ CStr.ofBuffer name = g := by
  have hname : ∀ {make : CStr → Request}, Request.parseGroupname make msg = some r →
      ∃ name, chatDecodeGroupname msg = .ok name ∧ r = make (CStr.ofBuffer name) := by
    intro make h
    rw [Request.parseGroupname] at h
    split at h
    · exact absurd h (by simp)
    · next name hdec => exact ⟨name, hdec, (Option.some_inj.mp h).symm⟩
  rw [Request.parse] at hp
  split at hp
  · exact absurd hp (by simp)
  split at hp
  · obtain ⟨n, p, rfl, -⟩ := Request.fits_of_parseUserPass hp
    exact absurd hr (by simp)
  · obtain ⟨n, p, rfl, -⟩ := Request.fits_of_parseUserPass hp
    exact absurd hr (by simp)
  · obtain rfl := Option.some_inj.mp hp
    exact absurd hr (by simp)
  iterate 3
    obtain ⟨name, hdec, rfl⟩ := hname hp
    exact ⟨name, hdec, by simpa using hr⟩
  · exact absurd hp (by simp)

/-- A frame without a request reaches no manager. -/
theorem step_of_no_request (s : ServerMng) (fd : Int) {msg : List UInt8} (al : Alloc)
    (hp : Request.parse msg = none) : s.step (.message fd msg al) = (s, []) := by
  have huser : ∀ {make : CStr → CStr → Request}, Request.parseUserPass make msg = none →
      ∃ e, chatDecodeUserPass msg = .error e := by
    intro make h
    rw [Request.parseUserPass] at h
    split at h
    · next e hdec => exact ⟨e, hdec⟩
    · exact absurd h (by simp)
  have hgroup : ∀ {make : CStr → Request}, Request.parseGroupname make msg = none →
      ∃ e, chatDecodeGroupname msg = .error e := by
    intro make h
    rw [Request.parseGroupname] at h
    split at h
    · next e hdec => exact ⟨e, hdec⟩
    · exact absurd h (by simp)
  rw [step, handleMessage]
  rw [Request.parse] at hp
  cases hpeek : chatPeekHeader msg with
  | none => rfl
  | some header =>
  obtain ⟨type, len⟩ := header
  rw [hpeek] at hp
  simp only at hp ⊢
  generalize ChatOpcode.ofByte type = op at hp ⊢
  cases op
  case regReq =>
    obtain ⟨e, he⟩ := huser hp
    simp only [handleRegisterReq, he]
  case loginReq =>
    obtain ⟨e, he⟩ := huser hp
    simp only [handleLoginReq, he]
  case logoutReq => exact absurd hp (by simp)
  case createGroupReq =>
    obtain ⟨e, he⟩ := hgroup hp
    simp only [handleCreateGroupReq, he]
  case joinGroupReq =>
    obtain ⟨e, he⟩ := hgroup hp
    simp only [handleJoinGroupReq, he]
  case leaveGroupReq =>
    obtain ⟨e, he⟩ := hgroup hp
    simp only [handleLeaveGroupReq, he]
  all_goals rfl

/-! ## The handlers make these calls -/

/-- The calls in the list, each on the manager that the one before has left, lead from `m` to the
last manager; `al` is what `malloc` will answer from the first one on. -/
inductive Leads : GroupMng → Alloc → List LeaveCall → GroupMng → Prop
  | nil (m : GroupMng) (al : Alloc) : Leads m al [] m
  | cons {m m' : GroupMng} {al : Alloc} {calls : List LeaveCall} (groupName : CStr)
    (h : Leads (m.leaveGroup groupName al).2.1 (m.leaveGroup groupName al).2.2 calls m') :
    Leads m al ((m, groupName) :: calls) m'

/-- The manager that the first of the calls finds: CREATE and JOIN have entered the group before. -/
def entered (s : ServerMng) : Event → GroupMng
  | .disconnect _ _ => s.groupMng
  | .message sockfd msg al =>
    if s.userMng.isLoggedIn sockfd = false then s.groupMng
    else
      match Request.parse msg with
      | some (.createGroup groupName) => (s.groupMng.createGroup groupName al).2.2.1
      | some (.joinGroup groupName) => (s.groupMng.joinGroup groupName).2.2
      | _ => s.groupMng

theorem leads_logoutLoop (l : List CStr) (m : GroupMng) (al : Alloc) (noted : List LeaveCall) :
    ∃ calls, (UserMng.logoutLoop noteImplicitLeave l ((m, al), noted)).2 = noted ++ calls ∧
      Leads m al calls (UserMng.logoutLoop onUserImplicitLeave l (m, al)).1 := by
  induction l generalizing m al noted with
  | nil => exact ⟨[], (List.append_nil noted).symm, .nil m al⟩
  | cons g l ih =>
    obtain ⟨calls, hnoted, hleads⟩ :=
      ih (m.leaveGroup g al).2.1 (m.leaveGroup g al).2.2 (noted ++ [(m, g)])
    exact ⟨(m, g) :: calls, hnoted.trans (List.append_cons noted (m, g) calls).symm, .cons g hleads⟩

theorem leads_logout (s : ServerMng) (fd : Int) (al : Alloc) :
    Leads s.groupMng al (s.logoutCalls fd al)
      (s.userMng.logout fd onUserImplicitLeave (s.groupMng, al)).2.2.1 := by
  rw [logoutCalls, UserMng.logout, UserMng.logout]
  split
  · exact .nil _ _
  split
  · exact .nil _ _
  · next user _ =>
    obtain ⟨calls, hnoted, hleads⟩ :=
      leads_logoutLoop (s.userMng.usersByName.heap user).joinedGroups s.groupMng al []
    rw [List.nil_append] at hnoted
    exact hnoted ▸ hleads

theorem leads_createGroup (s : ServerMng) (fd : Int) {msg : List UInt8} (al : Alloc) {g : CStr}
    (hp : Request.parse msg = some (.createGroup g)) :
    ∃ al', Leads (if s.userMng.isLoggedIn fd = false then s.groupMng
        else (s.groupMng.createGroup g al).2.2.1) al' (s.createCalls fd g al)
      (s.handleCreateGroupReq fd msg al).1.groupMng := by
  obtain ⟨name, hdec, rfl⟩ := decode_of_parse hp (.inl rfl)
  rw [createCalls, handleCreateGroupReq, hdec]
  by_cases hlog : s.userMng.isLoggedIn fd = false
  · simp only [if_pos hlog]
    exact ⟨al, .nil _ _⟩
  simp only [if_neg hlog]
  rcases s.groupMng.createGroup (CStr.ofBuffer name) al with ⟨st, _ | p, m, al₁⟩
  · cases st <;> exact ⟨al₁, .nil _ _⟩
  · cases st
    case ok =>
      simp only
      rcases s.userMng.joinGroup fd (CStr.ofBuffer name) al₁ with ⟨st', m', al₂⟩
      cases st'
      case ok => exact ⟨al₁, .nil _ _⟩
      all_goals exact ⟨al₂, .cons _ (.nil _ _)⟩
    all_goals exact ⟨al₁, .nil _ _⟩

theorem leads_joinGroup (s : ServerMng) (fd : Int) {msg : List UInt8} (al : Alloc) {g : CStr}
    (hp : Request.parse msg = some (.joinGroup g)) :
    ∃ al', Leads (if s.userMng.isLoggedIn fd = false then s.groupMng
        else (s.groupMng.joinGroup g).2.2) al' (s.joinCalls fd g al)
      (s.handleJoinGroupReq fd msg al).1.groupMng := by
  obtain ⟨name, hdec, rfl⟩ := decode_of_parse hp (.inr (.inl rfl))
  rw [joinCalls, handleJoinGroupReq, hdec]
  by_cases hlog : s.userMng.isLoggedIn fd = false
  · simp only [if_pos hlog]
    exact ⟨al, .nil _ _⟩
  simp only [if_neg hlog]
  rcases s.groupMng.joinGroup (CStr.ofBuffer name) with ⟨st, _ | p, m⟩
  · cases st <;> exact ⟨al, .nil _ _⟩
  · cases st
    case ok =>
      simp only
      rcases s.userMng.joinGroup fd (CStr.ofBuffer name) al with ⟨st', m', al₁⟩
      cases st'
      case ok => exact ⟨al, .nil _ _⟩
      all_goals exact ⟨al₁, .cons _ (.nil _ _)⟩
    all_goals exact ⟨al, .nil _ _⟩

theorem leads_leaveGroup (s : ServerMng) (fd : Int) {msg : List UInt8} (al : Alloc) {g : CStr}
    (hp : Request.parse msg = some (.leaveGroup g)) :
    Leads s.groupMng al (s.leaveGroupCalls fd g) (s.handleLeaveGroupReq fd msg al).1.groupMng := by
  obtain ⟨name, hdec, rfl⟩ := decode_of_parse hp (.inr (.inr rfl))
  rw [leaveGroupCalls, handleLeaveGroupReq, hdec]
  simp only
  rcases s.userMng.leaveGroup fd (CStr.ofBuffer name) with ⟨st, m⟩
  cases st
  case ok => exact .cons _ (.nil _ _)
  all_goals exact .nil _ _

/-- **The handlers make these calls**, and do nothing else to the group manager from `entered`
on. -/
theorem leads_leaveCalls (s : ServerMng) (e : Event) :
    ∃ al, Leads (s.entered e) al (s.leaveCalls e) (s.step e).1.groupMng := by
  cases e with
  | disconnect fd al => exact ⟨al, s.leads_logout fd al⟩
  | message fd msg al =>
    cases hp : Request.parse msg with
    | none =>
      rw [step_of_no_request s fd al hp, entered, leaveCalls, hp, ite_self]
      exact ⟨al, .nil _ _⟩
    | some r =>
      rw [step_eq_handler s fd al hp, entered, leaveCalls, hp]
      cases r with
      | register n p =>
        rw [ite_self, handler, handleRegisterReq]
        cases chatDecodeUserPass msg <;> exact ⟨al, .nil _ _⟩
      | login n p =>
        rw [ite_self, handler, handleLoginReq]
        cases chatDecodeUserPass msg <;> exact ⟨al, .nil _ _⟩
      | logout =>
        rw [ite_self]
        exact ⟨al, s.leads_logout fd al⟩
      | createGroup g => exact s.leads_createGroup fd al hp
      | joinGroup g => exact s.leads_joinGroup fd al hp
      | leaveGroup g =>
        rw [ite_self]
        exact ⟨al, s.leads_leaveGroup fd al hp⟩

/-! ## What each call finds -/

/-- What the code hopes for when it makes such a call: there is the group, it has a member to count
out, and should this be the last one there is room in the pool. -/
def LeaveCall.Sound (call : LeaveCall) : Prop :=
  (∃ gr, call.1.group call.2 = some gr ∧ 0 < gr.memberCount) ∧ call.1.free.length < 255

/-- A call on a manager that shows a service state with sound books. -/
theorem LeaveCall.sound_of_view {m : GroupMng} {c : Chat} {g : CStr} {gr : Group}
    (hgroup : m.group = c.group) (hfree : m.free.Sublist c.free) (haddr : c.Addresses)
    (hg : c.group g = some gr) (hpos : 0 < gr.memberCount) : LeaveCall.Sound (m, g) := by
  refine ⟨⟨gr, by rw [hgroup]; exact hg, hpos⟩, ?_⟩
  have hroom := haddr.length_lt (Chat.held_of_group hg)
  rw [length_mcastFill] at hroom
  exact Nat.lt_of_le_of_lt hfree.length_le hroom

/-- The logout loop: the books hold after each group left, so each call is sound. -/
theorem logoutLoop_sound {n : CStr} {u : User} (l : List CStr) {m : GroupMng} {c : Chat}
    (al : Alloc) (noted : List LeaveCall) (hgroup : m.group = c.group)
    (hfree : m.free.Sublist c.free) (hb : c.Books) (ha : c.Addresses) (hu : c.user n = some u)
    (hon : u.state = .online) (hl : u.joinedGroups = l) :
    ∀ call ∈ (UserMng.logoutLoop noteImplicitLeave l ((m, al), noted)).2,
      call ∈ noted ∨ call.Sound := by
  induction l generalizing m c u al noted with
  | nil => exact fun call hcall => .inl hcall
  | cons g l ih =>
    have hg : g ∈ c.joined n := by
      rw [Chat.joined_of_user hu, hl]
      exact List.mem_cons_self
    obtain ⟨gr, hgr⟩ := Option.ne_none_iff_exists'.mp (hb.filed hg)
    obtain ⟨-, hgroup', hfree', -⟩ := leaveGroup_refines g al hgroup hfree
    have hdrop : (u.dropGroup g).joinedGroups = l := by
      rw [User.dropGroup, hl, List.erase_cons_head]
    have haddr : (c.countOut g).Addresses := ha.lending (Chat.lending_countOut c g)
    intro call hcall
    rcases ih (c := Chat.leave n c g) (u := u.dropGroup g) (m.leaveGroup g al).2.2
        (noted ++ [(m, g)]) hgroup' hfree' (hb.dismiss hon hu hg (Chat.leave_user hu g) rfl)
        haddr (by rw [Chat.leave_user hu, Function.update_self]) hon hdrop call hcall
      with hmem | hsound
    · rcases List.mem_append.mp hmem with hmem | hmem
      · exact .inl hmem
      · rw [List.mem_singleton] at hmem
        exact .inr (hmem ▸ LeaveCall.sound_of_view hgroup hfree ha hgr (hb.pos hgr))
    · exact .inr hsound

section
variable {s : ServerMng} (h : s.Inv) (fd : Int) (al : Alloc)
include h

theorem logoutCalls_sound : ∀ call ∈ s.logoutCalls fd al, call.Sound := by
  intro call hcall
  rw [logoutCalls] at hcall
  cases hn : s.view.session fd with
  | none =>
    cases hfd : fdIndex fd with
    | none =>
      rw [UserMng.logout_of_badFd hfd] at hcall
      exact absurd hcall (by simp)
    | some i =>
      rw [Chat.session_of_fdIndex hfd] at hn
      rw [UserMng.logout_of_none hfd hn] at hcall
      exact absurd hcall (by simp)
  | some n =>
    obtain ⟨i, hfd, hs⟩ := Chat.session_eq_some_iff.mp hn
    obtain ⟨u, hu, hon, -⟩ := h.sessions.sock_iff.mp hs
    obtain ⟨m', hr, -, -⟩ := UserMng.logout_of_session hfd h.users
      noteImplicitLeave ((s.groupMng, al), []) hs hu
    rw [hr] at hcall
    rcases logoutLoop_sound (c := s.view) u.joinedGroups al [] rfl (List.Sublist.refl _) h.books
      h.addresses hu hon rfl call hcall with hmem | hsound
    · exact absurd hmem (by simp)
    · exact hsound

theorem createCalls_sound {g : CStr} (hlen : g.length ≤ chatMaxGroupnameLen) :
    ∀ call ∈ s.createCalls fd g al, call.Sound := by
  intro call hcall
  rw [createCalls] at hcall
  split at hcall
  · exact absurd hcall (by simp)
  split at hcall
  · next p m₁ al₁ hr =>
    -- a CREATE that has got this far had a free pair and an unused name
    cases hg : s.view.group g with
    | some gr =>
      rw [GroupMng.createGroup_of_exists al hg] at hr
      exact absurd (congrArg Prod.fst hr) (by simp)
    | none =>
      cases hfree : s.view.free with
      | nil =>
        rw [GroupMng.createGroup_of_exhausted al hg hfree] at hr
        exact absurd (congrArg Prod.fst hr) (by simp)
      | cons pair rest =>
        obtain ⟨p', m', al', hr', -, hgroup, hfree₁, -⟩ | ⟨m', al', hr', -⟩ :=
          GroupMng.createGroup_cases al hlen hg hfree
        · rw [hr'] at hr
          obtain rfl : m' = m₁ := congrArg (·.2.2.1) hr
          have hfound : s.view.Lending (s.view.found g) := by
            rw [Chat.found_of_cons hfree]
            exact .lent (g := g) (by rw [Chat.held, hg, Option.map_none]) hfree
              (Chat.held_update (x := some ⟨g, pair.ip, pair.port, 1⟩) rfl)
          have haddr := h.addresses.lending hfound
          rw [Chat.found_of_cons hfree] at haddr
          have hsound : LeaveCall.Sound (m', g) :=
            LeaveCall.sound_of_view hgroup (by rw [hfree₁]) haddr
              (Function.update_self ..) Nat.one_pos
          split at hcall
          · exact absurd hcall (by simp)
          · rw [List.mem_singleton.mp hcall]
            exact hsound
        · rw [hr'] at hr
          exact absurd (congrArg Prod.fst hr) (by simp)
  · exact absurd hcall (by simp)

theorem joinCalls_sound (g : CStr) : ∀ call ∈ s.joinCalls fd g al, call.Sound := by
  intro call hcall
  rw [joinCalls] at hcall
  split at hcall
  · exact absurd hcall (by simp)
  split at hcall
  · next p m₁ hr =>
    cases hg : s.view.group g with
    | none =>
      rw [GroupMng.joinGroup_of_none hg] at hr
      exact absurd (congrArg Prod.fst hr) (by simp)
    | some gr =>
      obtain ⟨p', m', hr', -, hgroup, hfree⟩ := GroupMng.joinGroup_of_some hg
      rw [hr'] at hr
      obtain rfl : m' = m₁ := congrArg (·.2.2) hr
      have haddr : Chat.Addresses { s.view with
          group := Function.update s.view.group g (some gr.countIn) } :=
        h.addresses.lending (.kept (Chat.held_update_same rfl hg (Group.pair_countIn gr)) rfl)
      split at hcall
      · exact absurd hcall (by simp)
      · rw [List.mem_singleton.mp hcall]
        exact LeaveCall.sound_of_view hgroup (by rw [hfree]; exact List.Sublist.refl _) haddr
          (Function.update_self ..) (by rw [Group.memberCount_countIn]; omega)
  · exact absurd hcall (by simp)

theorem leaveGroupCalls_sound (g : CStr) : ∀ call ∈ s.leaveGroupCalls fd g, call.Sound := by
  intro call hcall
  rw [leaveGroupCalls] at hcall
  split at hcall
  · next m' hr =>
    rw [List.mem_singleton.mp hcall]
    cases hfd : fdIndex fd with
    | none =>
      rw [UserMng.leaveGroup_of_badFd hfd] at hr
      exact absurd (congrArg Prod.fst hr) (by simp)
    | some i =>
      cases hs : s.view.sock i with
      | none =>
        rw [UserMng.leaveGroup_of_none hfd hs] at hr
        exact absurd (congrArg Prod.fst hr) (by simp)
      | some n =>
        obtain ⟨u, hu, -⟩ := h.sessions.sock_iff.mp hs
        by_cases hmem : g ∈ u.joinedGroups
        · rw [← Chat.joined_of_user hu] at hmem
          obtain ⟨gr, hgr⟩ := Option.ne_none_iff_exists'.mp (h.books.filed hmem)
          exact LeaveCall.sound_of_view (c := s.view) rfl (List.Sublist.refl _) h.addresses hgr
            (h.books.pos hgr)
        · rw [UserMng.leaveGroup_of_stranger hfd h.users hs hu hmem] at hr
          exact absurd (congrArg Prod.fst hr) (by simp)
  · exact absurd hcall (by simp)

/-- **Every call of `GroupMng_LeaveGroup` is sound.** -/
theorem leaveCalls_sound (e : Event) : ∀ call ∈ s.leaveCalls e, call.Sound := by
  intro call hcall
  cases e with
  | disconnect fd al => exact logoutCalls_sound h fd al call hcall
  | message fd msg al =>
    rw [leaveCalls] at hcall
    split at hcall
    · exact logoutCalls_sound h fd al call hcall
    · next g hp => exact createCalls_sound h fd al (Request.fits_of_parse hp) call hcall
    · exact joinCalls_sound h fd al _ call hcall
    · exact leaveGroupCalls_sound h fd _ call hcall
    · exact absurd hcall (by simp)

end

/-! ## Reading the books back -/

theorem mem_groups {s : ServerMng} {gr : Group} :
    gr ∈ s.groupMng.groupsByName.objs ↔ s.view.group gr.name = some gr :=
  Table.mem_objs

theorem mem_users {s : ServerMng} {u : User} :
    u ∈ s.userMng.usersByName.objs ↔ s.view.user u.username = some u :=
  Table.mem_objs

/-- The members of a group, counted over the users on file. -/
theorem countP_eq_ncard_members (s : ServerMng) (g : CStr) :
    s.userMng.usersByName.objs.countP (fun u => g ∈ u.joinedGroups) =
      (s.view.members g).ncard := by
  rw [(s.userMng.usersByName.countP_objs fun u => decide (g ∈ u.joinedGroups)).2]
  congr 1
  ext n
  rw [Set.mem_ofPred_eq, Chat.mem_members]
  constructor
  · rintro ⟨u, hu, hg⟩
    rw [Chat.joined_of_user (c := s.view) hu]
    exact of_decide_eq_true hg
  · intro hg
    cases hu : s.view.user n with
    | none =>
      rw [Chat.joined_of_none hu] at hg
      exact absurd hg (by simp)
    | some u =>
      rw [Chat.joined_of_user hu] at hg
      exact ⟨u, hu, decide_eq_true hg⟩

/-- A LEAVE is refused for what the user manager says, never for what the group manager says. -/
theorem verdict_leaveGroup_ne (c : Chat) (fd : Int) (g : CStr) :
    c.verdict fd (.leaveGroup g) ≠ .errGroupNotFound := by
  rw [Chat.verdict]
  split
  · simp
  split
  · simp
  split <;> simp

/-- A LEAVE is answered, and not with *group not found*; where there is nobody to answer, nothing is
sent. -/
theorem answer_leaveGroup_ne {s : ServerMng} (h : s.Inv) {fd : Int} {msg : List UInt8} {g : CStr}
    (al : Alloc) (hp : Request.parse msg = some (.leaveGroup g)) :
    (0 ≤ fd → ∃ st, answer fd .leaveGroupRep (s.step (.message fd msg al)).2 = some st ∧
      st ≠ .errGroupNotFound) ∧
    (fd < 0 → (s.step (.message fd msg al)).2 = []) := by
  have hstep := step_refines h (.message fd msg al)
  generalize (s.step (.message fd msg al)).1.view = c' at hstep
  generalize (s.step (.message fd msg al)).2 = sent at hstep ⊢
  have hstatus : ∀ st : ChatStatus, st.Named → st ≠ .errGroupNotFound →
      (0 ≤ fd → ∃ st', answer fd .leaveGroupRep (sendStatus fd .leaveGroupRep st) = some st' ∧
        st' ≠ .errGroupNotFound) ∧
      (fd < 0 → sendStatus fd .leaveGroupRep st = []) :=
    fun st hnamed hne =>
      ⟨fun hfd => ⟨st, answer_sendStatus hfd _ hnamed, hne⟩, fun hfd => sendStatus_of_neg hfd _ _⟩
  cases hstep with
  | dropped hnone =>
    rw [hp] at hnone
    exact absurd hnone (by simp)
  | served hr ho =>
    rw [hp, Option.some_inj] at hr
    subst hr
    cases ho with
    | refused hv => exact hstatus _ (s.view.verdict_named fd _) (verdict_leaveGroup_ne _ _ _)
    | granted hv hloss hal => exact hstatus .ok (by intro code; simp) (by simp)
    | failed hv hal hfree hst =>
      refine hstatus _ ?_ ?_ <;> rcases hst with rfl | rfl
      · intro code; simp
      · intro code; simp
      · simp
      · simp

/-- The creator of a group is not in it already. -/
theorem joinGroup_of_created {s : ServerMng} (h : s.Inv) {fd : Int} {g : CStr} {al al' : Alloc}
    {p : Ptr} {gm : GroupMng} (hc : s.groupMng.createGroup g al = (.ok, some p, gm, al')) :
    (s.userMng.joinGroup fd g al').1 ≠ .errAlreadyInGroup := by
  have hg : s.view.group g = none := by
    cases hg : s.view.group g with
    | none => rfl
    | some gr =>
      rw [GroupMng.createGroup_of_exists al hg] at hc
      exact absurd (congrArg Prod.fst hc) (by simp)
  rw [UserMng.joinGroup]
  split
  · simp
  next i hfd =>
  split
  · simp
  next user hact =>
  have hs : s.view.sock i = some (s.userMng.usersByName.heap user).username := by
    show s.userMng.sock i = _
    rw [UserMng.sock, hact, Option.map_some]
  obtain ⟨u, hu, -⟩ := h.sessions.sock_iff.mp hs
  obtain ⟨q, hq, -, rfl⟩ := UserMng.exists_session h.users hs hu
  rw [hact, Option.some_inj] at hq
  subst hq
  rw [if_neg fun hmem => h.books.filed (by rw [Chat.joined_of_user hu]; exact hmem) hg]
  split
  · simp
  split <;> simp

/-! ## No failure -/

/-- With no allocation failure the server comes up, with all 255 pairs in the pool. -/
theorem init_noFailure : ∃ s, init [] = some s ∧ s.view.free = mcastFill := by
  obtain ⟨q, hq, hlist⟩ := FreeMcQueue.create_noFailure
  have hgroups : ∃ t : Table Group.name, Table.create [] = (some t, []) :=
    ⟨_, Prod.ext (Option.some_get (by decide +kernel)).symm (by decide +kernel)⟩
  have husers : ∃ m, UserMng.create [] = (some m, []) :=
    ⟨_, Prod.ext (Option.some_get (by decide +kernel)).symm (by decide +kernel)⟩
  obtain ⟨t, ht⟩ := hgroups
  obtain ⟨m, hm⟩ := husers
  refine ⟨⟨m, ⟨t, q⟩⟩, ?_, hlist⟩
  rw [init, hq]
  simp only [GroupMng.create, malloc_nil, ht, hm]

theorem conserved_reachable {s₀ : ServerMng} (h₀ : init [] = some s₀) {es : List Event}
    (hes : ∀ e ∈ es, e.alloc = []) : (s₀.run es).view.Conserved := by
  have hstart : s₀.view.Conserved := by
    obtain ⟨s, hs, hfree⟩ := init_noFailure
    rw [h₀, Option.some_inj] at hs
    subst hs
    rw [Chat.Conserved, hfree]
    exact fun a ha => .inl ha
  have hboth : (s₀.run es).Inv ∧ (s₀.run es).view.Conserved :=
    Machine.run_invariant (P := fun s : ServerMng => s.Inv ∧ s.view.Conserved)
      (fun s e he hs => ⟨hs.1.step e, hs.2.step he (step_refines hs.1 e)⟩) hes
      ⟨inv_init h₀, hstart⟩
  exact hboth.2

/-- The pairs of the live groups, as the service holds them. -/
theorem mem_pairs {s : ServerMng} (p : McastPair) :
    p ∈ s.groupMng.groupsByName.objs.map Group.pair ↔ ∃ g, s.view.held g = some p := by
  rw [List.mem_map]
  constructor
  · rintro ⟨gr, hgr, rfl⟩
    exact ⟨gr.name, Chat.held_of_group (mem_groups.mp hgr)⟩
  · rintro ⟨g, hg⟩
    obtain ⟨gr, hgr, rfl⟩ := Chat.held_eq_some_iff.mp hg
    exact ⟨gr, mem_groups.mpr (by rw [GroupMng.name_of_group hgr]; exact hgr), rfl⟩

/-- No two live groups share a pair. -/
theorem Inv.pair_inj {s : ServerMng} (h : s.Inv) {gr gr' : Group}
    (hgr : gr ∈ s.groupMng.groupsByName.objs) (hgr' : gr' ∈ s.groupMng.groupsByName.objs)
    (hp : gr.pair = gr'.pair) : gr = gr' := by
  have h1 := mem_groups.mp hgr
  have h2 := mem_groups.mp hgr'
  have hname := h.addresses.held_inj (Chat.held_of_group h1) (hp ▸ Chat.held_of_group h2)
  rw [hname, h2, Option.some_inj] at h1
  exact h1.symm

/-- Pool and live groups together hold the stock. -/
theorem pairs_perm {s : ServerMng} (h : s.Inv) {all : List McastPair} (hall : all.Nodup)
    (ho : Ownership.Owned all s.view.free s.view.held)
    (hc : Ownership.Complete all s.view.free s.view.held) :
    (s.groupMng.free ++ s.groupMng.groupsByName.objs.map Group.pair).Perm all := by
  refine Ownership.perm_of_complete ho hc hall ?_ mem_pairs
  exact List.Nodup.map_on (fun g hg g' hg' hp => h.pair_inj hg hg' hp) (Table.nodup_objs _)

theorem length_free_add_groups {s : ServerMng} (h : s.Inv) (hc : s.view.Conserved) :
    s.view.free.length + s.groupMng.groupsByName.objs.length = 255 := by
  have hlen := (pairs_perm h nodup_mcastFill h.addresses hc).length_eq
  rwa [List.length_append, List.length_map, length_mcastFill] at hlen

end ServerMng

/-! ## The theorems -/

open ServerMng

/-- **Membership counters.**  In every state that any run reaches, with any bytes on any descriptors
and any allocation failures: a group's count is the number of users that have it on their list, and
is at least one; every name on a list is that of a group; no list has a name twice; an offline
user's list is empty.  So every LEAVE has an answer that is not *group not found*, no call of
`GroupMng_LeaveGroup` finds the count at zero, and the creator of a group is never in it already. -/
theorem membership_counters {al : Alloc} {s₀ : ServerMng} (h₀ : ServerMng.init al = some s₀)
    (es : List Event) :
    let s := s₀.run es
    (∀ g ∈ s.groupMng.groupsByName.objs,
      g.memberCount = s.userMng.usersByName.objs.countP (fun u => g.name ∈ u.joinedGroups) ∧
        1 ≤ g.memberCount) ∧
    (∀ u ∈ s.userMng.usersByName.objs,
      (∀ name ∈ u.joinedGroups, ∃ g ∈ s.groupMng.groupsByName.objs, g.name = name) ∧
        u.joinedGroups.Nodup ∧ (u.state = .offline → u.joinedGroups = [])) ∧
    (∀ (fd : Int) (msg : List UInt8) (g : CStr) (al : Alloc),
      Request.parse msg = some (.leaveGroup g) →
        (0 ≤ fd → ∃ st, answer fd .leaveGroupRep (s.step (.message fd msg al)).2 = some st ∧
          st ≠ .errGroupNotFound) ∧
        (fd < 0 → (s.step (.message fd msg al)).2 = [])) ∧
    (∀ (e : Event), ∀ call ∈ s.leaveCalls e,
      ∃ g, call.1.group call.2 = some g ∧ 0 < g.memberCount) ∧
    (∀ (fd : Int) (g : CStr) (al al' : Alloc) (p : Ptr) (gm : GroupMng),
      s.userMng.isLoggedIn fd = true → s.groupMng.createGroup g al = (.ok, some p, gm, al') →
        (s.userMng.joinGroup fd g al').1 ≠ .errAlreadyInGroup) := by
  intro s
  have h : s.Inv := inv_reachable h₀ es
  refine ⟨fun g hg => ?_, fun u hu => ⟨fun name hname => ?_, ?_, ?_⟩, ?_, ?_, ?_⟩
  · have hgroup := mem_groups.mp hg
    rw [countP_eq_ncard_members, ← h.books.count hgroup]
    exact ⟨rfl, h.books.pos hgroup⟩
  · have hfiled : s.view.group name ≠ none := by
      refine h.books.filed (n := u.username) ?_
      rw [Chat.joined_of_user (mem_users.mp hu)]
      exact hname
    obtain ⟨gr, hgr⟩ := Option.ne_none_iff_exists'.mp hfiled
    have hgn : gr.name = name := h.books.name hgr
    exact ⟨gr, mem_groups.mpr (by rw [hgn]; exact hgr), hgn⟩
  · rw [← Chat.joined_of_user (mem_users.mp hu)]
    exact h.books.nodup u.username
  · exact h.books.offline (mem_users.mp hu)
  · exact fun fd msg g al hp => answer_leaveGroup_ne h al hp
  · exact fun e call hcall => (leaveCalls_sound h e call hcall).1
  · exact fun fd g al al' p gm _ hc => joinGroup_of_created h hc

/-- The user `a` registers, logs in on descriptor 4 and founds the group `g`. -/
def firstGroup : List Event :=
  [.message 4 [1, 4, 1, 97, 1, 98] [], .message 4 [3, 4, 1, 97, 1, 98] [],
    .message 4 [7, 2, 1, 103] []]

/-- Then `a` founds the group `h` as well, and `b` registers, logs in on descriptor 5 and joins
`g`. -/
def sharedGroup : List Event :=
  firstGroup ++ [.message 4 [7, 2, 1, 104] [], .message 5 [1, 4, 1, 98, 1, 99] [],
    .message 5 [3, 4, 1, 98, 1, 99] [], .message 5 [9, 2, 1, 103] []]

theorem membership_counters_firstGroup :
    ∃ s₀, ServerMng.init [] = some s₀ ∧
      (s₀.run firstGroup).groupMng.groupsByName.objs.map Group.memberCount = [1] ∧
      ∀ g ∈ (s₀.run firstGroup).groupMng.groupsByName.objs,
        g.memberCount = (s₀.run firstGroup).userMng.usersByName.objs.countP
          (fun u => g.name ∈ u.joinedGroups) ∧ 1 ≤ g.memberCount := by
  have hrun : (ServerMng.init []).map (fun s =>
      (s.run firstGroup).groupMng.groupsByName.objs.map Group.memberCount) = some [1] := by
    decide +kernel
  obtain ⟨s₀, h₀, hcount⟩ := Option.map_eq_some_iff.mp hrun
  exact ⟨s₀, h₀, hcount, (membership_counters h₀ firstGroup).1⟩

/-- **Address conservation.**  In every state that a run without allocation failure reaches, the
pairs in the pool and the pairs of the live groups are together, as a multiset, the 255 distinct
pairs the pool was filled with.  So no two live groups share a pair, a pair that comes back always
finds room, and CREATE is refused for want of a pair exactly when 255 groups are live. -/
theorem address_conservation {s₀ : ServerMng} (h₀ : ServerMng.init [] = some s₀)
    {es : List Event} (hes : ∀ e ∈ es, e.alloc = []) :
    let s := s₀.run es
    (s₀.groupMng.free = mcastFill ∧ mcastFill.Nodup ∧ mcastFill.length = 255) ∧
    (s.groupMng.free ++ s.groupMng.groupsByName.objs.map Group.pair).Perm mcastFill ∧
    (∀ g ∈ s.groupMng.groupsByName.objs, ∀ g' ∈ s.groupMng.groupsByName.objs,
      g.pair = g'.pair → g = g') ∧
    (∀ (e : Event), ∀ call ∈ s.leaveCalls e, ∀ pair,
      (call.1.ipPool.giveBack pair []).1 = true) ∧
    (∀ (fd : Int) (msg : List UInt8) (g : CStr), s.userMng.isLoggedIn fd = true →
      Request.parse msg = some (.createGroup g) → s.groupMng.group g = none →
        ∃ st, answer fd .createGroupRep (s.step (.message fd msg [])).2 = some st ∧
          (st = .errServerFull ↔ s.groupMng.groupsByName.objs.length = 255)) := by
  intro s
  have h : s.Inv := inv_reachable h₀ es
  have hc : s.view.Conserved := conserved_reachable h₀ hes
  refine ⟨⟨?_, nodup_mcastFill, length_mcastFill⟩, pairs_perm h nodup_mcastFill h.addresses hc,
    fun g hg g' hg' hp => h.pair_inj hg hg' hp, ?_, ?_⟩
  · obtain ⟨s', hs', hfree⟩ := init_noFailure
    rw [h₀, Option.some_inj] at hs'
    rw [hs']
    exact hfree
  · exact fun e call hcall pair =>
      (FreeMcQueue.toList_giveBack pair (leaveCalls_sound h e call hcall).2 rfl).1
  · intro fd msg g hlog hp hg
    rw [isLoggedIn_eq_session, Option.isSome_iff_exists] at hlog
    obtain ⟨n, hn⟩ := hlog
    have hfd0 : 0 ≤ fd := Chat.nonneg_of_session hn
    have hunused : s.view.group g = none := hg
    have hlen := length_free_add_groups h hc
    refine ⟨_, answer_message h hfd0 hp, ?_⟩
    rw [Chat.verdict, if_neg (by rw [hn]; exact Option.some_ne_none n),
      if_neg (not_not_intro hunused)]
    cases hfree : s.view.free with
    | nil =>
      rw [hfree, List.length_nil, Nat.zero_add] at hlen
      simpa using hlen
    | cons pair rest =>
      rw [hfree, List.length_cons] at hlen
      rw [if_neg (List.cons_ne_nil pair rest)]
      simp only [reduceCtorEq, false_iff]
      omega

theorem address_conservation_firstGroup :
    ∃ s₀, ServerMng.init [] = some s₀ ∧
      (s₀.run firstGroup).groupMng.groupsByName.objs.map Group.pair = [mcastPair 1] ∧
      ((s₀.run firstGroup).groupMng.free ++
        (s₀.run firstGroup).groupMng.groupsByName.objs.map Group.pair).Perm mcastFill := by
  have hrun : (ServerMng.init []).map (fun s =>
      (s.run firstGroup).groupMng.groupsByName.objs.map Group.pair) = some [mcastPair 1] := by
    decide +kernel
  obtain ⟨s₀, h₀, hpair⟩ := Option.map_eq_some_iff.mp hrun
  have hes : ∀ e ∈ firstGroup, e.alloc = [] := by decide
  exact ⟨s₀, h₀, hpair, (address_conservation h₀ hes).2.1⟩

end ChatProject
