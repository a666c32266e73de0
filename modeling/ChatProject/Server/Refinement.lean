import ChatProject.Service.Replies

/-!
# The server refines the service

`ServerMng.view` forgets the hash maps, the pointers and the ring buffer.  In every state that keeps
the invariants, each call on the server is a step of the service of `Service/Chat.lean`
(`ServerMng.step_refines`), for every descriptor, every frame and every pattern of allocation
failures.

Two things make this more than a matching of branches.  JOIN counts a member in before it looks for
a duplicate, and undoes that by a function that can also destroy the group: the undo is exact
because a group that exists has a member already (`Chat.Books.pos`).  A pair that comes back finds
room in the ring buffer because a pair that is out is not in it (`Ownership.Owned.length_lt`).
-/

set_option autoImplicit false

namespace ChatProject

namespace ServerMng

/-- The service a server state stands for. -/
def view (s : ServerMng) : Chat :=
  ⟨s.userMng.user, s.userMng.sock, s.groupMng.group, s.groupMng.free⟩

/-- What holds in every state of the server. -/
structure Inv (s : ServerMng) : Prop where
  /-- The session index. -/
  users : s.userMng.Inv
  /-- Counts and lists agree. -/
  books : s.view.Books
  /-- No address is in two places. -/
  addresses : s.view.Addresses

theorem Inv.sessions {s : ServerMng} (h : s.Inv) : s.view.Sessions where
  username hu := UserMng.username_of_user hu
  sock_iff := UserMng.sock_eq_some_iff h.users
  online hu hon := by
    obtain ⟨p, hp, rfl⟩ := Table.exists_find_of_lookup hu
    obtain ⟨i, hi⟩ := h.users.online_fd hp hon
    exact ⟨i, (UserMng.sock_eq_some_iff h.users).mpr ⟨_, hu, hon, hi⟩⟩

theorem view_eq {s : ServerMng} {c : Chat} (hu : s.userMng.user = c.user)
    (hs : s.userMng.sock = c.sock) (hg : s.groupMng.group = c.group)
    (hf : s.groupMng.free = c.free) : s.view = c := by
  rw [view, hu, hs, hg, hf]

theorem isLoggedIn_eq_session (s : ServerMng) (fd : Int) :
    s.userMng.isLoggedIn fd = (s.view.session fd).isSome := by
  cases hfd : fdIndex fd with
  | none => rw [UserMng.isLoggedIn_of_badFd hfd, Chat.session_of_badFd hfd, Option.isSome_none]
  | some i => rw [UserMng.isLoggedIn_eq hfd, Chat.session_of_fdIndex hfd]; rfl

/-! ## The group manager's half -/

/-- **Counting a member out** is the service's move, up to a pair lost to a failed allocation; and
no pair is lost when none fails. -/
theorem leaveGroup_refines {m : GroupMng} {c : Chat} (g : CStr) (al : Alloc)
    (hgroup : m.group = c.group) (hfree : m.free.Sublist c.free) :
    (m.leaveGroup g al).1 = (if c.group g = none then .errGroupNotFound else .ok) ∧
      (m.leaveGroup g al).2.1.group = (c.countOut g).group ∧
      (m.leaveGroup g al).2.1.free.Sublist (c.countOut g).free ∧
      (al = [] → c.Addresses → m.free = c.free →
        (m.leaveGroup g al).2.1.free = (c.countOut g).free ∧ (m.leaveGroup g al).2.2 = []) := by
  cases hg : c.group g with
  | none =>
    rw [GroupMng.leaveGroup_of_none al (hgroup ▸ hg), Chat.countOut_of_none hg]
    exact ⟨rfl, hgroup, hfree, fun hal _ heq => ⟨heq, hal⟩⟩
  | some gr =>
    have hmg : m.group g = some gr := hgroup ▸ hg
    rw [if_neg (Option.some_ne_none gr)]
    by_cases hle : gr.memberCount ≤ 1
    · obtain ⟨m', al', h, hgroup', hfree', hexact⟩ := GroupMng.leaveGroup_of_last al hmg hle
      rw [h, Chat.countOut_of_last hg hle]
      refine ⟨rfl, hgroup ▸ hgroup', ?_, ?_⟩
      · rcases hfree' with heq | heq
        · exact heq ▸ hfree.trans (List.sublist_append_left _ _)
        · exact heq ▸ hfree.append (List.Sublist.refl _)
      · intro hal haddr heq
        have hroom := haddr.length_lt (Chat.held_of_group hg)
        rw [length_mcastFill, ← heq] at hroom
        subst hal
        obtain ⟨hf, hal'⟩ := hexact rfl hroom
        exact ⟨by rw [hf, heq], hal'⟩
    · obtain ⟨m', h, hgroup', hfree'⟩ := GroupMng.leaveGroup_of_many al hmg (by omega)
      rw [h, Chat.countOut_of_many hg (by omega)]
      exact ⟨rfl, hgroup ▸ hgroup', hfree' ▸ hfree, fun hal _ heq => ⟨hfree' ▸ heq, hal⟩⟩

/-- The logout loop: the same for a whole list of groups. -/
theorem logoutLoop_refines (l : List CStr) {m : GroupMng} {c : Chat} (al : Alloc)
    (hgroup : m.group = c.group) (hfree : m.free.Sublist c.free) :
    (UserMng.logoutLoop onUserImplicitLeave l (m, al)).1.group = (l.foldl Chat.countOut c).group ∧
      (UserMng.logoutLoop onUserImplicitLeave l (m, al)).1.free.Sublist
        (l.foldl Chat.countOut c).free ∧
      (al = [] → c.Addresses → m.free = c.free →
        (UserMng.logoutLoop onUserImplicitLeave l (m, al)).1.free =
          (l.foldl Chat.countOut c).free) := by
  induction l generalizing m c al with
  | nil => exact ⟨hgroup, hfree, fun _ _ heq => heq⟩
  | cons g l ih =>
    obtain ⟨-, hgroup', hfree', hexact⟩ := leaveGroup_refines g al hgroup hfree
    obtain ⟨h1, h2, h3⟩ := ih (m.leaveGroup g al).2.2 hgroup' hfree'
    refine ⟨h1, h2, fun hal haddr heq => ?_⟩
    obtain ⟨hf, hal'⟩ := hexact hal haddr heq
    exact h3 hal' (haddr.lending (Chat.lending_countOut c g)) hf

/-! CREATE and JOIN change the group first and the list of the user second, and when the second
fails they undo the first. -/

section
variable {s : ServerMng} {fd : Int} {n g : CStr} {u : User} {gr : Group} {pair : McastPair}
  {rest : List McastPair} {m₁ : GroupMng} {m₂ : UserMng}

theorem view_createGroup (hn : s.view.session fd = some n) (hu : s.view.user n = some u)
    (hfree : s.view.free = pair :: rest)
    (hgroup : m₁.group = Function.update s.view.group g (some ⟨g, pair.ip, pair.port, 1⟩))
    (hfree₁ : m₁.free = rest)
    (huser : m₂.user = Function.update s.view.user n (some (u.addGroup g)))
    (hsock : m₂.sock = s.view.sock) : view ⟨m₂, m₁⟩ = s.view.grant fd (.createGroup g) := by
  rw [Chat.grant_createGroup hn]
  refine view_eq ?_ ?_ ?_ ?_
  · rw [Chat.editUser_user (u := u) (by rw [Chat.found_user, hu]), Chat.found_user]
    exact huser
  · rw [Chat.editUser_sock, Chat.found_sock]
    exact hsock
  · rw [Chat.editUser_group, Chat.found_of_cons hfree]
    exact hgroup
  · rw [Chat.editUser_free, Chat.found_of_cons hfree]
    exact hfree₁

theorem view_joinGroup (hn : s.view.session fd = some n) (hu : s.view.user n = some u)
    (hg : s.view.group g = some gr)
    (hgroup : m₁.group = Function.update s.view.group g (some gr.countIn))
    (hfree₁ : m₁.free = s.view.free)
    (huser : m₂.user = Function.update s.view.user n (some (u.addGroup g)))
    (hsock : m₂.sock = s.view.sock) : view ⟨m₂, m₁⟩ = s.view.grant fd (.joinGroup g) := by
  rw [Chat.grant_joinGroup hn, Chat.countIn_of_some hg]
  exact view_eq (huser.trans (Chat.editUser_user (c := { s.view with group := _ }) hu
    (User.addGroup g)).symm) hsock hgroup hfree₁

/-- The undo of CREATE strikes the group out again, and its address comes last or is lost. -/
theorem view_undo_createGroup (hg : s.view.group g = none)
    (hgroup : m₁.group = Function.update s.view.group g (some ⟨g, pair.ip, pair.port, 1⟩))
    (al : Alloc) :
    ∃ free, view ⟨s.userMng, (m₁.leaveGroup g al).2.1⟩ = { s.view with free := free } ∧
      (free = m₁.free ∨ free = m₁.free ++ [pair]) := by
  have hg₁ : m₁.group g = some ⟨g, pair.ip, pair.port, 1⟩ := by rw [hgroup, Function.update_self]
  obtain ⟨m₃, al₃, hl, hgroup₃, hfree₃, -⟩ := GroupMng.leaveGroup_of_last al hg₁ (Nat.le_refl 1)
  refine ⟨m₃.free, ?_, hfree₃⟩
  rw [hl]
  refine view_eq rfl rfl ?_ rfl
  rw [hgroup₃, hgroup, Function.update_idem]
  exact Function.update_eq_iff.mpr ⟨hg.symm, fun _ _ => rfl⟩

/-- The undo of JOIN gives back exactly the group there was. -/
theorem view_undo_joinGroup (hg : s.view.group g = some gr) (hpos : 1 ≤ gr.memberCount)
    (hgroup : m₁.group = Function.update s.view.group g (some gr.countIn))
    (hfree₁ : m₁.free = s.view.free) (al : Alloc) :
    view ⟨s.userMng, (m₁.leaveGroup g al).2.1⟩ = s.view := by
  have hg₁ : m₁.group g = some gr.countIn := by rw [hgroup, Function.update_self]
  obtain ⟨m₃, hl, hgroup₃, hfree₃⟩ := GroupMng.leaveGroup_of_many al hg₁
    (by rw [Group.memberCount_countIn]; omega)
  rw [hl]
  refine view_eq rfl rfl ?_ (hfree₃.trans hfree₁)
  rw [hgroup₃, hgroup, Function.update_idem, Group.countOut_countIn]
  exact Function.update_eq_iff.mpr ⟨hg.symm, fun _ _ => rfl⟩

/-- The reply is written from the group that the handler has at hand. -/
theorem announce_of_find {p : Ptr} (hfind : m₁.groupsByName.find g = some p) (op : ChatOpcode) :
    (view ⟨m₂, m₁⟩).announce op g = chatEncodeGroupRepOk op (m₁.groupsByName.heap p).mcastIp
      (m₁.groupsByName.heap p).mcastPort := by
  have hgm : (view ⟨m₂, m₁⟩).group g = some (m₁.groupsByName.heap p) :=
    GroupMng.group_of_find hfind
  rw [Chat.announce, hgm, Option.bind_some]

end

/-! ## The handlers -/

section
variable {s : ServerMng} (h : s.Inv) (fd : Int) (al : Alloc)
include h

theorem handleRegisterReq_refines {msg user pass : List UInt8}
    (hdec : chatDecodeUserPass msg = .ok (user, pass)) :
    s.view.Outcome fd al (.register (CStr.ofBuffer user) (CStr.ofBuffer pass))
      (s.handleRegisterReq fd msg al).1.view (s.handleRegisterReq fd msg al).2 := by
  obtain ⟨hul, hpl⟩ := length_of_chatDecodeUserPass hdec
  rw [handleRegisterReq, hdec]
  simp only
  cases hu : s.view.user (CStr.ofBuffer user) with
  | some u =>
    rw [UserMng.register_of_exists _ al hu]
    refine .of_verdict ?_ (by simp)
    rw [Chat.verdict, if_neg (by rw [hu]; exact Option.some_ne_none u)]
  | none =>
    have hv : s.view.verdict fd (.register (CStr.ofBuffer user) (CStr.ofBuffer pass)) = .ok :=
      Chat.verdict_register_eq_ok.mpr hu
    obtain ⟨m', al', hr, huser, hsock⟩ | ⟨m', al', hr, hal, huser, hsock⟩ :=
      UserMng.register_cases h.users al ((CStr.length_ofBuffer_le user).trans hul)
        ((CStr.length_ofBuffer_le pass).trans hpl) hu
    · rw [hr]
      exact .of_eq_grant hv (view_eq huser hsock rfl rfl)
    · rw [hr]
      have hview := view_eq (s := { s with userMng := m' }) (c := s.view) huser hsock rfl rfl
      simp only [hview]
      exact .failed hv hal (.inl rfl) (.inl rfl)

omit h in
theorem handleLoginReq_refines {msg user pass : List UInt8}
    (hdec : chatDecodeUserPass msg = .ok (user, pass)) :
    s.view.Outcome fd al (.login (CStr.ofBuffer user) (CStr.ofBuffer pass))
      (s.handleLoginReq fd msg).1.view (s.handleLoginReq fd msg).2 := by
  rw [handleLoginReq, hdec]
  simp only
  cases hfd : fdIndex fd with
  | none =>
    rw [UserMng.login_of_badFd hfd]
    refine .of_verdict ?_ (by simp)
    rw [Chat.verdict, hfd]
  | some i =>
    cases hs : s.view.sock i with
    | some n =>
      rw [UserMng.login_of_busy hfd hs]
      exact .of_verdict (Chat.verdict_login_of_busy hfd hs) (by simp)
    | none =>
      cases hu : s.view.user (CStr.ofBuffer user) with
      | none =>
        rw [UserMng.login_of_unknown hfd hs hu]
        exact .of_verdict (Chat.verdict_login_of_unknown hfd hs hu) (by simp)
      | some u =>
        have hknown := fun p => Chat.verdict_login_of_known (p := p) hfd hs hu
        by_cases hp : u.password = CStr.ofBuffer pass
        · cases hst : u.state with
          | online =>
            rw [UserMng.login_of_online hfd hs hu hp hst]
            refine .of_verdict ?_ (by simp)
            rw [hknown, if_neg (not_not_intro hp), if_pos hst]
          | offline =>
            have hv := Chat.verdict_login_eq_ok.mpr ⟨i, u, hfd, hs, hu, hp, hst⟩
            obtain ⟨m', hr, huser, hsock⟩ := UserMng.login_of_offline hfd hs hu hp hst
            rw [hr]
            refine .of_eq_grant hv ?_
            rw [Chat.grant, hfd]
            exact view_eq (huser.trans (Chat.editUser_user hu _).symm) hsock rfl rfl
        · rw [UserMng.login_of_badPassword hfd hs hu hp]
          refine .of_verdict ?_ (by simp)
          rw [hknown, if_pos hp]

omit h in
theorem onDisconnect_of_none {fd : Int} (hn : s.view.session fd = none) :
    s.onDisconnect fd al = s := by
  rw [onDisconnect, UserMng.disconnect]
  cases hfd : fdIndex fd with
  | none => rw [UserMng.logout_of_badFd hfd]
  | some i =>
    rw [Chat.session_of_fdIndex hfd] at hn
    rw [UserMng.logout_of_none hfd hn]

/-- **Ending a session.** -/
theorem onDisconnect_refines :
    (s.onDisconnect fd al).view.UpToLoss (s.view.hangUp fd) ∧
      (al = [] → (s.onDisconnect fd al).view = s.view.hangUp fd) := by
  cases hn : s.view.session fd with
  | none =>
    rw [onDisconnect_of_none al hn, Chat.hangUp_of_none hn]
    exact ⟨⟨rfl, rfl, rfl, List.Sublist.refl _⟩, fun _ => rfl⟩
  | some n =>
    obtain ⟨i, hfd, hs⟩ := Chat.session_eq_some_iff.mp hn
    obtain ⟨u, hu, -⟩ := h.sessions.sock_iff.mp hs
    obtain ⟨m', hr, huser, hsock⟩ := UserMng.logout_of_session hfd h.users
      onUserImplicitLeave (s.groupMng, al) hs hu
    obtain ⟨hgroup, hfree, hexact⟩ := logoutLoop_refines u.joinedGroups (m := s.groupMng)
      (c := s.view) al rfl (List.Sublist.refl _)
    have huser' : m'.user =
        ((u.joinedGroups.foldl Chat.countOut s.view).editUser n User.unbind).user := by
      rw [Chat.editUser_user (u := u) (by rw [Chat.foldl_countOut_user, hu]),
        Chat.foldl_countOut_user]
      exact huser
    rw [onDisconnect, UserMng.disconnect, hr, Chat.hangUp_of_session hfd hs,
      Chat.joined_of_user hu]
    exact ⟨⟨huser', hsock, hgroup, hfree⟩,
      fun hal => view_eq huser' hsock hgroup (hexact hal h.addresses rfl)⟩

theorem handleLogoutReq_eq :
    s.handleLogoutReq fd al =
      (s.onDisconnect fd al, sendStatus fd .logoutRep (s.view.verdict fd .logout)) := by
  have hst : (s.userMng.logout fd onUserImplicitLeave (s.groupMng, al)).1 =
      s.view.verdict fd .logout := by
    rw [Chat.verdict]
    cases hfd : fdIndex fd with
    | none => rw [UserMng.logout_of_badFd hfd]
    | some i =>
      cases hs : s.view.sock i with
      | none =>
        rw [UserMng.logout_of_none hfd hs]
        simp only [hs, if_true]
      | some n =>
        obtain ⟨u, hu, -⟩ := h.sessions.sock_iff.mp hs
        obtain ⟨m', hr, -⟩ := UserMng.logout_of_session hfd h.users
          onUserImplicitLeave (s.groupMng, al) hs hu
        rw [hr]
        simp only [hs]
        rw [if_neg (Option.some_ne_none n)]
  rw [← hst]
  rfl

theorem handleLogoutReq_refines :
    s.view.Outcome fd al .logout (s.handleLogoutReq fd al).1.view
      (s.handleLogoutReq fd al).2 := by
  obtain ⟨hloss, hexact⟩ := onDisconnect_refines h fd al
  rw [handleLogoutReq_eq h]
  by_cases hv : s.view.verdict fd .logout = .ok
  · rw [hv]
    exact .granted hv hloss fun hal => hexact (hal.resolve_right (not_not_intro trivial))
  · have hnone : s.view.session fd = none := by
      refine Option.eq_none_iff_forall_ne_some.mpr fun n hn => hv ?_
      obtain ⟨i, hfd, hi⟩ := Chat.session_eq_some_iff.mp hn
      exact Chat.verdict_logout_eq_ok.mpr ⟨i, n, hfd, hi⟩
    rw [onDisconnect_of_none al hnone]
    exact .refused hv

omit h in
/-- A CREATE that fails a check changes nothing. -/
theorem handleCreateGroupReq_of_refused {msg name : List UInt8}
    (hdec : chatDecodeGroupname msg = .ok name)
    (hv : s.view.verdict fd (.createGroup (CStr.ofBuffer name)) ≠ .ok) :
    s.handleCreateGroupReq fd msg al =
      (s, sendStatus fd .createGroupRep
        (s.view.verdict fd (.createGroup (CStr.ofBuffer name)))) := by
  rw [handleCreateGroupReq, hdec]
  simp only [isLoggedIn_eq_session]
  generalize CStr.ofBuffer name = g at hv ⊢
  cases hn : s.view.session fd with
  | none =>
    rw [if_pos (by simp), Chat.verdict, if_pos hn]
  | some n =>
    have hne : s.view.session fd ≠ none := by rw [hn]; exact Option.some_ne_none n
    rw [if_neg (by simp), Chat.verdict, if_neg hne]
    cases hg : s.view.group g with
    | some gr =>
      rw [GroupMng.createGroup_of_exists al hg, if_pos (Option.some_ne_none gr)]
    | none =>
      cases hfree : s.view.free with
      | nil => rw [GroupMng.createGroup_of_exhausted al hg hfree, if_neg (by simp), if_pos rfl]
      | cons pair rest =>
        exact absurd (Chat.verdict_createGroup_eq_ok.mpr ⟨n, pair, rest, hn, hg, hfree⟩) hv

/-- **Everything CREATE can do** when the name is unused and a pair is free: the group is founded,
or it is founded and taken back because the creator could not join, or it is not founded. -/
theorem handleCreateGroupReq_cases {msg name : List UInt8} {n : CStr} {pair : McastPair}
    {rest : List McastPair} (hdec : chatDecodeGroupname msg = .ok name)
    (hn : s.view.session fd = some n) (hg : s.view.group (CStr.ofBuffer name) = none)
    (hfree : s.view.free = pair :: rest) :
    (∃ m₁ m₂, view ⟨m₂, m₁⟩ = s.view.grant fd (.createGroup (CStr.ofBuffer name)) ∧
      s.handleCreateGroupReq fd msg al =
        (⟨m₂, m₁⟩, sendReply fd ((view ⟨m₂, m₁⟩).announce .createGroupRep (CStr.ofBuffer name)))) ∨
    (∃ p m₁ al₁ al₂,
      s.groupMng.createGroup (CStr.ofBuffer name) al = (.ok, some p, m₁, al₁) ∧
      s.userMng.joinGroup fd (CStr.ofBuffer name) al₁ = (.errServerFull, s.userMng, al₂) ∧
      m₁.group = Function.update s.view.group (CStr.ofBuffer name)
        (some ⟨CStr.ofBuffer name, pair.ip, pair.port, 1⟩) ∧ m₁.free = rest ∧ al ≠ [] ∧
      s.handleCreateGroupReq fd msg al =
        (⟨s.userMng, (m₁.leaveGroup (CStr.ofBuffer name) al₂).2.1⟩,
          sendStatus fd .createGroupRep .errServerFull)) ∨
    (∃ m₁ al₁, s.groupMng.createGroup (CStr.ofBuffer name) al = (.errProtocol, none, m₁, al₁) ∧
      m₁.group = s.view.group ∧ (m₁.free = rest ∨ m₁.free = rest ++ [pair]) ∧ al ≠ [] ∧
      s.handleCreateGroupReq fd msg al =
        ({ s with groupMng := m₁ }, sendStatus fd .createGroupRep .errProtocol)) := by
  have hlen := (CStr.length_ofBuffer_le name).trans (length_of_chatDecodeGroupname hdec)
  rw [handleCreateGroupReq, hdec]
  simp only [isLoggedIn_eq_session, hn]
  generalize CStr.ofBuffer name = g at hlen hg ⊢
  rw [if_neg (by simp)]
  obtain ⟨i, hfd, hs⟩ := Chat.session_eq_some_iff.mp hn
  obtain ⟨u, hu, -⟩ := h.sessions.sock_iff.mp hs
  have hnot : g ∉ u.joinedGroups := by
    rw [← Chat.joined_of_user hu]
    exact fun hmem => h.books.filed hmem hg
  obtain ⟨p, m₁, al₁, hr, hfind, hgroup, hfree₁, hnone⟩ | ⟨m₁, al₁, hr, hal, hgroup, hfree₁⟩ :=
    GroupMng.createGroup_cases al hlen hg hfree
  · rw [hr]
    simp only
    obtain ⟨m₂, al₂, hj, huser, hsock, -⟩ | ⟨al₂, hj, hal₂⟩ :=
      UserMng.joinGroup_cases hfd h.users al₁ hs hu hnot
    · rw [hj]
      refine .inl ⟨m₁, m₂, view_createGroup hn hu hfree hgroup hfree₁ huser hsock, ?_⟩
      rw [announce_of_find hfind]
    · rw [hj]
      exact .inr (.inl ⟨p, m₁, al₁, al₂, rfl, hj, hgroup, hfree₁, fun hnil => hal₂ (hnone hnil),
        rfl⟩)
  · rw [hr]
    exact .inr (.inr ⟨m₁, al₁, rfl, hgroup, hfree₁, hal, rfl⟩)

theorem handleCreateGroupReq_refines {msg name : List UInt8}
    (hdec : chatDecodeGroupname msg = .ok name) :
    s.view.Outcome fd al (.createGroup (CStr.ofBuffer name))
      (s.handleCreateGroupReq fd msg al).1.view (s.handleCreateGroupReq fd msg al).2 := by
  by_cases hv : s.view.verdict fd (.createGroup (CStr.ofBuffer name)) = .ok
  · obtain ⟨n, pair, rest, hn, hg, hfree⟩ := Chat.verdict_createGroup_eq_ok.mp hv
    obtain ⟨m₁, m₂, hview, hr⟩ | ⟨p, m₁, al₁, al₂, -, -, hgroup, hfree₁, hal, hr⟩ |
        ⟨m₁, al₁, -, hgroup, hfree₁, hal, hr⟩ := handleCreateGroupReq_cases h fd al hdec hn hg hfree
    · rw [hr, hview]
      exact .of_eq_grant hv rfl
    · obtain ⟨free, hundo, hlost⟩ := view_undo_createGroup hg hgroup al₂
      rw [hr, hundo]
      rw [hfree₁] at hlost
      exact .failed hv hal (.inr ⟨_, pair, rest, rfl, hfree, hlost⟩) (.inl rfl)
    · rw [hr, show view { s with groupMng := m₁ } = { s.view with free := m₁.free } from
        view_eq rfl rfl hgroup rfl]
      exact .failed hv hal (.inr ⟨_, pair, rest, rfl, hfree, hfree₁⟩) (.inr rfl)
  · rw [handleCreateGroupReq_of_refused fd al hdec hv]
    exact .refused hv

theorem handleJoinGroupReq_refines {msg name : List UInt8}
    (hdec : chatDecodeGroupname msg = .ok name) :
    s.view.Outcome fd al (.joinGroup (CStr.ofBuffer name))
      (s.handleJoinGroupReq fd msg al).1.view (s.handleJoinGroupReq fd msg al).2 := by
  rw [handleJoinGroupReq, hdec]
  simp only [isLoggedIn_eq_session]
  generalize CStr.ofBuffer name = g
  cases hn : s.view.session fd with
  | none =>
    rw [if_pos (by simp)]
    refine .of_verdict ?_ (by simp)
    rw [Chat.verdict, hn]
  | some n =>
    rw [if_neg (by simp)]
    cases hg : s.view.group g with
    | none =>
      rw [GroupMng.joinGroup_of_none hg]
      refine .of_verdict ?_ (by simp)
      rw [Chat.verdict, hn]
      simp only
      rw [if_pos hg]
    | some gr =>
      have hpos := h.books.pos hg
      obtain ⟨i, hfd, hs⟩ := Chat.session_eq_some_iff.mp hn
      obtain ⟨u, hu, -⟩ := h.sessions.sock_iff.mp hs
      obtain ⟨p, m₁, hr, hfind, hgroup, hfree₁⟩ := GroupMng.joinGroup_of_some hg
      rw [hr]
      simp only
      have hundo := view_undo_joinGroup hg hpos hgroup hfree₁
      by_cases hmem : g ∈ u.joinedGroups
      · rw [UserMng.joinGroup_of_member hfd h.users al hs hu hmem]
        simp only [hundo al]
        refine .of_verdict ?_ (by simp)
        rw [Chat.verdict, hn]
        simp only
        rw [if_neg (by rw [hg]; exact Option.some_ne_none gr), Chat.joined_of_user hu,
          if_pos hmem]
      · have hv := Chat.verdict_joinGroup_eq_ok.mpr
          ⟨n, gr, hn, hg, by rw [Chat.joined_of_user hu]; exact hmem⟩
        obtain ⟨m₂, al₂, hj, huser, hsock, -⟩ | ⟨al₂, hj, hal⟩ :=
          UserMng.joinGroup_cases hfd h.users al hs hu hmem
        · rw [hj]
          simp only
          have hview : view ⟨m₂, m₁⟩ = s.view.grant fd (.joinGroup g) :=
            view_joinGroup hn hu hg hgroup hfree₁ huser hsock
          rw [← announce_of_find hfind, hview]
          exact .of_eq_grant hv rfl
        · rw [hj]
          simp only [hundo al₂]
          exact .failed hv hal (.inl rfl) (.inl rfl)

theorem handleLeaveGroupReq_refines {msg name : List UInt8}
    (hdec : chatDecodeGroupname msg = .ok name) :
    s.view.Outcome fd al (.leaveGroup (CStr.ofBuffer name))
      (s.handleLeaveGroupReq fd msg al).1.view (s.handleLeaveGroupReq fd msg al).2 := by
  rw [handleLeaveGroupReq, hdec]
  simp only
  generalize CStr.ofBuffer name = g
  cases hfd : fdIndex fd with
  | none =>
    rw [UserMng.leaveGroup_of_badFd hfd]
    refine .of_verdict ?_ (by simp)
    rw [Chat.verdict, hfd]
  | some i =>
    cases hs : s.view.sock i with
    | none =>
      rw [UserMng.leaveGroup_of_none hfd hs]
      refine .of_verdict ?_ (by simp)
      rw [Chat.verdict, hfd]
      simp only [hs]
    | some n =>
      obtain ⟨u, hu, -⟩ := h.sessions.sock_iff.mp hs
      by_cases hmem : g ∈ u.joinedGroups
      · have hn : s.view.session fd = some n := (Chat.session_of_fdIndex hfd).trans hs
        have hjoined : g ∈ s.view.joined n := by rw [Chat.joined_of_user hu]; exact hmem
        have hv := Chat.verdict_leaveGroup_eq_ok.mpr ⟨n, hn, hjoined⟩
        obtain ⟨m₂, hr, huser, hsock⟩ := UserMng.leaveGroup_of_member hfd h.users hs hu hmem
        obtain ⟨hst, hgroup, hfree, hexact⟩ := leaveGroup_refines (m := s.groupMng)
          (c := s.view) g al rfl (List.Sublist.refl _)
        rw [if_neg (h.books.filed hjoined)] at hst
        have huser' : m₂.user = (s.view.grant fd (.leaveGroup g)).user := by
          rw [Chat.grant_leaveGroup hn, Chat.editUser_user (u := u)
            (by rw [Chat.countOut_user, hu]), Chat.countOut_user]
          exact huser
        have hsock' : m₂.sock = (s.view.grant fd (.leaveGroup g)).sock := by
          rw [Chat.grant_leaveGroup hn, Chat.editUser_sock, Chat.countOut_sock]
          exact hsock
        rw [← Chat.editUser_group (s.view.countOut g) n (User.dropGroup g),
          ← Chat.grant_leaveGroup hn] at hgroup
        rw [← Chat.editUser_free (s.view.countOut g) n (User.dropGroup g),
          ← Chat.grant_leaveGroup hn] at hfree hexact
        rw [hr]
        simp only [hst]
        refine .granted hv ⟨huser', hsock', hgroup, hfree⟩ fun hal => ?_
        have hnil : al = [] := hal.resolve_right (not_not_intro trivial)
        exact view_eq huser' hsock' hgroup (hexact hnil h.addresses rfl).1
      · rw [UserMng.leaveGroup_of_stranger hfd h.users hs hu hmem]
        refine .of_verdict ?_ (by simp)
        rw [Chat.verdict, hfd]
        simp only [hs]
        rw [Chat.joined_of_user hu, if_neg hmem]

end

/-! ## Whole calls -/

/-- A request with two strings, served or dropped by the same decoder. -/
theorem step_userPass {c c' : Chat} {fd : Int} {msg : List UInt8} {al : Alloc}
    {sent : List Packet} {make : CStr → CStr → Request}
    (hparse : Request.parse msg = Request.parseUserPass make msg)
    (herr : ∀ e, chatDecodeUserPass msg = .error e → c' = c ∧ sent = [])
    (hok : ∀ {user pass}, chatDecodeUserPass msg = .ok (user, pass) →
      c.Outcome fd al (make (CStr.ofBuffer user) (CStr.ofBuffer pass)) c' sent) :
    c.Step (.message fd msg al) c' sent := by
  rw [Request.parseUserPass] at hparse
  cases hdec : chatDecodeUserPass msg with
  | error e =>
    obtain ⟨rfl, rfl⟩ := herr e hdec
    exact .dropped (by rw [hparse, hdec])
  | ok up => exact .served (by rw [hparse, hdec]) (hok hdec)

/-- A request with a group name, served or dropped by the same decoder. -/
theorem step_groupname {c c' : Chat} {fd : Int} {msg : List UInt8} {al : Alloc}
    {sent : List Packet} {make : CStr → Request}
    (hparse : Request.parse msg = Request.parseGroupname make msg)
    (herr : ∀ e, chatDecodeGroupname msg = .error e → c' = c ∧ sent = [])
    (hok : ∀ {name}, chatDecodeGroupname msg = .ok name →
      c.Outcome fd al (make (CStr.ofBuffer name)) c' sent) :
    c.Step (.message fd msg al) c' sent := by
  rw [Request.parseGroupname] at hparse
  cases hdec : chatDecodeGroupname msg with
  | error e =>
    obtain ⟨rfl, rfl⟩ := herr e hdec
    exact .dropped (by rw [hparse, hdec])
  | ok name => exact .served (by rw [hparse, hdec]) (hok hdec)

/-- **A frame is served as the request it carries.** -/
theorem message_refines {s : ServerMng} (h : s.Inv) (fd : Int) (msg : List UInt8) (al : Alloc) :
    s.view.Step (.message fd msg al) (s.handleMessage fd msg al).2.1.view
      (s.handleMessage fd msg al).2.2 := by
  have hparse := Request.parse.eq_def msg
  rw [handleMessage]
  cases hpeek : chatPeekHeader msg with
  | none =>
    rw [hpeek] at hparse
    exact .dropped hparse
  | some header =>
    obtain ⟨type, len⟩ := header
    rw [hpeek] at hparse
    simp only at hparse ⊢
    cases hop : ChatOpcode.ofByte type
    all_goals
      rw [hop] at hparse
      simp only at hparse ⊢
    case regReq =>
      exact step_userPass hparse (fun e he => by simp only [handleRegisterReq, he]; trivial)
        (handleRegisterReq_refines h fd al)
    case loginReq =>
      exact step_userPass hparse (fun e he => by simp only [handleLoginReq, he]; trivial)
        (handleLoginReq_refines fd al)
    case logoutReq => exact .served hparse (handleLogoutReq_refines h fd al)
    case createGroupReq =>
      exact step_groupname hparse (fun e he => by simp only [handleCreateGroupReq, he]; trivial)
        (handleCreateGroupReq_refines h fd al)
    case joinGroupReq =>
      exact step_groupname hparse (fun e he => by simp only [handleJoinGroupReq, he]; trivial)
        (handleJoinGroupReq_refines h fd al)
    case leaveGroupReq =>
      exact step_groupname hparse (fun e he => by simp only [handleLeaveGroupReq, he]; trivial)
        (handleLeaveGroupReq_refines h fd al)
    all_goals exact .dropped hparse

/-- **The server refines the service.** -/
theorem step_refines {s : ServerMng} (h : s.Inv) (e : Event) :
    s.view.Step e (s.step e).1.view (s.step e).2 := by
  cases e with
  | message fd msg al => exact message_refines h fd msg al
  | disconnect fd al =>
    cases hn : s.view.session fd with
    | none =>
      rw [step, onDisconnect_of_none al hn]
      exact .idle hn
    | some n =>
      obtain ⟨hloss, hexact⟩ := onDisconnect_refines h fd al
      exact .hungUp hn hloss hexact

/-- With no allocation failure the service's function says it all. -/
theorem message_eq_serve {s : ServerMng} (h : s.Inv) (fd : Int) {msg : List UInt8} {r : Request}
    (hp : Request.parse msg = some r) :
    ((s.step (.message fd msg [])).1.view, (s.step (.message fd msg [])).2) =
      s.view.serve fd r := by
  have hstep := step_refines h (.message fd msg [])
  generalize (s.step (.message fd msg [])).1.view = c' at hstep ⊢
  generalize (s.step (.message fd msg [])).2 = sent at hstep ⊢
  cases hstep with
  | dropped hnone =>
    rw [hp] at hnone
    exact absurd hnone (by simp)
  | served hr ho =>
    rw [hp, Option.some_inj] at hr
    subst hr
    exact ho.eq_serve

/-- A frame without a request is dropped. -/
theorem message_of_no_request {s : ServerMng} (h : s.Inv) {fd : Int} {msg : List UInt8}
    {al : Alloc} (hp : Request.parse msg = none) :
    (s.step (.message fd msg al)).1.view = s.view ∧ (s.step (.message fd msg al)).2 = [] := by
  have hstep := step_refines h (.message fd msg al)
  generalize (s.step (.message fd msg al)).1.view = c' at hstep ⊢
  generalize (s.step (.message fd msg al)).2 = sent at hstep ⊢
  cases hstep with
  | dropped _ => exact ⟨rfl, rfl⟩
  | served hr _ =>
    rw [hp] at hr
    exact absurd hr (by simp)

/-- The answer to a request is the service's verdict on it. -/
theorem answer_message {s : ServerMng} (h : s.Inv) {fd : Int} (hfd : 0 ≤ fd) {msg : List UInt8}
    {r : Request} (hp : Request.parse msg = some r) :
    answer fd r.repOpcode (s.step (.message fd msg [])).2 = some (s.view.verdict fd r) := by
  rw [← Chat.answer_serve h.addresses hfd r, ← message_eq_serve h fd hp]

/-! ## Whole runs -/

/-! The user manager sees at most one call per frame, and a call on the frame's descriptor. -/

section
variable (s : ServerMng) (fd : Int) (msg : List UInt8) (al : Alloc)

theorem oneCall_create :
    UserMng.OneCall fd s.userMng (s.handleCreateGroupReq fd msg al).1.userMng := by
  rw [handleCreateGroupReq]
  split
  · exact .inl rfl
  simp only
  split
  · exact .inl rfl
  split
  · split
    · next hj => exact .of_joinGroup hj
    · next hj => exact .of_joinGroup hj
  · exact .inl rfl

theorem oneCall_join :
    UserMng.OneCall fd s.userMng (s.handleJoinGroupReq fd msg al).1.userMng := by
  rw [handleJoinGroupReq]
  split
  · exact .inl rfl
  simp only
  split
  · exact .inl rfl
  split
  · split
    · next hj => exact .of_joinGroup hj
    · next hj => exact .of_joinGroup hj
  · exact .inl rfl

theorem oneCall_leave :
    UserMng.OneCall fd s.userMng (s.handleLeaveGroupReq fd msg al).1.userMng := by
  rw [handleLeaveGroupReq]
  split
  · exact .inl rfl
  simp only
  split
  · next hl => exact .of_leaveGroup hl
  · next hl => exact .of_leaveGroup hl

theorem oneCall_message :
    UserMng.OneCall fd s.userMng (s.handleMessage fd msg al).2.1.userMng := by
  rw [handleMessage]
  split
  · exact .inl rfl
  split
  · rw [handleRegisterReq]
    split
    · exact .inl rfl
    · next user pass _ =>
      exact .inr ⟨Unit, (), .register (CStr.ofBuffer user) (CStr.ofBuffer pass) al, trivial, rfl⟩
  · rw [handleLoginReq]
    split
    · exact .inl rfl
    · next user pass _ =>
      exact .inr ⟨Unit, (), .login (CStr.ofBuffer user) (CStr.ofBuffer pass) fd, rfl, rfl⟩
  · exact .inr ⟨_, (s.groupMng, al), .logout fd onUserImplicitLeave, rfl, rfl⟩
  · exact s.oneCall_create fd msg al
  · exact s.oneCall_join fd msg al
  · exact s.oneCall_leave fd msg al
  · exact .inl rfl

theorem oneCall_step (e : Event) : UserMng.OneCall e.sockfd s.userMng (s.step e).1.userMng := by
  cases e with
  | message fd msg al => exact s.oneCall_message fd msg al
  | disconnect fd al =>
    exact .inr ⟨_, (s.groupMng, al), .disconnect fd onUserImplicitLeave, rfl, rfl⟩

end

/-- One call keeps the invariants. -/
theorem Inv.step {s : ServerMng} (h : s.Inv) (e : Event) : (s.step e).1.Inv where
  users := (s.oneCall_step e).inv h.users
  books := h.books.step h.sessions (step_refines h e)
  addresses := h.addresses.step (step_refines h e)

theorem Inv.run {s : ServerMng} (h : s.Inv) (es : List Event) : (s.run es).Inv :=
  Machine.run_invariant (p := fun _ => True) (P := Inv) (fun _ e _ hs => hs.step e)
    (fun _ _ => trivial) h

/-- What a successful `ServerMng_Init` leaves: nobody, no group, and a pool filled as far as memory
allowed. -/
theorem init_spec {al : Alloc} {s : ServerMng} (h : init al = some s) :
    s.userMng.Inv ∧ s.view.user = (fun _ => none) ∧ s.view.sock = (fun _ => none) ∧
      s.view.group = (fun _ => none) ∧ s.view.free.Sublist mcastFill := by
  rw [init] at h
  split at h
  · exact absurd h (by simp)
  next mcQueue al₁ hq =>
  split at h
  · exact absurd h (by simp)
  next groupMng al₂ hg =>
  split at h
  · exact absurd h (by simp)
  next userMng al₃ hu =>
  rw [Option.some_inj] at h
  subst h
  have hsub := FreeMcQueue.create_sublist (congrArg Prod.fst hq)
  obtain ⟨hgroup, hfree⟩ := GroupMng.create_spec (congrArg Prod.fst hg)
  obtain ⟨huser, hsock⟩ := UserMng.create_spec (congrArg Prod.fst hu)
  rw [← hfree] at hsub
  exact ⟨UserMng.inv_create (congrArg Prod.fst hu), huser, hsock, hgroup, hsub⟩

/-- The invariants hold from the start. -/
theorem inv_init {al : Alloc} {s : ServerMng} (h : init al = some s) : s.Inv := by
  obtain ⟨husers, huser, hsock, hgroup, hfree⟩ := init_spec h
  have hjoined : ∀ n, s.view.joined n = [] := fun n => Chat.joined_of_none (congrFun huser n)
  refine ⟨husers, ?_, ?_⟩
  · constructor
    · intro n u hu
      rw [huser] at hu
      exact absurd hu (by simp)
    · intro n
      rw [hjoined]
      exact List.nodup_nil
    · intro n g hg
      rw [hjoined] at hg
      exact absurd hg (by simp)
    · intro g gr hg
      rw [hgroup] at hg
      exact absurd hg (by simp)
    · intro g
      have hempty : s.view.members g = ∅ := by
        ext n
        rw [Chat.mem_members, hjoined]
        simp
      rw [hempty]
      exact Set.finite_empty
    · intro g gr hg
      rw [hgroup] at hg
      exact absurd hg (by simp)
    · intro g gr hg
      rw [hgroup] at hg
      exact absurd hg (by simp)
  · have hheld : s.view.held = fun _ => none := by
      funext g
      rw [Chat.held, hgroup, Option.map_none]
    rw [Chat.Addresses, hheld]
    exact Ownership.owned_full (nodup_mcastFill.sublist hfree) fun _ hp => hfree.subset hp

/-- The states of the server: what a run from `ServerMng_Init` can reach. -/
theorem inv_reachable {al : Alloc} {s₀ : ServerMng} (h₀ : init al = some s₀) (es : List Event) :
    (s₀.run es).Inv :=
  (inv_init h₀).run es

end ServerMng

end ChatProject
