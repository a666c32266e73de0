import ChatProject.Server.History

/-!
# Three ways to go

A client can leave its groups one by one and then log out, or log out at once, or just vanish.  In
the source these are three pieces of code: LEAVE looks the group up in the user's list and takes the
node out, LOGOUT removes the head of the list until there is none, and the disconnect runs the same
loop without a reply.

* `Chat.foldl_countOut_group_of_mem`, `Chat.foldl_countOut_free` — what counting a user out of a
  list of groups comes to.  The result depends on the order of the list only in the order of the
  pool.
* `ServerMng.run_leaves` — LEAVE after LEAVE, each answered `ST_OK`.
* `departures_agree` — the three ways lead to the same users, sessions and groups, and to the same
  pool up to its order; `Chat.Departed` says where.
-/

set_option autoImplicit false

namespace ChatProject

open Machine

namespace Chat

/-! ## Counting a user out of many groups -/

/-- The pair that comes back when a member is counted out of `g`: that of a group with no other. -/
def lastPair (c : Chat) (g : CStr) : Option McastPair :=
  (c.group g).bind fun gr => if gr.memberCount ≤ 1 then some gr.pair else none

theorem countOut_free (c : Chat) (g : CStr) :
    (c.countOut g).free = c.free ++ (c.lastPair g).toList := by
  cases hg : c.group g with
  | none => rw [countOut_of_none hg, lastPair, hg, Option.bind_none, Option.toList_none,
      List.append_nil]
  | some gr =>
    rw [lastPair, hg, Option.bind_some]
    by_cases hle : gr.memberCount ≤ 1
    · rw [countOut_of_last hg hle, if_pos hle, Option.toList_some]
    · rw [countOut_of_many hg (by omega), if_neg hle, Option.toList_none, List.append_nil]

/-- What becomes of the group itself. -/
theorem countOut_group_self (c : Chat) (g : CStr) :
    (c.countOut g).group g =
      (c.group g).bind fun gr => if gr.memberCount ≤ 1 then none else some gr.countOut := by
  cases hg : c.group g with
  | none => rw [countOut_of_none hg, hg, Option.bind_none]
  | some gr =>
    rw [Option.bind_some]
    by_cases hle : gr.memberCount ≤ 1
    · rw [countOut_of_last hg hle, if_pos hle]
      exact Function.update_self ..
    · rw [countOut_of_many hg (by omega), if_neg hle]
      exact Function.update_self ..

theorem foldl_countOut_group_of_mem {g : CStr} {l : List CStr} (c : Chat) (hl : l.Nodup)
    (hg : g ∈ l) : (l.foldl countOut c).group g = (c.countOut g).group g := by
  induction l generalizing c with
  | nil => exact absurd hg List.not_mem_nil
  | cons g' l ih =>
    rw [List.nodup_cons] at hl
    rw [List.foldl_cons]
    by_cases hne : g = g'
    · subst hne
      exact foldl_countOut_group_of_notMem l _ hl.1
    · rw [ih _ hl.2 ((List.mem_cons.mp hg).resolve_left hne)]
      rw [countOut_group_self, countOut_group_self, countOut_group_of_ne c hne]

theorem foldl_countOut_free {l : List CStr} (c : Chat) (hl : l.Nodup) :
    (l.foldl countOut c).free = c.free ++ l.filterMap c.lastPair := by
  induction l generalizing c with
  | nil => rw [List.foldl_nil, List.filterMap_nil, List.append_nil]
  | cons g l ih =>
    rw [List.nodup_cons] at hl
    have hrest : l.filterMap (c.countOut g).lastPair = l.filterMap c.lastPair := by
      refine List.filterMap_congr fun g' hg' => ?_
      have hne : g' ≠ g := fun heq => hl.1 (heq ▸ hg')
      rw [lastPair, lastPair, countOut_group_of_ne c hne]
    rw [List.foldl_cons, ih _ hl.2, countOut_free, hrest, List.append_assoc, List.filterMap_cons]
    cases c.lastPair g with
    | none => rfl
    | some pair => rfl

@[simp] theorem foldl_countOut_sock (c : Chat) (l : List CStr) :
    (l.foldl countOut c).sock = c.sock := by
  induction l generalizing c with
  | nil => rfl
  | cons g l ih => rw [List.foldl_cons, ih, countOut_sock]

/-- Equal up to the order of the pool. -/
structure Same (c d : Chat) : Prop where
  user : c.user = d.user
  sock : c.sock = d.sock
  group : c.group = d.group
  free : c.free.Perm d.free

theorem Same.symm {c d : Chat} (h : c.Same d) : d.Same c :=
  ⟨h.user.symm, h.sock.symm, h.group.symm, h.free.symm⟩

theorem Same.of_eq {c d : Chat} (h : c = d) : c.Same d := by
  subst h
  exact ⟨rfl, rfl, rfl, List.Perm.refl _⟩

/-- **The order in which a user is counted out does not matter.** -/
theorem foldl_countOut_same (c : Chat) {l l' : List CStr} (hperm : l.Perm l') (hl : l.Nodup) :
    (l.foldl countOut c).Same (l'.foldl countOut c) := by
  have hl' : l'.Nodup := hperm.nodup_iff.mp hl
  refine ⟨?_, ?_, ?_, ?_⟩
  · rw [foldl_countOut_user, foldl_countOut_user]
  · rw [foldl_countOut_sock, foldl_countOut_sock]
  · funext g
    by_cases hg : g ∈ l
    · rw [foldl_countOut_group_of_mem c hl hg,
        foldl_countOut_group_of_mem c hl' (hperm.mem_iff.mp hg)]
    · rw [foldl_countOut_group_of_notMem l c hg,
        foldl_countOut_group_of_notMem l' c (mt hperm.mem_iff.mpr hg)]
  · rw [foldl_countOut_free c hl, foldl_countOut_free c hl']
    exact (List.Perm.refl _).append (hperm.filterMap _)

/-! ## The end of a session -/

/-- **What is left when the user `n`, with the record `u` in `c`, has gone**: it is offline and in
no group, the groups it was alone in are gone and their pairs are free, and the others have one
member fewer. -/
structure Departed (c : Chat) (n : CStr) (u : User) (d : Chat) : Prop where
  offline : ∃ v, d.user n = some v ∧ v.state = .offline ∧ v.joinedGroups = []
  alone : ∀ g ∈ u.joinedGroups, ∀ gr, c.group g = some gr → c.members g = {n} →
    d.group g = none ∧ gr.pair ∈ d.free
  shared : ∀ g ∈ u.joinedGroups, ∀ gr, c.group g = some gr → c.members g ≠ {n} →
    ∃ gr', d.group g = some gr' ∧ gr'.memberCount + 1 = gr.memberCount ∧ gr'.pair = gr.pair

theorem Departed.congr {c d d' : Chat} {n : CStr} {u : User} (h : c.Departed n u d)
    (hsame : d.Same d') : c.Departed n u d' where
  offline := hsame.user ▸ h.offline
  alone g hg gr hgr hmem := by
    obtain ⟨hgone, hpair⟩ := h.alone g hg gr hgr hmem
    exact ⟨hsame.group ▸ hgone, hsame.free.subset hpair⟩
  shared := hsame.group ▸ h.shared

/-- A count of one means that the user is the only member. -/
theorem Books.memberCount_le_one_iff {c : Chat} (h : c.Books) {n g : CStr} {gr : Group}
    (hg : g ∈ c.joined n) (hgr : c.group g = some gr) :
    gr.memberCount ≤ 1 ↔ c.members g = {n} := by
  have hn : n ∈ c.members g := hg
  have hpos := h.pos hgr
  rw [h.count hgr] at hpos ⊢
  constructor
  · intro hle
    obtain ⟨m, hm⟩ := Set.ncard_eq_one.mp (Nat.le_antisymm hle hpos)
    rw [hm, Set.mem_singleton_iff] at hn
    rw [hm, hn]
  · intro hm
    rw [hm, Set.ncard_singleton]

theorem Books.departed_hangUp {c : Chat} (h : c.Books) {fd : Int} {n : CStr} {u : User}
    (hn : c.session fd = some n) (hu : c.user n = some u) : c.Departed n u (c.hangUp fd) := by
  obtain ⟨i, hfd, hi⟩ := session_eq_some_iff.mp hn
  have hnd : u.joinedGroups.Nodup := joined_of_user hu ▸ h.nodup n
  have hself : (u.joinedGroups.foldl countOut c).user n = some u := by
    rw [foldl_countOut_user, hu]
  rw [hangUp_of_session hfd hi, joined_of_user hu]
  refine ⟨⟨u.unbind, ?_, rfl, rfl⟩, ?_, ?_⟩
  · show ((u.joinedGroups.foldl countOut c).editUser n User.unbind).user n = _
    rw [editUser_user hself, Function.update_self]
  · intro g hg gr hgr hmem
    have hle := (h.memberCount_le_one_iff (by rwa [joined_of_user hu]) hgr).mpr hmem
    refine ⟨?_, ?_⟩
    · show (u.joinedGroups.foldl countOut c).group g = none
      rw [foldl_countOut_group_of_mem c hnd hg, countOut_group_self, hgr, Option.bind_some,
        if_pos hle]
    · show gr.pair ∈ (u.joinedGroups.foldl countOut c).free
      rw [foldl_countOut_free c hnd]
      refine List.mem_append_right _ (List.mem_filterMap.mpr ⟨g, hg, ?_⟩)
      rw [lastPair, hgr, Option.bind_some, if_pos hle]
  · intro g hg gr hgr hmem
    have hmany := mt (h.memberCount_le_one_iff (by rwa [joined_of_user hu]) hgr).mp hmem
    refine ⟨gr.countOut, ?_, ?_, Group.pair_countOut gr⟩
    · show (u.joinedGroups.foldl countOut c).group g = some gr.countOut
      rw [foldl_countOut_group_of_mem c hnd hg, countOut_group_self, hgr, Option.bind_some,
        if_neg hmany]
    · rw [Group.memberCount_countOut]
      omega

/-! ## Served one by one -/

@[simp] theorem leave_sock (n : CStr) (c : Chat) (g : CStr) : (leave n c g).sock = c.sock := by
  rw [leave, editUser_sock, countOut_sock]

@[simp] theorem foldl_leave_sock (n : CStr) (c : Chat) (l : List CStr) :
    (l.foldl (leave n) c).sock = c.sock := by
  induction l generalizing c with
  | nil => rfl
  | cons g l ih => rw [List.foldl_cons, ih, leave_sock]

section
variable {c : Chat} {fd : Int} {n : CStr} (hn : c.session fd = some n)
include hn

theorem serve_leaveGroup {g : CStr} (hg : g ∈ c.joined n) :
    c.serve fd (.leaveGroup g) = (leave n c g, sendStatus fd .leaveGroupRep .ok) := by
  rw [serve, if_pos (verdict_leaveGroup_eq_ok.mpr ⟨n, hn, hg⟩), grant_leaveGroup hn]
  rfl

theorem serve_logout : c.serve fd .logout = (c.hangUp fd, sendStatus fd .logoutRep .ok) := by
  obtain ⟨i, hfd, hi⟩ := session_eq_some_iff.mp hn
  rw [serve, if_pos (verdict_logout_eq_ok.mpr ⟨i, n, hfd, hi⟩)]
  rfl

/-- The end of a session whose user has left all its groups before, in some order. -/
theorem hangUp_foldl_leave {u : User} (hu : c.user n = some u) (hnd : u.joinedGroups.Nodup)
    {gs : List CStr} (hperm : gs.Perm u.joinedGroups)
    (hleft : (gs.foldl (leave n) c).joined n = []) :
    ((gs.foldl (leave n) c).hangUp fd).Same (c.hangUp fd) := by
  obtain ⟨i, hfd, hi⟩ := session_eq_some_iff.mp hn
  have hi' : (gs.foldl (leave n) c).sock i = some n := by rw [foldl_leave_sock, hi]
  have hself := foldl_countOut_same c hperm (hperm.nodup_iff.mpr hnd)
  rw [hangUp_of_session hfd hi', hangUp_of_session hfd hi, hleft, List.foldl_nil,
    ← foldl_countOut_unbind, foldl_leave_sock, joined_of_user hu]
  refine ⟨?_, rfl, hself.group, hself.free⟩
  show ((gs.foldl countOut c).editUser n User.unbind).user =
    ((u.joinedGroups.foldl countOut c).editUser n User.unbind).user
  rw [editUser, editUser, hself.user]

end

end Chat

namespace ServerMng

/-- The LEAVEs of a list of groups, one by one, each with the frame it came in. -/
abbrev Leaves (msgs : List (List UInt8)) (gs : List CStr) : Prop :=
  List.Forall₂ (fun msg g => Request.parse msg = some (.leaveGroup g)) msgs gs

/-- **LEAVE after LEAVE.**  Whatever the order, the user gets out of every group, and every LEAVE is
answered `ST_OK`. -/
theorem run_leaves {s : ServerMng} (h : s.Inv) {fd : Int} {n : CStr} {u : User}
    (hn : s.view.session fd = some n) (hu : s.view.user n = some u) {msgs : List (List UInt8)}
    {gs : List CStr} (hmsgs : Leaves msgs gs) (hperm : gs.Perm u.joinedGroups) :
    (s.run (msgs.map (.message fd · []))).view = gs.foldl (Chat.leave n) s.view ∧
      (s.run (msgs.map (.message fd · []))).view.user n = some { u with joinedGroups := [] } ∧
      ∀ x ∈ trace step s (msgs.map (.message fd · [])), ∃ g ∈ gs, Granted fd (.leaveGroup g) x := by
  induction hmsgs generalizing s u with
  | nil =>
    refine ⟨rfl, ?_, fun x hx => absurd hx List.not_mem_nil⟩
    show s.view.user n = some { u with joinedGroups := [] }
    rw [hu, hperm.nil_eq]
  | @cons msg g msgs gs hp hmsgs ih =>
    have hg : g ∈ s.view.joined n := by
      rw [Chat.joined_of_user hu]
      exact hperm.subset List.mem_cons_self
    have hserve := message_eq_serve h fd hp
    rw [Chat.serve_leaveGroup hn hg, Prod.mk.injEq] at hserve
    obtain ⟨hview, hsent⟩ := hserve
    have hn' : (s.step (.message fd msg [])).1.view.session fd = some n := by
      rw [hview, Chat.session_congr (Chat.leave_sock n s.view g), hn]
    have hu' : (s.step (.message fd msg [])).1.view.user n = some (u.dropGroup g) := by
      rw [hview, Chat.leave_user hu, Function.update_self]
    have hperm' : gs.Perm (u.dropGroup g).joinedGroups :=
      (List.cons_perm_iff_perm_erase.mp hperm).2
    obtain ⟨hrun, huser, hans⟩ := ih (h.step _) hn' hu' hperm'
    refine ⟨?_, huser, ?_⟩
    · rw [List.foldl_cons, ← hview]
      exact hrun
    · intro x hx
      rcases List.mem_cons.mp hx with rfl | hx
      · refine ⟨g, List.mem_cons_self, msg, [], rfl, hp, ?_⟩
        simp only [hsent]
        exact answer_sendStatus (Chat.nonneg_of_session hn) _ (by intro code; simp)
      · obtain ⟨g', hg', hx⟩ := hans x hx
        exact ⟨g', List.mem_cons_of_mem g hg', hx⟩

end ServerMng

open ServerMng

/-- **Three ways to go.**  From every reachable state: leaving the groups of a session in any order
and logging out, logging out at once, and losing the connection lead to the same users, sessions and
groups, and to the same pool up to its order. -/
theorem departures_agree {al₀ : Alloc} {s₀ : ServerMng} (h₀ : ServerMng.init al₀ = some s₀)
    (es : List Event) {fd : Int} {n : CStr} {u : User}
    (hn : (s₀.run es).view.session fd = some n) (hu : (s₀.run es).view.user n = some u)
    {msgs : List (List UInt8)} {gs : List CStr} (hmsgs : Leaves msgs gs)
    (hperm : gs.Perm u.joinedGroups) {logout : List UInt8}
    (hlogout : Request.parse logout = some .logout) :
    let s := s₀.run es
    let events := (msgs ++ [logout]).map (Event.message fd · [])
    let left := s.run events
    let loggedOut := (s.step (.message fd logout [])).1
    let dropped := s.onDisconnect fd []
    left.view.Same loggedOut.view ∧ loggedOut.view.Same dropped.view ∧
      (∀ x ∈ trace ServerMng.step s events, ∃ r, Granted fd r x) ∧
      answer fd .logoutRep (s.step (.message fd logout [])).2 = some .ok ∧
      s.view.Departed n u left.view ∧ s.view.Departed n u loggedOut.view ∧
      s.view.Departed n u dropped.view := by
  intro s events left loggedOut dropped
  have h : s.Inv := inv_reachable h₀ es
  have hok : answer fd .logoutRep (sendStatus fd .logoutRep .ok) = some .ok :=
    answer_sendStatus (Chat.nonneg_of_session hn) _ (by intro code; simp)
  -- at once
  have hout := message_eq_serve h fd hlogout
  rw [Chat.serve_logout hn, Prod.mk.injEq] at hout
  -- without a word
  have hdrop : dropped.view = s.view.hangUp fd := (onDisconnect_refines h fd []).2 rfl
  -- one by one
  obtain ⟨hrun, huser, hans⟩ := run_leaves h hn hu hmsgs hperm
  have hn' : (s.run (msgs.map (.message fd · []))).view.session fd = some n := by
    rw [hrun, Chat.session_congr (Chat.foldl_leave_sock n s.view gs), hn]
  have hlast := message_eq_serve (h.run (msgs.map (.message fd · []))) fd hlogout
  rw [Chat.serve_logout hn', Prod.mk.injEq] at hlast
  have hevents : events = msgs.map (.message fd · []) ++ [.message fd logout []] :=
    List.map_append
  have hleft : left.view = (gs.foldl (Chat.leave n) s.view).hangUp fd := by
    show (s.run events).view = _
    rw [hevents, ServerMng.run, run_append, ← hrun]
    exact hlast.1
  have hsame : left.view.Same loggedOut.view := by
    rw [hleft, hout.1]
    refine Chat.hangUp_foldl_leave hn hu ?_ hperm ?_
    · rw [← Chat.joined_of_user hu]
      exact h.books.nodup n
    · rw [← hrun, Chat.joined_of_user huser]
  have hgone : s.view.Departed n u loggedOut.view := by
    rw [hout.1]
    exact h.books.departed_hangUp hn hu
  have hsame' : loggedOut.view.Same dropped.view := .of_eq (hout.1.trans hdrop.symm)
  refine ⟨hsame, hsame', ?_, by rw [hout.2, hok], hgone.congr hsame.symm, hgone,
    hgone.congr hsame'⟩
  intro x hx
  rw [hevents, trace_append, List.mem_append, trace, trace, List.mem_singleton] at hx
  rcases hx with hx | rfl
  · obtain ⟨g, -, hx⟩ := hans x hx
    exact ⟨_, hx⟩
  · exact ⟨.logout, logout, [], rfl, hlogout, (congrArg (answer fd .logoutRep) hlast.2).trans hok⟩

/-- After `sharedGroup` the user `a` is in `h`, alone, and in `g`, with `b`.  It leaves them in the
order in which they stand on its list or the other way round and logs out, or does one of the two
others: `h` is gone, and `g` has one member left. -/
theorem departures_agree_sharedGroup :
    ∃ s₀, ServerMng.init [] = some s₀ ∧
      (let s := s₀.run sharedGroup
      let left := s.run [.message 4 [11, 2, 1, 103] [], .message 4 [11, 2, 1, 104] [],
        .message 4 [5, 0] []]
      let left' := s.run [.message 4 [11, 2, 1, 104] [], .message 4 [11, 2, 1, 103] [],
        .message 4 [5, 0] []]
      let loggedOut := (s.step (.message 4 [5, 0] [])).1
      left.view.Same loggedOut.view ∧ left'.view.Same loggedOut.view ∧
        loggedOut.view.Same (s.onDisconnect 4 []).view ∧
        left.view.group ⟨[104], by decide⟩ = none ∧
        ∃ gr, left.view.group ⟨[103], by decide⟩ = some gr ∧ gr.memberCount = 1) := by
  have hrun : (ServerMng.init []).map (fun s => ((s.run sharedGroup).view.session 4,
      ((s.run sharedGroup).view.user ⟨[97], by decide⟩).map User.joinedGroups,
      ((s.run sharedGroup).view.group ⟨[103], by decide⟩).map Group.memberCount,
      ((s.run sharedGroup).view.group ⟨[104], by decide⟩).map Group.memberCount)) =
        some (some ⟨[97], by decide⟩, some [⟨[103], by decide⟩, ⟨[104], by decide⟩],
          some 2, some 1) := by
    decide +kernel
  obtain ⟨s₀, h₀, hend⟩ := Option.map_eq_some_iff.mp hrun
  simp only [Prod.mk.injEq] at hend
  obtain ⟨hn, hgroups, hg, hh⟩ := hend
  obtain ⟨u, hu, hgroups⟩ := Option.map_eq_some_iff.mp hgroups
  obtain ⟨gr, hgr, hcount⟩ := Option.map_eq_some_iff.mp hg
  obtain ⟨gr', hgr', hcount'⟩ := Option.map_eq_some_iff.mp hh
  have hbooks := (inv_reachable h₀ sharedGroup).books
  have hleave : Leaves [[11, 2, 1, 103], [11, 2, 1, 104]]
      [⟨[103], by decide⟩, ⟨[104], by decide⟩] :=
    .cons (by decide) (.cons (by decide) .nil)
  have hleave' : Leaves [[11, 2, 1, 104], [11, 2, 1, 103]]
      [⟨[104], by decide⟩, ⟨[103], by decide⟩] :=
    .cons (by decide) (.cons (by decide) .nil)
  have hlogout : Request.parse [5, 0] = some .logout := by decide
  obtain ⟨hsame, hdrop, -, -, hgone, -, -⟩ :=
    departures_agree h₀ sharedGroup hn hu hleave (by rw [hgroups]) hlogout
  obtain ⟨hsame', -⟩ :=
    departures_agree h₀ sharedGroup hn hu hleave' (by rw [hgroups]; exact .swap _ _ _) hlogout
  have hin : ∀ g ∈ u.joinedGroups, g ∈ (s₀.run sharedGroup).view.joined ⟨[97], by decide⟩ :=
    fun g hg => by rwa [Chat.joined_of_user hu]
  have hg₁ : ⟨[103], by decide⟩ ∈ u.joinedGroups := by rw [hgroups]; decide
  have hg₂ : ⟨[104], by decide⟩ ∈ u.joinedGroups := by rw [hgroups]; decide
  have halone := (hbooks.memberCount_le_one_iff (hin _ hg₂) hgr').mp hcount'.le
  have hshared := mt (hbooks.memberCount_le_one_iff (hin _ hg₁) hgr).mpr (by omega)
  obtain ⟨v, hv, hless, -⟩ := hgone.shared _ hg₁ gr hgr hshared
  exact ⟨s₀, h₀, hsame, hsame', hdrop, (hgone.alone _ hg₂ gr' hgr' halone).1, v, hv, by omega⟩

end ChatProject
