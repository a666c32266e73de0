import ChatProject.Server.Departure

/-!
# Reclaimed addresses are reused last

The pool of free addresses is a ring buffer that takes and returns wrap around many times, and the
pairs come back to it on three paths: a LEAVE, a LOGOUT and a disconnect.  This file follows the
pairs through whole runs without allocation failure.

* `ServerMng.assigned`, `ServerMng.reclaimed` — the pairs one call on the server gives to a new
  group, and those `GroupMng_LeaveGroup` gives back in it, in order.  The table of groups shows both
  (`mem_assigned`, `mem_reclaimed`): a group that was not there, a group that is there no more.
* `ServerMng.turn` — what one call does to the pool and the groups' pairs.
* `pool_law` — over a run, what was in the pool and what came back is what was assigned and then
  what is in the pool now, as lists.
* `addresses_reused_in_order` — so pairs are assigned in the order in which they entered the pool,
  and one that comes back is behind all that were there.
-/

set_option autoImplicit false

namespace ChatProject

/-- What stands before the first `p` of a list stands before any `p` of its prefixes. -/
theorem subset_of_append_cons {α : Type} {p : α} {l r a₁ a₂ t : List α} (hp : p ∉ l)
    (h : l ++ p :: r = a₁ ++ p :: a₂ ++ t) : ∀ q ∈ l, q ∈ a₁ := by
  rw [List.append_assoc, List.append_eq_append_iff] at h
  obtain ⟨m, rfl, -⟩ | ⟨m, rfl, hm⟩ := h
  · exact fun q hq => List.mem_append_left m hq
  · -- otherwise `p` would stand in `l` already
    cases m with
    | nil => exact fun q hq => by simpa using hq
    | cons x m =>
      rw [List.cons_append, List.cons_append, List.cons.injEq] at hm
      exact absurd (hm.1 ▸ List.mem_append_right a₁ List.mem_cons_self) hp

namespace Chat

/-- The pairs of the groups after a user has been counted out of the groups of a list. -/
theorem held_foldl_countOut {l : List CStr} (c : Chat) (hl : l.Nodup) (g : CStr) :
    (l.foldl countOut c).held g =
      if g ∈ l ∧ (c.lastPair g).isSome then none else c.held g := by
  by_cases hg : g ∈ l
  · rw [held, foldl_countOut_group_of_mem c hl hg, countOut_group_self, lastPair, held]
    cases hgr : c.group g with
    | none => simp
    | some gr =>
      by_cases hle : gr.memberCount ≤ 1
      · simp [hg, hle]
      · simp [hle]
  · rw [held, foldl_countOut_group_of_notMem l c hg, if_neg fun h => hg h.1, held]

theorem held_of_lastPair {c : Chat} {g : CStr} {p : McastPair} (h : c.lastPair g = some p) :
    c.held g = some p := by
  rw [lastPair] at h
  cases hg : c.group g with
  | none =>
    rw [hg] at h
    exact absurd h (by simp)
  | some gr =>
    rw [hg, Option.bind_some] at h
    by_cases hle : gr.memberCount ≤ 1
    · rw [if_pos hle] at h
      rw [held, hg, Option.map_some, h]
    · rw [if_neg hle] at h
      exact absurd h (by simp)

/-- What one call does to the stock of pairs: it founds a group, or counts a user out of some. -/
inductive Turn (c d : Chat) (assigned reclaimed : List McastPair) : Prop
  | lent {g : CStr} {pair : McastPair} (hg : c.held g = none) (hfree : c.free = pair :: d.free)
    (hheld : d.held = Function.update c.held g (some pair)) (ha : assigned = [pair])
    (hr : reclaimed = [])
  | left {l : List CStr} (hl : l.Nodup) (hheld : d.held = (l.foldl countOut c).held)
    (hfree : d.free = c.free ++ l.filterMap c.lastPair) (ha : assigned = [])
    (hr : reclaimed = l.filterMap c.lastPair)

theorem Turn.kept {c d : Chat} (hheld : d.held = c.held) (hfree : d.free = c.free) :
    c.Turn d [] [] :=
  .left List.nodup_nil hheld (by rw [hfree, List.filterMap_nil, List.append_nil]) rfl rfl

section
variable {c d : Chat} {assigned reclaimed : List McastPair} (h : c.Turn d assigned reclaimed)
include h

/-- **What one call does to the pool.** -/
theorem Turn.pool : c.free ++ reclaimed = assigned ++ d.free := by
  cases h with
  | lent hg hfree hheld ha hr => rw [hfree, ha, hr, List.append_nil, List.singleton_append]
  | left hl hheld hfree ha hr => rw [hfree, ha, hr, List.nil_append]

/-- A pair is assigned when a group appears that has it. -/
theorem Turn.mem_assigned (p : McastPair) :
    p ∈ assigned ↔ ∃ g, c.held g = none ∧ d.held g = some p := by
  cases h with
  | @lent g pair hg hfree hheld ha hr =>
    rw [ha, List.mem_singleton, hheld]
    constructor
    · rintro rfl
      exact ⟨g, hg, Function.update_self ..⟩
    · rintro ⟨g', hnone, hsome⟩
      by_cases hg' : g' = g
      · subst hg'
        rw [Function.update_self, Option.some_inj] at hsome
        exact hsome.symm
      · rw [Function.update_of_ne hg', hnone] at hsome
        exact absurd hsome (by simp)
  | @left l hl hheld hfree ha hr =>
    rw [ha, hheld]
    refine iff_of_false List.not_mem_nil ?_
    rintro ⟨g, hnone, hsome⟩
    rw [held_foldl_countOut c hl, hnone, ite_self] at hsome
    exact absurd hsome (by simp)

/-- A pair is reclaimed when a group disappears that had it. -/
theorem Turn.mem_reclaimed (p : McastPair) :
    p ∈ reclaimed ↔ ∃ g, c.held g = some p ∧ d.held g = none := by
  cases h with
  | @lent g pair hg hfree hheld ha hr =>
    rw [hr, hheld]
    refine iff_of_false List.not_mem_nil ?_
    rintro ⟨g', hsome, hnone⟩
    by_cases hg' : g' = g
    · rw [hg', hg] at hsome
      exact absurd hsome (by simp)
    · rw [Function.update_of_ne hg', hsome] at hnone
      exact absurd hnone (by simp)
  | @left l hl hheld hfree ha hr =>
    rw [hr, hheld, List.mem_filterMap]
    constructor
    · rintro ⟨g, hg, hlast⟩
      refine ⟨g, held_of_lastPair hlast, ?_⟩
      rw [held_foldl_countOut c hl, if_pos ⟨hg, by rw [hlast]; rfl⟩]
    · rintro ⟨g, hsome, hnone⟩
      rw [held_foldl_countOut c hl] at hnone
      by_cases hg : g ∈ l ∧ (c.lastPair g).isSome
      · obtain ⟨q, hq⟩ := Option.isSome_iff_exists.mp hg.2
        rw [held_of_lastPair hq, Option.some_inj] at hsome
        exact ⟨g, hg.1, hsome ▸ hq⟩
      · rw [if_neg hg, hsome] at hnone
        exact absurd hnone (by simp)

end

end Chat

namespace ServerMng

/-! ## The pairs one call assigns and reclaims -/

/-- The pair a call of `GroupMng_LeaveGroup` gives back: that of a group with no other member. -/
def LeaveCall.reclaimed (call : LeaveCall) : Option McastPair :=
  (call.1.group call.2).bind fun gr => if gr.memberCount ≤ 1 then some gr.pair else none

/-- The pairs that go back to the pool while a call is served, in order. -/
def reclaimed (s : ServerMng) (e : Event) : List McastPair :=
  (s.leaveCalls e).filterMap LeaveCall.reclaimed

/-- The pair of the group a call founds. -/
def assigned (s : ServerMng) (e : Event) : List McastPair :=
  match e with
  | .disconnect _ _ => []
  | .message _ msg _ =>
    match Request.parse msg with
    | some (.createGroup groupName) =>
      match s.groupMng.group groupName with
      | some _ => []
      | none => (((s.step e).1.groupMng.group groupName).map Group.pair).toList
    | _ => []

/-- The pairs a run assigns, in order. -/
def assignments : ServerMng → List Event → List McastPair
  | _, [] => []
  | s, e :: es => s.assigned e ++ assignments (s.step e).1 es

/-- The pairs that go back to the pool in a run, in order. -/
def reclamations : ServerMng → List Event → List McastPair
  | _, [] => []
  | s, e :: es => s.reclaimed e ++ reclamations (s.step e).1 es

/-- A call on a manager that shows the groups of a service state. -/
theorem LeaveCall.reclaimed_eq {m : GroupMng} {c : Chat} (hgroup : m.group = c.group) (g : CStr) :
    LeaveCall.reclaimed (m, g) = c.lastPair g := by
  rw [reclaimed, Chat.lastPair, hgroup]

/-- The logout loop: each call finds its group as it was before the loop. -/
theorem logoutLoop_reclaimed {l : List CStr} (hl : l.Nodup) {m : GroupMng} {c : Chat} (al : Alloc)
    (noted : List LeaveCall) (hgroup : m.group = c.group) (hfree : m.free.Sublist c.free) :
    (UserMng.logoutLoop noteImplicitLeave l ((m, al), noted)).2.filterMap LeaveCall.reclaimed
      = noted.filterMap LeaveCall.reclaimed ++ l.filterMap c.lastPair := by
  induction l generalizing m c al noted with
  | nil => rw [List.filterMap_nil, List.append_nil]; rfl
  | cons g l ih =>
    rw [List.nodup_cons] at hl
    obtain ⟨-, hgroup', hfree', -⟩ := leaveGroup_refines g al hgroup hfree
    have hrest : l.filterMap (c.countOut g).lastPair = l.filterMap c.lastPair := by
      refine List.filterMap_congr fun g' hg' => ?_
      have hne : g' ≠ g := fun heq => hl.1 (heq ▸ hg')
      rw [Chat.lastPair, Chat.lastPair, Chat.countOut_group_of_ne c hne]
    refine (ih hl.2 (m.leaveGroup g al).2.2 (noted ++ [(m, g)]) hgroup' hfree').trans ?_
    rw [hrest, List.filterMap_append, List.append_assoc, List.filterMap_cons, List.filterMap_nil,
      LeaveCall.reclaimed_eq hgroup, List.filterMap_cons]
    cases c.lastPair g with
    | none => rfl
    | some pair => rfl

section
variable {s : ServerMng} (h : s.Inv) (fd : Int)
include h

theorem turn_hangUp (al : Alloc) :
    s.view.Turn (s.view.hangUp fd) [] ((s.logoutCalls fd al).filterMap LeaveCall.reclaimed) := by
  rw [logoutCalls]
  cases hn : s.view.session fd with
  | none =>
    rw [Chat.hangUp_of_none hn]
    cases hfd : fdIndex fd with
    | none =>
      rw [UserMng.logout_of_badFd hfd]
      exact .kept rfl rfl
    | some i =>
      rw [Chat.session_of_fdIndex hfd] at hn
      rw [UserMng.logout_of_none hfd hn]
      exact .kept rfl rfl
  | some n =>
    obtain ⟨i, hfd, hs⟩ := Chat.session_eq_some_iff.mp hn
    obtain ⟨u, hu, -⟩ := h.sessions.sock_iff.mp hs
    obtain ⟨m', hr, -, -⟩ := UserMng.logout_of_session hfd h.users
      noteImplicitLeave ((s.groupMng, al), []) hs hu
    have hnd : u.joinedGroups.Nodup := by
      rw [← Chat.joined_of_user hu]
      exact h.books.nodup n
    rw [hr, Chat.hangUp_of_session hfd hs, Chat.joined_of_user hu]
    exact .left hnd rfl (Chat.foldl_countOut_free s.view hnd) rfl
      (logoutLoop_reclaimed (c := s.view) hnd al [] rfl (List.Sublist.refl _))

theorem createCalls_noFailure {g : CStr} (hlen : g.length ≤ chatMaxGroupnameLen) :
    s.createCalls fd g [] = [] := by
  rw [createCalls, isLoggedIn_eq_session]
  cases hn : s.view.session fd with
  | none => rw [if_pos (by simp)]
  | some n =>
    rw [if_neg (by simp)]
    cases hg : s.view.group g with
    | some gr => rw [GroupMng.createGroup_of_exists [] hg]
    | none =>
      cases hfree : s.view.free with
      | nil => rw [GroupMng.createGroup_of_exhausted [] hg hfree]
      | cons pair rest =>
        obtain ⟨i, hfd, hs⟩ := Chat.session_eq_some_iff.mp hn
        obtain ⟨u, hu, -⟩ := h.sessions.sock_iff.mp hs
        have hnot : g ∉ u.joinedGroups := by
          rw [← Chat.joined_of_user hu]
          exact fun hmem => h.books.filed hmem hg
        obtain ⟨p, m₁, al₁, hr, -, -, -, hal⟩ | ⟨m₁, al₁, -, hal, -⟩ :=
          GroupMng.createGroup_cases [] hlen hg hfree
        · obtain ⟨m₂, al₂, hj, -⟩ | ⟨al₂, -, hal₂⟩ :=
            UserMng.joinGroup_cases hfd h.users al₁ hs hu hnot
          · simp only [hr, hj]
          · exact absurd (hal rfl) hal₂
        · exact absurd rfl hal

/-- The undo of a JOIN finds at least two members. -/
theorem joinCalls_reclaimed (g : CStr) (al : Alloc) :
    (s.joinCalls fd g al).filterMap LeaveCall.reclaimed = [] := by
  rw [joinCalls]
  split
  · rfl
  split
  · next p m₁ hr =>
    split
    · rfl
    · cases hg : s.view.group g with
      | none =>
        rw [GroupMng.joinGroup_of_none hg] at hr
        exact absurd (congrArg Prod.fst hr) (by simp)
      | some gr =>
        have hpos := h.books.pos hg
        obtain ⟨p', m', hr', -, hgroup, -⟩ := GroupMng.joinGroup_of_some hg
        rw [hr'] at hr
        obtain ⟨-, hm⟩ := Prod.mk.inj (Prod.mk.inj hr).2
        have hmany : LeaveCall.reclaimed (m₁, g) = none := by
          rw [LeaveCall.reclaimed, ← hm, hgroup, Function.update_self, Option.bind_some,
            if_neg (by rw [Group.memberCount_countIn]; omega)]
        rw [List.filterMap_cons_none hmany, List.filterMap_nil]
  · rfl

theorem leaveGroupCalls_reclaimed (g : CStr) :
    (s.leaveGroupCalls fd g).filterMap LeaveCall.reclaimed =
      if s.view.verdict fd (.leaveGroup g) = .ok then (s.view.lastPair g).toList else [] := by
  rw [leaveGroupCalls, Chat.verdict]
  cases hfd : fdIndex fd with
  | none => simp [UserMng.leaveGroup_of_badFd hfd]
  | some i =>
    cases hs : s.view.sock i with
    | none => simp [UserMng.leaveGroup_of_none hfd hs, hs]
    | some n =>
      obtain ⟨u, hu, -⟩ := h.sessions.sock_iff.mp hs
      simp only [hs, Chat.joined_of_user hu]
      by_cases hmem : g ∈ u.joinedGroups
      · obtain ⟨m₂, hr, -⟩ := UserMng.leaveGroup_of_member hfd h.users hs hu hmem
        rw [hr, if_pos hmem, if_pos rfl]
        show [(s.groupMng, g)].filterMap LeaveCall.reclaimed = _
        rw [List.filterMap_cons, LeaveCall.reclaimed_eq (c := s.view) rfl, List.filterMap_nil]
        cases s.view.lastPair g with
        | none => rfl
        | some pair => rfl
      · rw [UserMng.leaveGroup_of_stranger hfd h.users hs hu hmem, if_neg hmem]
        rfl

end

section
variable {s : ServerMng} (h : s.Inv) (fd : Int) {msg : List UInt8}
include h

theorem view_message {r : Request} (hp : Request.parse msg = some r) :
    (s.step (.message fd msg [])).1.view =
      if s.view.verdict fd r = .ok then s.view.grant fd r else s.view := by
  refine (congrArg Prod.fst (message_eq_serve h fd hp)).trans ?_
  rw [Chat.serve]
  split <;> rfl

theorem turn_createGroup {g : CStr} (hp : Request.parse msg = some (.createGroup g)) :
    s.view.Turn (s.step (.message fd msg [])).1.view (s.assigned (.message fd msg [])) [] := by
  have hview := view_message h fd hp
  have hassigned : s.assigned (.message fd msg []) =
      match s.view.group g with
      | some _ => []
      | none => ((s.step (.message fd msg [])).1.view.held g).toList := by
    rw [assigned, hp]
    rfl
  rw [hassigned, hview]
  by_cases hv : s.view.verdict fd (.createGroup g) = .ok
  · obtain ⟨n, pair, rest, hn, hg, hfree⟩ := Chat.verdict_createGroup_eq_ok.mp hv
    have hheld : (s.view.grant fd (.createGroup g)).held =
        Function.update s.view.held g (some pair) := by
      rw [Chat.grant_createGroup hn, Chat.held_editUser, Chat.found_of_cons hfree]
      exact Chat.held_update (c := s.view) (x := some ⟨g, pair.ip, pair.port, 1⟩) rfl
    rw [if_pos hv, hg]
    refine .lent (g := g) ?_ ?_ hheld ?_ rfl
    · rw [Chat.held, hg, Option.map_none]
    · rw [Chat.grant_createGroup hn, Chat.editUser_free, Chat.found_of_cons hfree, hfree]
    · simp only [hheld, Function.update_self, Option.toList_some]
  · rw [if_neg hv]
    have hnone : (match s.view.group g with
        | some _ => []
        | none => (s.view.held g).toList) = [] := by
      cases hg : s.view.group g with
      | some gr => rfl
      | none => simp only [Chat.held, hg, Option.map_none, Option.toList_none]
    rw [hnone]
    exact .kept rfl rfl

theorem turn_leaveGroup {g : CStr} (hp : Request.parse msg = some (.leaveGroup g)) :
    s.view.Turn (s.step (.message fd msg [])).1.view []
      ((s.leaveGroupCalls fd g).filterMap LeaveCall.reclaimed) := by
  rw [view_message h fd hp, leaveGroupCalls_reclaimed h]
  by_cases hv : s.view.verdict fd (.leaveGroup g) = .ok
  · obtain ⟨n, hn, -⟩ := Chat.verdict_leaveGroup_eq_ok.mp hv
    have hone : (s.view.lastPair g).toList = [g].filterMap s.view.lastPair := by
      rw [List.filterMap_cons, List.filterMap_nil]
      cases s.view.lastPair g with
      | none => rfl
      | some pair => rfl
    rw [if_pos hv, if_pos hv, Chat.grant_leaveGroup hn, hone]
    refine .left (List.nodup_singleton g) (Chat.held_editUser _ _ _) ?_ rfl rfl
    rw [Chat.editUser_free, Chat.countOut_free, hone]
  · rw [if_neg hv, if_neg hv]
    exact .kept rfl rfl

theorem turn_joinGroup {g : CStr} (hp : Request.parse msg = some (.joinGroup g)) :
    s.view.Turn (s.step (.message fd msg [])).1.view [] [] := by
  rw [view_message h fd hp]
  by_cases hv : s.view.verdict fd (.joinGroup g) = .ok
  · obtain ⟨n, gr, hn, hg, -⟩ := Chat.verdict_joinGroup_eq_ok.mp hv
    rw [if_pos hv, Chat.grant_joinGroup hn, Chat.countIn_of_some hg]
    exact .kept (Chat.held_update_same rfl hg (Group.pair_countIn gr)) rfl
  · rw [if_neg hv]
    exact .kept rfl rfl

theorem turn_logout (hp : Request.parse msg = some .logout) :
    s.view.Turn (s.step (.message fd msg [])).1.view []
      ((s.logoutCalls fd []).filterMap LeaveCall.reclaimed) := by
  have hview : (s.step (.message fd msg [])).1.view = s.view.hangUp fd := by
    rw [view_message h fd hp]
    by_cases hv : s.view.verdict fd .logout = .ok
    · rw [if_pos hv]
      rfl
    · rw [if_neg hv, Chat.hangUp_of_none]
      refine Option.eq_none_iff_forall_ne_some.mpr fun n hn => hv ?_
      obtain ⟨i, hfd, hi⟩ := Chat.session_eq_some_iff.mp hn
      exact Chat.verdict_logout_eq_ok.mpr ⟨i, n, hfd, hi⟩
  rw [hview]
  exact turn_hangUp h fd []

/-- **What one call does to the stock of pairs.** -/
theorem turn {e : Event} (he : e.alloc = []) :
    s.view.Turn (s.step e).1.view (s.assigned e) (s.reclaimed e) := by
  cases e with
  | disconnect fd al =>
    obtain rfl : al = [] := he
    have hview : (s.step (.disconnect fd [])).1.view = s.view.hangUp fd :=
      (onDisconnect_refines h fd []).2 rfl
    rw [hview]
    exact turn_hangUp h fd []
  | message fd msg al =>
    obtain rfl : al = [] := he
    rw [reclaimed, leaveCalls]
    cases hp : Request.parse msg with
    | none =>
      rw [(message_of_no_request h hp).1, assigned, hp]
      exact .kept rfl rfl
    | some r =>
      cases r with
      | register n p =>
        rw [view_message h fd hp, assigned, hp]
        split <;> exact .kept rfl rfl
      | login n p =>
        rw [view_message h fd hp, assigned, hp]
        split
        · rw [Chat.grant]
          split <;> exact .kept rfl rfl
        · exact .kept rfl rfl
      | logout =>
        rw [assigned, hp]
        exact turn_logout h fd hp
      | createGroup g =>
        simp only [createCalls_noFailure h fd (Request.fits_of_parse hp), List.filterMap_nil]
        exact turn_createGroup h fd hp
      | joinGroup g =>
        simp only [joinCalls_reclaimed h fd g]
        rw [assigned, hp]
        exact turn_joinGroup h fd hp
      | leaveGroup g =>
        rw [assigned, hp]
        exact turn_leaveGroup h fd hp

end

/-! ## Whole runs -/

/-- **The pool is a queue.**  Over a run, what was in the pool and what came back to it is what was
assigned and then what is in the pool now, in this order. -/
theorem pool_law {s : ServerMng} (h : s.Inv) {es : List Event} (hes : ∀ e ∈ es, e.alloc = []) :
    s.groupMng.free ++ s.reclamations es = s.assignments es ++ (s.run es).groupMng.free := by
  induction es generalizing s with
  | nil => rw [reclamations, assignments, List.append_nil]; rfl
  | cons e es ih =>
    have hpool : s.groupMng.free ++ s.reclaimed e
        = s.assigned e ++ (s.step e).1.groupMng.free :=
      (turn h (hes e List.mem_cons_self)).pool
    rw [reclamations, assignments, ← List.append_assoc, hpool, List.append_assoc, List.append_assoc,
      ih (h.step e) fun e' he' => hes e' (List.mem_cons_of_mem e he')]
    rfl

theorem held_eq_none_iff {s : ServerMng} {g : CStr} :
    s.view.held g = none ↔ s.groupMng.group g = none :=
  Option.map_eq_none_iff

theorem free_init {s₀ : ServerMng} (h₀ : init [] = some s₀) : s₀.groupMng.free = mcastFill := by
  obtain ⟨s, hs, hfree⟩ := init_noFailure
  rw [h₀, Option.some_inj] at hs
  rw [hs]
  exact hfree

end ServerMng

/-! ## The theorem -/

open ServerMng

/-- **Reclaimed addresses are reused last.**  In every run without allocation failure the pairs are
assigned in the order in which they entered the pool: first 239.1.1.1 to 239.1.1.255, then as they
came back.  And when the pair `p` comes back in the call `e`, after the pairs `r₁`, it is not
assigned again before every pair that was in the pool then has been.  Assigned is the pair of a
group that was not there before a call and is there after it; reclaimed, the other way round. -/
theorem addresses_reused_in_order {s₀ : ServerMng} (h₀ : ServerMng.init [] = some s₀)
    {es : List Event} (hes : ∀ e ∈ es, e.alloc = []) :
    mcastFill ++ s₀.reclamations es = s₀.assignments es ++ (s₀.run es).groupMng.free ∧
    (∀ es₁ e es₂ r₁ p r₂ a₁ a₂, es = es₁ ++ e :: es₂ →
      (s₀.run es₁).reclaimed e = r₁ ++ p :: r₂ →
      ((s₀.run es₁).step e).1.assignments es₂ = a₁ ++ p :: a₂ →
        ∀ q ∈ (s₀.run es₁).groupMng.free ++ r₁, q ∈ a₁) ∧
    (∀ es₁ e es₂ p, es = es₁ ++ e :: es₂ →
      (p ∈ (s₀.run es₁).assigned e ↔
        ∃ g gr, (s₀.run es₁).groupMng.group g = none ∧
          ((s₀.run es₁).step e).1.groupMng.group g = some gr ∧ gr.pair = p) ∧
      (p ∈ (s₀.run es₁).reclaimed e ↔
        ∃ g gr, (s₀.run es₁).groupMng.group g = some gr ∧ gr.pair = p ∧
          ((s₀.run es₁).step e).1.groupMng.group g = none)) := by
  have hinv : ∀ es, (s₀.run es).Inv := inv_reachable h₀
  refine ⟨?_, ?_, ?_⟩
  · rw [← free_init h₀]
    exact pool_law (inv_init h₀) hes
  · intro es₁ e es₂ r₁ p r₂ a₁ a₂ hsplit hback hagain
    have he : e.alloc = [] := hes e (by rw [hsplit]; simp)
    have hlater : ∀ e' ∈ es₂, e'.alloc = [] := fun e' he' => hes e' (by rw [hsplit]; simp [he'])
    have hafter := (hinv es₁).step e
    -- the call that gives a pair back assigns none, so the pool is what it was and what came back
    have hpool : (s₀.run es₁).groupMng.free ++ r₁ ++ p :: r₂
        = (s₀.run es₁).assigned e ++ ((s₀.run es₁).step e).1.groupMng.free := by
      rw [List.append_assoc, ← hback]
      exact (turn (hinv es₁) he).pool
    cases turn (hinv es₁) he with
    | lent hg hfree hheld ha hr =>
      rw [hback] at hr
      exact absurd hr (by simp)
    | left hl hheld hfree ha hr =>
      rw [ha, List.nil_append] at hpool
      have hnd : ((s₀.run es₁).groupMng.free ++ r₁ ++ p :: r₂).Nodup := by
        rw [hpool]
        exact hafter.addresses.nodup
      have hlaw := pool_law hafter hlater
      rw [← hpool, hagain, List.append_assoc, List.cons_append] at hlaw
      refine subset_of_append_cons (fun hmem => ?_) hlaw
      exact (List.nodup_append.mp hnd).2.2 p hmem p List.mem_cons_self rfl
  · intro es₁ e es₂ p hsplit
    have hturn := turn (hinv es₁) (hes e (by rw [hsplit]; simp))
    rw [hturn.mem_assigned, hturn.mem_reclaimed]
    simp only [held_eq_none_iff, Chat.held_eq_some_iff]
    refine ⟨⟨?_, ?_⟩, ⟨?_, ?_⟩⟩
    · rintro ⟨g, hn, gr, hgr, hp⟩
      exact ⟨g, gr, hn, hgr, hp⟩
    · rintro ⟨g, gr, hn, hgr, hp⟩
      exact ⟨g, hn, gr, hgr, hp⟩
    · rintro ⟨g, ⟨gr, hgr, hp⟩, hn⟩
      exact ⟨g, gr, hgr, hp, hn⟩
    · rintro ⟨g, gr, hgr, hp, hn⟩
      exact ⟨g, ⟨gr, hgr, hp⟩, hn⟩

/-- The user `a` founds the group `g`, leaves it and founds it again. -/
def secondAddress : List Event :=
  firstGroup ++ [.message 4 [11, 2, 1, 103] [], .message 4 [7, 2, 1, 103] []]

theorem addresses_reused_in_order_secondAddress :
    ∃ s₀, ServerMng.init [] = some s₀ ∧
      s₀.assignments secondAddress = [mcastPair 1, mcastPair 2] ∧
      s₀.reclamations secondAddress = [mcastPair 1] ∧
      mcastFill ++ s₀.reclamations secondAddress
        = s₀.assignments secondAddress ++ (s₀.run secondAddress).groupMng.free := by
  have hrun : (ServerMng.init []).map (fun s =>
      (s.assignments secondAddress, s.reclamations secondAddress))
        = some ([mcastPair 1, mcastPair 2], [mcastPair 1]) := by
    decide +kernel
  obtain ⟨s₀, h₀, hpairs⟩ := Option.map_eq_some_iff.mp hrun
  obtain ⟨ha, hr⟩ := Prod.mk.inj hpairs
  exact ⟨s₀, h₀, ha, hr, (addresses_reused_in_order h₀ (by decide)).1⟩

end ChatProject
