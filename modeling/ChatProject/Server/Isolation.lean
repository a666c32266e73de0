import ChatProject.Server.Membership
import ChatProject.Service.Frame

/-!
# What a request does not do

All handlers work on the same two managers, so what a call leaves alone has to be shown.  There are
two results of this kind, both read off the service.

* `refused_changes_nothing` — a request that is not answered `ST_OK` leaves everything as it was,
  although several handlers change state before they check.
* `sockets_isolated` — a call on one descriptor concerns the user of that descriptor and the groups
  it names; everybody else keeps everything.
-/

set_option autoImplicit false

namespace ChatProject

open ServerMng

/-- **A request that is not answered `ST_OK` changes nothing.**  In every reachable state, for every
frame on every descriptor that is not negative: if no reply or a reply with another status is sent,
then afterwards all users with their passwords, sessions and lists, all groups with their counts and
addresses, and the pool with its order are what they were. -/
theorem refused_changes_nothing {al : Alloc} {s₀ : ServerMng} (h₀ : ServerMng.init al = some s₀)
    (es : List Event) {fd : Int} (hfd : 0 ≤ fd) {msg : List UInt8}
    (hst : ∀ r, Request.parse msg = some r →
      answer fd r.repOpcode ((s₀.run es).step (.message fd msg [])).2 ≠ some .ok) :
    let s := s₀.run es
    let s' := (s.step (.message fd msg [])).1
    s'.userMng.user = s.userMng.user ∧ s'.userMng.sock = s.userMng.sock ∧
      s'.groupMng.group = s.groupMng.group ∧ s'.groupMng.free = s.groupMng.free := by
  intro s s'
  have h : s.Inv := inv_reachable h₀ es
  have hview : s'.view = s.view := by
    cases hp : Request.parse msg with
    | none => exact (message_of_no_request h hp).1
    | some r =>
      have hserve := congrArg Prod.fst (message_eq_serve h fd hp)
      rw [Chat.serve, if_neg fun hv => hst r hp (by rw [answer_message h hfd hp, hv])] at hserve
      exact hserve
  exact ⟨congrArg Chat.user hview, congrArg Chat.sock hview, congrArg Chat.group hview,
    congrArg Chat.free hview⟩

/-- After `sharedGroup`, a second JOIN of `g` by `b`, who is in it: the count that went up comes
down again.  And a JOIN whose payload is empty, which is not answered. -/
theorem refused_changes_nothing_join :
    ∃ s₀, ServerMng.init [] = some s₀ ∧
      (let s := s₀.run sharedGroup
      let s' := (s.step (.message 5 [9, 2, 1, 103] [])).1
      answer 5 .joinGroupRep (s.step (.message 5 [9, 2, 1, 103] [])).2 = some .errAlreadyInGroup ∧
        (s.groupMng.group ⟨[103], by decide⟩).map Group.memberCount = some 2 ∧
        s'.userMng.user = s.userMng.user ∧ s'.userMng.sock = s.userMng.sock ∧
        s'.groupMng.group = s.groupMng.group ∧ s'.groupMng.free = s.groupMng.free) ∧
      let s := s₀.run sharedGroup
      let s' := (s.step (.message 5 [9, 0] [])).1
      (s.step (.message 5 [9, 0] [])).2 = [] ∧
        s'.userMng.user = s.userMng.user ∧ s'.userMng.sock = s.userMng.sock ∧
        s'.groupMng.group = s.groupMng.group ∧ s'.groupMng.free = s.groupMng.free := by
  have hrun : (ServerMng.init []).map (fun s =>
      (answer 5 .joinGroupRep ((s.run sharedGroup).step (.message 5 [9, 2, 1, 103] [])).2,
        ((s.run sharedGroup).groupMng.group ⟨[103], by decide⟩).map Group.memberCount,
        ((s.run sharedGroup).step (.message 5 [9, 0] [])).2)) =
      some (some .errAlreadyInGroup, some 2, []) := by
    decide +kernel
  obtain ⟨s₀, h₀, hend⟩ := Option.map_eq_some_iff.mp hrun
  simp only [Prod.mk.injEq] at hend
  obtain ⟨hans, hcount, hsent⟩ := hend
  have hparse : Request.parse [9, 2, 1, 103] = some (.joinGroup ⟨[103], by decide⟩) := by decide
  have hnone : Request.parse [9, 0] = none := by decide
  refine ⟨s₀, h₀, ⟨hans, hcount, refused_changes_nothing h₀ sharedGroup (by decide) ?_⟩,
    hsent, refused_changes_nothing h₀ sharedGroup (by decide) ?_⟩
  · intro r hr
    rw [hparse, Option.some_inj] at hr
    subst hr
    rw [show Request.repOpcode (.joinGroup _) = .joinGroupRep from rfl, hans]
    simp
  · intro r hr
    rw [hnone] at hr
    exact absurd hr (by simp)

/-- **Sockets are isolated.**  In every reachable state, for every call and every pattern of
allocation failures in it: every user other than the one on the descriptor of the call, before or
after it, keeps its whole record; the socket array changes at that descriptor only; a group that
survives keeps its address; a group the call does not concern keeps everything; and a call on a
descriptor without a session changes no group, no list and not the pool. -/
theorem sockets_isolated {al : Alloc} {s₀ : ServerMng} (h₀ : ServerMng.init al = some s₀)
    (es : List Event) (e : Event) :
    let s := s₀.run es
    let s' := (s.step e).1
    (∀ n u, s.userMng.user n = some u → s.view.session e.sockfd ≠ some n →
      s'.view.session e.sockfd ≠ some n → s'.userMng.user n = some u) ∧
    (∀ i : Fin fdSetSize, e.sockfd ≠ ((i : Nat) : Int) →
      s'.userMng.activeSockets i = s.userMng.activeSockets i) ∧
    (∀ g gr gr', s.groupMng.group g = some gr → s'.groupMng.group g = some gr' →
      gr'.pair = gr.pair) ∧
    (∀ g, g ∉ s.view.concerns e → s'.groupMng.group g = s.groupMng.group g) ∧
    (s.view.session e.sockfd = none → s'.groupMng.group = s.groupMng.group ∧
      s'.groupMng.free = s.groupMng.free ∧ s'.view.joined = s.view.joined) := by
  intro s s'
  have h : s.Inv := inv_reachable h₀ es
  have hstep := step_refines h e
  refine ⟨fun n u hu hn hn' => hstep.user_of_ne hu hn hn',
    fun i hi => (s.oneCall_step e).activeSockets hi, fun g gr gr' hg hg' => ?_,
    fun g hg => hstep.group_of_notMem hg, fun hs => hstep.of_no_session hs⟩
  exact hstep.held (Chat.held_of_group hg) (Chat.held_of_group (c := s'.view) hg')

/-- The user of descriptor 4 is not touched by a frame on descriptor 5. -/
theorem sockets_isolated_firstGroup :
    ∃ s₀, ServerMng.init [] = some s₀ ∧
      ((s₀.run firstGroup).userMng.activeSockets ⟨4, by decide⟩).isSome = true ∧
      ((s₀.run firstGroup).step (.message 5 [9, 2, 1, 103] [])).1.userMng.activeSockets
        ⟨4, by decide⟩ = (s₀.run firstGroup).userMng.activeSockets ⟨4, by decide⟩ := by
  have hrun : (ServerMng.init []).map (fun s =>
      ((s.run firstGroup).userMng.activeSockets ⟨4, by decide⟩).isSome) = some true := by
    decide +kernel
  obtain ⟨s₀, h₀, hact⟩ := Option.map_eq_some_iff.mp hrun
  exact ⟨s₀, h₀, hact,
    (sockets_isolated h₀ firstGroup (.message 5 [9, 2, 1, 103] [])).2.1 ⟨4, by decide⟩
      (by decide)⟩

end ChatProject
