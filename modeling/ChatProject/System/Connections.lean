import ChatProject.Server.Refinement
import ChatProject.Server.ServerLoop
import ChatProject.Service.Frame

/-!
# The network loop and the management layer together

`server/server_main.c` hands `ServerMng_HandleMessage` and `ServerMng_OnDisconnect` to the network
layer as its callbacks.  The kernel gives out descriptor numbers again as soon as they are closed,
and the management layer knows a peer by nothing but its descriptor, so everything depends on no
session outliving its connection (`no_session_survives`).

* `Mng` — the management layer as a context of the loop.
* `Server.Inv` — the invariant across the two layers: whoever has a session has a connection.
-/

set_option autoImplicit false

namespace ChatProject

open ServerMng ServerNet

/-! ## The callbacks -/

/-- The management layer as the network layer sees it. -/
structure Mng where
  /-- The two managers. -/
  mng : ServerMng
  /-- What has been sent so far. -/
  sent : List Packet
  /-- The allocation failures that strike in each of the coming calls. -/
  mem : List Alloc

/-- A call from the network layer. -/
def Mng.call (e : Alloc → Event) (m : Mng) : Mng :=
  let r := m.mng.step (e (m.mem.headD []))
  ⟨r.1, m.sent ++ r.2, m.mem.tail⟩

/-- `ServerMng_HandleMessage` as `onMsg`. -/
def onMsg (sockfd : Int) (msg : List UInt8) : Mng → Mng := Mng.call (.message sockfd msg)

/-- `ServerMng_OnDisconnect` as `onDisc`. -/
def onDisc (sockfd : Int) : Mng → Mng := Mng.call (.disconnect sockfd)

/-- The server: the loop with these two callbacks. -/
abbrev Server := Loop Mng

namespace Server

/-- One step of the server. -/
def step (s : Server) (a : Answers) : Server := Loop.step onMsg onDisc s a

/-- The states of the server that `main` starts. -/
def Reachable (net : ServerNet) (mng : ServerMng) (mem : List Alloc) (s : Server) : Prop :=
  Loop.Reachable onMsg onDisc (Loop.start net ⟨mng, [], mem⟩) s

/-- The invariant across the two layers. -/
structure Inv (s : Server) : Prop where
  net : s.net.Inv
  mng : s.ctx.mng.Inv
  /-- Whoever has a session has a connection. -/
  connected : ∀ i : Fin fdSetSize, s.ctx.mng.userMng.activeSockets i ≠ none →
    s.net.Occupied ((i : Nat) : Int)

end Server

/-! ## Calls -/

/-- What a call on one descriptor keeps: the invariant, and the sessions on all others. -/
structure Mng.KeepsOthers (fd : Int) (m m' : Mng) : Prop where
  inv : m'.mng.Inv
  others : ∀ i : Fin fdSetSize, fd ≠ ((i : Nat) : Int) →
    m'.mng.userMng.activeSockets i = m.mng.userMng.activeSockets i

theorem Mng.keepsOthers_call {fd : Int} {m : Mng} (h : m.mng.Inv) (e : Alloc → Event)
    (he : ∀ al, (e al).sockfd = fd) : KeepsOthers fd m (m.call e) where
  inv := h.step _
  others i hi := (m.mng.oneCall_step _).activeSockets (by rwa [he])

theorem Mng.keepsOthers_frames {fd : Int} {m : Mng} (h : m.mng.Inv) (frames : List (List UInt8)) :
    KeepsOthers fd m (frames.foldl (fun m msg => onMsg fd msg m) m) := by
  induction frames generalizing m with
  | nil => exact ⟨h, fun _ _ => rfl⟩
  | cons msg frames ih =>
    have hcall : KeepsOthers fd m (onMsg fd msg m) :=
      keepsOthers_call h (.message fd msg) fun _ => rfl
    have hrest := ih hcall.inv
    exact ⟨hrest.inv, fun i hi => (hrest.others i hi).trans (hcall.others i hi)⟩

/-- After a disconnect the descriptor has no session, and whoever had it is offline and in no
group. -/
theorem ServerMng.onDisconnect_ends {s : ServerMng} (h : s.Inv) (fd : Int) (al : Alloc) :
    (s.onDisconnect fd al).view.session fd = none ∧
      ∀ n u, s.view.session fd = some n → s.view.user n = some u →
        (s.onDisconnect fd al).view.user n = some u.unbind := by
  obtain ⟨hloss, -⟩ := onDisconnect_refines h fd al
  constructor
  · rw [Chat.session_congr hloss.sock, Chat.session_hangUp, Function.update_self]
  · intro n u hn hu
    obtain ⟨i, hfd, hi⟩ := Chat.session_eq_some_iff.mp hn
    have huser : ((s.view.joined n).foldl Chat.countOut s.view).user n = some u := by
      rw [Chat.foldl_countOut_user, hu]
    rw [hloss.user, Chat.hangUp_of_session hfd hi]
    exact (congrFun (Chat.editUser_user huser User.unbind) n).trans (Function.update_self ..)

theorem Mng.activeSockets_onDisc {fd : Int} {m : Mng} (h : m.mng.Inv) {i : Fin fdSetSize}
    (hi : fd = ((i : Nat) : Int)) : (onDisc fd m).mng.userMng.activeSockets i = none := by
  have hend := (onDisconnect_ends h fd (m.mem.headD [])).1
  rw [Chat.session_of_fdIndex (fdIndex_eq_some_iff.mpr hi)] at hend
  exact UserMng.sock_eq_none_iff.mp hend

/-! ## Runs -/

namespace Server

theorem Inv.step {s : Server} (h : s.Inv) {a : Answers} (hp : s.Promised a) :
    (s.step a).Inv := by
  refine ⟨Loop.inv_step onMsg onDisc h.net fun _ => hp, ?_, ?_⟩ <;> rw [Server.step]
  · cases Loop.step_effect onMsg onDisc h.net (fun _ => hp) with
    | idle _ hctx => rw [hctx]; exact h.mng
    | accepted _ _ _ _ _ _ _ hctx => rw [hctx]; exact h.mng
    | closed _ _ _ _ _ hctx => rw [hctx]; exact h.mng.step _
    | received _ _ frames _ _ _ _ _ hctx =>
      rw [hctx]
      exact (Mng.keepsOthers_frames h.mng frames).inv
  · intro i
    cases Loop.step_effect onMsg onDisc h.net (fun _ => hp) with
    | idle hnet hctx =>
      rw [hnet, hctx]
      exact h.connected i
    | accepted k _ hfree h0 _ _ hnet hctx =>
      rw [hnet, hctx]
      exact fun hi => (occupied_installed hfree h0 _).mpr (.inr (h.connected i hi))
    | closed k _ _ _ hnet hctx =>
      rw [hnet, hctx]
      intro hi
      have hne : (s.net.clients k).fd ≠ ((i : Nat) : Int) := fun heq =>
        hi (Mng.activeSockets_onDisc h.mng heq)
      have hkeep := Mng.keepsOthers_call h.mng (.disconnect (s.net.clients k).fd) fun _ => rfl
      rw [onDisc, hkeep.others i hne] at hi
      exact (h.net.occupied_dropped k _).mpr ⟨hne.symm, h.connected i hi⟩
    | received k c frames _ hread hfd _ hnet hctx =>
      rw [hnet, hctx]
      intro hi
      rw [occupied_kept hfd]
      by_cases heq : (s.net.clients k).fd = ((i : Nat) : Int)
      · exact ⟨by omega, k, heq⟩
      · rw [(Mng.keepsOthers_frames h.mng frames).others i heq] at hi
        exact h.connected i hi

/-- Every state of the server is in order. -/
theorem inv_reachable {al al' : Alloc} {mng : ServerMng} (hmng : ServerMng.init al = some mng)
    {listenFd : Int} (h0 : 0 ≤ listenFd) {opened : FdSet} (hopen : opened listenFd = true)
    {net : ServerNet} (hnet : ServerNet.create al' listenFd opened = some net) {mem : List Alloc}
    {s : Server} (hs : Reachable net mng mem s) : s.Inv := by
  induction hs with
  | refl =>
    refine ⟨inv_create h0 hopen hnet, inv_init hmng, fun i hi => absurd ?_ hi⟩
    exact UserMng.sock_eq_none_iff.mp (congrFun (init_spec hmng).2.2.1 i)
  | tail _ hstep ih =>
    obtain ⟨a, hp, rfl⟩ := hstep
    exact ih.step hp

end Server

/-- **No session survives its connection.**  In every state of the server, whatever the order of
accepts, reads and closes, the bytes that come in and the allocations that fail:

* a descriptor with a session is the descriptor of an occupied slot;
* a descriptor that `HandleNewConnection` puts into a slot has no session, and the slot an empty
  buffer, also when the number was in use before;
* when a connection ends, its slot is free with an empty buffer, and its user is offline and in no
  group and can log in with the same password on every other descriptor. -/
theorem no_session_survives {al al' : Alloc} {mng : ServerMng}
    (hmng : ServerMng.init al = some mng) {listenFd : Int} (h0 : 0 ≤ listenFd) {opened : FdSet}
    (hopen : opened listenFd = true) {net : ServerNet}
    (hnet : ServerNet.create al' listenFd opened = some net) {mem : List Alloc} {s : Server}
    (hs : Server.Reachable net mng mem s) :
    (∀ i : Fin fdSetSize, s.ctx.mng.userMng.activeSockets i ≠ none →
      ∃ k, (s.net.clients k).fd = ((i : Nat) : Int)) ∧
    (∀ a k, s.Promised a → s.phase = .accept → (s.net.clients k).fd = -1 →
      ((s.step a).net.clients k).fd ≠ -1 →
        ((s.step a).net.clients k).fd = a.accepted ∧ ((s.step a).net.clients k).len = 0 ∧
        ∀ i : Fin fdSetSize, a.accepted = ((i : Nat) : Int) →
          (s.step a).ctx.mng.userMng.activeSockets i = none) ∧
    (∀ a (k : Fin maxClients) n u, s.Promised a → s.phase = .scan k → s.readable k = true →
      a.inbox.bytes = [] → s.ctx.mng.view.session (s.net.clients k).fd = some n →
      s.ctx.mng.userMng.user n = some u →
        ((s.step a).net.clients k).fd = -1 ∧ ((s.step a).net.clients k).len = 0 ∧
        (s.step a).ctx.mng.view.session (s.net.clients k).fd = none ∧
        (s.step a).ctx.mng.userMng.user n = some u.unbind ∧
        ∀ fd : Int, 0 ≤ fd → fd < fdSetSize → (s.step a).ctx.mng.view.session fd = none →
          ((s.step a).ctx.mng.userMng.login n u.password fd).1 = .ok) := by
  have h := Server.inv_reachable hmng h0 hopen hnet hs
  refine ⟨fun i hi => (h.connected i hi).2, fun a k hp hphase hfree hinst => ?_,
    fun a k n u hp hphase hread hend hn hu => ?_⟩
  · rw [Server.step] at hinst ⊢
    cases Loop.step_effect onMsg onDisc h.net (fun _ => hp) with
    | idle hnet => exact absurd (hnet ▸ hfree) hinst
    | accepted j _ _ _ _ hnew hnet hctx =>
      rw [hnet] at hinst ⊢
      rw [hctx]
      obtain rfl : k = j := by
        by_contra hkj
        exact hinst ((congrArg ClientState.fd (Function.update_of_ne hkj _ _)).trans hfree)
      rw [show (s.net.installed k a.accepted).clients k = _ from Function.update_self ..]
      refine ⟨rfl, rfl, fun i hi => ?_⟩
      by_contra hne
      exact h.net.not_occupied_of_closed hnew (hi ▸ h.connected i hne)
    | closed _ hscan => exact absurd (hphase.symm.trans hscan) (by simp)
    | received _ _ _ hscan => exact absurd (hphase.symm.trans hscan) (by simp)
  · have hdisc := onDisconnect_ends h.mng (s.net.clients k).fd (s.ctx.mem.headD [])
    rw [Server.step, Loop.step_of_closed onMsg onDisc h.net hphase hread hend]
    simp only
    rw [show (s.net.dropped k).clients k = _ from Function.update_self ..]
    have huser := hdisc.2 n u hn hu
    refine ⟨rfl, rfl, hdisc.1, huser, fun fd hfd hlt hfree => ?_⟩
    obtain ⟨i, hi⟩ := exists_fdIndex hfd hlt
    rw [Chat.session_of_fdIndex hi] at hfree
    obtain ⟨m', hlogin, -⟩ := UserMng.login_of_offline hi hfree huser rfl rfl
    exact congrArg Prod.fst hlogin

/-- A client gets descriptor 4, registers as `a` and logs in. -/
def guest : List (Option Answers) :=
  [some ⟨true, .ready fun fd => fd = 3, -1, nothingSent⟩,
    some ⟨true, .interrupted, 4, nothingSent⟩, none,
    some ⟨true, .ready fun fd => fd = 4, -1, nothingSent⟩,
    some ⟨true, .interrupted, -1, nothingSent⟩,
    some ⟨true, .interrupted, -1, ⟨[[1, 4, 1, 97, 1, 98, 3, 4, 1, 97, 1, 98]], by decide, false⟩⟩,
    none]

/-- Then something is reported on that descriptor again. -/
def leaving : List (Option Answers) :=
  guest ++ [some ⟨true, .ready fun fd => fd = 4, -1, nothingSent⟩,
    some ⟨true, .interrupted, -1, nothingSent⟩]

/-- It is the end of the stream; and after that somebody else connects. -/
def nextGuest : List (Option Answers) :=
  leaving ++ [some ⟨true, .interrupted, -1, nothingSent⟩, none,
    some ⟨true, .ready fun fd => fd = 3, -1, nothingSent⟩]

/-- The server that has come up with `mng`, after these steps. -/
def Server.after (mng : ServerMng) (acts : List (Option Answers)) : Server :=
  Machine.run (Loop.stride onMsg onDisc) (Loop.start firstNet ⟨mng, [], []⟩) acts

theorem Server.reachable_after {mng : ServerMng} {acts : List (Option Answers)}
    (h : Machine.Along (Loop.stride onMsg onDisc) Loop.Strides (Loop.start firstNet ⟨mng, [], []⟩)
      acts) : Server.Reachable firstNet mng [] (Server.after mng acts) :=
  Loop.reachable_of_strides onMsg onDisc h

/-- The session of `a` is on descriptor 4; when the client is gone, there is none and `a` can log in
elsewhere; and a connection that gets descriptor 4 again starts from nothing. -/
theorem no_session_survives_nextGuest :
    ∃ mng, ServerMng.init [] = some mng ∧
      ServerNet.create [] 3 (fun fd => 0 ≤ fd ∧ fd ≤ 3) = some firstNet ∧
      ((Server.after mng guest).ctx.mng.view.session 4 = some ⟨[97], by decide⟩ ∧
        ∃ k, ((Server.after mng guest).net.clients k).fd = 4) ∧
      (let s := (Server.after mng leaving).step ⟨true, .interrupted, -1, nothingSent⟩
      s.ctx.mng.view.session 4 = none ∧
        (s.ctx.mng.userMng.login ⟨[97], by decide⟩ ⟨[98], by decide⟩ 5).1 = .ok) ∧
      let s := (Server.after mng nextGuest).step ⟨true, .interrupted, 4, nothingSent⟩
      (s.net.clients ⟨0, by decide⟩).fd = 4 ∧ (s.net.clients ⟨0, by decide⟩).len = 0 ∧
        s.ctx.mng.userMng.activeSockets ⟨4, by decide⟩ = none := by
  have hnet : ServerNet.create [] 3 (fun fd => 0 ≤ fd ∧ fd ≤ 3) = some firstNet := rfl
  have hopen : (fun fd : Int => decide (0 ≤ fd ∧ fd ≤ 3)) 3 = true := rfl
  have hstrides : (ServerMng.init []).map (fun mng =>
      decide (Machine.Along (Loop.stride onMsg onDisc) Loop.Strides
        (Loop.start firstNet ⟨mng, [], []⟩) nextGuest)) = some true := by
    decide +kernel
  have hin : (ServerMng.init []).map (fun mng =>
      ((Server.after mng guest).ctx.mng.view.session 4,
        ((Server.after mng guest).ctx.mng.userMng.activeSockets ⟨4, by decide⟩).isSome)) =
      some (some ⟨[97], by decide⟩, true) := by
    decide +kernel
  have hleaving : (ServerMng.init []).map (fun mng =>
      let s := Server.after mng leaving
      ((s.phase, s.readable ⟨0, by decide⟩, (s.net.clients ⟨0, by decide⟩).fd,
        s.ctx.mng.view.session 4),
        (s.ctx.mng.userMng.user ⟨[97], by decide⟩).map User.password,
        (s.step ⟨true, .interrupted, -1, nothingSent⟩).ctx.mng.view.session 5)) =
      some ((.scan 0, true, 4, some ⟨[97], by decide⟩), some ⟨[98], by decide⟩, none) := by
    decide +kernel
  have hnext : (ServerMng.init []).map (fun mng =>
      let s := Server.after mng nextGuest
      (s.phase, (s.net.clients ⟨0, by decide⟩).fd, s.net.tables.opened 4,
        ((s.step ⟨true, .interrupted, 4, nothingSent⟩).net.clients
          ⟨0, by decide⟩).fd)) = some (.accept, -1, false, 4) := by
    decide +kernel
  obtain ⟨mng, hmng, hstrides⟩ := Option.map_eq_some_iff.mp hstrides
  rw [hmng, Option.map_some, Option.some_inj] at hin hleaving hnext
  simp only [Prod.mk.injEq] at hin hleaving hnext
  have halong₃ := of_decide_eq_true hstrides
  have halong₂ := halong₃.of_append
  have halong₁ := halong₂.of_append
  have h0 : (0 : Int) ≤ 3 := by decide
  have law₁ := no_session_survives hmng h0 hopen hnet (Server.reachable_after halong₁)
  have law₂ := no_session_survives hmng h0 hopen hnet (Server.reachable_after halong₂)
  have law₃ := no_session_survives hmng h0 hopen hnet (Server.reachable_after halong₃)
  refine ⟨mng, hmng, hnet, ⟨hin.1, law₁.1 ⟨4, by decide⟩ (Option.ne_none_iff_isSome.mpr hin.2)⟩,
    ?_, ?_⟩
  · obtain ⟨⟨hphase, hread, hfd, hsession⟩, huser, hfree⟩ := hleaving
    obtain ⟨u, hu, hpass⟩ := Option.map_eq_some_iff.mp huser
    obtain ⟨-, -, hnone, -, hlogin⟩ := law₂.2.2 ⟨true, .interrupted, -1, nothingSent⟩ ⟨0, by decide⟩
      _ u (.inl rfl) hphase hread rfl (by rw [hfd]; exact hsession) hu
    rw [hfd] at hnone
    refine ⟨hnone, ?_⟩
    have hok := hlogin 5 (by decide) (by decide) hfree
    rwa [hpass] at hok
  · obtain ⟨hphase, hfree, hclosed, htaken⟩ := hnext
    have hp : (Server.after mng nextGuest).Promised ⟨true, .interrupted, 4, nothingSent⟩ := by
      rw [Loop.Promised]
      exact .inr ⟨by decide, by decide, by simp only [hclosed]⟩
    obtain ⟨hfd, hlen, hsock⟩ := law₃.2.1 ⟨true, .interrupted, 4, nothingSent⟩ ⟨0, by decide⟩
      hp hphase hfree (by rw [htaken]; decide)
    exact ⟨hfd, hlen, hsock ⟨4, by decide⟩ rfl⟩

end ChatProject
