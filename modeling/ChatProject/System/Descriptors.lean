import ChatProject.Lib.Handles
import ChatProject.Server.DescriptorRange
import ChatProject.System.Connections

/-!
# The descriptors of the server

`server/server_main.c` and what it calls to open and to close sockets.  Descriptors are opened in
two places (`SetupListeningSocket` and the `accept` of `HandleNewConnection`) and closed in five,
and one that is closed twice may be somebody else's by then: the kernel gives out the lowest number
that is free.

* `setupListeningSocket`, `ServerNet.setup` — the start, with everything that can go wrong there.
* `Loop.uses`, `ServerNet.destroy` — what a step of the loop, and `ServerNet_Destroy`, do to
  descriptors.
* `serverMain` — `main`, as far as descriptors go.
* `descriptors_in_turns` — however it runs and ends, each descriptor is opened and closed in turns.
-/

set_option autoImplicit false

namespace ChatProject

open Handles Machine

/-! ## The start -/

/-- What the surroundings answer to the calls of `SetupListeningSocket`. -/
structure SetupAnswers where
  socket : Int
  setsockopt : Int
  bind : Int
  listen : Int

/-- `SetupListeningSocket`: what it returns, and what it does about descriptors. -/
def setupListeningSocket (k : SetupAnswers) : Int × List (Use Int) :=
  if k.socket = -1 then (-1, [])
  else if k.setsockopt = -1 then (-1, [.opens k.socket, .closes k.socket])
  else if k.bind = -1 then (-1, [.opens k.socket, .closes k.socket])
  else if k.listen = -1 then (-1, [.opens k.socket, .closes k.socket])
  else (k.socket, [.opens k.socket])

/-- `ServerNet_Create`, where `opened` are the descriptors that are open when it is called. -/
def ServerNet.setup (al : Alloc) (opened : FdSet) (k : SetupAnswers) :
    Option ServerNet × List (Use Int) :=
  -- without memory there is no call of `SetupListeningSocket`
  if (malloc al).1 = false then (none, [])
  else
    let r := setupListeningSocket k
    (create al r.1 (opened.set k.socket), r.2)

/-! ## The loop and the end -/

/-- `HandleClientData` finds the stream at its end, or broken, and closes the slot's descriptor. -/
def ClientState.hangsUp (c : ClientState) (x : Inbox UInt8) : Bool :=
  let spaceLeft := sizeSub recvBufferSize c.len
  if spaceLeft = 0 then false
  else
    match (x.recv spaceLeft).1 with
    | some (_ :: _) => false
    | _ => true

/-- What a step of `ServerNet_Run` does about descriptors. -/
def Loop.uses {σ : Type} (s : Loop σ) (a : Answers) : List (Use Int) :=
  match s.phase with
  | .accept =>
    if s.readSet s.net.listenFd then
      if a.accepted = -1 then []
      else
        match s.net.freeSlot with
        | some _ => [.opens a.accepted]
        | none => [.opens a.accepted, .closes a.accepted]
    else []
  | .scan i =>
    if h : i < maxClients then
      if s.readable ⟨i, h⟩ && (s.net.clients ⟨i, h⟩).hangsUp a.inbox then
        [.closes (s.net.clients ⟨i, h⟩).fd]
      else []
    else []
  | .select | .stopped _ => []

/-- The descriptors of the connections, slot by slot. -/
def ServerNet.connections (net : ServerNet) : List Int :=
  ((List.finRange maxClients).map fun i => (net.clients i).fd).filter (· ≠ -1)

/-- `ServerNet_Destroy`. -/
def ServerNet.destroy (net : ServerNet) : List (Use Int) :=
  (net.connections ++ [net.listenFd]).map .closes

/-- A step of the server, and what it does about descriptors. -/
def Server.useStep (s : Server) (a : Answers) : Server × List (Use Int) := (s.step a, s.uses a)

/-- `main`: what it does about descriptors, and its exit code once it has returned.  The run of
`ServerNet_Run` gets the answers it is given and no more. -/
def serverMain (al al' : Alloc) (mem : List Alloc) (opened : FdSet) (k : SetupAnswers)
    (answers : List Answers) : List (Use Int) × Option Int :=
  match ServerMng.init al with
  | none => ([], some 1)
  | some mng =>
    match ServerNet.setup al' opened k with
    | (none, uses) => (uses, some 1)
    | (some net, uses) =>
      let start : Server := Loop.start net ⟨mng, [], mem⟩
      let uses := uses ++ ((trace Server.useStep start answers).map Prod.snd).flatten
      let s := run Server.useStep start answers
      match s.phase with
      | .stopped _ => (uses ++ s.net.destroy, some 0)
      | _ => (uses, none)

/-! ## What is held -/

/-- The descriptors of the network layer: the listening socket and the connections. -/
def ServerNet.held (net : ServerNet) : Set Int := {fd | fd = net.listenFd ∨ net.Occupied fd}

namespace ServerNet

variable {net : ServerNet}

theorem held_installed {i : Fin maxClients} (hi : (net.clients i).fd = -1) {newFd : Int}
    (h0 : 0 ≤ newFd) : (net.installed i newFd).held = insert newFd net.held := by
  ext fd
  show fd = net.listenFd ∨ _ ↔ fd = newFd ∨ fd = net.listenFd ∨ _
  rw [occupied_installed hi h0]
  exact or_left_comm

theorem Inv.held_dropped (h : net.Inv) {i : Fin maxClients} (hi : (net.clients i).fd ≠ -1) :
    (net.dropped i).held = net.held \ {(net.clients i).fd} := by
  ext fd
  show fd = net.listenFd ∨ _ ↔ (fd = net.listenFd ∨ _) ∧ fd ≠ _
  rw [h.occupied_dropped]
  constructor
  · rintro (rfl | ⟨hne, hocc⟩)
    · exact ⟨.inl rfl, fun heq => h.not_occupied ⟨heq ▸ hi, i, heq.symm⟩⟩
    · exact ⟨.inr hocc, hne⟩
  · rintro ⟨hfd | hocc, hne⟩
    · exact .inl hfd
    · exact .inr ⟨hne, hocc⟩

theorem held_kept {i : Fin maxClients} {c : ClientState} (hfd : c.fd = (net.clients i).fd) :
    (net.kept i c).held = net.held :=
  Set.ext fun fd => or_congr_right (occupied_kept hfd fd)

/-- What is not open is not held. -/
theorem Inv.not_held (h : net.Inv) {fd : Int} (hfd : net.tables.opened fd = false) :
    fd ∉ net.held := by
  rintro (rfl | hocc)
  · rw [h.listening] at hfd
    exact absurd hfd (by simp)
  · exact h.not_occupied_of_closed hfd hocc

theorem mem_connections {fd : Int} : fd ∈ net.connections ↔ net.Occupied fd := by
  rw [connections, List.mem_filter, List.mem_map, Occupied]
  constructor
  · rintro ⟨⟨i, -, hi⟩, hne⟩
    exact ⟨of_decide_eq_true hne, i, hi⟩
  · rintro ⟨hne, i, hi⟩
    exact ⟨⟨i, List.mem_finRange i, hi⟩, decide_eq_true hne⟩

theorem Inv.nodup_connections (h : net.Inv) : net.connections.Nodup := by
  rw [connections, List.Nodup, List.pairwise_filter, List.pairwise_map]
  refine (List.nodup_finRange maxClients).imp fun hij hi _ heq => hij ?_
  exact h.distinct _ _ (of_decide_eq_true hi) heq

/-- `ServerNet_Destroy` closes what is held, each descriptor once. -/
theorem Inv.destroy (h : net.Inv) : Takes net.held net.destroy ∅ := by
  refine takes_closeAll ?_ fun fd => ?_
  · refine List.nodup_append.mpr ⟨h.nodup_connections, List.nodup_singleton _, ?_⟩
    rintro fd hfd fd' hfd' rfl
    exact h.not_occupied (List.mem_singleton.mp hfd' ▸ mem_connections.mp hfd)
  · rw [List.mem_append, mem_connections, List.mem_singleton]
    exact or_comm

/-- **What `ServerNet_Create` can do.**  It ends with the listening socket, or with nothing. -/
theorem setup_cases (al : Alloc) {opened : FdSet} {k : SetupAnswers}
    (hk : k.socket = -1 ∨ 0 ≤ k.socket ∧ opened k.socket = false) :
    (∃ uses, setup al opened k = (none, uses) ∧ Takes ∅ uses ∅ ∧
      ∀ fd, .opens fd ∈ uses → opened fd = false) ∨
    ∃ net, setup al opened k = (some net, [.opens k.socket]) ∧ opened k.socket = false ∧
      net.Ledger k.socket (opened.set k.socket) ∧ net.held = {k.socket} := by
  have hnone : ∀ al opened, create al (-1) opened = none := fun al opened => by
    rw [create]
    split
    · rfl
    · exact if_pos rfl
  rw [setup]
  by_cases hal : (malloc al).1 = false
  · rw [if_pos hal]
    exact .inl ⟨[], rfl, .nil ∅, fun fd hfd => absurd hfd List.not_mem_nil⟩
  rw [if_neg hal, setupListeningSocket]
  by_cases hsocket : k.socket = -1
  · rw [if_pos hsocket]
    refine .inl ⟨[], ?_, .nil ∅, fun fd hfd => absurd hfd List.not_mem_nil⟩
    simp only [hnone]
  obtain ⟨h0, hnew⟩ := hk.resolve_left hsocket
  have hfail : ∃ uses, (create al (-1) (opened.set k.socket),
      [Use.opens k.socket, .closes k.socket]) = (none, uses) ∧ Takes ∅ uses ∅ ∧
      ∀ fd, .opens fd ∈ uses → opened fd = false := by
    refine ⟨_, by rw [hnone], takes_both (Set.notMem_empty _), fun fd hfd => ?_⟩
    obtain rfl : fd = k.socket := by simpa using hfd
    exact hnew
  rw [if_neg hsocket]
  split
  · exact .inl hfail
  split
  · exact .inl hfail
  split
  · exact .inl hfail
  right
  obtain ⟨net, hnet, hfree⟩ : ∃ net, create al k.socket (opened.set k.socket) = some net ∧
      ∀ i, (net.clients i).fd = -1 := by
    rw [create]
    cases hm : malloc al with
    | mk ok al =>
      obtain rfl : ok = true := by simpa [hm] using hal
      exact ⟨_, if_neg hsocket, fun _ => rfl⟩
  have hledger := ledger_create h0 ((FdSet.set_apply _ _ _).mpr (.inl rfl)) hnet
  refine ⟨net, by simp only [hnet], hnew, hledger, Set.ext fun fd => ?_⟩
  show fd = net.listenFd ∨ net.Occupied fd ↔ fd = k.socket
  rw [hledger.listenFd_eq]
  refine or_iff_left ?_
  rintro ⟨hne, i, hi⟩
  exact hne (hi.symm.trans (hfree i))

end ServerNet

/-! ## Runs -/

theorem ClientState.hangsUp_iff {c : ClientState} (h : c.Settled) (x : Inbox UInt8) :
    c.hangsUp x = true ↔ x.bytes = [] := by
  have hlt := h.len_lt
  have hspace : sizeSub recvBufferSize c.len = recvBufferSize - c.len := sizeSub_eq h.len_le
  have hpos : 0 < recvBufferSize - c.len := by
    rw [recvBufferSize]
    omega
  rw [hangsUp]
  simp only [hspace]
  rw [if_neg (Nat.ne_of_gt hpos)]
  obtain ⟨hend, hrecv⟩ | ⟨chunk, y, hchunk, -, hrecv, hbytes, -⟩ := x.recv_cases hpos
  · rw [hrecv, hend]
    cases x.broken <;> simp
  · rw [hrecv, hbytes]
    obtain ⟨b, bs, rfl⟩ := List.exists_cons_of_ne_nil hchunk
    simp

namespace Server

variable {listenFd : Int} {opened₀ : FdSet} {s : Server}

/-- A call of `accept`. -/
theorem takes_accept (h : s.net.Ledger listenFd opened₀) {a : Answers} (hphase : s.phase = .accept)
    (hp : s.Accepts → s.Promised a) :
    Takes s.net.held (s.uses a) (s.step a).net.held ∧
      ∀ fd, .opens fd ∈ s.uses a → opened₀ fd = false := by
  have hnone : ∀ fd, Use.opens fd ∈ [] → opened₀ fd = false := fun fd hfd =>
    absurd hfd List.not_mem_nil
  rw [step, Loop.step, Loop.uses, hphase]
  simp only
  by_cases hlisten : s.readSet s.net.listenFd = true
  · rw [if_pos hlisten, if_pos hlisten]
    by_cases hfail : a.accepted = -1
    · rw [if_pos hfail, ServerNet.handleNewConnection, if_pos hfail]
      exact ⟨.nil _, hnone⟩
    obtain ⟨h0, -, hnew⟩ := (hp ⟨hphase, hlisten⟩).resolve_left hfail
    have hheld := h.inv.not_held hnew
    have hstart : opened₀ a.accepted = false := Bool.eq_false_iff.mpr fun hstart =>
      absurd ((h.opened_iff _).mpr (.inl hstart)) (by simp [hnew])
    rw [if_neg hfail, ServerNet.handleNewConnection, if_neg hfail]
    cases hslot : s.net.freeSlot with
    | none =>
      refine ⟨takes_both hheld, fun fd hfd => ?_⟩
      obtain rfl : fd = a.accepted := by simpa using hfd
      exact hstart
    | some i =>
      have hi : (s.net.clients i).fd = -1 := by simpa using List.find?_some hslot
      refine ⟨?_, fun fd hfd => ?_⟩
      · show Takes s.net.held _ (s.net.installed i a.accepted).held
        rw [ServerNet.held_installed hi h0]
        exact takes_opens hheld
      · obtain rfl : fd = a.accepted := by simpa using hfd
        exact hstart
  · rw [if_neg hlisten, if_neg hlisten]
    exact ⟨.nil _, hnone⟩

/-- The scan at one slot. -/
theorem takes_scan (h : s.net.Inv) {a : Answers} (i : Fin maxClients)
    (hphase : s.phase = .scan i) :
    Takes s.net.held (s.uses a) (s.step a).net.held ∧ ∀ fd, .opens fd ∉ s.uses a := by
  rw [step, Loop.step, Loop.uses, hphase]
  simp only [i.isLt, dite_true]
  by_cases hread : s.readable i = true
  · have hne := (Loop.readable_iff.mp hread).1
    rw [hread, Bool.true_and, if_pos rfl]
    obtain ⟨hend, hserve⟩ | ⟨c, frames, hbytes, hfd, -, hserve⟩ :=
      Loop.serveSlot_cases onMsg onDisc h i a.inbox
    · rw [hserve, if_pos ((ClientState.hangsUp_iff (h.settled i) _).mpr hend)]
      refine ⟨?_, fun fd hfd => absurd hfd (by simp)⟩
      show Takes s.net.held _ (s.net.dropped i).held
      rw [h.held_dropped hne]
      exact takes_closes (.inr ⟨hne, i, rfl⟩)
    · rw [hserve, if_neg fun hup => hbytes ((ClientState.hangsUp_iff (h.settled i) _).mp hup)]
      refine ⟨?_, fun fd => List.not_mem_nil⟩
      show Takes s.net.held [] (s.net.kept i c).held
      rw [ServerNet.held_kept hfd]
      exact .nil _
  · rw [Bool.not_eq_true] at hread
    rw [hread]
    exact ⟨.nil _, fun fd => List.not_mem_nil⟩

/-- One step. -/
theorem takes_step (h : s.net.Ledger listenFd opened₀) {a : Answers}
    (hp : s.Accepts → s.Promised a) :
    Takes s.net.held (s.uses a) (s.step a).net.held ∧
      ∀ fd, .opens fd ∈ s.uses a → opened₀ fd = false := by
  have hidle : s.uses a = [] → (s.step a).net = s.net →
      Takes s.net.held (s.uses a) (s.step a).net.held ∧
        ∀ fd, .opens fd ∈ s.uses a → opened₀ fd = false := by
    intro huses hnet
    rw [huses, hnet]
    exact ⟨.nil _, fun fd hfd => absurd hfd List.not_mem_nil⟩
  cases hphase : s.phase with
  | select =>
    refine hidle (by rw [Loop.uses, hphase]) ?_
    rw [step, Loop.step, hphase]
    simp only
    split
    · rfl
    · split <;> rfl
  | accept => exact takes_accept h hphase hp
  | scan i =>
    by_cases hi : i < maxClients
    · obtain ⟨htakes, hopens⟩ := takes_scan h.inv (a := a) ⟨i, hi⟩ hphase
      exact ⟨htakes, fun fd hfd => absurd hfd (hopens fd)⟩
    · refine hidle ?_ ?_
      · rw [Loop.uses, hphase]
        exact dif_neg hi
      · rw [step, Loop.step, hphase]
        simp only
        rw [dif_neg hi]
  | stopped code =>
    refine hidle (by rw [Loop.uses, hphase]) ?_
    rw [step, Loop.step, hphase]

/-- A whole run. -/
theorem takes_run (h : s.net.Ledger listenFd opened₀) {answers : List Answers}
    (hp : Along useStep (fun s a => s.Accepts → s.Promised a) s answers) :
    (run useStep s answers).net.Inv ∧
      Takes s.net.held ((trace useStep s answers).map Prod.snd).flatten
        (run useStep s answers).net.held ∧
      ∀ fd, .opens fd ∈ ((trace useStep s answers).map Prod.snd).flatten →
        opened₀ fd = false := by
  induction answers generalizing s with
  | nil => exact ⟨h.inv, .nil _, fun fd hfd => absurd hfd List.not_mem_nil⟩
  | cons a answers ih =>
    obtain ⟨hstep, hopens⟩ := takes_step h hp.1
    obtain ⟨hinv, hrest, hrests⟩ := ih (Loop.ledger_step h hp.1) hp.2
    refine ⟨hinv, hstep.append hrest, fun fd hfd => ?_⟩
    obtain hfd | hfd := List.mem_append.mp hfd
    · exact hopens fd hfd
    · exact hrests fd hfd

end Server

/-- **In turns.**  Whatever fails while the server starts, whatever its clients do, and however it
comes to an end (Ctrl-C, or an error of `select`), as long as `accept` returns nothing from
`FD_SETSIZE` on: `main` opens and closes each descriptor in turns, has closed all it has opened when
it returns, and leaves those alone that were open before it. -/
theorem descriptors_in_turns {al al' : Alloc} {mem : List Alloc} {opened : FdSet}
    {k : SetupAnswers} (hk : k.socket = -1 ∨ 0 ≤ k.socket ∧ opened k.socket = false)
    {answers : List Answers}
    (hp : ∀ mng net, ServerMng.init al = some mng → (ServerNet.setup al' opened k).1 = some net →
      Along Server.useStep (fun s a => s.Accepts → s.Promised a) (Loop.start net ⟨mng, [], mem⟩)
        answers) (fd : Int) :
    let r := serverMain al al' mem opened k answers
    (opened fd = true → about fd r.1 = []) ∧
    ∃ n, about fd r.1 = (List.replicate n [Use.opens fd, .closes fd]).flatten ∨
      r.2 = none ∧
        about fd r.1 = (List.replicate n [Use.opens fd, .closes fd]).flatten ++ [.opens fd] := by
  intro r
  have hgen : ∃ held, Takes ∅ r.1 held ∧ (r.2 ≠ none → held = ∅) ∧
      ∀ fd, .opens fd ∈ r.1 → opened fd = false := by
    have hnone : ∀ fd, Use.opens fd ∈ [] → opened fd = false := fun fd hfd =>
      absurd hfd List.not_mem_nil
    unfold r
    rw [serverMain]
    cases hmng : ServerMng.init al with
    | none => exact ⟨∅, .nil ∅, fun _ => rfl, hnone⟩
    | some mng =>
      obtain ⟨uses, hsetup, htakes, hopens⟩ | ⟨net, hsetup, hnew, hledger, hheld⟩ :=
        ServerNet.setup_cases al' hk
      · simp only [hsetup]
        exact ⟨∅, htakes, fun _ => rfl, hopens⟩
      · have hstart := takes_opens (Set.notMem_empty k.socket)
        rw [insert_empty_eq, ← hheld] at hstart
        obtain ⟨hinv, hrun, hopens⟩ := Server.takes_run (s := Loop.start net ⟨mng, [], mem⟩)
          hledger (hp mng net hmng (congrArg Prod.fst hsetup))
        have hall := hstart.append hrun
        have hopens : ∀ fd, .opens fd ∈ [Use.opens k.socket] ++ ((trace Server.useStep
            (Loop.start net ⟨mng, [], mem⟩) answers).map Prod.snd).flatten →
              opened fd = false := by
          intro fd hfd
          obtain hfd | hfd := List.mem_append.mp hfd
          · obtain rfl : fd = k.socket := by simpa using hfd
            exact hnew
          · have hset := hopens fd hfd
            rw [Bool.eq_false_iff] at hset ⊢
            exact fun hstart => hset ((FdSet.set_apply _ _ _).mpr (.inr hstart))
        simp only [hsetup]
        split
        · refine ⟨∅, hall.append hinv.destroy, fun _ => rfl, fun fd hfd => ?_⟩
          obtain hfd | hfd := List.mem_append.mp hfd
          · exact hopens fd hfd
          · exact absurd hfd (by simp [ServerNet.destroy])
        · exact ⟨_, hall, fun hne => absurd rfl hne, hopens⟩
  obtain ⟨held, htakes, hend, hopens⟩ := hgen
  refine ⟨fun hfd => htakes.about_eq_nil (Set.notMem_empty fd) fun hmem => ?_, ?_⟩
  · rw [hopens fd hmem] at hfd
    exact absurd hfd (by simp)
  · obtain ⟨n, hn⟩ := htakes.turns fd
    rw [begun_of_not_mem (Set.notMem_empty fd), List.nil_append] at hn
    refine ⟨n, ?_⟩
    by_cases hfd : fd ∈ held
    · rw [begun_of_mem hfd] at hn
      refine .inr ⟨by_contra fun hne => ?_, hn⟩
      rw [hend hne] at hfd
      exact hfd
    · rw [begun_of_not_mem hfd, List.append_nil] at hn
      exact .inl hn

/-- A client connects, and then somebody presses Ctrl-C. -/
def visit : List Answers :=
  ⟨true, .ready fun fd => fd = 3, -1, nothingSent⟩ :: ⟨true, .interrupted, 4, nothingSent⟩ ::
    (List.replicate 1025 ⟨true, .interrupted, -1, nothingSent⟩ ++
      [⟨false, .interrupted, -1, nothingSent⟩])

theorem descriptors_in_turns_visit :
    serverMain [] [] [] (fun fd => 0 ≤ fd ∧ fd ≤ 2) ⟨3, 0, 0, 0⟩ visit =
      ([.opens 3, .opens 4, .closes 4, .closes 3], some 0) ∧
    ∀ fd, 0 ≤ fd ∧ fd ≤ 2 →
      about fd (serverMain [] [] [] (fun fd => 0 ≤ fd ∧ fd ≤ 2) ⟨3, 0, 0, 0⟩ visit).1 = [] := by
  refine ⟨by decide +kernel, fun fd hfd => (descriptors_in_turns (.inr ⟨by decide, by decide⟩)
    (fun mng net _ hnet => ?_) fd).1 (decide_eq_true hfd)⟩
  have hsetup : (ServerNet.setup [] (fun fd => 0 ≤ fd ∧ fd ≤ 2) ⟨3, 0, 0, 0⟩).1 =
      some ⟨3, 3, ⟨FdSet.set 3 fun _ => false, FdSet.set 3 fun fd => 0 ≤ fd ∧ fd ≤ 2⟩,
        fun _ => .free⟩ :=
    rfl
  obtain rfl := Option.some.inj (hsetup.symm.trans hnet)
  refine ⟨fun _ => .inl rfl, fun _ => .inr ⟨by decide, by decide, rfl⟩, ?_⟩
  refine along_of_forall (fun s a ha _ => .inl ?_) _
  obtain ha | ha := List.mem_append.mp ha
  · rw [List.eq_of_mem_replicate ha]
  · rw [List.mem_singleton.mp ha]

end ChatProject
