import ChatProject.Lib.Machine
import ChatProject.Server.ServerNet

/-!
# The slot table over a whole run

The slots, the set `select` is asked about, `maxFd` and the kernel's own table say the same thing
in four ways, and the functions of the network layer change them one after the other.
`ServerNet.Inv` is what they have to do with each other between two steps of the loop; it is kept by
`HandleNewConnection` and by `HandleClientData`, whatever the management layer does
(`Loop.inv_step`).  There are only three ways a slot changes: a connection is put in
(`Inv.install`), bytes arrive in it (`Inv.keep`), and it is taken out (`Inv.drop`).

A pass goes over a thousand slots.  To write a run down, `Loop.stride` takes what is left of a pass
at one go, where there is nothing left to read.
-/

set_option autoImplicit false

namespace ChatProject

/-! ## Sets of descriptors -/

@[simp] theorem FdSet.set_apply (fd fd' : Int) (s : FdSet) :
    FdSet.set fd s fd' = true ↔ fd' = fd ∨ s fd' = true := by
  rw [FdSet.set, Function.update_apply]
  by_cases h : fd' = fd <;> simp [h]

@[simp] theorem FdSet.clr_apply (fd fd' : Int) (s : FdSet) :
    FdSet.clr fd s fd' = true ↔ fd' ≠ fd ∧ s fd' = true := by
  rw [FdSet.clr, Function.update_apply]
  by_cases h : fd' = fd <;> simp [h]

namespace ServerNet

/-! ## The invariant -/

/-- A connection has this descriptor. -/
def Occupied (net : ServerNet) (fd : Int) : Prop := fd ≠ -1 ∧ ∃ i, (net.clients i).fd = fd

/-- What the slots, `masterSet`, `maxFd` and the kernel's table have to do with each other. -/
structure Inv (net : ServerNet) : Prop where
  /-- No buffer holds a complete frame. -/
  settled : ∀ i, (net.clients i).Settled
  /-- The descriptors of connections fit an `fd_set`. -/
  range : ∀ fd, net.Occupied fd → 0 ≤ fd ∧ fd < fdSetSize
  /-- No descriptor is in two slots. -/
  distinct : ∀ i j, (net.clients i).fd ≠ -1 → (net.clients i).fd = (net.clients j).fd → i = j
  /-- The descriptors of connections are open. -/
  opened : ∀ fd, net.Occupied fd → net.tables.opened fd = true
  /-- So is the listening socket, -/
  listening : net.tables.opened net.listenFd = true
  listenFd_nonneg : 0 ≤ net.listenFd
  /-- which is no connection. -/
  not_occupied : ¬ net.Occupied net.listenFd
  /-- `select` is asked about the listening socket and the connections. -/
  master : ∀ fd, net.tables.masterSet fd = true ↔ fd = net.listenFd ∨ net.Occupied fd
  /-- `maxFd` is no less than any of these. -/
  le_maxFd : ∀ fd, net.tables.masterSet fd = true → fd ≤ net.maxFd

variable {net : ServerNet}

/-- The connections after one slot has been rewritten. -/
theorem occupied_update {net' : ServerNet} {i : Fin maxClients} {c : ClientState} {fd : Int}
    (h : net'.clients = Function.update net.clients i c) :
    net'.Occupied fd ↔ fd ≠ -1 ∧ (c.fd = fd ∨ ∃ j, j ≠ i ∧ (net.clients j).fd = fd) := by
  rw [Occupied, h]
  refine and_congr_right fun _ => ⟨?_, ?_⟩
  · rintro ⟨j, hj⟩
    by_cases hji : j = i
    · subst hji
      exact .inl (by rwa [Function.update_self] at hj)
    · exact .inr ⟨j, hji, by rwa [Function.update_of_ne hji] at hj⟩
  · rintro (hc | ⟨j, hji, hj⟩)
    · exact ⟨i, by rwa [Function.update_self]⟩
    · exact ⟨j, by rwa [Function.update_of_ne hji]⟩

theorem inv_create {al : Alloc} {listenFd : Int} {opened : FdSet} (h0 : 0 ≤ listenFd)
    (hopen : opened listenFd = true) (h : create al listenFd opened = some net) : net.Inv := by
  rw [create] at h
  split at h
  · exact absurd h (by simp)
  · rw [if_neg (by omega)] at h
    obtain rfl := Option.some.inj h
    have hfree : ∀ fd, ¬ Occupied ⟨listenFd, listenFd, ⟨FdSet.set listenFd fun _ => false, opened⟩,
        fun _ => ClientState.free⟩ fd := fun fd ⟨hfd, _, hi⟩ => hfd hi.symm
    exact
      { settled := fun _ => ClientState.settled_of_empty rfl
        range := fun fd hfd => absurd hfd (hfree fd)
        distinct := fun _ _ hi => absurd rfl hi
        opened := fun fd hfd => absurd hfd (hfree fd)
        listening := hopen
        listenFd_nonneg := h0
        not_occupied := hfree _
        master := fun fd => by simp [hfree fd]
        le_maxFd := fun fd hfd => by
          simp only [FdSet.set_apply, Bool.false_eq_true, or_false] at hfd
          exact Int.le_of_eq hfd }

/-! ## Changes of one slot -/

/-- A connection is put into slot `i`. -/
def installed (net : ServerNet) (i : Fin maxClients) (newFd : Int) : ServerNet :=
  { net with
    clients := Function.update net.clients i ((net.clients i).install newFd)
    tables := ⟨net.tables.masterSet.set newFd, net.tables.opened.set newFd⟩
    maxFd := if newFd > net.maxFd then newFd else net.maxFd }

@[simp] theorem fd_installed (net : ServerNet) (i : Fin maxClients) (newFd : Int) :
    ((net.installed i newFd).clients i).fd = newFd := by
  simp only [installed, Function.update_self]
  rfl

/-- Bytes arrive in slot `i`, which becomes `c`. -/
def kept (net : ServerNet) (i : Fin maxClients) (c : ClientState) : ServerNet :=
  { net with clients := Function.update net.clients i c }

/-- The connection in slot `i` is taken down. -/
def dropped (net : ServerNet) (i : Fin maxClients) : ServerNet :=
  { net with
    clients := Function.update net.clients i (net.clients i).reset
    tables := ⟨net.tables.masterSet.clr (net.clients i).fd,
      net.tables.opened.clr (net.clients i).fd⟩ }

/-- What an update leaves alone stays distinct. -/
theorem distinct_update (h : net.Inv) {i : Fin maxClients} {c : ClientState}
    (hc : c.fd = -1 ∨ ∀ j, j ≠ i → (net.clients j).fd ≠ c.fd) (j k : Fin maxClients)
    (hj : (Function.update net.clients i c j).fd ≠ -1)
    (hjk : (Function.update net.clients i c j).fd = (Function.update net.clients i c k).fd) :
    j = k := by
  by_cases hji : j = i <;> by_cases hki : k = i
  · rw [hji, hki]
  · subst hji
    rw [Function.update_self] at hj hjk
    rw [Function.update_of_ne hki] at hjk
    exact absurd hjk.symm (hc.resolve_left hj k hki)
  · subst hki
    rw [Function.update_of_ne hji] at hj hjk
    rw [Function.update_self] at hjk
    rcases hc with hc | hc
    · exact absurd (hjk.trans hc) hj
    · exact absurd hjk (hc j hji)
  · rw [Function.update_of_ne hji] at hj hjk
    rw [Function.update_of_ne hki] at hjk
    exact h.distinct j k hj hjk

theorem settled_update (h : net.Inv) {i : Fin maxClients} {c : ClientState} (hc : c.Settled)
    (j : Fin maxClients) : (Function.update net.clients i c j).Settled := by
  by_cases hji : j = i
  · subst hji
    rwa [Function.update_self]
  · rw [Function.update_of_ne hji]
    exact h.settled j

theorem occupied_kept {i : Fin maxClients} {c : ClientState} (hfd : c.fd = (net.clients i).fd)
    (fd : Int) : (net.kept i c).Occupied fd ↔ net.Occupied fd := by
  rw [occupied_update rfl, Occupied]
  refine and_congr_right fun _ => ⟨?_, fun ⟨j, hj⟩ => ?_⟩
  · rintro (hc | ⟨j, -, hj⟩)
    · exact ⟨i, hfd.symm.trans hc⟩
    · exact ⟨j, hj⟩
  · by_cases hji : j = i
    · exact .inl (hfd.trans (hji ▸ hj))
    · exact .inr ⟨j, hji, hj⟩

theorem Inv.kept (h : net.Inv) {i : Fin maxClients} {c : ClientState}
    (hfd : c.fd = (net.clients i).fd) (hc : c.Settled) : (net.kept i c).Inv := by
  have hocc := occupied_kept hfd
  exact
    { settled := settled_update h hc
      range := fun fd hfd => h.range fd ((hocc fd).mp hfd)
      distinct := distinct_update h (by
        by_cases hfree : c.fd = -1
        · exact .inl hfree
        · refine .inr fun j hji hj => hji (h.distinct j i ?_ (hj.trans hfd))
          rwa [hj])
      opened := fun fd hfd => h.opened fd ((hocc fd).mp hfd)
      listening := h.listening
      listenFd_nonneg := h.listenFd_nonneg
      not_occupied := fun hl => h.not_occupied ((hocc _).mp hl)
      master := fun fd => (h.master fd).trans (or_congr_right (hocc fd).symm)
      le_maxFd := h.le_maxFd }

theorem Inv.occupied_dropped (h : net.Inv) (i : Fin maxClients) (fd : Int) :
    (net.dropped i).Occupied fd ↔ fd ≠ (net.clients i).fd ∧ net.Occupied fd := by
  rw [occupied_update rfl, Occupied]
  constructor
  · rintro ⟨hfd, hc | ⟨j, hji, hj⟩⟩
    · exact absurd hc.symm hfd
    · refine ⟨fun heq => hji (h.distinct j i ?_ (hj.trans heq)), hfd, j, hj⟩
      rwa [hj]
  · rintro ⟨hne, hfd, j, hj⟩
    exact ⟨hfd, .inr ⟨j, fun hji => hne (hji ▸ hj.symm), hj⟩⟩

theorem Inv.dropped (h : net.Inv) (i : Fin maxClients) : (net.dropped i).Inv := by
  have hocc := h.occupied_dropped i
  have hlisten : net.listenFd ≠ (net.clients i).fd := fun heq =>
    h.not_occupied ⟨by have := h.listenFd_nonneg; omega, i, heq.symm⟩
  exact
    { settled := settled_update h (ClientState.settled_of_empty rfl)
      range := fun fd hfd => h.range fd ((hocc fd).mp hfd).2
      distinct := distinct_update h (.inl rfl)
      opened := fun fd hfd =>
        (FdSet.clr_apply _ _ _).mpr ⟨((hocc fd).mp hfd).1, h.opened fd ((hocc fd).mp hfd).2⟩
      listening := (FdSet.clr_apply _ _ _).mpr ⟨hlisten, h.listening⟩
      listenFd_nonneg := h.listenFd_nonneg
      not_occupied := fun hl => h.not_occupied ((hocc _).mp hl).2
      master := fun fd => by
        refine (FdSet.clr_apply _ _ _).trans ?_
        rw [h.master, hocc]
        constructor
        · rintro ⟨hne, hl | hfd⟩
          · exact .inl hl
          · exact .inr ⟨hne, hfd⟩
        · rintro (rfl | hfd)
          · exact ⟨hlisten, .inl rfl⟩
          · exact ⟨hfd.1, .inr hfd.2⟩
      le_maxFd := fun fd hfd => h.le_maxFd fd ((FdSet.clr_apply _ _ _).mp hfd).2 }

/-- A descriptor that is not open is no connection. -/
theorem Inv.not_occupied_of_closed (h : net.Inv) {fd : Int}
    (hfd : net.tables.opened fd = false) : ¬ net.Occupied fd := fun hocc => by
  rw [h.opened _ hocc] at hfd
  exact absurd hfd (by simp)

/-- What `select` is asked about is open. -/
theorem Inv.opened_of_master (h : net.Inv) {fd : Int} (hfd : net.tables.masterSet fd = true) :
    net.tables.opened fd = true := by
  rcases (h.master fd).mp hfd with rfl | hocc
  · exact h.listening
  · exact h.opened fd hocc

theorem occupied_installed {i : Fin maxClients} (hi : (net.clients i).fd = -1) {newFd : Int}
    (h0 : 0 ≤ newFd) (fd : Int) :
    (net.installed i newFd).Occupied fd ↔ fd = newFd ∨ net.Occupied fd := by
  rw [occupied_update rfl, Occupied]
  constructor
  · rintro ⟨hfd, hc | ⟨j, -, hj⟩⟩
    · exact .inl hc.symm
    · exact .inr ⟨hfd, j, hj⟩
  · rintro (rfl | ⟨hfd, j, hj⟩)
    · exact ⟨by omega, .inl rfl⟩
    · exact ⟨hfd, .inr ⟨j, fun hji => hfd (by rw [← hj, hji, hi]), hj⟩⟩

theorem Inv.installed (h : net.Inv) {i : Fin maxClients} (hi : (net.clients i).fd = -1)
    {newFd : Int} (h0 : 0 ≤ newFd) (hlt : newFd < fdSetSize)
    (hnew : net.tables.opened newFd = false) : (net.installed i newFd).Inv := by
  have hocc := occupied_installed hi h0
  have hfresh := h.not_occupied_of_closed hnew
  have hlisten : net.listenFd ≠ newFd := fun heq => by
    rw [← heq, h.listening] at hnew
    exact absurd hnew (by simp)
  exact
    { settled := settled_update h (ClientState.settled_of_empty rfl)
      range := fun fd hfd => by
        rcases (hocc fd).mp hfd with rfl | hfd
        · exact ⟨h0, hlt⟩
        · exact h.range fd hfd
      distinct := distinct_update h (.inr fun j _ hj => hfresh ⟨by omega, j, hj⟩)
      opened := fun fd hfd =>
        (FdSet.set_apply _ _ _).mpr (((hocc fd).mp hfd).imp_right (h.opened fd))
      listening := (FdSet.set_apply _ _ _).mpr (.inr h.listening)
      listenFd_nonneg := h.listenFd_nonneg
      not_occupied := fun hl => ((hocc _).mp hl).elim hlisten h.not_occupied
      master := fun fd => by
        refine (FdSet.set_apply _ _ _).trans ?_
        rw [h.master, hocc]
        exact or_left_comm
      le_maxFd := fun fd hfd => by
        show fd ≤ if newFd > net.maxFd then newFd else net.maxFd
        rcases (FdSet.set_apply _ _ _).mp hfd with rfl | hfd
        · split <;> omega
        · have := h.le_maxFd fd hfd
          split <;> omega }

/-- **What `HandleNewConnection` can do.**  When the kernel keeps its promise, a connection there is
no slot for leaves no trace. -/
theorem handleNewConnection_cases {newFd : Int}
    (hp : newFd = -1 ∨ 0 ≤ newFd ∧ net.tables.opened newFd = false) :
    net.handleNewConnection newFd = net ∨
    ∃ i, newFd ≠ -1 ∧ (net.clients i).fd = -1 ∧
      net.handleNewConnection newFd = net.installed i newFd := by
  rw [handleNewConnection]
  by_cases hfail : newFd = -1
  · exact .inl (if_pos hfail)
  · rw [if_neg hfail]
    cases hslot : net.freeSlot with
    | none =>
      left
      have hnew : net.tables.opened newFd = false := (hp.resolve_left hfail).2
      have hsame : FdSet.clr newFd (FdSet.set newFd net.tables.opened) = net.tables.opened := by
        rw [FdSet.clr, FdSet.set, Function.update_idem, ← hnew, Function.update_eq_self]
      simp only [FdTables.close, hsame]
    | some i =>
      have hi := List.find?_some hslot
      exact .inr ⟨i, hfail, by simpa using hi, rfl⟩

end ServerNet

/-! ## Steps of the loop -/

namespace Loop

variable {σ : Type} (onMsg : Int → List UInt8 → σ → σ) (onDisc : Int → σ → σ)

/-- The next step calls `accept`. -/
def Accepts (s : Loop σ) : Prop := s.phase = .accept ∧ s.readSet s.net.listenFd = true

/-- What a step does to the slots and to the management layer. -/
inductive Effect (onMsg : Int → List UInt8 → σ → σ) (onDisc : Int → σ → σ) (s : Loop σ)
    (a : Answers) (s' : Loop σ) : Prop
  /-- Nothing. -/
  | idle (hnet : s'.net = s.net) (hctx : s'.ctx = s.ctx)
  /-- A connection is put into the free slot `i`. -/
  | accepted (i : Fin maxClients) (hphase : s.phase = .accept) (hfree : (s.net.clients i).fd = -1)
    (h0 : 0 ≤ a.accepted) (hlt : a.accepted < fdSetSize)
    (hnew : s.net.tables.opened a.accepted = false)
    (hnet : s'.net = s.net.installed i a.accepted) (hctx : s'.ctx = s.ctx)
  /-- The connection in slot `i` has ended. -/
  | closed (i : Fin maxClients) (hphase : s.phase = .scan i) (hread : s.readable i = true)
    (hend : a.inbox.bytes = []) (hnet : s'.net = s.net.dropped i)
    (hctx : s'.ctx = onDisc (s.net.clients i).fd s.ctx)
  /-- Bytes have arrived in slot `i`, and they complete `frames`. -/
  | received (i : Fin maxClients) (c : ClientState) (frames : List (List UInt8))
    (hphase : s.phase = .scan i) (hread : s.readable i = true)
    (hfd : c.fd = (s.net.clients i).fd) (hc : c.Settled) (hnet : s'.net = s.net.kept i c)
    (hctx : s'.ctx = frames.foldl (fun ctx msg => onMsg (s.net.clients i).fd msg ctx) s.ctx)

/-- What reading from a slot does to the slots and to the management layer. -/
theorem serveSlot_cases {s : Loop σ} (h : s.net.Inv) (i : Fin maxClients) (x : Inbox UInt8) :
    (x.bytes = [] ∧ s.serveSlot onMsg onDisc i x =
      { s with net := s.net.dropped i, ctx := onDisc (s.net.clients i).fd s.ctx }) ∨
    ∃ (c : ClientState) (frames : List (List UInt8)), x.bytes ≠ [] ∧
      c.fd = (s.net.clients i).fd ∧ c.Settled ∧
      s.serveSlot onMsg onDisc i x =
        { s with
          net := s.net.kept i c
          ctx := frames.foldl (fun ctx msg => onMsg (s.net.clients i).fd msg ctx) s.ctx } := by
  rw [serveSlot]
  obtain ⟨hend, hr⟩ | ⟨chunk, _, frames, c, hchunk, hx, hr, hfd, hc, -⟩ :=
    handleClientData_cases onMsg onDisc (h.settled i) s.net.tables x s.ctx
  · exact .inl ⟨hend, by rw [hr]; rfl⟩
  · refine .inr ⟨c, frames, ?_, hfd, hc, by rw [hr]; rfl⟩
    rw [hx]
    exact List.append_ne_nil_of_left_ne_nil hchunk _

/-- The scan reaches a connection that has ended. -/
theorem step_of_closed {s : Loop σ} (h : s.net.Inv) {a : Answers} {i : Fin maxClients}
    (hphase : s.phase = .scan i) (hread : s.readable i = true) (hend : a.inbox.bytes = []) :
    s.step onMsg onDisc a =
      { s with
        net := s.net.dropped i
        ctx := onDisc (s.net.clients i).fd s.ctx
        phase := .scan (i + 1) } := by
  obtain ⟨-, hserve⟩ | ⟨_, _, hne, -⟩ := serveSlot_cases onMsg onDisc h i a.inbox
  · rw [step, hphase]
    simp only
    rw [dif_pos i.isLt, if_pos hread, hserve]
  · exact absurd hend hne

/-- **What a step can do.** -/
theorem step_effect {s : Loop σ} (h : s.net.Inv) {a : Answers}
    (hp : s.Accepts → s.Promised a) :
    Effect onMsg onDisc s a (s.step onMsg onDisc a) := by
  rw [step]
  split
  · split
    · exact .idle rfl rfl
    · split <;> exact .idle rfl rfl
  · rename_i hphase
    split
    · rename_i hlisten
      have hp := hp ⟨hphase, hlisten⟩
      obtain hsame | ⟨i, hne, hfree, hnet⟩ :=
        s.net.handleNewConnection_cases (hp.imp_right fun hp => ⟨hp.1, hp.2.2⟩)
      · exact .idle hsame rfl
      · obtain ⟨h0, hlt, hnew⟩ := hp.resolve_left hne
        exact .accepted i hphase hfree h0 hlt hnew hnet rfl
    · exact .idle rfl rfl
  · rename_i k hphase
    split
    · rename_i hk
      split
      · rename_i hread
        obtain ⟨hend, hserve⟩ | ⟨c, frames, -, hfd, hc, hserve⟩ :=
          serveSlot_cases onMsg onDisc h ⟨k, hk⟩ a.inbox
        · exact .closed ⟨k, hk⟩ hphase hread hend (congrArg Loop.net hserve)
            (congrArg Loop.ctx hserve)
        · exact .received ⟨k, hk⟩ c frames hphase hread hfd hc (congrArg Loop.net hserve)
            (congrArg Loop.ctx hserve)
      · exact .idle rfl rfl
    · exact .idle rfl rfl
  · exact .idle rfl rfl

/-- The slot table stays in order. -/
theorem inv_step {s : Loop σ} (h : s.net.Inv) {a : Answers}
    (hp : s.Accepts → s.Promised a) : (s.step onMsg onDisc a).net.Inv := by
  cases step_effect onMsg onDisc h hp with
  | idle hnet => rwa [hnet]
  | accepted i _ hfree h0 hlt hnew hnet => rw [hnet]; exact h.installed hfree h0 hlt hnew
  | closed i _ _ _ hnet => rw [hnet]; exact h.dropped i
  | received i c _ _ _ hfd hc hnet => rw [hnet]; exact h.kept hfd hc

/-! ## Runs that are written down -/

/-- The pass over the slots has come to its end. -/
def rest (s : Loop σ) : Loop σ := { s with phase := .select }

/-- There is nothing to read in what is left of the pass. -/
def Resting (s : Loop σ) : Prop :=
  match s.phase with
  | .scan i => ∀ j : Fin maxClients, i ≤ j → s.readable j = false
  | _ => False

instance decidableResting (s : Loop σ) : Decidable s.Resting :=
  match h : s.phase with
  | .scan i =>
    decidable_of_iff (∀ j : Fin maxClients, i ≤ j → s.readable j = false) (by rw [Resting, h])
  | .select | .accept | .stopped _ => .isFalse (by rw [Resting, h]; exact id)

theorem step_of_scan {s : Loop σ} {i : Nat} (hphase : s.phase = .scan i)
    (h : ∀ j : Fin maxClients, i ≤ j → s.readable j = false) (a : Answers) :
    s.step onMsg onDisc a =
      { s with phase := if i < maxClients then .scan (i + 1) else .select } := by
  simp only [step, hphase]
  split
  · rename_i hi
    rw [if_neg (by rw [h ⟨i, hi⟩ (Nat.le_refl i)]; simp)]
  · rfl

/-- A pass in which there is nothing left to read comes to its end. -/
theorem reachable_rest {s : Loop σ} (h : s.Resting) : Reachable onMsg onDisc s s.rest := by
  have hnext : ∀ {s' : Loop σ} {i : Nat}, s'.phase = .scan i →
      (∀ j : Fin maxClients, i ≤ j → s'.readable j = false) →
      Next onMsg onDisc s' { s' with phase := if i < maxClients then .scan (i + 1) else .select } :=
    fun hphase h => ⟨⟨true, .interrupted, -1, nothingSent⟩, .inl rfl,
      (step_of_scan onMsg onDisc hphase h _).symm⟩
  rw [Resting] at h
  split at h
  · rename_i i hphase
    -- on the slots that are left
    obtain ⟨left, hleft⟩ : ∃ left, maxClients - i = left := ⟨_, rfl⟩
    induction left generalizing s i with
    | zero =>
      have hend := hnext hphase h
      rw [if_neg (by omega)] at hend
      exact .single hend
    | succ left ih =>
      have hstep := hnext hphase h
      rw [if_pos (by omega)] at hstep
      exact .head hstep (ih _ rfl (fun j hj => h j (by omega)) (by omega))
  · exact h.elim

/-- One step, or the rest of a pass. -/
def stride (s : Loop σ) : Option Answers → Loop σ × Unit
  | some a => (s.step onMsg onDisc a, ())
  | none => (s.rest, ())

def Strides (s : Loop σ) : Option Answers → Prop
  | some a => s.Promised a
  | none => s.Resting

instance decidableStrides (s : Loop σ) : ∀ a, Decidable (s.Strides a)
  | some a => inferInstanceAs (Decidable (a.accepted = -1 ∨
      0 ≤ a.accepted ∧ a.accepted < fdSetSize ∧ s.net.tables.opened a.accepted = false))
  | none => decidableResting s

/-- Strides make a run. -/
theorem reachable_of_strides {s : Loop σ} {acts : List (Option Answers)}
    (h : Machine.Along (stride onMsg onDisc) Strides s acts) :
    Reachable onMsg onDisc s (Machine.run (stride onMsg onDisc) s acts) := by
  induction acts generalizing s with
  | nil => exact .refl
  | cons a acts ih =>
    refine Relation.ReflTransGen.trans ?_ (ih h.2)
    cases a with
    | some a => exact .single ⟨a, h.1, rfl⟩
    | none => exact reachable_rest onMsg onDisc h.1

end Loop

end ChatProject
