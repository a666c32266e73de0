import ChatProject.Server.ServerLoop

/-!
# Passes of the loop

`ServerNet_Run` asks `select` once per pass and then acts on a copy of its answer, while the table
the answer is about goes on changing: a connection comes in, others end, and the kernel hands out
their numbers again.  This file is about the order of these steps.

* `Loop.Run` — a run, with its states and the answers it got.
* `Loop.pass_of_scan` — a scan that has reached slot `k` is `k + 2` steps behind its `select`.
* `Loop.slot_of_pass` — a slot that is read has held its descriptor since then: the scan only
  changes slots it has reached, and a descriptor that `accept` has just returned was not open when
  `select` was asked, so its bit is not set.
* `slot_table_invariant` — what this comes to, in every run.
-/

set_option autoImplicit false

namespace ChatProject

namespace Loop

variable {σ : Type} (onMsg : Int → List UInt8 → σ → σ) (onDisc : Int → σ → σ)

/-- A run of `ServerNet_Run`, step by step, in which the answers of `accept` keep a promise.  Once
the function has returned, the state does not change any more. -/
structure Run (promise : Loop σ → Answers → Prop) (net : ServerNet) (ctx : σ) where
  /-- The state before the `n`-th step. -/
  state : Nat → Loop σ
  /-- What the surroundings answer in the `n`-th step. -/
  answers : Nat → Answers
  start : state 0 = Loop.start net ctx
  next : ∀ n, state (n + 1) = (state n).step onMsg onDisc (answers n)
  promised : ∀ n, (state n).Accepts → promise (state n) (answers n)

/-- The states that the answers `a` lead to. -/
def after (s : Loop σ) (a : Nat → Answers) : Nat → Loop σ
  | 0 => s
  | n + 1 => (after s a n).step onMsg onDisc (a n)

variable {onMsg onDisc} in
/-- Answers that keep the promise make a run. -/
def Run.ofAnswers {promise : Loop σ → Answers → Prop} {net : ServerNet} {ctx : σ}
    (a : Nat → Answers) (hp : ∀ n, ((Loop.start net ctx).after onMsg onDisc a n).Accepts →
      promise ((Loop.start net ctx).after onMsg onDisc a n) (a n)) :
    Run onMsg onDisc promise net ctx :=
  ⟨(Loop.start net ctx).after onMsg onDisc a, a, rfl, fun _ => rfl, hp⟩

/-- The next step calls `HandleClientData` on slot `k`. -/
def Serves (s : Loop σ) (k : Fin maxClients) : Prop := s.phase = .scan k ∧ s.readable k = true

theorem readable_iff {s : Loop σ} {k : Fin maxClients} :
    s.readable k = true ↔
      (s.net.clients k).fd ≠ -1 ∧ s.readSet (s.net.clients k).fd = true := by
  rw [readable, decide_eq_true_eq]
  exact and_congr_left fun _ => ne_comm

/-! ## What a step does to the pass -/

/-- How the loop moves on. -/
inductive Move (s : Loop σ) (a : Answers) (s' : Loop σ) : Prop
  /-- The pass is over, or it was not begun. -/
  | ended (hnext : s'.phase = .select ∨ ∃ code, s'.phase = .stopped code)
  /-- `select` has answered, and a pass begins. -/
  | selected (fds : FdSet) (hphase : s.phase = .select) (hrun : a.keepRunning = true)
    (hsel : a.selected = .ready fds)
    (hread : s'.readSet = fun fd => s.net.tables.masterSet fd && fds fd)
    (hnext : s'.phase = .accept) (hnet : s'.net = s.net)
  /-- The listening socket has been looked at. -/
  | accepted (hphase : s.phase = .accept) (hnext : s'.phase = .scan 0)
    (hread : s'.readSet = s.readSet)
  /-- Slot `i` has been looked at. -/
  | scanned (i : Fin maxClients) (hphase : s.phase = .scan i) (hnext : s'.phase = .scan (i + 1))
    (hread : s'.readSet = s.readSet) (hslots : ∀ k, k ≠ i → s'.net.clients k = s.net.clients k)

theorem step_move (s : Loop σ) (a : Answers) : Move s a (s.step onMsg onDisc a) := by
  rw [step]
  split
  · rename_i hphase
    split
    · exact .ended (.inr ⟨0, rfl⟩)
    · rename_i hrun
      split
      · rename_i fds hsel
        exact .selected fds hphase (by simpa using hrun) hsel rfl rfl rfl
      · exact .ended (.inl hphase)
      · exact .ended (.inr ⟨-1, rfl⟩)
  · rename_i hphase
    split <;> exact .accepted hphase rfl rfl
  · rename_i i hphase
    split
    · rename_i hi
      split
      · exact .scanned ⟨i, hi⟩ hphase rfl rfl fun k hk => Function.update_of_ne hk _ _
      · exact .scanned ⟨i, hi⟩ hphase rfl rfl fun k hk => rfl
    · exact .ended (.inl rfl)
  · rename_i code hphase
    exact .ended (.inr ⟨code, hphase⟩)

/-! What comes before each phase of a pass. -/

section
variable {s s' : Loop σ} {a : Answers} (h : Move s a s')
include h

theorem Move.of_accept (hphase : s'.phase = .accept) :
    s.phase = .select ∧ a.keepRunning = true ∧ s'.net = s.net ∧ ∃ fds, a.selected = .ready fds ∧
      s'.readSet = fun fd => s.net.tables.masterSet fd && fds fd := by
  cases h with
  | ended hnext =>
    rw [hphase] at hnext
    exact absurd hnext (by simp)
  | selected fds hsel hrun hready hread _ hnet => exact ⟨hsel, hrun, hnet, fds, hready, hread⟩
  | accepted _ hnext =>
    rw [hphase] at hnext
    exact absurd hnext (by simp)
  | scanned _ _ hnext =>
    rw [hphase] at hnext
    exact absurd hnext (by simp)

theorem Move.of_scan_zero (hphase : s'.phase = .scan 0) :
    s.phase = .accept ∧ s'.readSet = s.readSet := by
  cases h with
  | ended hnext =>
    rw [hphase] at hnext
    exact absurd hnext (by simp)
  | selected _ _ _ _ _ hnext =>
    rw [hphase] at hnext
    exact absurd hnext (by simp)
  | accepted hacc _ hread => exact ⟨hacc, hread⟩
  | scanned _ _ hnext =>
    rw [hphase] at hnext
    exact absurd hnext (by simp)

theorem Move.of_scan_succ {m : Nat} (hphase : s'.phase = .scan (m + 1)) :
    s.phase = .scan m ∧ s'.readSet = s.readSet ∧
      ∀ k : Fin maxClients, (k : Nat) ≠ m → s'.net.clients k = s.net.clients k := by
  cases h with
  | ended hnext =>
    rw [hphase] at hnext
    exact absurd hnext (by simp)
  | selected _ _ _ _ _ hnext =>
    rw [hphase] at hnext
    exact absurd hnext (by simp)
  | accepted _ hnext =>
    rw [hphase] at hnext
    exact absurd hnext (by simp)
  | scanned i hscan hnext hread hslots =>
    rw [hphase, Phase.scan.injEq, Nat.add_right_cancel_iff] at hnext
    subst hnext
    exact ⟨hscan, hread, fun k hk => hslots k fun heq => hk (congrArg Fin.val heq)⟩

end

/-- A slot whose descriptor was open before `accept` is not the one that has just been taken. -/
theorem slot_of_accept {s : Loop σ} (h : s.net.Inv) {a : Answers} (hphase : s.phase = .accept)
    (hp : s.Accepts → s.Promised a) {k : Fin maxClients}
    (hopen : s.net.tables.opened ((s.step onMsg onDisc a).net.clients k).fd = true) :
    (s.step onMsg onDisc a).net.clients k = s.net.clients k := by
  cases step_effect onMsg onDisc h hp with
  | idle hnet => rw [hnet]
  | accepted i _ _ _ _ hnew hnet =>
    rw [hnet] at hopen ⊢
    by_cases hk : k = i
    · subst hk
      rw [ServerNet.fd_installed, hnew] at hopen
      exact absurd hopen (by simp)
    · exact Function.update_of_ne hk _ _
  | closed i hscan =>
    rw [hphase] at hscan
    exact absurd hscan (by simp)
  | received i c frames hscan =>
    rw [hphase] at hscan
    exact absurd hscan (by simp)

/-! ## Passes -/

section
variable {s : Nat → Loop σ} {a : Nat → Answers}
  (hs : ∀ n, s (n + 1) = (s n).step onMsg onDisc (a n))
include hs

theorem move_of_run (n : Nat) : Move (s n) (a n) (s (n + 1)) :=
  hs n ▸ step_move onMsg onDisc (s n) (a n)

/-- **When a pass began.**  A scan that has reached slot `k` is `k + 2` steps behind its
`select`. -/
theorem pass_of_scan (h0 : (s 0).phase = .select) {j k : Nat} (hj : (s j).phase = .scan k) :
    ∃ i, j = i + 2 + k ∧ (s i).phase = .select ∧ (s (i + 1)).phase = .accept ∧
      ∀ m, m ≤ k → (s (i + 2 + m)).phase = .scan m := by
  induction k generalizing j with
  | zero =>
    obtain _ | _ | i := j
    · rw [h0] at hj
      exact absurd hj (by simp)
    · obtain ⟨hacc, -⟩ := (move_of_run onMsg onDisc hs 0).of_scan_zero hj
      rw [h0] at hacc
      exact absurd hacc (by simp)
    · obtain ⟨hacc, -⟩ := (move_of_run onMsg onDisc hs (i + 1)).of_scan_zero hj
      obtain ⟨hsel, -⟩ := (move_of_run onMsg onDisc hs i).of_accept hacc
      refine ⟨i, rfl, hsel, hacc, fun m hm => ?_⟩
      rw [Nat.le_zero.mp hm]
      exact hj
  | succ k ih =>
    obtain _ | j := j
    · rw [h0] at hj
      exact absurd hj (by simp)
    · obtain ⟨hscan, -⟩ := (move_of_run onMsg onDisc hs j).of_scan_succ hj
      obtain ⟨i, rfl, hsel, hacc, hscans⟩ := ih hscan
      refine ⟨i, rfl, hsel, hacc, fun m hm => ?_⟩
      rcases Nat.le_succ_iff.mp hm with hm | rfl
      · exact hscans m hm
      · exact hj

omit hs in
/-- The phases of a pass. -/
theorem phase_of_pass {i k t : Nat} (hacc : (s (i + 1)).phase = .accept)
    (hscans : ∀ m, m ≤ k → (s (i + 2 + m)).phase = .scan m) (hit : i < t) (htk : t ≤ i + 2 + k) :
    (s t).phase = .accept ∨ ∃ m, t = i + 2 + m ∧ (s t).phase = .scan m := by
  rcases Nat.lt_or_ge t (i + 2) with hlt | hge
  · exact .inl ((show t = i + 1 by omega) ▸ hacc)
  · obtain ⟨m, rfl⟩ := Nat.exists_eq_add_of_le hge
    exact .inr ⟨m, rfl, hscans m (by omega)⟩

/-- The scan does not touch the slots it has not reached, nor what `select` said. -/
theorem slot_of_scan {i k : Nat} (slot : Fin maxClients) (hk : k ≤ slot)
    (hscans : ∀ m, m ≤ k → (s (i + m)).phase = .scan m) :
    ∀ m, m ≤ k → (s (i + m)).net.clients slot = (s i).net.clients slot ∧
      (s (i + m)).readSet = (s i).readSet := by
  intro m
  induction m with
  | zero => exact fun _ => ⟨rfl, rfl⟩
  | succ m ih =>
    intro hm
    obtain ⟨-, hread, hslots⟩ :=
      (move_of_run onMsg onDisc hs (i + m)).of_scan_succ (hscans (m + 1) hm)
    obtain ⟨hslot, hread'⟩ := ih (by omega)
    exact ⟨(hslots slot (by omega)).trans hslot, hread.trans hread'⟩

/-- **A slot that is read** has held its descriptor since the `select` of the pass. -/
theorem slot_of_pass (h0 : (s 0).phase = .select) (hinv : ∀ n, (s n).net.Inv)
    (hp : ∀ n, (s n).Accepts → (s n).Promised (a n)) {j : Nat} {k : Fin maxClients}
    (hserves : (s j).Serves k) :
    ∃ i fds, j = i + 2 + k ∧ (s i).phase = .select ∧ (s (i + 1)).phase = .accept ∧
      (∀ m, m ≤ (k : Nat) → (s (i + 2 + m)).phase = .scan m) ∧
      (a i).keepRunning = true ∧ (a i).selected = .ready fds ∧
      (s i).net.tables.masterSet ((s j).net.clients k).fd = true ∧
      fds ((s j).net.clients k).fd = true ∧
      ∀ t, i ≤ t → t ≤ j → (s t).net.clients k = (s j).net.clients k := by
  obtain ⟨hphase, hread⟩ := hserves
  obtain ⟨i, rfl, hsel, hacc, hscans⟩ := pass_of_scan onMsg onDisc hs h0 hphase
  obtain ⟨-, hrun, hnet, fds, hready, hset⟩ := (move_of_run onMsg onDisc hs i).of_accept hacc
  obtain ⟨-, hset'⟩ :=
    (move_of_run onMsg onDisc hs (i + 1)).of_scan_zero (hscans 0 (Nat.zero_le _))
  have hscan := slot_of_scan onMsg onDisc hs k (Nat.le_refl _) hscans
  obtain ⟨hslot, hset''⟩ := hscan k (Nat.le_refl _)
  -- the bit that the scan finds is the one that `select` left
  obtain ⟨-, hbit⟩ := readable_iff.mp hread
  rw [hset'', hset', hset, Bool.and_eq_true] at hbit
  have hopen := (hinv i).opened_of_master hbit.1
  -- so the slot is not the one that has just been taken
  have haccept : (s (i + 2)).net.clients k = (s (i + 1)).net.clients k := by
    rw [hs (i + 1)]
    refine slot_of_accept onMsg onDisc (hinv (i + 1)) hacc (hp (i + 1)) ?_
    rwa [← hs, hnet, ← hslot]
  refine ⟨i, fds, rfl, hsel, hacc, hscans, hrun, hready, hbit.1, hbit.2, fun t hit htj => ?_⟩
  rw [hslot]
  rcases Nat.lt_or_ge t (i + 2) with hlt | hge
  · rcases (by omega : t = i ∨ t = i + 1) with rfl | rfl
    · rw [haccept, hnet]
    · rw [haccept]
  · obtain ⟨m, rfl⟩ := Nat.exists_eq_add_of_le hge
    exact (hscan m (by omega)).1

/-! ### Passes in which nothing is read -/

omit hs in
theorem step_of_ready {s : Loop σ} {a : Answers} {fds : FdSet} (hphase : s.phase = .select)
    (hrun : a.keepRunning = true) (hsel : a.selected = .ready fds) :
    s.step onMsg onDisc a =
      { s with readSet := fun fd => s.net.tables.masterSet fd && fds fd, phase := .accept } := by
  rw [step, hphase]
  simp only
  rw [if_neg (by simp [hrun]), hsel]

omit hs in
theorem step_of_idle {s : Loop σ} (a : Answers) {m : Nat} (hphase : s.phase = .scan m)
    (hm : m < maxClients) (hidle : s.readable ⟨m, hm⟩ = false) :
    s.step onMsg onDisc a = { s with phase := .scan (m + 1) } := by
  rw [step, hphase]
  simp only
  rw [dif_pos hm, if_neg (by simp [hidle])]

/-- A scan that finds nothing to read changes nothing. -/
theorem scan_idle {i : Nat} (hphase : (s i).phase = .scan 0)
    (hidle : ∀ k, (s i).readable k = false) :
    ∀ m, m ≤ maxClients → s (i + m) = { s i with phase := .scan m } := by
  intro m
  induction m with
  | zero =>
    intro _
    rw [← hphase]
    rfl
  | succ m ih =>
    intro hm
    rw [← Nat.add_assoc, hs, ih (by omega)]
    exact step_of_idle onMsg onDisc (a (i + m)) rfl hm (hidle ⟨m, hm⟩)

/-- **A pass in which only the listening socket is ready** takes one connection and changes nothing
else. -/
theorem quiet_pass {i : Nat} (fds : FdSet) (hphase : (s i).phase = .select)
    (hrun : (a i).keepRunning = true) (hsel : (a i).selected = .ready fds)
    (hlisten : (s i).net.tables.masterSet (s i).net.listenFd = true)
    (hbit : fds (s i).net.listenFd = true)
    (hidle : ∀ k,
      fds (((s i).net.handleNewConnection (a (i + 1)).accepted).clients k).fd = false) :
    s (i + 1) =
      { s i with
        readSet := fun fd => (s i).net.tables.masterSet fd && fds fd
        phase := .accept } ∧
    (∀ m, m ≤ maxClients → s (i + 2 + m) =
      { s i with
        net := (s i).net.handleNewConnection (a (i + 1)).accepted
        readSet := fun fd => (s i).net.tables.masterSet fd && fds fd
        phase := .scan m }) ∧
    s (i + 2 + maxClients + 1) =
      { s i with
        net := (s i).net.handleNewConnection (a (i + 1)).accepted
        readSet := fun fd => (s i).net.tables.masterSet fd && fds fd
        phase := .select } := by
  have haccept : s (i + 1) =
      { s i with
        readSet := fun fd => (s i).net.tables.masterSet fd && fds fd
        phase := .accept } := by
    rw [hs]
    exact step_of_ready onMsg onDisc hphase hrun hsel
  have hstart : s (i + 2) =
      { s i with
        net := (s i).net.handleNewConnection (a (i + 1)).accepted
        readSet := fun fd => (s i).net.tables.masterSet fd && fds fd
        phase := .scan 0 } := by
    rw [hs (i + 1), haccept, step]
    simp only
    rw [if_pos (by simp [hlisten, hbit])]
  have hscan := scan_idle onMsg onDisc hs (i := i + 2) (by rw [hstart]) fun k => by
    rw [hstart, readable, decide_eq_false_iff_not]
    simp [hidle]
  rw [hstart] at hscan
  refine ⟨haccept, hscan, ?_⟩
  rw [hs, hscan maxClients (Nat.le_refl _), step]
  simp only
  rw [dif_neg (Nat.lt_irrefl _)]

end

variable {onMsg onDisc} in
/-- The slot table is in order throughout. -/
theorem Run.inv {net : ServerNet} {ctx : σ} (r : Run onMsg onDisc Promised net ctx)
    (h : net.Inv) (n : Nat) : (r.state n).net.Inv := by
  induction n with
  | zero =>
    rw [r.start]
    exact h
  | succ n ih =>
    rw [r.next]
    exact inv_step onMsg onDisc ih (r.promised n)

end Loop

/-! ## The theorem -/

open Loop

/-- **The slot table in every run of the loop.**  Whatever connections come, send and end, in any
order: no two slots share a descriptor and none has that of the listening socket, `masterSet` is the
listening socket with the descriptors of the occupied slots, and `maxFd` is no less than any of
them.  `HandleClientData` is called only on a slot whose descriptor the `select` of the same pass
has reported, and which has held that descriptor, open, ever since; and once per pass at most. -/
theorem slot_table_invariant {σ : Type} {onMsg : Int → List UInt8 → σ → σ} {onDisc : Int → σ → σ}
    {al : Alloc} {listenFd : Int} {opened : FdSet} {net : ServerNet} (h0 : 0 ≤ listenFd)
    (hopen : opened listenFd = true) (hnet : ServerNet.create al listenFd opened = some net)
    {ctx : σ} (r : Loop.Run onMsg onDisc Promised net ctx) :
    (∀ n, let net := (r.state n).net
      (∀ i j, (net.clients i).fd ≠ -1 → (net.clients i).fd = (net.clients j).fd → i = j) ∧
      (∀ i, (net.clients i).fd ≠ net.listenFd) ∧
      (∀ fd, net.tables.masterSet fd = true ↔
        fd = net.listenFd ∨ fd ≠ -1 ∧ ∃ i, (net.clients i).fd = fd) ∧
      (∀ fd, net.tables.masterSet fd = true → fd ≤ net.maxFd)) ∧
    (∀ j k, (r.state j).Serves k → ∃ i fds,
      let fd := ((r.state j).net.clients k).fd
      i < j ∧ (r.state i).phase = .select ∧
      (∀ t, i < t → t ≤ j → (r.state t).phase ≠ .select) ∧
      (r.answers i).keepRunning = true ∧ (r.answers i).selected = .ready fds ∧
      fds fd = true ∧ (r.state i).net.tables.masterSet fd = true ∧
      ∀ t, i ≤ t → t ≤ j →
        ((r.state t).net.clients k).fd = fd ∧ (r.state t).net.tables.opened fd = true) ∧
    (∀ j j' k, j < j' → (r.state j).Serves k → (r.state j').Serves k →
      ∃ t, j < t ∧ t ≤ j' ∧ (r.state t).phase = .select) := by
  have hinv := r.inv (ServerNet.inv_create h0 hopen hnet)
  have hselect : (r.state 0).phase = .select := by
    rw [r.start]
    rfl
  refine ⟨fun n => ⟨(hinv n).distinct, fun i hi => ?_, (hinv n).master, (hinv n).le_maxFd⟩,
    fun j k hserves => ?_, fun j j' k hlt hserves hserves' => ?_⟩
  · have hnonneg := (hinv n).listenFd_nonneg
    exact (hinv n).not_occupied ⟨by omega, i, hi⟩
  · obtain ⟨i, fds, hj, hsel, hacc, hscans, hrun, hready, hmaster, hbit, hslot⟩ :=
      slot_of_pass onMsg onDisc r.next hselect hinv r.promised hserves
    refine ⟨i, fds, by omega, hsel, fun t hit htj hphase => ?_, hrun, hready, hbit, hmaster,
      fun t hit htj => ?_⟩
    · obtain ht | ⟨m, -, ht⟩ := phase_of_pass hacc hscans hit (by omega) <;>
        rw [ht] at hphase <;> exact absurd hphase (by simp)
    · have hfd := congrArg ClientState.fd (hslot t hit htj)
      exact ⟨hfd, (hinv t).opened _ ⟨(readable_iff.mp hserves.2).1, k, hfd⟩⟩
  · obtain ⟨i, -, hj', hsel, hacc, hscans, -⟩ :=
      slot_of_pass onMsg onDisc r.next hselect hinv r.promised hserves'
    -- the pass of the second call began after the first one
    refine ⟨i, Nat.lt_of_not_le fun hij => ?_, by omega, hsel⟩
    have hphase := hserves.1
    rcases Nat.eq_or_lt_of_le hij with rfl | hij
    · rw [hsel] at hphase
      exact absurd hphase (by simp)
    · obtain ht | ⟨m, rfl, ht⟩ := phase_of_pass hacc hscans hij (by omega) <;> rw [ht] at hphase
      · exact absurd hphase (by simp)
      · rw [Phase.scan.injEq] at hphase
        omega

/-- In the first pass a client connects and gets descriptor 4, and from then on only this descriptor
is reported. -/
def firstClient (n : Nat) : Answers :=
  ⟨true, .ready fun fd => fd = if n = 0 then 3 else 4, if n = 1 then 4 else -1,
    nothingSent⟩

theorem slot_table_invariant_firstClient :
    ServerNet.create [] 3 (fun fd => 0 ≤ fd ∧ fd ≤ 3) = some firstNet ∧
    ∃ r : Loop.Run (fun _ _ ctx => ctx) (fun _ ctx => ctx) Promised firstNet (),
      r.answers = firstClient ∧ (r.state 1029).Serves ⟨0, by decide⟩ ∧
      ∃ i, i < 1029 ∧ (r.state i).phase = .select ∧
        (∀ t, i < t → t ≤ 1029 → (r.state t).phase ≠ .select) ∧
        ∀ t, i ≤ t → t ≤ 1029 → ((r.state t).net.clients ⟨0, by decide⟩).fd = 4 := by
  have hnet : ServerNet.create [] 3 (fun fd => 0 ≤ fd ∧ fd ≤ 3) = some firstNet := rfl
  have hfds : (∀ k, ((firstNet.handleNewConnection 4).clients k).fd ≠ 3) ∧
      ((firstNet.handleNewConnection 4).clients ⟨0, by decide⟩).fd = 4 ∧
      (firstNet.handleNewConnection 4).listenFd = 3 ∧
      (firstNet.handleNewConnection 4).tables.masterSet 4 = true := by
    decide +kernel
  have h4 : (firstClient (0 + 1)).accepted = 4 := rfl
  obtain ⟨r, ha⟩ : ∃ r : Loop.Run (fun _ _ ctx => ctx) (fun _ ctx => ctx) Promised firstNet (),
      r.answers = firstClient := by
    refine ⟨.ofAnswers firstClient fun n _ => ?_, rfl⟩
    by_cases hn : n = 1
    · subst hn
      exact .inr ⟨by decide, by decide, rfl⟩
    · exact .inl (if_neg hn)
  have hnet0 : (r.state 0).net = firstNet := congrArg Loop.net r.start
  have hfirst := quiet_pass _ _ r.next (i := 0) (fun fd => fd = 3)
    (congrArg Loop.phase r.start) (by rw [ha]; rfl) (by rw [ha]; rfl) (by rw [hnet0]; rfl)
    (by rw [hnet0]; rfl) (by rw [hnet0, ha, h4]; exact fun k => decide_eq_false (hfds.1 k))
  rw [hnet0, ha, h4] at hfirst
  generalize firstNet.handleNewConnection 4 = net₁ at hfds hfirst
  obtain ⟨-, hfd, hlisten, hmaster⟩ := hfds
  have hserves : (r.state 1029).Serves ⟨0, by decide⟩ ∧
      ((r.state 1029).net.clients ⟨0, by decide⟩).fd = 4 := by
    have hselect := hfirst.2.2
    rw [show 0 + 2 + maxClients + 1 = 1027 from rfl] at hselect
    have haccept := step_of_ready (s := r.state 1027) (a := firstClient 1027) (fun _ _ ctx => ctx)
      (fun _ ctx => ctx) (by rw [hselect]) rfl rfl
    rw [← ha, ← r.next 1027, hselect] at haccept
    have hscan := r.next 1028
    rw [haccept, Loop.step] at hscan
    simp only [hlisten] at hscan
    rw [if_neg (by simp)] at hscan
    rw [Serves, hscan, readable_iff]
    simp [hfd, hmaster]
  refine ⟨hnet, r, ha, hserves.1, ?_⟩
  obtain ⟨i, -, hlt, hsel, hpass, -, -, -, -, hslot⟩ :=
    (slot_table_invariant (by decide) (by decide) hnet r).2.1 1029 _ hserves.1
  exact ⟨i, hlt, hsel, hpass, fun t hit htj => (hslot t hit htj).1.trans hserves.2⟩

end ChatProject
