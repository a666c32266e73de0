import Mathlib.Data.Finset.Card
import Mathlib.Data.Fintype.Card
import ChatProject.Server.Passes

/-!
# Descriptors that do not fit an `fd_set`

The network layer has one slot for each descriptor an `fd_set` has room for, and takes connections
as long as a slot is free.  But the standard streams and the listening socket need descriptors and
no slots, so there are more slots than descriptors left for them, and nothing looks at the number
that `accept` returns.

* `Loop.LowestUnused` — what POSIX does promise of `accept`: it returns the lowest unused number.
* `ServerNet.Ledger` — what is open is what was open at the start and the connections, and
  `Ledger.countBelow_eq` counts it.
* `Loop.Fits` — a connection is taken only while its number will fit.  `descriptor_range_iff` says
  that this is exactly what keeps a run safe, and `descriptor_out_of_range` is a run of 1021 clients
  that is not.
-/

set_option autoImplicit false

namespace ChatProject

/-- An `fd_set` has a bit for this descriptor. -/
def InRange (fd : Int) : Prop := 0 ≤ fd ∧ fd < fdSetSize

/-- How many of the descriptors below `n` are in a set. -/
def FdSet.countBelow (s : FdSet) (n : Nat) : Nat :=
  ((Finset.range n).filter fun fd : Nat => s fd = true).card

theorem FdSet.countBelow_le (s : FdSet) (n : Nat) : s.countBelow n ≤ n :=
  (Finset.card_filter_le _ _).trans_eq (Finset.card_range n)

/-- Not all of the descriptors below `n` are in a set exactly when one is not. -/
theorem FdSet.countBelow_lt_iff {s : FdSet} {n : Nat} :
    s.countBelow n < n ↔ ∃ fd : Int, 0 ≤ fd ∧ fd < n ∧ s fd = false := by
  constructor
  · intro hlt
    have hcard : s.countBelow n < (Finset.range n).card := by rwa [Finset.card_range]
    obtain ⟨fd, hmem, hnot⟩ := Finset.exists_mem_notMem_of_card_lt_card hcard
    rw [Finset.mem_filter, not_and, Bool.not_eq_true] at hnot
    exact ⟨fd, Int.natCast_nonneg fd, Int.ofNat_lt.mpr (Finset.mem_range.mp hmem), hnot hmem⟩
  · rintro ⟨fd, h0, hlt, hfd⟩
    obtain ⟨m, rfl⟩ := Int.eq_ofNat_of_zero_le h0
    have hmem : m ∈ Finset.range n := Finset.mem_range.mpr (Int.ofNat_lt.mp hlt)
    have hcard := Finset.card_lt_card (Finset.filter_ssubset.mpr ⟨m, hmem, by simp [hfd]⟩ :
      (Finset.range n).filter (fun fd : Nat => s fd = true) ⊂ Finset.range n)
    rwa [Finset.card_range] at hcard

namespace ServerNet

/-- The number of connections. -/
def occupancy (net : ServerNet) : Nat :=
  (Finset.univ.filter fun i => (net.clients i).fd ≠ -1).card

/-- What is open is what was open at the start, and the connections besides. -/
structure Ledger (net : ServerNet) (listenFd : Int) (opened₀ : FdSet) : Prop where
  inv : net.Inv
  listenFd_eq : net.listenFd = listenFd
  opened_iff : ∀ fd, net.tables.opened fd = true ↔ opened₀ fd = true ∨ net.Occupied fd
  /-- A connection has a descriptor of its own. -/
  fresh : ∀ fd, net.Occupied fd → opened₀ fd = false

variable {listenFd : Int} {opened₀ : FdSet} {net : ServerNet}

/-- The numbers of the connections. -/
def fds (net : ServerNet) : Finset Nat :=
  (Finset.univ.filter fun i => (net.clients i).fd ≠ -1).image fun i => (net.clients i).fd.toNat

theorem Inv.mem_fds (h : net.Inv) {fd : Nat} : fd ∈ net.fds ↔ net.Occupied fd := by
  rw [fds, Finset.mem_image]
  constructor
  · rintro ⟨i, hi, rfl⟩
    have hocc : net.Occupied (net.clients i).fd := ⟨(Finset.mem_filter.mp hi).2, i, rfl⟩
    rwa [Int.toNat_of_nonneg (h.range _ hocc).1]
  · rintro ⟨hfd, i, hi⟩
    exact ⟨i, Finset.mem_filter.mpr ⟨Finset.mem_univ i, hi ▸ hfd⟩, by rw [hi]; rfl⟩

theorem Inv.card_fds (h : net.Inv) : net.fds.card = net.occupancy := by
  refine Finset.card_image_of_injOn fun i hi j hj hij => ?_
  have hi' := (Finset.mem_filter.mp hi).2
  have hj' := (Finset.mem_filter.mp hj).2
  refine h.distinct i j hi' ?_
  rw [← Int.toNat_of_nonneg (h.range _ ⟨hi', i, rfl⟩).1,
    ← Int.toNat_of_nonneg (h.range _ ⟨hj', j, rfl⟩).1]
  exact congrArg _ hij

/-- **Counting what is open**: the connections come on top of what was open at the start. -/
theorem Ledger.countBelow_eq (h : net.Ledger listenFd opened₀) :
    net.tables.opened.countBelow fdSetSize = opened₀.countBelow fdSetSize + net.occupancy := by
  have hrange := fun fd hfd => (h.inv.range fd hfd).2
  generalize fdSetSize = n at hrange ⊢
  have hunion : (Finset.range n).filter (fun fd : Nat => net.tables.opened fd = true) =
      (Finset.range n).filter (fun fd : Nat => opened₀ fd = true) ∪ net.fds := by
    ext fd
    rw [Finset.mem_union, Finset.mem_filter, Finset.mem_filter, h.inv.mem_fds, h.opened_iff,
      and_or_left]
    refine or_congr_right (and_iff_right_of_imp fun hfd => ?_)
    exact Finset.mem_range.mpr (Int.ofNat_lt.mp (hrange _ hfd))
  have hdisjoint : Disjoint ((Finset.range n).filter fun fd : Nat => opened₀ fd = true)
      net.fds := by
    refine Finset.disjoint_left.mpr fun fd hstart hfd => ?_
    have hopen := (Finset.mem_filter.mp hstart).2
    rw [h.fresh _ (h.inv.mem_fds.mp hfd)] at hopen
    exact absurd hopen (by simp)
  rw [FdSet.countBelow, hunion, Finset.card_union_of_disjoint hdisjoint, h.inv.card_fds]
  rfl

/-- The listening socket needs a number and no slot, so there is always a slot left. -/
theorem Ledger.exists_freeSlot (h : net.Ledger listenFd opened₀) (hstart : opened₀ listenFd = true)
    (hlisten : InRange listenFd) : ∃ i, net.freeSlot = some i := by
  refine Option.ne_none_iff_exists'.mp fun hnone => ?_
  have hfull : net.occupancy = maxClients := by
    rw [occupancy, Finset.filter_true_of_mem fun i _ => ?_, Finset.card_fin]
    simpa using List.find?_eq_none.mp hnone i (List.mem_finRange i)
  have hpos : 0 < opened₀.countBelow fdSetSize := by
    obtain ⟨fd, hfd⟩ := Int.eq_ofNat_of_zero_le hlisten.1
    have hlt := hlisten.2
    rw [hfd] at hstart hlt
    exact Finset.card_pos.mpr
      ⟨fd, Finset.mem_filter.mpr ⟨Finset.mem_range.mpr (Int.ofNat_lt.mp hlt), hstart⟩⟩
  have hle := net.tables.opened.countBelow_le fdSetSize
  rw [h.countBelow_eq, hfull, maxClients] at hle
  omega

theorem ledger_create {al : Alloc} (h0 : 0 ≤ listenFd) (hopen : opened₀ listenFd = true)
    (h : create al listenFd opened₀ = some net) : net.Ledger listenFd opened₀ := by
  have hinv := inv_create h0 hopen h
  rw [create] at h
  split at h
  · exact absurd h (by simp)
  · rw [if_neg (by omega)] at h
    obtain rfl := Option.some.inj h
    refine ⟨hinv, rfl, fun fd => (or_iff_left ?_).symm, fun fd hfd => absurd hfd ?_⟩ <;>
    · rintro ⟨hfd, _, hi⟩
      exact hfd hi.symm

/-! The ledger over the three changes of a slot. -/

theorem Ledger.installed (h : net.Ledger listenFd opened₀) {i : Fin maxClients}
    (hi : (net.clients i).fd = -1) {newFd : Int} (h0 : 0 ≤ newFd) (hlt : newFd < fdSetSize)
    (hnew : net.tables.opened newFd = false) :
    (net.installed i newFd).Ledger listenFd opened₀ := by
  have hocc := occupied_installed hi h0
  refine ⟨h.inv.installed hi h0 hlt hnew, h.listenFd_eq, fun fd => ?_, fun fd hfd => ?_⟩
  · refine (FdSet.set_apply _ _ _).trans ?_
    rw [h.opened_iff, hocc]
    exact or_left_comm
  · rcases (hocc fd).mp hfd with rfl | hfd
    · exact Bool.eq_false_iff.mpr fun hstart =>
        absurd ((h.opened_iff fd).mpr (.inl hstart)) (by simp [hnew])
    · exact h.fresh fd hfd

theorem Ledger.dropped (h : net.Ledger listenFd opened₀) {i : Fin maxClients}
    (hi : (net.clients i).fd ≠ -1) : (net.dropped i).Ledger listenFd opened₀ := by
  have hocc := h.inv.occupied_dropped i
  refine ⟨h.inv.dropped i, h.listenFd_eq, fun fd => ?_,
    fun fd hfd => h.fresh fd ((hocc fd).mp hfd).2⟩
  refine (FdSet.clr_apply _ _ _).trans ?_
  rw [h.opened_iff, hocc, and_or_left]
  refine or_congr_left (and_iff_right_of_imp ?_)
  -- what was open at the start is no connection
  rintro hstart rfl
  rw [h.fresh _ ⟨hi, i, rfl⟩] at hstart
  exact absurd hstart (by simp)

theorem Ledger.kept (h : net.Ledger listenFd opened₀) {i : Fin maxClients} {c : ClientState}
    (hfd : c.fd = (net.clients i).fd) (hc : c.Settled) :
    (net.kept i c).Ledger listenFd opened₀ := by
  have hocc : ∀ fd, (net.kept i c).Occupied fd ↔ net.Occupied fd := occupied_kept hfd
  refine ⟨h.inv.kept hfd hc, h.listenFd_eq, fun fd => ?_,
    fun fd hfd => h.fresh fd ((hocc fd).mp hfd)⟩
  rw [hocc]
  exact h.opened_iff fd

end ServerNet

namespace Loop

variable {σ : Type} {onMsg : Int → List UInt8 → σ → σ} {onDisc : Int → σ → σ}

/-- What POSIX promises of `accept`: it fails, or returns the lowest number that is not open. -/
def LowestUnused (s : Loop σ) (a : Answers) : Prop :=
  a.accepted = -1 ∨
    0 ≤ a.accepted ∧ s.net.tables.opened a.accepted = false ∧
      ∀ fd, 0 ≤ fd → fd < a.accepted → s.net.tables.opened fd = true

/-- The descriptors that the next step passes to `FD_SET`, `FD_CLR` or `FD_ISSET`. -/
def fdArgs (s : Loop σ) (a : Answers) : List Int :=
  match s.phase with
  | .accept =>
    -- `FD_ISSET` in `ServerNet_Run`, and `FD_SET` in `HandleNewConnection` once a slot is found
    if s.readSet s.net.listenFd = true ∧ a.accepted ≠ -1 ∧ s.net.freeSlot.isSome = true then
      [s.net.listenFd, a.accepted]
    else [s.net.listenFd]
  | .scan i =>
    -- `FD_ISSET` in `ServerNet_Run`, and `FD_CLR` of the same in `HandleClientData`
    if h : i < maxClients then
      if (s.net.clients ⟨i, h⟩).fd = -1 then [] else [(s.net.clients ⟨i, h⟩).fd]
    else []
  | .select => []
  | .stopped _ => []

/-- If the next step takes a connection, then there are fewer of them now than `FD_SETSIZE` leaves
beside the `base` descriptors that were open below it at the start. -/
def Fits (base : Nat) (s : Loop σ) (a : Answers) : Prop :=
  s.Accepts → a.accepted ≠ -1 → base + s.net.occupancy < fdSetSize

/-- **The lowest unused number fits** exactly while there are few enough connections. -/
theorem accepted_lt_iff {listenFd : Int} {opened₀ : FdSet} {s : Loop σ} {a : Answers}
    (h : s.net.Ledger listenFd opened₀) (hp : s.LowestUnused a) (hne : a.accepted ≠ -1) :
    a.accepted < fdSetSize ↔ opened₀.countBelow fdSetSize + s.net.occupancy < fdSetSize := by
  obtain ⟨h0, hfree, hlow⟩ := hp.resolve_left hne
  rw [← h.countBelow_eq, FdSet.countBelow_lt_iff]
  constructor
  · exact fun hlt => ⟨a.accepted, h0, hlt, hfree⟩
  · rintro ⟨fd, hfd, hlt, hclosed⟩
    refine Int.lt_of_not_ge fun hge => ?_
    rw [hlow fd hfd (by omega)] at hclosed
    exact absurd hclosed (by simp)

/-- The ledger over one step. -/
theorem ledger_step {listenFd : Int} {opened₀ : FdSet} {s : Loop σ} {a : Answers}
    (h : s.net.Ledger listenFd opened₀) (hp : s.Accepts → s.Promised a) :
    (s.step onMsg onDisc a).net.Ledger listenFd opened₀ := by
  cases step_effect onMsg onDisc h.inv hp with
  | idle hnet => rwa [hnet]
  | accepted i _ hfree h0 hlt hnew hnet =>
    rw [hnet]
    exact h.installed hfree h0 hlt hnew
  | closed i _ hread _ hnet =>
    rw [hnet]
    exact h.dropped (readable_iff.mp hread).1
  | received i c _ _ _ hfd hc hnet =>
    rw [hnet]
    exact h.kept hfd hc

section
variable {listenFd : Int} {opened₀ : FdSet} {s : Loop σ} {a : Answers}
  (h : s.net.Ledger listenFd opened₀)
include h

theorem promised_of_fits (hp : s.Accepts → s.LowestUnused a)
    (hfits : s.Fits (opened₀.countBelow fdSetSize) a) (hacc : s.Accepts) : s.Promised a := by
  refine or_iff_not_imp_left.mpr fun hne => ?_
  obtain ⟨h0, hfree, -⟩ := (hp hacc).resolve_left hne
  exact ⟨h0, (accepted_lt_iff h (hp hacc) hne).mpr (hfits hacc hne), hfree⟩

variable (onMsg onDisc) in
/-- A connection that is taken is put into a slot. -/
theorem stored_of_accepts (hstart : opened₀ listenFd = true) (hlisten : InRange listenFd)
    (hacc : s.Accepts) (hne : a.accepted ≠ -1) :
    ∃ i, ((s.step onMsg onDisc a).net.clients i).fd = a.accepted := by
  obtain ⟨i, hi⟩ := h.exists_freeSlot hstart hlisten
  refine ⟨i, ?_⟩
  rw [step, hacc.1]
  simp only
  rw [if_pos hacc.2, ServerNet.handleNewConnection, if_neg hne, hi]
  simp only [Function.update_self]
  rfl

theorem fdArgs_inRange (hlisten : InRange listenFd) (hp : s.Accepts → s.Promised a) {fd : Int}
    (hfd : fd ∈ s.fdArgs a) : InRange fd := by
  rw [fdArgs, h.listenFd_eq] at hfd
  split at hfd
  · rename_i hphase
    split at hfd
    · rename_i hset
      rcases List.mem_cons.mp hfd with rfl | hfd
      · exact hlisten
      · obtain ⟨h0, hlt, -⟩ := (hp ⟨hphase, h.listenFd_eq ▸ hset.1⟩).resolve_left hset.2.1
        exact List.mem_singleton.mp hfd ▸ ⟨h0, hlt⟩
    · exact List.mem_singleton.mp hfd ▸ hlisten
  · split at hfd
    · split at hfd
      · exact absurd hfd List.not_mem_nil
      · rename_i hi hne
        exact List.mem_singleton.mp hfd ▸ h.inv.range _ ⟨hne, _, rfl⟩
    · exact absurd hfd List.not_mem_nil
  · exact absurd hfd List.not_mem_nil
  · exact absurd hfd List.not_mem_nil

end

end Loop

open Loop

/-- **Descriptor range safety.**  Let `accept` return the lowest unused number, whatever that is.
Every descriptor in a slot, and every descriptor that is passed to `FD_SET`, `FD_CLR` or `FD_ISSET`,
is below `FD_SETSIZE` throughout a run exactly when the listening socket's is, and every connection
is taken at a moment when the connections there are, and the descriptors below `FD_SETSIZE` that
were open at the start, are together fewer than `FD_SETSIZE`. -/
theorem descriptor_range_iff {σ : Type} {onMsg : Int → List UInt8 → σ → σ} {onDisc : Int → σ → σ}
    {al : Alloc} {listenFd : Int} {opened : FdSet} {net : ServerNet} (h0 : 0 ≤ listenFd)
    (hopen : opened listenFd = true) (hnet : ServerNet.create al listenFd opened = some net)
    {ctx : σ} (r : Loop.Run onMsg onDisc LowestUnused net ctx) :
    (InRange listenFd ∧
      (∀ n i, ((r.state n).net.clients i).fd ≠ -1 → InRange ((r.state n).net.clients i).fd) ∧
      ∀ n, ∀ fd ∈ (r.state n).fdArgs (r.answers n), InRange fd) ↔
    InRange listenFd ∧ ∀ n, (r.state n).Fits (opened.countBelow fdSetSize) (r.answers n) := by
  have hledger : (∀ n, (r.state n).net.Ledger listenFd opened →
      (r.state n).Accepts → (r.state n).Promised (r.answers n)) →
        ∀ n, (r.state n).net.Ledger listenFd opened := by
    intro hp n
    induction n with
    | zero =>
      rw [r.start]
      exact ServerNet.ledger_create h0 hopen hnet
    | succ n ih =>
      rw [r.next]
      exact ledger_step ih (hp n ih)
  refine and_congr_right fun hlisten => ⟨fun ⟨hslots, _⟩ => ?_, fun hfits => ?_⟩
  · -- a connection that is taken is in a slot one step later
    have hlt : ∀ n, (r.state n).net.Ledger listenFd opened → (r.state n).Accepts →
        (r.answers n).accepted ≠ -1 → InRange (r.answers n).accepted := by
      intro n h hacc hne
      obtain ⟨i, hi⟩ := stored_of_accepts onMsg onDisc h hopen hlisten hacc hne
      rw [← r.next] at hi
      exact hi ▸ hslots (n + 1) i (hi ▸ hne)
    have h := hledger fun n h hacc => by
      refine or_iff_not_imp_left.mpr fun hne => ?_
      obtain ⟨hnew, hlt⟩ := hlt n h hacc hne
      exact ⟨hnew, hlt, ((r.promised n hacc).resolve_left hne).2.1⟩
    exact fun n hacc hne =>
      (accepted_lt_iff (h n) (r.promised n hacc) hne).mp (hlt n (h n) hacc hne).2
  · have h := hledger fun n h => promised_of_fits h (r.promised n) (hfits n)
    refine ⟨fun n i hi => (h n).inv.range _ ⟨hi, i, rfl⟩, fun n fd hfd => ?_⟩
    exact fdArgs_inRange (h n) hlisten (promised_of_fits (h n) (r.promised n) (hfits n)) hfd

theorem descriptor_range_iff_firstClient :
    ServerNet.create [] 3 (fun fd => 0 ≤ fd ∧ fd ≤ 3) = some firstNet ∧
    ∃ r : Loop.Run (fun _ _ ctx => ctx) (fun _ ctx => ctx) LowestUnused firstNet (),
      r.answers = firstClient ∧
      ∀ n i, ((r.state n).net.clients i).fd ≠ -1 → InRange ((r.state n).net.clients i).fd := by
  have hnet : ServerNet.create [] 3 (fun fd => 0 ≤ fd ∧ fd ≤ 3) = some firstNet := rfl
  have hcount : FdSet.countBelow (fun fd => 0 ≤ fd ∧ fd ≤ 3) fdSetSize + firstNet.occupancy <
      fdSetSize := by
    decide +kernel
  obtain ⟨r, ha⟩ : ∃ r : Loop.Run (fun _ _ ctx => ctx) (fun _ ctx => ctx) LowestUnused firstNet (),
      r.answers = firstClient := by
    refine ⟨.ofAnswers firstClient fun n _ => ?_, rfl⟩
    by_cases hn : n = 1
    · subst hn
      refine .inr ⟨by decide, rfl, fun fd h0 (hlt : fd < 4) => ?_⟩
      exact decide_eq_true (⟨h0, by omega⟩ : 0 ≤ fd ∧ fd ≤ 3)
    · exact .inl (if_neg hn)
  have hnet₁ : (r.state 1).net = firstNet := by
    have hselect := step_of_ready (s := r.state 0) (a := firstClient 0) (fun _ _ ctx => ctx)
      (fun _ ctx => ctx) (congrArg Loop.phase r.start) rfl rfl
    rw [← ha, ← r.next] at hselect
    rw [hselect]
    exact congrArg Loop.net r.start
  have hfits : ∀ n, (r.state n).Fits
      (FdSet.countBelow (fun fd => 0 ≤ fd ∧ fd ≤ 3) fdSetSize) (r.answers n) := by
    intro n _ hne
    by_cases hn : n = 1
    · rw [hn, hnet₁]
      exact hcount
    · rw [ha] at hne
      exact absurd (if_neg hn) hne
  exact ⟨hnet, r, ha,
    ((descriptor_range_iff (by decide) (by decide) hnet r).mpr ⟨⟨by decide, by decide⟩, hfits⟩).2.1⟩

/-! ## A crowd -/

/-- The network layer with `n` connections, which have got the descriptors from 4 on. -/
def crowd (n : Nat) : ServerNet :=
  ⟨3, 3 + n, ⟨fun fd => 3 ≤ fd ∧ fd ≤ 3 + n, fun fd => 0 ≤ fd ∧ fd ≤ 3 + n⟩,
    fun i => if (i : Nat) < n then ClientState.free.install (4 + (i : Nat)) else .free⟩

theorem crowd_zero : crowd 0 = firstNet := by
  have hmaster : (fun fd : Int => decide (3 ≤ fd ∧ fd ≤ 3 + (0 : Nat))) =
      FdSet.set 3 fun _ => false := by
    funext fd
    rw [Bool.eq_iff_iff, FdSet.set_apply, decide_eq_true_eq]
    simp only [Bool.false_eq_true, or_false]
    omega
  rw [crowd, firstNet, hmaster]
  rfl

theorem fd_crowd (n : Nat) (i : Fin maxClients) :
    ((crowd n).clients i).fd = if (i : Nat) < n then 4 + ((i : Nat) : Int) else -1 := by
  rw [crowd]
  simp only
  split <;> rfl

theorem freeSlot_crowd {n : Nat} (hn : n < maxClients) : (crowd n).freeSlot = some ⟨n, hn⟩ := by
  refine List.find?_eq_some_iff_getElem.mpr ⟨?_, n, ?_, ?_, fun j hj => ?_⟩
  · rw [fd_crowd, if_neg (Nat.lt_irrefl n)]
    rfl
  · rwa [List.length_finRange]
  · rw [List.getElem_finRange]
    rfl
  · rw [List.getElem_finRange, fd_crowd]
    simp only [Fin.val_cast, if_pos hj, Bool.not_eq_true', decide_eq_false_iff_not]
    omega

/-- One more connection. -/
theorem handleNewConnection_crowd {n : Nat} (hn : n < maxClients) :
    (crowd n).handleNewConnection (4 + n) = crowd (n + 1) := by
  have hmax : (if (4 + n : Int) > (crowd n).maxFd then (4 + n : Int) else (crowd n).maxFd) =
      (crowd (n + 1)).maxFd := by
    rw [if_pos (by simp only [crowd]; omega)]
    simp only [crowd]
    omega
  have hmaster : FdSet.set (4 + n) (crowd n).tables.masterSet =
      (crowd (n + 1)).tables.masterSet := by
    funext fd
    rw [Bool.eq_iff_iff, FdSet.set_apply]
    simp only [crowd, decide_eq_true_eq]
    omega
  have hopened : FdSet.set (4 + n) (crowd n).tables.opened = (crowd (n + 1)).tables.opened := by
    funext fd
    rw [Bool.eq_iff_iff, FdSet.set_apply]
    simp only [crowd, decide_eq_true_eq]
    omega
  have hclients : Function.update (crowd n).clients ⟨n, hn⟩
      (((crowd n).clients ⟨n, hn⟩).install (4 + n)) = (crowd (n + 1)).clients := by
    funext i
    by_cases hi : i = ⟨n, hn⟩
    · subst hi
      rw [Function.update_self]
      simp only [crowd, if_neg (Nat.lt_irrefl n), if_pos (Nat.lt_succ_self n)]
    · have hne : (i : Nat) ≠ n := fun heq => hi (Fin.ext heq)
      rw [Function.update_of_ne hi]
      simp only [crowd, show (i : Nat) < n + 1 ↔ (i : Nat) < n by omega]
  rw [ServerNet.handleNewConnection, if_neg (by omega), freeSlot_crowd hn]
  simp only
  rw [hmax, hmaster, hopened, hclients]
  rfl

/-- In each of the first 1021 passes a client connects, and nobody ever sends anything. -/
def crowding (n : Nat) : Answers :=
  ⟨true, .ready fun fd => fd = 3,
    if n % 1027 = 1 ∧ n < 1027 * 1021 then 4 + ((n / 1027 : Nat) : Int) else -1,
    nothingSent⟩

theorem accepted_crowding {q : Nat} (hq : q < 1021) :
    (crowding (1027 * q + 1)).accepted = 4 + (q : Int) := by
  rw [crowding]
  simp only
  rw [if_pos (by omega), show (1027 * q + 1) / 1027 = q by omega]

section
variable {σ : Type} {onMsg : Int → List UInt8 → σ → σ} {onDisc : Int → σ → σ} {s : Nat → Loop σ}
  (hs : ∀ n, s (n + 1) = (s n).step onMsg onDisc (crowding n))
include hs

/-- One of these passes. -/
theorem crowd_pass {q : Nat} (hq : q < 1021) (hnet : (s (1027 * q)).net = crowd q)
    (hphase : (s (1027 * q)).phase = .select) :
    (s (1027 * q + 1)).net = crowd q ∧ (s (1027 * (q + 1))).net = crowd (q + 1) ∧
      (s (1027 * (q + 1))).phase = .select := by
  have hlt : q < maxClients := Nat.lt_trans hq (by decide)
  have hnew : (s (1027 * q)).net.handleNewConnection (crowding (1027 * q + 1)).accepted =
      crowd (q + 1) := by
    rw [hnet, accepted_crowding hq, handleNewConnection_crowd hlt]
  have hlisten : (s (1027 * q)).net.listenFd = 3 := by rw [hnet]; rfl
  obtain ⟨haccept, -, hnext⟩ := quiet_pass onMsg onDisc hs (i := 1027 * q)
    (fun fd => fd = 3) hphase rfl rfl (by rw [hlisten, hnet]; simp [crowd])
    (by rw [hlisten]; rfl) fun k => by
      rw [hnew, fd_crowd]
      split <;> simp
      omega
  rw [hnew, show 1027 * q + 2 + maxClients + 1 = 1027 * (q + 1) from rfl] at hnext
  exact ⟨by rw [haccept, hnet], by rw [hnext], by rw [hnext]⟩

/-- The table before each of them. -/
theorem crowded {ctx : σ} (h0 : s 0 = Loop.start firstNet ctx) {q : Nat} (hq : q ≤ 1021) :
    (s (1027 * q)).net = crowd q ∧ (s (1027 * q)).phase = .select := by
  induction q with
  | zero =>
    rw [Nat.mul_zero, h0, crowd_zero]
    exact ⟨rfl, rfl⟩
  | succ q ih =>
    obtain ⟨hnet, hphase⟩ := ih (by omega)
    exact (crowd_pass hs (by omega) hnet hphase).2

end

/-- `accept` has always returned the lowest unused number. -/
theorem lowestUnused_crowding {σ : Type} {onMsg : Int → List UInt8 → σ → σ}
    {onDisc : Int → σ → σ} {s : Nat → Loop σ}
    (hs : ∀ n, s (n + 1) = (s n).step onMsg onDisc (crowding n)) {ctx : σ}
    (h0 : s 0 = Loop.start firstNet ctx) (n : Nat) : (s n).LowestUnused (crowding n) := by
  by_cases hn : n % 1027 = 1 ∧ n < 1027 * 1021
  · obtain ⟨q, rfl⟩ : ∃ q, n = 1027 * q + 1 := ⟨n / 1027, by omega⟩
    have hq : q < 1021 := by omega
    obtain ⟨hnet, hphase⟩ := crowded hs h0 (Nat.le_of_lt hq)
    refine .inr ?_
    rw [(crowd_pass hs hq hnet hphase).1, accepted_crowding hq]
    refine ⟨by omega, ?_, fun fd hfd hlt => ?_⟩
    · simp [crowd]
    · simp only [crowd, decide_eq_true_eq]
      omega
  · exact .inl (if_neg hn)

/-- **The 1021st client** finds a free slot, and gets a descriptor that no `fd_set` has a bit
for. -/
theorem descriptor_out_of_range :
    ServerNet.create [] 3 (fun fd => 0 ≤ fd ∧ fd ≤ 3) = some firstNet ∧
    ∃ r : Loop.Run (fun _ _ ctx => ctx) (fun _ ctx => ctx) LowestUnused firstNet (),
      r.answers = crowding ∧
      ((r.state (1027 * 1021)).net.clients ⟨1020, by decide⟩).fd = fdSetSize ∧
      ¬ InRange fdSetSize := by
  obtain ⟨r, ha⟩ : ∃ r : Loop.Run (fun _ _ ctx => ctx) (fun _ ctx => ctx) LowestUnused firstNet (),
      r.answers = crowding :=
    ⟨.ofAnswers crowding fun n _ => lowestUnused_crowding
      (s := (Loop.start firstNet ()).after (fun _ _ ctx => ctx) (fun _ ctx => ctx) crowding)
      (fun _ => rfl) rfl n, rfl⟩
  have hcrowd := (crowded (ha ▸ r.next) r.start (Nat.le_refl 1021)).1
  refine ⟨rfl, r, ha, ?_, fun h => absurd h.2 (Int.lt_irrefl _)⟩
  rw [hcrowd, fd_crowd]
  rfl

end ChatProject
