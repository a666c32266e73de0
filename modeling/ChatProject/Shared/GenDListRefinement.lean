import ChatProject.Lib.Machine
import ChatProject.Shared.GenDList

/-!
# The doubly linked list refines a sequence

`Shared/GenDList.lean` says what the two splices do to the ring of nodes.  Here the list is seen
through its interface, over any sequence of calls and any allocation failures.

* `DList.call` — one call, and `DList.Allowed`, what its caller and `malloc` promise: an iterator
  points at the sentinel or at a node of the list, and a new block is not one that is in use.
* `sequenceCall` — the same call on a sequence of elements, each known by the node it is in.
* `DList.Represents.call` — the simulation; in particular no allowed call faults.
* `DList.Observed` — everything a caller can find out about a list.
* `list_refines_sequence` — the theorem about whole runs.
-/

set_option autoImplicit false

namespace ChatProject

open Machine

/-! ## The interface -/

section
variable (P α : Type)

/-- A call that can change a list; an insertion comes with what `malloc` returns in it. -/
inductive ListCall where
  | pushHead (item : Option α) (block : Option P)
  | pushTail (item : Option α) (block : Option P)
  | popHead
  | popTail
  | insertBefore (itr : P) (element : Option α) (block : Option P)
  | remove (itr : P)
  | set (itr : P) (element : Option α)

/-- What a call returns. -/
inductive ListReply where
  | iterator (itr : Option P)
  | item (data : Option α)

end

section
variable {P α : Type} [DecidableEq P]

namespace DList

/-- One call on a list. -/
def call (d : DList P α) : ListCall P α → Option (DList P α × ListReply P α)
  | .pushHead item block => (d.pushHead item block).map fun r => (r.1, .iterator r.2)
  | .pushTail item block => (d.pushTail item block).map fun r => (r.1, .iterator r.2)
  | .popHead => d.popHead.map fun r => (r.1, .item r.2)
  | .popTail => d.popTail.map fun r => (r.1, .item r.2)
  | .insertBefore itr element block =>
    (d.itrInsertBefore (some itr) element block).map fun r => (r.1, .iterator r.2)
  | .remove itr => (d.itrRemove (some itr)).map fun r => (r.1, .item r.2)
  | .set itr element => (d.itrSet (some itr) element).map fun r => (r.1, .item r.2)

omit [DecidableEq P] in
/-- What is promised when a call is made: a block that `malloc` returns is not in use, and an
iterator points at a node of the list. -/
def Allowed (d : DList P α) : ListCall P α → Prop
  | .pushHead _ block => ∀ n ∈ block, d.heap n = none
  | .pushTail _ block => ∀ n ∈ block, d.heap n = none
  | .popHead => True
  | .popTail => True
  | .insertBefore itr _ block => d.heap itr ≠ none ∧ ∀ n ∈ block, d.heap n = none
  | .remove itr => d.heap itr ≠ none
  | .set itr _ => d.heap itr ≠ none

omit [DecidableEq P] in
instance decidableAllowed (d : DList P α) : ∀ c, Decidable (d.Allowed c)
  | .pushHead _ block => inferInstanceAs (Decidable (∀ n ∈ block, d.heap n = none))
  | .pushTail _ block => inferInstanceAs (Decidable (∀ n ∈ block, d.heap n = none))
  | .popHead => inferInstanceAs (Decidable True)
  | .popTail => inferInstanceAs (Decidable True)
  | .insertBefore itr _ block =>
    inferInstanceAs (Decidable (d.heap itr ≠ none ∧ ∀ n ∈ block, d.heap n = none))
  | .remove itr => inferInstanceAs (Decidable (d.heap itr ≠ none))
  | .set itr _ => inferInstanceAs (Decidable (d.heap itr ≠ none))

/-- A call in a run; a run that has faulted goes nowhere. -/
def step (d : Option (DList P α)) (c : ListCall P α) :
    Option (DList P α) × Option (ListReply P α) :=
  match d.bind fun d => d.call c with
  | none => (none, none)
  | some (d, reply) => (some d, some reply)

end DList

/-! ## The sequence -/

/-- One call on a sequence of elements, each with the iterator that points at it.  An iterator that
points at none of them is the end. -/
def sequenceCall (l : List (P × Option α)) : ListCall P α → List (P × Option α) × ListReply P α
  | .pushHead item block =>
    match block with
    | none => (l, .iterator none)
    | some n => ((n, item) :: l, .iterator (some n))
  | .pushTail item block =>
    match block with
    | none => (l, .iterator none)
    | some n => (l ++ [(n, item)], .iterator (some n))
  | .popHead => (l.tail, .item (l.head?.bind Prod.snd))
  | .popTail => (l.dropLast, .item (l.getLast?.bind Prod.snd))
  | .insertBefore itr element block =>
    match block with
    | none => (l, .iterator none)
    | some n => (DList.insertBefore itr (n, element) l, .iterator (some n))
  | .remove itr =>
    (l.filter fun z => z.1 ≠ itr, .item ((l.find? fun z => z.1 = itr).bind Prod.snd))
  | .set itr element =>
    (l.map fun z => if z.1 = itr then (z.1, element) else z,
      .item ((l.find? fun z => z.1 = itr).bind Prod.snd))

/-! ## One call -/

namespace DList

variable {d : DList P α} {l : List (P × Option α)}

section
variable (h : d.Represents l)
include h

omit [DecidableEq P] in
/-- The node after the `l₁` and `z`. -/
theorem Represents.next_eq {l₁ l₂ : List (P × Option α)} {z : P × Option α}
    (hl : l = l₁ ++ z :: l₂) :
    ∃ n, d.heap z.1 = some n ∧ n.data = z.2 ∧ n.isSentinel = false ∧
      n.next = (l₂.map Prod.fst ++ [d.sentinel]).head? := by
  obtain ⟨n, hn, hdata, hsent⟩ := NodeHeap.isSome_of_body (h.node z (by rw [hl]; simp))
  refine ⟨n, hn, hdata, hsent, ?_⟩
  have hchain := h.ring.isChain_next
  rw [hl, List.map_append, List.map_cons, List.append_assoc, List.cons_append, ← List.cons_append,
    List.isChain_append] at hchain
  have hz := hchain.2.1
  rw [← NodeHeap.next_of_some hn]
  cases hrest : l₂.map Prod.fst ++ [d.sentinel] with
  | nil => exact absurd hrest (by simp)
  | cons x rest =>
    rw [hrest, List.isChain_cons_cons] at hz
    exact hz.1

omit [DecidableEq P] in
theorem Represents.sentinel_eq :
    ∃ n, d.heap d.sentinel = some n ∧ n.isSentinel = true ∧
      n.next = (l.map Prod.fst ++ [d.sentinel]).head? ∧
      n.prev = (d.sentinel :: l.map Prod.fst).getLast? := by
  obtain ⟨n, hn, -, hsent⟩ := NodeHeap.isSome_of_body h.sentinel
  refine ⟨n, hn, hsent, ?_, ?_⟩
  · cases hrest : l.map Prod.fst ++ [d.sentinel] with
    | nil => exact absurd hrest (by simp)
    | cons x rest =>
      rw [← NodeHeap.next_of_some hn]
      exact h.ring.next_eq (by rw [hrest]; rfl)
  · obtain ⟨q, hq⟩ : ∃ q, (d.sentinel :: l.map Prod.fst).getLast? = some q :=
      ⟨_, List.getLast?_eq_some_getLast (by simp)⟩
    rw [hq, ← NodeHeap.prev_of_some hn]
    exact h.ring.prev_eq hq

/-- A pop at the front. -/
theorem Represents.popHead :
    ∃ d', d.popHead = some (d', l.head?.bind Prod.snd) ∧ d'.sentinel = d.sentinel ∧
      d'.Represents l.tail := by
  obtain ⟨n, hn, -, hnext, -⟩ := h.sentinel_eq
  cases l with
  | nil =>
    refine ⟨d, ?_, rfl, h⟩
    simp [DList.popHead, hn, hnext]
  | cons z l =>
    have hnd := h.nodup
    have hne : z.1 ≠ d.sentinel := fun heq =>
      (List.nodup_cons.mp hnd).1 (heq ▸ List.mem_cons_self)
    obtain ⟨d', hunlink, hsent, hrep⟩ := h.unlink (z := z) List.mem_cons_self
    have hnd' : (([] ++ z :: l).map Prod.fst).Nodup := (List.nodup_cons.mp hnd).2
    rw [← List.nil_append (z :: l), filter_append hnd'] at hrep
    refine ⟨d', ?_, hsent, hrep⟩
    simp [DList.popHead, hn, hnext, hne, hunlink]

/-- A pop at the end. -/
theorem Represents.popTail :
    ∃ d', d.popTail = some (d', l.getLast?.bind Prod.snd) ∧ d'.sentinel = d.sentinel ∧
      d'.Represents l.dropLast := by
  obtain ⟨n, hn, -, -, hprev⟩ := h.sentinel_eq
  rcases List.eq_nil_or_concat l with rfl | ⟨l, z, rfl⟩
  · refine ⟨d, ?_, rfl, h⟩
    simp [DList.popTail, hn, hprev]
  · rw [List.concat_eq_append] at h hprev ⊢
    have hnd := h.nodup
    have hz : z ∈ l ++ [z] := List.mem_append_right l List.mem_cons_self
    have hne : z.1 ≠ d.sentinel := fun heq =>
      (List.nodup_cons.mp hnd).1 (heq ▸ List.mem_map_of_mem hz)
    obtain ⟨d', hunlink, hsent, hrep⟩ := h.unlink hz
    rw [filter_append (List.nodup_cons.mp hnd).2, List.append_nil] at hrep
    have hlast : n.prev = some z.1 := by
      rw [hprev, List.map_append, ← List.cons_append]
      exact List.getLast?_concat
    refine ⟨d', ?_, hsent, by rw [List.dropLast_concat]; exact hrep⟩
    simp [DList.popTail, hn, hlast, hne, hunlink]

/-- A push at the front. -/
theorem Represents.pushHead {n : P} (hn : d.heap n = none) (item : Option α) :
    ∃ d', d.pushHead item (some n) = some (d', some n) ∧ d'.sentinel = d.sentinel ∧
      d'.Represents ((n, item) :: l) := by
  obtain ⟨s, hs, -, hnext, -⟩ := h.sentinel_eq
  have hne : d.sentinel ≠ n := by
    rintro rfl
    rw [hs] at hn
    exact absurd hn (by simp)
  have hs' : (d.nodeCreate n item).heap d.sentinel = some s :=
    (Function.update_of_ne hne ..).trans hs
  obtain ⟨first, hfirst, hmem, hins⟩ : ∃ first, s.next = some first ∧
      first ∈ d.sentinel :: l.map Prod.fst ∧
      insertBefore first (n, item) l = (n, item) :: l := by
    cases l with
    | nil => exact ⟨d.sentinel, hnext, List.mem_cons_self, rfl⟩
    | cons z l => exact ⟨z.1, hnext, by simp, if_pos rfl⟩
  obtain ⟨d', hlink, hsent, hrep⟩ := h.link hmem hn item
  refine ⟨d', ?_, hsent, hins ▸ hrep⟩
  simp only [DList.pushHead, bind, Option.bind]
  rw [show (d.nodeCreate n item).sentinel = d.sentinel from rfl, hs']
  simp only [hfirst, hlink]

/-- A push at the end. -/
theorem Represents.pushTail {n : P} (hn : d.heap n = none) (item : Option α) :
    ∃ d', d.pushTail item (some n) = some (d', some n) ∧ d'.sentinel = d.sentinel ∧
      d'.Represents (l ++ [(n, item)]) := by
  obtain ⟨d', hlink, hsent, hrep⟩ := h.link List.mem_cons_self hn item
  rw [insertBefore_of_notMem _ (List.nodup_cons.mp h.nodup).1] at hrep
  exact ⟨d', hlink, hsent, hrep⟩

/-- An insertion at an iterator. -/
theorem Represents.itrInsertBefore {itr n : P} (hitr : d.heap itr ≠ none) (hn : d.heap n = none)
    (element : Option α) :
    ∃ d', d.itrInsertBefore (some itr) element (some n) = some (d', some n) ∧
      d'.sentinel = d.sentinel ∧ d'.Represents (insertBefore itr (n, element) l) :=
  h.link (h.live_iff.mp hitr) hn element

omit [DecidableEq P] in
/-- An iterator points at the sentinel, or at an element. -/
theorem Represents.itr_cases {itr : P} (hitr : d.heap itr ≠ none) :
    (itr = d.sentinel ∧ itr ∉ l.map Prod.fst) ∨ ∃ l₁ v l₂, l = l₁ ++ (itr, v) :: l₂ := by
  rcases List.mem_cons.mp (h.live_iff.mp hitr) with rfl | hmem
  · exact .inl ⟨rfl, (List.nodup_cons.mp h.nodup).1⟩
  · obtain ⟨z, hz, rfl⟩ := List.mem_map.mp hmem
    obtain ⟨l₁, l₂, hl⟩ := List.append_of_mem hz
    exact .inr ⟨l₁, z.2, l₂, hl⟩

omit h in
theorem find?_of_notMem {itr : P} (hitr : itr ∉ l.map Prod.fst) :
    (l.find? fun z => z.1 = itr) = none := by
  rw [List.find?_eq_none]
  intro z hz heq
  exact hitr (of_decide_eq_true heq ▸ List.mem_map_of_mem hz)

omit h in
theorem find?_append {itr : P} {v : Option α} {l₁ l₂ : List (P × Option α)}
    (hnd : ((l₁ ++ (itr, v) :: l₂).map Prod.fst).Nodup) :
    ((l₁ ++ (itr, v) :: l₂).find? fun z => z.1 = itr) = some (itr, v) := by
  rw [List.map_append, List.map_cons, List.nodup_append] at hnd
  have hl₁ : itr ∉ l₁.map Prod.fst := fun hmem => hnd.2.2 _ hmem _ List.mem_cons_self rfl
  rw [List.find?_append, find?_of_notMem hl₁, Option.none_or]
  exact List.find?_cons_of_pos (by simp)

/-- A removal at an iterator. -/
theorem Represents.itrRemove {itr : P} (hitr : d.heap itr ≠ none) :
    ∃ d', d.itrRemove (some itr) = some (d', (l.find? fun z => z.1 = itr).bind Prod.snd) ∧
      d'.sentinel = d.sentinel ∧ d'.Represents (l.filter fun z => z.1 ≠ itr) := by
  obtain ⟨rfl, hnot⟩ | ⟨l₁, v, l₂, hl⟩ := h.itr_cases hitr
  · obtain ⟨n, hn, hsent, -, -⟩ := h.sentinel_eq
    have hkeep : (l.filter fun z => z.1 ≠ d.sentinel) = l :=
      List.filter_eq_self.mpr fun z hz => decide_eq_true fun heq =>
        hnot (heq ▸ List.mem_map_of_mem hz)
    refine ⟨d, ?_, rfl, hkeep.symm ▸ h⟩
    simp [DList.itrRemove, hn, hsent, find?_of_notMem hnot]
  · obtain ⟨n, hn, -, hsent, -⟩ := h.next_eq hl
    subst hl
    have hnd := (List.nodup_cons.mp h.nodup).2
    obtain ⟨d', hunlink, hsame, hrep⟩ := h.unlink (z := (itr, v)) (by simp)
    refine ⟨d', ?_, hsame, hrep⟩
    rw [find?_append hnd]
    simp only [DList.itrRemove, bind, Option.bind, hn, hsent]
    exact hunlink

/-- An assignment at an iterator. -/
theorem Represents.itrSet {itr : P} (hitr : d.heap itr ≠ none) (element : Option α) :
    ∃ d', d.itrSet (some itr) element = some (d', (l.find? fun z => z.1 = itr).bind Prod.snd) ∧
      d'.sentinel = d.sentinel ∧
      d'.Represents (l.map fun z => if z.1 = itr then (z.1, element) else z) := by
  have hfst : (l.map fun z => if z.1 = itr then (z.1, element) else z).map Prod.fst
      = l.map Prod.fst := by
    rw [List.map_map]
    refine List.map_congr_left fun z _ => ?_
    show (if z.1 = itr then (z.1, element) else z).1 = z.1
    split <;> rfl
  obtain ⟨rfl, hnot⟩ | ⟨l₁, v, l₂, hl⟩ := h.itr_cases hitr
  · obtain ⟨n, hn, hsent, -, -⟩ := h.sentinel_eq
    have hkeep : (l.map fun z => if z.1 = d.sentinel then (z.1, element) else z) = l := by
      refine (List.map_congr_left fun z hz => ?_).trans (List.map_id l)
      exact if_neg fun heq : z.1 = d.sentinel => hnot (heq ▸ List.mem_map_of_mem hz)
    refine ⟨d, ?_, rfl, hkeep.symm ▸ h⟩
    simp [DList.itrSet, hn, hsent, find?_of_notMem hnot]
  · obtain ⟨n, hn, hdata, hsent, -⟩ := h.next_eq hl
    have hnd := (List.nodup_cons.mp h.nodup).2
    have hne : d.sentinel ≠ itr := by
      rintro rfl
      exact (List.nodup_cons.mp h.nodup).1 (by rw [hl]; simp)
    -- only the data of this one node changes
    let h' : NodeHeap P α := Function.update d.heap itr (some { n with data := element })
    have hnext : h'.next = d.heap.next := by
      refine (NodeHeap.view_update (Option.bind · Node.next) itr _).trans ?_
      exact Function.update_eq_self_iff.mpr (NodeHeap.next_of_some hn).symm
    have hprev : h'.prev = d.heap.prev := by
      refine (NodeHeap.view_update (Option.bind · Node.prev) itr _).trans ?_
      exact Function.update_eq_self_iff.mpr (NodeHeap.prev_of_some hn).symm
    have hbody : h'.body = Function.update d.heap.body itr (some (element, false)) := by
      refine (NodeHeap.view_update (Option.map fun n => (n.data, n.isSentinel)) itr _).trans ?_
      rw [Option.map_some, hsent]
      rfl
    refine ⟨{ d with heap := h' }, ?_, rfl, ⟨?_, ?_, ?_, ?_⟩⟩
    · rw [hl] at hnd
      rw [hl, find?_append hnd]
      simp only [DList.itrSet, bind, Option.bind, hn]
      rw [if_neg (by simp [hsent])]
      simp only [NodeHeap.setData, hn, Option.map_some, hdata]
      rfl
    · rw [hfst]
      show LinkedRing h'.next h'.prev _
      rw [hnext, hprev]
      exact h.ring
    · exact (congrFun hbody _).trans ((Function.update_of_ne hne ..).trans h.sentinel)
    · intro z hz
      obtain ⟨w, hw, rfl⟩ := List.mem_map.mp hz
      refine (congrFun hbody _).trans ?_
      by_cases heq : w.1 = itr
      · rw [if_pos heq]
        simp only [heq, Function.update_self]
      · rw [if_neg heq, Function.update_of_ne heq]
        exact h.node w hw
    · intro x hx
      rw [hfst] at hx
      have hxne : x ≠ itr := by
        rintro rfl
        exact hx (List.mem_cons_of_mem _ (by rw [hl]; simp))
      exact (Function.update_of_ne hxne ..).trans (h.dead x hx)

/-- **One allowed call does to the list what it does to the sequence, and does not fault.** -/
theorem Represents.call {c : ListCall P α} (hc : d.Allowed c) :
    ∃ d', d.call c = some (d', (sequenceCall l c).2) ∧ d'.sentinel = d.sentinel ∧
      d'.Represents (sequenceCall l c).1 := by
  cases c with
  | pushHead item block =>
    cases block with
    | none => exact ⟨d, rfl, rfl, h⟩
    | some n =>
      obtain ⟨d', hr, hrest⟩ := h.pushHead (hc n rfl) item
      exact ⟨d', by rw [DList.call, hr]; rfl, hrest⟩
  | pushTail item block =>
    cases block with
    | none => exact ⟨d, rfl, rfl, h⟩
    | some n =>
      obtain ⟨d', hr, hrest⟩ := h.pushTail (hc n rfl) item
      exact ⟨d', by rw [DList.call, hr]; rfl, hrest⟩
  | popHead =>
    obtain ⟨d', hr, hrest⟩ := h.popHead
    exact ⟨d', by rw [DList.call, hr]; rfl, hrest⟩
  | popTail =>
    obtain ⟨d', hr, hrest⟩ := h.popTail
    exact ⟨d', by rw [DList.call, hr]; rfl, hrest⟩
  | insertBefore itr element block =>
    cases block with
    | none => exact ⟨d, rfl, rfl, h⟩
    | some n =>
      obtain ⟨d', hr, hrest⟩ := h.itrInsertBefore hc.1 (hc.2 n rfl) element
      exact ⟨d', by rw [DList.call, hr]; rfl, hrest⟩
  | remove itr =>
    obtain ⟨d', hr, hrest⟩ := h.itrRemove hc
    exact ⟨d', by rw [DList.call, hr]; rfl, hrest⟩
  | set itr element =>
    obtain ⟨d', hr, hrest⟩ := h.itrSet hc element
    exact ⟨d', by rw [DList.call, hr]; rfl, hrest⟩

/-! ## What can be observed -/

omit [DecidableEq P] in
theorem Represents.itrGet {l₁ l₂ : List (P × Option α)} {z : P × Option α}
    (hl : l = l₁ ++ z :: l₂) : d.itrGet (some z.1) = some z.2 := by
  obtain ⟨n, hn, hdata, hsent, -⟩ := h.next_eq hl
  simp [DList.itrGet, hn, hdata, hsent]

omit [DecidableEq P] in
theorem Represents.itrNext {l₁ l₂ : List (P × Option α)} {z : P × Option α}
    (hl : l = l₁ ++ z :: l₂) :
    d.itrNext (some z.1) = some (l₂.map Prod.fst ++ [d.sentinel]).head? := by
  obtain ⟨n, hn, -, hsent, hnext⟩ := h.next_eq hl
  simp [DList.itrNext, hn, hsent, hnext]

omit [DecidableEq P] in
theorem Represents.ne_sentinel {z : P × Option α} (hz : z ∈ l) : z.1 ≠ d.sentinel := fun heq =>
  (List.nodup_cons.mp h.nodup).1 (heq ▸ List.mem_map_of_mem hz)

omit [DecidableEq P] in
/-- **Loops along a list.**  What holds at the sentinel, and is carried back over one node, holds of
a loop with what is still ahead, as long as there are rounds for it. -/
theorem Represents.along
    {motive : List (P × Option α) → Nat → Option P → List (P × Option α) → Prop}
    (stop : ∀ rounds, motive l rounds (some d.sentinel) [])
    (next : ∀ rounds l₁ z l₂, l = l₁ ++ z :: l₂ → some z.1 ≠ some d.sentinel →
      motive (l₁ ++ [z]) rounds (l₂.map Prod.fst ++ [d.sentinel]).head? l₂ →
        motive l₁ (rounds + 1) (some z.1) (z :: l₂))
    {l₁ l₂ : List (P × Option α)} (hl : l = l₁ ++ l₂) {rounds : Nat}
    (hrounds : l₂.length ≤ rounds) :
    motive l₁ rounds (l₂.map Prod.fst ++ [d.sentinel]).head? l₂ := by
  induction l₂ generalizing l₁ rounds with
  | nil =>
    rw [List.append_nil] at hl
    exact hl ▸ stop rounds
  | cons z l₂ ih =>
    have hne := h.ne_sentinel (z := z) (by rw [hl]; simp)
    obtain ⟨rounds, rfl⟩ : ∃ k, rounds = k + 1 :=
      ⟨rounds - 1, by rw [List.length_cons] at hrounds; omega⟩
    have hl' : l = (l₁ ++ [z]) ++ l₂ := by rw [hl, List.append_assoc, List.singleton_append]
    exact next rounds l₁ z l₂ hl (fun heq => hne (Option.some.inj heq))
      (ih hl' (by simpa using hrounds))

/-- The loop of `ListSize` counts what is still ahead. -/
theorem Represents.sizeLoop {l₁ l₂ : List (P × Option α)} (hl : l = l₁ ++ l₂) {rounds : Nat}
    (hrounds : l₂.length ≤ rounds) (count : Nat) :
    d.sizeLoop rounds (l₂.map Prod.fst ++ [d.sentinel]).head? count = some (count + l₂.length) := by
  refine h.along (motive := fun _ rounds itr ahead =>
    ∀ count, d.sizeLoop rounds itr count = some (count + ahead.length)) ?stop ?next hl hrounds count
  case stop =>
    rintro (_ | rounds) count <;> exact if_pos rfl
  case next =>
    intro rounds l₁ z l₂ hl hne ih count
    obtain ⟨n, hn, -, -, hnext⟩ := h.next_eq hl
    rw [DList.sizeLoop, if_neg hne]
    simp only [bind, Option.bind, hn, hnext]
    rw [ih, List.length_cons, Nat.add_assoc, Nat.add_comm 1]

/-- A caller's loop gets what is still ahead. -/
theorem Represents.iterate {l₁ l₂ : List (P × Option α)} (hl : l = l₁ ++ l₂) {rounds : Nat}
    (hrounds : l₂.length ≤ rounds) :
    d.iterate rounds (l₂.map Prod.fst ++ [d.sentinel]).head? = some (l₂.map Prod.snd) := by
  refine h.along (motive := fun _ rounds itr ahead =>
    d.iterate rounds itr = some (ahead.map Prod.snd)) ?stop ?next hl hrounds
  case stop =>
    rintro (_ | rounds) <;> exact if_pos rfl
  case next =>
    intro rounds l₁ z l₂ hl hne ih
    rw [DList.iterate, itrEnd, if_neg hne]
    simp only [bind, Option.bind, h.itrGet hl, h.itrNext hl, ih]
    rfl

/-! ## The end of a list -/

/-- The loop of `ListDestroy` frees what is still ahead. -/
theorem Represents.destroyLoop {ε : Type} (elementDestroy : Option (Option α → ε → ε))
    {l₁ l₂ : List (P × Option α)} (hl : l = l₁ ++ l₂) {rounds : Nat} (hrounds : l₂.length ≤ rounds)
    {g : NodeHeap P α} (hfreed : ∀ x ∈ l₁.map Prod.fst, g x = none)
    (hkept : ∀ x, x ∉ l₁.map Prod.fst → g x = d.heap x) (e : ε) :
    ∃ g', d.destroyLoop elementDestroy rounds (l₂.map Prod.fst ++ [d.sentinel]).head? g e
        = some (g', l₂.foldl (fun e z => elementDestroy.elim e fun f => f z.2 e) e) ∧
      ∀ x, x ≠ d.sentinel → g' x = none := by
  refine h.along (motive := fun behind rounds itr ahead => ∀ g e,
    (∀ x ∈ behind.map Prod.fst, g x = none) → (∀ x, x ∉ behind.map Prod.fst → g x = d.heap x) →
      ∃ g', d.destroyLoop elementDestroy rounds itr g e
          = some (g', ahead.foldl (fun e z => elementDestroy.elim e fun f => f z.2 e) e) ∧
        ∀ x, x ≠ d.sentinel → g' x = none) ?stop ?next hl hrounds g e hfreed hkept
  case stop =>
    intro rounds g e hfreed hkept
    refine ⟨g, by cases rounds <;> exact if_pos rfl, fun x hx => ?_⟩
    by_cases hmem : x ∈ l.map Prod.fst
    · exact hfreed x hmem
    · rw [hkept x hmem]
      refine h.dead x ?_
      rw [List.mem_cons, not_or]
      exact ⟨hx, hmem⟩
  case next =>
    intro rounds l₁ z l₂ hl hne ih g e hfreed hkept
    have hnd := (List.nodup_cons.mp h.nodup).2
    rw [hl, List.map_append, List.map_cons, List.nodup_append] at hnd
    -- the node has not been freed yet
    have hz : z.1 ∉ l₁.map Prod.fst := fun hmem => hnd.2.2 _ hmem _ List.mem_cons_self rfl
    obtain ⟨n, hn, hdata, -, hnext⟩ := h.next_eq hl
    have hfreed' : ∀ x ∈ (l₁ ++ [z]).map Prod.fst, g.free z.1 x = none := by
      intro x hx
      rw [List.map_append, List.mem_append, List.map_cons, List.map_nil, List.mem_singleton] at hx
      by_cases hxz : x = z.1
      · rw [hxz]
        exact Function.update_self ..
      · exact (Function.update_of_ne hxz ..).trans (hfreed x (hx.resolve_right hxz))
    have hkept' : ∀ x, x ∉ (l₁ ++ [z]).map Prod.fst → g.free z.1 x = d.heap x := by
      intro x hx
      rw [List.map_append, List.mem_append, not_or, List.map_cons, List.map_nil,
        List.mem_singleton] at hx
      exact (Function.update_of_ne hx.2 ..).trans (hkept x hx.1)
    obtain ⟨g', hloop, hdead⟩ := ih _ (elementDestroy.elim e fun f => f z.2 e) hfreed' hkept'
    refine ⟨g', ?_, hdead⟩
    rw [DList.destroyLoop, if_neg hne]
    simp only [bind, Option.bind, hkept _ hz, hn, hdata, hnext, hloop, List.foldl_cons]

/-- **`ListDestroy`** calls the destructor on every element, in order, and leaves no node behind. -/
theorem Represents.destroy {ε : Type} (elementDestroy : Option (Option α → ε → ε)) {rounds : Nat}
    (hrounds : l.length ≤ rounds) (e : ε) :
    d.destroy elementDestroy rounds e
      = some (fun _ => none, l.foldl (fun e z => elementDestroy.elim e fun f => f z.2 e) e) := by
  obtain ⟨s, hs, -, hnext, -⟩ := h.sentinel_eq
  obtain ⟨g, hloop, hdead⟩ := h.destroyLoop elementDestroy (List.nil_append l).symm hrounds
    (g := d.heap) (fun x hx => absurd hx List.not_mem_nil) (fun x _ => rfl) e
  rw [← hnext] at hloop
  simp only [DList.destroy, bind, Option.bind, hs, hloop, pure]
  have hfree : g.free d.sentinel = fun _ => none := by
    funext x
    by_cases hx : x = d.sentinel
    · rw [hx]
      exact Function.update_self ..
    · exact (Function.update_of_ne hx ..).trans (hdead x hx)
  rw [hfree]

end

/-- What can be found out about a list that stands for the sequence `l`. -/
structure Observed (d : DList P α) (l : List (P × Option α)) : Prop where
  /-- No node is in the list twice, and the sentinel is none of its elements. -/
  nodup : (d.sentinel :: l.map Prod.fst).Nodup
  /-- The live nodes are those of the list. -/
  live : ∀ x, d.heap x ≠ none ↔ x ∈ d.sentinel :: l.map Prod.fst
  /-- Following `next` from the sentinel visits the nodes in order and returns. -/
  forward : (d.sentinel :: (l.map Prod.fst ++ [d.sentinel])).IsChain
    fun x y => d.heap.next x = some y
  /-- Following `prev` visits them in the reverse order. -/
  backward : (d.sentinel :: ((l.map Prod.fst).reverse ++ [d.sentinel])).IsChain
    fun x y => d.heap.prev x = some y
  /-- An iterator denotes its element. -/
  get : ∀ z ∈ l, d.itrGet (some z.1) = some z.2
  /-- `ListSize` ends, with the length. -/
  size : ∀ rounds, l.length ≤ rounds → d.size rounds = some l.length
  isEmpty : d.isEmpty = some l.isEmpty
  /-- A loop from `Begin` to `End` ends, and gets the elements in order. -/
  iterate : ∃ itr, d.itrBegin = some itr ∧
    ∀ rounds, l.length ≤ rounds → d.iterate rounds itr = some (l.map Prod.snd)

theorem Represents.observed (h : d.Represents l) : d.Observed l := by
  obtain ⟨s, hs, -, hnext, -⟩ := h.sentinel_eq
  refine ⟨h.nodup, fun x => h.live_iff, h.ring.isChain_next, h.ring.isChain_prev, ?_, ?_, ?_, ?_⟩
  · intro z hz
    obtain ⟨l₁, l₂, hl⟩ := List.append_of_mem hz
    exact h.itrGet hl
  · intro rounds hrounds
    have hsize := h.sizeLoop (List.nil_append l).symm hrounds 0
    rw [Nat.zero_add, ← hnext] at hsize
    simp only [DList.size, bind, Option.bind, hs, hsize]
  · have hempty : (s.next = some d.sentinel) ↔ l = [] := by
      rw [hnext]
      cases l with
      | nil => simp
      | cons z l => simpa using h.ne_sentinel (z := z) List.mem_cons_self
    simp only [DList.isEmpty, bind, Option.bind, hs, pure]
    rw [Option.some_inj, Bool.eq_iff_iff, decide_eq_true_iff, hempty, List.isEmpty_iff]
  · refine ⟨s.next, by simp only [itrBegin, bind, Option.bind, hs, pure], fun rounds hrounds => ?_⟩
    rw [hnext]
    exact h.iterate (List.nil_append l).symm hrounds

/-! ## Whole runs -/

omit [DecidableEq P] in
/-- The promise, for a run that has not faulted. -/
def Promised (d : Option (DList P α)) (c : ListCall P α) : Prop := ∀ d' ∈ d, d'.Allowed c

omit [DecidableEq P] in
instance decidablePromised (d : Option (DList P α)) (c : ListCall P α) :
    Decidable (Promised d c) :=
  inferInstanceAs (Decidable (∀ d' ∈ d, d'.Allowed c))

theorem represents_create {block : Option P} (h : create block = some d) : d.Represents [] := by
  obtain ⟨s, -, rfl⟩ := Option.map_eq_some_iff.mp h
  let h₀ : NodeHeap P α := Function.update (fun _ => none) s (some ⟨none, some s, some s, true⟩)
  have hs : h₀ s = some ⟨none, some s, some s, true⟩ := Function.update_self ..
  refine ⟨.singleton (NodeHeap.next_of_some hs) (NodeHeap.prev_of_some hs), ?_, ?_, ?_⟩
  · show h₀.body s = _
    rw [NodeHeap.body, hs, Option.map_some]
  · exact fun z hz => absurd hz List.not_mem_nil
  · intro x hx
    have hne : x ≠ s := fun heq => hx (heq ▸ List.mem_cons_self)
    exact Function.update_of_ne hne _ fun _ => none

/-- **A run of a list is the run of a sequence.** -/
theorem Represents.run {calls : List (ListCall P α)} (h : d.Represents l)
    (hcalls : Along step Promised (some d) calls) :
    ∃ d', Machine.run step (some d) calls = some d' ∧
      d'.Represents (Machine.run sequenceCall l calls) ∧
      (trace step (some d) calls).map Prod.snd
        = (trace sequenceCall l calls).map fun x => some x.2 := by
  induction calls generalizing d l with
  | nil => exact ⟨d, rfl, h, rfl⟩
  | cons c calls ih =>
    obtain ⟨hc, hcalls⟩ := hcalls
    obtain ⟨d₁, hcall, -, hrep⟩ := h.call (hc d rfl)
    have hstep : step (some d) c = (some d₁, some (sequenceCall l c).2) := by
      simp only [step, Option.bind_some, hcall]
    rw [hstep] at hcalls
    obtain ⟨d', hrun, hrep', htrace⟩ := ih hrep hcalls
    refine ⟨d', ?_, hrep', ?_⟩
    · simpa only [Machine.run, List.foldl_cons, hstep] using hrun
    · rw [trace, trace, List.map_cons, List.map_cons, hstep, htrace]

end DList

/-! ## Iterators -/

/-- The call takes the element at `x` out of the sequence. -/
def Removes (x : P) (l : List (P × Option α)) : ListCall P α → Prop
  | .popHead => l.head?.map Prod.fst = some x
  | .popTail => l.getLast?.map Prod.fst = some x
  | .remove itr => itr = x
  | _ => False

omit [DecidableEq P] in
/-- The call assigns to the element at `x`. -/
def Sets (x : P) : ListCall P α → Prop
  | .set itr _ => itr = x
  | _ => False

theorem mem_tail_of_ne_head {β : Type} {l : List β} {z : β} (hz : z ∈ l) (hne : l.head? ≠ some z) :
    z ∈ l.tail := by
  cases l with
  | nil => exact absurd hz List.not_mem_nil
  | cons w l =>
    rcases List.mem_cons.mp hz with rfl | hz
    · exact absurd rfl hne
    · exact hz

theorem mem_dropLast_of_ne_getLast {β : Type} {l : List β} {z : β} (hz : z ∈ l)
    (hne : l.getLast? ≠ some z) : z ∈ l.dropLast := by
  rcases List.eq_nil_or_concat l with rfl | ⟨l, w, rfl⟩
  · exact absurd hz List.not_mem_nil
  · rw [List.concat_eq_append] at hz hne ⊢
    rw [List.dropLast_concat]
    rw [List.getLast?_concat] at hne
    rcases List.mem_append.mp hz with hz | hz
    · exact hz
    · exact absurd (congrArg some (List.mem_singleton.mp hz).symm) hne

/-- An element that is not taken out stays, and keeps its data unless they are assigned to. -/
theorem mem_sequenceCall {l : List (P × Option α)} {z : P × Option α} {c : ListCall P α}
    (hz : z ∈ l) (hc : ¬ Removes z.1 l c) :
    ∃ v, (z.1, v) ∈ (sequenceCall l c).1 ∧ (¬ Sets z.1 c → v = z.2) := by
  cases c with
  | pushHead item block =>
    cases block with
    | none => exact ⟨z.2, hz, fun _ => rfl⟩
    | some n => exact ⟨z.2, List.mem_cons_of_mem _ hz, fun _ => rfl⟩
  | pushTail item block =>
    cases block with
    | none => exact ⟨z.2, hz, fun _ => rfl⟩
    | some n => exact ⟨z.2, List.mem_append_left _ hz, fun _ => rfl⟩
  | popHead =>
    refine ⟨z.2, mem_tail_of_ne_head hz fun heq => hc ?_, fun _ => rfl⟩
    rw [Removes, heq, Option.map_some]
  | popTail =>
    refine ⟨z.2, mem_dropLast_of_ne_getLast hz fun heq => hc ?_, fun _ => rfl⟩
    rw [Removes, heq, Option.map_some]
  | insertBefore itr element block =>
    cases block with
    | none => exact ⟨z.2, hz, fun _ => rfl⟩
    | some n => exact ⟨z.2, DList.mem_insertBefore.mpr (.inr hz), fun _ => rfl⟩
  | remove itr =>
    exact ⟨z.2, List.mem_filter.mpr ⟨hz, decide_eq_true fun heq => hc heq.symm⟩, fun _ => rfl⟩
  | set itr element =>
    by_cases hitr : z.1 = itr
    · refine ⟨element, List.mem_map.mpr ⟨z, hz, if_pos hitr⟩, fun hset => ?_⟩
      exact absurd hitr.symm hset
    · exact ⟨z.2, List.mem_map.mpr ⟨z, hz, if_neg hitr⟩, fun _ => rfl⟩

/-- The same over a run. -/
theorem mem_sequenceRun {l : List (P × Option α)} {x : P} {v : Option α}
    {calls : List (ListCall P α)} (hx : (x, v) ∈ l)
    (hcalls : Along sequenceCall (fun l c => ¬ Removes x l c) l calls) :
    ∃ w, (x, w) ∈ run sequenceCall l calls ∧ ((∀ c ∈ calls, ¬ Sets x c) → w = v) := by
  induction calls generalizing l v with
  | nil => exact ⟨v, hx, fun _ => rfl⟩
  | cons c calls ih =>
    obtain ⟨u, hu, hsame⟩ := mem_sequenceCall hx hcalls.1
    obtain ⟨w, hw, hsame'⟩ := ih hu hcalls.2
    refine ⟨w, hw, fun hset => ?_⟩
    rw [hsame' fun c' hc' => hset c' (List.mem_cons_of_mem c hc'),
      hsame (hset c List.mem_cons_self)]

/-! ## The theorem -/

open DList in
/-- **The list refines a sequence.**  Take a list from `ListCreate` and any calls on it, with any
allocation failures, whose iterators point at the sentinel or at nodes of the list.  No call faults,
every call returns what it returns for the sequence, and what can be observed of the list afterwards
is the sequence.  An iterator stays valid as long as its element is not taken out, and keeps
denoting it: what it gets changes by an assignment to it and by nothing else. -/
theorem list_refines_sequence {block : Option P} {d₀ : DList P α} (h₀ : create block = some d₀)
    {calls : List (ListCall P α)} (hcalls : Along step Promised (some d₀) calls) :
    ∃ d, run step (some d₀) calls = some d ∧ d.Observed (run sequenceCall [] calls) ∧
      (trace step (some d₀) calls).map Prod.snd
        = (trace sequenceCall [] calls).map (fun x => some x.2) ∧
      ∀ calls₁ calls₂ x v, calls = calls₁ ++ calls₂ → (x, v) ∈ run sequenceCall [] calls₁ →
        Along sequenceCall (fun l c => ¬ Removes x l c) (run sequenceCall [] calls₁) calls₂ →
          d.heap x ≠ none ∧
          ((∀ c ∈ calls₂, ¬ Sets x c) → d.itrGet (some x) = some v) := by
  obtain ⟨d, hrun, hrep, htrace⟩ := (represents_create h₀).run hcalls
  have hobs := hrep.observed
  refine ⟨d, hrun, hobs, htrace, ?_⟩
  rintro calls₁ calls₂ x v rfl hx hkept
  obtain ⟨w, hw, hsame⟩ := mem_sequenceRun hx hkept
  rw [← run_append] at hw
  refine ⟨(hobs.live x).mpr (List.mem_cons_of_mem _ (List.mem_map_of_mem hw)), fun hset => ?_⟩
  rw [← hsame hset]
  exact hobs.get _ hw

end

/-- Two elements are put in, then one is taken out and one is assigned to; a third finds no
memory. -/
def someListCalls : List (ListCall Nat Nat) :=
  [.pushHead (some 7) (some 1), .insertBefore 1 (some 8) (some 2), .pushTail (some 9) none,
    .remove 1, .set 2 none]

theorem list_refines_sequence_someListCalls :
    run sequenceCall [] someListCalls = [(2, none)] ∧
      ∃ d₀ d, DList.create (some 0) = some d₀ ∧
        run DList.step (some d₀) someListCalls = some d ∧
        d.Observed (run sequenceCall [] someListCalls) := by
  have h₀ : ∃ d₀, DList.create (some 0) = some d₀ ∧
      Along DList.step DList.Promised (some d₀) someListCalls := ⟨_, rfl, by decide⟩
  obtain ⟨d₀, hcreate, hcalls⟩ := h₀
  obtain ⟨d, hrun, hobs, -⟩ := list_refines_sequence hcreate hcalls
  exact ⟨rfl, d₀, d, hcreate, hrun, hobs⟩

end ChatProject
