import Mathlib.Data.List.Cycle

/-!
# Doubly linked rings

Things that are linked to a ring in both directions: `next` and `prev` tell the neighbours of each,
if it has any.  A ring has no beginning, so its things are a `Cycle`; that two neighbours point at
each other is a `Cycle.Chain`.

* `LinkedRing.insert` — splicing a thing in before another, by the four assignments that takes.
* `LinkedRing.remove` — taking one out, by two.
* `LinkedRing.isChain_next`, `LinkedRing.isChain_prev` — going round, starting anywhere, in either
  direction.

The thing before the place and the thing after it may be one and the same, so the two splices make
no difference between a ring of one and any other.
-/

set_option autoImplicit false

universe u

variable {α : Type u} {next prev next' prev' : α → Option α}

/-- `a` and `b` are neighbours, and both know it. -/
def Links (next prev : α → Option α) (a b : α) : Prop := next a = some b ∧ prev b = some a

/-- The things of `c`, each once, linked to a ring. -/
structure LinkedRing (next prev : α → Option α) (c : Cycle α) : Prop where
  nodup : c.Nodup
  linked : c.Chain (Links next prev)

namespace LinkedRing

/-- A ring of one. -/
theorem singleton {a : α} (hnext : next a = some a) (hprev : prev a = some a) :
    LinkedRing next prev [a] where
  nodup := Cycle.nodup_coe_iff.mpr (List.nodup_singleton a)
  linked := (Cycle.chain_singleton _ a).mpr ⟨hnext, hprev⟩

/-- A stretch of a ring stays linked while the links inside it do. -/
theorem isChain_relink {l : List α} (hl : l.Nodup) (h : l.IsChain (Links next prev))
    (hnext : ∀ x ∈ l, x ∉ l.getLast? → next' x = next x)
    (hprev : ∀ x ∈ l, x ∉ l.head? → prev' x = prev x) : l.IsChain (Links next' prev') := by
  rw [List.isChain_iff_getElem] at h ⊢
  intro i hi
  have hlast : l[i] ∉ l.getLast? := by
    intro hmem
    rw [List.getLast?_eq_getElem?, Option.mem_def, List.getElem?_eq_some_iff] at hmem
    obtain ⟨hlt, heq⟩ := hmem
    have := (hl.getElem_inj_iff).mp heq
    omega
  have hhead : l[i + 1] ∉ l.head? := by
    intro hmem
    rw [List.head?_eq_getElem?, Option.mem_def, List.getElem?_eq_some_iff] at hmem
    obtain ⟨hlt, heq⟩ := hmem
    have := (hl.getElem_inj_iff).mp heq
    omega
  exact ⟨(hnext _ (List.getElem_mem _) hlast).trans (h i hi).1,
    (hprev _ (List.getElem_mem _) hhead).trans (h i hi).2⟩

section
variable {a : α} {l : List α} (h : LinkedRing next prev ↑(a :: l))
include h

/-- The ring from `a` on, cut before `a`. -/
theorem cut : (a :: l).IsChain (Links next prev) ∧
    ∀ q ∈ (a :: l).getLast?, Links next prev q a := by
  have hlinked := h.linked
  rw [Cycle.chain_coe_cons, ← List.cons_append, List.isChain_append] at hlinked
  exact ⟨hlinked.1, fun q hq => hlinked.2.2 q hq a rfl⟩

/-- What stands before `a` is the last one when one goes round from `a`. -/
theorem mem_getLast?_of_prev {q : α} (hq : prev a = some q) : q ∈ (a :: l).getLast? := by
  obtain ⟨x, hx⟩ : ∃ x, (a :: l).getLast? = some x := ⟨_, List.getLast?_eq_some_getLast (by simp)⟩
  have hlink := (h.cut.2 x hx).2
  rw [hq, Option.some_inj] at hlink
  rw [hx, hlink]
  rfl

theorem prev_eq {q : α} (hq : q ∈ (a :: l).getLast?) : prev a = some q := (h.cut.2 q hq).2

theorem next_eq {b : α} (hb : b ∈ (l ++ [a]).head?) : next a = some b := by
  have hlinked := h.linked
  rw [Cycle.chain_coe_cons] at hlinked
  cases hrest : l ++ [a] with
  | nil => exact absurd hrest (by simp)
  | cons b' rest =>
    rw [hrest, List.isChain_cons_cons] at hlinked
    rw [hrest, List.head?_cons, Option.mem_def, Option.some_inj] at hb
    exact hb ▸ hlinked.1.1

/-- Going round forwards. -/
theorem isChain_next : (a :: (l ++ [a])).IsChain fun x y => next x = some y :=
  ((Cycle.chain_coe_cons _ a l).mp h.linked).imp fun _ _ hlink => hlink.1

/-- Going round backwards. -/
theorem isChain_prev : (a :: (l.reverse ++ [a])).IsChain fun x y => prev x = some y := by
  have hlinked := (Cycle.chain_coe_cons _ a l).mp h.linked
  have hrev : (a :: (l ++ [a])).reverse = a :: (l.reverse ++ [a]) := by simp
  rw [← hrev, List.isChain_reverse]
  exact hlinked.imp fun _ _ hlink => hlink.2

/-- **Splicing `n` in before `a`.** -/
theorem insert {n q : α} (hn : n ∉ a :: l) (hq : prev a = some q) (hnn : next' n = some a)
    (hpn : prev' n = some q) (hnq : next' q = some n) (hpa : prev' a = some n)
    (hnext : ∀ x, x ≠ n → x ≠ q → next' x = next x)
    (hprev : ∀ x, x ≠ n → x ≠ a → prev' x = prev x) :
    LinkedRing next' prev' ↑(n :: a :: l) := by
  have hnd : (a :: l).Nodup := Cycle.nodup_coe_iff.mp h.nodup
  have hlast := h.mem_getLast?_of_prev hq
  refine ⟨Cycle.nodup_coe_iff.mpr (List.nodup_cons.mpr ⟨hn, hnd⟩), ?_⟩
  rw [Cycle.chain_coe_cons, List.cons_append, List.isChain_cons_cons, ← List.cons_append,
    List.isChain_append]
  refine ⟨⟨hnn, hpa⟩, isChain_relink hnd h.cut.1 (fun x hx hne => ?_) (fun x hx hne => ?_),
    List.isChain_singleton n, fun x hx y hy => ?_⟩
  · exact hnext x (fun heq => hn (heq ▸ hx)) fun heq => hne (heq ▸ hlast)
  · exact hprev x (fun heq => hn (heq ▸ hx)) fun heq => hne (heq ▸ rfl)
  · rw [List.head?_cons, Option.mem_def, Option.some_inj] at hy
    rw [Option.mem_unique hx hlast, ← hy]
    exact ⟨hnq, hpn⟩

end

/-- **Taking `n` out.** -/
theorem remove {n b q : α} {l : List α} (h : LinkedRing next prev ↑(n :: l)) (hl : l ≠ [])
    (hb : next n = some b) (hq : prev n = some q) (hnq : next' q = some b)
    (hpb : prev' b = some q) (hnext : ∀ x, x ≠ n → x ≠ q → next' x = next x)
    (hprev : ∀ x, x ≠ n → x ≠ b → prev' x = prev x) : LinkedRing next' prev' ↑l := by
  obtain ⟨a, l, rfl⟩ := List.exists_cons_of_ne_nil hl
  have hnd : (n :: a :: l).Nodup := Cycle.nodup_coe_iff.mp h.nodup
  obtain ⟨hn, hnd'⟩ := List.nodup_cons.mp hnd
  have hlast : q ∈ (a :: l).getLast? := by
    have := h.mem_getLast?_of_prev hq
    rwa [List.getLast?_cons_cons] at this
  obtain rfl : b = a := by
    have hcut := h.cut.1
    rw [List.isChain_cons_cons] at hcut
    exact Option.some_inj.mp (hb.symm.trans hcut.1.1)
  have hrest : (b :: l).IsChain (Links next prev) := (List.isChain_cons_cons.mp h.cut.1).2
  refine ⟨Cycle.nodup_coe_iff.mpr hnd', ?_⟩
  rw [Cycle.chain_coe_cons, ← List.cons_append, List.isChain_append]
  refine ⟨isChain_relink hnd' hrest (fun x hx hne => ?_) (fun x hx hne => ?_),
    List.isChain_singleton b, fun x hx y hy => ?_⟩
  · exact hnext x (fun heq => hn (heq ▸ hx)) fun heq => hne (heq ▸ hlast)
  · exact hprev x (fun heq => hn (heq ▸ hx)) fun heq => hne (heq ▸ rfl)
  · rw [List.head?_cons, Option.mem_def, Option.some_inj] at hy
    rw [Option.mem_unique hx hlast, ← hy]
    exact ⟨hnq, hpb⟩

end LinkedRing
