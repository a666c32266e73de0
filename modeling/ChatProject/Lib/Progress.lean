import Mathlib.Order.WellFounded

/-!
# What happens in the end

Moments are numbered, and something is awaited.  This file has the two rules by which one shows that
it happens: a step that is taken again and again helps in the end (`eventually_of_helpful`), and
what comes closer again and again arrives (`eventually_of_rank`).
-/

set_option autoImplicit false

namespace Progress

universe u

variable {P Q : Nat → Prop}

/-- **Helpful steps.**  The situation stays as it is until something happens, and there is always
another moment at which it would happen. -/
theorem eventually_of_helpful (hstay : ∀ n, P n → Q n ∨ P (n + 1))
    (hhelp : ∀ n, ∃ m, n ≤ m ∧ (P m → Q m)) {n : Nat} (h : P n) : ∃ m, n ≤ m ∧ Q m := by
  obtain ⟨m, hm, hq⟩ := hhelp n
  obtain ⟨d, rfl⟩ := Nat.exists_eq_add_of_le hm
  clear hm
  -- by induction on the time until then
  induction d generalizing n with
  | zero => exact ⟨n, Nat.le_refl n, hq h⟩
  | succ d ih =>
    obtain hnow | hnext := hstay n h
    · exact ⟨n, Nat.le_refl n, hnow⟩
    · obtain ⟨m, hm, hqm⟩ := ih hnext (by rwa [Nat.add_assoc, Nat.add_comm 1])
      exact ⟨m, by omega, hqm⟩

/-- **Ranks.**  Whenever it is awaited, either it happens later or a rank is lower later. -/
theorem eventually_of_rank {ρ : Type u} [LT ρ] [WellFoundedLT ρ] {W : Nat → ρ → Prop}
    (h : ∀ n r, W n r → ∃ m, n ≤ m ∧ (Q m ∨ ∃ r', r' < r ∧ W m r')) {n : Nat} {r : ρ}
    (hw : W n r) : ∃ m, n ≤ m ∧ Q m := by
  induction r using WellFoundedLT.induction generalizing n with
  | ind r ih =>
    obtain ⟨m, hm, hq | ⟨r', hlt, hw'⟩⟩ := h n r hw
    · exact ⟨m, hm, hq⟩
    · obtain ⟨m', hm', hq⟩ := ih r' hlt hw'
      exact ⟨m', hm.trans hm', hq⟩

end Progress
