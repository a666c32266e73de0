import Mathlib.Data.Nat.Prime.Basic

/-!
# Trial division

A number is tested for being prime by dividing it by every candidate up to its square root.  After 2
and 3 only the candidates next to a multiple of 6 are left, and they come in pairs: `i` and `i + 2`
for `i = 5, 11, 17, …`.

* `Sifted` — none of the numbers below a bound divides the number under test.
* `Sifted.next` — one pair of divisions raises the bound by 6.
* `Sifted.prime` — when the square of the bound is past the number, it is prime.
-/

set_option autoImplicit false

namespace TrialDivision

/-- No number from 2 on and below `i` divides `num`. -/
def Sifted (num i : Nat) : Prop := ∀ j, 2 ≤ j → j < i → ¬ j ∣ num

variable {num i : Nat}

/-- The divisions by 2 and 3. -/
theorem sifted_five (h2 : ¬ 2 ∣ num) (h3 : ¬ 3 ∣ num) : Sifted num 5 := by
  intro j hj hlt hdvd
  obtain rfl | rfl | rfl : j = 2 ∨ j = 3 ∨ j = 4 := by omega
  · exact h2 hdvd
  · exact h3 hdvd
  · exact h2 (Nat.dvd_trans ⟨2, rfl⟩ hdvd)

/-- **One pair of divisions.**  The four numbers that are passed over are multiples of 2 or 3. -/
theorem Sifted.next (h : Sifted num i) (h2 : ¬ 2 ∣ num) (h3 : ¬ 3 ∣ num) (hi : i % 6 = 5)
    (hleft : ¬ i ∣ num) (hright : ¬ (i + 2) ∣ num) : Sifted num (i + 6) := by
  intro j hj hlt hdvd
  rcases Nat.lt_or_ge j i with hji | hji
  · exact h j hj hji hdvd
  · by_cases heven : j % 2 = 0
    · exact h2 (Nat.dvd_trans (Nat.dvd_of_mod_eq_zero heven) hdvd)
    · obtain rfl | rfl | rfl : j = i ∨ j = i + 2 ∨ j = i + 4 := by omega
      · exact hleft hdvd
      · exact hright hdvd
      · have hthree : (i + 4) % 3 = 0 := by omega
        exact h3 (Nat.dvd_trans (Nat.dvd_of_mod_eq_zero hthree) hdvd)

/-- **Past the square root.** -/
theorem Sifted.prime (h : Sifted num i) (hnum : 2 ≤ num) (hsq : num < i * i) : num.Prime := by
  by_contra hnot
  have hmin : num.minFac ^ 2 ≤ num := Nat.minFac_sq_le_self (by omega) hnot
  have hprime : num.minFac.Prime := Nat.minFac_prime (by omega)
  have hlt : num.minFac < i := by
    by_contra hge
    have hle : i * i ≤ num.minFac * num.minFac :=
      Nat.mul_le_mul (Nat.le_of_not_lt hge) (Nat.le_of_not_lt hge)
    rw [Nat.pow_two] at hmin
    omega
  exact h _ hprime.two_le hlt (Nat.minFac_dvd num)

end TrialDivision
