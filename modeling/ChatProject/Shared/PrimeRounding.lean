import Mathlib.NumberTheory.Bertrand
import Mathlib.Order.Bounds.Basic
import ChatProject.Lib.TrialDivision
import ChatProject.Shared.HashMap

/-!
# Rounding a capacity up to a prime

The two loops of `IsPrime` and `GetNextPrime` have no bound of their own, and their arithmetic is
that of a 64-bit `size_t`.

* `IsPrimeRound`, `GetNextPrimeRound` — the values with which the loops come to their conditions.
  `IsPrimeRound.noWrap` says that nothing wraps in a round of the first.
* `isPrime_eq` — trial division ends, and finds the primes.
* `getNextPrime_spec` — the search ends, by Bertrand's postulate, at the least prime that is not
  below where it started.
-/

set_option autoImplicit false

namespace ChatProject

open TrialDivision (Sifted sifted_five)

/-! ## Trial division -/

/-- The `for` loop of `IsPrime` comes to its condition with this `i`. -/
inductive IsPrimeRound (num : Nat) : Nat → Prop
  | start : IsPrimeRound num 5
  | next {i : Nat} (h : IsPrimeRound num i) (hcond : i * i % 2 ^ 64 ≤ num)
      (hbody : ¬ (num % i = 0 ∨ num % ((i + 2) % 2 ^ 64) = 0)) :
      IsPrimeRound num ((i + 6) % 2 ^ 64)

/-- Below a square root that fits into 32 bits there is room for another round. -/
theorem add_six_lt {num i : Nat} (hnum : num ≤ 2 ^ 63) (hle : i * i ≤ num) : i + 6 < 2 ^ 32 := by
  by_contra hge
  have hi : 2 ^ 32 - 6 ≤ i := by omega
  have hsq := Nat.mul_le_mul hi hi
  omega

theorem mul_self_lt_of_lt {i : Nat} (hi : i < 2 ^ 32) : i * i < 2 ^ 64 := by
  have hsq := Nat.mul_lt_mul'' hi hi
  omega

/-- `i` stays within 32 bits. -/
theorem IsPrimeRound.lt {num i : Nat} (h : IsPrimeRound num i) (hnum : num ≤ 2 ^ 63) :
    i % 6 = 5 ∧ i < 2 ^ 32 := by
  induction h with
  | start => decide
  | @next i h hcond hbody ih =>
    rw [Nat.mod_eq_of_lt (mul_self_lt_of_lt ih.2)] at hcond
    have hnext := add_six_lt hnum hcond
    rw [show (i + 6) % 2 ^ 64 = i + 6 from Nat.mod_eq_of_lt (by omega)]
    exact ⟨by omega, hnext⟩

/-- In this round `i` is one below a multiple of 6, and nothing wraps. -/
def RoundFits (i : Nat) : Prop := i % 6 = 5 ∧ i * i < 2 ^ 64 ∧ i + 2 < 2 ^ 64 ∧ i + 6 < 2 ^ 64

/-- **Nothing wraps.** -/
theorem IsPrimeRound.noWrap {num i : Nat} (h : IsPrimeRound num i) (hnum : num ≤ 2 ^ 63) :
    RoundFits i := by
  obtain ⟨hmod, hi⟩ := h.lt hnum
  exact ⟨hmod, mul_self_lt_of_lt hi, by omega, by omega⟩

/-- The loop, from a candidate below which nothing divides the number. -/
theorem isPrimeLoop_eq {num : Nat} (hnum : num ≤ 2 ^ 63) (hpos : 2 ≤ num) (h2 : ¬ 2 ∣ num)
    (h3 : ¬ 3 ∣ num) {fuel i : Nat} (hi : i % 6 = 5) (hi' : i < 2 ^ 32) (hfuel : 0 < fuel)
    (hsum : num + 5 ≤ i + fuel) (hs : Sifted num i) :
    isPrimeLoop num fuel i = some (decide num.Prime) := by
  induction fuel generalizing i with
  | zero => exact absurd hfuel (Nat.lt_irrefl 0)
  | succ fuel ih =>
    rw [isPrimeLoop, Nat.mod_eq_of_lt (mul_self_lt_of_lt hi'),
      Nat.mod_eq_of_lt (by omega : i + 2 < 2 ^ 64), Nat.mod_eq_of_lt (by omega : i + 6 < 2 ^ 64)]
    by_cases hle : i * i ≤ num
    · rw [if_pos hle]
      have hmul : 5 * i ≤ i * i := Nat.mul_le_mul_right i (by omega)
      by_cases hdiv : num % i = 0 ∨ num % (i + 2) = 0
      · -- the divisor that was found is neither 1 nor the number itself
        have hnot : ¬ num.Prime := by
          rcases hdiv with h0 | h0
          · exact Nat.not_prime_of_dvd_of_lt (Nat.dvd_of_mod_eq_zero h0) (by omega) (by omega)
          · exact Nat.not_prime_of_dvd_of_lt (Nat.dvd_of_mod_eq_zero h0) (by omega) (by omega)
        rw [if_pos hdiv, decide_eq_false hnot]
      · rw [if_neg hdiv]
        rw [not_or, ← Nat.dvd_iff_mod_eq_zero, ← Nat.dvd_iff_mod_eq_zero] at hdiv
        exact ih (by omega) (add_six_lt hnum hle) (by omega) (by omega)
          (hs.next h2 h3 hi hdiv.1 hdiv.2)
    · rw [if_neg hle, decide_eq_true (hs.prime hpos (Nat.lt_of_not_le hle))]

/-- **`IsPrime` ends, and is right.** -/
theorem isPrime_eq {num : Nat} (hnum : num ≤ 2 ^ 63) : isPrime num = some (decide num.Prime) := by
  rw [isPrime]
  by_cases h1 : num ≤ 1
  · rw [if_pos h1, decide_eq_false fun hp => absurd hp.one_lt (by omega)]
  rw [if_neg h1]
  by_cases h23 : num = 2 ∨ num = 3
  · rw [if_pos h23]
    rcases h23 with rfl | rfl
    · rw [decide_eq_true Nat.prime_two]
    · rw [decide_eq_true Nat.prime_three]
  rw [if_neg h23]
  by_cases hdiv : num % 2 = 0 ∨ num % 3 = 0
  · have hnot : ¬ num.Prime := by
      rcases hdiv with h0 | h0
      · exact Nat.not_prime_of_dvd_of_lt (Nat.dvd_of_mod_eq_zero h0) (by omega) (by omega)
      · exact Nat.not_prime_of_dvd_of_lt (Nat.dvd_of_mod_eq_zero h0) (by omega) (by omega)
    rw [if_pos hdiv, decide_eq_false hnot]
  · rw [if_neg hdiv]
    rw [not_or, ← Nat.dvd_iff_mod_eq_zero, ← Nat.dvd_iff_mod_eq_zero] at hdiv
    exact isPrimeLoop_eq hnum (by omega) hdiv.1 hdiv.2 (by decide) (by decide) (by omega) (by omega)
      (sifted_five hdiv.1 hdiv.2)

/-! ## The search -/

/-- The `while` loop of `GetNextPrime` comes to its condition with this `prime`. -/
inductive GetNextPrimeRound (num : Nat) : Nat → Prop
  | start : GetNextPrimeRound num num
  | next {prime : Nat} (h : GetNextPrimeRound num prime) (hcond : isPrime prime = some false) :
      GetNextPrimeRound num ((prime + 1) % 2 ^ 64)

/-- The search does not go past a prime. -/
theorem GetNextPrimeRound.le {num prime p : Nat} (h : GetNextPrimeRound num prime) (hp : p.Prime)
    (hle : num ≤ p) (hmax : p ≤ 2 ^ 63) : prime ≤ p := by
  induction h with
  | start => exact hle
  | @next prime h hcond ih =>
    rw [isPrime_eq (Nat.le_trans ih hmax), Option.some_inj, decide_eq_false_iff_not] at hcond
    have hne : prime ≠ p := by
      rintro rfl
      exact hcond hp
    rw [Nat.mod_eq_of_lt (by omega)]
    omega

/-- The loop, from a candidate below which there is no prime. -/
theorem getNextPrimeLoop_spec {num p : Nat} (hp : IsLeast {p | num ≤ p ∧ p.Prime} p)
    (hmax : p ≤ 2 ^ 63) {fuel prime : Nat} (hnum : num ≤ prime) (hle : prime ≤ p)
    (hfuel : p < prime + fuel) : getNextPrimeLoop fuel prime = some p := by
  induction fuel generalizing prime with
  | zero => omega
  | succ fuel ih =>
    rw [getNextPrimeLoop, isPrime_eq (Nat.le_trans hle hmax)]
    by_cases hprime : prime.Prime
    · rw [decide_eq_true hprime]
      exact congrArg some (Nat.le_antisymm hle (hp.2 ⟨hnum, hprime⟩))
    · have hne : prime ≠ p := by
        rintro rfl
        exact hprime hp.1.2
      rw [decide_eq_false hprime]
      simp only
      rw [Nat.mod_eq_of_lt (by omega)]
      exact ih (by omega) (by omega) (by omega)

/-- There is a prime within reach, and so a least one. -/
theorem exists_isLeast_prime {num : Nat} (hpos : 0 < num) :
    ∃ p, IsLeast {p | num ≤ p ∧ p.Prime} p ∧ p ≤ 2 * num := by
  obtain ⟨q, hq, hlt, hle⟩ := Nat.exists_prime_lt_and_le_two_mul num (by omega)
  have hex : ∃ p, num ≤ p ∧ p.Prime := ⟨q, by omega, hq⟩
  refine ⟨Nat.find hex, ⟨Nat.find_spec hex, fun p hp => Nat.find_min' hex hp⟩, ?_⟩
  exact Nat.le_trans (Nat.find_min' hex ⟨by omega, hq⟩) hle

/-- **`GetNextPrime` ends, with the least prime.** -/
theorem getNextPrime_spec {num : Nat} (hpos : 0 < num) (hmax : num ≤ 2 ^ 62) :
    ∃ p, getNextPrime num = some p ∧ IsLeast {p | num ≤ p ∧ p.Prime} p ∧ p ≤ 2 * num := by
  obtain ⟨p, hp, hle⟩ := exists_isLeast_prime hpos
  have hnum : num ≤ p := hp.1.1
  exact ⟨p, getNextPrimeLoop_spec hp (by omega) (Nat.le_refl num) hnum (by omega), hp, hle⟩

/-- **Nor does anything wrap in the search**, or in the trial divisions it makes. -/
theorem GetNextPrimeRound.noWrap {num prime : Nat} (h : GetNextPrimeRound num prime)
    (hpos : 0 < num) (hmax : num ≤ 2 ^ 62) :
    prime + 1 < 2 ^ 64 ∧ ∀ i, IsPrimeRound prime i → RoundFits i := by
  obtain ⟨p, hp, hle⟩ := exists_isLeast_prime hpos
  have hprime := h.le hp.1.2 hp.1.1 (by omega)
  exact ⟨by omega, fun i hi => hi.noWrap (by omega)⟩

/-! Whatever the search finds, and however long it takes, is not 0. -/

theorem isPrime_ne_zero {num : Nat} (h : isPrime num = some true) : num ≠ 0 := by
  rintro rfl
  exact absurd h (by decide)

theorem getNextPrimeLoop_pos {fuel prime n : Nat} (h : getNextPrimeLoop fuel prime = some n) :
    0 < n := by
  induction fuel generalizing prime with
  | zero => exact absurd h (by simp [getNextPrimeLoop])
  | succ fuel ih =>
    rw [getNextPrimeLoop] at h
    split at h
    · exact absurd h (by simp)
    · next hprime =>
      rw [Option.some_inj] at h
      exact h ▸ Nat.pos_of_ne_zero (isPrime_ne_zero hprime)
    · exact ih h

end ChatProject
