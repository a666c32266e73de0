import ChatProject.Lib.Lines
import ChatProject.Shared.CRuntime

/-!
# Standard input

What `fgets` and `getchar` do, as far as the client's programs use them.  Standard input is the list
of the bytes that are still to come; its end stays its end.

* `fgets` — reads on to the newline, the end or the size it is told.  `fgets_eq` says it in terms of
  the lines of the stream.
* `drain` — the loop that skips the remainder of a line.
-/

set_option autoImplicit false

namespace ChatProject

open Lines

/-- `'\n'`. -/
def newline : UInt8 := 10

/-- The characters `fgets` reads, at most `n` of them, and what it leaves. -/
def readChars : (n : Nat) → (stdin : List UInt8) → List UInt8 × List UInt8
  | 0, stdin => ([], stdin)
  | _ + 1, [] => ([], [])
  | n + 1, c :: stdin =>
    if c = newline then ([c], stdin)
    else (c :: (readChars n stdin).1, (readChars n stdin).2)

/-- `fgets(s, n, stdin)`: the bytes it stores before the terminator, or `none` for NULL. -/
def fgets (n : Int) (stdin : List UInt8) : Option (List UInt8) × List UInt8 :=
  if n ≤ 0 then (none, stdin)
  else if n = 1 then (some [], stdin)
  else if stdin = [] then (none, stdin)
  else (some (readChars (n.toNat - 1) stdin).1, (readChars (n.toNat - 1) stdin).2)

/-- `while ((c = getchar()) != '\n' && c != EOF)`. -/
def drain : (stdin : List UInt8) → List UInt8
  | [] => []
  | c :: stdin => if c = newline then stdin else drain stdin

theorem drain_eq (stdin : List UInt8) : drain stdin = rest newline stdin := by
  induction stdin with
  | nil => rfl
  | cons c stdin ih => rw [drain, rest, ih]

/-- It reads the first bytes of the line it is on, and leaves what comes behind them. -/
theorem readChars_eq (n : Nat) (stdin : List UInt8) :
    readChars n stdin
      = ((line newline stdin).take n, stdin.drop ((line newline stdin).take n).length) := by
  induction stdin generalizing n with
  | nil => cases n <;> rfl
  | cons c stdin ih =>
    cases n with
    | zero => rfl
    | succ n =>
      rw [readChars, line]
      split
      · rw [List.take_succ_cons, List.take_nil]
        rfl
      · rw [ih n]
        rfl

/-- **A read of `n` bytes at most.** -/
theorem fgets_eq {n : Nat} {stdin : List UInt8} (h : n = 0 ∨ stdin ≠ []) :
    fgets (n + 1 : Nat) stdin
      = (some ((line newline stdin).take n), stdin.drop ((line newline stdin).take n).length) := by
  rw [fgets, if_neg (by omega)]
  split
  next hone =>
    obtain rfl : n = 0 := by omega
    rfl
  next hone =>
    rw [if_neg (h.resolve_left (by omega)), Int.toNat_natCast, Nat.add_sub_cancel, readChars_eq]

/-- Otherwise it reads nothing, not even the end of the line. -/
theorem fgets_cases (n : Int) (stdin : List UInt8) :
    fgets n stdin = (none, stdin) ∨ ∃ k : Nat, n = (k + 1 : Nat) ∧ (k = 0 ∨ stdin ≠ []) := by
  by_cases hn : n ≤ 0
  · exact .inl (if_pos hn)
  · obtain ⟨k, rfl⟩ : ∃ k : Nat, n = (k + 1 : Nat) := ⟨n.toNat - 1, by omega⟩
    by_cases hstdin : k = 0 ∨ stdin ≠ []
    · exact .inr ⟨k, rfl, hstdin⟩
    · rw [not_or, not_not] at hstdin
      exact .inl (by rw [fgets, if_neg hn, if_neg (by omega), if_pos hstdin.2])

end ChatProject
