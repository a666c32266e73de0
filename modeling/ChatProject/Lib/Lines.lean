import Mathlib.Data.List.TakeWhile

/-!
# The lines of a stream

A stream is cut into lines behind each `nl`.  The last line may be without one; no line is empty.

* `line`, `rest` — the first line with its `nl`, and what comes behind it.
* `all` — the lines, from first to last; `byLine` is the induction on them, and `all_flatten` says
  that lines that are put together come apart again.
* `rest_drop` — a reader that stops within a line is still on it.
-/

set_option autoImplicit false

namespace Lines

universe u

variable {α : Type u} [DecidableEq α] (nl : α)

/-- The first line, up to and including its `nl`. -/
def line : List α → List α
  | [] => []
  | c :: s => if c = nl then [c] else c :: line s

/-- What is behind the first line. -/
def rest : List α → List α
  | [] => []
  | c :: s => if c = nl then s else rest s

/-- All lines. -/
def all : List α → List (List α)
  | [] => []
  | c :: s => if c = nl then [c] :: all s else (c :: (all s).headD []) :: (all s).tail

/-- A line without its `nl`. -/
def body (l : List α) : List α := l.takeWhile (· ≠ nl)

variable {s : List α}

theorem line_append_rest (s : List α) : line nl s ++ rest nl s = s := by
  induction s with
  | nil => rfl
  | cons c s ih =>
    rw [line, rest]
    split
    · rfl
    · rw [List.cons_append, ih]

theorem drop_length_line (s : List α) : s.drop (line nl s).length = rest nl s :=
  calc s.drop (line nl s).length
    _ = (line nl s ++ rest nl s).drop (line nl s).length := by rw [line_append_rest]
    _ = rest nl s := List.drop_left

theorem line_ne_nil (hs : s ≠ []) : line nl s ≠ [] := by
  obtain ⟨c, s, rfl⟩ := List.exists_cons_of_ne_nil hs
  rw [line]
  split <;> exact List.cons_ne_nil _ _

theorem length_rest_lt (hs : s ≠ []) : (rest nl s).length < s.length := by
  have hlen := congrArg List.length (line_append_rest nl s)
  have hpos := List.length_pos_iff.mpr (line_ne_nil nl hs)
  rw [List.length_append] at hlen
  omega

theorem length_rest_le (s : List α) : (rest nl s).length ≤ s.length := by
  have hlen := congrArg List.length (line_append_rest nl s)
  rw [List.length_append] at hlen
  omega

/-- **Line by line.** -/
@[elab_as_elim]
theorem byLine {motive : List α → Prop} (nil : motive [])
    (line : ∀ s, s ≠ [] → motive (rest nl s) → motive s) (s : List α) : motive s := by
  induction hlen : s.length using Nat.strongRecOn generalizing s with
  | _ k ih =>
    subst hlen
    by_cases hs : s = []
    · exact hs ▸ nil
    · exact line s hs (ih _ (length_rest_lt nl hs) _ rfl)

/-! ## All of them -/

theorem headD_all (s : List α) : (all nl s).headD [] = line nl s := by
  induction s with
  | nil => rfl
  | cons c s ih =>
    rw [all, line]
    split
    · rfl
    · rw [List.headD_cons, ih]

theorem tail_all (s : List α) : (all nl s).tail = all nl (rest nl s) := by
  induction s with
  | nil => rfl
  | cons c s ih =>
    rw [all, rest]
    split
    · rfl
    · rw [List.tail_cons, ih]

theorem all_eq (hs : s ≠ []) : all nl s = line nl s :: all nl (rest nl s) := by
  rw [← headD_all, ← tail_all]
  obtain ⟨c, s, rfl⟩ := List.exists_cons_of_ne_nil hs
  rw [all]
  split <;> rfl

/-- Together they are the stream. -/
theorem flatten_all (s : List α) : (all nl s).flatten = s := by
  induction s using byLine nl with
  | nil => rfl
  | line s hs ih => rw [all_eq nl hs, List.flatten_cons, ih, line_append_rest]

/-- A line that ends where its `nl` is comes first. -/
theorem all_append {l : List α} (hl : nl ∉ l) (s : List α) :
    all nl (l ++ [nl] ++ s) = (l ++ [nl]) :: all nl s := by
  induction l with
  | nil => simp [all]
  | cons c l ih =>
    rw [List.mem_cons, not_or] at hl
    rw [List.cons_append, List.cons_append, all, if_neg (Ne.symm hl.1), ih hl.2]
    rfl

/-- Whole lines, put together and taken apart again. -/
theorem all_flatten {ls : List (List α)} (h : ∀ l ∈ ls, ∃ b, nl ∉ b ∧ l = b ++ [nl]) :
    all nl ls.flatten = ls := by
  induction ls with
  | nil => rfl
  | cons l ls ih =>
    obtain ⟨b, hb, rfl⟩ := h l List.mem_cons_self
    rw [List.flatten_cons, all_append nl hb, ih fun l hl => h l (List.mem_cons_of_mem _ hl)]

/-! ## The place of the `nl` -/

variable {nl}

theorem notMem_body (l : List α) : nl ∉ body nl l := fun h => by
  simpa using List.mem_takeWhile_imp h

/-- An `nl` is the last of its line. -/
theorem line_of_mem (h : nl ∈ line nl s) : line nl s = body nl (line nl s) ++ [nl] := by
  induction s with
  | nil => exact absurd h List.not_mem_nil
  | cons c s ih =>
    rw [line] at h ⊢
    by_cases hc : c = nl
    · subst hc
      simp [body]
    · rw [if_neg hc, List.mem_cons, or_iff_right (Ne.symm hc)] at h
      rw [if_neg hc, body, List.takeWhile_cons_of_pos (by simpa using hc), List.cons_append]
      exact congrArg (c :: ·) (ih h)

theorem length_of_mem (h : nl ∈ line nl s) :
    (line nl s).length = (body nl (line nl s)).length + 1 := by
  have hlen := congrArg List.length (line_of_mem h)
  rwa [List.length_append, List.length_singleton] at hlen

theorem line_of_notMem (h : nl ∉ line nl s) : line nl s = body nl (line nl s) := by
  refine (List.takeWhile_eq_self_iff.mpr fun c hc => ?_).symm
  exact decide_eq_true fun heq => h (heq ▸ hc)

/-- Only the last line is without one. -/
theorem rest_of_notMem (h : nl ∉ line nl s) : rest nl s = [] := by
  induction s with
  | nil => rfl
  | cons c s ih =>
    rw [line] at h
    rw [rest]
    by_cases hc : c = nl
    · rw [if_pos hc, List.mem_singleton] at h
      exact absurd hc.symm h
    · rw [if_neg hc, List.mem_cons, not_or] at h
      rw [if_neg hc, ih h.2]

/-- Short of a whole line, it makes no difference whether the `nl` counts. -/
theorem take_line {n : Nat} (hn : n < (line nl s).length) :
    (line nl s).take n = (body nl (line nl s)).take n := by
  by_cases h : nl ∈ line nl s
  · have heq := line_of_mem h
    have hlen := length_of_mem h
    calc (line nl s).take n
      _ = (body nl (line nl s) ++ [nl]).take n := congrArg (List.take n) heq
      _ = (body nl (line nl s)).take n := List.take_append_of_le_length (by omega)
  · rw [← line_of_notMem h]

theorem notMem_take {n : Nat} (hn : n < (line nl s).length) : nl ∉ (line nl s).take n := by
  rw [take_line hn]
  exact fun h => notMem_body _ (List.mem_of_mem_take h)

theorem rest_append {l : List α} (hl : nl ∉ l) (s : List α) : rest nl (l ++ s) = rest nl s := by
  induction l with
  | nil => rfl
  | cons c l ih =>
    rw [List.mem_cons, not_or] at hl
    rw [List.cons_append, rest, if_neg (Ne.symm hl.1), ih hl.2]

/-- **Stopping within a line.**  The reader is still on that line. -/
theorem rest_drop {n : Nat} (hn : n < (line nl s).length) : rest nl (s.drop n) = rest nl s := by
  have htake : s.take n = (line nl s).take n := by
    rw [← List.take_append_of_le_length (Nat.le_of_lt hn), line_append_rest]
  calc rest nl (s.drop n)
    _ = rest nl ((line nl s).take n ++ s.drop n) := (rest_append (notMem_take hn) _).symm
    _ = rest nl s := by rw [← htake, List.take_append_drop]

end Lines
