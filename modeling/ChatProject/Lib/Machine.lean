import Mathlib.Data.List.Basic

/-!
# Machines with inputs and outputs

A deterministic machine is a function `step : σ → ε → σ × ω` from a state and an input to the next
state and an output.  This file has what proofs about whole runs of such a machine use, and nothing
else: the state a run ends in (`run`), what an outside observer sees of it (`trace`), and the rules
to reason about both.

* `run_invariant` — a predicate that every step preserves holds at the end of every run.
* `run_history` — a relation between the state and the trace so far that survives one more step
  holds at the end of every run.  This is how a law about the outputs of a machine is proved: say
  what the state has to do with what has been seen, and show that the next answer follows from it.
* `Since` — what such laws are made of: *something happened, and since then something else has
  not*.  Both may look at the history before them, and `since_concat` says how one more step
  changes the truth of it.

The rules for runs take a side condition on inputs (`p`), for the runs in which the environment
keeps a promise; `Along` and `run_invariant_along` are for a promise that depends on the state.
-/

set_option autoImplicit false

namespace Machine

universe u v w

variable {σ : Type u} {ε : Type v} {ω : Type w}

/-- The state after the inputs `es`. -/
def run (step : σ → ε → σ × ω) (s : σ) (es : List ε) : σ := es.foldl (fun s e => (step s e).1) s

/-- The inputs of a run, each with the output it produced. -/
def trace (step : σ → ε → σ × ω) : σ → List ε → List (ε × ω)
  | _, [] => []
  | s, e :: es => (e, (step s e).2) :: trace step (step s e).1 es

variable {step : σ → ε → σ × ω} {p : ε → Prop}

theorem run_append (s : σ) (es es' : List ε) :
    run step s (es ++ es') = run step (run step s es) es' :=
  List.foldl_append

theorem trace_append (s : σ) (es es' : List ε) :
    trace step s (es ++ es') = trace step s es ++ trace step (run step s es) es' := by
  induction es generalizing s with
  | nil => rfl
  | cons e es ih => exact congrArg ((e, (step s e).2) :: ·) (ih (step s e).1)

/-- **Invariants.**  What every step preserves holds at the end of every run. -/
theorem run_invariant {P : σ → Prop} (hstep : ∀ s e, p e → P s → P (step s e).1) {s : σ}
    {es : List ε} (hes : ∀ e ∈ es, p e) (h : P s) : P (run step s es) := by
  induction es generalizing s with
  | nil => exact h
  | cons e es ih =>
    exact ih (fun e' he' => hes e' (List.mem_cons_of_mem _ he'))
      (hstep s e (hes e List.mem_cons_self) h)

/-- Every input of the run keeps the promise `q` in the state it comes in. -/
def Along (step : σ → ε → σ × ω) (q : σ → ε → Prop) : σ → List ε → Prop
  | _, [] => True
  | s, e :: es => q s e ∧ Along step q (step s e).1 es

instance decidableAlong {q : σ → ε → Prop} [hq : ∀ s e, Decidable (q s e)] :
    ∀ (s : σ) (es : List ε), Decidable (Along step q s es)
  | _, [] => .isTrue trivial
  | s, e :: es => @instDecidableAnd _ _ (hq s e) (decidableAlong (step s e).1 es)

theorem along_append {q : σ → ε → Prop} {s : σ} {es es' : List ε} :
    Along step q s (es ++ es') ↔ Along step q s es ∧ Along step q (run step s es) es' := by
  induction es generalizing s with
  | nil => exact (iff_of_eq (true_and _)).symm
  | cons e es ih => exact (and_congr Iff.rfl ih).trans and_assoc.symm

theorem Along.of_append {q : σ → ε → Prop} {s : σ} {es es' : List ε}
    (h : Along step q s (es ++ es')) : Along step q s es :=
  (along_append.mp h).1

/-- Two promises that are the same at every input are the same along the run. -/
theorem along_congr {q q' : σ → ε → Prop} {es : List ε} (h : ∀ s, ∀ e ∈ es, (q s e ↔ q' s e))
    (s : σ) : Along step q s es ↔ Along step q' s es := by
  induction es generalizing s with
  | nil => exact Iff.rfl
  | cons e es ih =>
    exact and_congr (h s e List.mem_cons_self)
      (ih (fun s e' he' => h s e' (List.mem_cons_of_mem _ he')) _)

/-- A promise that is kept by the inputs themselves, whatever the state. -/
theorem along_of_forall {q : σ → ε → Prop} {es : List ε} (h : ∀ s, ∀ e ∈ es, q s e) (s : σ) :
    Along step q s es := by
  induction es generalizing s with
  | nil => trivial
  | cons e es ih =>
    exact ⟨h s e List.mem_cons_self, ih (fun s e' he' => h s e' (List.mem_cons_of_mem _ he')) _⟩

/-- What every step that keeps the promise preserves holds at the end of every run that keeps it
throughout. -/
theorem run_invariant_along {P : σ → Prop} {q : σ → ε → Prop}
    (hstep : ∀ s e, q s e → P s → P (step s e).1) {s : σ} {es : List ε}
    (hes : Along step q s es) (h : P s) : P (run step s es) := by
  induction es generalizing s with
  | nil => exact h
  | cons e es ih => exact ih hes.2 (hstep s e hes.1 h)

/-- **Histories.**  What every step preserves of the state and the trace so far holds at the end of
every run. -/
theorem run_history {R : σ → List (ε × ω) → Prop}
    (hstep : ∀ s tr e, p e → R s tr → R (step s e).1 (tr ++ [(e, (step s e).2)])) {s : σ}
    {es : List ε} (hes : ∀ e ∈ es, p e) (h : R s []) : R (run step s es) (trace step s es) := by
  have hgen : ∀ tr, R s tr → R (run step s es) (tr ++ trace step s es) := by
    clear h
    induction es generalizing s with
    | nil =>
      intro tr h
      rw [trace, List.append_nil]
      exact h
    | cons e es ih =>
      intro tr h
      rw [trace, List.append_cons]
      exact ih (fun e' he' => hes e' (List.mem_cons_of_mem _ he')) _
        (hstep s tr e (hes e List.mem_cons_self) h)
  exact hgen [] h

/-- What comes first in a trace is the trace of what came first. -/
theorem exists_of_trace_eq_append {s : σ} {es : List ε} {tr₁ tr₂ : List (ε × ω)}
    (h : trace step s es = tr₁ ++ tr₂) :
    ∃ es₁ es₂, es = es₁ ++ es₂ ∧ trace step s es₁ = tr₁ := by
  induction es generalizing s tr₁ with
  | nil =>
    rw [trace, eq_comm, List.append_eq_nil_iff] at h
    exact ⟨[], [], rfl, h.1.symm⟩
  | cons e es ih =>
    cases tr₁ with
    | nil => exact ⟨[], e :: es, rfl, rfl⟩
    | cons x tr₁ =>
      rw [trace, List.cons_append, List.cons.injEq] at h
      obtain ⟨es₁, es₂, rfl, htr⟩ := ih h.2
      exact ⟨e :: es₁, es₂, rfl, by rw [trace, htr, h.1]⟩

/-! ## Since -/

section Since
variable {α : Type u} {start stop : List α → α → Prop} {tr : List α} {y : α}

/-- `start` happened, and since then `stop` has not.  Each is told the history up to it. -/
def Since (start stop : List α → α → Prop) (tr : List α) : Prop :=
  ∃ tr₁ x tr₂, tr = tr₁ ++ x :: tr₂ ∧ start tr₁ x ∧
    ∀ tr₃ z tr₄, tr₂ = tr₃ ++ z :: tr₄ → ¬ stop (tr₁ ++ x :: tr₃) z

theorem not_since_nil : ¬ Since start stop [] := by
  rintro ⟨tr₁, x, tr₂, h, -⟩
  exact absurd h (by simp)

/-- What happened, and was not followed by a stop. -/
theorem since_of_forall {x : α} {tr₂ : List α} (hx : start tr x)
    (h : ∀ z ∈ tr₂, ∀ before, ¬ stop before z) : Since start stop (tr ++ x :: tr₂) :=
  ⟨tr, x, tr₂, rfl, hx, fun tr₃ z tr₄ heq => h z (by simp [heq]) _⟩

/-- **One more step.** -/
theorem since_concat :
    Since start stop (tr ++ [y]) ↔ start tr y ∨ Since start stop tr ∧ ¬ stop tr y := by
  constructor
  · rintro ⟨tr₁, x, tr₂, htr, hstart, hstop⟩
    -- the last step is the start itself, or one of those since
    rcases List.eq_nil_or_concat tr₂ with rfl | ⟨tr₂, z, rfl⟩
    · obtain ⟨rfl, hx⟩ := List.append_inj' htr rfl
      rw [List.cons.injEq] at hx
      exact .inl (hx.1 ▸ hstart)
    · rw [List.concat_eq_append, ← List.cons_append, ← List.append_assoc] at htr
      obtain ⟨rfl, hz⟩ := List.append_inj' htr rfl
      rw [List.cons.injEq] at hz
      obtain ⟨rfl, -⟩ := hz
      refine .inr ⟨⟨tr₁, x, tr₂, rfl, hstart, fun tr₃ z tr₄ h => ?_⟩, ?_⟩
      · exact hstop tr₃ z (tr₄ ++ [y]) (by rw [h]; simp)
      · exact hstop tr₂ y [] (by simp)
  · rintro (hstart | ⟨⟨tr₁, x, tr₂, rfl, hstart, hstop⟩, hy⟩)
    · exact ⟨tr, y, [], rfl, hstart, fun tr₃ z tr₄ h => absurd h (by simp)⟩
    · refine ⟨tr₁, x, tr₂ ++ [y], by simp, hstart, fun tr₃ z tr₄ h => ?_⟩
      rcases List.eq_nil_or_concat tr₄ with rfl | ⟨tr₄, z', rfl⟩
      · obtain ⟨rfl, hz⟩ := List.append_inj' h rfl
        rw [List.cons.injEq] at hz
        exact hz.1 ▸ hy
      · rw [List.concat_eq_append, ← List.cons_append, ← List.append_assoc] at h
        obtain ⟨rfl, -⟩ := List.append_inj' h rfl
        exact hstop tr₃ z tr₄ rfl

end Since

end Machine
