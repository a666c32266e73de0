import Mathlib.Data.List.Basic

/-!
# Systems that can be watched

A system takes steps of which some can be seen from outside, each under a label, and the others
cannot.  What an observer has is the list of labels.  This file has the rules that proofs about
such observations use.

* `Runs` — the runs of a system, with what is seen of them.
* `Runs.history` — a relation between the observations so far and the state that every step
  preserves holds of every run.
* `Simulation` — a relation between the states of two systems under which the second can follow
  every step of the first, by any number of steps in which the same is seen.  `Simulation.runs`:
  whatever can be observed of the first system can be observed of the second.
-/

set_option autoImplicit false

universe u v w

variable {σ : Type u} {τ : Type v} {α : Type w}

/-- The system, started in `s`, is in another state after a run of which the labels are seen. -/
inductive Runs (step : σ → Option α → σ → Prop) (s : σ) : List α → σ → Prop
  | refl : Runs step s [] s
  | tail {tr : List α} {s' s'' : σ} {l : Option α} (h : Runs step s tr s')
    (hstep : step s' l s'') : Runs step s (tr ++ l.toList) s''

namespace Runs

variable {step : σ → Option α → σ → Prop} {s s' s'' : σ} {tr tr' : List α}

theorem single {l : Option α} (h : step s l s') : Runs step s l.toList s' := .tail .refl h

theorem trans (h : Runs step s tr s') (h' : Runs step s' tr' s'') :
    Runs step s (tr ++ tr') s'' := by
  induction h' with
  | refl =>
    rw [List.append_nil]
    exact h
  | tail _ hstep ih =>
    rw [← List.append_assoc]
    exact .tail ih hstep

/-- **Histories.**  What every step preserves of the observations so far and the state holds of
every run. -/
theorem history {R : List α → σ → Prop}
    (hstep : ∀ tr s l s', R tr s → step s l s' → R (tr ++ l.toList) s')
    (hr : Runs step s tr s') (h : R [] s) : R tr s' := by
  induction hr with
  | refl => exact h
  | tail _ hs ih => exact hstep _ _ _ _ ih hs

/-- What has been seen first was seen of a run that the rest continues. -/
theorem of_append (hr : Runs step s (tr ++ tr') s'') :
    ∃ s', Runs step s tr s' ∧ Runs step s' tr' s'' := by
  generalize hall : tr ++ tr' = all at hr
  induction hr generalizing tr' with
  | refl =>
    obtain ⟨rfl, rfl⟩ := List.append_eq_nil_iff.mp hall
    exact ⟨s, .refl, .refl⟩
  | @tail tr₁ s₁ s₂ l h hstep ih =>
    -- the label of the last step belongs to the second part, unless that is empty
    rcases List.eq_nil_or_concat tr' with rfl | ⟨tr', x, rfl⟩
    · rw [List.append_nil] at hall
      exact ⟨s₂, hall ▸ .tail h hstep, .refl⟩
    · cases l with
      | none =>
        rw [Option.toList_none, List.append_nil] at hall
        obtain ⟨s', h₁, h₂⟩ := ih hall
        refine ⟨s', h₁, ?_⟩
        have hnext := h₂.tail hstep
        rwa [Option.toList_none, List.append_nil] at hnext
      | some y =>
        rw [List.concat_eq_append, ← List.append_assoc, Option.toList_some] at hall
        obtain ⟨rfl, hy⟩ := List.append_inj' hall rfl
        obtain ⟨s', h₁, h₂⟩ := ih rfl
        refine ⟨s', h₁, ?_⟩
        rw [List.concat_eq_append, hy]
        exact h₂.tail hstep

end Runs

/-- The second system follows the first: a step of the first is a run of the second in which the
same is seen. -/
def Simulation (step : σ → Option α → σ → Prop) (step' : τ → Option α → τ → Prop)
    (R : σ → τ → Prop) : Prop :=
  ∀ ⦃s l s' t⦄, R s t → step s l s' → ∃ t', Runs step' t l.toList t' ∧ R s' t'

/-- **Simulation.**  What is seen of a run of the first system is seen of some run of the second,
and the states that are reached correspond. -/
theorem Simulation.runs {step : σ → Option α → σ → Prop} {step' : τ → Option α → τ → Prop}
    {R : σ → τ → Prop} (h : Simulation step step' R) {s s' : σ} {t : τ} {tr : List α} (hR : R s t)
    (hr : Runs step s tr s') : ∃ t', Runs step' t tr t' ∧ R s' t' := by
  induction hr with
  | refl => exact ⟨t, .refl, hR⟩
  | tail _ hstep ih =>
    obtain ⟨t₁, hrun, hR₁⟩ := ih
    obtain ⟨t₂, hrun₂, hR₂⟩ := h hR₁ hstep
    exact ⟨t₂, hrun.trans hrun₂, hR₂⟩
