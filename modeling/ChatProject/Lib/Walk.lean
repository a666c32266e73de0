import Mathlib.Data.List.Basic

/-!
# Walking along a list with a callback

A callback is called on one item after the other, each time with the context that the call before
has left, until it returns 0.

* `walk` — the items it is called on, and the context that is left.
* `answers` — what it returns, were it called on all of them.  `walk_eq_take` reads off where it is
  stopped.
* `walk_append_of_mem`, `walk_append_of_notMem` — the walk along two lists, as a loop within a loop
  makes it.
-/

set_option autoImplicit false

namespace Walk

universe u v

variable {β : Type u} {κ : Type v} (action : β → κ → Int × κ)

/-- The items the action is called on, and the context it leaves. -/
def walk : List β → κ → List β × κ
  | [], context => ([], context)
  | item :: items, context =>
    if (action item context).1 = 0 then ([item], (action item context).2)
    else
      (item :: (walk items (action item context).2).1, (walk items (action item context).2).2)

/-- What the action returns on each of the items. -/
def answers : List β → κ → List Int
  | [], _ => []
  | item :: items, context => (action item context).1 :: answers items (action item context).2

variable {action} {items items' : List β} {context : κ}

/-- **The walk ends at the first 0.** -/
theorem walk_eq_take (items : List β) (context : κ) :
    (walk action items context).1 = items.take ((answers action items context).idxOf 0 + 1) := by
  induction items generalizing context with
  | nil => rfl
  | cons item items ih =>
    rw [walk, answers, List.take_succ_cons]
    by_cases h0 : (action item context).1 = 0
    · rw [if_pos h0, h0, List.idxOf_cons_self, List.take_zero]
    · rw [if_neg h0, List.idxOf_cons_ne _ h0, ih]

theorem walk_of_notMem (h : 0 ∉ answers action items context) :
    (walk action items context).1 = items := by
  induction items generalizing context with
  | nil => rfl
  | cons item items ih =>
    rw [answers, List.mem_cons, not_or] at h
    rw [walk, if_neg (Ne.symm h.1), ih h.2]

/-- The context goes through all of them. -/
theorem walk_snd_of_notMem (h : 0 ∉ answers action items context) :
    (walk action items context).2 = items.foldl (fun c item => (action item c).2) context := by
  induction items generalizing context with
  | nil => rfl
  | cons item items ih =>
    rw [answers, List.mem_cons, not_or] at h
    rw [walk, if_neg (Ne.symm h.1), List.foldl_cons]
    exact ih h.2

theorem answers_ne_zero (h : ∀ item context, (action item context).1 ≠ 0) (items : List β)
    (context : κ) : 0 ∉ answers action items context := by
  induction items generalizing context with
  | nil => exact List.not_mem_nil
  | cons item items ih =>
    rw [answers, List.mem_cons, not_or]
    exact ⟨(h item context).symm, ih _⟩

/-! ## Two lists -/

theorem walk_append_of_mem (h : 0 ∈ answers action items context) :
    walk action (items ++ items') context = walk action items context := by
  induction items generalizing context with
  | nil => exact absurd h List.not_mem_nil
  | cons item items ih =>
    rw [List.cons_append, walk, walk]
    by_cases h0 : (action item context).1 = 0
    · rw [if_pos h0, if_pos h0]
    · rw [answers, List.mem_cons, or_iff_right (Ne.symm h0)] at h
      rw [if_neg h0, if_neg h0, ih h]

theorem walk_append_of_notMem (h : 0 ∉ answers action items context) :
    walk action (items ++ items') context =
      (items ++ (walk action items' (walk action items context).2).1,
        (walk action items' (walk action items context).2).2) := by
  induction items generalizing context with
  | nil => rfl
  | cons item items ih =>
    rw [answers, List.mem_cons, not_or] at h
    rw [List.cons_append, walk, walk, if_neg (Ne.symm h.1), if_neg (Ne.symm h.1), ih h.2,
      List.cons_append]

end Walk
