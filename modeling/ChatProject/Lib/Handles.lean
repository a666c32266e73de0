import Mathlib.Order.BooleanAlgebra.Set
import Mathlib.Data.List.Basic

/-!
# Handles that are opened and closed

A program opens handles and closes them again: descriptors, sockets, files.  What it has done so far
is a list of `Use`s, and `Takes held uses held'` says that these take the set of handles it holds
from `held` to `held'`, without opening what is held already and without closing what is not held.

* `Takes.append`, `takes_closeAll` — how such lists are put together.
* `Takes.turns`, `Takes.about_eq_nil` — what this comes to for one handle: it is opened and closed
  in turns, or left alone.
-/

set_option autoImplicit false

namespace Handles

universe u

variable {α : Type u}

/-- Something is done about a handle. -/
inductive Use (α : Type u) where
  | opens (a : α)
  | closes (a : α)
deriving DecidableEq

/-- The handle. -/
def Use.handle : Use α → α
  | .opens a | .closes a => a

/-- These uses take the handles that are held from the first set to the second. -/
inductive Takes : Set α → List (Use α) → Set α → Prop
  | nil (held : Set α) : Takes held [] held
  | opens {a : α} {held held' : Set α} {uses : List (Use α)} (hnew : a ∉ held)
    (hrest : Takes (insert a held) uses held') : Takes held (.opens a :: uses) held'
  | closes {a : α} {held held' : Set α} {uses : List (Use α)} (hheld : a ∈ held)
    (hrest : Takes (held \ {a}) uses held') : Takes held (.closes a :: uses) held'

variable {a : α} {held held' held'' : Set α} {uses uses' : List (Use α)}

theorem Takes.append (h : Takes held uses held') (h' : Takes held' uses' held'') :
    Takes held (uses ++ uses') held'' := by
  induction h with
  | nil => exact h'
  | opens hnew _ ih => exact .opens hnew (ih h')
  | closes hheld _ ih => exact .closes hheld (ih h')

theorem takes_opens (hnew : a ∉ held) : Takes held [.opens a] (insert a held) :=
  .opens hnew (.nil _)

theorem takes_closes (hheld : a ∈ held) : Takes held [.closes a] (held \ {a}) :=
  .closes hheld (.nil _)

/-- A handle that is opened and closed at once. -/
theorem takes_both (hnew : a ∉ held) : Takes held [.opens a, .closes a] held := by
  have h := takes_closes (Set.mem_insert a held)
  rw [Set.insert_sdiff_self_of_notMem hnew] at h
  exact .opens hnew h

/-- Everything that is held is closed, one after the other. -/
theorem takes_closeAll {l : List α} (hnd : l.Nodup) (hheld : ∀ a, a ∈ held ↔ a ∈ l) :
    Takes held (l.map .closes) ∅ := by
  induction l generalizing held with
  | nil =>
    obtain rfl : held = ∅ := Set.eq_empty_iff_forall_notMem.mpr fun a ha =>
      absurd ((hheld a).mp ha) List.not_mem_nil
    exact .nil ∅
  | cons b l ih =>
    obtain ⟨hb, hnd⟩ := List.nodup_cons.mp hnd
    refine .closes ((hheld b).mpr List.mem_cons_self) (ih hnd fun a => ?_)
    rw [Set.mem_sdiff, hheld, List.mem_cons, Set.mem_singleton_iff]
    constructor
    · rintro ⟨hab | ha, hne⟩
      · exact absurd hab hne
      · exact ha
    · exact fun ha => ⟨.inr ha, fun hab => hb (hab ▸ ha)⟩

/-- What is done about one handle. -/
def about [DecidableEq α] (a : α) (uses : List (Use α)) : List (Use α) :=
  uses.filter fun u => u.handle = a

theorem about_cons_of_eq [DecidableEq α] {u : Use α} (h : u.handle = a) :
    about a (u :: uses) = u :: about a uses :=
  List.filter_cons_of_pos (decide_eq_true h)

theorem about_cons_of_ne [DecidableEq α] {u : Use α} (h : u.handle ≠ a) :
    about a (u :: uses) = about a uses :=
  List.filter_cons_of_neg fun heq => h (of_decide_eq_true heq)

/-- Nothing is done about a handle that was not held and is not opened. -/
theorem Takes.about_eq_nil [DecidableEq α] (h : Takes held uses held') (ha : a ∉ held)
    (hopen : .opens a ∉ uses) : about a uses = [] := by
  induction h with
  | nil => rfl
  | @opens b held held' uses hnew _ ih =>
    have hne : b ≠ a := fun heq => hopen (heq ▸ List.mem_cons_self)
    rw [about_cons_of_ne (u := .opens b) hne]
    refine ih ?_ fun hmem => hopen (List.mem_cons_of_mem _ hmem)
    exact fun hmem => hmem.elim (fun heq => hne heq.symm) ha
  | @closes b held held' uses hheld _ ih =>
    have hne : b ≠ a := fun heq => ha (heq ▸ hheld)
    rw [about_cons_of_ne (u := .closes b) hne]
    exact ih (fun hmem => ha hmem.1) fun hmem => hopen (List.mem_cons_of_mem _ hmem)

open Classical in
/-- The opening that a handle which is held must have had. -/
noncomputable def begun (held : Set α) (a : α) : List (Use α) := if a ∈ held then [.opens a] else []

theorem begun_of_mem (ha : a ∈ held) : begun held a = [.opens a] := if_pos ha

theorem begun_of_not_mem (ha : a ∉ held) : begun held a = [] := if_neg ha

/-- **In turns.**  Each handle is opened, closed, opened again and so on. -/
theorem Takes.turns [DecidableEq α] (h : Takes held uses held') (a : α) :
    ∃ n, begun held a ++ about a uses =
      (List.replicate n [Use.opens a, .closes a]).flatten ++ begun held' a := by
  induction h with
  | nil => exact ⟨0, List.append_nil _⟩
  | @opens b held held' uses hnew _ ih =>
    obtain ⟨n, hn⟩ := ih
    refine ⟨n, ?_⟩
    by_cases hb : b = a
    · subst hb
      rw [begun_of_mem (Set.mem_insert b held)] at hn
      rw [begun_of_not_mem hnew, ← hn]
      rw [about_cons_of_eq (a := b) (u := .opens b) rfl]
      rfl
    · have hsame : begun (insert b held) a = begun held a := by
        rw [begun, begun, Set.mem_insert_iff, or_iff_right (Ne.symm hb)]
      rw [← hn, hsame, about_cons_of_ne (u := .opens b) hb]
  | @closes b held held' uses hheld _ ih =>
    obtain ⟨n, hn⟩ := ih
    by_cases hb : b = a
    · subst hb
      refine ⟨n + 1, ?_⟩
      rw [begun_of_not_mem fun hmem => hmem.2 rfl, List.nil_append] at hn
      rw [begun_of_mem hheld, about_cons_of_eq (a := b) (u := .closes b) rfl, hn,
        List.replicate_succ, List.flatten_cons]
      rfl
    · refine ⟨n, ?_⟩
      have hsame : begun (held \ {b}) a = begun held a := by
        rw [begun, begun, Set.mem_sdiff, Set.mem_singleton_iff, and_iff_left (Ne.symm hb)]
      rw [← hn, hsame, about_cons_of_ne (u := .closes b) hb]

end Handles
