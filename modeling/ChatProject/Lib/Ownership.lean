import Mathlib.Data.List.Nodup
import Mathlib.Data.List.Perm.Subperm
import Mathlib.Logic.Function.Basic

/-!
# A stock of things that are lent out

There is a fixed stock `all` of distinct things.  At any moment some of them lie in a pool, a list
`free` whose order matters, and the rest is with owners, `held : κ → Option α`.

* `Owned` — nothing is in two places: not twice in the pool, not in the pool and with an owner, not
  with two owners.  Taking the head of the pool (`Owned.take`) and putting a thing back at its end
  (`Owned.release`) keep this, and so does losing things (`Owned.shrink`).
* `Complete` — nothing is nowhere.  Taking and putting back keep this; losing things does not.
* `perm_of_complete` — both together are the conservation law: pool and owners' things are, as a
  multiset, the stock.
-/

set_option autoImplicit false

namespace Ownership

universe u v

variable {κ : Type u} {α : Type v} [DecidableEq κ]

/-- Nothing is in two places. -/
structure Owned (all free : List α) (held : κ → Option α) : Prop where
  /-- No thing is in the pool twice. -/
  nodup : free.Nodup
  /-- What is in the pool is from the stock. -/
  free_mem : ∀ {a}, a ∈ free → a ∈ all
  /-- What an owner has is from the stock. -/
  held_mem : ∀ {k a}, held k = some a → a ∈ all
  /-- What an owner has is not in the pool. -/
  held_free : ∀ {k a}, held k = some a → a ∉ free
  /-- What an owner has no other owner has. -/
  held_inj : ∀ {k k' a}, held k = some a → held k' = some a → k = k'

/-- Nothing is nowhere. -/
def Complete (all free : List α) (held : κ → Option α) : Prop :=
  ∀ a ∈ all, a ∈ free ∨ ∃ k, held k = some a

variable {all free rest : List α} {held : κ → Option α} {k : κ} {a : α}

omit [DecidableEq κ] in
theorem owned_full (hall : free.Nodup) (hsub : ∀ a ∈ free, a ∈ all) :
    Owned all free (fun _ : κ => none) where
  nodup := hall
  free_mem h := hsub _ h
  held_mem h := absurd h (by simp)
  held_free h := absurd h (by simp)
  held_inj h := absurd h (by simp)

omit [DecidableEq κ] in
/-- The pool loses things, or is shuffled. -/
theorem Owned.shrink (h : Owned all free held) (hnd : rest.Nodup) (hsub : ∀ a ∈ rest, a ∈ free) :
    Owned all rest held where
  nodup := hnd
  free_mem hb := h.free_mem (hsub _ hb)
  held_mem := h.held_mem
  held_free hk hb := h.held_free hk (hsub _ hb)
  held_inj := h.held_inj

/-- The head of the pool goes to an owner. -/
theorem Owned.take (h : Owned all (a :: rest) held) (k : κ) :
    Owned all rest (Function.update held k (some a)) := by
  have hnd := List.nodup_cons.mp h.nodup
  have hne : ∀ {k' b}, held k' = some b → a ≠ b :=
    fun hk' heq => h.held_free hk' (heq ▸ List.mem_cons_self)
  have hcases : ∀ {k' b}, Function.update held k (some a) k' = some b →
      k' = k ∧ a = b ∨ held k' = some b := by
    intro k' b hb
    by_cases hk : k' = k
    · rw [hk, Function.update_self, Option.some_inj] at hb
      exact .inl ⟨hk, hb⟩
    · rw [Function.update_of_ne hk] at hb
      exact .inr hb
  constructor
  · exact hnd.2
  · exact fun hb => h.free_mem (List.mem_cons_of_mem _ hb)
  · intro k' b hb
    obtain ⟨-, rfl⟩ | hb := hcases hb
    · exact h.free_mem List.mem_cons_self
    · exact h.held_mem hb
  · intro k' b hb
    obtain ⟨-, rfl⟩ | hb := hcases hb
    · exact hnd.1
    · exact fun hmem => h.held_free hb (List.mem_cons_of_mem _ hmem)
  · intro k' k'' b hb hb'
    obtain ⟨rfl, rfl⟩ | hb := hcases hb
    · obtain ⟨rfl, -⟩ | hb' := hcases hb'
      · rfl
      · exact absurd rfl (hne hb')
    · obtain ⟨-, rfl⟩ | hb' := hcases hb'
      · exact absurd rfl (hne hb)
      · exact h.held_inj hb hb'

/-- An owner puts its thing back at the end of the pool. -/
theorem Owned.release (h : Owned all free held) (hk : held k = some a) :
    Owned all (free ++ [a]) (Function.update held k none) := by
  have hcases : ∀ {k' b}, Function.update held k none k' = some b → k' ≠ k ∧ held k' = some b := by
    intro k' b hb
    by_cases hk' : k' = k
    · rw [hk', Function.update_self] at hb
      exact absurd hb (by simp)
    · rw [Function.update_of_ne hk'] at hb
      exact ⟨hk', hb⟩
  constructor
  · refine List.nodup_append.mpr ⟨h.nodup, List.nodup_singleton a, ?_⟩
    rintro b hb c hc rfl
    exact h.held_free hk (List.mem_singleton.mp hc ▸ hb)
  · intro b hb
    rcases List.mem_append.mp hb with hb | hb
    · exact h.free_mem hb
    · exact List.mem_singleton.mp hb ▸ h.held_mem hk
  · exact fun hb => h.held_mem (hcases hb).2
  · intro k' b hb hmem
    obtain ⟨hne, hb⟩ := hcases hb
    rcases List.mem_append.mp hmem with hmem | hmem
    · exact h.held_free hb hmem
    · rw [List.mem_singleton] at hmem
      exact hne (h.held_inj hb (hmem ▸ hk))
  · exact fun hb hb' => h.held_inj (hcases hb).2 (hcases hb').2

omit [DecidableEq κ] in
/-- A thing that is with an owner leaves room in the pool. -/
theorem Owned.length_lt (h : Owned all free held) (hk : held k = some a) :
    free.length < all.length := by
  have hnd : (a :: free).Nodup := List.nodup_cons.mpr ⟨h.held_free hk, h.nodup⟩
  have hsub : (a :: free).Subperm all := by
    refine hnd.subperm fun b hb => ?_
    rcases List.mem_cons.mp hb with rfl | hb
    · exact h.held_mem hk
    · exact h.free_mem hb
  exact hsub.length_le

theorem Complete.take (h : Complete all (a :: rest) held) (hk : held k = none) :
    Complete all rest (Function.update held k (some a)) := by
  intro b hb
  rcases h b hb with hmem | ⟨k', hk'⟩
  · rcases List.mem_cons.mp hmem with rfl | hmem
    · exact .inr ⟨k, Function.update_self ..⟩
    · exact .inl hmem
  · refine .inr ⟨k', ?_⟩
    rw [Function.update_of_ne]
    · exact hk'
    · rintro rfl
      rw [hk] at hk'
      exact absurd hk' (by simp)

theorem Complete.release (h : Complete all free held) (hk : held k = some a) :
    Complete all (free ++ [a]) (Function.update held k none) := by
  intro b hb
  rcases h b hb with hmem | ⟨k', hk'⟩
  · exact .inl (List.mem_append_left _ hmem)
  · by_cases hne : k' = k
    · rw [hne, hk, Option.some_inj] at hk'
      exact .inl (List.mem_append_right _ (hk' ▸ List.mem_singleton_self a))
    · exact .inr ⟨k', by rw [Function.update_of_ne hne]; exact hk'⟩

omit [DecidableEq κ] in
/-- **Conservation.**  Pool and owners' things together are the stock. -/
theorem perm_of_complete (h : Owned all free held) (hc : Complete all free held)
    (hall : all.Nodup) {things : List α} (hnd : things.Nodup)
    (hmem : ∀ a, a ∈ things ↔ ∃ k, held k = some a) : (free ++ things).Perm all := by
  refine (List.perm_ext_iff_of_nodup ?_ hall).mpr ?_
  · refine List.nodup_append.mpr ⟨h.nodup, hnd, ?_⟩
    rintro b hb b' hb' rfl
    obtain ⟨k, hk⟩ := (hmem b).mp hb'
    exact h.held_free hk hb
  · intro b
    rw [List.mem_append, hmem]
    refine ⟨?_, hc b⟩
    rintro (hb | ⟨k, hk⟩)
    · exact h.free_mem hb
    · exact h.held_mem hk

end Ownership
