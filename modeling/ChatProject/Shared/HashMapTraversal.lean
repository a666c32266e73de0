import ChatProject.Lib.Walk
import ChatProject.Shared.HashMapNodes

/-!
# Going through a whole map

`HashMap_ForEach` and `HashMap_Destroy` go through all buckets, and through the list of each.  The
server takes its users and groups down with the second.

* `NodeMap.Refines.forEach` — the walk of two loops is one walk along the pairs of the map.
* `NodeMap.Refines.destroy` — the destructors are called along the same pairs.
* `traversal_once` — after any calls, these are the pairs that have been put in and not taken out
  since, and each is there once.
-/

set_option autoImplicit false

namespace ChatProject

open Machine
open Walk (walk answers walk_of_notMem walk_append_of_mem walk_append_of_notMem)
open Function (uncurry)

namespace HashMap

variable {K V : Type} {hashFunc : K → Nat} {keysEqualFunc : K → K → Bool}

/-- The pairs from bucket `i` on. -/
def entriesFrom (m : HashMap K V hashFunc keysEqualFunc) (i : Nat) : List (K × V) :=
  (m.buckets.drop i).flatMap fun b => b.getD []

theorem entriesFrom_length (m : HashMap K V hashFunc keysEqualFunc) :
    m.entriesFrom m.buckets.length = [] := by
  rw [entriesFrom, List.drop_length, List.flatMap_nil]

theorem entriesFrom_of_lt {m : HashMap K V hashFunc keysEqualFunc} {i : Nat}
    (hi : i < m.buckets.length) :
    m.entriesFrom i = (m.bucket i).getD [] ++ m.entriesFrom (i + 1) := by
  rw [entriesFrom, List.drop_eq_getElem_cons hi, List.flatMap_cons, bucket,
    List.getD_eq_getElem _ _ hi, entriesFrom]

end HashMap

namespace NodeMap

variable {P K V : Type} [DecidableEq P] {hashFunc : K → Nat} {keysEqualFunc : K → K → Bool}

/-! ## Along one list -/

section List

variable {list : DList P (K × V)} {nodes n₁ n₂ : List (P × Option (K × V))} {l : List (K × V)}
  (h : list.Represents nodes)
include h

/-- The walk along what is still ahead in a list. -/
theorem forEachInList_eq {κ : Type} (action : K → V → κ → Int × κ) (hnodes : nodes = n₁ ++ n₂)
    (hl : n₂.map Prod.snd = l.map some) {rounds : Nat} (hrounds : n₂.length ≤ rounds) (count : Nat)
    (context : κ) :
    forEachInList action list rounds (n₂.map Prod.fst ++ [list.sentinel]).head? count context
      = some (decide (0 ∈ answers (uncurry action) l context),
          count + (walk (uncurry action) l context).1.length,
          (walk (uncurry action) l context).2) := by
  refine h.along (motive := fun _ rounds itr ahead => ∀ (l : List (K × V)) (count : Nat)
    (context : κ), ahead.map Prod.snd = l.map some →
      forEachInList action list rounds itr count context
        = some (decide (0 ∈ answers (uncurry action) l context),
            count + (walk (uncurry action) l context).1.length,
            (walk (uncurry action) l context).2)) ?stop ?next hnodes hrounds l count context hl
  case stop =>
    intro rounds l count context hl
    obtain rfl : l = [] := List.map_eq_nil_iff.mp hl.symm
    cases rounds <;> exact if_pos rfl
  case next =>
    intro rounds n₁ z n₂ hnodes hne ih l count context hl
    obtain ⟨kvp, l, rfl, hz, hl'⟩ := List.map_eq_cons_iff.mp hl.symm
    rw [forEachInList, DList.itrEnd, if_neg hne, walk, answers]
    simp only [bind, Option.bind, h.itrGet hnodes, ← hz, h.itrNext hnodes, pure]
    rw [show uncurry action kvp context = action kvp.1 kvp.2 context from rfl]
    by_cases h0 : (action kvp.1 kvp.2 context).1 = 0
    · rw [if_pos h0, if_pos h0, h0]
      simp
    · rw [if_neg h0, if_neg h0, ih l _ _ hl'.symm]
      simp [Ne.symm h0, Nat.add_assoc, Nat.add_comm 1]

theorem destroyPairs_eq {ε : Type} (keyDestroy : Option (K → ε → ε))
    (valDestroy : Option (V → ε → ε)) (hnodes : nodes = n₁ ++ n₂)
    (hl : n₂.map Prod.snd = l.map some) {rounds : Nat} (hrounds : n₂.length ≤ rounds) (e : ε) :
    destroyPairs keyDestroy valDestroy list rounds (n₂.map Prod.fst ++ [list.sentinel]).head? e
      = some (l.foldl (destroyPair keyDestroy valDestroy) e) := by
  refine h.along (motive := fun _ rounds itr ahead => ∀ (l : List (K × V)) (e : ε),
    ahead.map Prod.snd = l.map some → destroyPairs keyDestroy valDestroy list rounds itr e
      = some (l.foldl (destroyPair keyDestroy valDestroy) e)) ?stop ?next hnodes hrounds l e hl
  case stop =>
    intro rounds l e hl
    obtain rfl : l = [] := List.map_eq_nil_iff.mp hl.symm
    cases rounds <;> exact if_pos rfl
  case next =>
    intro rounds n₁ z n₂ hnodes hne ih l e hl
    obtain ⟨kvp, l, rfl, hz, hl'⟩ := List.map_eq_cons_iff.mp hl.symm
    rw [destroyPairs, DList.itrEnd, if_neg hne]
    simp only [bind, Option.bind, h.itrGet hnodes, ← hz, h.itrNext hnodes]
    exact ih l _ hl'.symm

/-- **One bucket.**  The destructors are called on each pair of the list, and no node is left. -/
theorem destroySingleBucket_eq {ε : Type} (keyDestroy : Option (K → ε → ε))
    (valDestroy : Option (V → ε → ε)) (hl : nodes.map Prod.snd = l.map some) {rounds : Nat}
    (hrounds : nodes.length ≤ rounds) (e : ε) :
    destroySingleBucket keyDestroy valDestroy list rounds e
      = some (fun _ => none, l.foldl (destroyPair keyDestroy valDestroy) e) := by
  obtain ⟨s, hs, -, hnext, -⟩ := h.sentinel_eq
  have hpairs := destroyPairs_eq h keyDestroy valDestroy (List.nil_append nodes).symm hl hrounds e
  rw [← hnext] at hpairs
  simp only [destroySingleBucket, DList.itrBegin, bind, Option.bind, hs, pure, hpairs]
  rw [h.destroy none hrounds]
  simp

end List

/-! ## Along the buckets -/

namespace Refines

variable {n : NodeMap P K V hashFunc keysEqualFunc} {m : HashMap K V hashFunc keysEqualFunc}
  (h : Refines n m) (hwf : m.WF)
include h hwf

theorem forEachFrom {κ : Type} (action : K → V → κ → Int × κ) {k i : Nat}
    (hi : i + k = m.buckets.length) (count : Nat) (context : κ) :
    n.forEachFrom action k i count context
      = some (count + (walk (uncurry action) (m.entriesFrom i) context).1.length,
          (walk (uncurry action) (m.entriesFrom i) context).2) := by
  induction k generalizing i count context with
  | zero =>
    obtain rfl : i = m.buckets.length := hi
    rw [HashMap.entriesFrom_length]
    rfl
  | succ k ih =>
    rw [NodeMap.forEachFrom, HashMap.entriesFrom_of_lt (by omega)]
    obtain ⟨hn, hm⟩ | ⟨list, l, nodes, hn, hm, hrep, hnodes⟩ := h.bucket_cases i
    · simp only [hn, hm]
      exact ih (by omega) count context
    · obtain ⟨s, hs, -, hnext, -⟩ := hrep.sentinel_eq
      have hloop := forEachInList_eq hrep action (List.nil_append nodes).symm hnodes
        (h.length_nodes_le hwf hm hnodes) count context
      rw [← hnext] at hloop
      simp only [hn, hm, DList.itrBegin, bind, Option.bind, hs, pure, hloop, Option.getD_some]
      by_cases h0 : 0 ∈ answers (uncurry action) l context
      · rw [decide_eq_true h0, walk_append_of_mem h0]
      · rw [decide_eq_false h0, walk_append_of_notMem h0, walk_of_notMem h0, List.length_append,
          ← Nat.add_assoc]
        exact ih (by omega) _ _

/-- **`HashMap_ForEach` is one walk along the pairs.** -/
theorem forEach {κ : Type} (action : K → V → κ → Int × κ) (context : κ) :
    n.forEach action context
      = some ((walk (uncurry action) m.entries context).1.length,
          (walk (uncurry action) m.entries context).2) := by
  have hall := h.forEachFrom hwf action (k := m.capacity) (i := 0)
    (by rw [Nat.zero_add, hwf.length_buckets]) 0 context
  rw [Nat.zero_add] at hall
  rw [NodeMap.forEach, h.capacity_eq, hall]
  rfl

theorem destroyFrom {ε : Type} (keyDestroy : Option (K → ε → ε))
    (valDestroy : Option (V → ε → ε)) {k i : Nat} (hi : i + k = m.buckets.length) (e : ε) :
    n.destroyFrom keyDestroy valDestroy k i e
      = some ((m.entriesFrom i).foldl (destroyPair keyDestroy valDestroy) e) := by
  induction k generalizing i e with
  | zero =>
    obtain rfl : i = m.buckets.length := hi
    rw [HashMap.entriesFrom_length]
    rfl
  | succ k ih =>
    rw [NodeMap.destroyFrom, HashMap.entriesFrom_of_lt (by omega), List.foldl_append]
    obtain ⟨hn, hm⟩ | ⟨list, l, nodes, hn, hm, hrep, hnodes⟩ := h.bucket_cases i
    · simp only [hn, hm]
      exact ih (by omega) e
    · have hbucket := destroySingleBucket_eq hrep keyDestroy valDestroy hnodes
        (h.length_nodes_le hwf hm hnodes) e
      simp only [hn, hm, bind, Option.bind, hbucket, Option.getD_some]
      exact ih (by omega) _

/-- **`HashMap_Destroy` calls the destructors along the pairs.** -/
theorem destroy {ε : Type} (keyDestroy : Option (K → ε → ε)) (valDestroy : Option (V → ε → ε))
    (e : ε) :
    n.destroy keyDestroy valDestroy e
      = some (m.entries.foldl (destroyPair keyDestroy valDestroy) e) := by
  rw [NodeMap.destroy, h.capacity_eq]
  exact h.destroyFrom hwf keyDestroy valDestroy (by rw [Nat.zero_add, hwf.length_buckets]) e

end Refines

end NodeMap

/-! ## The theorem -/

/-- These are the pairs that have been put in by these calls and not taken out since, and each is
there once. -/
structure Enumerates {K V : Type} {hashFunc : K → Nat} {keysEqualFunc : K → K → Bool}
    (hk : LawfulKeys hashFunc keysEqualFunc) (history : List (MapCall K V × MapReply K V))
    (pairs : List (K × V)) : Prop where
  mem_iff : ∀ pair, pair ∈ pairs ↔
    Dict.Stored (HashMap.cls hk) history (HashMap.cls hk pair.1) pair
  nodup : pairs.Nodup
  /-- No two have equal keys. -/
  distinct : pairs.Pairwise fun a b => keysEqualFunc a.1 b.1 = false

section
variable {P K V : Type} [DecidableEq P] {hashFunc : K → Nat} {keysEqualFunc : K → K → Bool}

open HashMap (cls Represents)

theorem enumerates_entries {hk : LawfulKeys hashFunc keysEqualFunc}
    {m : HashMap K V hashFunc keysEqualFunc} {d : Dict (Quotient hk.setoid) K V}
    {history : List (MapCall K V × MapReply K V)} (hm : Represents hk m d)
    (hruns : Dict.Runs (cls hk) ∅ history d) : Enumerates hk history m.entries := by
  refine ⟨fun pair => ?_, hm.wf.distinct.imp fun {a b} hab heq => ?_, hm.wf.distinct⟩
  · rw [← hruns.lookup_iff, hm.lookup_iff, and_iff_left rfl]
  · rw [heq, hk.refl] at hab
    exact absurd hab (by simp)

/-- **Each pair once.**  Take a map from `HashMap_Create` and any calls on it, with any allocation
failures.  There is one enumeration of the pairs that are then in the map such that
`HashMap_ForEach` calls any action on these, in this order, up to the first 0 it returns, and
returns the number of calls, which is that of all pairs when there is no 0; and `HashMap_Destroy`
calls the two destructors on these and on nothing else.  No call faults. -/
theorem traversal_once (hk : LawfulKeys hashFunc keysEqualFunc) {capacity : Nat} {al : Alloc}
    {m₀ : NodeMap P K V hashFunc keysEqualFunc} (h₀ : (NodeMap.create capacity al).1 = some m₀)
    {calls : List (NodeCall P K V)}
    (hcalls : Along NodeMap.step NodeMap.Promised (some m₀) calls) :
    ∃ m, run NodeMap.step (some m₀) calls = some m ∧
      ∃ pairs, Enumerates hk (m₀.history calls) pairs ∧ pairs.length = m.size ∧
        (∀ (κ : Type) (action : K → V → κ → Int × κ) (context : κ),
          (walk (uncurry action) pairs context).1
              = pairs.take ((answers (uncurry action) pairs context).idxOf 0 + 1) ∧
            m.forEach action context
              = some ((walk (uncurry action) pairs context).1.length,
                  (walk (uncurry action) pairs context).2)) ∧
        (∀ (κ : Type) (action : K → V → κ → Int × κ) (context : κ),
          (∀ key value context', (action key value context').1 ≠ 0) →
            m.forEach action context
              = some (m.size, pairs.foldl (fun c kvp => (action kvp.1 kvp.2 c).2) context)) ∧
        ∀ (ε : Type) (keyDestroy : Option (K → ε → ε)) (valDestroy : Option (V → ε → ε)) (e : ε),
          m.destroy keyDestroy valDestroy e
            = some (pairs.foldl (NodeMap.destroyPair keyDestroy valDestroy) e) := by
  obtain ⟨b₀, hb₀, hrefines₀⟩ := NodeMap.refines_create h₀
  have hrep₀ := represents_create hk hb₀
  obtain ⟨m, hrun, hrefines, hhistory⟩ := hrefines₀.run hrep₀ hcalls
  obtain ⟨d, hruns, hrep⟩ := exists_runs hrep₀ (calls.map NodeCall.view)
  have hsize := hrefines.size_eq.trans hrep.wf.size_eq
  refine ⟨m, hrun, _, hhistory ▸ enumerates_entries hrep hruns, hsize.symm, ?_, ?_, ?_⟩
  · exact fun κ action context =>
      ⟨Walk.walk_eq_take _ context, hrefines.forEach hrep.wf action context⟩
  · intro κ action context hne
    have hall (pairs : List (K × V)) : 0 ∉ answers (uncurry action) pairs context :=
      Walk.answers_ne_zero (fun (kvp : K × V) context' => hne kvp.1 kvp.2 context') pairs context
    rw [hrefines.forEach hrep.wf action context, walk_of_notMem (hall _), ← hsize,
      Walk.walk_snd_of_notMem (hall _)]
    rfl
  · exact fun ε keyDestroy valDestroy e => hrefines.destroy hrep.wf keyDestroy valDestroy e

end

/-- Three pairs in one bucket, of which the first is taken out again: an action that never returns 0
is called on both that are left, one that does is called once, and `HashMap_Destroy` hands out two
keys and two values. -/
theorem traversal_once_collisions :
    ∃ m, run NodeMap.step
          (some (⟨[none, none], 2, 0⟩ : NodeMap Nat Nat Nat (fun _ => 0) (· == ·)))
          [.insert 1 10 [] 0 1, .insert 2 20 [] 9 2, .insert 3 30 [] 9 3, .remove 1] = some m ∧
      m.forEach (fun _ _ n => (1, n + 1)) 0 = some (2, 2) ∧
      m.forEach (fun _ _ n => (0, n + 1)) 0 = some (1, 1) ∧
      m.destroy (some fun _ e => (e.1 + 1, e.2)) (some fun _ e => (e.1, e.2 + 1)) (0, 0) =
        some (2, 2) := by
  have hk : LawfulKeys (fun _ : Nat => 0) (· == ·) :=
    ⟨by simp, by simp, by simp, by simp⟩
  have h₀ : (NodeMap.create 2 []).1 =
      some (⟨[none, none], 2, 0⟩ : NodeMap Nat Nat Nat (fun _ => 0) (· == ·)) := rfl
  have hcalls : Along NodeMap.step NodeMap.Promised
      (some (⟨[none, none], 2, 0⟩ : NodeMap Nat Nat Nat (fun _ => 0) (· == ·)))
      [.insert 1 10 [] 0 1, .insert 2 20 [] 9 2, .insert 3 30 [] 9 3, .remove 1] := by
    decide +kernel
  have hsize : (run NodeMap.step
      (some (⟨[none, none], 2, 0⟩ : NodeMap Nat Nat Nat (fun _ => 0) (· == ·)))
      [.insert 1 10 [] 0 1, .insert 2 20 [] 9 2, .insert 3 30 [] 9 3, .remove 1]).map
        NodeMap.size = some 2 := by
    decide +kernel
  obtain ⟨m, hrun, pairs, -, hlen, hforEach, hall, hdestroy⟩ := traversal_once hk h₀ hcalls
  rw [hrun, Option.map_some, Option.some_inj] at hsize
  rw [hsize] at hlen hall
  obtain ⟨p, q, rfl⟩ := List.length_eq_two.mp hlen
  exact ⟨m, hrun, hall Nat (fun _ _ n => (1, n + 1)) 0 (fun _ _ _ => by simp),
    (hforEach Nat (fun _ _ n => (0, n + 1)) 0).2, hdestroy (Nat × Nat) _ _ (0, 0)⟩

end ChatProject
