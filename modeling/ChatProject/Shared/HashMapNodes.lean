import ChatProject.Shared.GenDListRefinement
import ChatProject.Shared.HashMapRefinement

/-!
# The hash map on its lists

`Shared/HashMap.lean` takes a bucket for a sequence of pairs.  Here a bucket is what it is in the
source, a list of `gen_dlist.c` with its nodes in a heap, and the functions of `HashMap.c` go
through it with the iterators of the list.  Following a pointer that leads nowhere is a fault
(`none`), and so is a loop along a list that takes more rounds than the map has pairs.

* `NodeMap` — the map, with `forEach` and `destroy`, which the other model of it does not have.
* `NodeMap.Refines` — its lists hold the pairs of the other model's buckets, in the same order.
* `NodeMap.Refines.call` — the simulation; in particular no call faults, as long as `malloc` returns
  nodes that are not in use.
-/

set_option autoImplicit false

namespace ChatProject

open Machine

/-! ## The map -/

/-- `struct HashMap`, for a fixed hash and equality function; `none` is a NULL list pointer. -/
structure NodeMap (P K V : Type) (hashFunc : K → Nat) (keysEqualFunc : K → K → Bool) where
  buckets : List (Option (DList P (K × V)))
  capacity : Nat
  size : Nat

namespace NodeMap

variable {P K V : Type} [DecidableEq P] {hashFunc : K → Nat} {keysEqualFunc : K → K → Bool}

/-- `HashMap_Create`. -/
def create (capacity : Nat) (al : Alloc) : Option (NodeMap P K V hashFunc keysEqualFunc) × Alloc :=
  if capacity = 0 then (none, al)
  else
    match malloc al with
    | (false, al) => (none, al)
    | (true, al) =>
      match getNextPrime capacity with
      | none => (none, al)
      | some primeCapacity =>
        match malloc al with
        | (false, al) => (none, al)
        | (true, al) => (some ⟨List.replicate primeCapacity none, primeCapacity, 0⟩, al)

/-- The loop of `FindInList`, for at most `rounds` rounds: the pair, and the iterator at it. -/
def findInList (keysEqualFunc : K → K → Bool) (list : DList P (K × V)) (key : K) :
    (rounds : Nat) → (itr : Option P) → Option (Option ((K × V) × Option P))
  | 0, itr => if itr = list.itrEnd then some none else none
  | rounds + 1, itr =>
    if itr = list.itrEnd then some none
    else do
      let kvp ← list.itrGet itr
      match kvp.filter fun kvp => keysEqualFunc key kvp.1 with
      | some kvp => return some (kvp, itr)
      | none =>
        let itr ← list.itrNext itr
        findInList keysEqualFunc list key rounds itr

/-- The loop of `HashMap_ForEach` along one list: whether the action has returned 0, the calls so
far and the context it has left. -/
def forEachInList {κ : Type} (action : K → V → κ → Int × κ) (list : DList P (K × V)) :
    (rounds : Nat) → (itr : Option P) → (count : Nat) → (context : κ) → Option (Bool × Nat × κ)
  | 0, itr, count, context => if itr = list.itrEnd then some (false, count, context) else none
  | rounds + 1, itr, count, context =>
    if itr = list.itrEnd then some (false, count, context)
    else do
      match ← list.itrGet itr with
      | none =>
        let itr ← list.itrNext itr
        forEachInList action list rounds itr count context
      | some kvp =>
        let r := action kvp.1 kvp.2 context
        if r.1 = 0 then return (true, count + 1, r.2)
        else
          let itr ← list.itrNext itr
          forEachInList action list rounds itr (count + 1) r.2

/-- The calls of the two destructors on one pair; either may be NULL. -/
def destroyPair {ε : Type} (keyDestroy : Option (K → ε → ε)) (valDestroy : Option (V → ε → ε))
    (e : ε) (kvp : K × V) : ε :=
  let e := keyDestroy.elim e fun f => f kvp.1 e
  valDestroy.elim e fun f => f kvp.2 e

/-- The loop of `DestroySingleBucket`. -/
def destroyPairs {ε : Type} (keyDestroy : Option (K → ε → ε)) (valDestroy : Option (V → ε → ε))
    (bucket : DList P (K × V)) : (rounds : Nat) → (itr : Option P) → ε → Option ε
  | 0, itr, e => if itr = bucket.itrEnd then some e else none
  | rounds + 1, itr, e =>
    if itr = bucket.itrEnd then some e
    else do
      let kvp ← bucket.itrGet itr
      let itr ← bucket.itrNext itr
      destroyPairs keyDestroy valDestroy bucket rounds itr
        (kvp.elim e (destroyPair keyDestroy valDestroy e))

/-- `DestroySingleBucket`: what the destructors have done, and the heap that is left. -/
def destroySingleBucket {ε : Type} (keyDestroy : Option (K → ε → ε))
    (valDestroy : Option (V → ε → ε)) (bucket : DList P (K × V)) (rounds : Nat) (e : ε) :
    Option (NodeHeap P (K × V) × ε) := do
  let itr ← bucket.itrBegin
  let e ← destroyPairs keyDestroy valDestroy bucket rounds itr e
  bucket.destroy none rounds e

section
variable (m : NodeMap P K V hashFunc keysEqualFunc)

/-- `GetBucketIndex`. -/
def getBucketIndex (key : K) : Nat := hashFunc key % m.capacity

/-- `buckets[index]`, NULL outside the array. -/
def bucket (index : Nat) : Option (DList P (K × V)) := m.buckets.getD index none

/-- `FindInList` from the start of a list. -/
def findIn (list : DList P (K × V)) (key : K) : Option (Option ((K × V) × Option P)) := do
  let itr ← list.itrBegin
  findInList keysEqualFunc list key m.size itr

/-- The tail of `HashMap_Insert`, with `node` for the block that `ListPushTail` gets. -/
def pushPair (index : Nat) (list : DList P (K × V)) (key : K) (value : V) (al : Alloc) (node : P) :
    Option (MapResult × NodeMap P K V hashFunc keysEqualFunc × Alloc) :=
  match malloc al with
  | (false, al) => some (.allocationError, m, al)
  | (true, al) =>
    match malloc al with
    | (ok, al) => do
      let (list, itr) ← list.pushTail (some (key, value)) (if ok then some node else none)
      let m := { m with buckets := m.buckets.set index (some list) }
      match itr with
      | none => return (.allocationError, m, al)
      | some _ => return (.success, { m with size := m.size + 1 }, al)

/-- `HashMap_Insert`, with `sentinel` for the block that `ListCreate` gets. -/
def insert (key : K) (value : V) (al : Alloc) (sentinel node : P) :
    Option (MapResult × NodeMap P K V hashFunc keysEqualFunc × Alloc) :=
  let index := m.getBucketIndex key
  match m.bucket index with
  | none =>
    match malloc al with
    | (ok, al) =>
      match DList.create (if ok then some sentinel else none) with
      | none => some (.allocationError, m, al)
      | some list =>
        { m with buckets := m.buckets.set index (some list) }.pushPair index list key value al node
  | some list => do
    match ← m.findIn list key with
    | some _ => return (.keyDuplicateError, m, al)
    | none => m.pushPair index list key value al node

/-- `HashMap_Remove`: the pair that was taken out, when there was one. -/
def remove (searchKey : K) :
    Option (MapResult × Option (K × V) × NodeMap P K V hashFunc keysEqualFunc) :=
  let index := m.getBucketIndex searchKey
  match m.bucket index with
  | none => some (.keyNotFoundError, none, m)
  | some list => do
    match ← m.findIn list searchKey with
    | none => return (.keyNotFoundError, none, m)
    | some (kvp, targetItr) =>
      let (list, _) ← list.itrRemove targetItr
      return (.success, some kvp,
        { m with buckets := m.buckets.set index (some list), size := m.size - 1 })

/-- `HashMap_Find`: the value, exactly when the C function returns `MAP_SUCCESS`. -/
def find (key : K) : Option (Option V) :=
  match m.bucket (m.getBucketIndex key) with
  | none => some none
  | some list => do
    let found ← m.findIn list key
    return found.map fun r => r.1.2

/-- The loop of `HashMap_ForEach` over the buckets, from bucket `i` on. -/
def forEachFrom {κ : Type} (action : K → V → κ → Int × κ) :
    (buckets : Nat) → (i count : Nat) → (context : κ) → Option (Nat × κ)
  | 0, _, count, context => some (count, context)
  | buckets + 1, i, count, context =>
    match m.bucket i with
    | none => forEachFrom action buckets (i + 1) count context
    | some list => do
      let itr ← list.itrBegin
      match ← forEachInList action list m.size itr count context with
      | (true, count, context) => return (count, context)
      | (false, count, context) => forEachFrom action buckets (i + 1) count context

/-- `HashMap_ForEach`: the number of calls, and the context they have left. -/
def forEach {κ : Type} (action : K → V → κ → Int × κ) (context : κ) : Option (Nat × κ) :=
  m.forEachFrom action m.capacity 0 0 context

/-- The loop of `HashMap_Destroy`, from bucket `i` on. -/
def destroyFrom {ε : Type} (keyDestroy : Option (K → ε → ε)) (valDestroy : Option (V → ε → ε)) :
    (buckets : Nat) → (i : Nat) → ε → Option ε
  | 0, _, e => some e
  | buckets + 1, i, e =>
    match m.bucket i with
    | none => destroyFrom keyDestroy valDestroy buckets (i + 1) e
    | some list => do
      let (_, e) ← destroySingleBucket keyDestroy valDestroy list m.size e
      destroyFrom keyDestroy valDestroy buckets (i + 1) e

/-- `HashMap_Destroy`: what the destructors have done. -/
def destroy {ε : Type} (keyDestroy : Option (K → ε → ε)) (valDestroy : Option (V → ε → ε))
    (e : ε) : Option ε :=
  m.destroyFrom keyDestroy valDestroy m.capacity 0 e

end

/-! ## Lists that hold the pairs of a bucket -/

/-- The list has these pairs in it, in this order. -/
def Holds (list : DList P (K × V)) (l : List (K × V)) : Prop :=
  ∃ nodes, list.Represents nodes ∧ nodes.map Prod.snd = l.map some

omit [DecidableEq P] in
/-- What a search along the nodes of a list comes to. -/
def lookup (keysEqualFunc : K → K → Bool) (key : K) (nodes : List (P × Option (K × V))) :
    Option ((K × V) × Option P) :=
  nodes.findSome? fun z => (z.2.filter fun kvp => keysEqualFunc key kvp.1).map (·, some z.1)

/-- The loop of `FindInList` goes through what is still ahead. -/
theorem findInList_eq {list : DList P (K × V)} {nodes n₁ n₂ : List (P × Option (K × V))}
    (h : list.Represents nodes) (hnodes : nodes = n₁ ++ n₂) (key : K) {rounds : Nat}
    (hrounds : n₂.length ≤ rounds) :
    findInList keysEqualFunc list key rounds
      (n₂.map Prod.fst ++ [list.sentinel]).head? = some (lookup keysEqualFunc key n₂) := by
  refine h.along (motive := fun _ rounds itr ahead =>
    findInList keysEqualFunc list key rounds itr = some (lookup keysEqualFunc key ahead))
    ?stop ?next hnodes hrounds
  case stop =>
    rintro (_ | rounds) <;> exact if_pos rfl
  case next =>
    intro rounds n₁ z n₂ hnodes hne ih
    rw [findInList, DList.itrEnd, if_neg hne, lookup, List.findSome?_cons]
    simp only [bind, Option.bind, h.itrGet hnodes]
    cases hfilter : z.2.filter fun kvp => keysEqualFunc key kvp.1 with
    | some kvp => rfl
    | none =>
      simp only [h.itrNext hnodes, Option.map_none]
      exact ih

/-- The search from the start of a list. -/
theorem findIn_eq (m : NodeMap P K V hashFunc keysEqualFunc) {list : DList P (K × V)}
    {nodes : List (P × Option (K × V))} (h : list.Represents nodes) (key : K)
    (hsize : nodes.length ≤ m.size) :
    m.findIn list key = some (lookup keysEqualFunc key nodes) := by
  obtain ⟨s, hs, -, hnext, -⟩ := h.sentinel_eq
  simp only [findIn, DList.itrBegin, bind, Option.bind, hs, pure, hnext]
  exact findInList_eq h (List.nil_append nodes).symm key hsize

omit [DecidableEq P] in
theorem lookup_of_none {key : K} {nodes : List (P × Option (K × V))} {l : List (K × V)}
    (hl : nodes.map Prod.snd = l.map some) (hnone : HashMap.findInList keysEqualFunc l key = none) :
    lookup keysEqualFunc key nodes = none := by
  rw [lookup, List.findSome?_eq_none_iff]
  intro z hz
  obtain ⟨kvp, hkvp, heq⟩ := List.mem_map.mp (hl ▸ List.mem_map_of_mem hz : z.2 ∈ l.map some)
  rw [← heq, Option.map_eq_none_iff, Option.filter_eq_none_iff]
  intro a ha
  rw [← Option.some.inj ha]
  exact List.find?_eq_none.mp hnone kvp hkvp

omit [DecidableEq P] in
/-- The pair that is found, with its node, and what stands before and after. -/
theorem lookup_of_some {key : K} {nodes : List (P × Option (K × V))} {l : List (K × V)}
    {kvp : K × V} (hl : nodes.map Prod.snd = l.map some)
    (hsome : HashMap.findInList keysEqualFunc l key = some kvp) :
    ∃ n₁ itr n₂, nodes = n₁ ++ (itr, some kvp) :: n₂ ∧
      lookup keysEqualFunc key nodes = some (kvp, some itr) ∧
      (n₁ ++ n₂).map Prod.snd = (l.eraseP fun kvp => keysEqualFunc key kvp.1).map some := by
  obtain ⟨heq, l₁, l₂, rfl, hl₁⟩ := List.find?_eq_some_iff_append.mp hsome
  rw [List.map_append, List.map_cons, List.map_eq_append_iff] at hl
  obtain ⟨n₁, n', rfl, hn₁, hn'⟩ := hl
  obtain ⟨⟨itr, v⟩, n₂, rfl, rfl, hn₂⟩ := List.map_eq_cons_iff.mp hn'
  have hbefore : HashMap.findInList keysEqualFunc l₁ key = none :=
    List.find?_eq_none.mpr fun a ha => by simpa using hl₁ a ha
  refine ⟨n₁, itr, n₂, rfl, ?_, ?_⟩
  · have hskip := lookup_of_none hn₁ hbefore
    rw [lookup] at hskip
    rw [lookup, List.findSome?_append, hskip, Option.none_or, List.findSome?_cons]
    simp only [Option.filter, heq, if_true, Option.map_some]
  · have herase : (kvp :: l₂).eraseP (fun kvp => keysEqualFunc key kvp.1) = l₂ :=
      List.eraseP_cons_of_pos heq
    rw [List.eraseP_append_right _ fun a ha => by simpa using hl₁ a ha, herase, List.map_append,
      List.map_append, hn₁, hn₂]

/-! ## The simulation -/

/-- **The lists hold the pairs of the buckets.** -/
structure Refines (n : NodeMap P K V hashFunc keysEqualFunc)
    (m : HashMap K V hashFunc keysEqualFunc) : Prop where
  capacity_eq : n.capacity = m.capacity
  size_eq : n.size = m.size
  length_eq : n.buckets.length = m.buckets.length
  bucket : ∀ i, Option.Rel Holds (n.bucket i) (m.bucket i)

omit [DecidableEq P] in
theorem bucket_set {n : NodeMap P K V hashFunc keysEqualFunc} {i : Nat}
    (hi : i < n.buckets.length) (b : Option (DList P (K × V))) (k j : Nat) :
    bucket ({ n with buckets := n.buckets.set i b, size := k } :
      NodeMap P K V hashFunc keysEqualFunc) j = if i = j then b else n.bucket j := by
  simp only [bucket, List.getD_eq_getElem?_getD, List.getElem?_set]
  by_cases hij : i = j
  · subst hij
    simp [hi]
  · simp [hij]

namespace Refines

variable {n : NodeMap P K V hashFunc keysEqualFunc} {m : HashMap K V hashFunc keysEqualFunc}
  (h : Refines n m)
include h

omit [DecidableEq P] in
theorem getBucketIndex_eq (key : K) : n.getBucketIndex key = m.getBucketIndex key :=
  congrArg (hashFunc key % ·) h.capacity_eq

omit [DecidableEq P] in
/-- There is a list in both maps, or in neither. -/
theorem bucket_cases (i : Nat) :
    n.bucket i = none ∧ m.bucket i = none ∨
      ∃ list l nodes, n.bucket i = some list ∧ m.bucket i = some l ∧ list.Represents nodes ∧
        nodes.map Prod.snd = l.map some := by
  have hrel := h.bucket i
  generalize n.bucket i = b at hrel
  generalize m.bucket i = b' at hrel
  cases hrel with
  | none => exact .inl ⟨rfl, rfl⟩
  | some hholds =>
    obtain ⟨nodes, hrep, hnodes⟩ := hholds
    exact .inr ⟨_, _, nodes, rfl, rfl, hrep, hnodes⟩

omit [DecidableEq P] in
/-- One bucket changes. -/
theorem set {i : Nat} (hi : i < m.buckets.length) {b : Option (DList P (K × V))}
    {b' : Option (List (K × V))} (hb : Option.Rel Holds b b') {k k' : Nat}
    (hk : k = k') :
    Refines ({ n with buckets := n.buckets.set i b, size := k } :
        NodeMap P K V hashFunc keysEqualFunc)
      { m with buckets := m.buckets.set i b', size := k' } := by
  have hi' : i < n.buckets.length := h.length_eq ▸ hi
  refine ⟨h.capacity_eq, hk, by simpa using h.length_eq, fun j => ?_⟩
  rw [bucket_set hi', HashMap.bucket_set hi]
  split
  · exact hb
  · exact h.bucket j

omit [DecidableEq P] in
/-- A list is put back as it was. -/
theorem set_same {i : Nat} (hi : i < m.buckets.length) {b : Option (DList P (K × V))}
    (hb : Option.Rel Holds b (m.bucket i)) :
    Refines ({ n with buckets := n.buckets.set i b } : NodeMap P K V hashFunc keysEqualFunc) m := by
  have hi' : i < n.buckets.length := h.length_eq ▸ hi
  refine ⟨h.capacity_eq, h.size_eq, by simpa using h.length_eq, fun j => ?_⟩
  rw [bucket_set hi']
  split
  · next hij => exact hij ▸ hb
  · exact h.bucket j

/-- A pair is pushed onto a list. -/
theorem pushPair {index : Nat} (hi : index < m.buckets.length) {list : DList P (K × V)}
    {l : List (K × V)} (hlist : Holds list l) (hm : m.bucket index = some l) (key : K) (value : V)
    (al : Alloc) {node : P} (hnode : list.heap node = none) :
    ∃ n', n.pushPair index list key value al node
        = some ((m.pushPair index l key value al).1, n', (m.pushPair index l key value al).2.2) ∧
      Refines n' (m.pushPair index l key value al).2.1 := by
  obtain ⟨nodes, hrep, hnodes⟩ := hlist
  rw [NodeMap.pushPair, HashMap.pushPair]
  rcases malloc al with ⟨_ | _, al⟩
  · exact ⟨n, rfl, h⟩
  · simp only
    rcases malloc al with ⟨_ | _, al⟩
    · exact ⟨_, rfl, h.set_same hi (hm ▸ Option.Rel.some ⟨nodes, hrep, hnodes⟩)⟩
    · obtain ⟨list', hpush, -, hrep'⟩ := hrep.pushTail hnode (some (key, value))
      have hholds : Holds list' (l ++ [(key, value)]) :=
        ⟨_, hrep', by rw [List.map_append, List.map_append, hnodes]; rfl⟩
      refine ⟨_, ?_, h.set hi (Option.Rel.some hholds) (congrArg (· + 1) h.size_eq)⟩
      simp only [bind, Option.bind, if_true, hpush, pure]

omit h in
omit [DecidableEq P] in
/-- No list is longer than the map's counter says. -/
theorem length_bucket_le (hwf : m.WF) {i : Nat} {l : List (K × V)} (hm : m.bucket i = some l) :
    l.length ≤ m.size := by
  have hi : i < m.buckets.length := by
    by_contra hge
    rw [HashMap.bucket, List.getD_eq_default _ _ (Nat.le_of_not_lt hge)] at hm
    exact absurd hm (by simp)
  rw [hwf.size_eq, HashMap.entries_split hi, hm, Option.getD_some, List.length_append,
    List.length_append]
  omega

omit [DecidableEq P] in
/-- A loop along a list ends in as many rounds as the map has pairs. -/
theorem length_nodes_le (hwf : m.WF) {i : Nat} {l : List (K × V)} (hm : m.bucket i = some l)
    {nodes : List (P × Option (K × V))} (hnodes : nodes.map Prod.snd = l.map some) :
    nodes.length ≤ n.size := by
  have hlen := congrArg List.length hnodes
  rw [List.length_map, List.length_map] at hlen
  rw [hlen, h.size_eq]
  exact length_bucket_le hwf hm

/-- The search of a list. -/
theorem findIn (hwf : m.WF) {i : Nat} {list : DList P (K × V)} {l : List (K × V)}
    (hm : m.bucket i = some l) {nodes : List (P × Option (K × V))} (hrep : list.Represents nodes)
    (hnodes : nodes.map Prod.snd = l.map some) (key : K) :
    n.findIn list key = some (lookup keysEqualFunc key nodes) :=
  findIn_eq n hrep key (h.length_nodes_le hwf hm hnodes)

theorem insert (hwf : m.WF) {key : K} (value : V) (al : Alloc) {sentinel node : P}
    (hne : sentinel ≠ node)
    (hnode : ∀ list ∈ n.bucket (n.getBucketIndex key), list.heap node = none) :
    ∃ n', n.insert key value al sentinel node
        = some ((m.insert key value al).1, n', (m.insert key value al).2.2) ∧
      Refines n' (m.insert key value al).2.1 := by
  have hi := HashMap.getBucketIndex_lt hwf key
  rw [h.getBucketIndex_eq] at hnode
  rw [NodeMap.insert, HashMap.insert]
  simp only [h.getBucketIndex_eq]
  obtain ⟨hn, hm⟩ | ⟨list, l, nodes, hn, hm, hrep, hnodes⟩ := h.bucket_cases (m.getBucketIndex key)
  · simp only [hn, hm]
    rcases malloc al with ⟨_ | _, al⟩
    · exact ⟨n, rfl, h⟩
    · have hcreate : DList.create (some sentinel) = some (⟨_, sentinel⟩ : DList P (K × V)) := rfl
      have hholds : Holds (⟨_, sentinel⟩ : DList P (K × V)) [] :=
        ⟨[], DList.represents_create hcreate, rfl⟩
      have hnil : Option.Rel Holds (some (⟨_, sentinel⟩ : DList P (K × V))) (some []) :=
        Option.Rel.some hholds
      have hnew := h.set hi hnil h.size_eq
      have hfree : Function.update (fun _ => none) sentinel
          (some ⟨none, some sentinel, some sentinel, true⟩ : Option (Node P (K × V))) node = none :=
        Function.update_of_ne hne.symm ..
      exact hnew.pushPair (by simpa using hi) hholds
        (by rw [HashMap.bucket_set hi, if_pos rfl]) key value al hfree
  · have hfind := h.findIn hwf hm hrep hnodes key
    simp only [hn, hm, bind, Option.bind, hfind]
    cases hf : HashMap.findInList keysEqualFunc l key with
    | none =>
      rw [lookup_of_none hnodes hf]
      exact h.pushPair hi ⟨nodes, hrep, hnodes⟩ hm key value al (hnode list hn)
    | some kvp =>
      obtain ⟨n₁, itr, n₂, -, hlook, -⟩ := lookup_of_some hnodes hf
      rw [hlook]
      exact ⟨n, rfl, h⟩

theorem remove (hwf : m.WF) (key : K) :
    ∃ n', n.remove key = some ((m.remove key).1, (m.remove key).2.1, n') ∧
      Refines n' (m.remove key).2.2 := by
  have hi := HashMap.getBucketIndex_lt hwf key
  rw [NodeMap.remove, HashMap.remove]
  simp only [h.getBucketIndex_eq]
  obtain ⟨hn, hm⟩ | ⟨list, l, nodes, hn, hm, hrep, hnodes⟩ := h.bucket_cases (m.getBucketIndex key)
  · simp only [hn, hm]
    exact ⟨n, rfl, h⟩
  · have hfind := h.findIn hwf hm hrep hnodes key
    simp only [hn, hm, bind, Option.bind, hfind]
    cases hf : HashMap.findInList keysEqualFunc l key with
    | none =>
      rw [lookup_of_none hnodes hf]
      exact ⟨n, rfl, h⟩
    | some kvp =>
      obtain ⟨n₁, itr, n₂, rfl, hlook, hrest⟩ := lookup_of_some hnodes hf
      have hlive : list.heap itr ≠ none := hrep.live_iff.mpr (by simp)
      obtain ⟨list', hremove, -, hrep'⟩ := hrep.itrRemove hlive
      rw [DList.filter_append (z := (itr, some kvp)) (List.nodup_cons.mp hrep.nodup).2] at hrep'
      rw [hlook]
      simp only [hremove]
      exact ⟨_, rfl, h.set hi (Option.Rel.some ⟨_, hrep', hrest⟩) (congrArg (· - 1) h.size_eq)⟩

theorem find (hwf : m.WF) (key : K) : n.find key = some (m.find key) := by
  rw [NodeMap.find, HashMap.find, h.getBucketIndex_eq]
  obtain ⟨hn, hm⟩ | ⟨list, l, nodes, hn, hm, hrep, hnodes⟩ := h.bucket_cases (m.getBucketIndex key)
  · simp only [hn, hm]
  · have hfind := h.findIn hwf hm hrep hnodes key
    simp only [hn, hm, bind, Option.bind, hfind, pure]
    cases hf : HashMap.findInList keysEqualFunc l key with
    | none => rw [lookup_of_none hnodes hf, Option.map_none, Option.map_none]
    | some kvp =>
      obtain ⟨n₁, itr, n₂, -, hlook, -⟩ := lookup_of_some hnodes hf
      rw [hlook, Option.map_some, Option.map_some]

end Refines

omit [DecidableEq P] in
/-- There is a map on lists when there is one on sequences. -/
theorem create_eq (capacity : Nat) (al : Alloc) :
    (create capacity al).1 =
      ((HashMap.create capacity al).1 : Option (HashMap K V hashFunc keysEqualFunc)).map fun m =>
        (⟨List.replicate m.capacity none, m.capacity, 0⟩ :
          NodeMap P K V hashFunc keysEqualFunc) := by
  rw [create, HashMap.create]
  split
  · rfl
  rcases malloc al with ⟨_ | _, al⟩
  · rfl
  cases getNextPrime capacity with
  | none => rfl
  | some primeCapacity =>
    simp only
    rcases malloc al with ⟨_ | _, al⟩ <;> rfl

omit [DecidableEq P] in
theorem refines_create {capacity : Nat} {al : Alloc} {n : NodeMap P K V hashFunc keysEqualFunc}
    (h : (create capacity al).1 = some n) :
    ∃ m : HashMap K V hashFunc keysEqualFunc, (HashMap.create capacity al).1 = some m ∧
      Refines n m := by
  rw [create_eq, Option.map_eq_some_iff] at h
  obtain ⟨m, hm, rfl⟩ := h
  obtain ⟨primeCapacity, -, rfl⟩ := HashMap.eq_of_create hm
  refine ⟨_, hm, rfl, rfl, by simp, fun i => ?_⟩
  have hnull {β : Type} : (List.replicate primeCapacity (none : Option β)).getD i none = none := by
    rw [List.getD_eq_getElem?_getD, List.getElem?_replicate]
    split <;> rfl
  rw [bucket, HashMap.bucket, hnull, hnull]
  exact Option.Rel.none

end NodeMap

/-! ## Runs -/

/-- A call on a map, with the blocks that its lists get from `malloc`. -/
inductive NodeCall (P K V : Type) where
  | insert (key : K) (value : V) (al : Alloc) (sentinel node : P)
  | remove (searchKey : K)
  | find (key : K)
  | size

/-- The call, without the blocks. -/
def NodeCall.view {P K V : Type} : NodeCall P K V → MapCall K V
  | .insert key value al _ _ => .insert key value al
  | .remove searchKey => .remove searchKey
  | .find key => .find key
  | .size => .size

namespace NodeMap

variable {P K V : Type} [DecidableEq P] {hashFunc : K → Nat} {keysEqualFunc : K → K → Bool}

/-- One call on a map. -/
def call (m : NodeMap P K V hashFunc keysEqualFunc) :
    NodeCall P K V → Option (NodeMap P K V hashFunc keysEqualFunc × MapReply K V)
  | .insert key value al sentinel node =>
    (m.insert key value al sentinel node).map fun r => (r.2.1, .inserted r.1)
  | .remove searchKey => (m.remove searchKey).map fun r => (r.2.2, .removed r.1 r.2.1)
  | .find key => (m.find key).map fun r => (m, .found r)
  | .size => some (m, .size m.size)

omit [DecidableEq P] in
/-- What `malloc` promises: the block for a node is not in use in the list it is for. -/
def Allowed (m : NodeMap P K V hashFunc keysEqualFunc) : NodeCall P K V → Prop
  | .insert key _ _ sentinel node =>
    sentinel ≠ node ∧ ∀ list ∈ m.bucket (m.getBucketIndex key), list.heap node = none
  | _ => True

instance decidableAllowed (m : NodeMap P K V hashFunc keysEqualFunc) : ∀ c, Decidable (m.Allowed c)
  | .insert key _ _ sentinel node =>
    inferInstanceAs (Decidable (sentinel ≠ node ∧
      ∀ list ∈ m.bucket (m.getBucketIndex key), list.heap node = none))
  | .remove _ | .find _ | .size => isTrue trivial

/-- A call in a run; a run that has faulted goes nowhere. -/
def step (m : Option (NodeMap P K V hashFunc keysEqualFunc)) (c : NodeCall P K V) :
    Option (NodeMap P K V hashFunc keysEqualFunc) × Option (MapReply K V) :=
  match m.bind fun m => m.call c with
  | none => (none, none)
  | some (m, reply) => (some m, some reply)

omit [DecidableEq P] in
/-- The promise, for a run that has not faulted. -/
def Promised (m : Option (NodeMap P K V hashFunc keysEqualFunc)) (c : NodeCall P K V) : Prop :=
  ∀ m' ∈ m, m'.Allowed c

instance decidablePromised (m : Option (NodeMap P K V hashFunc keysEqualFunc))
    (c : NodeCall P K V) : Decidable (Promised m c) :=
  inferInstanceAs (Decidable (∀ m' ∈ m, m'.Allowed c))

/-- The calls of a run, with their replies. -/
def history (m : NodeMap P K V hashFunc keysEqualFunc) (calls : List (NodeCall P K V)) :
    List (MapCall K V × MapReply K V) :=
  (trace step (some m) calls).filterMap fun x => x.2.map (x.1.view, ·)

/-- **One call.**  It does not fault, and returns what it returns for the buckets. -/
theorem Refines.call {n : NodeMap P K V hashFunc keysEqualFunc}
    {m : HashMap K V hashFunc keysEqualFunc} (h : Refines n m) (hwf : m.WF) {c : NodeCall P K V}
    (hc : n.Allowed c) :
    ∃ n', n.call c = some (n', (m.call c.view).2) ∧ Refines n' (m.call c.view).1 := by
  cases c with
  | insert key value al sentinel node =>
    obtain ⟨n', heq, hrefines⟩ := h.insert hwf value al hc.1 hc.2
    exact ⟨n', by rw [NodeMap.call, heq]; rfl, hrefines⟩
  | remove searchKey =>
    obtain ⟨n', heq, hrefines⟩ := h.remove hwf searchKey
    exact ⟨n', by rw [NodeMap.call, heq]; rfl, hrefines⟩
  | find key => exact ⟨n, by rw [NodeMap.call, h.find hwf]; rfl, h⟩
  | size => exact ⟨n, by rw [NodeMap.call, h.size_eq]; rfl, h⟩

/-- **A run on the lists is a run on the buckets.** -/
theorem Refines.run {hk : LawfulKeys hashFunc keysEqualFunc}
    {n : NodeMap P K V hashFunc keysEqualFunc} {m : HashMap K V hashFunc keysEqualFunc}
    {d : Dict (Quotient hk.setoid) K V} (h : Refines n m)
    (hm : HashMap.Represents hk m d) {calls : List (NodeCall P K V)}
    (hcalls : Along step Promised (some n) calls) :
    ∃ n', Machine.run step (some n) calls = some n' ∧
      Refines n' (Machine.run HashMap.call m (calls.map NodeCall.view)) ∧
      n.history calls = trace HashMap.call m (calls.map NodeCall.view) := by
  induction calls generalizing n m d with
  | nil => exact ⟨n, rfl, h, rfl⟩
  | cons c calls ih =>
    obtain ⟨hc, hcalls⟩ := hcalls
    obtain ⟨n₁, hcall, hrefines⟩ := h.call hm.wf (hc n rfl)
    obtain ⟨d₁, -, hm₁⟩ := hm.call c.view
    have hstep : step (some n) c = (some n₁, some (m.call c.view).2) := by
      simp only [step, Option.bind_some, hcall]
    rw [hstep] at hcalls
    obtain ⟨n', hrun, hrefines', htrace⟩ := ih hrefines hm₁ hcalls
    refine ⟨n', ?_, hrefines', ?_⟩
    · simpa only [Machine.run, List.foldl_cons, hstep] using hrun
    · rw [List.map_cons, trace, ← htrace, history, trace, hstep]
      rfl

end NodeMap

end ChatProject
