import Mathlib.Algebra.Group.Nat.Defs
import Mathlib.Data.List.Perm.Basic
import Mathlib.Data.List.Pairwise
import Mathlib.Data.List.Flatten
import Mathlib.Data.List.GetD
import ChatProject.Shared.CRuntime

/-!
# The chained hash map

`shared/adt/HashMap.c`: an array of lazily created lists of key-value pairs, whose length is the
requested capacity rounded up to a prime.  The two function pointers a map is created with never
change, so they are parameters of its type here; a bucket is NULL until its first insertion, and
stays an empty list once it has been emptied.

`HashMap.entries` lists the pairs in the order a traversal meets them.  `HashMap.WF` says that each
pair sits in the bucket its key hashes to, that no two keys are equal and that the counter is
right.  Under `LawfulKeys` — equality is an equivalence and equal keys hash alike — the map is then
a finite map:

* `find_eq_some_iff`, `find_eq_none_iff` read it off `entries`;
* `insert_cases` says what an insertion can do under any pattern of allocation failures, and
  `insert_of_noFailure` what it does when there are none;
* `remove_spec` takes exactly the one pair out.
-/

set_option autoImplicit false

namespace ChatProject

/-- `Map_Result`. -/
inductive MapResult where
  | success
  | uninitializedError
  | keyNullError
  | keyDuplicateError
  | keyNotFoundError
  | allocationError
deriving DecidableEq, Repr

/-! ## Rounding the capacity up to a prime

The two loops of the source have no bound of their own, so each carries the number of iterations it
may still make; `none` means that it has not ended by then. -/

/-- The `for` loop of `IsPrime`, from `i` on. -/
def isPrimeLoop (num : Nat) : Nat → Nat → Option Bool
  | 0, _ => none
  | fuel + 1, i =>
    if i * i % 2 ^ 64 ≤ num then
      if num % i = 0 ∨ num % ((i + 2) % 2 ^ 64) = 0 then some false
      else isPrimeLoop num fuel ((i + 6) % 2 ^ 64)
    else some true

/-- `IsPrime`. -/
def isPrime (num : Nat) : Option Bool :=
  if num ≤ 1 then some false
  else if num = 2 ∨ num = 3 then some true
  else if num % 2 = 0 ∨ num % 3 = 0 then some false
  else isPrimeLoop num num 5

/-- The `while` loop of `GetNextPrime`, from `prime` on. -/
def getNextPrimeLoop : Nat → Nat → Option Nat
  | 0, _ => none
  | fuel + 1, prime =>
    match isPrime prime with
    | none => none
    | some true => some prime
    | some false => getNextPrimeLoop fuel ((prime + 1) % 2 ^ 64)

/-- `GetNextPrime`. -/
def getNextPrime (num : Nat) : Option Nat := getNextPrimeLoop (num + 1) num

/-! ## The map -/

/-- `struct HashMap`, for a fixed hash and equality function. -/
structure HashMap (K V : Type) (hashFunc : K → Nat) (keysEqualFunc : K → K → Bool) where
  /-- The buckets; `none` is a NULL list pointer. -/
  buckets : List (Option (List (K × V)))
  /-- The number of buckets. -/
  capacity : Nat
  /-- The separately maintained number of pairs. -/
  size : Nat

/-- What the map asks of its two functions. -/
structure LawfulKeys {K : Type} (hashFunc : K → Nat) (keysEqualFunc : K → K → Bool) : Prop where
  /-- Equality is reflexive. -/
  refl : ∀ a, keysEqualFunc a a = true
  /-- Equality is symmetric. -/
  symm : ∀ {a b}, keysEqualFunc a b = true → keysEqualFunc b a = true
  /-- Equality is transitive. -/
  trans : ∀ {a b c}, keysEqualFunc a b = true → keysEqualFunc b c = true →
    keysEqualFunc a c = true
  /-- Equal keys hash alike. -/
  hash_eq : ∀ {a b}, keysEqualFunc a b = true → hashFunc a = hashFunc b

theorem LawfulKeys.symm_false {K : Type} {hashFunc : K → Nat} {keysEqualFunc : K → K → Bool}
    (hk : LawfulKeys hashFunc keysEqualFunc) {a b : K} (hab : keysEqualFunc a b = false) :
    keysEqualFunc b a = false := by
  by_contra hba
  rw [Bool.not_eq_false] at hba
  rw [hk.symm hba] at hab
  exact absurd hab (by simp)

namespace HashMap

variable {K V : Type} {hashFunc : K → Nat} {keysEqualFunc : K → K → Bool}

/-- `HashMap_Create`. -/
def create (capacity : Nat) (al : Alloc) :
    Option (HashMap K V hashFunc keysEqualFunc) × Alloc :=
  if capacity = 0 then (none, al)
  else
    match malloc al with
    | (false, al) => (none, al)
    | (true, al) =>
      match getNextPrime capacity with
      | none => (none, al)
      | some primeCapacity =>
        match malloc al with
        | (false, al) => (none, al)
        | (true, al) => (some ⟨List.replicate primeCapacity none, primeCapacity, 0⟩, al)

/-- `GetBucketIndex`. -/
def getBucketIndex (m : HashMap K V hashFunc keysEqualFunc) (key : K) : Nat :=
  hashFunc key % m.capacity

/-- `buckets[index]`, NULL outside the array. -/
def bucket (m : HashMap K V hashFunc keysEqualFunc) (index : Nat) : Option (List (K × V)) :=
  m.buckets.getD index none

/-- `FindInList`: the first pair whose key the equality function accepts. -/
def findInList (keysEqualFunc : K → K → Bool) (list : List (K × V)) (key : K) :
    Option (K × V) :=
  list.find? fun kvp => keysEqualFunc key kvp.1

/-- `_map->buckets[index] = ListCreate()`. -/
def newBucket (m : HashMap K V hashFunc keysEqualFunc) (index : Nat) :
    HashMap K V hashFunc keysEqualFunc :=
  { m with buckets := m.buckets.set index (some []) }

/-- The tail of `HashMap_Insert`: create the pair and push it onto the bucket `list`. -/
def pushPair (m : HashMap K V hashFunc keysEqualFunc) (index : Nat) (list : List (K × V))
    (key : K) (value : V) (al : Alloc) :
    MapResult × HashMap K V hashFunc keysEqualFunc × Alloc :=
  match malloc al with
  | (false, al) => (.allocationError, m, al)
  | (true, al) =>
    match malloc al with
    | (false, al) => (.allocationError, m, al)
    | (true, al) =>
      (.success,
        { m with
          buckets := m.buckets.set index (some (list ++ [(key, value)]))
          size := m.size + 1 }, al)

/-- `HashMap_Insert`.  A new bucket stays behind, empty, when a later allocation fails. -/
def insert (m : HashMap K V hashFunc keysEqualFunc) (key : K) (value : V) (al : Alloc) :
    MapResult × HashMap K V hashFunc keysEqualFunc × Alloc :=
  let index := m.getBucketIndex key
  match m.bucket index with
  | none =>
    match malloc al with
    | (false, al) => (.allocationError, m, al)
    | (true, al) => (m.newBucket index).pushPair index [] key value al
  | some list =>
    match findInList keysEqualFunc list key with
    | some _ => (.keyDuplicateError, m, al)
    | none => pushPair m index list key value al

/-- `HashMap_Remove`: the pair that was taken out, when there was one. -/
def remove (m : HashMap K V hashFunc keysEqualFunc) (searchKey : K) :
    MapResult × Option (K × V) × HashMap K V hashFunc keysEqualFunc :=
  let index := m.getBucketIndex searchKey
  match m.bucket index with
  | none => (.keyNotFoundError, none, m)
  | some list =>
    match findInList keysEqualFunc list searchKey with
    | none => (.keyNotFoundError, none, m)
    | some kvp =>
      (.success, some kvp,
        { m with
          buckets := m.buckets.set index
            (some (list.eraseP fun kvp => keysEqualFunc searchKey kvp.1))
          size := m.size - 1 })

/-- `HashMap_Find`: the value, exactly when the C function returns `MAP_SUCCESS`. -/
def find (m : HashMap K V hashFunc keysEqualFunc) (key : K) : Option V :=
  match m.bucket (m.getBucketIndex key) with
  | none => none
  | some list => (findInList keysEqualFunc list key).map Prod.snd

/-! ## The pairs of a map -/

/-- All pairs, bucket by bucket. -/
def entries (m : HashMap K V hashFunc keysEqualFunc) : List (K × V) :=
  m.buckets.flatMap fun b => b.getD []

/-- The representation invariant. -/
structure WF (m : HashMap K V hashFunc keysEqualFunc) : Prop where
  /-- There is at least one bucket. -/
  pos : 0 < m.capacity
  /-- There are as many buckets as the capacity says. -/
  length_buckets : m.buckets.length = m.capacity
  /-- Each pair sits in the bucket its key hashes to. -/
  placed : ∀ i, ∀ kvp ∈ (m.bucket i).getD [], hashFunc kvp.1 % m.capacity = i
  /-- No two keys are equal. -/
  distinct : m.entries.Pairwise fun a b => keysEqualFunc a.1 b.1 = false
  /-- The counter counts the pairs. -/
  size_eq : m.size = m.entries.length

theorem mem_entries {m : HashMap K V hashFunc keysEqualFunc} {kvp : K × V} :
    kvp ∈ m.entries ↔ ∃ i, kvp ∈ (m.bucket i).getD [] := by
  rw [entries, List.mem_flatMap]
  constructor
  · rintro ⟨b, hb, hk⟩
    obtain ⟨i, hi, rfl⟩ := List.getElem_of_mem hb
    exact ⟨i, by rwa [bucket, List.getD_eq_getElem _ _ hi]⟩
  · rintro ⟨i, hk⟩
    rw [bucket] at hk
    rcases Nat.lt_or_ge i m.buckets.length with hi | hi
    · rw [List.getD_eq_getElem _ _ hi] at hk
      exact ⟨_, List.getElem_mem hi, hk⟩
    · rw [List.getD_eq_default _ _ hi] at hk
      simp at hk

theorem getBucketIndex_lt {m : HashMap K V hashFunc keysEqualFunc} (h : m.WF) (key : K) :
    m.getBucketIndex key < m.buckets.length := by
  rw [h.length_buckets]
  exact Nat.mod_lt _ h.pos

/-- The pairs outside one bucket: what stands before it and after it in the traversal. -/
theorem entries_split {m : HashMap K V hashFunc keysEqualFunc} {i : Nat}
    (hi : i < m.buckets.length) :
    m.entries = (m.buckets.take i).flatMap (fun b => b.getD []) ++
      ((m.bucket i).getD [] ++ (m.buckets.drop (i + 1)).flatMap fun b => b.getD []) := by
  have hsplit : m.buckets = m.buckets.take i ++ m.buckets[i] :: m.buckets.drop (i + 1) := by
    rw [List.getElem_cons_drop, List.take_append_drop]
  rw [entries, bucket, List.getD_eq_getElem _ _ hi]
  conv_lhs => rw [hsplit]
  rw [List.flatMap_append, List.flatMap_cons]

/-- The same split after the bucket has been replaced. -/
theorem flatMap_set {bs : List (Option (List (K × V)))} {i : Nat} (hi : i < bs.length)
    (b : Option (List (K × V))) :
    (bs.set i b).flatMap (fun b => b.getD []) =
      (bs.take i).flatMap (fun b => b.getD []) ++
        (b.getD [] ++ (bs.drop (i + 1)).flatMap fun b => b.getD []) := by
  rw [List.set_eq_take_append_cons_drop, if_pos hi, List.flatMap_append, List.flatMap_cons]

theorem bucket_set {m : HashMap K V hashFunc keysEqualFunc} {i : Nat}
    (hi : i < m.buckets.length) (b : Option (List (K × V))) (n j : Nat) :
    bucket ({ m with buckets := m.buckets.set i b, size := n } :
      HashMap K V hashFunc keysEqualFunc) j = if i = j then b else m.bucket j := by
  simp only [bucket, List.getD_eq_getElem?_getD, List.getElem?_set]
  by_cases hij : i = j
  · subst hij
    simp [hi]
  · simp [hij]

/-! ## Creation -/

/-- A map that is created has no list in any bucket. -/
theorem eq_of_create {capacity : Nat} {al : Alloc} {m : HashMap K V hashFunc keysEqualFunc}
    (h : (create capacity al).1 = some m) :
    ∃ n, getNextPrime capacity = some n ∧ m = ⟨List.replicate n none, n, 0⟩ := by
  rw [create] at h
  split at h
  · exact absurd h (by simp)
  split at h
  · exact absurd h (by simp)
  split at h
  · exact absurd h (by simp)
  next n hn =>
  split at h
  · exact absurd h (by simp)
  exact ⟨n, hn, (Option.some.inj h).symm⟩

theorem create_spec {capacity : Nat} {al : Alloc} {m : HashMap K V hashFunc keysEqualFunc}
    (hcap : ∀ n, getNextPrime capacity = some n → 0 < n) (h : (create capacity al).1 = some m) :
    m.WF ∧ m.entries = [] := by
  obtain ⟨n, hn, rfl⟩ := eq_of_create h
  have hent :
      entries (⟨List.replicate n none, n, 0⟩ : HashMap K V hashFunc keysEqualFunc) = [] := by
    rw [entries, List.flatMap_eq_nil_iff]
    intro b hb
    rw [List.eq_of_mem_replicate hb]
    rfl
  refine ⟨⟨hcap n hn, by simp, ?_, by rw [hent]; exact List.Pairwise.nil, by rw [hent]; rfl⟩, hent⟩
  intro i kvp hkvp
  have : kvp ∈ entries (⟨List.replicate n none, n, 0⟩ : HashMap K V hashFunc keysEqualFunc) :=
    mem_entries.mpr ⟨i, hkvp⟩
  rw [hent] at this
  exact absurd this (by simp)

/-! ## Looking up -/

section
variable {m : HashMap K V hashFunc keysEqualFunc} (h : m.WF)
  (hk : LawfulKeys hashFunc keysEqualFunc)
include h hk

theorem eq_of_keysEqual {a b : K × V} (ha : a ∈ m.entries) (hb : b ∈ m.entries)
    (hab : keysEqualFunc a.1 b.1 = true) : a = b := by
  by_contra hne
  have : Std.Symm fun a b : K × V => keysEqualFunc a.1 b.1 = false := ⟨fun _ _ => hk.symm_false⟩
  have hfalse := h.distinct.forall ha hb hne
  rw [hab] at hfalse
  exact absurd hfalse (by simp)

/-- A pair with a key equal to `key` can only sit in the bucket of `key`. -/
theorem mem_bucket_of_keysEqual {key : K} {kvp : K × V} (hmem : kvp ∈ m.entries)
    (heq : keysEqualFunc key kvp.1 = true) : kvp ∈ (m.bucket (m.getBucketIndex key)).getD [] := by
  obtain ⟨i, hi⟩ := mem_entries.mp hmem
  have hplace := h.placed i kvp hi
  rw [← hk.hash_eq heq] at hplace
  rw [getBucketIndex, hplace]
  exact hi

theorem find_eq_some_iff {key : K} {v : V} :
    m.find key = some v ↔ ∃ k', (k', v) ∈ m.entries ∧ keysEqualFunc key k' = true := by
  constructor
  · intro hf
    rw [find] at hf
    split at hf
    · exact absurd hf (by simp)
    · next list hb =>
      rw [Option.map_eq_some_iff] at hf
      obtain ⟨kvp, hkvp, rfl⟩ := hf
      refine ⟨kvp.1, mem_entries.mpr ⟨_, by rw [hb]; exact List.mem_of_find?_eq_some hkvp⟩, ?_⟩
      simpa using List.find?_some hkvp
  · rintro ⟨k', hmem, heq⟩
    have hin := mem_bucket_of_keysEqual h hk hmem heq
    rw [find]
    cases hb : m.bucket (m.getBucketIndex key) with
    | none => simp [hb] at hin
    | some list =>
      rw [hb] at hin
      cases hf : findInList keysEqualFunc list key with
      | none => exact absurd heq (by simpa using List.find?_eq_none.mp hf _ hin)
      | some kvp =>
        have hkvp : kvp ∈ m.entries :=
          mem_entries.mpr ⟨_, by rw [hb]; exact List.mem_of_find?_eq_some hf⟩
        have hkeq : keysEqualFunc key kvp.1 = true := by simpa using List.find?_some hf
        have hsame := eq_of_keysEqual h hk hkvp hmem (hk.trans (hk.symm hkeq) heq)
        simp only [hf, hsame, Option.map_some]

theorem find_eq_none_iff {key : K} :
    m.find key = none ↔ ∀ kvp ∈ m.entries, keysEqualFunc key kvp.1 = false := by
  rw [Option.eq_none_iff_forall_ne_some]
  constructor
  · intro hf kvp hmem
    by_contra heq
    rw [Bool.not_eq_false] at heq
    exact hf kvp.2 ((find_eq_some_iff h hk).mpr ⟨kvp.1, hmem, heq⟩)
  · intro hall v hf
    obtain ⟨k', hmem, heq⟩ := (find_eq_some_iff h hk).mp hf
    have := hall _ hmem
    rw [heq] at this
    exact absurd this (by simp)

end

/-- The search of one bucket agrees with the search of the whole map. -/
theorem findInList_eq_none_iff {m : HashMap K V hashFunc keysEqualFunc} {key : K}
    {list : List (K × V)} (hb : m.bucket (m.getBucketIndex key) = some list) :
    findInList keysEqualFunc list key = none ↔ m.find key = none := by
  rw [find, hb, Option.map_eq_none_iff]

/-! ## Insertion -/

theorem entries_newBucket {m : HashMap K V hashFunc keysEqualFunc} {i : Nat}
    (hi : i < m.buckets.length) (hb : m.bucket i = none) :
    (m.newBucket i).entries = m.entries := by
  rw [entries_split hi, hb, entries, newBucket, flatMap_set hi]
  rfl

theorem WF.newBucket {m : HashMap K V hashFunc keysEqualFunc} (h : m.WF) {i : Nat}
    (hi : i < m.buckets.length) (hb : m.bucket i = none) : (m.newBucket i).WF := by
  have hent := entries_newBucket hi hb
  rw [HashMap.newBucket] at hent ⊢
  refine ⟨h.pos, by simpa using h.length_buckets, ?_, hent ▸ h.distinct, hent ▸ h.size_eq⟩
  intro j kvp hkvp
  rw [bucket_set hi] at hkvp
  split at hkvp
  · simp at hkvp
  · exact h.placed j kvp hkvp

/-- **A pushed pair joins the others.**  What `pushPair` leaves behind when both allocations
succeed. -/
theorem push_spec {m : HashMap K V hashFunc keysEqualFunc} (h : m.WF)
    (hk : LawfulKeys hashFunc keysEqualFunc) {key : K} (value : V) {list : List (K × V)}
    (hlist : (m.bucket (m.getBucketIndex key)).getD [] = list)
    (hnew : ∀ kvp ∈ m.entries, keysEqualFunc key kvp.1 = false) :
    let m' : HashMap K V hashFunc keysEqualFunc :=
      { m with
        buckets := m.buckets.set (m.getBucketIndex key) (some (list ++ [(key, value)]))
        size := m.size + 1 }
    m'.WF ∧ m'.entries.Perm ((key, value) :: m.entries) := by
  intro m'
  have hi := getBucketIndex_lt h key
  have hperm : m'.entries.Perm ((key, value) :: m.entries) := by
    rw [show m'.entries = (m.buckets.set _ _).flatMap _ from rfl, flatMap_set hi, entries_split hi,
      hlist, Option.getD_some, List.append_assoc]
    exact (List.Perm.append_left _ List.perm_middle).trans List.perm_middle
  refine ⟨⟨h.pos, by simpa [m'] using h.length_buckets, ?_, ?_, ?_⟩, hperm⟩
  · intro j kvp hkvp
    rw [bucket_set hi] at hkvp
    split at hkvp
    · next hj =>
      rw [Option.getD_some, List.mem_append, List.mem_singleton] at hkvp
      rcases hkvp with hold | rfl
      · exact h.placed j kvp (by rw [← hj, hlist]; exact hold)
      · exact hj
    · exact h.placed j kvp hkvp
  · rw [hperm.pairwise_iff hk.symm_false, List.pairwise_cons]
    exact ⟨hnew, h.distinct⟩
  · show m.size + 1 = m'.entries.length
    rw [hperm.length_eq, List.length_cons, h.size_eq]

theorem pushPair_cases (m : HashMap K V hashFunc keysEqualFunc) (index : Nat)
    (list : List (K × V)) (key : K) (value : V) (al : Alloc) :
    (∃ al', m.pushPair index list key value al = (.allocationError, m, al')) ∨
      ∃ al', m.pushPair index list key value al = (.success,
        { m with
          buckets := m.buckets.set index (some (list ++ [(key, value)]))
          size := m.size + 1 }, al') := by
  rw [pushPair]
  split
  · exact .inl ⟨_, rfl⟩
  · split
    · exact .inl ⟨_, rfl⟩
    · exact .inr ⟨_, rfl⟩

/-- **Everything an insertion can do**, whatever allocations fail. -/
theorem insert_cases {m : HashMap K V hashFunc keysEqualFunc} (h : m.WF)
    (hk : LawfulKeys hashFunc keysEqualFunc) (key : K) (value : V) (al : Alloc) :
    (m.find key ≠ none ∧ m.insert key value al = (.keyDuplicateError, m, al)) ∨
    (m.find key = none ∧ ∃ m' al', m.insert key value al = (.allocationError, m', al') ∧
      m'.WF ∧ m'.entries = m.entries) ∨
    (m.find key = none ∧ ∃ m' al', m.insert key value al = (.success, m', al') ∧
      m'.WF ∧ m'.entries.Perm ((key, value) :: m.entries)) := by
  have hi := getBucketIndex_lt h key
  simp only [insert]
  cases hb : m.bucket (m.getBucketIndex key) with
  | none =>
    have hnone : m.find key = none := by rw [find, hb]
    refine .inr ?_
    rcases malloc al with ⟨_ | _, al⟩
    · exact .inl ⟨hnone, m, al, rfl, h, rfl⟩
    -- the bucket is there now, and the rest goes on as for a bucket that already was
    have ht := h.newBucket hi hb
    have hte := entries_newBucket hi hb
    have hlist :
        ((m.newBucket (m.getBucketIndex key)).bucket (m.getBucketIndex key)).getD [] = [] := by
      rw [newBucket, bucket_set hi, if_pos rfl, Option.getD_some]
    obtain ⟨al', hp⟩ | ⟨al', hp⟩ := pushPair_cases
      (m.newBucket (m.getBucketIndex key)) (m.getBucketIndex key) [] key value al
    · exact .inl ⟨hnone, _, al', hp, ht, hte⟩
    · have hps := push_spec ht hk value hlist
        (by rw [hte]; exact (find_eq_none_iff h hk).mp hnone)
      exact .inr ⟨hnone, _, al', hp, hps.1, hte ▸ hps.2⟩
  | some list =>
    simp only
    cases hf : findInList keysEqualFunc list key with
    | some kvp =>
      refine .inl ⟨?_, rfl⟩
      rw [Ne, ← findInList_eq_none_iff hb, hf]
      simp
    | none =>
      have hnone := (findInList_eq_none_iff hb).mp hf
      obtain ⟨al', hp⟩ | ⟨al', hp⟩ :=
        pushPair_cases m (m.getBucketIndex key) list key value al
      · exact .inr (.inl ⟨hnone, m, al', hp, h, rfl⟩)
      · have hps := push_spec h hk value (by rw [hb, Option.getD_some])
          ((find_eq_none_iff h hk).mp hnone)
        exact .inr (.inr ⟨hnone, _, al', hp, hps.1, hps.2⟩)

/-- With no allocation failure a new key goes in. -/
theorem insert_of_noFailure {m : HashMap K V hashFunc keysEqualFunc} {key : K} (value : V)
    (hnone : m.find key = none) :
    (m.insert key value []).1 = .success ∧ (m.insert key value []).2.2 = [] := by
  simp only [insert]
  cases hb : m.bucket (m.getBucketIndex key) with
  | none => exact ⟨rfl, rfl⟩
  | some list =>
    rw [← findInList_eq_none_iff hb] at hnone
    simp only [hnone]
    exact ⟨rfl, rfl⟩

/-! ## Removal -/

/-- Taking one pair out of its bucket takes it out of the map. -/
theorem erase_spec {m : HashMap K V hashFunc keysEqualFunc} (h : m.WF) {key : K} {kvp : K × V}
    {l₁ l₂ : List (K × V)}
    (hlist : (m.bucket (m.getBucketIndex key)).getD [] = l₁ ++ kvp :: l₂) :
    let m' : HashMap K V hashFunc keysEqualFunc :=
      { m with
        buckets := m.buckets.set (m.getBucketIndex key) (some (l₁ ++ l₂))
        size := m.size - 1 }
    m'.WF ∧ m.entries.Perm (kvp :: m'.entries) := by
  intro m'
  have hi := getBucketIndex_lt h key
  have hperm : m.entries.Perm (kvp :: m'.entries) := by
    rw [show m'.entries = (m.buckets.set _ _).flatMap _ from rfl, flatMap_set hi,
      entries_split hi, hlist, Option.getD_some, List.append_assoc, List.append_assoc,
      List.cons_append]
    exact (List.Perm.append_left _ List.perm_middle).trans List.perm_middle
  have hsub : m'.entries.Sublist m.entries := by
    rw [show m'.entries = (m.buckets.set _ _).flatMap _ from rfl, flatMap_set hi,
      entries_split hi, hlist, Option.getD_some]
    exact List.Sublist.append_left (List.Sublist.append_right
      (List.Sublist.append_left (List.sublist_cons_self _ _) _) _) _
  refine ⟨⟨h.pos, by simpa [m'] using h.length_buckets, ?_, h.distinct.sublist hsub, ?_⟩, hperm⟩
  · intro j p hp
    rw [bucket_set hi] at hp
    split at hp
    · next hj =>
      refine h.placed j p ?_
      rw [← hj, hlist]
      exact List.Sublist.mem hp (List.Sublist.append_left (List.sublist_cons_self _ _) _)
    · exact h.placed j p hp
  · show m.size - 1 = m'.entries.length
    rw [h.size_eq, hperm.length_eq, List.length_cons, Nat.add_sub_cancel]

/-- **A removal takes exactly the one pair out.** -/
theorem remove_spec {m : HashMap K V hashFunc keysEqualFunc} (h : m.WF) {key : K} {v : V}
    (hfind : m.find key = some v) :
    ∃ k' m', m.remove key = (.success, some (k', v), m') ∧ keysEqualFunc key k' = true ∧ m'.WF ∧
      m.entries.Perm ((k', v) :: m'.entries) := by
  simp only [remove]
  rw [find] at hfind
  cases hb : m.bucket (m.getBucketIndex key) with
  | none => simp [hb] at hfind
  | some list =>
    simp only [hb] at hfind
    cases hf : findInList keysEqualFunc list key with
    | none => simp [hf] at hfind
    | some kvp =>
      obtain ⟨k', w⟩ := kvp
      rw [hf, Option.map_some, Option.some_inj] at hfind
      subst hfind
      have hkeq : keysEqualFunc key k' = true := by simpa using List.find?_some hf
      obtain ⟨a, l₁, l₂, hl₁, ha, rfl, herase⟩ := List.exists_of_eraseP
        (p := fun kvp : K × V => keysEqualFunc key kvp.1) (List.mem_of_find?_eq_some hf) hkeq
      have hskip : l₁.find? (fun kvp => keysEqualFunc key kvp.1) = none :=
        List.find?_eq_none.mpr hl₁
      have hfirst := hf
      rw [findInList, List.find?_append, hskip, Option.none_or,
        List.find?_cons_of_pos (p := fun kvp : K × V => keysEqualFunc key kvp.1) ha,
        Option.some_inj] at hfirst
      subst hfirst
      simp only [hf, herase]
      refine ⟨k', _, rfl, hkeq, ?_⟩
      exact erase_spec h (by rw [hb, Option.getD_some])

end HashMap

end ChatProject
