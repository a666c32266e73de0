import Mathlib.Data.Finmap
import ChatProject.Lib.Machine
import ChatProject.Shared.PrimeRounding

/-!
# The hash map refines a finite map

`Shared/HashMap.lean` says what each function of `HashMap.c` does to the pairs of a map.  Here the
map is seen through its interface: a caller makes calls (`MapCall`) and gets replies (`MapReply`),
and cannot tell the map from a finite map on classes of equal keys.

* `Dict` — the finite map, as what it is for: under each class the pair that was put there.
  `Dict.Step` is one call on it, and the only choice it has is whether memory runs out.
* `Dict.Runs.lookup_iff` — the pair under a class is that of the last insertion that succeeded,
  unless it was removed since.
* `HashMap.Represents` — a hash map stands for a finite map.  `HashMap.Represents.call` is the
  simulation, for any hash function, also one under which all keys collide.
* `create_isSome` — a map is created whenever its two allocations succeed, since rounding the
  capacity up to a prime ends; `prime_rounding` says with which prime.
-/

set_option autoImplicit false

namespace ChatProject

open Machine

/-! ## The interface -/

section
variable (K V : Type)

/-- A call on a map; an insertion comes with the allocation failures that strike in it. -/
inductive MapCall where
  | insert (key : K) (value : V) (al : Alloc)
  | remove (searchKey : K)
  | find (key : K)
  | size

/-- What a call returns, and what it leaves in its output parameters. -/
inductive MapReply where
  | inserted (result : MapResult)
  | removed (result : MapResult) (pair : Option (K × V))
  /-- A value exactly when the function returns `MAP_SUCCESS`. -/
  | found (value : Option V)
  | size (n : Nat)

end

/-! ## What it is for -/

/-- A finite map on classes of keys, with the pair that was inserted under each. -/
abbrev Dict (Q K V : Type) := Finmap fun _ : Q => K × V

namespace Dict

variable {Q K V : Type} [DecidableEq Q] (cls : K → Q)

/-- One call on a finite map. -/
inductive Step (d : Dict Q K V) : MapCall K V → Dict Q K V → MapReply K V → Prop
  | duplicate {key : K} {value : V} {al : Alloc} (h : cls key ∈ d) :
    Step d (.insert key value al) d (.inserted .keyDuplicateError)
  | outOfMemory {key : K} {value : V} {al : Alloc} (h : cls key ∉ d) (hal : false ∈ al) :
    Step d (.insert key value al) d (.inserted .allocationError)
  | inserted {key : K} {value : V} {al : Alloc} (h : cls key ∉ d) :
    Step d (.insert key value al) (d.insert (cls key) (key, value)) (.inserted .success)
  | absent {key : K} (h : cls key ∉ d) : Step d (.remove key) d (.removed .keyNotFoundError none)
  | removed {key : K} {pair : K × V} (h : d.lookup (cls key) = some pair) :
    Step d (.remove key) (d.erase (cls key)) (.removed .success (some pair))
  | found {key : K} : Step d (.find key) d (.found ((d.lookup (cls key)).map Prod.snd))
  | size : Step d .size d (.size d.keys.card)

/-- A sequence of calls, each with its reply. -/
inductive Runs (d : Dict Q K V) : List (MapCall K V × MapReply K V) → Dict Q K V → Prop
  | nil : Runs d [] d
  | snoc {tr : List (MapCall K V × MapReply K V)} {d' d'' : Dict Q K V} {call : MapCall K V}
    {reply : MapReply K V} (h : Runs d tr d') (hstep : Step cls d' call d'' reply) :
    Runs d (tr ++ [(call, reply)]) d''

/-- The pair was inserted under the class `q`. -/
def Inserts (q : Q) (pair : K × V) (x : MapCall K V × MapReply K V) : Prop :=
  ∃ al, x = (.insert pair.1 pair.2 al, .inserted .success) ∧ cls pair.1 = q

/-- The pair under the class `q` was removed. -/
def Removes (q : Q) (x : MapCall K V × MapReply K V) : Prop :=
  ∃ key pair, x = (.remove key, .removed .success (some pair)) ∧ cls key = q

/-- The pair was inserted under `q`, and nothing under `q` has been removed since. -/
def Stored (tr : List (MapCall K V × MapReply K V)) (q : Q) (pair : K × V) : Prop :=
  Since (fun _ => Inserts cls q pair) (fun _ => Removes cls q) tr

variable {cls}

omit [DecidableEq Q] in
theorem inserts_iff {q : Q} {pair : K × V} {key : K} {value : V} {al : Alloc} :
    Inserts cls q pair (.insert key value al, .inserted .success) ↔
      (key, value) = pair ∧ cls key = q := by
  constructor
  · rintro ⟨al', h, hq⟩
    rw [Prod.mk.injEq, MapCall.insert.injEq] at h
    obtain ⟨⟨rfl, rfl, rfl⟩, -⟩ := h
    exact ⟨rfl, hq⟩
  · rintro ⟨rfl, hq⟩
    exact ⟨al, rfl, hq⟩

omit [DecidableEq Q] in
theorem removes_iff {q : Q} {pair : K × V} {key : K} :
    Removes cls q (.remove key, .removed .success (some pair)) ↔ cls key = q := by
  constructor
  · rintro ⟨key', pair', h, hq⟩
    rw [Prod.mk.injEq, MapCall.remove.injEq] at h
    exact h.1 ▸ hq
  · exact fun hq => ⟨key, pair, rfl, hq⟩

/-- **The last insertion counts.** -/
theorem Runs.lookup_iff {tr : List (MapCall K V × MapReply K V)} {d : Dict Q K V}
    (h : Runs cls ∅ tr d) {q : Q} {pair : K × V} :
    d.lookup q = some pair ↔ Stored cls tr q pair := by
  induction h with
  | nil => exact iff_of_false (by rw [Finmap.lookup_empty]; simp) not_since_nil
  | @snoc tr d d' call reply h hstep ih =>
    rw [Stored, since_concat, ← Stored, ← ih]
    cases hstep with
    | duplicate _ | outOfMemory _ _ | absent _ | found | size =>
      simp [Inserts, Removes]
    | @inserted key value al hnew =>
      have hkeep : ¬ Removes cls q (MapCall.insert key value al, .inserted .success) := by
        simp [Removes]
      rw [inserts_iff, and_iff_left hkeep]
      by_cases hq : cls key = q
      · subst hq
        rw [Finmap.lookup_insert, Option.some_inj, Finmap.lookup_eq_none.mpr hnew]
        simp
      · rw [Finmap.lookup_insert_of_ne d (Ne.symm hq)]
        simp [hq]
    | @removed key pair' hpair =>
      have hnew : ¬ Inserts cls q pair (MapCall.remove key, .removed .success (some pair')) := by
        simp [Inserts]
      rw [removes_iff, or_iff_right hnew]
      by_cases hq : cls key = q
      · subst hq
        rw [Finmap.lookup_erase]
        simp
      · rw [Finmap.lookup_erase_ne (Ne.symm hq)]
        simp [hq]

/-! What the two changes do to the number of classes. -/

theorem card_keys_insert {d : Dict Q K V} {q : Q} (h : q ∉ d) (pair : K × V) :
    (d.insert q pair).keys.card = d.keys.card + 1 := by
  have hkeys : (d.insert q pair).keys = insert q d.keys := by
    ext q'
    rw [Finmap.mem_keys, Finmap.mem_insert, Finset.mem_insert, Finmap.mem_keys]
  rw [hkeys, Finset.card_insert_of_notMem (mt Finmap.mem_keys.mp h)]

theorem card_keys_erase {d : Dict Q K V} {q : Q} (h : q ∈ d) :
    (d.erase q).keys.card + 1 = d.keys.card := by
  rw [Finmap.keys_erase, Finset.card_erase_add_one (Finmap.mem_keys.mpr h)]

end Dict

/-! ## The simulation -/

/-- Classes of equal keys. -/
def LawfulKeys.setoid {K : Type} {hashFunc : K → Nat} {keysEqualFunc : K → K → Bool}
    (hk : LawfulKeys hashFunc keysEqualFunc) : Setoid K where
  r a b := keysEqualFunc a b = true
  iseqv := ⟨hk.refl, hk.symm, hk.trans⟩

namespace HashMap

variable {K V : Type} {hashFunc : K → Nat} {keysEqualFunc : K → K → Bool}

/-- One call on a map. -/
def call (m : HashMap K V hashFunc keysEqualFunc) :
    MapCall K V → HashMap K V hashFunc keysEqualFunc × MapReply K V
  | .insert key value al =>
    match m.insert key value al with
    | (result, m, _) => (m, .inserted result)
  | .remove searchKey =>
    match m.remove searchKey with
    | (result, pair, m) => (m, .removed result pair)
  | .find key => (m, .found (m.find key))
  | .size => (m, .size m.size)

/-- No call changes the number of buckets. -/
theorem call_capacity (m : HashMap K V hashFunc keysEqualFunc) (c : MapCall K V) :
    (m.call c).1.capacity = m.capacity := by
  cases c with
  | insert key value al =>
    rw [call, insert]
    cases m.bucket (m.getBucketIndex key) with
    | none =>
      rcases malloc al with ⟨_ | _, al⟩
      · rfl
      · obtain ⟨al', hp⟩ | ⟨al', hp⟩ := pushPair_cases (m.newBucket (m.getBucketIndex key))
          (m.getBucketIndex key) [] key value al
        · simp only [hp]
          rfl
        · simp only [hp]
          rfl
    | some list =>
      simp only
      cases findInList keysEqualFunc list key with
      | some kvp => rfl
      | none =>
        obtain ⟨al', hp⟩ | ⟨al', hp⟩ := pushPair_cases m (m.getBucketIndex key) list key value al
        · simp only [hp]
        · simp only [hp]
  | remove searchKey =>
    rw [call, remove]
    cases m.bucket (m.getBucketIndex searchKey) with
    | none => rfl
    | some list =>
      simp only
      cases findInList keysEqualFunc list searchKey <;> rfl
  | find key => rfl
  | size => rfl

/-- The class of a key. -/
def cls (hk : LawfulKeys hashFunc keysEqualFunc) (key : K) : Quotient hk.setoid :=
  Quotient.mk hk.setoid key

theorem cls_eq_iff {hk : LawfulKeys hashFunc keysEqualFunc} {a b : K} :
    cls hk a = cls hk b ↔ keysEqualFunc a b = true :=
  Quotient.eq (r := hk.setoid)

instance (hk : LawfulKeys hashFunc keysEqualFunc) : DecidableEq (Quotient hk.setoid) :=
  @Quotient.decidableEq K hk.setoid fun a b =>
    inferInstanceAs (Decidable (keysEqualFunc a b = true))

/-- **The map stands for a finite map.** -/
structure Represents (hk : LawfulKeys hashFunc keysEqualFunc)
    (m : HashMap K V hashFunc keysEqualFunc) (d : Dict (Quotient hk.setoid) K V) : Prop where
  wf : m.WF
  /-- The pairs of the map are the pairs of the finite map, each under the class of its key. -/
  lookup_iff : ∀ {q pair}, d.lookup q = some pair ↔ pair ∈ m.entries ∧ cls hk pair.1 = q
  /-- There are as many of them. -/
  card : d.keys.card = m.entries.length

/-! An insertion runs out of memory only where an allocation fails. -/

theorem false_mem_of_pushPair {m m' : HashMap K V hashFunc keysEqualFunc} {index : Nat}
    {list : List (K × V)} {key : K} {value : V} {al al' : Alloc}
    (h : m.pushPair index list key value al = (.allocationError, m', al')) : false ∈ al := by
  rw [pushPair] at h
  split at h
  · next hm => exact false_mem_of_malloc hm
  · next hm =>
    split at h
    · next hm' => exact mem_of_mem_malloc hm (false_mem_of_malloc hm')
    · exact absurd h (by simp)

theorem false_mem_of_insert {m m' : HashMap K V hashFunc keysEqualFunc} {key : K} {value : V}
    {al al' : Alloc} (h : m.insert key value al = (.allocationError, m', al')) : false ∈ al := by
  rw [insert] at h
  split at h
  · split at h
    · next hm => exact false_mem_of_malloc hm
    · next hm => exact mem_of_mem_malloc hm (false_mem_of_pushPair h)
  · split at h
    · exact absurd h (by simp)
    · exact false_mem_of_pushPair h

theorem remove_of_none {m : HashMap K V hashFunc keysEqualFunc} {key : K}
    (hnone : m.find key = none) : m.remove key = (.keyNotFoundError, none, m) := by
  simp only [remove]
  cases hb : m.bucket (m.getBucketIndex key) with
  | none => rfl
  | some list =>
    rw [← findInList_eq_none_iff hb] at hnone
    simp only [hnone]

namespace Represents

variable {hk : LawfulKeys hashFunc keysEqualFunc} {m m' : HashMap K V hashFunc keysEqualFunc}
  {d : Dict (Quotient hk.setoid) K V}

theorem find_eq (h : Represents hk m d) (key : K) :
    m.find key = (d.lookup (cls hk key)).map Prod.snd := by
  ext v
  rw [Option.map_eq_some_iff, find_eq_some_iff h.wf hk]
  constructor
  · rintro ⟨k', hmem, heq⟩
    exact ⟨(k', v), h.lookup_iff.mpr ⟨hmem, (cls_eq_iff.mpr heq).symm⟩, rfl⟩
  · rintro ⟨⟨k', v⟩, hlook, rfl⟩
    obtain ⟨hmem, hcls⟩ := h.lookup_iff.mp hlook
    exact ⟨k', hmem, cls_eq_iff.mp hcls.symm⟩

theorem find_eq_none_iff (h : Represents hk m d) {key : K} :
    m.find key = none ↔ cls hk key ∉ d := by
  rw [h.find_eq, Option.map_eq_none_iff, Finmap.lookup_eq_none]

/-- Nothing but the shape of the map changed. -/
theorem congr (h : Represents hk m d) (hwf : m'.WF) (hent : m'.entries = m.entries) :
    Represents hk m' d :=
  ⟨hwf, hent ▸ h.lookup_iff, hent ▸ h.card⟩

/-- A pair under a new class. -/
theorem insert (h : Represents hk m d) {key : K} (hnew : cls hk key ∉ d) (value : V)
    (hwf : m'.WF) (hent : m'.entries.Perm ((key, value) :: m.entries)) :
    Represents hk m' (d.insert (cls hk key) (key, value)) := by
  refine ⟨hwf, ?_, ?_⟩
  · intro q pair
    rw [hent.mem_iff, List.mem_cons]
    by_cases hq : q = cls hk key
    · subst hq
      have hold : ¬ (pair ∈ m.entries ∧ cls hk pair.1 = cls hk key) := by
        rw [← h.lookup_iff, Finmap.lookup_eq_none.mpr hnew]
        simp
      rw [Finmap.lookup_insert, Option.some_inj]
      constructor
      · rintro rfl
        exact ⟨.inl rfl, rfl⟩
      · rintro ⟨rfl | hmem, hcls⟩
        · rfl
        · exact absurd ⟨hmem, hcls⟩ hold
    · rw [Finmap.lookup_insert_of_ne d hq, h.lookup_iff]
      constructor
      · exact fun ⟨hmem, hcls⟩ => ⟨.inr hmem, hcls⟩
      · rintro ⟨rfl | hmem, hcls⟩
        · exact absurd hcls.symm hq
        · exact ⟨hmem, hcls⟩
  · rw [Dict.card_keys_insert hnew, h.card, hent.length_eq, List.length_cons]

/-- The pair under a class is taken out. -/
theorem erase (h : Represents hk m d) {key : K} {pair : K × V}
    (hpair : d.lookup (cls hk key) = some pair) (hwf : m'.WF)
    (hent : m.entries.Perm (pair :: m'.entries)) :
    Represents hk m' (d.erase (cls hk key)) := by
  have hcls := (h.lookup_iff.mp hpair).2
  -- no other pair of the map has an equal key
  have hother : ∀ pair' ∈ m'.entries, cls hk pair'.1 ≠ cls hk key := by
    intro pair' hmem hsame
    have hdis := (hent.pairwise_iff hk.symm_false).mp h.wf.distinct
    have hne := (List.pairwise_cons.mp hdis).1 pair' hmem
    rw [← hcls, eq_comm, cls_eq_iff, hne] at hsame
    exact absurd hsame (by simp)
  refine ⟨hwf, ?_, ?_⟩
  · intro q pair'
    by_cases hq : q = cls hk key
    · subst hq
      rw [Finmap.lookup_erase]
      exact iff_of_false (by simp) fun ⟨hmem, hsame⟩ => hother pair' hmem hsame
    · rw [Finmap.lookup_erase_ne hq, h.lookup_iff, hent.mem_iff, List.mem_cons]
      constructor
      · rintro ⟨rfl | hmem, hsame⟩
        · exact absurd (hsame.symm.trans hcls) hq
        · exact ⟨hmem, hsame⟩
      · exact fun ⟨hmem, hsame⟩ => ⟨.inr hmem, hsame⟩
  · have hin : cls hk key ∈ d := Finmap.mem_of_lookup_eq_some hpair
    have hcard := Dict.card_keys_erase hin
    rw [h.card, hent.length_eq, List.length_cons] at hcard
    omega

/-- **The simulation.**  Every call returns what the finite map returns. -/
theorem call (h : Represents hk m d) (c : MapCall K V) :
    ∃ d', Dict.Step (cls hk) d c d' (m.call c).2 ∧ Represents hk (m.call c).1 d' := by
  cases c with
  | insert key value al =>
    rw [HashMap.call]
    obtain ⟨hdup, heq⟩ | ⟨hnone, m', al', heq, hwf, hent⟩ | ⟨hnone, m', al', heq, hwf, hent⟩ :=
      insert_cases h.wf hk key value al
    · rw [heq]
      exact ⟨d, .duplicate (not_not.mp (mt h.find_eq_none_iff.mpr hdup)), h⟩
    · rw [heq]
      exact ⟨d, .outOfMemory (h.find_eq_none_iff.mp hnone) (false_mem_of_insert heq),
        h.congr hwf hent⟩
    · rw [heq]
      have hnew := h.find_eq_none_iff.mp hnone
      exact ⟨_, .inserted hnew, h.insert hnew value hwf hent⟩
  | remove key =>
    rw [HashMap.call]
    cases hf : m.find key with
    | none =>
      rw [remove_of_none hf]
      exact ⟨d, .absent (h.find_eq_none_iff.mp hf), h⟩
    | some v =>
      obtain ⟨k', m', heq, hkeq, hwf, hent⟩ := remove_spec h.wf hf
      have hmem : (k', v) ∈ m.entries := hent.mem_iff.mpr List.mem_cons_self
      have hpair : d.lookup (cls hk key) = some (k', v) :=
        h.lookup_iff.mpr ⟨hmem, (cls_eq_iff.mpr hkeq).symm⟩
      rw [heq]
      exact ⟨_, .removed hpair, h.erase hpair hwf hent⟩
  | find key =>
    rw [HashMap.call, h.find_eq]
    exact ⟨d, .found, h⟩
  | size =>
    rw [HashMap.call, h.wf.size_eq, ← h.card]
    exact ⟨d, .size, h⟩

end Represents

end HashMap

/-! ## Creation

The loops that look for a prime end for every capacity whose buckets fit into memory: a bucket is a
pointer of eight bytes. -/

open HashMap

section
variable {K V : Type} {hashFunc : K → Nat} {keysEqualFunc : K → K → Bool}

/-- A map is created whenever its two allocations succeed. -/
theorem create_isSome {capacity : Nat} (hpos : 0 < capacity) (hmax : 8 * capacity < UInt64.size)
    {al : Alloc} (h1 : (malloc al).1 = true) (h2 : (malloc (malloc al).2).1 = true) :
    ((create capacity al).1 : Option (HashMap K V hashFunc keysEqualFunc)).isSome := by
  rw [UInt64.size] at hmax
  obtain ⟨n, hn, -⟩ := getNextPrime_spec hpos (by omega)
  rw [create, if_neg (by omega)]
  rcases hm : malloc al with ⟨_ | _, al₁⟩
  · rw [hm] at h1
    exact absurd h1 (by simp)
  rw [hm] at h2
  simp only [hn]
  rcases hm' : malloc al₁ with ⟨_ | _, al₂⟩
  · rw [hm'] at h2
    exact absurd h2 (by simp)
  · rfl

/-- The number of buckets is what the search for a prime has found. -/
theorem capacity_create {capacity : Nat} {al : Alloc} {m : HashMap K V hashFunc keysEqualFunc}
    (h : (create capacity al).1 = some m) : getNextPrime capacity = some m.capacity := by
  obtain ⟨n, hn, rfl⟩ := eq_of_create h
  exact hn

theorem represents_create (hk : LawfulKeys hashFunc keysEqualFunc) {capacity : Nat} {al : Alloc}
    {m : HashMap K V hashFunc keysEqualFunc} (h : (create capacity al).1 = some m) :
    Represents hk m ∅ := by
  obtain ⟨hwf, hent⟩ := create_spec (fun n hn => getNextPrimeLoop_pos hn) h
  refine ⟨hwf, ?_, ?_⟩
  · intro q pair
    rw [Finmap.lookup_empty, hent]
    simp
  · rw [hent]
    rfl

/-- **A run of a map is a run of a finite map.** -/
theorem exists_runs {hk : LawfulKeys hashFunc keysEqualFunc}
    {m₀ : HashMap K V hashFunc keysEqualFunc} (h₀ : Represents hk m₀ ∅) (cs : List (MapCall K V)) :
    ∃ d, Dict.Runs (cls hk) ∅ (trace HashMap.call m₀ cs) d ∧
      Represents hk (run HashMap.call m₀ cs) d := by
  refine run_history (p := fun _ => True) (R := fun m tr => ∃ d, Dict.Runs (cls hk) ∅ tr d ∧
    Represents hk m d) ?_ (fun _ _ => trivial) ⟨∅, .nil, h₀⟩
  rintro m tr c - ⟨d, hruns, hrep⟩
  obtain ⟨d', hstep, hrep'⟩ := hrep.call c
  exact ⟨d', hruns.snoc hstep, hrep'⟩

/-- **The hash map refines a finite map**, for every lawful pair of functions, every capacity whose
buckets can be allocated, every sequence of calls and every pattern of allocation failures.  In
every state it reaches each pair sits in the bucket its key hashes to, and no two keys are equal. -/
theorem hashMap_refines (hk : LawfulKeys hashFunc keysEqualFunc) (capacity : Nat) (al : Alloc) :
    (0 < capacity → 8 * capacity < UInt64.size → (malloc al).1 = true →
      (malloc (malloc al).2).1 = true →
        ((create capacity al).1 : Option (HashMap K V hashFunc keysEqualFunc)).isSome) ∧
    ∀ m₀ : HashMap K V hashFunc keysEqualFunc, (create capacity al).1 = some m₀ →
      ∀ cs : List (MapCall K V),
        let m := run HashMap.call m₀ cs
        ∃ d : Dict (Quotient hk.setoid) K V,
          Dict.Runs (cls hk) ∅ (trace HashMap.call m₀ cs) d ∧
          (∀ q pair, d.lookup q = some pair ↔
            Dict.Stored (cls hk) (trace HashMap.call m₀ cs) q pair) ∧
          (∀ key, m.find key = (d.lookup (cls hk key)).map Prod.snd) ∧
          m.size = d.keys.card ∧
          (∀ i, ∀ kvp ∈ (m.bucket i).getD [], hashFunc kvp.1 % m.capacity = i) ∧
          m.entries.Pairwise fun a b => keysEqualFunc a.1 b.1 = false := by
  refine ⟨fun hpos hmax h1 h2 => create_isSome hpos hmax h1 h2, ?_⟩
  intro m₀ h₀ cs m
  obtain ⟨d, hruns, hrep⟩ := exists_runs (represents_create hk h₀) cs
  refine ⟨d, hruns, fun q pair => hruns.lookup_iff, hrep.find_eq, ?_, hrep.wf.placed,
    hrep.wf.distinct⟩
  rw [hrep.wf.size_eq, hrep.card]

end

/-- Two insertions under one key, in a map in which all keys collide. -/
theorem hashMap_refines_collisions :
    ∃ m₀ : HashMap Nat Nat (fun _ => 0) (· == ·), (create 2 []).1 = some m₀ ∧
      (run HashMap.call m₀ [.insert 1 10 [], .insert 1 11 [], .insert 3 12 []]).find 1 = some 10 ∧
      (run HashMap.call m₀ [.insert 1 10 [], .insert 1 11 [], .insert 3 12 []]).entries.Pairwise
        fun a b => (a.1 == b.1) = false := by
  have hk : LawfulKeys (fun _ : Nat => 0) (· == ·) :=
    ⟨by simp, by simp, by simp, by simp⟩
  have hrefines := hashMap_refines (K := Nat) (V := Nat) hk 2 []
  obtain ⟨m₀, h₀⟩ := Option.isSome_iff_exists.mp
    (hrefines.1 (by decide) (by decide) (by decide) (by decide))
  obtain ⟨d, -, -, -, -, -, hdistinct⟩ :=
    hrefines.2 m₀ h₀ [.insert 1 10 [], .insert 1 11 [], .insert 3 12 []]
  have hfind : ((create 2 []).1 : Option (HashMap Nat Nat (fun _ => 0) (· == ·))).map
      (fun m => (run HashMap.call m [.insert 1 10 [], .insert 1 11 [], .insert 3 12 []]).find 1) =
        some (some 10) := by
    decide +kernel
  rw [h₀, Option.map_some, Option.some_inj] at hfind
  exact ⟨m₀, h₀, hfind, hdistinct⟩

/-! ## The capacity -/

/-- **Prime rounding.**  For every capacity up to `2 ^ 62`, `IsPrime` ends and is right, and
`GetNextPrime` ends with the least prime that is not below the capacity.  Nothing wraps in any round
of either loop.  A map that is created has that many buckets, at least one, after any calls. -/
theorem prime_rounding {n : Nat} (hpos : 1 ≤ n) (hmax : n ≤ 2 ^ 62) :
    isPrime n = some (decide n.Prime) ∧ (∀ i, IsPrimeRound n i → RoundFits i) ∧
      ∃ p, getNextPrime n = some p ∧ IsLeast {q | n ≤ q ∧ q.Prime} p ∧
        (∀ q, GetNextPrimeRound n q →
          q + 1 < 2 ^ 64 ∧ ∀ i, IsPrimeRound q i → RoundFits i) ∧
        ∀ (K V : Type) (hashFunc : K → Nat) (keysEqualFunc : K → K → Bool) (al : Alloc)
          (m₀ : HashMap K V hashFunc keysEqualFunc), (create n al).1 = some m₀ →
            ∀ cs, (run HashMap.call m₀ cs).capacity = p ∧
              0 < (run HashMap.call m₀ cs).capacity := by
  have hnum : n ≤ 2 ^ 63 := by omega
  obtain ⟨p, hp, hleast, -⟩ := getNextPrime_spec hpos hmax
  refine ⟨isPrime_eq hnum, fun i hi => hi.noWrap hnum, p, hp, hleast,
    fun q hq => hq.noWrap hpos hmax, ?_⟩
  intro K V hashFunc keysEqualFunc al m₀ h₀ cs
  have hcap : m₀.capacity = p := Option.some.inj ((capacity_create h₀).symm.trans hp)
  have hrun : (run HashMap.call m₀ cs).capacity = p :=
    run_invariant (p := fun _ => True)
      (P := fun m : HashMap K V hashFunc keysEqualFunc => m.capacity = p) (fun m c _ hm =>
        (call_capacity m c).trans hm) (fun _ _ => trivial) hcap
  exact ⟨hrun, hrun.symm ▸ hleast.1.2.pos⟩

/-- A capacity of 8 is rounded up to 11. -/
theorem prime_rounding_eight :
    getNextPrime 8 = some 11 ∧ IsLeast {q | 8 ≤ q ∧ q.Prime} 11 := by
  obtain ⟨-, -, p, hp, hleast, -⟩ := prime_rounding (n := 8) (by decide) (by decide)
  have heleven : getNextPrime 8 = some 11 := by decide
  rw [heleven, Option.some_inj] at hp
  exact ⟨heleven, hp.symm ▸ hleast⟩

end ChatProject
