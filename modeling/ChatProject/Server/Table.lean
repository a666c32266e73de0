import Mathlib.Data.Set.Card
import Mathlib.Logic.Function.Basic
import ChatProject.Shared.HashMap

/-!
# Objects filed under their own name

Both managers of the server keep their objects the same way: the object is allocated, a hash map
takes a pointer to it, and the key of the map is a string *inside* the object.  A `Table` is that
idiom — the map, and the memory its pointers point into — for any type of object that has a name.

The two facts every later proof needs are fields of the structure, so that no table without them
can be built: the map keeps its representation invariant, and the object a pointer leads to carries
the name it is filed under.  From the second it follows that two names never lead to one object, so
writing through a pointer changes what is filed under one name and nothing else
(`Table.lookup_modify`).

`Table.lookup` is the abstraction, a partial function from names to objects; `Table.objs` is the
list of all objects, in the order of the map.
-/

set_option autoImplicit false

namespace ChatProject

/-! ## Keys: `server/hash_utils.c` -/

/-- `HashStringDjb2`, on 64-bit `size_t`. -/
def hashStringDjb2 (key : CStr) : Nat :=
  key.bytes.foldl (fun hash c => (hash * 33 + c.toNat) % 2 ^ 64) 5381

/-- `StringKeysEqual`: `strcmp` returns 0. -/
def stringKeysEqual (firstKey secondKey : CStr) : Bool := firstKey = secondKey

theorem stringKeysEqual_iff {a b : CStr} : stringKeysEqual a b = true ↔ a = b := by
  simp [stringKeysEqual]

theorem lawfulKeys_string : LawfulKeys hashStringDjb2 stringKeysEqual where
  refl _ := stringKeysEqual_iff.mpr rfl
  symm h := stringKeysEqual_iff.mpr (stringKeysEqual_iff.mp h).symm
  trans h h' := stringKeysEqual_iff.mpr
    ((stringKeysEqual_iff.mp h).trans (stringKeysEqual_iff.mp h'))
  hash_eq h := congrArg hashStringDjb2 (stringKeysEqual_iff.mp h)

/-! ## Tables -/

/-- The address of an object. -/
abbrev Ptr := Nat

/-- Objects in memory and a hash map from the name inside each to its address. -/
structure Table {α : Type} (key : α → CStr) where
  /-- The hash map. -/
  map : HashMap CStr Ptr hashStringDjb2 stringKeysEqual
  /-- The memory. -/
  heap : Ptr → α
  /-- The next address `malloc` gives out. -/
  next : Ptr
  /-- The map keeps its representation invariant. -/
  wf : map.WF
  /-- A filed pointer leads to an allocated object of that name. -/
  own : ∀ kp ∈ map.entries, kp.2 < next ∧ key (heap kp.2) = kp.1

namespace Table

variable {α : Type} {key : α → CStr}

/-- `HashMap_Create(100, ...)` in both managers. -/
def create [Inhabited α] (al : Alloc) : Option (Table key) × Alloc :=
  match h : HashMap.create 100 al with
  | (none, al) => (none, al)
  | (some map, al) =>
    have hs := HashMap.create_spec (by decide) (congrArg Prod.fst h)
    (some ⟨map, fun _ => default, 0, hs.1, by rw [hs.2]; intro kp hkp; simp at hkp⟩, al)

/-- `HashMap_Find`: the pointer. -/
def find (t : Table key) (name : CStr) : Option Ptr := t.map.find name

/-- What is filed under a name. -/
def lookup (t : Table key) (name : CStr) : Option α := (t.find name).map t.heap

/-- All objects on file. -/
def objs (t : Table key) : List α := t.map.entries.map fun kp => t.heap kp.2

theorem find_eq_some_iff {t : Table key} {name : CStr} {p : Ptr} :
    t.find name = some p ↔ (name, p) ∈ t.map.entries := by
  rw [find, HashMap.find_eq_some_iff t.wf lawfulKeys_string]
  constructor
  · rintro ⟨k', hmem, heq⟩
    rwa [stringKeysEqual_iff.mp heq]
  · exact fun h => ⟨name, h, stringKeysEqual_iff.mpr rfl⟩

theorem find_create [Inhabited α] {al : Alloc} {t : Table key} (h : (create al).1 = some t)
    (name : CStr) : t.find name = none := by
  have hent : t.map.entries = [] := by
    rw [create] at h
    split at h
    · exact absurd h (by simp)
    · next map al' hm =>
      rw [Option.some_inj] at h
      subst h
      exact (HashMap.create_spec (by decide) (congrArg Prod.fst hm)).2
  refine Option.eq_none_iff_forall_ne_some.mpr fun p hp => ?_
  rw [find_eq_some_iff, hent] at hp
  exact absurd hp (by simp)

theorem key_of_find {t : Table key} {name : CStr} {p : Ptr} (h : t.find name = some p) :
    key (t.heap p) = name :=
  (t.own _ (find_eq_some_iff.mp h)).2

theorem lt_next_of_find {t : Table key} {name : CStr} {p : Ptr} (h : t.find name = some p) :
    p < t.next :=
  (t.own _ (find_eq_some_iff.mp h)).1

theorem lookup_of_find {t : Table key} {name : CStr} {p : Ptr} (h : t.find name = some p) :
    t.lookup name = some (t.heap p) := by
  rw [lookup, h, Option.map_some]

theorem lookup_eq_none_iff {t : Table key} {name : CStr} :
    t.lookup name = none ↔ t.find name = none := by
  rw [lookup, Option.map_eq_none_iff]

theorem exists_find_of_lookup {t : Table key} {name : CStr} {a : α} (h : t.lookup name = some a) :
    ∃ p, t.find name = some p ∧ t.heap p = a := by
  rwa [lookup, Option.map_eq_some_iff] at h

theorem key_of_lookup {t : Table key} {name : CStr} {a : α} (h : t.lookup name = some a) :
    key a = name := by
  obtain ⟨p, hp, rfl⟩ := exists_find_of_lookup h
  exact key_of_find hp

/-! ### Writing through a pointer -/

/-- `*p = f(*p)` for an `f` that leaves the name alone. -/
def modify (t : Table key) (p : Ptr) (f : α → α) (hf : ∀ a, key (f a) = key a) : Table key where
  map := t.map
  heap := Function.update t.heap p (f (t.heap p))
  next := t.next
  wf := t.wf
  own := by
    intro kp hkp
    refine ⟨(t.own kp hkp).1, ?_⟩
    by_cases hp : kp.2 = p
    · rw [hp, Function.update_self, hf, ← hp]
      exact (t.own kp hkp).2
    · rw [Function.update_of_ne hp]
      exact (t.own kp hkp).2

section
variable {t : Table key} {p : Ptr} {f : α → α} {hf : ∀ a, key (f a) = key a}

@[simp] theorem find_modify (name : CStr) : (t.modify p f hf).find name = t.find name := rfl

@[simp] theorem heap_modify_self : (t.modify p f hf).heap p = f (t.heap p) :=
  Function.update_self ..

theorem heap_modify_of_ne {q : Ptr} (h : q ≠ p) : (t.modify p f hf).heap q = t.heap q :=
  Function.update_of_ne h ..

theorem key_heap_modify (q : Ptr) : key ((t.modify p f hf).heap q) = key (t.heap q) := by
  by_cases h : q = p
  · rw [h, heap_modify_self, hf]
  · rw [heap_modify_of_ne h]

end

/-- **Writing through a filed pointer changes one entry.** -/
theorem lookup_modify {t : Table key} {p : Ptr} {f : α → α} (hf : ∀ a, key (f a) = key a)
    {name : CStr} (hp : t.find name = some p) :
    (t.modify p f hf).lookup = Function.update t.lookup name (some (f (t.heap p))) := by
  funext other
  by_cases ho : other = name
  · rw [ho, Function.update_self]
    exact (lookup_of_find (t := t.modify p f hf) hp).trans (by rw [heap_modify_self])
  · rw [Function.update_of_ne ho, lookup, lookup, find_modify]
    cases hq : t.find other with
    | none => rfl
    | some q =>
      have hne : q ≠ p := by
        rintro rfl
        exact ho ((key_of_find hq).symm.trans (key_of_find hp))
      rw [Option.map_some, Option.map_some, heap_modify_of_ne hne]

/-! ### Filing a new object -/

/-- Allocated objects other than the one just written still carry the name they are filed under. -/
theorem own_insert {t : Table key} (a : α) {map' : HashMap CStr Ptr hashStringDjb2 stringKeysEqual}
    (h : map'.entries.Perm ((key a, t.next) :: t.map.entries)) :
    ∀ kp ∈ map'.entries,
      kp.2 < t.next + 1 ∧ key (Function.update t.heap t.next a kp.2) = kp.1 := by
  intro kp hkp
  rcases List.mem_cons.mp (h.mem_iff.mp hkp) with rfl | hold
  · exact ⟨Nat.lt_succ_self _, by rw [Function.update_self]⟩
  · obtain ⟨hlt, hkey⟩ := t.own kp hold
    exact ⟨Nat.lt_succ_of_lt hlt, by rw [Function.update_of_ne (Nat.ne_of_lt hlt)]; exact hkey⟩

theorem insert_wf (t : Table key) (a : α) (al : Alloc) :
    (t.map.insert (key a) t.next al).2.1.WF ∧
      ∀ kp ∈ (t.map.insert (key a) t.next al).2.1.entries,
        if (t.map.insert (key a) t.next al).1 = .success then
          kp.2 < t.next + 1 ∧ key (Function.update t.heap t.next a kp.2) = kp.1
        else kp.2 < t.next ∧ key (t.heap kp.2) = kp.1 := by
  obtain ⟨-, h⟩ | ⟨-, m', al', h, hwf, hent⟩ | ⟨-, m', al', h, hwf, hperm⟩ :=
    HashMap.insert_cases t.wf lawfulKeys_string (key a) t.next al
  · rw [h]
    exact ⟨t.wf, t.own⟩
  · rw [h]
    exact ⟨hwf, by simpa [hent] using t.own⟩
  · rw [h]
    exact ⟨hwf, by simpa using own_insert a hperm⟩

/-- Put the object `a` at a fresh address and `HashMap_Insert` it under its own name.  When the map
refuses, the caller frees the object again. -/
def insert (t : Table key) (a : α) (al : Alloc) : MapResult × Table key × Alloc :=
  let r := t.map.insert (key a) t.next al
  (r.1,
    { map := r.2.1
      heap := if r.1 = .success then Function.update t.heap t.next a else t.heap
      next := if r.1 = .success then t.next + 1 else t.next
      wf := (t.insert_wf a al).1
      own := by
        intro kp hkp
        have h := (t.insert_wf a al).2 kp hkp
        split at h
        · next hs => rwa [if_pos hs, if_pos hs]
        · next hs => rwa [if_neg hs, if_neg hs] },
    r.2.2)

/-- **Everything filing an object can do**, whatever allocations fail. -/
theorem insert_cases (t : Table key) (a : α) (al : Alloc) :
    (t.find (key a) ≠ none ∧ ∃ t', t.insert a al = (.keyDuplicateError, t', al) ∧
      t'.find = t.find ∧ t'.heap = t.heap) ∨
    (t.find (key a) = none ∧ ∃ t' al', t.insert a al = (.allocationError, t', al') ∧
      t'.find = t.find ∧ t'.heap = t.heap) ∨
    (t.find (key a) = none ∧ ∃ t' al', t.insert a al = (.success, t', al') ∧
      t'.find = Function.update t.find (key a) (some t.next) ∧
      t'.heap = Function.update t.heap t.next a) := by
  have hsame : ∀ t' : Table key, t'.map.entries = t.map.entries → t'.find = t.find := by
    intro t' hent
    funext k
    refine Option.ext fun p => ?_
    rw [find_eq_some_iff, find_eq_some_iff, hent]
  obtain ⟨hf, h⟩ | ⟨hf, m', al', h, hwf, hent⟩ | ⟨hf, m', al', h, hwf, hperm⟩ :=
    HashMap.insert_cases t.wf lawfulKeys_string (key a) t.next al
  · refine .inl ⟨hf, (t.insert a al).2.1, ?_, hsame _ ?_, ?_⟩ <;> simp [insert, h]
  · refine .inr (.inl ⟨hf, (t.insert a al).2.1, al', ?_, hsame _ ?_, ?_⟩) <;>
      simp [insert, h, hent]
  · refine .inr (.inr ⟨hf, (t.insert a al).2.1, al', ?_, ?_, ?_⟩)
    · simp [insert, h]
    · funext k
      refine Option.ext fun p => ?_
      have hmap : (t.insert a al).2.1.map = m' := by simp [insert, h]
      rw [find_eq_some_iff, hmap, hperm.mem_iff, List.mem_cons, ← find_eq_some_iff]
      by_cases hk : k = key a
      · subst hk
        rw [Function.update_self, show t.find (key a) = none from hf]
        simp [eq_comm]
      · rw [Function.update_of_ne hk]
        simp [hk]
    · simp [insert, h]

theorem insert_of_noFailure {t : Table key} {a : α} (hf : t.find (key a) = none) :
    (t.insert a []).1 = .success ∧ (t.insert a []).2.2 = [] :=
  HashMap.insert_of_noFailure t.next hf

/-- A filed object is found under its own name, and everything else where it was. -/
theorem lookup_insert {t t' : Table key} {a : α}
    (hfind : t'.find = Function.update t.find (key a) (some t.next))
    (hheap : t'.heap = Function.update t.heap t.next a) :
    t'.lookup = Function.update t.lookup (key a) (some a) := by
  funext k
  rw [lookup, hfind, hheap]
  by_cases hk : k = key a
  · rw [hk, Function.update_self, Function.update_self, Option.map_some, Function.update_self]
  · rw [Function.update_of_ne hk, Function.update_of_ne hk, lookup]
    cases hp : t.find k with
    | none => rfl
    | some p =>
      rw [Option.map_some, Option.map_some, Function.update_of_ne]
      exact Nat.ne_of_lt (lt_next_of_find hp)

/-! ### Taking an object off file -/

theorem remove_wf (t : Table key) (name : CStr) :
    (t.map.remove name).2.2.WF ∧
      ∀ kp ∈ (t.map.remove name).2.2.entries, kp.2 < t.next ∧ key (t.heap kp.2) = kp.1 := by
  cases hf : t.map.find name with
  | none =>
    have hsame : (t.map.remove name).2.2 = t.map := by
      rw [HashMap.find] at hf
      rw [HashMap.remove]
      split at hf
      · rfl
      · simp only [Option.map_eq_none_iff.mp hf]
    rw [hsame]
    exact ⟨t.wf, t.own⟩
  | some p =>
    obtain ⟨k', m', h, -, hwf, hperm⟩ := HashMap.remove_spec t.wf hf
    rw [h]
    exact ⟨hwf, fun kp hkp => t.own kp (hperm.mem_iff.mpr (List.mem_cons_of_mem _ hkp))⟩

/-- `HashMap_Remove`.  The object itself is freed by the caller. -/
def remove (t : Table key) (name : CStr) : Table key where
  map := (t.map.remove name).2.2
  heap := t.heap
  next := t.next
  wf := (t.remove_wf name).1
  own := (t.remove_wf name).2

@[simp] theorem heap_remove (t : Table key) (name : CStr) : (t.remove name).heap = t.heap := rfl

theorem find_remove {t : Table key} {name : CStr} {p : Ptr} (hf : t.find name = some p) :
    (t.remove name).find = Function.update t.find name none := by
  obtain ⟨k', m', h, heq, hwf, hperm⟩ := HashMap.remove_spec t.wf hf
  rw [stringKeysEqual_iff] at heq
  subst heq
  have hmap : (t.remove name).map = m' := by simp [remove, h]
  funext k
  refine Option.ext fun q => ?_
  by_cases hk : k = name
  · subst hk
    rw [Function.update_self]
    simp only [reduceCtorEq, iff_false]
    rw [find_eq_some_iff, hmap]
    intro hmem
    have hd := (hperm.pairwise_iff lawfulKeys_string.symm_false).mp t.wf.distinct
    have := (List.pairwise_cons.mp hd).1 _ hmem
    simp [stringKeysEqual] at this
  · rw [Function.update_of_ne hk, find_eq_some_iff, find_eq_some_iff, hmap, hperm.mem_iff,
      List.mem_cons]
    simp [hk]

theorem lookup_remove {t : Table key} {name : CStr} {p : Ptr} (hf : t.find name = some p) :
    (t.remove name).lookup = Function.update t.lookup name none := by
  funext k
  rw [lookup, find_remove hf, heap_remove]
  by_cases hk : k = name
  · rw [hk, Function.update_self, Function.update_self, Option.map_none]
  · rw [Function.update_of_ne hk, Function.update_of_ne hk, lookup]

/-! ### The objects on file -/

theorem mem_objs {t : Table key} {a : α} : a ∈ t.objs ↔ t.lookup (key a) = some a := by
  rw [objs, List.mem_map]
  constructor
  · rintro ⟨⟨k, p⟩, hmem, rfl⟩
    have hf := find_eq_some_iff.mpr hmem
    rw [show key (t.heap p) = k from key_of_find hf]
    exact lookup_of_find hf
  · intro h
    obtain ⟨p, hp, rfl⟩ := exists_find_of_lookup h
    exact ⟨_, find_eq_some_iff.mp hp, rfl⟩

/-- No two objects on file have the same name. -/
theorem nodup_keys (t : Table key) : (t.objs.map key).Nodup := by
  have hkeys : t.objs.map key = t.map.entries.map Prod.fst := by
    rw [objs, List.map_map]
    exact List.map_congr_left fun kp hkp => (t.own kp hkp).2
  rw [hkeys, List.Nodup, List.pairwise_map]
  exact t.wf.distinct.imp fun h heq => by simp [stringKeysEqual, heq] at h

theorem nodup_objs (t : Table key) : t.objs.Nodup := t.nodup_keys.of_map

/-- The names whose object passes a test are finite in number, and as many as the objects on file
that pass it. -/
theorem countP_objs (t : Table key) (p : α → Bool) :
    {n | ∃ a, t.lookup n = some a ∧ p a = true}.Finite ∧
      t.objs.countP p = {n | ∃ a, t.lookup n = some a ∧ p a = true}.ncard := by
  have hset : {n | ∃ a, t.lookup n = some a ∧ p a = true}
      = (((t.objs.filter p).map key).toFinset : Set CStr) := by
    ext n
    simp only [Set.mem_ofPred_eq, List.coe_toFinset, List.mem_map, List.mem_filter]
    constructor
    · rintro ⟨a, ha, hp⟩
      have hk := key_of_lookup ha
      exact ⟨a, ⟨mem_objs.mpr (hk ▸ ha), hp⟩, hk⟩
    · rintro ⟨a, ⟨ha, hp⟩, rfl⟩
      exact ⟨a, mem_objs.mp ha, hp⟩
  have hnd : ((t.objs.filter p).map key).Nodup :=
    t.nodup_keys.sublist (List.filter_sublist.map key)
  rw [hset, Set.ncard_coe_finset, List.toFinset_card_of_nodup hnd, List.length_map,
    List.countP_eq_length_filter]
  exact ⟨Finset.finite_toSet _, rfl⟩

end Table

end ChatProject
