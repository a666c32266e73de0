import Mathlib.Data.Nat.ModEq
import Mathlib.Data.List.Range
import ChatProject.Shared.CRuntime

/-!
# The ring buffer

`shared/adt/genqueue.c`: a FIFO of bounded capacity in a circular array.  Full and empty both have
`head = tail`, and only the element counter tells them apart.

The array is the block that `malloc` has returned, and an access behind its end has no meaning in C:
`Queue.insert`, `Queue.remove` and `Queue.forEach` have no result there.

`Queue.WF` is the representation invariant and `Queue.toList` the abstraction: the held items,
oldest first.  On a well-formed queue `Queue.insert` appends to that list, `Queue.remove` takes its
head, and each refuses exactly when the list is full or empty (`WF.insert_cases`,
`WF.remove_cases`) — which is all the rest of the program needs to know.
-/

set_option autoImplicit false

namespace ChatProject

/-- `QueueResult`. -/
inductive QueueResult where
  | success
  | uninitializedError
  | overflowError
  | dataNotFoundError
  | dataUninitializedError
deriving DecidableEq, Repr

/-- `struct Queue`.  An item is a pointer, so a slot may hold NULL; a slot never written holds it
too. -/
structure Queue (α : Type) where
  /-- `m_items`. -/
  items : Block (Option α)
  /-- `m_size`. -/
  size : Nat
  /-- `m_head`. -/
  head : Nat
  /-- `m_tail`. -/
  tail : Nat
  /-- `m_numOfElements`. -/
  numOfElements : Nat

namespace Queue

variable {α : Type}

/-- `sizeof(void*)`. -/
def pointerSize : Nat := 8

/-- The slots of the block `malloc(_size * sizeof(void*))` returns. -/
def arraySlots (size : Nat) : Nat := sizeMul size pointerSize / pointerSize

/-- `QueueCreate`: one block for the header and one for the array. -/
def create (size : Nat) (al : Alloc) : Option (Queue α) × Alloc :=
  if size = 0 then (none, al)
  else
    match malloc al with
    | (false, al) => (none, al)
    | (true, al) =>
      match malloc al with
      | (false, al) => (none, al)
      | (true, al) => (some ⟨⟨arraySlots size, fun _ => none⟩, size, 0, 0, 0⟩, al)

/-- The queue with one item more. -/
def pushed (q : Queue α) (a : α) : Queue α :=
  { q with
    items := { q.items with cells := Function.update q.items.cells q.tail (some a) }
    tail := (q.tail + 1) % q.size
    numOfElements := q.numOfElements + 1 }

/-- The queue without its oldest item. -/
def popped (q : Queue α) : Queue α :=
  { q with head := (q.head + 1) % q.size, numOfElements := q.numOfElements - 1 }

/-- `QueueInsert`. -/
def insert (q : Queue α) (item : Option α) : Option (QueueResult × Queue α) :=
  if item = none then some (.dataUninitializedError, q)
  else if q.numOfElements = q.size then some (.overflowError, q)
  else
    (q.items.store q.tail item).map fun items => (.success,
      { q with
        items
        tail := (q.tail + 1) % q.size
        numOfElements := q.numOfElements + 1 })

/-- `QueueRemove`: the item, when there is one. -/
def remove (q : Queue α) : Option (QueueResult × Option α × Queue α) :=
  if q.numOfElements = 0 then some (.dataNotFoundError, none, q)
  else
    (q.items.load q.head).map fun item => (.success, item,
      { q with
        head := (q.head + 1) % q.size
        numOfElements := q.numOfElements - 1 })

/-- `QueueIsEmpty`: non-zero when nothing is held. -/
def isEmpty (q : Queue α) : Nat := if q.numOfElements = 0 then 1 else 0

/-- The loop of `QueueForEach` with `rounds` rounds to go, at `idx`.  The action is handed an item
and the context behind its pointer, and leaves a context and a verdict. -/
def forEachLoop {κ : Type} (q : Queue α) (action : Option α → κ → Nat × κ) :
    (rounds idx count : Nat) → κ → Option (Nat × κ)
  | 0, _, count, context => some (count, context)
  | rounds + 1, idx, count, context =>
    match q.items.load idx with
    | none => none
    | some item =>
      let r := action item context
      if r.1 = 0 then some (count + 1, r.2)
      else q.forEachLoop action rounds ((idx + 1) % q.size) (count + 1) r.2

/-- `QueueForEach`: the number of calls, and the context they leave behind. -/
def forEach {κ : Type} (q : Queue α) (action : Option α → κ → Nat × κ) (context : κ) :
    Option (Nat × κ) :=
  q.forEachLoop action q.numOfElements q.head 0 context

/-! ## The representation -/

/-- The `i`-th held item, counted from the oldest. -/
def slot (q : Queue α) (i : Nat) : Option α := q.items.cells ((q.head + i) % q.size)

/-- The held items, oldest first. -/
def toList (q : Queue α) : List α := (List.range q.numOfElements).filterMap q.slot

/-- The representation invariant. -/
structure WF (q : Queue α) : Prop where
  /-- The capacity is positive. -/
  pos : 0 < q.size
  /-- The array has that many slots. -/
  slots_eq : q.items.slots = q.size
  /-- The front is inside the array. -/
  head_lt : q.head < q.size
  /-- No more items are held than fit. -/
  num_le : q.numOfElements ≤ q.size
  /-- The insertion point stands right behind the last held item. -/
  tail_eq : q.tail = (q.head + q.numOfElements) % q.size
  /-- No NULL is held. -/
  held : ∀ i, i < q.numOfElements → (q.slot i).isSome

/-- Two held positions share a slot only if they are the same position. -/
theorem slot_index_ne {n h i j : Nat} (hi : i < j) (hj : j < n) : (h + i) % n ≠ (h + j) % n := by
  intro heq
  have hmod : i ≡ j [MOD n] := Nat.ModEq.add_left_cancel' h heq
  rw [Nat.ModEq, Nat.mod_eq_of_lt (hi.trans hj), Nat.mod_eq_of_lt hj] at hmod
  omega

theorem length_toList {q : Queue α} (h : q.WF) : q.toList.length = q.numOfElements := by
  have hall : ∀ n, n ≤ q.numOfElements → ((List.range n).filterMap q.slot).length = n := by
    intro n hn
    induction n with
    | zero => rfl
    | succ n ih =>
      obtain ⟨a, ha⟩ := Option.isSome_iff_exists.mp (h.held n (by omega))
      rw [List.range_succ, List.filterMap_append, List.length_append, ih (by omega)]
      simp [ha]
  exact hall _ (Nat.le_refl _)

/-! ## Creation -/

theorem wf_new {n : Nat} (hn : 0 < n) : (⟨⟨n, fun _ => none⟩, n, 0, 0, 0⟩ : Queue α).WF :=
  ⟨hn, rfl, hn, Nat.zero_le _, by simp, by intro i hi; simp at hi⟩

theorem eq_of_create {n : Nat} {al : Alloc} {q : Queue α} (h : (create n al).1 = some q) :
    0 < n ∧ q = ⟨⟨arraySlots n, fun _ => none⟩, n, 0, 0, 0⟩ := by
  rw [create] at h
  split at h
  · exact absurd h (by simp)
  rename_i hn
  split at h
  · exact absurd h (by simp)
  split at h
  · exact absurd h (by simp)
  exact ⟨by omega, (Option.some.inj h).symm⟩

/-- The array has a slot for every item, as long as its size in bytes is a `size_t`. -/
theorem arraySlots_eq {n : Nat} (h : n * pointerSize < UInt64.size) : arraySlots n = n := by
  rw [arraySlots, sizeMul_eq h]
  exact Nat.mul_div_cancel n (by decide)

theorem create_spec {n : Nat} {al : Alloc} {q : Queue α} (hn : n * pointerSize < UInt64.size)
    (h : (create n al).1 = some q) : q.WF ∧ q.toList = [] ∧ q.size = n := by
  obtain ⟨hpos, rfl⟩ := eq_of_create h
  rw [arraySlots_eq hn]
  exact ⟨wf_new hpos, rfl, rfl⟩

/-! ## Insertion -/

theorem insert_null (q : Queue α) : q.insert none = some (.dataUninitializedError, q) := if_pos rfl

/-- A full queue refuses the item and stays as it was. -/
theorem insert_of_full {q : Queue α} {a : α} (hfull : q.numOfElements = q.size) :
    q.insert (some a) = some (.overflowError, q) := by
  rw [insert, if_neg (by simp), if_pos hfull]

theorem insert_of_room {q : Queue α} {a : α} (hroom : q.numOfElements ≠ q.size)
    (htail : q.tail < q.items.slots) : q.insert (some a) = some (.success, q.pushed a) := by
  rw [insert, if_neg (by simp), if_neg hroom, Block.store_of_lt htail]
  rfl

/-- There is no telling what comes of a store behind the end of the array. -/
theorem insert_of_outside {q : Queue α} {a : α} (hroom : q.numOfElements ≠ q.size)
    (htail : ¬ q.tail < q.items.slots) : q.insert (some a) = none := by
  rw [insert, if_neg (by simp), if_neg hroom, Block.store_of_not_lt htail]
  rfl

theorem WF.tail_lt {q : Queue α} (h : q.WF) : q.tail < q.items.slots := by
  rw [h.slots_eq, h.tail_eq]
  exact Nat.mod_lt _ h.pos

section
variable {q : Queue α} (h : q.WF) {a : α} (hroom : q.numOfElements ≠ q.size)
include h hroom

theorem slot_pushed_of_lt {i : Nat} (hi : i < q.numOfElements) :
    (q.pushed a).slot i = q.slot i := by
  have hne : (q.head + i) % q.size ≠ q.tail := by
    rw [h.tail_eq]
    exact slot_index_ne hi (by have := h.num_le; omega)
  exact Function.update_of_ne hne _ _

omit hroom in
theorem slot_pushed_last : (q.pushed a).slot q.numOfElements = some a := by
  have hlast : (q.head + q.numOfElements) % q.size = q.tail := h.tail_eq.symm
  rw [slot, pushed]
  simp only [hlast, Function.update_self]

/-- **Insertion appends.** -/
theorem toList_pushed : (q.pushed a).toList = q.toList ++ [a] := by
  rw [toList, toList, show (q.pushed a).numOfElements = q.numOfElements + 1 from rfl,
    List.range_succ, List.filterMap_append]
  congr 1
  · refine List.filterMap_congr fun i hi => ?_
    exact slot_pushed_of_lt h hroom (List.mem_range.mp hi)
  · simp [slot_pushed_last h]

theorem WF.pushed : (q.pushed a).WF := by
  have hle := h.num_le
  refine ⟨h.pos, h.slots_eq, h.head_lt, ?_, ?_, fun i hi => ?_⟩
  · show q.numOfElements + 1 ≤ q.size
    omega
  · show (q.tail + 1) % q.size = (q.head + (q.numOfElements + 1)) % q.size
    rw [h.tail_eq, Nat.mod_add_mod, Nat.add_assoc]
  · rcases Nat.lt_succ_iff_lt_or_eq.mp hi with hlt | rfl
    · rw [slot_pushed_of_lt h hroom hlt]
      exact h.held i hlt
    · rw [slot_pushed_last h]
      rfl

end

/-- **What `QueueInsert` does to a well-formed queue.** -/
theorem WF.insert_cases {q : Queue α} (h : q.WF) (a : α) :
    q.numOfElements = q.size ∧ q.insert (some a) = some (.overflowError, q) ∨
      q.numOfElements ≠ q.size ∧ q.insert (some a) = some (.success, q.pushed a) ∧
        (q.pushed a).WF ∧ (q.pushed a).toList = q.toList ++ [a] := by
  by_cases hfull : q.numOfElements = q.size
  · exact .inl ⟨hfull, insert_of_full hfull⟩
  · exact .inr ⟨hfull, insert_of_room hfull h.tail_lt, h.pushed hfull, toList_pushed h hfull⟩

theorem WF.isSome_insert {q : Queue α} (h : q.WF) (a : α) : (q.insert (some a)).isSome = true := by
  obtain ⟨-, hins⟩ | ⟨-, hins, -⟩ := h.insert_cases a <;> rw [hins] <;> rfl

theorem WF.get_insert {q : Queue α} (h : q.WF) (a : α) :
    ((q.insert (some a)).get (h.isSome_insert a)).2.WF ∧
      ((q.insert (some a)).get (h.isSome_insert a)).2.size = q.size := by
  obtain ⟨-, hins⟩ | ⟨-, hins, hwf, -⟩ := h.insert_cases a <;>
    rw [Option.get_of_eq_some (h.isSome_insert a) hins]
  · exact ⟨h, rfl⟩
  · exact ⟨hwf, rfl⟩

/-! ## Removal -/

/-- An empty queue has nothing to give and stays as it was. -/
theorem remove_of_empty {q : Queue α} (hempty : q.numOfElements = 0) :
    q.remove = some (.dataNotFoundError, none, q) :=
  if_pos hempty

theorem slot_popped (q : Queue α) (i : Nat) : q.popped.slot i = q.slot (i + 1) := by
  rw [slot, slot]
  simp only [popped]
  rw [Nat.mod_add_mod, Nat.add_assoc, Nat.add_comm 1 i]

section
variable {q : Queue α} (h : q.WF) (hheld : q.numOfElements ≠ 0)
include h hheld

theorem WF.popped : q.popped.WF := by
  have hle := h.num_le
  refine ⟨h.pos, h.slots_eq, Nat.mod_lt _ h.pos, ?_, ?_, fun i hi => ?_⟩
  · show q.numOfElements - 1 ≤ q.size
    omega
  · show q.tail = ((q.head + 1) % q.size + (q.numOfElements - 1)) % q.size
    rw [Nat.mod_add_mod, h.tail_eq,
      show q.head + 1 + (q.numOfElements - 1) = q.head + q.numOfElements by omega]
  · rw [slot_popped]
    exact h.held (i + 1) (by simp only [Queue.popped] at hi; omega)

/-- **Removal takes the oldest item.** -/
theorem remove_of_held :
    ∃ a, q.remove = some (.success, some a, q.popped) ∧ q.toList = a :: q.popped.toList := by
  obtain ⟨a, ha⟩ := Option.isSome_iff_exists.mp (h.held 0 (by omega))
  have hfront : q.items.load q.head = some (some a) := by
    rw [slot, Nat.add_zero, Nat.mod_eq_of_lt h.head_lt] at ha
    rw [Block.load_of_lt (by rw [h.slots_eq]; exact h.head_lt), ha]
  have hnum : q.numOfElements = q.popped.numOfElements + 1 := by
    simp only [Queue.popped]
    omega
  refine ⟨a, ?_, ?_⟩
  · rw [remove, if_neg hheld, hfront]
    rfl
  · have hrest : (List.range q.popped.numOfElements).filterMap (q.slot ∘ Nat.succ)
        = q.popped.toList :=
      List.filterMap_congr fun i _ => (slot_popped q i).symm
    rw [toList, hnum, List.range_succ_eq_map, List.filterMap_cons_some ha, List.filterMap_map,
      hrest]

end

/-- **What `QueueRemove` does to a well-formed queue.** -/
theorem WF.remove_cases {q : Queue α} (h : q.WF) :
    q.numOfElements = 0 ∧ q.remove = some (.dataNotFoundError, none, q) ∨
      q.numOfElements ≠ 0 ∧ ∃ a, q.remove = some (.success, some a, q.popped) ∧ q.popped.WF ∧
        q.toList = a :: q.popped.toList := by
  by_cases hempty : q.numOfElements = 0
  · exact .inl ⟨hempty, remove_of_empty hempty⟩
  · obtain ⟨a, hrem, hlist⟩ := remove_of_held h hempty
    exact .inr ⟨hempty, a, hrem, h.popped hempty, hlist⟩

theorem WF.isSome_remove {q : Queue α} (h : q.WF) : q.remove.isSome = true := by
  obtain ⟨-, hrem⟩ | ⟨-, a, hrem, -⟩ := h.remove_cases <;> rw [hrem] <;> rfl

theorem WF.get_remove {q : Queue α} (h : q.WF) :
    (q.remove.get h.isSome_remove).2.2.WF ∧ (q.remove.get h.isSome_remove).2.2.size = q.size := by
  obtain ⟨-, hrem⟩ | ⟨-, a, hrem, hwf, -⟩ := h.remove_cases <;>
    rw [Option.get_of_eq_some h.isSome_remove hrem]
  · exact ⟨h, rfl⟩
  · exact ⟨hwf, rfl⟩

end Queue

end ChatProject
