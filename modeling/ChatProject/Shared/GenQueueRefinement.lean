import ChatProject.Lib.Machine
import ChatProject.Shared.GenQueue

/-!
# The ring buffer refines a bounded FIFO

`Shared/GenQueue.lean` says what each function of `genqueue.c` does to the items a queue holds.
Here the queue is seen through its interface, over any sequence of calls.

* `walk` — what a caller of `QueueForEach` expects: the action is called on one item after the
  other until a call returns 0.  `forEach_eq_walk` says that the loop does just that.
* `Serves` — what a queue of `n` places that holds the items `held` has to do, call by call.
  `WF.serves` says that a well-formed queue does it.
* `Fifo` — the law of whole runs: no call goes behind the end of the array, and what was accepted is
  what was taken out and then what is held.
* `create_fifo_iff` — a queue made by `QueueCreate(n)` keeps the law in every run exactly when the
  array it asks `malloc` for is as large as it needs: the product `_size * sizeof(void*)` wraps from
  `2 ^ 61` places on, and from then on some item is stored behind the end of the block.
-/

set_option autoImplicit false

namespace ChatProject

open Machine

/-! ## The interface -/

section
variable (α κ : Type)

/-- A call on a queue. -/
inductive QueueCall where
  | insert (item : Option α)
  | remove
  | isEmpty
  | forEach (action : Option α → κ → Nat × κ) (context : κ)

/-- What a call returns, and what it leaves in its output parameter or in the context. -/
inductive QueueReply where
  | inserted (result : QueueResult)
  | removed (result : QueueResult) (item : Option α)
  | empty (n : Nat)
  | visited (count : Nat) (context : κ)

end

namespace Queue

variable {α κ : Type}

/-- One call on a queue. -/
def call (q : Queue α) : QueueCall α κ → Option (Queue α × QueueReply α κ)
  | .insert item => (q.insert item).map fun r => (r.2, .inserted r.1)
  | .remove => q.remove.map fun r => (r.2.2, .removed r.1 r.2.1)
  | .isEmpty => some (q, .empty q.isEmpty)
  | .forEach action context => (q.forEach action context).map fun r => (q, .visited r.1 r.2)

/-- A call in a run; a run that has gone behind the end of the array goes nowhere. -/
def step (q : Option (Queue α)) (c : QueueCall α κ) :
    Option (Queue α) × Option (QueueReply α κ) :=
  match q.bind fun q => q.call c with
  | none => (none, none)
  | some (q, reply) => (some q, some reply)

/-- The calls that have returned, with their replies. -/
def returned (tr : List (QueueCall α κ × Option (QueueReply α κ))) :
    List (QueueCall α κ × QueueReply α κ) :=
  tr.filterMap fun x => x.2.map (x.1, ·)

/-- The calls of a run, with their replies. -/
def history (q : Queue α) (calls : List (QueueCall α κ)) : List (QueueCall α κ × QueueReply α κ) :=
  returned (trace step (some q) calls)

/-- The item a call put in. -/
def acceptedItem : QueueCall α κ × QueueReply α κ → Option (Option α)
  | (.insert item, .inserted .success) => some item
  | _ => none

/-- The item a call took out. -/
def takenItem : QueueCall α κ × QueueReply α κ → Option (Option α)
  | (.remove, .removed .success item) => some item
  | _ => none

/-- The items the queue accepted, in order. -/
def accepted (tr : List (QueueCall α κ × QueueReply α κ)) : List (Option α) :=
  tr.filterMap acceptedItem

/-- The items taken out of it, in order. -/
def taken (tr : List (QueueCall α κ × QueueReply α κ)) : List (Option α) := tr.filterMap takenItem

theorem accepted_concat (tr : List (QueueCall α κ × QueueReply α κ))
    (x : QueueCall α κ × QueueReply α κ) :
    accepted (tr ++ [x]) = accepted tr ++ (acceptedItem x).toList := by
  rw [accepted, List.filterMap_append, accepted]
  cases h : acceptedItem x <;> simp [h]

theorem taken_concat (tr : List (QueueCall α κ × QueueReply α κ))
    (x : QueueCall α κ × QueueReply α κ) :
    taken (tr ++ [x]) = taken tr ++ (takenItem x).toList := by
  rw [taken, List.filterMap_append, taken]
  cases h : takenItem x <;> simp [h]

/-! ## Walking over the items -/

/-- Call the action on one item after the other until a call returns 0: the items it was called on,
and the context left behind. -/
def walk (action : Option α → κ → Nat × κ) : List (Option α) → κ → List (Option α) × κ
  | [], context => ([], context)
  | item :: items, context =>
    let r := action item context
    if r.1 = 0 then ([item], r.2)
    else (item :: (walk action items r.2).1, (walk action items r.2).2)

/-- The loop, from the `i`-th held item on. -/
theorem forEachLoop_eq_walk {q : Queue α} (h : q.WF) (action : Option α → κ → Nat × κ)
    (rounds : Nat) : ∀ (i count : Nat) (context : κ),
      q.forEachLoop action rounds ((q.head + i) % q.size) count context
        = some (count + (walk action ((List.range' i rounds).map q.slot) context).1.length,
            (walk action ((List.range' i rounds).map q.slot) context).2) := by
  induction rounds with
  | zero => intro i count context; rfl
  | succ rounds ih =>
    intro i count context
    have hload : q.items.load ((q.head + i) % q.size) = some (q.slot i) :=
      Block.load_of_lt (by rw [h.slots_eq]; exact Nat.mod_lt _ h.pos)
    rw [forEachLoop, hload, List.range'_succ, List.map_cons, walk]
    by_cases hstop : (action (q.slot i) context).1 = 0
    · rw [if_pos hstop]
      exact if_pos hstop
    · rw [if_neg hstop, List.length_cons, ← Nat.add_assoc, Nat.add_right_comm, ← ih (i + 1),
        ← Nat.add_assoc, ← Nat.mod_add_mod (q.head + i)]
      exact if_neg hstop

/-- **`QueueForEach` walks over the held items, oldest first.** -/
theorem forEach_eq_walk {q : Queue α} (h : q.WF) (action : Option α → κ → Nat × κ)
    (context : κ) :
    q.forEach action context
      = some ((walk action ((List.range q.numOfElements).map q.slot) context).1.length,
          (walk action ((List.range q.numOfElements).map q.slot) context).2) := by
  have hloop := forEachLoop_eq_walk h action q.numOfElements 0 0 context
  rw [Nat.add_zero, Nat.mod_eq_of_lt h.head_lt, Nat.zero_add, ← List.range_eq_range'] at hloop
  exact hloop

/-! ## What each call has to do -/

/-- What a queue of `n` places that holds the items `held`, oldest first, owes its callers. -/
structure Serves (n : Nat) (q : Queue α) (held : List α) : Prop where
  head_lt : q.head < n
  tail_lt : q.tail < n
  num_le : q.numOfElements ≤ n
  tail_eq : q.tail = (q.head + q.numOfElements) % n
  num_eq : q.numOfElements = held.length
  /-- While there is room an item is accepted. -/
  insert_room : ∀ a, held.length < n → ∃ q', q.insert (some a) = some (.success, q')
  /-- A full queue says so and stays as it was. -/
  insert_full : ∀ a, ¬ held.length < n → q.insert (some a) = some (.overflowError, q)
  /-- What is taken out is the oldest item. -/
  remove_oldest : ∀ a rest, held = a :: rest → ∃ q', q.remove = some (.success, some a, q')
  /-- An empty queue says so and stays as it was. -/
  remove_empty : held = [] → q.remove = some (.dataNotFoundError, none, q)
  isEmpty_iff : q.isEmpty ≠ 0 ↔ held = []
  /-- The action is called on the held items in order, up to the first call that returns 0, and the
  calls are counted. -/
  forEach_walk : ∀ (κ : Type) (action : Option α → κ → Nat × κ) (context : κ),
    q.forEach action context = some ((walk action (held.map some) context).1.length,
      (walk action (held.map some) context).2)

theorem map_slot_eq {q : Queue α} (h : q.WF) :
    (List.range q.numOfElements).map q.slot = q.toList.map some := by
  have hslots : ∀ l : List Nat, (∀ i ∈ l, (q.slot i).isSome) →
      l.map q.slot = (l.filterMap q.slot).map some := by
    intro l hl
    induction l with
    | nil => rfl
    | cons i l ih =>
      obtain ⟨a, ha⟩ := Option.isSome_iff_exists.mp (hl i List.mem_cons_self)
      rw [List.map_cons, ih fun j hj => hl j (List.mem_cons_of_mem i hj),
        List.filterMap_cons_some ha, List.map_cons, ha]
  exact hslots _ fun i hi => h.held i (List.mem_range.mp hi)

/-- **A well-formed queue serves.** -/
theorem WF.serves {q : Queue α} (h : q.WF) : Serves q.size q q.toList := by
  have hlen := length_toList h
  have hnil : q.toList = [] ↔ q.numOfElements = 0 := by
    rw [← hlen, List.length_eq_zero_iff]
  have hle := h.num_le
  refine ⟨h.head_lt, ?_, hle, h.tail_eq, hlen.symm, ?_, ?_, ?_, ?_, ?_, ?_⟩
  · rw [h.tail_eq]
    exact Nat.mod_lt _ h.pos
  · intro a hroom
    exact ⟨_, insert_of_room (by omega) h.tail_lt⟩
  · intro a hroom
    exact insert_of_full (by omega)
  · intro a rest hlist
    have hheld : q.numOfElements ≠ 0 := by
      rw [← hlen, hlist]
      exact Nat.succ_ne_zero _
    obtain ⟨b, hrem, hcons⟩ := remove_of_held h hheld
    rw [hlist, List.cons.injEq] at hcons
    exact ⟨_, hcons.1 ▸ hrem⟩
  · intro hempty
    exact remove_of_empty (hnil.mp hempty)
  · rw [hnil, isEmpty]
    split <;> simp_all
  · intro κ action context
    rw [forEach_eq_walk h, map_slot_eq h]

/-! ## Whole runs -/

/-- The law of a bounded FIFO, for the queue `q` after the calls and replies `tr`: no call went
behind the end of the array, what was accepted is what was taken out and then what is held, and the
queue serves accordingly. -/
def Fifo (n : Nat) (q : Option (Queue α)) (tr : List (QueueCall α κ × QueueReply α κ)) : Prop :=
  ∃ q' held, q = some q' ∧ accepted tr = taken tr ++ held.map some ∧ Serves n q' held

/-- What a run keeps of a queue of `n` places. -/
structure Holds (n : Nat) (q : Queue α) (tr : List (QueueCall α κ × QueueReply α κ)) : Prop where
  wf : q.WF
  size_eq : q.size = n
  accepted_eq : accepted tr = taken tr ++ q.toList.map some

theorem Holds.fifo {n : Nat} {q : Queue α} {tr : List (QueueCall α κ × QueueReply α κ)}
    (h : Holds n q tr) : Fifo n (some q) tr :=
  ⟨q, q.toList, rfl, h.accepted_eq, h.size_eq ▸ h.wf.serves⟩

section
variable {n : Nat} {q : Queue α} {tr : List (QueueCall α κ × QueueReply α κ)} (h : Holds n q tr)
include h

/-- A call that only looks. -/
theorem Holds.look {x : QueueCall α κ × QueueReply α κ} (hacc : acceptedItem x = none)
    (htak : takenItem x = none) : Holds n q (tr ++ [x]) := by
  refine ⟨h.wf, h.size_eq, ?_⟩
  rw [accepted_concat, taken_concat, hacc, htak]
  simpa using h.accepted_eq

/-- **One call.**  It has a result, and the queue holds what it should. -/
theorem Holds.call (c : QueueCall α κ) :
    ∃ q' reply, q.call c = some (q', reply) ∧ Holds n q' (tr ++ [(c, reply)]) := by
  cases c with
  | insert item =>
    cases item with
    | none => exact ⟨q, _, by rw [Queue.call, insert_null]; rfl, h.look rfl rfl⟩
    | some a =>
      obtain ⟨-, hins⟩ | ⟨-, hins, hwf, hlist⟩ := h.wf.insert_cases a
      · exact ⟨q, _, by rw [Queue.call, hins]; rfl, h.look rfl rfl⟩
      · refine ⟨q.pushed a, _, by rw [Queue.call, hins]; rfl, hwf, h.size_eq, ?_⟩
        rw [accepted_concat, taken_concat, h.accepted_eq, hlist]
        simp [acceptedItem, takenItem]
  | remove =>
    obtain ⟨-, hrem⟩ | ⟨-, a, hrem, hwf, hlist⟩ := h.wf.remove_cases
    · exact ⟨q, _, by rw [Queue.call, hrem]; rfl, h.look rfl rfl⟩
    · refine ⟨q.popped, _, by rw [Queue.call, hrem]; rfl, hwf, h.size_eq, ?_⟩
      rw [accepted_concat, taken_concat, h.accepted_eq, hlist]
      simp [acceptedItem, takenItem]
  | isEmpty => exact ⟨q, _, rfl, h.look rfl rfl⟩
  | forEach action context =>
    exact ⟨q, _, by rw [Queue.call, forEach_eq_walk h.wf]; rfl, h.look rfl rfl⟩

end

theorem returned_concat (tr : List (QueueCall α κ × Option (QueueReply α κ))) (c : QueueCall α κ)
    (reply : QueueReply α κ) :
    returned (tr ++ [(c, some reply)]) = returned tr ++ [(c, reply)] := by
  rw [returned, List.filterMap_append, returned]
  rfl

/-- **A run.**  It never goes behind the end of the array. -/
theorem holds_of_create {n : Nat} {al : Alloc} {q : Queue α} (hn : n * pointerSize < UInt64.size)
    (hq : (create n al).1 = some q) (calls : List (QueueCall α κ)) :
    ∃ q', run step (some q) calls = some q' ∧ Holds n q' (q.history calls) := by
  obtain ⟨hwf, hnil, hsize⟩ := create_spec hn hq
  refine run_history (p := fun _ => True)
    (R := fun s tr => ∃ q', s = some q' ∧ Holds n q' (returned tr)) ?_ (fun _ _ => trivial)
    ⟨q, rfl, hwf, hsize, by rw [hnil]; rfl⟩
  rintro s tr c - ⟨q, rfl, h⟩
  obtain ⟨q', reply, hcall, h'⟩ := h.call c
  have hstep : step (some q) c = (some q', some reply) := by
    simp only [step, Option.bind_some, hcall]
  exact ⟨q', by rw [hstep], by rwa [hstep, returned_concat]⟩

/-! ## When the array is too small -/

/-- Past that, the product wraps and the array is too small. -/
theorem arraySlots_lt {n : Nat} (h : ¬ n * pointerSize < UInt64.size) : arraySlots n < n := by
  have hmod : sizeMul n pointerSize < UInt64.size := Nat.mod_lt _ (by decide)
  rw [arraySlots]
  exact Nat.div_lt_of_lt_mul (by rw [Nat.mul_comm]; omega)

/-- A new queue after `k` insertions, as long as they find room in the array. -/
theorem run_inserts {n : Nat} {al : Alloc} {q : Queue α} (hq : (create n al).1 = some q) (a : α)
    (hsmall : arraySlots n < n) (k : Nat) (hk : k ≤ arraySlots n) :
    ∃ q', run step (some q) (List.replicate k (QueueCall.insert (some a) : QueueCall α κ)) =
        some q' ∧
      q'.size = n ∧ q'.tail = k ∧ q'.numOfElements = k ∧ q'.items.slots = arraySlots n := by
  induction k with
  | zero =>
    obtain ⟨-, rfl⟩ := eq_of_create hq
    exact ⟨_, rfl, rfl, rfl, rfl, rfl⟩
  | succ k ih =>
    obtain ⟨q', hrun, hsize, htail, hnum, hslots⟩ := ih (by omega)
    have hins : q'.insert (some a) = some (.success, q'.pushed a) :=
      insert_of_room (by omega) (by omega)
    refine ⟨q'.pushed a, ?_, hsize, ?_, ?_, hslots⟩
    · rw [List.replicate_succ', run_append, hrun]
      simp only [run, List.foldl_cons, List.foldl_nil, step, Option.bind_some, call, hins,
        Option.map_some]
    · show (q'.tail + 1) % q'.size = k + 1
      rw [htail, hsize, Nat.mod_eq_of_lt (by omega)]
    · show q'.numOfElements + 1 = k + 1
      rw [hnum]

/-- The first item for which there is no slot is stored behind the end of the array. -/
theorem run_inserts_outside {n : Nat} {al : Alloc} {q : Queue α} (hq : (create n al).1 = some q)
    (a : α) (hsmall : arraySlots n < n) :
    run step (some q)
      (List.replicate (arraySlots n + 1) (QueueCall.insert (some a) : QueueCall α κ)) = none := by
  obtain ⟨q', hrun, hsize, htail, hnum, hslots⟩ :=
    run_inserts (κ := κ) hq a hsmall (arraySlots n) (Nat.le_refl _)
  have hins : q'.insert (some a) = none := insert_of_outside (by omega) (by omega)
  rw [List.replicate_succ', run_append, hrun]
  simp only [run, List.foldl_cons, List.foldl_nil, step, Option.bind_some, call, hins,
    Option.map_none]

/-- **A queue made by `QueueCreate(n)` is a bounded FIFO, whatever is called on it, exactly when the
size of its array in bytes is a `size_t`.** -/
theorem create_fifo_iff [Inhabited α] {n : Nat} {al : Alloc} {q : Queue α}
    (hq : (create n al).1 = some q) :
    (∀ calls : List (QueueCall α κ), Fifo n (run step (some q) calls) (q.history calls)) ↔
      n * pointerSize < UInt64.size := by
  constructor
  · intro h
    by_contra hn
    obtain ⟨q', held, hrun, -⟩ := h (List.replicate (arraySlots n + 1) (.insert (some default)))
    rw [run_inserts_outside hq default (arraySlots_lt hn)] at hrun
    exact absurd hrun (by simp)
  · intro hn calls
    obtain ⟨q', hrun, hholds⟩ := holds_of_create hn hq calls
    rw [hrun]
    exact hholds.fifo

/-- The queue of the address pool, of 255 places. -/
theorem create_pool_fifo :
    ∃ q : Queue Nat, (create 255 [] : Option (Queue Nat) × Alloc).1 = some q ∧
      ∀ calls : List (QueueCall Nat Nat), Fifo 255 (run step (some q) calls) (q.history calls) := by
  have hq : (create 255 [] : Option (Queue Nat) × Alloc).1 =
      some ⟨⟨255, fun _ => none⟩, 255, 0, 0, 0⟩ := rfl
  exact ⟨_, hq, (create_fifo_iff hq).mpr (by decide)⟩

/-- `QueueCreate(2305843009213693952)` asks for an array of 0 bytes, and the first item is stored
behind its end. -/
theorem create_wrapped_not_fifo :
    ∃ q : Queue Nat, (create 2305843009213693952 [] : Option (Queue Nat) × Alloc).1 = some q ∧
      q.items.slots = 0 ∧ q.insert (some 7) = none ∧
      ¬ ∀ calls : List (QueueCall Nat Nat),
        Fifo 2305843009213693952 (run step (some q) calls) (q.history calls) := by
  refine ⟨⟨⟨0, fun _ => none⟩, 2305843009213693952, 0, 0, 0⟩, rfl, rfl, rfl, fun h => ?_⟩
  obtain ⟨q', held, hrun, -⟩ := h [.insert (some 7)]
  exact absurd (show none = some q' from hrun) (by simp)

end Queue

end ChatProject
