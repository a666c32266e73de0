import ChatProject.Lib.LinkedRing

/-!
# The doubly linked list

`shared/adt/gen_dlist.c`: a circular list around a sentinel node, which stands for both ends.  The
nodes live in a heap that maps an address to the node at it, and to nothing where no block is
allocated; following a pointer that leads nowhere is a fault (`none`), so a function that returns
has only touched memory it may touch.

* `nodeLinkBefore`, `nodeUnlink` — the two splices, assignment by assignment.
* `DList` — a list: the heap its nodes are in, and the address of its sentinel.  Its functions are
  those of the source; what `malloc` returns is an argument.
* `DList.Represents` — the list is a ring of these nodes with these data.  `Represents.link` and
  `Represents.unlink` say what the splices do to it, and that they do not fault.
-/

set_option autoImplicit false

namespace ChatProject

/-- `Node`; its links may be NULL, and so may its data. -/
structure Node (P α : Type) where
  data : Option α
  next : Option P
  prev : Option P
  /-- Set only for the sentinel of a list. -/
  isSentinel : Bool

/-- The node at each address, where one is allocated. -/
abbrev NodeHeap (P α : Type) := P → Option (Node P α)

namespace NodeHeap

variable {P α : Type} (h : NodeHeap P α)

/-! ## Links and what they hang between -/

/-- The node after `x`. -/
def next (x : P) : Option P := (h x).bind Node.next

/-- The node before `x`. -/
def prev (x : P) : Option P := (h x).bind Node.prev

/-- What a node holds besides its links. -/
def body (x : P) : Option (Option α × Bool) := (h x).map fun n => (n.data, n.isSentinel)

section
variable {h}

theorem isSome_of_body {x : P} {b : Option α × Bool} (hb : h.body x = some b) :
    ∃ n, h x = some n ∧ n.data = b.1 ∧ n.isSentinel = b.2 := by
  obtain ⟨n, hn, rfl⟩ := Option.map_eq_some_iff.mp hb
  exact ⟨n, hn, rfl, rfl⟩

theorem next_of_some {x : P} {n : Node P α} (hn : h x = some n) : h.next x = n.next := by
  rw [next, hn, Option.bind_some]

theorem prev_of_some {x : P} {n : Node P α} (hn : h x = some n) : h.prev x = n.prev := by
  rw [prev, hn, Option.bind_some]

theorem body_eq_none_iff {x : P} : h.body x = none ↔ h x = none := Option.map_eq_none_iff

/-- Which blocks are allocated can be told from the bodies. -/
theorem ne_none_of_body {h' : NodeHeap P α} (hb : h'.body = h.body) {x : P} (hx : h x ≠ none) :
    h' x ≠ none := by
  rw [Ne, ← body_eq_none_iff, hb, body_eq_none_iff]
  exact hx

end

variable [DecidableEq P]

/-! ## Assignments -/

/-- `p->data = v`. -/
def setData (p : P) (v : Option α) : Option (NodeHeap P α) :=
  (h p).map fun n => Function.update h p (some { n with data := v })

/-- `p->next = v`. -/
def setNext (p : P) (v : Option P) : Option (NodeHeap P α) :=
  (h p).map fun n => Function.update h p (some { n with next := v })

/-- `p->prev = v`. -/
def setPrev (p : P) (v : Option P) : Option (NodeHeap P α) :=
  (h p).map fun n => Function.update h p (some { n with prev := v })

/-- `free(p)`. -/
def free (p : P) : NodeHeap P α := Function.update h p none

/-- `NodeLinkBefore`. -/
def nodeLinkBefore (pos n : P) : Option (NodeHeap P α) := do
  let p ← h pos
  let h ← h.setPrev n p.prev
  let h ← h.setNext n (some pos)
  let p ← h pos
  let q ← p.prev
  let h ← h.setNext q (some n)
  h.setPrev pos (some n)

/-- `NodeUnlink`. -/
def nodeUnlink (n : P) : Option (NodeHeap P α) := do
  let m ← h n
  let q ← m.prev
  let h ← h.setNext q m.next
  let m ← h n
  let b ← m.next
  let h ← h.setPrev b m.prev
  let h ← h.setPrev n none
  h.setNext n none

variable {h}

/-- A function of the node that is at each address, after the node at one has changed. -/
theorem view_update {β : Type} (f : Option (Node P α) → β) (p : P) (n : Option (Node P α)) :
    (fun x => f (Function.update h p n x)) = Function.update (fun x => f (h x)) p (f n) := by
  funext x
  by_cases hx : x = p
  · rw [hx, Function.update_self, Function.update_self]
  · rw [Function.update_of_ne hx, Function.update_of_ne hx]

theorem setNext_spec {p : P} (hp : h p ≠ none) (v : Option P) :
    ∃ h', h.setNext p v = some h' ∧ h'.next = Function.update h.next p v ∧ h'.prev = h.prev ∧
      h'.body = h.body := by
  obtain ⟨n, hn⟩ := Option.ne_none_iff_exists'.mp hp
  refine ⟨_, by rw [setNext, hn, Option.map_some], ?_, ?_, ?_⟩
  · exact view_update (Option.bind · Node.next) p _
  · refine (view_update (Option.bind · Node.prev) p _).trans ?_
    exact Function.update_eq_self_iff.mpr (prev_of_some hn).symm
  · refine (view_update (Option.map fun n => (n.data, n.isSentinel)) p _).trans ?_
    exact Function.update_eq_self_iff.mpr (by simp [hn])

theorem setPrev_spec {p : P} (hp : h p ≠ none) (v : Option P) :
    ∃ h', h.setPrev p v = some h' ∧ h'.next = h.next ∧ h'.prev = Function.update h.prev p v ∧
      h'.body = h.body := by
  obtain ⟨n, hn⟩ := Option.ne_none_iff_exists'.mp hp
  refine ⟨_, by rw [setPrev, hn, Option.map_some], ?_, ?_, ?_⟩
  · refine (view_update (Option.bind · Node.next) p _).trans ?_
    exact Function.update_eq_self_iff.mpr (next_of_some hn).symm
  · exact view_update (Option.bind · Node.prev) p _
  · refine (view_update (Option.map fun n => (n.data, n.isSentinel)) p _).trans ?_
    exact Function.update_eq_self_iff.mpr (by simp [hn])

/-- **What `NodeLinkBefore` does to the links.** -/
theorem nodeLinkBefore_spec {pos n q : P} (hpos : h pos ≠ none) (hn : h n ≠ none)
    (hne : pos ≠ n) (hq : h.prev pos = some q) (hqs : h q ≠ none) :
    ∃ h', h.nodeLinkBefore pos n = some h' ∧
      h'.next = Function.update (Function.update h.next n (some pos)) q (some n) ∧
      h'.prev = Function.update (Function.update h.prev n (some q)) pos (some n) ∧
      h'.body = h.body := by
  obtain ⟨p, hp⟩ := Option.ne_none_iff_exists'.mp hpos
  rw [prev_of_some hp] at hq
  obtain ⟨h₁, hset₁, hnext₁, hprev₁, hbody₁⟩ := setPrev_spec hn p.prev
  obtain ⟨h₂, hset₂, hnext₂, hprev₂, hbody₂⟩ :=
    setNext_spec (ne_none_of_body hbody₁ hn) (some pos)
  have hbody : h₂.body = h.body := hbody₂.trans hbody₁
  obtain ⟨p₂, hp₂⟩ := Option.ne_none_iff_exists'.mp (ne_none_of_body hbody hpos)
  -- `pos` is not `n`, so it still has its old predecessor
  have hq₂ : p₂.prev = some q := by
    rw [← prev_of_some hp₂, hprev₂, hprev₁, Function.update_of_ne hne, prev_of_some hp, hq]
  obtain ⟨h₃, hset₃, hnext₃, hprev₃, hbody₃⟩ :=
    setNext_spec (ne_none_of_body hbody hqs) (some n)
  obtain ⟨h₄, hset₄, hnext₄, hprev₄, hbody₄⟩ :=
    setPrev_spec (ne_none_of_body (hbody₃.trans hbody) hpos) (some n)
  refine ⟨h₄, ?_, ?_, ?_, (hbody₄.trans hbody₃).trans hbody⟩
  · simp only [nodeLinkBefore, bind, Option.bind, hp, hset₁, hset₂, hp₂, hq₂, hset₃, hset₄]
  · rw [hnext₄, hnext₃, hnext₂, hnext₁]
  · rw [hprev₄, hprev₃, hprev₂, hprev₁, hq]

/-- **What `NodeUnlink` does to the links.** -/
theorem nodeUnlink_spec {n q b : P} (hn : h n ≠ none) (hq : h.prev n = some q)
    (hb : h.next n = some b) (hqs : h q ≠ none) (hbs : h b ≠ none) (hqn : q ≠ n) :
    ∃ h', h.nodeUnlink n = some h' ∧
      h'.next = Function.update (Function.update h.next q (some b)) n none ∧
      h'.prev = Function.update (Function.update h.prev b (some q)) n none ∧
      h'.body = h.body := by
  obtain ⟨m, hm⟩ := Option.ne_none_iff_exists'.mp hn
  rw [prev_of_some hm] at hq
  rw [next_of_some hm] at hb
  obtain ⟨h₁, hset₁, hnext₁, hprev₁, hbody₁⟩ := setNext_spec hqs m.next
  obtain ⟨m₁, hm₁⟩ := Option.ne_none_iff_exists'.mp (ne_none_of_body hbody₁ hn)
  have hb₁ : m₁.next = some b := by
    rw [← next_of_some hm₁, hnext₁, Function.update_of_ne hqn.symm, next_of_some hm, hb]
  have hq₁ : m₁.prev = some q := by
    rw [← prev_of_some hm₁, hprev₁, prev_of_some hm, hq]
  obtain ⟨h₂, hset₂, hnext₂, hprev₂, hbody₂⟩ :=
    setPrev_spec (ne_none_of_body hbody₁ hbs) m₁.prev
  have hbody₂' : h₂.body = h.body := hbody₂.trans hbody₁
  obtain ⟨h₃, hset₃, hnext₃, hprev₃, hbody₃⟩ :=
    setPrev_spec (ne_none_of_body hbody₂' hn) none
  obtain ⟨h₄, hset₄, hnext₄, hprev₄, hbody₄⟩ :=
    setNext_spec (ne_none_of_body (hbody₃.trans hbody₂') hn) none
  refine ⟨h₄, ?_, ?_, ?_, (hbody₄.trans hbody₃).trans hbody₂'⟩
  · simp only [nodeUnlink, bind, Option.bind, hm, hq, hset₁, hm₁, hb₁, hset₂, hset₃, hset₄]
  · rw [hnext₄, hnext₃, hnext₂, hnext₁, hb]
  · rw [hprev₄, hprev₃, hprev₂, hprev₁, hq₁]

end NodeHeap

/-! ## The list -/

/-- `List`: the address of its sentinel, and the heap its nodes are in. -/
structure DList (P α : Type) where
  heap : NodeHeap P α
  /-- `&list->sentinel`. -/
  sentinel : P

namespace DList

variable {P α : Type} [DecidableEq P]

/-- `ListCreate`, where `malloc` returned `block`. -/
def create (block : Option P) : Option (DList P α) :=
  block.map fun s =>
    ⟨Function.update (fun _ => none) s (some ⟨none, some s, some s, true⟩), s⟩

section
variable (d : DList P α)

/-- `NodeCreate`, where `malloc` returned the block at `n`. -/
def nodeCreate (n : P) (item : Option α) : DList P α :=
  { d with heap := Function.update d.heap n (some ⟨item, none, none, false⟩) }

/-- `NodeLinkBefore`, which every insertion ends in: the iterator it returns. -/
def link (pos n : P) : Option (DList P α × Option P) := do
  let h ← d.heap.nodeLinkBefore pos n
  return ({ d with heap := h }, some n)

/-- `NodeUnlink` and `free`, which every removal ends in: the data it returns. -/
def unlink (n : P) : Option (DList P α × Option α) := do
  let m ← d.heap n
  let h ← d.heap.nodeUnlink n
  return ({ d with heap := h.free n }, m.data)

/-- `ListPushHead`. -/
def pushHead (item : Option α) (block : Option P) : Option (DList P α × Option P) :=
  match block with
  | none => some (d, none)
  | some n => do
    let d := d.nodeCreate n item
    let s ← d.heap d.sentinel
    let first ← s.next
    d.link first n

/-- `ListPushTail`. -/
def pushTail (item : Option α) (block : Option P) : Option (DList P α × Option P) :=
  match block with
  | none => some (d, none)
  | some n => (d.nodeCreate n item).link d.sentinel n

/-- `ListPopHead`. -/
def popHead : Option (DList P α × Option α) := do
  let s ← d.heap d.sentinel
  let first ← s.next
  if first = d.sentinel then return (d, none) else d.unlink first

/-- `ListPopTail`. -/
def popTail : Option (DList P α × Option α) := do
  let s ← d.heap d.sentinel
  let last ← s.prev
  if last = d.sentinel then return (d, none) else d.unlink last

/-- `ListItrBegin`. -/
def itrBegin : Option (Option P) := do
  let s ← d.heap d.sentinel
  return s.next

/-- `ListItrEnd`. -/
def itrEnd : Option P := some d.sentinel

/-- `ListItrNext`. -/
def itrNext (itr : Option P) : Option (Option P) :=
  match itr with
  | none => some none
  | some p => do
    let n ← d.heap p
    if n.isSentinel then return itr else return n.next

/-- `ListItrGet`. -/
def itrGet (itr : Option P) : Option (Option α) :=
  match itr with
  | none => some none
  | some p => do
    let n ← d.heap p
    if n.isSentinel then return none else return n.data

/-- `ListItrSet`. -/
def itrSet (itr : Option P) (element : Option α) : Option (DList P α × Option α) :=
  match itr with
  | none => some (d, none)
  | some p => do
    let n ← d.heap p
    if n.isSentinel then return (d, none)
    else
      let h ← d.heap.setData p element
      return ({ d with heap := h }, n.data)

/-- `ListItrInsertBefore`. -/
def itrInsertBefore (itr : Option P) (element : Option α) (block : Option P) :
    Option (DList P α × Option P) :=
  match itr with
  | none => some (d, none)
  | some pos =>
    match block with
    | none => some (d, none)
    | some n => (d.nodeCreate n element).link pos n

/-- `ListItrRemove`. -/
def itrRemove (itr : Option P) : Option (DList P α × Option α) :=
  match itr with
  | none => some (d, none)
  | some p => do
    let n ← d.heap p
    if n.isSentinel then return (d, none) else d.unlink p

/-- The loop of `ListSize`, for at most `rounds` rounds. -/
def sizeLoop : (rounds : Nat) → (cur : Option P) → (count : Nat) → Option Nat
  | 0, cur, count => if cur = some d.sentinel then some count else none
  | rounds + 1, cur, count =>
    if cur = some d.sentinel then some count
    else do
      let p ← cur
      let n ← d.heap p
      sizeLoop rounds n.next (count + 1)

/-- `ListSize`, when its loop ends within `rounds` rounds. -/
def size (rounds : Nat) : Option Nat := do
  let s ← d.heap d.sentinel
  d.sizeLoop rounds s.next 0

/-- The loop of `ListDestroy`, for at most `rounds` rounds. -/
def destroyLoop {ε : Type} (elementDestroy : Option (Option α → ε → ε)) :
    (rounds : Nat) → (cur : Option P) → NodeHeap P α → ε → Option (NodeHeap P α × ε)
  | 0, cur, h, e => if cur = some d.sentinel then some (h, e) else none
  | rounds + 1, cur, h, e =>
    if cur = some d.sentinel then some (h, e)
    else do
      let p ← cur
      let n ← h p
      destroyLoop elementDestroy rounds n.next (h.free p)
        (elementDestroy.elim e fun f => f n.data e)

/-- `ListDestroy`, when its loop ends within `rounds` rounds: the heap that is left. -/
def destroy {ε : Type} (elementDestroy : Option (Option α → ε → ε)) (rounds : Nat) (e : ε) :
    Option (NodeHeap P α × ε) := do
  let s ← d.heap d.sentinel
  let (h, e) ← d.destroyLoop elementDestroy rounds s.next d.heap e
  return (h.free d.sentinel, e)

/-- `ListIsEmpty`. -/
def isEmpty : Option Bool := do
  let s ← d.heap d.sentinel
  return s.next = some d.sentinel

/-- A caller's loop from `itr` to the end: the data it gets, when it ends within `rounds` rounds. -/
def iterate : (rounds : Nat) → (itr : Option P) → Option (List (Option α))
  | 0, itr => if itr = d.itrEnd then some [] else none
  | rounds + 1, itr =>
    if itr = d.itrEnd then some []
    else do
      let v ← d.itrGet itr
      let itr ← d.itrNext itr
      let rest ← iterate rounds itr
      return v :: rest

end

/-! ## What a list stands for -/

/-- The list has these nodes with these data in it, and no other node is allocated. -/
structure Represents (d : DList P α) (l : List (P × Option α)) : Prop where
  ring : LinkedRing d.heap.next d.heap.prev ↑(d.sentinel :: l.map Prod.fst)
  sentinel : d.heap.body d.sentinel = some (none, true)
  node : ∀ z ∈ l, d.heap.body z.1 = some (z.2, false)
  dead : ∀ x, x ∉ d.sentinel :: l.map Prod.fst → d.heap x = none

/-- `y` before the element at `pos`, or at the end if there is none. -/
def insertBefore (pos : P) (y : P × Option α) : List (P × Option α) → List (P × Option α)
  | [] => [y]
  | z :: l => if z.1 = pos then y :: z :: l else z :: insertBefore pos y l

theorem insertBefore_of_notMem {pos : P} (y : P × Option α) {l : List (P × Option α)}
    (h : pos ∉ l.map Prod.fst) : insertBefore pos y l = l ++ [y] := by
  induction l with
  | nil => rfl
  | cons z l ih =>
    rw [List.map_cons, List.mem_cons, not_or] at h
    rw [insertBefore, if_neg (Ne.symm h.1), ih h.2, List.cons_append]

theorem insertBefore_append {y z : P × Option α} {l₁ l₂ : List (P × Option α)}
    (h : z.1 ∉ l₁.map Prod.fst) :
    insertBefore z.1 y (l₁ ++ z :: l₂) = l₁ ++ y :: z :: l₂ := by
  induction l₁ with
  | nil => exact if_pos rfl
  | cons w l₁ ih =>
    rw [List.map_cons, List.mem_cons, not_or] at h
    rw [List.cons_append, insertBefore, if_neg (Ne.symm h.1), ih h.2, List.cons_append]

theorem mem_insertBefore {pos : P} {y z : P × Option α} {l : List (P × Option α)} :
    z ∈ insertBefore pos y l ↔ z = y ∨ z ∈ l := by
  induction l with
  | nil => simp [insertBefore]
  | cons w l ih =>
    rw [insertBefore]
    split
    · rw [List.mem_cons]
    · rw [List.mem_cons, ih, List.mem_cons]
      exact or_left_comm

theorem filter_append {z : P × Option α} {l₁ l₂ : List (P × Option α)}
    (h : ((l₁ ++ z :: l₂).map Prod.fst).Nodup) :
    (l₁ ++ z :: l₂).filter (fun w => w.1 ≠ z.1) = l₁ ++ l₂ := by
  have hkeep : ∀ l : List (P × Option α), z.1 ∉ l.map Prod.fst →
      l.filter (fun w => w.1 ≠ z.1) = l := by
    intro l hl
    refine List.filter_eq_self.mpr fun w hw => decide_eq_true fun heq => hl ?_
    exact heq ▸ List.mem_map_of_mem hw
  rw [List.map_append, List.map_cons, List.nodup_append] at h
  obtain ⟨-, h₂, hdisj⟩ := h
  rw [List.filter_append, List.filter_cons_of_neg (by simp), hkeep l₂ (List.nodup_cons.mp h₂).1,
    hkeep l₁ fun hmem => hdisj _ hmem _ List.mem_cons_self rfl]

section
variable {d : DList P α} {l : List (P × Option α)} (h : d.Represents l)
include h

omit [DecidableEq P] in
theorem Represents.nodup : (d.sentinel :: l.map Prod.fst).Nodup :=
  Cycle.nodup_coe_iff.mp h.ring.nodup

omit [DecidableEq P] in
/-- The nodes of the list are those that are allocated. -/
theorem Represents.live_iff {x : P} : d.heap x ≠ none ↔ x ∈ d.sentinel :: l.map Prod.fst := by
  constructor
  · intro hx
    by_contra hmem
    exact hx (h.dead x hmem)
  · intro hx
    rw [Ne, ← NodeHeap.body_eq_none_iff]
    rcases List.mem_cons.mp hx with rfl | hx
    · rw [h.sentinel]
      simp
    · obtain ⟨z, hz, rfl⟩ := List.mem_map.mp hx
      rw [h.node z hz]
      simp

/-! ### Splicing in -/

omit [DecidableEq P] in
/-- The ring, seen from the place before which something goes in, and from the sentinel again when
it has. -/
theorem Represents.rotate_insert {pos : P} (hpos : pos ∈ d.sentinel :: l.map Prod.fst)
    [DecidableEq P] (y : P × Option α) :
    ∃ r, (d.sentinel :: l.map Prod.fst) ~r (pos :: r) ∧
      (y.1 :: pos :: r) ~r (d.sentinel :: (insertBefore pos y l).map Prod.fst) := by
  have hnd := h.nodup
  rcases List.mem_cons.mp hpos with rfl | hmem
  · -- before the sentinel is at the end
    refine ⟨l.map Prod.fst, List.IsRotated.refl _, ?_⟩
    rw [insertBefore_of_notMem y (List.nodup_cons.mp hnd).1, List.map_append]
    exact (List.isRotated_concat y.1 (d.sentinel :: l.map Prod.fst)).symm
  · obtain ⟨z, hz, rfl⟩ := List.mem_map.mp hmem
    obtain ⟨l₁, l₂, rfl⟩ := List.append_of_mem hz
    have hz₁ : z.1 ∉ l₁.map Prod.fst := by
      rw [List.map_append, List.map_cons] at hnd
      intro hmem
      exact (List.nodup_append.mp (List.nodup_cons.mp hnd).2).2.2 _ hmem _ List.mem_cons_self rfl
    refine ⟨l₂.map Prod.fst ++ d.sentinel :: l₁.map Prod.fst, ?_, ?_⟩
    · rw [List.map_append, List.map_cons, ← List.cons_append, ← List.cons_append]
      exact List.isRotated_append
    · rw [insertBefore_append hz₁, List.map_append, List.map_cons, List.map_cons,
        ← List.cons_append, ← List.cons_append, ← List.cons_append]
      exact List.isRotated_append

omit h in
/-- A new node is not linked to anything. -/
theorem nodeCreate_spec {n : P} (hn : d.heap n = none) (v : Option α) :
    (d.nodeCreate n v).heap.next = d.heap.next ∧ (d.nodeCreate n v).heap.prev = d.heap.prev ∧
      (d.nodeCreate n v).heap.body = Function.update d.heap.body n (some (v, false)) := by
  refine ⟨?_, ?_, NodeHeap.view_update (Option.map fun n => (n.data, n.isSentinel)) n _⟩
  · refine (NodeHeap.view_update (Option.bind · Node.next) n _).trans ?_
    exact Function.update_eq_self_iff.mpr (by simp [hn])
  · refine (NodeHeap.view_update (Option.bind · Node.prev) n _).trans ?_
    exact Function.update_eq_self_iff.mpr (by simp [hn])

/-- **Splicing a new node in.** -/
theorem Represents.link {pos n : P} (hpos : pos ∈ d.sentinel :: l.map Prod.fst)
    (hn : d.heap n = none) (v : Option α) :
    ∃ d', (d.nodeCreate n v).link pos n = some (d', some n) ∧ d'.sentinel = d.sentinel ∧
      d'.Represents (insertBefore pos (n, v) l) := by
  obtain ⟨r, hrot, hrot'⟩ := h.rotate_insert hpos (n, v)
  have hring : LinkedRing d.heap.next d.heap.prev ↑(pos :: r) := by
    rw [← Cycle.coe_eq_coe.mpr hrot]
    exact h.ring
  have hfresh : n ∉ d.sentinel :: l.map Prod.fst := fun hmem => h.live_iff.mpr hmem hn
  obtain ⟨q, hlast⟩ : ∃ q, (pos :: r).getLast? = some q :=
    ⟨_, List.getLast?_eq_some_getLast (by simp)⟩
  have hq : d.heap.prev pos = some q := hring.prev_eq hlast
  have hqmem : q ∈ d.sentinel :: l.map Prod.fst :=
    hrot.mem_iff.mpr (List.mem_of_getLast? hlast)
  have hqn : q ≠ n := fun heq => hfresh (heq ▸ hqmem)
  have hpn : pos ≠ n := fun heq => hfresh (heq ▸ hpos)
  obtain ⟨hnext, hprev, hbody⟩ := nodeCreate_spec hn v
  have hlive : ∀ x, x ∈ d.sentinel :: l.map Prod.fst → (d.nodeCreate n v).heap x ≠ none := by
    intro x hx
    have hne : x ≠ n := fun heq => hfresh (heq ▸ hx)
    show Function.update d.heap n _ x ≠ none
    rw [Function.update_of_ne hne]
    exact h.live_iff.mpr hx
  have hnew : (d.nodeCreate n v).heap n ≠ none := by
    show Function.update d.heap n _ n ≠ none
    rw [Function.update_self]
    simp
  obtain ⟨h', hlink, hnext', hprev', hbody'⟩ :=
    NodeHeap.nodeLinkBefore_spec (hlive pos hpos) hnew hpn (hprev ▸ hq) (hlive q hqmem)
  rw [hnext] at hnext'
  rw [hprev] at hprev'
  rw [hbody] at hbody'
  refine ⟨{ d with heap := h' }, ?_, rfl, ⟨?_, ?_, ?_, ?_⟩⟩
  · simp only [DList.link, bind, Option.bind, hlink, pure]
    rfl
  · rw [← Cycle.coe_eq_coe.mpr hrot']
    refine hring.insert (fun hmem => hfresh (hrot.mem_iff.mpr hmem)) hq ?_ ?_ ?_ ?_ ?_ ?_
    · simp only [hnext', Function.update_of_ne hqn.symm, Function.update_self]
    · simp only [hprev', Function.update_of_ne hpn.symm, Function.update_self]
    · simp only [hnext', Function.update_self]
    · simp only [hprev', Function.update_self]
    · intro x hxn hxq
      simp only [hnext', Function.update_of_ne hxq, Function.update_of_ne hxn]
    · intro x hxn hxp
      simp only [hprev', Function.update_of_ne hxp, Function.update_of_ne hxn]
  · have hne : d.sentinel ≠ n := fun heq => hfresh (heq ▸ List.mem_cons_self)
    simp only [hbody', Function.update_of_ne hne, h.sentinel]
  · intro z hz
    rcases mem_insertBefore.mp hz with rfl | hz
    · simp only [hbody', Function.update_self]
    · have hne : z.1 ≠ n := fun heq =>
        hfresh (heq ▸ List.mem_cons_of_mem _ (List.mem_map_of_mem hz))
      simp only [hbody', Function.update_of_ne hne, h.node z hz]
  · intro x hx
    have hne : x ≠ n := by
      rintro rfl
      exact hx (hrot'.mem_iff.mp List.mem_cons_self)
    have hold : x ∉ d.sentinel :: l.map Prod.fst := fun hmem =>
      hx (hrot'.mem_iff.mp (List.mem_cons_of_mem _ (hrot.mem_iff.mp hmem)))
    rw [← NodeHeap.body_eq_none_iff]
    simp only [hbody', Function.update_of_ne hne]
    exact NodeHeap.body_eq_none_iff.mpr (h.dead x hold)

/-! ### Taking out -/

/-- **Taking a node out.** -/
theorem Represents.unlink {z : P × Option α} (hz : z ∈ l) :
    ∃ d', d.unlink z.1 = some (d', z.2) ∧ d'.sentinel = d.sentinel ∧
      d'.Represents (l.filter fun w => w.1 ≠ z.1) := by
  have hnd := h.nodup
  obtain ⟨l₁, l₂, rfl⟩ := List.append_of_mem hz
  have hne : d.sentinel ≠ z.1 := by
    rintro heq
    exact (List.nodup_cons.mp hnd).1 (heq ▸ List.mem_map_of_mem hz)
  have hrot : (d.sentinel :: (l₁ ++ z :: l₂).map Prod.fst) ~r
      (z.1 :: (l₂.map Prod.fst ++ d.sentinel :: l₁.map Prod.fst)) := by
    rw [List.map_append, List.map_cons, ← List.cons_append, ← List.cons_append]
    exact List.isRotated_append
  have hrot' : (l₂.map Prod.fst ++ d.sentinel :: l₁.map Prod.fst) ~r
      (d.sentinel :: (l₁ ++ l₂).map Prod.fst) := by
    rw [List.map_append, ← List.cons_append]
    exact List.isRotated_append
  have hring : LinkedRing d.heap.next d.heap.prev
      ↑(z.1 :: (l₂.map Prod.fst ++ d.sentinel :: l₁.map Prod.fst)) := by
    rw [← Cycle.coe_eq_coe.mpr hrot]
    exact h.ring
  generalize hr : l₂.map Prod.fst ++ d.sentinel :: l₁.map Prod.fst = r at hrot hrot' hring
  have hrne : r ≠ [] := by
    rw [← hr]
    simp
  have hndz : z.1 ∉ r := (List.nodup_cons.mp (hrot.nodup_iff.mp hnd)).1
  obtain ⟨a, t, rfl⟩ := List.exists_cons_of_ne_nil hrne
  obtain ⟨q, hlast⟩ : ∃ q, (a :: t).getLast? = some q :=
    ⟨_, List.getLast?_eq_some_getLast (by simp)⟩
  have hq : d.heap.prev z.1 = some q := hring.prev_eq (by rw [List.getLast?_cons_cons]; exact hlast)
  have hb : d.heap.next z.1 = some a := hring.next_eq rfl
  have hlive : ∀ x, x ∈ z.1 :: a :: t → d.heap x ≠ none := fun x hx =>
    h.live_iff.mpr (hrot.mem_iff.mpr hx)
  have hqmem : q ∈ a :: t := List.mem_of_getLast? hlast
  have hqz : q ≠ z.1 := fun heq => hndz (heq ▸ hqmem)
  have haz : a ≠ z.1 := fun heq => hndz (heq ▸ List.mem_cons_self)
  obtain ⟨h', hunlink, hnext', hprev', hbody'⟩ :=
    NodeHeap.nodeUnlink_spec (hlive _ List.mem_cons_self) hq hb
      (hlive q (List.mem_cons_of_mem _ hqmem))
      (hlive a (List.mem_cons_of_mem _ List.mem_cons_self)) hqz
  -- the node is unlinked already, so freeing it only takes its body away
  have hnext : (h'.free z.1).next = Function.update (Function.update d.heap.next q (some a)) z.1
      none := by
    refine (NodeHeap.view_update (Option.bind · Node.next) z.1 none).trans ?_
    exact (congrArg (Function.update · z.1 none) hnext').trans (Function.update_idem ..)
  have hprev : (h'.free z.1).prev = Function.update (Function.update d.heap.prev a (some q)) z.1
      none := by
    refine (NodeHeap.view_update (Option.bind · Node.prev) z.1 none).trans ?_
    exact (congrArg (Function.update · z.1 none) hprev').trans (Function.update_idem ..)
  have hbody : (h'.free z.1).body = Function.update d.heap.body z.1 none := by
    refine (NodeHeap.view_update (Option.map fun n => (n.data, n.isSentinel)) z.1 none).trans ?_
    exact congrArg (Function.update · z.1 none) hbody'
  rw [filter_append (List.nodup_cons.mp hnd).2]
  refine ⟨{ d with heap := h'.free z.1 }, ?_, rfl, ⟨?_, ?_, ?_, ?_⟩⟩
  · obtain ⟨m, hm, hdata, -⟩ := NodeHeap.isSome_of_body (h.node z hz)
    simp only [DList.unlink, bind, Option.bind, hm, hunlink, hdata]
    rfl
  · rw [← Cycle.coe_eq_coe.mpr hrot']
    refine hring.remove hrne hb hq ?_ ?_ ?_ ?_
    · simp only [hnext, Function.update_of_ne hqz, Function.update_self]
    · simp only [hprev, Function.update_of_ne haz, Function.update_self]
    · intro x hxz hxq
      simp only [hnext, Function.update_of_ne hxz, Function.update_of_ne hxq]
    · intro x hxz hxa
      simp only [hprev, Function.update_of_ne hxz, Function.update_of_ne hxa]
  · simp only [hbody, Function.update_of_ne hne, h.sentinel]
  · intro w hw
    have hwz : w.1 ≠ z.1 := by
      intro heq
      refine hndz (hrot'.mem_iff.mpr (List.mem_cons_of_mem _ ?_))
      exact heq ▸ List.mem_map_of_mem hw
    have hold : w ∈ l₁ ++ z :: l₂ := by
      rcases List.mem_append.mp hw with hw | hw
      · exact List.mem_append_left _ hw
      · exact List.mem_append_right _ (List.mem_cons_of_mem _ hw)
    simp only [hbody, Function.update_of_ne hwz, h.node w hold]
  · intro x hx
    rw [← NodeHeap.body_eq_none_iff]
    by_cases hxz : x = z.1
    · simp only [hbody, hxz, Function.update_self]
    · simp only [hbody, Function.update_of_ne hxz]
      refine NodeHeap.body_eq_none_iff.mpr (h.dead x fun hmem => hx ?_)
      rcases List.mem_cons.mp (hrot.mem_iff.mp hmem) with heq | hmem
      · exact absurd heq hxz
      · exact hrot'.mem_iff.mp hmem

end

end DList

end ChatProject
