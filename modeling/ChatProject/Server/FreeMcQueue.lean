import Mathlib.Data.List.Nodup
import ChatProject.Shared.GenQueue
import ChatProject.Shared.Protocol

/-!
# The pool of free multicast addresses

`server/free_mc_queue.c`: a ring buffer of 255 address pairs, filled once with 239.1.1.1 to
239.1.1.255 at the base port.  A pair in the pool lives in a block of its own, so giving one back
allocates, and an allocation that fails there drops the pair.

The ring buffer inside a `FreeMcQueue` is well formed and has room for 255 pairs by construction, so
that every call on it has a result, and the three operations are read off the list of free pairs,
`FreeMcQueue.toList`: `take` removes its head (`take_of_toList_eq_cons`), `giveBack` appends to it
(`toList_giveBack`).
-/

set_option autoImplicit false

namespace ChatProject

/-- `McastPair`. -/
structure McastPair where
  /-- The dotted quad. -/
  ip : CStr
  /-- The port. -/
  port : UInt16
deriving DecidableEq

/-- `"239.1.1."`. -/
def mcastPrefix : List UInt8 := [50, 51, 57, 46, 49, 46, 49, 46]

/-- The pair the `i`-th round of the fill loop makes. -/
def mcastPair (i : Nat) : McastPair := ⟨CStr.ofBuffer (mcastPrefix ++ decimal i), chatMcastBasePort⟩

/-- The loop counter of the fill loop. -/
def fillRange : List Nat := List.range' 1 255

/-- The pairs the pool is filled with, in order. -/
def mcastFill : List McastPair := fillRange.map mcastPair

/-- `struct FreeMcQueue`. -/
structure FreeMcQueue where
  /-- The ring buffer of free pairs. -/
  pool : Queue McastPair
  /-- It is well formed. -/
  wf : pool.WF
  /-- It was created for 255 addresses. -/
  cap : pool.size = 255

namespace FreeMcQueue

/-- The free pairs, in the order they will be given out. -/
def toList (q : FreeMcQueue) : List McastPair := q.pool.toList

/-- `QueueInsert` of a freshly allocated pair. -/
def push (q : FreeMcQueue) (pair : McastPair) : QueueResult × FreeMcQueue :=
  have hs := q.wf.get_insert pair
  let r := (q.pool.insert (some pair)).get (q.wf.isSome_insert pair)
  (r.1, ⟨r.2, hs.1, hs.2.trans q.cap⟩)

/-- The fill loop of `FreeMcQueue_Create`: a round whose `malloc` fails is skipped. -/
def fill : List Nat → FreeMcQueue → Alloc → FreeMcQueue × Alloc
  | [], q, al => (q, al)
  | i :: rounds, q, al =>
    match malloc al with
    | (false, al) => fill rounds q al
    | (true, al) => fill rounds (q.push (mcastPair i)).2 al

/-- `FreeMcQueue_Create`. -/
def create (al : Alloc) : Option FreeMcQueue × Alloc :=
  match malloc al with
  | (false, al) => (none, al)
  | (true, al) =>
    match h : (Queue.create 255 al : Option (Queue McastPair) × Alloc) with
    | (none, al) => (none, al)
    | (some pool, al) =>
      have hs := Queue.create_spec (by decide) (congrArg Prod.fst h)
      let r := fill fillRange ⟨pool, hs.1, hs.2.2⟩ al
      (some r.1, r.2)

/-- `FreeMcQueue_Take`: the oldest free pair, or nothing. -/
def take (q : FreeMcQueue) : Option McastPair × FreeMcQueue :=
  have hs := q.wf.get_remove
  let r := q.pool.remove.get q.wf.isSome_remove
  (r.2.1, ⟨r.2.2, hs.1, hs.2.trans q.cap⟩)

/-- `FreeMcQueue_Return`: 1 when the pair is in the pool again. -/
def giveBack (q : FreeMcQueue) (pair : McastPair) (al : Alloc) : Bool × FreeMcQueue × Alloc :=
  match malloc al with
  | (false, al) => (false, q, al)
  | (true, al) =>
    let r := q.push pair
    (r.1 = .success, r.2, al)

/-! ## Taking and giving back -/

theorem take_of_toList_eq_nil {q : FreeMcQueue} (h : q.toList = []) : q.take = (none, q) := by
  have hnum : q.pool.numOfElements = 0 := by
    rw [← Queue.length_toList q.wf]
    exact List.length_eq_zero_iff.mpr h
  have hrem := Option.get_of_eq_some q.wf.isSome_remove (Queue.remove_of_empty hnum)
  cases q
  simp only [take, hrem]

theorem take_of_toList_eq_cons {q : FreeMcQueue} {pair : McastPair} {rest : List McastPair}
    (h : q.toList = pair :: rest) : q.take.1 = some pair ∧ q.take.2.toList = rest := by
  have hnum : q.pool.numOfElements ≠ 0 := by
    rw [← Queue.length_toList q.wf, show q.pool.toList = pair :: rest from h]
    simp
  obtain ⟨a, hrem, hlist⟩ := Queue.remove_of_held q.wf hnum
  have hget := Option.get_of_eq_some q.wf.isSome_remove hrem
  rw [show q.pool.toList = pair :: rest from h, List.cons.injEq] at hlist
  obtain ⟨rfl, hrest⟩ := hlist
  exact ⟨congrArg (·.2.1) hget,
    (congrArg (fun r : _ × _ × Queue McastPair => r.2.2.toList) hget).trans hrest.symm⟩

/-- A full pool drops what is pushed; otherwise the pair goes to the end. -/
theorem push_cases (q : FreeMcQueue) (pair : McastPair) :
    q.toList.length = 255 ∧ (q.push pair).2.toList = q.toList ∨
      (q.push pair).1 = .success ∧ (q.push pair).2.toList = q.toList ++ [pair] := by
  obtain ⟨hfull, hins⟩ | ⟨-, hins, -, hlist⟩ := q.wf.insert_cases pair
  · have hget := Option.get_of_eq_some (q.wf.isSome_insert pair) hins
    refine .inl ⟨?_, congrArg (fun r : _ × Queue McastPair => r.2.toList) hget⟩
    rw [toList, Queue.length_toList q.wf, hfull, q.cap]
  · have hget := Option.get_of_eq_some (q.wf.isSome_insert pair) hins
    exact .inr ⟨congrArg (·.1) hget,
      (congrArg (fun r : _ × Queue McastPair => r.2.toList) hget).trans hlist⟩

theorem toList_push {q : FreeMcQueue} (pair : McastPair) (hroom : q.toList.length < 255) :
    (q.push pair).1 = .success ∧ (q.push pair).2.toList = q.toList ++ [pair] :=
  (q.push_cases pair).resolve_left fun hfull => Nat.ne_of_lt hroom hfull.1

theorem toList_giveBack_cases (q : FreeMcQueue) (pair : McastPair) (al : Alloc) :
    (q.giveBack pair al).2.1.toList = q.toList ∨
      (q.giveBack pair al).2.1.toList = q.toList ++ [pair] := by
  rw [giveBack]
  split
  · exact .inl rfl
  · exact (q.push_cases pair).imp And.right And.right

/-- With room, and memory for the node, the pair goes to the end of the pool. -/
theorem toList_giveBack {q : FreeMcQueue} (pair : McastPair) (hroom : q.toList.length < 255)
    {al : Alloc} (hal : (malloc al).1 = true) :
    (q.giveBack pair al).1 = true ∧ (q.giveBack pair al).2.1.toList = q.toList ++ [pair] ∧
      (q.giveBack pair al).2.2 = (malloc al).2 := by
  obtain ⟨hs, hl⟩ := toList_push pair hroom
  rcases hm : malloc al with ⟨_ | _, al'⟩
  · rw [hm] at hal
    exact absurd hal (by simp)
  · rw [giveBack, hm]
    exact ⟨decide_eq_true hs, hl, rfl⟩

/-! ## Filling -/

/-- Whatever allocations fail, the fill adds some of the pairs, in order. -/
theorem toList_fill_sublist (rounds : List Nat) (q : FreeMcQueue) (al : Alloc) :
    ∃ added, added.Sublist (rounds.map mcastPair) ∧
      (fill rounds q al).1.toList = q.toList ++ added := by
  induction rounds generalizing q al with
  | nil => exact ⟨[], List.Sublist.refl _, (List.append_nil _).symm⟩
  | cons i rounds ih =>
    rw [fill]
    split
    · next al' _ =>
      obtain ⟨added, hsub, hlist⟩ := ih q al'
      exact ⟨added, hsub.cons _, hlist⟩
    · next al' _ =>
      obtain ⟨added, hsub, hlist⟩ := ih (q.push (mcastPair i)).2 al'
      rcases q.push_cases (mcastPair i) with ⟨-, hp⟩ | ⟨-, hp⟩
      · exact ⟨added, hsub.cons _, by rw [hlist, hp]⟩
      · exact ⟨mcastPair i :: added, hsub.cons_cons _, by
          rw [hlist, hp, List.append_assoc, List.singleton_append]⟩

/-- With no allocation failure and enough room, the fill adds all of them. -/
theorem toList_fill (rounds : List Nat) {q : FreeMcQueue}
    (hroom : q.toList.length + rounds.length ≤ 255) :
    (fill rounds q []).1.toList = q.toList ++ rounds.map mcastPair ∧
      (fill rounds q []).2 = [] := by
  induction rounds generalizing q with
  | nil => exact ⟨(List.append_nil _).symm, rfl⟩
  | cons i rounds ih =>
    rw [List.length_cons] at hroom
    have hp := (toList_push (q := q) (mcastPair i) (by omega)).2
    have hrest := ih (q := (q.push (mcastPair i)).2) (by
      rw [hp, List.length_append, List.length_singleton]
      omega)
    rw [fill, malloc_nil]
    refine ⟨?_, hrest.2⟩
    rw [hrest.1, hp, List.append_assoc, List.singleton_append, List.map_cons]

/-- The pool a successful `FreeMcQueue_Create` returns holds some of the 255 pairs, in order. -/
theorem create_sublist {al : Alloc} {q : FreeMcQueue} (h : (create al).1 = some q) :
    q.toList.Sublist mcastFill := by
  rw [create] at h
  split at h
  · exact absurd h (by simp)
  split at h
  · exact absurd h (by simp)
  next pool al' hq =>
  have hs := Queue.create_spec (by decide) (congrArg Prod.fst hq)
  rw [Option.some_inj] at h
  obtain ⟨added, hsub, hlist⟩ := toList_fill_sublist fillRange ⟨pool, hs.1, hs.2.2⟩ al'
  rw [← h, hlist, show toList ⟨pool, hs.1, hs.2.2⟩ = [] from hs.2.1, List.nil_append]
  exact hsub

/-- The empty pool the fill loop starts from. -/
def unfilled : FreeMcQueue :=
  ⟨⟨⟨255, fun _ => none⟩, 255, 0, 0, 0⟩, Queue.wf_new (by decide), rfl⟩

/-- With no allocation failure it holds all of them. -/
theorem create_noFailure : ∃ q, create [] = (some q, []) ∧ q.toList = mcastFill := by
  have hcreate : create [] =
      (some (fill fillRange unfilled []).1, (fill fillRange unfilled []).2) :=
    rfl
  have hfill := toList_fill fillRange (q := unfilled) (by
    rw [fillRange, List.length_range']
    exact Nat.le_refl _)
  exact ⟨_, by rw [hcreate, hfill.2], hfill.1⟩

end FreeMcQueue

/-! ## The 255 pairs -/

/-- The number a printed decimal denotes: the left inverse that shows the printed addresses
distinct. -/
def ofDecimal (ds : List UInt8) : Nat := ds.foldl (fun n d => n * 10 + (d.toNat - 48)) 0

theorem length_mcastFill : mcastFill.length = 255 := by
  rw [mcastFill, List.length_map, fillRange, List.length_range']

theorem nodup_mcastFill : mcastFill.Nodup := by
  refine List.Nodup.map_on ?_ List.nodup_range'
  have hinv : ∀ i ∈ fillRange, ofDecimal ((mcastPair i).ip.bytes.drop 8) = i := by
    decide +kernel
  intro i hi j hj hij
  rw [← hinv i hi, ← hinv j hj, hij]

/-- Every pair fits the address field of a reply. -/
theorem length_ip_of_mem_mcastFill (pair : McastPair) (h : pair ∈ mcastFill) :
    pair.ip.length < chatMaxIpStrLen := by
  have hall : ∀ i ∈ fillRange, (mcastPair i).ip.length < chatMaxIpStrLen := by
    decide +kernel
  obtain ⟨i, hi, rfl⟩ := List.mem_map.mp h
  exact hall i hi

end ChatProject
