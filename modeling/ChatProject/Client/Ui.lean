import ChatProject.Lib.Machine
import ChatProject.Shared.Stdin

/-!
# What is typed into the menus

The menus of `ui.c` ask for one line after the other: a choice, a user name and a password, the name
of a group.

* `readLine` — `read_line`, which has to skip what does not fit.
* `Took` — what it has to come to: one line is gone, and the array holds it.
* `Plain` — when it does.  A NUL in a line that `fgets` has read to its end is what stands in the
  way, for then `read_line` takes the line for longer than it is.
* `menu_lines` — calls in a row.
-/

set_option autoImplicit false

namespace ChatProject

open Lines Machine

namespace Ui

/-- `INT_MAX`. -/
def intMax : Nat := 2147483647

/-- `(int)cap`, the one that is equal to `cap` up to a multiple of `2 ^ 32`. -/
def intOfSize (cap : Nat) : Int :=
  if cap % UInt32.size ≤ intMax then (cap % UInt32.size : Nat)
  else (cap % UInt32.size : Nat) - (UInt32.size : Nat)

/-- `read_line`: its result, the array and what is left of standard input. -/
def readLine (cap : Nat) (out stdin : List UInt8) : Int × List UInt8 × List UInt8 :=
  match fgets (intOfSize cap) stdin with
  | (none, stdin) => (-1, out, stdin)
  | (some read, stdin) =>
    let out := writeAt out 0 (read ++ [0])
    let len := (CStr.ofBuffer out).length
    if 0 < len ∧ out.getD (len - 1) 0 = newline then (0, writeAt out (len - 1) [0], stdin)
    else (0, out, drain stdin)

/-- One line is gone, and the array begins with as much of it as has room, and the terminator. -/
structure Took (cap : Nat) (stdin out' stdin' : List UInt8) : Prop where
  ne_nil : stdin ≠ []
  stdin_eq : stdin' = rest newline stdin
  held : (body newline (line newline stdin)).take (cap - 1) ++ [0] <+: out'

/-! ## The size -/

theorem intOfSize_le {cap : Nat} (h : 0 < intOfSize cap) :
    intOfSize cap ≤ cap ∧ intOfSize cap ≤ intMax := by
  unfold intOfSize UInt32.size intMax at *
  omega

theorem intOfSize_of_le {cap : Nat} (h : cap ≤ intMax) : intOfSize cap = cap := by
  unfold intOfSize UInt32.size intMax at *
  omega

/-! ## One call -/

theorem length_terminated_le {out read : List UInt8} (h : read.length < out.length) :
    (read ++ [0]).length ≤ out.length := by
  rw [List.length_append, List.length_singleton]
  exact h

/-- The string in the array is what `fgets` has stored, up to its first NUL. -/
theorem ofBuffer_writeAt {out read : List UInt8} (h : read.length < out.length) :
    CStr.ofBuffer (writeAt out 0 (read ++ [0])) = CStr.ofBuffer read := by
  rw [writeAt_zero (length_terminated_le h), List.append_assoc]
  exact CStr.ofBuffer_append_zero ..

/-- The byte in front of the terminator belongs to the string. -/
theorem getD_mem_ofBuffer {buf : List UInt8} (h : 0 < (CStr.ofBuffer buf).length) :
    buf.getD ((CStr.ofBuffer buf).length - 1) 0 ∈ (CStr.ofBuffer buf).bytes := by
  have hprefix : (CStr.ofBuffer buf).bytes <+: buf := List.takeWhile_prefix _
  have hlt : (CStr.ofBuffer buf).length - 1 < (CStr.ofBuffer buf).bytes.length :=
    Nat.sub_lt h Nat.one_pos
  rw [List.getD_eq_getElem?_getD, List.prefix_iff_getElem?.mp hprefix _ hlt]
  exact List.getElem_mem _

theorem prefix_writeAt {out src : List UInt8} (h : src.length ≤ out.length) :
    src <+: writeAt out 0 src :=
  writeAt_zero h ▸ List.prefix_append ..

/-- A call succeeds when `fgets` reads something, or is told to read nothing. -/
theorem readLine_cases (cap : Nat) (out stdin : List UInt8) :
    readLine cap out stdin = (-1, out, stdin) ∨ (readLine cap out stdin).1 = 0 ∧
      ∃ k : Nat, intOfSize cap = (k + 1 : Nat) ∧ (k = 0 ∨ stdin ≠ []) := by
  rcases fgets_cases (intOfSize cap) stdin with hread | ⟨k, hk, hstdin⟩
  · exact .inl (by rw [readLine, hread])
  · refine .inr ⟨?_, k, hk, hstdin⟩
    rw [readLine, hk, fgets_eq hstdin]
    split
    · next heq => exact absurd heq (by simp)
    · dsimp only
      split <;> rfl

/-- No newline before the first NUL: the remainder of the line is skipped. -/
theorem readLine_drain {cap : Nat} {out stdin stdin' read : List UInt8}
    (hread : fgets (intOfSize cap) stdin = (some read, stdin')) (hlen : read.length < out.length)
    (hnl : newline ∉ (CStr.ofBuffer read).bytes) :
    readLine cap out stdin = (0, writeAt out 0 (read ++ [0]), rest newline stdin') := by
  have hstr := ofBuffer_writeAt hlen
  simp only [readLine, hread]
  rw [if_neg, drain_eq]
  rintro ⟨hpos, heq⟩
  have hmem := getD_mem_ofBuffer hpos
  rw [heq, hstr] at hmem
  exact hnl hmem

/-- A newline in front of the terminator becomes the terminator. -/
theorem readLine_strip {cap : Nat} {out stdin stdin' l : List UInt8}
    (hread : fgets (intOfSize cap) stdin = (some (l ++ [newline]), stdin'))
    (hlen : (l ++ [newline]).length < out.length) (h0 : 0 ∉ l) :
    readLine cap out stdin
      = (0, writeAt (writeAt out 0 (l ++ [newline] ++ [0])) l.length [0], stdin') := by
  have hstr := ofBuffer_writeAt hlen
  have h0' : 0 ∉ l ++ [newline] := by
    rw [List.mem_append, not_or]
    exact ⟨h0, by decide⟩
  rw [CStr.ofBuffer_bytes ⟨_, h0'⟩] at hstr
  have hpos : (⟨_, h0'⟩ : CStr).length - 1 = l.length := by
    rw [CStr.length, List.length_append, List.length_singleton, Nat.add_sub_cancel]
  have hlast : (writeAt out 0 (l ++ [newline] ++ [0])).getD l.length 0 = newline := by
    rw [writeAt_zero (length_terminated_le hlen), List.append_assoc, List.append_assoc,
      List.getD_eq_getElem?_getD, List.getElem?_append_right (Nat.le_refl _), Nat.sub_self]
    rfl
  simp only [readLine, hread, hstr, hpos]
  rw [if_pos ⟨by simp [CStr.length], hlast⟩]

/-- What is in front of that newline stays. -/
theorem prefix_strip {out l : List UInt8} (hlen : (l ++ [newline]).length < out.length) :
    l ++ [0] <+: writeAt (writeAt out 0 (l ++ [newline] ++ [0])) l.length [0] := by
  have hfits :
      l.length + [(0 : UInt8)].length ≤ (writeAt out 0 (l ++ [newline] ++ [0])).length := by
    rw [List.length_append] at hlen
    rw [length_writeAt]
    exact Nat.le_of_lt hlen
  have htake := take_writeAt hfits
  rw [writeAt_zero (length_terminated_le hlen), List.append_assoc, List.append_assoc,
    List.take_left] at htake
  rw [writeAt_zero (length_terminated_le hlen), List.append_assoc, List.append_assoc, ← htake]
  exact List.take_prefix _ _

section
variable {cap k : Nat} (hk : intOfSize cap = (k + 1 : Nat)) {out stdin : List UInt8}
  (hroom : k < out.length) (hstdin : k = 0 ∨ stdin ≠ [])
include hk hroom hstdin

/-- A line that `fgets` has not read to its newline. -/
theorem readLine_of_cut
    (hcut : ¬ ((line newline stdin).length ≤ k ∧ newline ∈ line newline stdin)) :
    readLine cap out stdin
      = (0, writeAt out 0 ((body newline (line newline stdin)).take k ++ [0]),
          rest newline stdin) := by
  have hnl : newline ∉ (CStr.ofBuffer ((body newline (line newline stdin)).take k)).bytes :=
    fun h => notMem_body _ (List.mem_of_mem_take ((List.takeWhile_prefix _).subset h))
  have hlen : ((body newline (line newline stdin)).take k).length < out.length :=
    Nat.lt_of_le_of_lt (List.length_take_le _ _) hroom
  have hread := fgets_eq hstdin
  rw [← hk] at hread
  by_cases hlong : k < (line newline stdin).length
  · rw [take_line hlong] at hread
    have hall : ((body newline (line newline stdin)).take k).length = k := by
      rw [← take_line hlong, List.length_take_of_le (Nat.le_of_lt hlong)]
    rw [readLine_drain hread hlen hnl, hall, rest_drop hlong]
  · have hshort := Nat.le_of_not_lt hlong
    have hnotMem : newline ∉ line newline stdin := fun h => hcut ⟨hshort, h⟩
    have htake : (body newline (line newline stdin)).take k = line newline stdin := by
      rw [← line_of_notMem hnotMem, List.take_of_length_le hshort]
    rw [List.take_of_length_le hshort, drop_length_line] at hread
    rw [htake] at hnl hlen ⊢
    rw [readLine_drain hread hlen hnl, rest_of_notMem hnotMem, rest]

section Whole
variable (hwhole : (line newline stdin).length ≤ k) (hmem : newline ∈ line newline stdin)
include hwhole hmem

omit hroom in
/-- `fgets` reads a line that fits as a whole. -/
theorem fgets_of_whole :
    fgets (intOfSize cap) stdin
      = (some (body newline (line newline stdin) ++ [newline]), rest newline stdin) := by
  rw [hk, fgets_eq hstdin, List.take_of_length_le hwhole, drop_length_line, ← line_of_mem hmem]

omit hk hstdin in
theorem length_whole_lt : (body newline (line newline stdin) ++ [newline]).length < out.length := by
  rw [← line_of_mem hmem]
  exact Nat.lt_of_le_of_lt hwhole hroom

/-- A whole line without a NUL. -/
theorem readLine_of_whole (h0 : 0 ∉ line newline stdin) :
    readLine cap out stdin
      = (0, writeAt (writeAt out 0 (body newline (line newline stdin) ++ [newline] ++ [0]))
          (body newline (line newline stdin)).length [0], rest newline stdin) :=
  readLine_strip (fgets_of_whole hk hstdin hwhole hmem) (length_whole_lt hroom hwhole hmem)
    fun h => h0 ((List.takeWhile_prefix _).subset h)

/-- A whole line with a NUL: the line behind it is lost. -/
theorem readLine_of_nul (h0 : 0 ∈ line newline stdin) :
    readLine cap out stdin
      = (0, writeAt out 0 (line newline stdin ++ [0]), rest newline (rest newline stdin)) := by
  have h0' : 0 ∈ body newline (line newline stdin) := by
    rw [line_of_mem hmem, List.mem_append, List.mem_singleton] at h0
    exact h0.resolve_right (by decide)
  obtain ⟨l₁, l₂, heq⟩ := List.append_of_mem h0'
  have hnl : newline ∉ (CStr.ofBuffer (body newline (line newline stdin) ++ [newline])).bytes := by
    rw [heq, List.append_assoc, List.cons_append, CStr.ofBuffer_append_zero]
    exact fun h => notMem_body (line newline stdin)
      (heq ▸ List.mem_append_left _ ((List.takeWhile_prefix _).subset h))
  rw [readLine_drain (fgets_of_whole hk hstdin hwhole hmem)
    (length_whole_lt hroom hwhole hmem) hnl, ← line_of_mem hmem]

end Whole

end

/-! ## When it takes one line -/

/-- `read_line` takes one line, whatever the array has in it before. -/
def OneLine (cap : Nat) (stdin : List UInt8) : Prop :=
  ∀ out : List UInt8, cap ≤ out.length → (readLine cap out stdin).1 = 0 →
    Took cap stdin (readLine cap out stdin).2.1 (readLine cap out stdin).2.2

/-- The line has a NUL in it, and `fgets` reads it to its newline. -/
def ReadsNul (cap : Nat) (stdin : List UInt8) : Prop :=
  0 ∈ line newline stdin ∧ newline ∈ line newline stdin ∧
    ((line newline stdin).length : Int) < intOfSize cap

/-- The size is an `int`, or what the conversion leaves of it is enough for the line. -/
def Suffices (cap : Nat) (stdin : List UInt8) : Prop :=
  cap ≤ intMax ∨ ((body newline (line newline stdin)).length : Int) < intOfSize cap ∧
    (intOfSize cap = 1 → stdin ≠ [])

/-- What a call needs when `fgets` reads at all. -/
def Plain (cap : Nat) (stdin : List UInt8) : Prop :=
  0 < intOfSize cap → Suffices cap stdin ∧ ¬ ReadsNul cap stdin

instance decidablePlain (cap : Nat) (stdin : List UInt8) : Decidable (Plain cap stdin) :=
  inferInstanceAs (Decidable (0 < intOfSize cap → (cap ≤ intMax ∨
    ((body newline (line newline stdin)).length : Int) < intOfSize cap ∧
      (intOfSize cap = 1 → stdin ≠ [])) ∧
    ¬ (0 ∈ line newline stdin ∧ newline ∈ line newline stdin ∧
      ((line newline stdin).length : Int) < intOfSize cap)))

theorem oneLine_of_plain {cap : Nat} (h2 : 2 ≤ cap) {stdin : List UInt8} (h : Plain cap stdin) :
    OneLine cap stdin := by
  intro out hout hret
  obtain ⟨-, k, hk, hstdin⟩ := (readLine_cases cap out stdin).resolve_left fun heq => by
    rw [heq] at hret
    exact absurd hret (by simp)
  have hpos : 0 < intOfSize cap := by omega
  obtain ⟨hsuffices, hnul⟩ := h hpos
  have hroom : k < out.length := by
    have hle := (intOfSize_le hpos).1
    omega
  have hne : stdin ≠ [] := by
    rcases hsuffices with hint | ⟨-, hone⟩
    · have heq := intOfSize_of_le hint
      exact hstdin.resolve_left (by omega)
    · exact hstdin.elim (fun h0 => hone (by omega)) id
  have hall : (body newline (line newline stdin)).take (cap - 1)
      = (body newline (line newline stdin)).take k := by
    rcases hsuffices with hint | ⟨hlt, -⟩
    · have heq := intOfSize_of_le hint
      rw [show cap - 1 = k by omega]
    · have hle := (intOfSize_le hpos).1
      rw [List.take_of_length_le (by omega), List.take_of_length_le (by omega)]
  by_cases hcut : (line newline stdin).length ≤ k ∧ newline ∈ line newline stdin
  · obtain ⟨hwhole, hmem⟩ := hcut
    have h0 : 0 ∉ line newline stdin := fun h0 => hnul ⟨h0, hmem, by omega⟩
    rw [readLine_of_whole hk hroom hstdin hwhole hmem h0]
    refine ⟨hne, rfl, ?_⟩
    have hlen := length_of_mem hmem
    have hle := (intOfSize_le hpos).1
    rw [List.take_of_length_le (by omega)]
    exact prefix_strip (length_whole_lt hroom hwhole hmem)
  · rw [readLine_of_cut hk hroom hstdin hcut]
    refine ⟨hne, rfl, ?_⟩
    rw [hall]
    exact prefix_writeAt (length_terminated_le (Nat.lt_of_le_of_lt (List.length_take_le _ _) hroom))

/-- An array of ones has no terminator behind what is written to it. -/
theorem not_prefix_ones {n : Nat} {src l : List UInt8} (hsrc : src.length ≤ n)
    (hl : src.length ≤ l.length) : ¬ l ++ [0] <+: writeAt (List.replicate n 1) 0 src := by
  intro hprefix
  rw [writeAt_zero (by rwa [List.length_replicate]), List.prefix_iff_getElem?] at hprefix
  have hbyte := hprefix l.length (by simp)
  rw [List.getElem?_append_right hl, List.getElem?_drop, List.getElem?_replicate,
    List.getElem_append_right (Nat.le_refl _)] at hbyte
  split at hbyte <;> simp at hbyte

section
variable {cap k : Nat} (hk : intOfSize cap = (k + 1 : Nat)) {stdin : List UInt8}
  (h : OneLine cap stdin)
include hk h

/-- Where the conversion takes room away that the line needs, the array of ones shows it. -/
theorem suffices_of_oneLine : Suffices cap stdin := by
  obtain ⟨hle, hint⟩ := intOfSize_le (by omega : 0 < intOfSize cap)
  have hroom : k < (List.replicate cap (1 : UInt8)).length := by
    rw [List.length_replicate]
    omega
  by_contra hnot
  rw [Suffices, not_or, not_and_or, Int.not_lt, Classical.not_imp, not_not] at hnot
  obtain ⟨hmax, hshort⟩ := hnot
  have hstdin : k = 0 ∨ stdin ≠ [] := by
    rcases hshort with hlong | ⟨hone, -⟩
    · refine .inr ?_
      rintro rfl
      rw [line, body, List.takeWhile_nil, List.length_nil] at hlong
      omega
    · exact .inl (by omega)
  have hcut : ¬ ((line newline stdin).length ≤ k ∧ newline ∈ line newline stdin) := by
    rintro ⟨hwhole, hmem⟩
    rcases hshort with hlong | ⟨-, rfl⟩
    · have hlen := length_of_mem hmem
      omega
    · exact absurd hmem List.not_mem_nil
  have heq := readLine_of_cut hk hroom hstdin hcut
  have htook := h _ (by rw [List.length_replicate]) (congrArg Prod.fst heq)
  rcases hshort with hlong | ⟨-, rfl⟩
  · have hheld := htook.held
    rw [heq] at hheld
    refine not_prefix_ones ?_ ?_ hheld
    · rw [List.length_append, List.length_take, List.length_singleton]
      omega
    · rw [List.length_append, List.length_take, List.length_take, List.length_singleton]
      omega
  · exact htook.ne_nil rfl

/-- With a NUL, the newline is left in the array. -/
theorem not_readsNul_of_oneLine : ¬ ReadsNul cap stdin := by
  rintro ⟨h0, hmem, hlt⟩
  have hle := (intOfSize_le (by omega : 0 < intOfSize cap)).1
  have hroom : k < (List.replicate cap (0 : UInt8)).length := by
    rw [List.length_replicate]
    omega
  have hne : stdin ≠ [] := by
    rintro rfl
    exact absurd hmem List.not_mem_nil
  have hwhole : (line newline stdin).length ≤ k := by omega
  have hlen := length_of_mem hmem
  have heq := readLine_of_nul hk hroom (.inr hne) hwhole hmem h0
  have hheld := (h _ (by rw [List.length_replicate]) (congrArg Prod.fst heq)).held
  have hline := prefix_writeAt (length_terminated_le (Nat.lt_of_le_of_lt hwhole hroom))
  have hshort : (body newline (line newline stdin)).length ≤ cap - 1 := by omega
  rw [heq, List.take_of_length_le hshort] at hheld
  have hsame : body newline (line newline stdin) ++ [0]
      <+: body newline (line newline stdin) ++ [newline] ++ [0] := by
    rw [← line_of_mem hmem]
    exact List.prefix_of_prefix_length_le hheld hline (by simp [hlen])
  rw [List.append_assoc, List.prefix_append_right_inj, List.singleton_append,
    List.cons_prefix_cons] at hsame
  exact absurd hsame.1 (by decide)

end

theorem plain_of_oneLine {cap : Nat} {stdin : List UInt8} (h : OneLine cap stdin) :
    Plain cap stdin := by
  intro hpos
  obtain ⟨k, hk⟩ : ∃ k : Nat, intOfSize cap = (k + 1 : Nat) :=
    ⟨(intOfSize cap).toNat - 1, by omega⟩
  exact ⟨suffices_of_oneLine hk h, not_readsNul_of_oneLine hk h⟩

/-! ## Calls in a row -/

/-- A call of `read_line`, with the array of its caller. -/
structure ReadCall where
  cap : Nat
  out : List UInt8
  /-- The array has at least the size that is passed. -/
  room : cap ≤ out.length

/-- A call is told what is left of standard input; it returns a result and fills its array. -/
def step (stdin : List UInt8) (c : ReadCall) : List UInt8 × Int × List UInt8 :=
  ((readLine c.cap c.out stdin).2.2, (readLine c.cap c.out stdin).1,
    (readLine c.cap c.out stdin).2.1)

/-- The calls of a run that have returned 0, each with the array it has filled. -/
def granted (stdin : List UInt8) (calls : List ReadCall) : List (ReadCall × List UInt8) :=
  ((trace step stdin calls).filter fun x => x.2.1 = 0).map fun x => (x.1, x.2.2)

/-- The array of the call holds the line. -/
def Holds (l : List UInt8) (x : ReadCall × List UInt8) : Prop :=
  (body newline l).take (x.1.cap - 1) ++ [0] <+: x.2

theorem granted_cons_of_ret {stdin : List UInt8} {c : ReadCall}
    (h : (readLine c.cap c.out stdin).1 = 0) (calls : List ReadCall) :
    granted stdin (c :: calls)
      = (c, (readLine c.cap c.out stdin).2.1) ::
          granted (readLine c.cap c.out stdin).2.2 calls := by
  rw [granted, trace, List.filter_cons, if_pos]
  · rfl
  · exact decide_eq_true h

theorem granted_cons_of_ne {stdin : List UInt8} {c : ReadCall}
    (h : (readLine c.cap c.out stdin).1 ≠ 0) (calls : List ReadCall) :
    granted stdin (c :: calls) = granted (readLine c.cap c.out stdin).2.2 calls := by
  rw [granted, trace, List.filter_cons, if_neg]
  · rfl
  · exact fun heq => h (of_decide_eq_true heq)

/-- **One call after the other takes one line after the other.** -/
theorem run_eq {stdin : List UInt8} {calls : List ReadCall} (hcap : ∀ c ∈ calls, 2 ≤ c.cap)
    (h : Along step (fun stdin c => Plain c.cap stdin) stdin calls) :
    all newline (run step stdin calls) = (all newline stdin).drop (granted stdin calls).length ∧
      List.Forall₂ Holds ((all newline stdin).take (granted stdin calls).length)
        (granted stdin calls) := by
  induction calls generalizing stdin with
  | nil => exact ⟨rfl, List.Forall₂.nil⟩
  | cons c calls ih =>
    rw [List.forall_mem_cons] at hcap
    obtain ⟨hdrop, htake⟩ := ih hcap.2 h.2
    rw [run, List.foldl_cons, ← run]
    rcases readLine_cases c.cap c.out stdin with heq | ⟨hret, -⟩
    · have hne : (readLine c.cap c.out stdin).1 ≠ 0 := by
        rw [heq]
        simp
      have hsame : (step stdin c).1 = stdin := congrArg (fun r => r.2.2) heq
      rw [granted_cons_of_ne hne, heq]
      rw [hsame] at hdrop htake ⊢
      exact ⟨hdrop, htake⟩
    · have htook := oneLine_of_plain hcap.1 h.1 c.out c.room hret
      have hrest : (step stdin c).1 = rest newline stdin := htook.stdin_eq
      rw [granted_cons_of_ret hret, htook.stdin_eq, all_eq newline htook.ne_nil, List.length_cons,
        List.drop_succ_cons, List.take_succ_cons]
      rw [hrest] at hdrop htake ⊢
      exact ⟨hdrop, List.Forall₂.cons htook.held htake⟩

/-- **One call, one line.**  In a run of calls with any arrays, each of them that returns 0 takes
one line exactly when none of them lets `fgets` read a NUL and the newline behind it, or loses room
to the conversion of its size.  Then the calls that return 0 hold the lines, one after the other,
and the lines behind them are left. -/
theorem menu_lines {calls : List ReadCall} (hcap : ∀ c ∈ calls, 2 ≤ c.cap) (stdin : List UInt8) :
    (Along step (fun stdin c => OneLine c.cap stdin) stdin calls ↔
      Along step (fun stdin c => Plain c.cap stdin) stdin calls) ∧
    (Along step (fun stdin c => Plain c.cap stdin) stdin calls →
      run step stdin calls = ((all newline stdin).drop (granted stdin calls).length).flatten ∧
      List.Forall₂ Holds ((all newline stdin).take (granted stdin calls).length)
        (granted stdin calls)) := by
  refine ⟨along_congr (fun _ c hc => ⟨plain_of_oneLine, oneLine_of_plain (hcap c hc)⟩) stdin, ?_⟩
  intro h
  obtain ⟨hdrop, htake⟩ := run_eq hcap h
  exact ⟨by rw [← hdrop, flatten_all], htake⟩

/-- A user name that does not fit, and a password. -/
theorem menu_lines_twoCalls :
    List.Forall₂ Holds [[97, 98, 99, newline], [120, newline]]
      (granted [97, 98, 99, newline, 120, newline]
        [⟨3, [1, 1, 1], by decide⟩, ⟨4, [1, 1, 1, 1], by decide⟩]) := by
  have hlines := (@menu_lines [⟨3, [1, 1, 1], by decide⟩, ⟨4, [1, 1, 1, 1], by decide⟩] (by decide)
    [97, 98, 99, newline, 120, newline]).2 (by decide +kernel)
  have htake : (all newline [97, 98, 99, newline, 120, newline]).take
      (granted [97, 98, 99, newline, 120, newline]
        [⟨3, [1, 1, 1], by decide⟩, ⟨4, [1, 1, 1, 1], by decide⟩]).length
      = [[97, 98, 99, newline], [120, newline]] := by
    decide +kernel
  rw [htake] at hlines
  exact hlines.2

/-- A NUL is typed into a user name: the password is gone with it. -/
theorem menu_line_lost :
    (readLine 33 (List.replicate 33 0) [97, 0, newline, 98, newline]).1 = 0 ∧
      (readLine 33 (List.replicate 33 0) [97, 0, newline, 98, newline]).2.2
        ≠ rest newline [97, 0, newline, 98, newline] := by
  decide +kernel

end Ui

end ChatProject
