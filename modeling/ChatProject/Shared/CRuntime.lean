import Mathlib.Data.List.TakeWhile
import Mathlib.Logic.Function.Basic

/-!
# The C the program is written in

Four things every module of the program takes from C are fixed here once.

* **Strings.**  A `char*` that reaches the program's logic is the list of bytes before its
  terminating NUL, so a `CStr` carries the proof that no byte of it is zero.  Two such strings are
  equal exactly when `strcmp` returns 0.  What `sprintf` makes of literals and numbers is bytes too.
* **Memory.**  Whether a `malloc` succeeds is not up to the program.  An `Alloc` is the list of the
  answers the coming calls will give; once it runs out every call succeeds, so `[]` is the world
  with no allocation failure and every finite pattern of failures is some list.  An array whose
  size is not known to be right is a `Block`, and an access behind its end has no result.
* **Arrays.**  A `uint8_t` array is the list of its bytes, and a write into it (`writeAt`) keeps its
  length.
* **`size_t`.**  Subtraction wraps at `2 ^ 64`, which `sizeSub` spells out where the code subtracts,
  and so does the product `sizeMul` that an array's size in bytes is.
-/

set_option autoImplicit false

namespace ChatProject

/-! ## Strings -/

/-- A C string: the bytes before the terminating NUL. -/
structure CStr where
  /-- The bytes, without the terminator. -/
  bytes : List UInt8
  /-- None of them is the terminator. -/
  noNul : 0 ∉ bytes
deriving DecidableEq

namespace CStr

theorem ext {s t : CStr} (h : s.bytes = t.bytes) : s = t := by
  cases s; cases t; cases h; rfl

/-- `strlen`. -/
def length (s : CStr) : Nat := s.bytes.length

/-- The empty string. -/
def empty : CStr := ⟨[], by simp⟩

instance : Inhabited CStr := ⟨empty⟩

/-- What a reader of a `char` array sees: the bytes up to the first NUL, or all of them when the
terminator was put right behind. -/
def ofBuffer (buf : List UInt8) : CStr :=
  ⟨buf.takeWhile (· != 0), fun h => by
    have h0 := List.mem_takeWhile_imp h
    simp at h0⟩

theorem ofBuffer_bytes (s : CStr) : ofBuffer s.bytes = s := by
  apply ext
  show s.bytes.takeWhile (· != 0) = s.bytes
  rw [List.takeWhile_eq_self_iff]
  intro b hb
  have : b ≠ 0 := fun h0 => s.noNul (h0 ▸ hb)
  simpa using this

/-- What stands behind a NUL is not read. -/
theorem ofBuffer_append_zero (l t : List UInt8) : ofBuffer (l ++ 0 :: t) = ofBuffer l := by
  apply ext
  show (l ++ 0 :: t).takeWhile (· != 0) = l.takeWhile (· != 0)
  induction l with
  | nil => rfl
  | cons c l ih => rw [List.cons_append, List.takeWhile_cons, List.takeWhile_cons, ih]

theorem length_ofBuffer_le (buf : List UInt8) : (ofBuffer buf).length ≤ buf.length :=
  (List.takeWhile_prefix _).length_le

/-- `strncpy(dst, s, n)` followed by `dst[n] = '\0'`: at most `n` bytes survive. -/
def ncopy (n : Nat) (s : CStr) : CStr :=
  ⟨s.bytes.take n, fun h => s.noNul (List.mem_of_mem_take h)⟩

theorem ncopy_eq_self {n : Nat} {s : CStr} (h : s.length ≤ n) : s.ncopy n = s :=
  ext (List.take_of_length_le h)

end CStr

/-- A string literal of the source. -/
def literal (s : String) : List UInt8 := s.toList.map fun c => UInt8.ofNat c.toNat

/-- The digits `sprintf` prints for `%u`. -/
def decimal (n : Nat) : List UInt8 := (Nat.toDigits 10 n).map fun c => UInt8.ofNat c.toNat

/-- What it prints for `%d`. -/
def signedDecimal (n : Int) : List UInt8 :=
  if n < 0 then literal "-" ++ decimal n.natAbs else decimal n.natAbs

/-! ## Memory -/

/-- The answers the coming `malloc` calls will give; past its end every call succeeds. -/
abbrev Alloc := List Bool

/-- One call of `malloc` (or `calloc`): whether it returned a block, and the answers left. -/
def malloc (al : Alloc) : Bool × Alloc := (al.headD true, al.tail)

@[simp] theorem malloc_nil : malloc [] = (true, []) := rfl

theorem ne_nil_of_malloc {al al' : Alloc} (h : malloc al = (false, al')) : al ≠ [] := by
  rintro rfl
  simp at h

/-- A call that fails finds the failure among the answers. -/
theorem false_mem_of_malloc {al al' : Alloc} (h : malloc al = (false, al')) : false ∈ al := by
  cases al with
  | nil => exact absurd h (by simp)
  | cons ok al =>
    rw [malloc, Prod.mk.injEq] at h
    exact h.1 ▸ List.mem_cons_self

theorem mem_of_mem_malloc {al al' : Alloc} {ok b : Bool} (h : malloc al = (ok, al'))
    (hb : b ∈ al') : b ∈ al := by
  rw [malloc, Prod.mk.injEq] at h
  exact List.mem_of_mem_tail (h.2 ▸ hb)

/-- The world without allocation failure stays without. -/
theorem malloc_tail_nil {al al' : Alloc} {ok : Bool} (h : malloc al = (ok, al')) (hal : al = []) :
    al' = [] := by
  subst hal
  exact (Prod.mk.injEq .. ▸ h).2.symm

/-- A block from `malloc` as an array: how many cells it has room for, and what is in them. -/
structure Block (α : Type) where
  slots : Nat
  cells : Nat → α

namespace Block

variable {α : Type} {b : Block α} {i : Nat}

/-- `array[i]`. -/
def load (b : Block α) (i : Nat) : Option α := if i < b.slots then some (b.cells i) else none

/-- `array[i] = a`. -/
def store (b : Block α) (i : Nat) (a : α) : Option (Block α) :=
  if i < b.slots then some { b with cells := Function.update b.cells i a } else none

theorem load_of_lt (h : i < b.slots) : b.load i = some (b.cells i) := if_pos h

theorem store_of_lt (h : i < b.slots) (a : α) :
    b.store i a = some { b with cells := Function.update b.cells i a } :=
  if_pos h

theorem store_of_not_lt (h : ¬ i < b.slots) (a : α) : b.store i a = none := if_neg h

end Block

/-! ## Arrays -/

/-- `memcpy(buf + pos, src, n)` into an array of bytes: what would land behind its end is cut off
here, so the array keeps its length. -/
def writeAt (buf : List UInt8) (pos : Nat) (src : List UInt8) : List UInt8 :=
  (buf.take pos ++ src ++ buf.drop (pos + src.length)).take buf.length

@[simp] theorem length_writeAt (buf : List UInt8) (pos : Nat) (src : List UInt8) :
    (writeAt buf pos src).length = buf.length := by
  simp only [writeAt, List.length_take, List.length_append, List.length_drop]
  omega

/-- What stands in front after a write that fits. -/
theorem take_writeAt {buf src : List UInt8} {pos : Nat} (h : pos + src.length ≤ buf.length) :
    (writeAt buf pos src).take (pos + src.length) = buf.take pos ++ src := by
  rw [writeAt, List.take_take, Nat.min_eq_left h]
  exact List.take_left' (by rw [List.length_append, List.length_take]; omega)

/-- A write at the front. -/
theorem writeAt_zero {buf src : List UInt8} (h : src.length ≤ buf.length) :
    writeAt buf 0 src = src ++ buf.drop src.length := by
  rw [writeAt, List.take_zero, List.nil_append, Nat.zero_add, List.take_of_length_le]
  rw [List.length_append, List.length_drop]
  omega

/-! ## `size_t` -/

/-- `a - b` on 64-bit `size_t`. -/
def sizeSub (a b : Nat) : Nat := if b ≤ a then a - b else a + UInt64.size - b

theorem sizeSub_eq {a b : Nat} (h : b ≤ a) : sizeSub a b = a - b := if_pos h

/-- `a * b` on 64-bit `size_t`. -/
def sizeMul (a b : Nat) : Nat := a * b % UInt64.size

theorem sizeMul_eq {a b : Nat} (h : a * b < UInt64.size) : sizeMul a b = a * b := Nat.mod_eq_of_lt h

end ChatProject
