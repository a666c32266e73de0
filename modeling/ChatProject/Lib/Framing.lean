import Mathlib.Data.List.Basic

/-!
# Frames in a stream that arrives in pieces

A stream transport delivers symbols in order, in pieces of its own choosing; the messages carried
by it have to be found again by looking at the symbols.  This file has the two notions a proof
about such a receiver needs.

* `Framing` — a rule that tells, from the front of a stream, how long the first frame is.
  `Segmentation s fs r` says that `s` is the frames `fs` one after the other and then `r`, in which
  no frame is complete.  There is only one segmentation of a stream (`Segmentation.unique`), and the
  segmentation of a longer stream is obtained by going on from the incomplete rest
  (`Segmentation.append`): this is all that makes incremental reassembly work.
* `Inbox` — the receiving end of a connection: the pieces in which the symbols will turn up, and how
  the stream ends.  `Inbox.recv` hands out the next piece, or as much of it as there is space for.
  Every way to cut a stream into nonempty pieces is some `Inbox`, and a `Channel` cuts up whatever
  is sent through it.
-/

set_option autoImplicit false

universe u

/-! ## Frames -/

/-- A rule that finds the length of the first frame of a stream, once enough of it is there. -/
structure Framing (α : Type u) where
  /-- The length of the first frame, if the symbols at hand tell it. -/
  size : List α → Option Nat
  /-- No frame is empty. -/
  pos : ∀ {s n}, size s = some n → 0 < n
  /-- What comes later does not change it. -/
  append : ∀ {s n} (t : List α), size s = some n → size (s ++ t) = some n
  /-- The frame itself is enough to tell it. -/
  take : ∀ {s n}, size s = some n → n ≤ s.length → size (s.take n) = some n

namespace Framing

variable {α : Type u} {F : Framing α} {s t f r r' : List α} {fs gs : List (List α)} {n : Nat}

/-- One whole frame and nothing else. -/
def IsFrame (F : Framing α) (f : List α) : Prop := F.size f = some f.length

/-- No frame is complete. -/
def Incomplete (F : Framing α) (s : List α) : Prop := ∀ n, F.size s = some n → s.length < n

/-- `s` is the frames `fs` and then `r`, where no further frame is complete. -/
structure Segmentation (F : Framing α) (s : List α) (fs : List (List α)) (r : List α) : Prop where
  flatten : s = fs.flatten ++ r
  frames : ∀ f ∈ fs, F.IsFrame f
  rest : F.Incomplete r

theorem incomplete_nil : F.Incomplete [] := fun _ h => F.pos h

theorem isFrame_take (h : F.size s = some n) (hn : n ≤ s.length) : F.IsFrame (s.take n) := by
  rw [IsFrame, F.take h hn, List.length_take, Nat.min_eq_left hn]

theorem IsFrame.size_append (h : F.IsFrame f) (t : List α) : F.size (f ++ t) = some f.length :=
  F.append t h

theorem IsFrame.ne_nil (h : F.IsFrame f) : f ≠ [] := by
  rintro rfl
  exact absurd (F.pos h) (by simp)

/-- Where a frame stands in front, the stream is not incomplete. -/
theorem IsFrame.not_incomplete (h : F.IsFrame f) (t : List α) : ¬ F.Incomplete (f ++ t) := by
  intro hinc
  have hlt := hinc _ (h.size_append t)
  rw [List.length_append] at hlt
  omega

/-- A frame is not complete before its last symbol. -/
theorem IsFrame.incomplete_take {k : Nat} (h : F.IsFrame f) (hk : k < f.length) :
    F.Incomplete (f.take k) := by
  intro n hn
  have hsize := F.append (f.drop k) hn
  rw [List.take_append_drop, h, Option.some_inj] at hsize
  rw [List.length_take, ← hsize]
  omega

namespace Segmentation

theorem nil (h : F.Incomplete s) : F.Segmentation s [] s := ⟨rfl, by simp, h⟩

theorem cons (hf : F.IsFrame f) (h : F.Segmentation s fs r) :
    F.Segmentation (f ++ s) (f :: fs) r := by
  refine ⟨?_, ?_, h.rest⟩
  · rw [h.flatten, List.flatten_cons, List.append_assoc]
  · intro g hg
    rcases List.mem_cons.mp hg with rfl | hg
    · exact hf
    · exact h.frames g hg

/-- **Going on from the rest.** -/
theorem append (h : F.Segmentation s fs r) (h' : F.Segmentation (r ++ t) gs r') :
    F.Segmentation (s ++ t) (fs ++ gs) r' := by
  refine ⟨?_, ?_, h'.rest⟩
  · rw [h.flatten, List.append_assoc, h'.flatten, List.flatten_append, List.append_assoc]
  · intro f hf
    rcases List.mem_append.mp hf with hf | hf
    · exact h.frames f hf
    · exact h'.frames f hf

/-- **There is only one segmentation.** -/
theorem unique (h : F.Segmentation s fs r) (h' : F.Segmentation s gs r') : fs = gs ∧ r = r' := by
  induction fs generalizing s gs with
  | nil =>
    cases gs with
    | nil => exact ⟨rfl, h.flatten.symm.trans h'.flatten⟩
    | cons g gs =>
      have hr : r = g ++ (gs.flatten ++ r') := by
        rw [← List.append_assoc, ← List.flatten_cons, ← h'.flatten, h.flatten]
        rfl
      exact absurd (hr ▸ h.rest) ((h'.frames g List.mem_cons_self).not_incomplete _)
  | cons f fs ih =>
    have hs : s = f ++ (fs.flatten ++ r) := by
      rw [← List.append_assoc, ← List.flatten_cons, ← h.flatten]
    have hf := h.frames f List.mem_cons_self
    cases gs with
    | nil =>
      have hr : r' = f ++ (fs.flatten ++ r) := by rw [← hs, h'.flatten]; rfl
      exact absurd (hr ▸ h'.rest) (hf.not_incomplete _)
    | cons g gs =>
      have hs' : s = g ++ (gs.flatten ++ r') := by
        rw [← List.append_assoc, ← List.flatten_cons, ← h'.flatten]
      have hg := h'.frames g List.mem_cons_self
      -- both are as long as the rule says the first frame of `s` is
      have hlen : f.length = g.length := by
        have hsize := hf.size_append (fs.flatten ++ r)
        rw [← hs, hs', hg.size_append] at hsize
        exact (Option.some.inj hsize).symm
      obtain ⟨rfl, htail⟩ := List.append_inj (hs.symm.trans hs') hlen
      obtain ⟨rfl, hr⟩ := ih (s := fs.flatten ++ r)
        ⟨rfl, fun f' hf' => h.frames f' (List.mem_cons_of_mem _ hf'), h.rest⟩
        ⟨htail, fun g' hg' => h'.frames g' (List.mem_cons_of_mem _ hg'), h'.rest⟩
      exact ⟨rfl, hr⟩

end Segmentation

end Framing

/-! ## Pieces -/

/-- The receiving end of a connection. -/
structure Inbox (α : Type u) where
  /-- The pieces the coming symbols will turn up in. -/
  chunks : List (List α)
  /-- Every piece has something in it. -/
  nonempty : [] ∉ chunks
  /-- Whether the connection breaks after them, rather than being closed in good order. -/
  broken : Bool

namespace Inbox

variable {α : Type u}

/-- All that is still to come. -/
def bytes (x : Inbox α) : List α := x.chunks.flatten

/-- A read with room for `space` symbols: the next piece or its front, nothing at the end of the
stream, `none` if the connection is broken. -/
def recv (x : Inbox α) (space : Nat) : Option (List α) × Inbox α :=
  match x with
  | ⟨[], h, broken⟩ => (if broken then none else some [], ⟨[], h, broken⟩)
  | ⟨c :: cs, h, broken⟩ =>
    if hc : c.length ≤ space then
      (some c, ⟨cs, fun hcs => h (List.mem_cons_of_mem _ hcs), broken⟩)
    else
      (some (c.take space), ⟨c.drop space :: cs, by
        rw [List.mem_cons, not_or]
        refine ⟨fun h0 => hc (List.drop_eq_nil_iff.mp h0.symm), fun hcs => h ?_⟩
        exact List.mem_cons_of_mem _ hcs, broken⟩)

/-- **What a read can do.**  It finds the end of the stream, or takes at least one symbol and no
more than there is space for off the front of what is to come. -/
theorem recv_cases (x : Inbox α) {space : Nat} (hspace : 0 < space) :
    (x.bytes = [] ∧ x.recv space = (if x.broken then none else some [], x)) ∨
    ∃ c y, c ≠ [] ∧ c.length ≤ space ∧ x.recv space = (some c, y) ∧ x.bytes = c ++ y.bytes ∧
      y.broken = x.broken := by
  obtain ⟨chunks, h, broken⟩ := x
  cases chunks with
  | nil => exact .inl ⟨rfl, rfl⟩
  | cons c cs =>
    right
    have hc : c ≠ [] := fun h0 => h (h0 ▸ List.mem_cons_self)
    by_cases hle : c.length ≤ space
    · exact ⟨c, _, hc, hle, dif_pos hle, rfl, rfl⟩
    · refine ⟨c.take space, _, ?_, ?_, dif_neg hle, ?_, rfl⟩
      · rw [Ne, List.take_eq_nil_iff, not_or]
        exact ⟨by omega, hc⟩
      · rw [List.length_take]
        exact Nat.min_le_left _ _
      · rw [bytes, bytes, List.flatten_cons, List.flatten_cons, ← List.append_assoc,
          List.take_append_drop]

/-- The stream of which the first `n` symbols have arrived. -/
def arrived (n : Nat) (s : List α) : Inbox α :=
  ⟨[s.take n, s.drop n].filter (!·.isEmpty), by simp, false⟩

theorem bytes_arrived (n : Nat) (s : List α) : (arrived n s).bytes = s := by
  rw [arrived, bytes, List.flatten_filter_not_isEmpty]
  simp

end Inbox

/-- A reliable channel: what goes in comes out, in order, in pieces of the channel's choosing. -/
structure Channel (α : Type u) where
  /-- The pieces. -/
  cut : List α → Inbox α
  /-- They are what went in. -/
  bytes_cut : ∀ s, (cut s).bytes = s

/-- The channel that delivers one symbol at a time. -/
def Channel.bytewise (α : Type u) : Channel α where
  cut s := ⟨s.map ([·]), by simp, false⟩
  bytes_cut s := by
    induction s with
    | nil => rfl
    | cons a s ih => exact congrArg (a :: ·) ih
