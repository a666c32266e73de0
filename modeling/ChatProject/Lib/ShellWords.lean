import Mathlib.Data.List.Count

/-!
# How a shell splits a command line

The token recognition of the POSIX shell, with quote removal: a command line is read byte by byte in
one of a few modes, and comes apart into words and operators.  Blanks outside of quotes separate
words.  A single quote keeps everything up to the next one, a double quote keeps everything but
expansions and a few escapes, and a backslash keeps the byte behind it.  Expansions are not split
further: what a `$` or a backquote outside of single quotes stands for is not in the command line,
so there `split` gives up, as it does at an unfinished quote.

* `split` — the words and operators of a command line.
* `Reads`, `run_words` — command lines that are put together word by word, from plain words
  (`reads_plain`) and words with a part in single quotes (`reads_quoted`).
* `not_mem_of_kept` — a command line that comes out with all its double quotes and backslashes has
  lost all its single quotes.
-/

set_option autoImplicit false

namespace Shell

/-! ## Tokens -/

/-- A piece of a command line. -/
inductive Token where
  /-- A word, with its quotes removed. -/
  | word (bytes : List UInt8)
  /-- A byte that is an operator, or part of one. -/
  | operator (byte : UInt8)
deriving DecidableEq

/-- What the next byte is read as. -/
inductive Mode where
  /-- No word has been started. -/
  | between
  /-- In a word, outside of quotes. -/
  | bare
  /-- In single quotes. -/
  | single
  /-- In double quotes. -/
  | double
  /-- Behind a backslash outside of quotes, in a word or not. -/
  | escape (started : Bool)
  /-- Behind a backslash in double quotes. -/
  | doubleEscape
  /-- In a comment. -/
  | comment
deriving DecidableEq

/-- What becomes of a byte. -/
inductive Act where
  /-- It is added to the word. -/
  | keep
  /-- It is dropped. -/
  | skip
  /-- It is added to the word, and so is the backslash before it. -/
  | keepBoth
  /-- It is dropped, and the word is complete. -/
  | close
  /-- It is an operator. -/
  | operator
  /-- It is an operator, and the word before it is complete. -/
  | closeOperator
deriving DecidableEq

/-- Space and tab. -/
def blanks : List UInt8 := [32, 9]

/-- Newline and `&();<>|`. -/
def operators : List UInt8 := [10, 38, 40, 41, 59, 60, 62, 124]

/-- `$` and the backquote. -/
def expansions : List UInt8 := [36, 96]

/-- One byte: what becomes of it, and how the next is read. -/
def step : Mode → UInt8 → Option (Act × Mode)
  | .between, b =>
    if b ∈ blanks then some (.skip, .between)
    else if b ∈ operators then some (.operator, .between)
    else if b ∈ expansions then none
    else if b = 35 then some (.skip, .comment)
    else if b = 39 then some (.skip, .single)
    else if b = 34 then some (.skip, .double)
    else if b = 92 then some (.skip, .escape false)
    else some (.keep, .bare)
  | .bare, b =>
    if b ∈ blanks then some (.close, .between)
    else if b ∈ operators then some (.closeOperator, .between)
    else if b ∈ expansions then none
    else if b = 39 then some (.skip, .single)
    else if b = 34 then some (.skip, .double)
    else if b = 92 then some (.skip, .escape true)
    else some (.keep, .bare)
  | .single, b => if b = 39 then some (.skip, .bare) else some (.keep, .single)
  | .double, b =>
    if b ∈ expansions then none
    else if b = 34 then some (.skip, .bare)
    else if b = 92 then some (.skip, .doubleEscape)
    else some (.keep, .double)
  | .escape started, b =>
    -- a backslash before a newline continues the line
    if b = 10 then some (.skip, if started then .bare else .between) else some (.keep, .bare)
  | .doubleEscape, b =>
    if b = 10 then some (.skip, .double)
    else if b ∈ expansions ∨ b = 34 ∨ b = 92 then some (.keep, .double)
    else some (.keepBoth, .double)
  | .comment, b => if b = 10 then some (.operator, .between) else some (.skip, .comment)

/-- The end of the line. -/
def finish : Mode → (word : List UInt8) → Option (List Token)
  | .between, _ => some []
  | .bare, word => some [.word word]
  | .comment, _ => some []
  | _, _ => none

/-- The tokens of what is left of a command line, with the part of the word already read. -/
def run : Mode → (word line : List UInt8) → Option (List Token)
  | mode, word, [] => finish mode word
  | mode, word, b :: line =>
    match step mode b with
    | none => none
    | some (.keep, mode) => run mode (word ++ [b]) line
    | some (.skip, mode) => run mode word line
    | some (.keepBoth, mode) => run mode (word ++ [92, b]) line
    | some (.close, mode) => (run mode [] line).map (.word word :: ·)
    | some (.operator, mode) => (run mode [] line).map (.operator b :: ·)
    | some (.closeOperator, mode) =>
      (run mode [] line).map fun tokens => .word word :: .operator b :: tokens

/-- The tokens of a command line. -/
def split (line : List UInt8) : Option (List Token) := run .between [] line

/-! ## Lines that are put together -/

/-- A byte without a meaning to the shell. -/
def Plain (b : UInt8) : Prop :=
  b ∉ blanks ∧ b ∉ operators ∧ b ∉ expansions ∧ b ≠ 35 ∧ b ≠ 39 ∧ b ≠ 34 ∧ b ≠ 92

instance : DecidablePred Plain := fun _ => inferInstanceAs (Decidable (_ ∧ _))

theorem plain_of_all {v : List UInt8} (h : v.all (fun b => Plain b) = true) : ∀ b ∈ v, Plain b :=
  fun b hb => of_decide_eq_true (List.all_eq_true.mp h b hb)

theorem step_bare_plain {b : UInt8} (h : Plain b) : step .bare b = some (.keep, .bare) := by
  obtain ⟨h1, h2, h3, -, h5, h6, h7⟩ := h
  rw [step, if_neg h1, if_neg h2, if_neg h3, if_neg h5, if_neg h6, if_neg h7]

theorem step_between_plain {b : UInt8} (h : Plain b) : step .between b = some (.keep, .bare) := by
  obtain ⟨h1, h2, h3, h4, h5, h6, h7⟩ := h
  rw [step, if_neg h1, if_neg h2, if_neg h3, if_neg h4, if_neg h5, if_neg h6, if_neg h7]

theorem run_bare_plain {v : List UInt8} (h : ∀ b ∈ v, Plain b) (word line : List UInt8) :
    run .bare word (v ++ line) = run .bare (word ++ v) line := by
  induction v generalizing word with
  | nil => rw [List.append_nil, List.nil_append]
  | cons b v ih =>
    rw [List.cons_append, run, step_bare_plain (h b List.mem_cons_self)]
    simp only
    rw [ih fun c hc => h c (List.mem_cons_of_mem b hc), List.append_assoc, List.singleton_append]

theorem run_between_plain {v : List UInt8} (h : ∀ b ∈ v, Plain b) (hne : v ≠ [])
    (line : List UInt8) : run .between [] (v ++ line) = run .bare v line := by
  obtain ⟨b, v, rfl⟩ := List.exists_cons_of_ne_nil hne
  rw [List.cons_append, run, step_between_plain (h b List.mem_cons_self)]
  simp only
  rw [run_bare_plain fun c hc => h c (List.mem_cons_of_mem b hc), List.nil_append,
    List.singleton_append]

theorem run_single {v : List UInt8} (h : 39 ∉ v) (word line : List UInt8) :
    run .single word (v ++ 39 :: line) = run .bare (word ++ v) line := by
  induction v generalizing word with
  | nil => rw [List.append_nil, List.nil_append, run, step, if_pos rfl]
  | cons b v ih =>
    rw [List.mem_cons, not_or] at h
    rw [List.cons_append, run, step, if_neg (Ne.symm h.1)]
    simp only
    rw [ih h.2, List.append_assoc, List.singleton_append]

/-- A text that the shell reads as one word, when a space follows. -/
def Reads (text word : List UInt8) : Prop :=
  ∀ line, run .between [] (text ++ 32 :: line) = (run .between [] line).map (.word word :: ·)

theorem reads_plain {v : List UInt8} (h : ∀ b ∈ v, Plain b) (hne : v ≠ []) : Reads v v :=
  fun line => run_between_plain h hne (32 :: line)

/-- A plain beginning, and the rest in single quotes. -/
theorem reads_quoted {u v : List UInt8} (hu : ∀ b ∈ u, Plain b) (hv : 39 ∉ v) :
    Reads (u ++ 39 :: (v ++ [39])) (u ++ v) := by
  intro line
  have hquote : run .bare u (39 :: (v ++ 39 :: 32 :: line)) =
      (run .between [] line).map (.word (u ++ v) :: ·) := by
    rw [run]
    exact run_single hv u (32 :: line)
  rw [List.append_assoc, List.cons_append, List.append_assoc, List.singleton_append]
  by_cases hne : u = []
  · subst hne
    exact run_single hv [] (32 :: line)
  · rw [run_between_plain hu hne, hquote]

/-- **Word by word.** -/
theorem run_words {texts : List (List UInt8 × List UInt8)} (h : ∀ t ∈ texts, Reads t.1 t.2)
    (line : List UInt8) :
    run .between [] (texts.flatMap (fun t => t.1 ++ [32]) ++ line) =
      (run .between [] line).map (texts.map (fun t => .word t.2) ++ ·) := by
  induction texts with
  | nil => rw [List.flatMap_nil, List.nil_append, List.map_nil]; simp
  | cons t texts ih =>
    rw [List.flatMap_cons, List.append_assoc, List.append_assoc, List.singleton_append,
      h t List.mem_cons_self, ih fun t' ht' => h t' (List.mem_cons_of_mem t ht'), Option.map_map]
    rfl

/-! ## What is lost on the way

A single quote comes out of a command line only where a backslash or a double quote keeps it, and
these are lost then.  So their number tells. -/

/-- The bytes of the words. -/
def bytesOf (tokens : List Token) : List UInt8 :=
  tokens.flatMap fun
    | .word bytes => bytes
    | .operator _ => []

@[simp] theorem bytesOf_word (word : List UInt8) (tokens : List Token) :
    bytesOf (.word word :: tokens) = word ++ bytesOf tokens := rfl

@[simp] theorem bytesOf_operator (b : UInt8) (tokens : List Token) :
    bytesOf (.operator b :: tokens) = bytesOf tokens := rfl

theorem bytesOf_words (words : List (List UInt8)) (tokens : List Token) :
    bytesOf (words.map .word ++ tokens) = words.flatten ++ bytesOf tokens := by
  induction words with
  | nil => rfl
  | cons word words ih =>
    rw [List.map_cons, List.cons_append, bytesOf_word, ih, List.flatten_cons, List.append_assoc]

/-- The number of double quotes and backslashes. -/
def marks (line : List UInt8) : Nat := line.countP fun b => b = 34 ∨ b = 92

@[simp] theorem marks_nil : marks [] = 0 := rfl

@[simp] theorem marks_append (l l' : List UInt8) : marks (l ++ l') = marks l + marks l' :=
  List.countP_append

theorem marks_cons (b : UInt8) (l : List UInt8) : marks (b :: l) = marks [b] + marks l :=
  marks_append [b] l

/-- A backslash that may still come out. -/
def Mode.pending : Mode → Nat
  | .doubleEscape => 1
  | _ => 0

/-- No double quote or backslash is in force. -/
def Mode.Clean : Mode → Prop
  | .between | .bare | .single | .comment => True
  | _ => False

/-- What one byte does to the marks. -/
theorem pending_of_step {mode mode' : Mode} {b : UInt8} {act : Act}
    (h : step mode b = some (act, mode')) :
    (act = .skip → mode'.pending ≤ mode.pending + marks [b]) ∧
      (act = .keepBoth → mode.pending = 1) ∧ (act ≠ .skip → mode'.pending = 0) := by
  cases mode <;> simp only [step] at h <;> split_ifs at h <;>
    simp only [Option.some.injEq, Prod.mk.injEq] at h <;>
    obtain ⟨rfl, rfl⟩ := h <;> simp_all [Mode.pending, marks]

/-- What one byte does to the quotes: nothing is kept by a mark, or a mark is lost. -/
theorem clean_of_step {mode mode' : Mode} {b : UInt8} {act : Act} (hmode : mode.Clean)
    (h : step mode b = some (act, mode')) :
    (mode'.Clean ∧ act ≠ .keepBoth ∧ (act = .keep → b ≠ 39)) ∨
      (act = .skip ∧ mode'.pending = 0 ∧ marks [b] = 1) := by
  cases mode <;> simp only [step] at h <;> split_ifs at h <;>
    simp only [Option.some.injEq, Prod.mk.injEq] at h <;>
    obtain ⟨rfl, rfl⟩ := h <;> simp_all [Mode.pending, Mode.Clean, marks]

theorem marks_bytesOf_le {mode : Mode} {word line : List UInt8} {tokens : List Token}
    (h : run mode word line = some tokens) :
    marks (bytesOf tokens) ≤ marks word + mode.pending + marks line := by
  induction line generalizing mode word tokens with
  | nil =>
    rw [run] at h
    cases mode <;> simp only [finish, Option.some.injEq, reduceCtorEq] at h <;> subst h <;>
      simp [bytesOf]
  | cons b line ih =>
    rw [run] at h
    rw [marks_cons]
    cases hstep : step mode b with
    | none =>
      rw [hstep] at h
      exact absurd h (by simp)
    | some next =>
      obtain ⟨act, mode'⟩ := next
      obtain ⟨hskip, hboth, hzero⟩ := pending_of_step hstep
      rw [hstep] at h
      cases act with
      | keep =>
        have hle := ih h
        rw [marks_append] at hle
        have := hzero (by simp)
        omega
      | skip =>
        have hle := ih h
        have := hskip rfl
        omega
      | keepBoth =>
        have hle := ih h
        rw [marks_append, marks_cons, show marks [92] = 1 from rfl] at hle
        have := hzero (by simp)
        have := hboth rfl
        omega
      | close =>
        obtain ⟨tokens, htokens, rfl⟩ := Option.map_eq_some_iff.mp h
        have hle := ih htokens
        have := hzero (by simp)
        rw [bytesOf_word, marks_append]
        rw [marks_nil] at hle
        omega
      | operator =>
        obtain ⟨tokens, htokens, rfl⟩ := Option.map_eq_some_iff.mp h
        have hle := ih htokens
        have := hzero (by simp)
        rw [bytesOf_operator]
        rw [marks_nil] at hle
        omega
      | closeOperator =>
        obtain ⟨tokens, htokens, rfl⟩ := Option.map_eq_some_iff.mp h
        have hle := ih htokens
        have := hzero (by simp)
        rw [bytesOf_word, bytesOf_operator, marks_append]
        rw [marks_nil] at hle
        omega

/-- **Kept and lost.**  Where all double quotes and backslashes come out, no single quote does. -/
theorem not_mem_of_kept {mode : Mode} (hmode : mode.Clean) {word line : List UInt8}
    {tokens : List Token} (h : run mode word line = some tokens)
    (hkept : marks (bytesOf tokens) = marks word + marks line) (hword : 39 ∉ word) :
    39 ∉ bytesOf tokens := by
  induction line generalizing mode word tokens with
  | nil =>
    rw [run] at h
    cases mode <;> simp only [finish, Option.some.injEq, reduceCtorEq] at h <;> subst h <;>
      simp [bytesOf, hword]
  | cons b line ih =>
    rw [run] at h
    rw [marks_cons] at hkept
    cases hstep : step mode b with
    | none =>
      rw [hstep] at h
      exact absurd h (by simp)
    | some next =>
      obtain ⟨act, mode'⟩ := next
      rw [hstep] at h
      obtain ⟨hclean, hboth, hkeep⟩ | ⟨rfl, hzero, hlost⟩ := clean_of_step hmode hstep
      · have hpending : mode'.pending = 0 := by
          cases mode' <;> first | rfl | exact absurd hclean id
        cases act with
        | keep =>
          refine ih hclean h ?_ ?_
          · rw [hkept, marks_append]
            omega
          · rw [List.mem_append, List.mem_singleton]
            exact not_or.mpr ⟨hword, Ne.symm (hkeep rfl)⟩
        | skip =>
          have hle := marks_bytesOf_le h
          exact ih hclean h (by omega) hword
        | keepBoth => exact absurd rfl hboth
        | close =>
          obtain ⟨tokens, htokens, rfl⟩ := Option.map_eq_some_iff.mp h
          have hle := marks_bytesOf_le htokens
          rw [bytesOf_word, marks_append] at hkept
          rw [bytesOf_word, List.mem_append, not_or]
          exact ⟨hword, ih hclean htokens (by rw [marks_nil] at hle ⊢; omega) List.not_mem_nil⟩
        | operator =>
          obtain ⟨tokens, htokens, rfl⟩ := Option.map_eq_some_iff.mp h
          have hle := marks_bytesOf_le htokens
          rw [bytesOf_operator] at hkept ⊢
          exact ih hclean htokens (by rw [marks_nil] at hle ⊢; omega) List.not_mem_nil
        | closeOperator =>
          obtain ⟨tokens, htokens, rfl⟩ := Option.map_eq_some_iff.mp h
          have hle := marks_bytesOf_le htokens
          rw [bytesOf_word, bytesOf_operator, marks_append] at hkept
          rw [bytesOf_word, bytesOf_operator, List.mem_append, not_or]
          exact ⟨hword, ih hclean htokens (by rw [marks_nil] at hle ⊢; omega) List.not_mem_nil⟩
      · -- a mark that is skipped is missing at the end
        have hle := marks_bytesOf_le h
        omega

end Shell
