import ChatProject.Client.Screens

/-!
# What can be typed

The menus of `Client/Screens.lean` on standard input, and on a list of lines.  The second is what
`read_line` makes of the first as long as nobody types a NUL (`carries_lines`), and it is the level
at which a user thinks: this line is the choice, that one the name.

* `readLine_eq` — what a call of `read_line` returns, which is not up to what its array had in it.
* `stdin`, `lines` — the two readers.
* `menus_say` — the sequences of requests that can be typed are those in which each request is on
  offer when its turn comes.
-/

set_option autoImplicit false

namespace ChatProject

open Lines Machine

namespace Ui

/-! ## Standard input -/

instance decidableReadsNul (cap : Nat) (stdin : List UInt8) : Decidable (ReadsNul cap stdin) :=
  inferInstanceAs (Decidable (0 ∈ line newline stdin ∧ newline ∈ line newline stdin ∧
    ((line newline stdin).length : Int) < intOfSize cap))

/-- The string is the line as far as it fits, up to its first NUL. -/
theorem readLine_eq {f : Field} {out stdin : List UInt8} (hroom : f.size ≤ out.length)
    (hstdin : stdin ≠ []) :
    (readLine f.size out stdin).1 = 0 ∧
      CStr.ofBuffer (readLine f.size out stdin).2.1 =
        CStr.ofBuffer ((body newline (line newline stdin)).take (f.size - 1)) ∧
      (readLine f.size out stdin).2.2 =
        if ReadsNul f.size stdin then rest newline (rest newline stdin)
        else rest newline stdin := by
  have hsize := f.two_le_size
  obtain ⟨k, hk⟩ : ∃ k, f.size = k + 1 := ⟨f.size - 1, by omega⟩
  have hint : intOfSize f.size = (k + 1 : Nat) := by rw [intOfSize_of_le f.size_le, hk]
  have hlt : k < out.length := by omega
  rw [show f.size - 1 = k by omega]
  by_cases hcut : (line newline stdin).length ≤ k ∧ newline ∈ line newline stdin
  · obtain ⟨hwhole, hmem⟩ := hcut
    have hlen := length_of_mem hmem
    have htake : (body newline (line newline stdin)).take k = body newline (line newline stdin) :=
      List.take_of_length_le (by omega)
    by_cases h0 : 0 ∈ line newline stdin
    · have hnul : ReadsNul f.size stdin := ⟨h0, hmem, by omega⟩
      rw [readLine_of_nul hint hlt (.inr hstdin) hwhole hmem h0, if_pos hnul, htake]
      refine ⟨rfl, ?_, rfl⟩
      rw [ofBuffer_writeAt (Nat.lt_of_le_of_lt hwhole hlt)]
      -- the NUL is in front of the newline
      have h0' : 0 ∈ body newline (line newline stdin) := by
        rw [line_of_mem hmem, List.mem_append, List.mem_singleton] at h0
        exact h0.resolve_right (by decide)
      have hstr : CStr.ofBuffer (body newline (line newline stdin) ++ [newline]) =
          CStr.ofBuffer (body newline (line newline stdin)) := by
        obtain ⟨l₁, l₂, heq⟩ := List.append_of_mem h0'
        rw [heq, List.append_assoc, List.cons_append, CStr.ofBuffer_append_zero,
          CStr.ofBuffer_append_zero]
      exact (congrArg CStr.ofBuffer (line_of_mem hmem)).trans hstr
    · have hnul : ¬ ReadsNul f.size stdin := fun h => h0 h.1
      rw [readLine_of_whole hint hlt (.inr hstdin) hwhole hmem h0, if_neg hnul, htake]
      refine ⟨rfl, ?_, rfl⟩
      obtain ⟨tail, htail⟩ := prefix_strip (length_whole_lt hlt hwhole hmem)
      rw [← htail, List.append_assoc]
      exact CStr.ofBuffer_append_zero _ _
  · have hnul : ¬ ReadsNul f.size stdin := fun h => hcut ⟨by have := h.2.2; omega, h.2.1⟩
    rw [readLine_of_cut hint hlt (.inr hstdin) hcut, if_neg hnul]
    exact ⟨rfl, ofBuffer_writeAt (Nat.lt_of_le_of_lt (List.length_take_le _ _) hlt), rfl⟩

theorem readLine_nil (f : Field) (out : List UInt8) : readLine f.size out [] = (-1, out, []) := by
  refine (readLine_cases f.size out []).resolve_right ?_
  rintro ⟨-, k, hk, hor⟩
  rw [intOfSize_of_le f.size_le] at hk
  have hsize := f.two_le_size
  exact hor.elim (fun h => by omega) fun h => h rfl

/-- `read_line`, with an array of its caller that happens to be zero. -/
def readField (f : Field) (stdin : List UInt8) : Option (CStr × List UInt8) :=
  match readLine f.size (List.replicate f.size 0) stdin with
  | (rc, out, stdin) => if rc ≠ 0 then none else some (CStr.ofBuffer out, stdin)

theorem readField_nil (f : Field) : readField f [] = none := by
  rw [readField, readLine_nil]
  rfl

theorem readField_of_ne_nil (f : Field) {stdin : List UInt8} (hstdin : stdin ≠ []) :
    readField f stdin = some (CStr.ofBuffer ((body newline (line newline stdin)).take (f.size - 1)),
      if ReadsNul f.size stdin then rest newline (rest newline stdin) else rest newline stdin) := by
  have hroom : f.size ≤ (List.replicate f.size (0 : UInt8)).length := by rw [List.length_replicate]
  obtain ⟨hrc, hout, hrest⟩ := readLine_eq hroom hstdin
  rw [readField]
  dsimp only
  rw [if_neg (not_not.mpr hrc), hout, hrest]

/-- Part of a line without its newline fits where there is room for it. -/
theorem holds_ofBuffer_take (f : Field) (l : List UInt8) :
    f.Holds (CStr.ofBuffer ((body newline l).take (f.size - 1))) := by
  have hsize := f.two_le_size
  have hlen := CStr.length_ofBuffer_le ((body newline l).take (f.size - 1))
  have htake := List.length_take_le (f.size - 1) (body newline l)
  refine ⟨by omega, fun h => ?_⟩
  exact notMem_body l (List.mem_of_mem_take ((List.takeWhile_prefix _).subset h))

/-- Standard input. -/
def stdin : Reader (List UInt8) where
  read := readField
  size := List.length
  read_eq_none {f x} := by
    rw [List.length_eq_zero_iff]
    refine ⟨fun h => by_contra fun hne => ?_, fun h => h ▸ readField_nil f⟩
    rw [readField_of_ne_nil f hne] at h
    exact absurd h (by simp)
  lt_of_read {f x s y} h := by
    by_cases hx : x = []
    · subst hx
      rw [readField_nil] at h
      exact absurd h (by simp)
    · rw [readField_of_ne_nil f hx] at h
      obtain ⟨-, rfl⟩ := Prod.mk.inj (Option.some_inj.mp h)
      have hlt := length_rest_lt newline hx
      split
      · exact Nat.lt_of_le_of_lt (length_rest_le newline _) hlt
      · exact hlt
  holds_of_read {f x s y} h := by
    by_cases hx : x = []
    · subst hx
      rw [readField_nil] at h
      exact absurd h (by simp)
    · rw [readField_of_ne_nil f hx] at h
      obtain ⟨rfl, -⟩ := Prod.mk.inj (Option.some_inj.mp h)
      exact holds_ofBuffer_take f _

/-- A list of lines. -/
def lines : Reader (List (List UInt8)) where
  read
    | _, [] => none
    | f, l :: ls => some (CStr.ofBuffer ((body newline l).take (f.size - 1)), ls)
  size := List.length
  read_eq_none {f x} := by cases x <;> simp
  lt_of_read {f x s y} h := by
    cases x with
    | nil => exact absurd h (by simp)
    | cons l ls =>
      obtain ⟨-, rfl⟩ := Prod.mk.inj (Option.some_inj.mp h)
      exact Nat.lt_succ_self _
  holds_of_read {f x s y} h := by
    cases x with
    | nil => exact absurd h (by simp)
    | cons l ls =>
      obtain ⟨rfl, -⟩ := Prod.mk.inj (Option.some_inj.mp h)
      exact holds_ofBuffer_take f l

/-! ## From bytes to lines -/

section
variable {τ τ' σ : Type} (A : Reader τ) (B : Reader τ') (m : Manager σ) (P : τ → Prop) (g : τ → τ')

/-- As long as `P` holds, reading from `B` is reading from `A`. -/
structure Carries : Prop where
  read : ∀ f x, P x → B.read f (g x) = (A.read f x).map (Prod.map id g)
  keeps : ∀ f x s y, P x → A.read f x = some (s, y) → P y

/-- The same terminal, with its input seen in another way. -/
def Terminal.map (t : Terminal τ σ) : Terminal τ' σ := ⟨g t.input, t.stdout, t.client⟩

variable {A B m P g}

theorem Carries.ask (h : Carries A B P g) (f : Field) {t : Terminal τ σ} (ht : P t.input) :
    ask B f (t.map g) = Prod.map id (Terminal.map g) (ask A f t) ∧ P (ask A f t).2.input := by
  rw [Ui.ask, Ui.ask, show (t.map g).input = g t.input from rfl, h.read f _ ht]
  cases hread : A.read f t.input with
  | none => exact ⟨rfl, ht⟩
  | some x => exact ⟨rfl, h.keeps f _ _ _ ht hread⟩

theorem Carries.promptAndAuth (h : Carries A B P g) (isLogin : Bool) {t : Terminal τ σ}
    (ht : P t.input) :
    promptAndAuth B m isLogin (t.map g) =
      Prod.map id (Terminal.map g) (promptAndAuth A m isLogin t) ∧
      P (promptAndAuth A m isLogin t).2.input := by
  obtain ⟨huser, h₁⟩ := h.ask .user ht
  rw [Ui.promptAndAuth, Ui.promptAndAuth, huser]
  generalize Ui.ask A .user t = x at h₁ ⊢
  obtain ⟨_ | user, t₁⟩ := x
  · exact ⟨rfl, h₁⟩
  · obtain ⟨hpass, h₂⟩ := h.ask .pass h₁
    simp only [Prod.map, id_eq, hpass]
    generalize Ui.ask A .pass t₁ = y at h₂ ⊢
    obtain ⟨_ | pass, t₂⟩ := y
    · exact ⟨rfl, h₂⟩
    · by_cases hname : user = .empty
      · simp only [if_pos hname]
        exact ⟨rfl, h₂⟩
      · simp only [if_neg hname]
        exact ⟨rfl, h₂⟩

theorem Carries.doGroupJoin (h : Carries A B P g) (isCreate : Bool) {t : Terminal τ σ}
    (ht : P t.input) :
    doGroupJoin B m isCreate (t.map g) = (doGroupJoin A m isCreate t).map g ∧
      P (doGroupJoin A m isCreate t).input := by
  obtain ⟨hgroup, h₁⟩ := h.ask .group ht
  rw [Ui.doGroupJoin, Ui.doGroupJoin, hgroup]
  generalize Ui.ask A .group t = x at h₁ ⊢
  obtain ⟨_ | group, t₁⟩ := x
  · exact ⟨rfl, h₁⟩
  · by_cases hname : group = .empty
    · simp only [Prod.map, id_eq, if_pos hname]
      exact ⟨rfl, h₁⟩
    · simp only [Prod.map, id_eq, if_neg hname]
      exact ⟨rfl, h₁⟩

theorem Carries.doGroupLeave (h : Carries A B P g) {t : Terminal τ σ} (ht : P t.input) :
    doGroupLeave B m (t.map g) = (doGroupLeave A m t).map g ∧
      P (doGroupLeave A m t).input := by
  obtain ⟨hgroup, h₁⟩ := h.ask .group ht
  rw [Ui.doGroupLeave, Ui.doGroupLeave, hgroup]
  generalize Ui.ask A .group t = x at h₁ ⊢
  obtain ⟨_ | group, t₁⟩ := x
  · exact ⟨rfl, h₁⟩
  · by_cases hname : group = .empty
    · simp only [Prod.map, id_eq, if_pos hname]
      exact ⟨rfl, h₁⟩
    · simp only [Prod.map, id_eq, if_neg hname]
      exact ⟨rfl, h₁⟩

/-! The loops, without what they carry along to show that they end. -/

variable (A m) in
theorem screen2_eq (t : Terminal τ σ) :
    screen2 A m t =
      match ask A .choice (t.print (groupsMenu (m.username t.client))) with
      | (none, t) => t
      | (some choice, t) =>
        if choice.bytes = literal "1" then screen2 A m (doGroupJoin A m true t)
        else if choice.bytes = literal "2" then screen2 A m (doGroupJoin A m false t)
        else if choice.bytes = literal "3" then screen2 A m (doGroupLeave A m t)
        else if choice.bytes = literal "4" then
          if (request m .logout t).1.1 = .ok then
            (request m .logout t).2.print (literal "  logged out\n")
          else
            screen2 A m ((request m .logout t).2.print
              (literal "  logout failed: " ++ statusMsg (request m .logout t).1.1 ++
                literal "\n"))
        else screen2 A m (t.print (literal "  please enter 1, 2, 3, or 4\n")) := by
  rw [screen2]
  split <;> (next h => rw [h])

variable (A m) in
theorem uiRun_eq (t : Terminal τ σ) :
    uiRun A m t =
      match ask A .choice (t.print authMenu) with
      | (none, t) => t.print (literal "\ninput closed, exiting.\n")
      | (some choice, t) =>
        if choice.bytes = literal "1" then uiRun A m (promptAndAuth A m false t).2
        else if choice.bytes = literal "2" then
          if (promptAndAuth A m true t).1 = .ok then
            uiRun A m (screen2 A m (promptAndAuth A m true t).2)
          else uiRun A m (promptAndAuth A m true t).2
        else if choice.bytes = literal "3" then t.print (literal "bye.\n")
        else uiRun A m (t.print (literal "  please enter 1, 2, or 3\n")) := by
  rw [uiRun]
  split <;> (next h => rw [h])

theorem Carries.menu (h : Carries A B P g) {menu : List UInt8} {t t' : Terminal τ σ}
    (ht : P t.input) {o : Option CStr} (hask : Ui.ask A .choice (t.print menu) = (o, t')) :
    Ui.ask B .choice ((t.map g).print menu) = (o, t'.map g) ∧ P t'.input := by
  have hmenu := h.ask .choice (t := t.print menu) ht
  rw [hask] at hmenu
  exact hmenu

theorem Carries.screen2 (h : Carries A B P g) {t : Terminal τ σ} (ht : P t.input) :
    screen2 B m (t.map g) = (screen2 A m t).map g ∧ P (screen2 A m t).input := by
  fun_induction Ui.screen2 A m t with
  | case1 t t' hask =>
    obtain ⟨heq, h₁⟩ := h.menu ht hask
    rw [screen2_eq, show (t.map g).client = t.client from rfl, heq]
    exact ⟨rfl, h₁⟩
  | case2 t choice t' hask hc ih =>
    obtain ⟨heq, h₁⟩ := h.menu ht hask
    obtain ⟨hjoin, h₂⟩ := h.doGroupJoin (m := m) true h₁
    rw [screen2_eq, show (t.map g).client = t.client from rfl, heq]
    dsimp only
    rw [if_pos hc, hjoin]
    exact ih h₂
  | case3 t choice t' hask hc₁ hc ih =>
    obtain ⟨heq, h₁⟩ := h.menu ht hask
    obtain ⟨hjoin, h₂⟩ := h.doGroupJoin (m := m) false h₁
    rw [screen2_eq, show (t.map g).client = t.client from rfl, heq]
    dsimp only
    rw [if_neg hc₁, if_pos hc, hjoin]
    exact ih h₂
  | case4 t choice t' hask hc₁ hc₂ hc ih =>
    obtain ⟨heq, h₁⟩ := h.menu ht hask
    obtain ⟨hleave, h₂⟩ := h.doGroupLeave (m := m) h₁
    rw [screen2_eq, show (t.map g).client = t.client from rfl, heq]
    dsimp only
    rw [if_neg hc₁, if_neg hc₂, if_pos hc, hleave]
    exact ih h₂
  | case5 t choice t' hask hc₁ hc₂ hc₃ hc st hst =>
    obtain ⟨heq, h₁⟩ := h.menu ht hask
    rw [screen2_eq, show (t.map g).client = t.client from rfl, heq]
    dsimp only
    rw [if_neg hc₁, if_neg hc₂, if_neg hc₃, if_pos hc]
    exact ⟨if_pos hst, h₁⟩
  | case6 t choice t' hask hc₁ hc₂ hc₃ hc st hst ih =>
    obtain ⟨heq, h₁⟩ := h.menu ht hask
    rw [screen2_eq, show (t.map g).client = t.client from rfl, heq]
    dsimp only
    rw [if_neg hc₁, if_neg hc₂, if_neg hc₃, if_pos hc]
    exact ⟨(if_neg hst).trans (ih h₁).1, (ih h₁).2⟩
  | case7 t choice t' hask hc₁ hc₂ hc₃ hc₄ ih =>
    obtain ⟨heq, h₁⟩ := h.menu ht hask
    rw [screen2_eq, show (t.map g).client = t.client from rfl, heq]
    dsimp only
    rw [if_neg hc₁, if_neg hc₂, if_neg hc₃, if_neg hc₄]
    exact ih h₁

theorem Carries.uiRun (h : Carries A B P g) {t : Terminal τ σ} (ht : P t.input) :
    uiRun B m (t.map g) = (uiRun A m t).map g := by
  fun_induction Ui.uiRun A m t with
  | case1 t t' hask =>
    obtain ⟨heq, h₁⟩ := h.menu ht hask
    rw [uiRun_eq, heq]
    rfl
  | case2 t choice t' hask hc ih =>
    obtain ⟨heq, h₁⟩ := h.menu ht hask
    obtain ⟨hauth, h₂⟩ := h.promptAndAuth (m := m) false h₁
    rw [uiRun_eq, heq]
    dsimp only
    rw [if_pos hc, hauth]
    exact ih h₂
  | case3 t choice t' hask hc₁ hc hst ih =>
    obtain ⟨heq, h₁⟩ := h.menu ht hask
    obtain ⟨hauth, h₂⟩ := h.promptAndAuth (m := m) true h₁
    obtain ⟨hscreen, h₃⟩ := h.screen2 (m := m) h₂
    rw [uiRun_eq, heq]
    dsimp only
    rw [if_neg hc₁, if_pos hc, hauth]
    refine (if_pos hst).trans ?_
    show Ui.uiRun B m (Ui.screen2 B m ((Ui.promptAndAuth A m true t').2.map g)) = _
    rw [hscreen]
    exact ih h₃
  | case4 t choice t' hask hc₁ hc hst ih =>
    obtain ⟨heq, h₁⟩ := h.menu ht hask
    obtain ⟨hauth, h₂⟩ := h.promptAndAuth (m := m) true h₁
    rw [uiRun_eq, heq]
    dsimp only
    rw [if_neg hc₁, if_pos hc, hauth]
    exact (if_neg hst).trans (ih h₂)
  | case5 t choice t' hask hc₁ hc₂ hc =>
    obtain ⟨heq, h₁⟩ := h.menu ht hask
    rw [uiRun_eq, heq]
    dsimp only
    rw [if_neg hc₁, if_neg hc₂, if_pos hc]
    rfl
  | case6 t choice t' hask hc₁ hc₂ hc₃ ih =>
    obtain ⟨heq, h₁⟩ := h.menu ht hask
    rw [uiRun_eq, heq]
    dsimp only
    rw [if_neg hc₁, if_neg hc₂, if_neg hc₃]
    exact ih h₁

end

/-- Without a NUL, standard input is its lines. -/
theorem carries_lines : Carries stdin lines (fun x => 0 ∉ x) (all newline) where
  read f x h0 := by
    by_cases hx : x = []
    · subst hx
      show none = Option.map _ (readField f [])
      rw [readField_nil]
      rfl
    · have h0' : ¬ ReadsNul f.size x := fun hnul =>
        h0 (line_append_rest newline x ▸ List.mem_append_left _ hnul.1)
      show lines.read f (all newline x) = Option.map _ (readField f x)
      rw [readField_of_ne_nil f hx, if_neg h0', all_eq newline hx]
      rfl
  keeps f x s y h0 hread := by
    by_cases hx : x = []
    · subst hx
      rw [show stdin.read f [] = none from readField_nil f] at hread
      exact absurd hread (by simp)
    · have h0' : ¬ ReadsNul f.size x := fun hnul =>
        h0 (line_append_rest newline x ▸ List.mem_append_left _ hnul.1)
      rw [show stdin.read f x = _ from readField_of_ne_nil f hx, if_neg h0'] at hread
      obtain ⟨-, rfl⟩ := Prod.mk.inj (Option.some_inj.mp hread)
      exact fun hmem => h0 (line_append_rest newline x ▸ List.mem_append_right _ hmem)

/-! ## What to type for a request -/

/-- What is typed on one line. -/
def typedLine (s : CStr) : List UInt8 := s.bytes ++ [newline]

/-- A choice. -/
def typedChoice (digit : UInt8) : List UInt8 := [digit, newline]

/-- The lines that have a request made. -/
def typed : Request → List (List UInt8)
  | .register user pass => [typedChoice 49, typedLine user, typedLine pass]
  | .login user pass => [typedChoice 50, typedLine user, typedLine pass]
  | .logout => [typedChoice 52]
  | .createGroup group => [typedChoice 49, typedLine group]
  | .joinGroup group => [typedChoice 50, typedLine group]
  | .leaveGroup group => [typedChoice 51, typedLine group]

theorem read_typedLine {f : Field} {s : CStr} (h : f.Holds s) (ls : List (List UInt8)) :
    lines.read f (typedLine s :: ls) = some (s, ls) := by
  have hbody : body newline (typedLine s) = s.bytes := by
    have hne : ∀ c ∈ s.bytes, decide (c ≠ newline) = true := fun c hc =>
      decide_eq_true fun (heq : c = newline) => h.2 (heq ▸ hc)
    rw [body, typedLine, List.takeWhile_append_of_pos hne]
    simp
  have hlen : s.bytes.length ≤ f.size - 1 := Nat.le_sub_one_of_lt h.1
  show some (CStr.ofBuffer ((body newline (typedLine s)).take (f.size - 1)), ls) = _
  rw [hbody, List.take_of_length_le hlen, CStr.ofBuffer_bytes]

section
variable {σ : Type} (m : Manager σ)

/-- The menus from one of the screens on. -/
def resume : Screen → Terminal (List (List UInt8)) σ → Terminal (List (List UInt8)) σ
  | .auth, t => uiRun lines m t
  | .groups, t => uiRun lines m (screen2 lines m t)

theorem ask_typedLine {f : Field} {s : CStr} (h : f.Holds s) (ls : List (List UInt8))
    (out : List UInt8) (c : σ) :
    ask lines f ⟨typedLine s :: ls, out, c⟩ = (some s, ⟨ls, out ++ f.prompt, c⟩) := by
  rw [ask, read_typedLine h]
  rfl

/-- A digit is typed where a menu asks for a choice. -/
theorem ask_typedChoice {digit : UInt8} (h0 : 0 ∉ [digit]) (hnl : newline ∉ [digit])
    (menu : List UInt8) (ls : List (List UInt8)) (out : List UInt8) (c : σ) :
    ask lines .choice ((⟨typedChoice digit :: ls, out, c⟩ : Terminal _ σ).print menu) =
      (some ⟨[digit], h0⟩, ⟨ls, out ++ menu ++ Field.choice.prompt, c⟩) :=
  have hholds : Field.choice.Holds ⟨[digit], h0⟩ := ⟨show 1 < 8 by decide, hnl⟩
  ask_typedLine hholds ls (out ++ menu) c

theorem promptAndAuth_typed (isLogin : Bool) {user pass : CStr} (hname : user ≠ .empty)
    (huser : Field.user.Holds user) (hpass : Field.pass.Holds pass) (ls : List (List UInt8))
    (out : List UInt8) (c : σ) :
    ∃ out', promptAndAuth lines m isLogin ⟨typedLine user :: typedLine pass :: ls, out, c⟩ =
      let r := if isLogin then Request.login user pass else .register user pass
      ((m.call r c).1.1, ⟨ls, out', (m.call r c).2⟩) := by
  rw [promptAndAuth, ask_typedLine huser]
  dsimp only
  rw [ask_typedLine hpass]
  dsimp only
  rw [if_neg hname]
  exact ⟨_, rfl⟩

theorem doGroupJoin_typed (isCreate : Bool) {group : CStr} (hname : group ≠ .empty)
    (hgroup : Field.group.Holds group) (ls : List (List UInt8)) (out : List UInt8) (c : σ) :
    ∃ out', doGroupJoin lines m isCreate ⟨typedLine group :: ls, out, c⟩ =
      ⟨ls, out', (m.call (if isCreate then .createGroup group else .joinGroup group) c).2⟩ := by
  rw [doGroupJoin, ask_typedLine hgroup]
  dsimp only
  rw [if_neg hname]
  exact ⟨_, rfl⟩

theorem doGroupLeave_typed {group : CStr} (hname : group ≠ .empty)
    (hgroup : Field.group.Holds group) (ls : List (List UInt8)) (out : List UInt8) (c : σ) :
    ∃ out', doGroupLeave lines m ⟨typedLine group :: ls, out, c⟩ =
      ⟨ls, out', (m.call (.leaveGroup group) c).2⟩ := by
  rw [doGroupLeave, ask_typedLine hgroup]
  dsimp only
  rw [if_neg hname]
  exact ⟨_, rfl⟩

theorem uiRun_choice (digit : UInt8) (h0 : 0 ∉ [digit]) (hnl : newline ∉ [digit])
    (ls : List (List UInt8)) (out : List UInt8) (c : σ) :
    ∃ out', uiRun lines m ⟨typedChoice digit :: ls, out, c⟩ =
      let t : Terminal (List (List UInt8)) σ := ⟨ls, out', c⟩
      if [digit] = literal "1" then uiRun lines m (promptAndAuth lines m false t).2
      else if [digit] = literal "2" then
        if (promptAndAuth lines m true t).1 = .ok then
          uiRun lines m (screen2 lines m (promptAndAuth lines m true t).2)
        else uiRun lines m (promptAndAuth lines m true t).2
      else if [digit] = literal "3" then t.print (literal "bye.\n")
      else uiRun lines m (t.print (literal "  please enter 1, 2, or 3\n")) := by
  rw [uiRun_eq, ask_typedChoice h0 hnl]
  exact ⟨_, rfl⟩

theorem screen2_choice (digit : UInt8) (h0 : 0 ∉ [digit]) (hnl : newline ∉ [digit])
    (ls : List (List UInt8)) (out : List UInt8) (c : σ) :
    ∃ out', screen2 lines m ⟨typedChoice digit :: ls, out, c⟩ =
      let t : Terminal (List (List UInt8)) σ := ⟨ls, out', c⟩
      if [digit] = literal "1" then screen2 lines m (doGroupJoin lines m true t)
      else if [digit] = literal "2" then screen2 lines m (doGroupJoin lines m false t)
      else if [digit] = literal "3" then screen2 lines m (doGroupLeave lines m t)
      else if [digit] = literal "4" then
        if (request m .logout t).1.1 = .ok then
          (request m .logout t).2.print (literal "  logged out\n")
        else
          screen2 lines m ((request m .logout t).2.print
            (literal "  logout failed: " ++ statusMsg (request m .logout t).1.1 ++ literal "\n"))
      else screen2 lines m (t.print (literal "  please enter 1, 2, 3, or 4\n")) := by
  rw [screen2_eq, ask_typedChoice h0 hnl]
  exact ⟨_, rfl⟩

/-- **One request.**  Its lines have it made, and the screen that follows is up. -/
theorem resume_typed {s : Screen} {r : Request} (h : s.Offers r) (ls : List (List UInt8))
    (out : List UInt8) (c : σ) :
    ∃ out', resume m s ⟨typed r ++ ls, out, c⟩ =
      resume m (m.step (s, c) r).1.1 ⟨ls, out', (m.step (s, c) r).1.2⟩ := by
  cases s with
  | auth =>
    cases r with
    | register user pass =>
      obtain ⟨out₁, hchoice⟩ := uiRun_choice m 49 (by decide) (by decide)
        (typedLine user :: typedLine pass :: ls) out c
      obtain ⟨out₂, hauth⟩ := promptAndAuth_typed m false h.1 h.2.1 h.2.2 ls out₁ c
      refine ⟨out₂, hchoice.trans ?_⟩
      dsimp only
      rw [if_pos (by decide), hauth]
      rfl
    | login user pass =>
      obtain ⟨out₁, hchoice⟩ := uiRun_choice m 50 (by decide) (by decide)
        (typedLine user :: typedLine pass :: ls) out c
      obtain ⟨out₂, hauth⟩ := promptAndAuth_typed m true h.1 h.2.1 h.2.2 ls out₁ c
      refine ⟨out₂, hchoice.trans ?_⟩
      dsimp only
      rw [if_neg (by decide), if_pos (by decide), hauth]
      by_cases hok : (m.call (.login user pass) c).1.1 = .ok
      · refine (if_pos hok).trans ?_
        rw [show (m.step (.auth, c) (.login user pass)).1.1 = .groups from
          congrArg (Screen.auth.after _) hok]
        rfl
      · refine (if_neg hok).trans ?_
        rw [show (m.step (.auth, c) (.login user pass)).1.1 = .auth from
          Screen.after_of_ne _ _ hok]
        rfl
    | _ => exact h.elim
  | groups =>
    cases r with
    | createGroup group =>
      obtain ⟨out₁, hchoice⟩ := screen2_choice m 49 (by decide) (by decide)
        (typedLine group :: ls) out c
      obtain ⟨out₂, hjoin⟩ := doGroupJoin_typed m true h.1 h.2 ls out₁ c
      refine ⟨out₂, (congrArg (uiRun lines m) hchoice).trans ?_⟩
      dsimp only
      rw [if_pos (by decide), hjoin]
      rfl
    | joinGroup group =>
      obtain ⟨out₁, hchoice⟩ := screen2_choice m 50 (by decide) (by decide)
        (typedLine group :: ls) out c
      obtain ⟨out₂, hjoin⟩ := doGroupJoin_typed m false h.1 h.2 ls out₁ c
      refine ⟨out₂, (congrArg (uiRun lines m) hchoice).trans ?_⟩
      dsimp only
      rw [if_neg (by decide), if_pos (by decide), hjoin]
      rfl
    | leaveGroup group =>
      obtain ⟨out₁, hchoice⟩ := screen2_choice m 51 (by decide) (by decide)
        (typedLine group :: ls) out c
      obtain ⟨out₂, hleave⟩ := doGroupLeave_typed m h.1 h.2 ls out₁ c
      refine ⟨out₂, (congrArg (uiRun lines m) hchoice).trans ?_⟩
      dsimp only
      rw [if_neg (by decide), if_neg (by decide), if_pos (by decide), hleave]
      rfl
    | logout =>
      obtain ⟨out₁, hchoice⟩ := screen2_choice m 52 (by decide) (by decide) ls out c
      by_cases hok : (m.call .logout c).1.1 = .ok
      · refine ⟨out₁ ++ literal "  logged out\n", (congrArg (uiRun lines m) hchoice).trans ?_⟩
        dsimp only
        rw [if_neg (by decide), if_neg (by decide), if_neg (by decide), if_pos (by decide),
          show (m.step (.groups, c) .logout).1.1 = .auth from
            congrArg (Screen.groups.after _) hok]
        exact congrArg (uiRun lines m) (if_pos hok)
      · refine ⟨out₁ ++ (literal "  logout failed: " ++ statusMsg (m.call .logout c).1.1 ++
          literal "\n"), (congrArg (uiRun lines m) hchoice).trans ?_⟩
        dsimp only
        rw [if_neg (by decide), if_neg (by decide), if_neg (by decide), if_pos (by decide),
          show (m.step (.groups, c) .logout).1.1 = .groups from Screen.after_of_ne _ _ hok]
        exact congrArg (uiRun lines m) (if_neg hok)
    | _ => exact h.elim

/-- **All of them.** -/
theorem resume_typed_all {s : Screen} {rs : List Request} (out : List UInt8) (c : σ)
    (h : Along m.step (fun x r => x.1.Offers r) (s, c) rs) :
    (resume m s ⟨rs.flatMap typed, out, c⟩).client = (run m.step (s, c) rs).2 := by
  induction rs generalizing s out c with
  | nil =>
    have hnone : ∀ menu : List UInt8, ask lines .choice
        ((⟨[], out, c⟩ : Terminal (List (List UInt8)) σ).print menu) =
          (none, ⟨[], out ++ menu ++ Field.choice.prompt, c⟩) := fun _ => rfl
    cases s with
    | auth =>
      show (uiRun lines m ⟨[], out, c⟩).client = c
      rw [uiRun_eq, hnone]
      rfl
    | groups =>
      show (uiRun lines m (screen2 lines m ⟨[], out, c⟩)).client = c
      rw [screen2_eq, hnone]
      dsimp only
      rw [uiRun_eq]
      rfl
  | cons r rs ih =>
    obtain ⟨out', heq⟩ := resume_typed m h.1 (rs.flatMap typed) out c
    rw [List.flatMap_cons, heq]
    exact ih out' _ h.2

end

/-! ## What the menus can say -/

/-- Lines that are typed end with a newline and have no NUL. -/
theorem typed_line {s : Screen} {r : Request} (h : s.Offers r) {l : List UInt8}
    (hl : l ∈ typed r) : (∃ b, newline ∉ b ∧ l = b ++ [newline]) ∧ 0 ∉ l := by
  have hchoice : ∀ digit : UInt8, digit ≠ 0 → digit ≠ newline →
      (∃ b, newline ∉ b ∧ typedChoice digit = b ++ [newline]) ∧ 0 ∉ typedChoice digit := by
    intro digit h0 hnl
    refine ⟨⟨[digit], by simpa using hnl.symm, rfl⟩, ?_⟩
    simpa [typedChoice, newline] using h0.symm
  have hline : ∀ (f : Field) (s : CStr), f.Holds s →
      (∃ b, newline ∉ b ∧ typedLine s = b ++ [newline]) ∧ 0 ∉ typedLine s := by
    intro f s hs
    refine ⟨⟨s.bytes, hs.2, rfl⟩, ?_⟩
    rw [typedLine, List.mem_append, not_or]
    exact ⟨s.noNul, by decide⟩
  cases s with
  | auth =>
    cases r with
    | register user pass =>
      simp only [typed, List.mem_cons, List.not_mem_nil, or_false] at hl
      rcases hl with rfl | rfl | rfl
      · exact hchoice 49 (by decide) (by decide)
      · exact hline _ _ h.2.1
      · exact hline _ _ h.2.2
    | login user pass =>
      simp only [typed, List.mem_cons, List.not_mem_nil, or_false] at hl
      rcases hl with rfl | rfl | rfl
      · exact hchoice 50 (by decide) (by decide)
      · exact hline _ _ h.2.1
      · exact hline _ _ h.2.2
    | _ => exact h.elim
  | groups =>
    cases r with
    | logout =>
      rw [typed, List.mem_singleton] at hl
      exact hl ▸ hchoice 52 (by decide) (by decide)
    | createGroup group =>
      simp only [typed, List.mem_cons, List.not_mem_nil, or_false] at hl
      rcases hl with rfl | rfl
      · exact hchoice 49 (by decide) (by decide)
      · exact hline _ _ h.2
    | joinGroup group =>
      simp only [typed, List.mem_cons, List.not_mem_nil, or_false] at hl
      rcases hl with rfl | rfl
      · exact hchoice 50 (by decide) (by decide)
      · exact hline _ _ h.2
    | leaveGroup group =>
      simp only [typed, List.mem_cons, List.not_mem_nil, or_false] at hl
      rcases hl with rfl | rfl
      · exact hchoice 51 (by decide) (by decide)
      · exact hline _ _ h.2
    | _ => exact h.elim

section
variable {σ : Type} (m : Manager σ)

/-- Standard input with these lines. -/
theorem uiRun_typed {rs : List Request} (c : σ)
    (h : Along m.step (fun x r => x.1.Offers r) (.auth, c) rs) :
    (uiRun stdin m ⟨(rs.flatMap typed).flatten, [], c⟩).client = (run m.step (.auth, c) rs).2 := by
  -- each line was on offer on some screen
  have hall : ∀ {s : Screen} {c : σ} {rs : List Request},
      Along m.step (fun x r => x.1.Offers r) (s, c) rs → ∀ l ∈ rs.flatMap typed,
        (∃ b, newline ∉ b ∧ l = b ++ [newline]) ∧ 0 ∉ l := by
    intro s c rs h l hl
    induction rs generalizing s c with
    | nil => exact absurd hl List.not_mem_nil
    | cons r rs ih =>
      rw [List.flatMap_cons, List.mem_append] at hl
      exact hl.elim (typed_line h.1) (ih h.2)
  have hlines : all newline (rs.flatMap typed).flatten = rs.flatMap typed :=
    all_flatten newline fun l hl => (hall h l hl).1
  have h0 : 0 ∉ (rs.flatMap typed).flatten := fun hmem => by
    obtain ⟨l, hl, hl0⟩ := List.mem_flatten.mp hmem
    exact (hall h l hl).2 hl0
  have hcarry := carries_lines.uiRun (m := m) (t := ⟨(rs.flatMap typed).flatten, [], c⟩) h0
  have hclient := congrArg Terminal.client hcarry
  rw [Terminal.map, hlines] at hclient
  exact hclient.symm.trans (resume_typed_all m (s := .auth) [] c h)

/-- The client, with the requests made so far. -/
def Manager.logged : Manager (σ × List Request) where
  call r x := ((m.call r x.1).1, (m.call r x.1).2, x.2 ++ [r])
  username x := m.username x.1

theorem run_logged (s : Screen) (c : σ) (log rs : List Request) :
    run m.logged.step (s, c, log) rs =
      ((run m.step (s, c) rs).1, (run m.step (s, c) rs).2, log ++ rs) := by
  induction rs generalizing s c log with
  | nil => rw [List.append_nil]; rfl
  | cons r rs ih =>
    have htail := ih (m.step (s, c) r).1.1 (m.step (s, c) r).1.2 (log ++ [r])
    rw [List.append_assoc] at htail
    exact htail

theorem along_logged (s : Screen) (c : σ) (log rs : List Request) :
    Along m.logged.step (fun x r => x.1.Offers r) (s, c, log) rs ↔
      Along m.step (fun x r => x.1.Offers r) (s, c) rs := by
  induction rs generalizing s c log with
  | nil => exact Iff.rfl
  | cons r rs ih => exact and_congr_right' (ih _ _ _)

/-- **What the menus can say.**  Whatever the client makes of the requests, a sequence of them can
be typed exactly when each is on offer on the screen that the statuses of those before it have
brought up: no request without a name, with a name or password that does not fit or has a newline in
it, before a login or after a logout.  Every run of the menus ends, and leaves the client as the
requests it has made leave it. -/
theorem menus_say (c : σ) :
    (∀ rs, (∃ input, (uiRun stdin m.logged ⟨input, [], c, []⟩).client.2 = rs) ↔
      Along m.step (fun x r => x.1.Offers r) (.auth, c) rs) ∧
    ∀ input, (uiRun stdin m.logged ⟨input, [], c, []⟩).client.1 =
      (run m.step (.auth, c) (uiRun stdin m.logged ⟨input, [], c, []⟩).client.2).2 := by
  have htalk : ∀ input, Along m.step (fun x r => x.1.Offers r) (.auth, c)
        (uiRun stdin m.logged ⟨input, [], c, []⟩).client.2 ∧
      (uiRun stdin m.logged ⟨input, [], c, []⟩).client.1 =
        (run m.step (.auth, c) (uiRun stdin m.logged ⟨input, [], c, []⟩).client.2).2 := by
    intro input
    obtain ⟨rs, s, ⟨halong, hrun⟩, -⟩ :=
      uiRun_talk stdin m.logged (s := .auth) ⟨input, [], c, []⟩ (.inl rfl)
    rw [run_logged, List.nil_append, Prod.mk.injEq, Prod.ext_iff] at hrun
    obtain ⟨-, hclient, hlog⟩ := hrun
    rw [← hlog, ← hclient]
    exact ⟨(along_logged m .auth c [] rs).mp halong, rfl⟩
  refine ⟨fun rs => ⟨?_, fun h => ?_⟩, fun input => (htalk input).2⟩
  · rintro ⟨input, rfl⟩
    exact (htalk input).1
  · refine ⟨(rs.flatMap typed).flatten, ?_⟩
    rw [uiRun_typed m.logged (c, []) ((along_logged m .auth c [] rs).mpr h), run_logged,
      List.nil_append]

end

end Ui

end ChatProject
