import ChatProject.Client.Ui
import ChatProject.Service.Chat

/-!
# The two screens

`client/ui.c` from `prompt_and_auth` on: the first screen registers and logs in, the second one,
which is there as long as the user is logged in, enters and leaves groups.  The menus know the
client only by the calls they make and the status each returns, so the client is a parameter here
(`Manager`), and so is where the lines come from (`Reader`).

* `uiRun`, `screen2` — the two loops.
* `Screen.Offers` — the requests that a screen has on offer.
* `uiRun_talk` — whatever is typed and whatever the calls return, the requests made are on offer
  when they are made.
-/

set_option autoImplicit false

namespace ChatProject

open Lines Machine

namespace Ui

/-! ## What is typed, and what it is typed for -/

/-- The arrays of `ui.c` that a line is read into. -/
inductive Field where
  | choice
  | user
  | pass
  | group

namespace Field

/-- What is asked. -/
def prompt : Field → List UInt8
  | choice => literal "> "
  | user => literal "  username: "
  | pass => literal "  password: "
  | group => literal "  group name: "

/-- `sizeof`. -/
def size : Field → Nat
  | choice => 8
  | user => chatMaxUsernameLen + 1
  | pass => chatMaxPasswordLen + 1
  | group => chatMaxGroupnameLen + 1

theorem two_le_size (f : Field) : 2 ≤ f.size := by
  cases f <;> decide

theorem size_le (f : Field) : f.size ≤ intMax := by
  cases f <;> decide

/-- What can stand in the array: a line, without its newline, that fits. -/
def Holds (f : Field) (s : CStr) : Prop := s.length < f.size ∧ newline ∉ s.bytes

instance (f : Field) (s : CStr) : Decidable (f.Holds s) :=
  inferInstanceAs (Decidable (s.length < f.size ∧ newline ∉ s.bytes))

end Field

/-- Where the lines come from. -/
structure Reader (τ : Type) where
  /-- The next line, as it stands in the array; `none` at the end. -/
  read : Field → τ → Option (CStr × τ)
  /-- How much is to come. -/
  size : τ → Nat
  read_eq_none : ∀ {f x}, read f x = none ↔ size x = 0
  lt_of_read : ∀ {f x s y}, read f x = some (s, y) → size y < size x
  holds_of_read : ∀ {f x s y}, read f x = some (s, y) → f.Holds s

/-- What the menus ask of `client_mng.c`. -/
structure Manager (σ : Type) where
  /-- The call for a request: its status, and `out_ip` and `*out_port`. -/
  call : Request → σ → (ChatStatus × CStr × UInt16) × σ
  /-- `client_mng_username`. -/
  username : σ → CStr

/-- The user's terminal, and the client behind it. -/
structure Terminal (τ σ : Type) where
  input : τ
  stdout : List UInt8
  client : σ

namespace Terminal

variable {τ σ : Type}

/-- `printf`. -/
def print (t : Terminal τ σ) (s : List UInt8) : Terminal τ σ := { t with stdout := t.stdout ++ s }

@[simp] theorem input_print (t : Terminal τ σ) (s : List UInt8) : (t.print s).input = t.input := rfl

@[simp] theorem client_print (t : Terminal τ σ) (s : List UInt8) :
    (t.print s).client = t.client := rfl

end Terminal

/-! ## The program -/

/-- `status_msg`. -/
def statusMsg : ChatStatus → List UInt8
  | .ok => literal "OK"
  | .errUserExists => literal "username already taken"
  | .errUserNotFound => literal "no such user"
  | .errBadPassword => literal "wrong password"
  | .errAlreadyLoggedIn => literal "already logged in"
  | .errNotLoggedIn => literal "not logged in"
  | .errGroupExists => literal "group name already taken"
  | .errGroupNotFound => literal "no such group"
  | .errAlreadyInGroup => literal "already in that group"
  | .errNotInGroup => literal "not a member of that group"
  | .errServerFull => literal "server is full"
  | .errProtocol => literal "connection / protocol error"
  | .unknown _ => literal "unexpected error"

/-- What `ui_run` prints before each choice. -/
def authMenu : List UInt8 :=
  literal "\n=== Chat ===\n" ++ literal "  1) register\n" ++ literal "  2) login\n" ++
    literal "  3) exit\n"

/-- And `screen2`. -/
def groupsMenu (username : CStr) : List UInt8 :=
  literal "\n=== Groups (logged in as '" ++ username.bytes ++ literal "') ===\n" ++
    literal "  1) create group\n" ++ literal "  2) join group\n" ++
    literal "  3) leave group\n" ++ literal "  4) logout\n"

section
variable {τ σ : Type} (rd : Reader τ) (m : Manager σ)

/-- `read_line`, with what it prints. -/
def ask (f : Field) (t : Terminal τ σ) : Option CStr × Terminal τ σ :=
  match rd.read f t.input with
  | none => (none, t.print f.prompt)
  | some (s, input) => (some s, { t.print f.prompt with input })

/-- A call on the client. -/
def request (r : Request) (t : Terminal τ σ) : (ChatStatus × CStr × UInt16) × Terminal τ σ :=
  match m.call r t.client with
  | (reply, client) => (reply, { t with client })

/-- `prompt_and_auth`. -/
def promptAndAuth (isLogin : Bool) (t : Terminal τ σ) : ChatStatus × Terminal τ σ :=
  match ask rd .user t with
  | (none, t) => (.errProtocol, t)
  | (some user, t) =>
    match ask rd .pass t with
    | (none, t) => (.errProtocol, t)
    | (some pass, t) =>
      if user = .empty then (.errProtocol, t.print (literal "  username cannot be empty\n"))
      else
        let what := literal (if isLogin then "login" else "registration")
        match request m (if isLogin then .login user pass else .register user pass) t with
        | ((st, _, _), t) =>
          (st, t.print (
            if st = .ok then literal "  " ++ what ++ literal " succeeded\n"
            else literal "  " ++ what ++ literal " failed: " ++ statusMsg st ++ literal "\n"))

/-- `do_group_join`. -/
def doGroupJoin (isCreate : Bool) (t : Terminal τ σ) : Terminal τ σ :=
  let verb := literal (if isCreate then "create" else "join")
  match ask rd .group t with
  | (none, t) => t
  | (some group, t) =>
    if group = .empty then t.print (literal "  group name cannot be empty\n")
    else
      match request m (if isCreate then .createGroup group else .joinGroup group) t with
      | ((st, ip, port), t) =>
        t.print (
          if st = .ok then
            literal "  " ++ verb ++ literal " '" ++ group.bytes ++ literal "' OK -- multicast " ++
              ip.bytes ++ literal ":" ++ decimal port.toNat ++ literal "\n"
          else
            literal "  " ++ verb ++ literal " '" ++ group.bytes ++ literal "' failed: " ++
              statusMsg st ++ literal "\n")

/-- `do_group_leave`. -/
def doGroupLeave (t : Terminal τ σ) : Terminal τ σ :=
  match ask rd .group t with
  | (none, t) => t
  | (some group, t) =>
    if group = .empty then t.print (literal "  group name cannot be empty\n")
    else
      match request m (.leaveGroup group) t with
      | ((st, _, _), t) =>
        t.print (
          if st = .ok then literal "  left '" ++ group.bytes ++ literal "'\n"
          else
            literal "  leave '" ++ group.bytes ++ literal "' failed: " ++ statusMsg st ++
              literal "\n")

/-! What a line costs. -/

variable {rd m}

theorem ask_some {f : Field} {t t' : Terminal τ σ} {s : CStr} (h : ask rd f t = (some s, t')) :
    rd.read f t.input = some (s, t'.input) ∧ t'.client = t.client := by
  rw [ask] at h
  split at h
  · exact absurd (congrArg Prod.fst h) (by simp)
  · next s' input hread =>
    obtain ⟨hs, rfl⟩ := Prod.mk.inj h
    rw [hread, Option.some_inj.mp hs]
    exact ⟨rfl, rfl⟩

theorem ask_none {f : Field} {t t' : Terminal τ σ} (h : ask rd f t = (none, t')) :
    rd.size t.input = 0 ∧ t'.input = t.input ∧ t'.client = t.client := by
  rw [ask] at h
  split at h
  · next hread =>
    obtain ⟨-, rfl⟩ := Prod.mk.inj h
    exact ⟨rd.read_eq_none.mp hread, rfl, rfl⟩
  · exact absurd (congrArg Prod.fst h) (by simp)

theorem size_ask {f : Field} {t t' : Terminal τ σ} {s : CStr} (h : ask rd f t = (some s, t')) :
    rd.size t'.input < rd.size t.input :=
  rd.lt_of_read (ask_some h).1

theorem holds_ask {f : Field} {t t' : Terminal τ σ} {s : CStr} (h : ask rd f t = (some s, t')) :
    f.Holds s :=
  rd.holds_of_read (ask_some h).1

variable (rd m) in
/-- Lines are read, and no call is made. -/
structure Idles (t t' : Terminal τ σ) : Prop where
  size_le : rd.size t'.input ≤ rd.size t.input
  client : t'.client = t.client

variable (rd m) in
/-- Lines are read, and one call is made. -/
structure Calls (r : Request) (t t' : Terminal τ σ) : Prop where
  size_le : rd.size t'.input ≤ rd.size t.input
  client : t'.client = (m.call r t.client).2

theorem idles_ask {f : Field} {t t' : Terminal τ σ} {s : Option CStr}
    (h : ask rd f t = (s, t')) : Idles rd t t' := by
  cases s with
  | none =>
    obtain ⟨-, hinput, hclient⟩ := ask_none h
    exact ⟨by rw [hinput], hclient⟩
  | some s => exact ⟨Nat.le_of_lt (size_ask h), (ask_some h).2⟩

/-- Below a menu. -/
theorem size_ask_menu {f : Field} {t t' : Terminal τ σ} {menu : List UInt8} {s : CStr}
    (h : ask rd f (t.print menu) = (some s, t')) : rd.size t'.input < rd.size t.input :=
  size_ask (t := t.print menu) h

theorem idles_menu {f : Field} {t t' : Terminal τ σ} {menu : List UInt8} {s : Option CStr}
    (h : ask rd f (t.print menu) = (s, t')) : Idles rd t t' :=
  ⟨(idles_ask h).size_le, (idles_ask h).client⟩

theorem Idles.trans {t t' t'' : Terminal τ σ} (h : Idles rd t t') (h' : Idles rd t' t'') :
    Idles rd t t'' :=
  ⟨h'.size_le.trans h.size_le, h'.client.trans h.client⟩

theorem Idles.print {t t' : Terminal τ σ} (h : Idles rd t t') (s : List UInt8) :
    Idles rd t (t'.print s) :=
  ⟨h.size_le, h.client⟩

/-- Whatever is printed about it. -/
theorem Idles.calls {t t' : Terminal τ σ} (h : Idles rd t t') (r : Request) (s : List UInt8) :
    Calls rd m r t ((request m r t').2.print s) := by
  refine ⟨h.size_le, ?_⟩
  rw [← h.client]
  rfl

variable (rd m)

/-- Nobody registers or logs in without a name. -/
theorem promptAndAuth_cases (isLogin : Bool) (t : Terminal τ σ) :
    (promptAndAuth rd m isLogin t).1 ≠ .ok ∧ Idles rd t (promptAndAuth rd m isLogin t).2 ∨
    ∃ user pass, user ≠ .empty ∧ Field.user.Holds user ∧ Field.pass.Holds pass ∧
      let r := if isLogin then Request.login user pass else .register user pass
      (promptAndAuth rd m isLogin t).1 = (m.call r t.client).1.1 ∧
      Calls rd m r t (promptAndAuth rd m isLogin t).2 := by
  rw [promptAndAuth]
  split
  · next t₁ h₁ => exact .inl ⟨by simp, idles_ask h₁⟩
  · next user t₁ h₁ =>
    split
    · next t₂ h₂ => exact .inl ⟨by simp, (idles_ask h₁).trans (idles_ask h₂)⟩
    · next pass t₂ h₂ =>
      have hidles := (idles_ask h₁).trans (idles_ask h₂)
      by_cases huser : user = .empty
      · rw [if_pos huser]
        exact .inl ⟨by simp, hidles.print _⟩
      · rw [if_neg huser]
        refine .inr ⟨user, pass, huser, holds_ask h₁, holds_ask h₂, ?_⟩
        dsimp only
        rw [← hidles.client]
        exact ⟨rfl, hidles.calls ..⟩

theorem doGroupJoin_cases (isCreate : Bool) (t : Terminal τ σ) :
    Idles rd t (doGroupJoin rd m isCreate t) ∨
    ∃ group, group ≠ .empty ∧ Field.group.Holds group ∧
      Calls rd m (if isCreate then .createGroup group else .joinGroup group) t
        (doGroupJoin rd m isCreate t) := by
  rw [doGroupJoin]
  dsimp only
  split
  · next t₁ h₁ => exact .inl (idles_ask h₁)
  · next group t₁ h₁ =>
    by_cases hgroup : group = .empty
    · rw [if_pos hgroup]
      exact .inl ((idles_ask h₁).print _)
    · rw [if_neg hgroup]
      exact .inr ⟨group, hgroup, holds_ask h₁, (idles_ask h₁).calls ..⟩

theorem doGroupLeave_cases (t : Terminal τ σ) :
    Idles rd t (doGroupLeave rd m t) ∨
    ∃ group, group ≠ .empty ∧ Field.group.Holds group ∧
      Calls rd m (.leaveGroup group) t (doGroupLeave rd m t) := by
  rw [doGroupLeave]
  split
  · next t₁ h₁ => exact .inl (idles_ask h₁)
  · next group t₁ h₁ =>
    by_cases hgroup : group = .empty
    · rw [if_pos hgroup]
      exact .inl ((idles_ask h₁).print _)
    · rw [if_neg hgroup]
      exact .inr ⟨group, hgroup, holds_ask h₁, (idles_ask h₁).calls ..⟩

theorem size_promptAndAuth_le (isLogin : Bool) (t : Terminal τ σ) :
    rd.size (promptAndAuth rd m isLogin t).2.input ≤ rd.size t.input := by
  rcases promptAndAuth_cases rd m isLogin t with ⟨-, h⟩ | ⟨_, _, -, -, -, -, h⟩ <;> exact h.size_le

theorem size_doGroupJoin_le (isCreate : Bool) (t : Terminal τ σ) :
    rd.size (doGroupJoin rd m isCreate t).input ≤ rd.size t.input := by
  rcases doGroupJoin_cases rd m isCreate t with h | ⟨_, -, -, h⟩ <;> exact h.size_le

theorem size_doGroupLeave_le (t : Terminal τ σ) :
    rd.size (doGroupLeave rd m t).input ≤ rd.size t.input := by
  rcases doGroupLeave_cases rd m t with h | ⟨_, -, -, h⟩ <;> exact h.size_le

/-- `screen2`. -/
def screen2 (t : Terminal τ σ) : Terminal τ σ :=
  match _h : ask rd .choice (t.print (groupsMenu (m.username t.client))) with
  | (none, t) => t
  | (some choice, t') =>
    if choice.bytes = literal "1" then screen2 (doGroupJoin rd m true t')
    else if choice.bytes = literal "2" then screen2 (doGroupJoin rd m false t')
    else if choice.bytes = literal "3" then screen2 (doGroupLeave rd m t')
    else if choice.bytes = literal "4" then
      let st := (request m .logout t').1.1
      if st = .ok then (request m .logout t').2.print (literal "  logged out\n")
      else
        screen2 ((request m .logout t').2.print
          (literal "  logout failed: " ++ statusMsg st ++ literal "\n"))
    else screen2 (t'.print (literal "  please enter 1, 2, 3, or 4\n"))
termination_by rd.size t.input
decreasing_by
  · exact Nat.lt_of_le_of_lt (size_doGroupJoin_le rd m _ _) (size_ask_menu _h)
  · exact Nat.lt_of_le_of_lt (size_doGroupJoin_le rd m _ _) (size_ask_menu _h)
  · exact Nat.lt_of_le_of_lt (size_doGroupLeave_le rd m _) (size_ask_menu _h)
  · have hlt := size_ask_menu _h
    exact hlt
  · have hlt := size_ask_menu _h
    exact hlt

theorem size_screen2_le (t : Terminal τ σ) :
    rd.size (screen2 rd m t).input ≤ rd.size t.input := by
  fun_induction screen2 rd m t with
  | case1 t t' h => exact (idles_menu h).size_le
  | case2 t choice t' h _ ih =>
    exact ih.trans ((size_doGroupJoin_le rd m _ _).trans (idles_menu h).size_le)
  | case3 t choice t' h _ _ ih =>
    exact ih.trans ((size_doGroupJoin_le rd m _ _).trans (idles_menu h).size_le)
  | case4 t choice t' h _ _ _ ih =>
    exact ih.trans ((size_doGroupLeave_le rd m _).trans (idles_menu h).size_le)
  | case5 t choice t' h => exact (idles_menu h).size_le
  | case6 t choice t' h _ _ _ _ st hst ih => exact ih.trans (idles_menu h).size_le
  | case7 t choice t' h _ _ _ _ ih => exact ih.trans (idles_menu h).size_le

/-- `ui_run`. -/
def uiRun (t : Terminal τ σ) : Terminal τ σ :=
  match _h : ask rd .choice (t.print authMenu) with
  | (none, t) => t.print (literal "\ninput closed, exiting.\n")
  | (some choice, t') =>
    if choice.bytes = literal "1" then uiRun (promptAndAuth rd m false t').2
    else if choice.bytes = literal "2" then
      if (promptAndAuth rd m true t').1 = .ok then
        uiRun (screen2 rd m (promptAndAuth rd m true t').2)
      else uiRun (promptAndAuth rd m true t').2
    else if choice.bytes = literal "3" then t'.print (literal "bye.\n")
    else uiRun (t'.print (literal "  please enter 1, 2, or 3\n"))
termination_by rd.size t.input
decreasing_by
  · exact Nat.lt_of_le_of_lt (size_promptAndAuth_le rd m _ _) (size_ask_menu _h)
  · exact Nat.lt_of_le_of_lt ((size_screen2_le rd m _).trans (size_promptAndAuth_le rd m _ _))
      (size_ask_menu _h)
  · exact Nat.lt_of_le_of_lt (size_promptAndAuth_le rd m _ _) (size_ask_menu _h)
  · have hlt := size_ask_menu _h
    exact hlt

end

/-! ## What is on offer -/

/-- The two screens. -/
inductive Screen where
  | auth
  | groups
deriving DecidableEq

namespace Screen

/-- The requests that can be made from a screen. -/
def Offers : Screen → Request → Prop
  | auth, .register user pass | auth, .login user pass =>
    user ≠ .empty ∧ Field.user.Holds user ∧ Field.pass.Holds pass
  | groups, .createGroup group | groups, .joinGroup group | groups, .leaveGroup group =>
    group ≠ .empty ∧ Field.group.Holds group
  | groups, .logout => True
  | _, _ => False

/-- The screen that is up once a request has returned. -/
def after (s : Screen) (r : Request) (st : ChatStatus) : Screen :=
  match r, st with
  | .login _ _, .ok => groups
  | .logout, .ok => auth
  | _, _ => s

instance : ∀ (s : Screen) (r : Request), Decidable (s.Offers r)
  | auth, .register user pass | auth, .login user pass =>
    inferInstanceAs (Decidable (user ≠ .empty ∧ Field.user.Holds user ∧ Field.pass.Holds pass))
  | groups, .createGroup group | groups, .joinGroup group | groups, .leaveGroup group =>
    inferInstanceAs (Decidable (group ≠ .empty ∧ Field.group.Holds group))
  | groups, .logout => .isTrue trivial
  | auth, .logout | auth, .createGroup _ | auth, .joinGroup _ | auth, .leaveGroup _
  | groups, .register _ _ | groups, .login _ _ => .isFalse not_false

theorem after_of_ne (s : Screen) (r : Request) {st : ChatStatus} (h : st ≠ .ok) :
    s.after r st = s := by
  cases r <;> cases st <;> first | rfl | exact absurd rfl h

/-- What is on offer fits the fields of its frame. -/
theorem Offers.fits {s : Screen} {r : Request} (h : s.Offers r) : r.Fits := by
  cases s <;> cases r <;> first
    | exact trivial
    | exact h.elim
    | exact ⟨Nat.le_of_lt_succ h.2.1.1, Nat.le_of_lt_succ h.2.2.1⟩
    | exact Nat.le_of_lt_succ h.2.1

end Screen

section
variable {τ σ : Type} (rd : Reader τ) (m : Manager σ)

/-- A call, with the screen that is up. -/
def Manager.step (x : Screen × σ) (r : Request) : (Screen × σ) × ChatStatus :=
  ((x.1.after r (m.call r x.2).1.1, (m.call r x.2).2), (m.call r x.2).1.1)

/-- Requests that are made from the screens, each on offer when its turn comes. -/
def Talk (x : Screen × σ) (rs : List Request) (y : Screen × σ) : Prop :=
  Along m.step (fun x r => x.1.Offers r) x rs ∧ run m.step x rs = y

variable {rd m}

theorem Talk.nil (x : Screen × σ) : Talk m x [] x := ⟨trivial, rfl⟩

theorem Talk.cons {x y : Screen × σ} {r : Request} {rs : List Request} (hr : x.1.Offers r)
    (h : Talk m (m.step x r).1 rs y) : Talk m x (r :: rs) y :=
  ⟨⟨hr, h.1⟩, h.2⟩

theorem Talk.append {x y z : Screen × σ} {rs rs' : List Request} (h : Talk m x rs y)
    (h' : Talk m y rs' z) : Talk m x (rs ++ rs') z := by
  induction rs generalizing x with
  | nil =>
    obtain rfl : x = y := h.2
    exact h'
  | cons r rs ih => exact .cons h.1.1 (ih ⟨h.1.2, h.2⟩)

variable (rd m)

/-- Each function makes requests that are on offer, and returns with the screen it says. -/
theorem promptAndAuth_talk (isLogin : Bool) (t : Terminal τ σ) :
    ∃ rs, Talk m (.auth, t.client) rs
      (if isLogin ∧ (promptAndAuth rd m isLogin t).1 = .ok then .groups else .auth,
        (promptAndAuth rd m isLogin t).2.client) := by
  rcases promptAndAuth_cases rd m isLogin t with
    ⟨hne, hidles⟩ | ⟨user, pass, hname, huser, hpass, hst, hcalls⟩
  · refine ⟨[], ?_⟩
    rw [if_neg fun h => hne h.2, hidles.client]
    exact .nil _
  · refine ⟨[_], .cons (r := if isLogin then .login user pass else .register user pass) ?_ ?_⟩
    · cases isLogin <;> exact ⟨hname, huser, hpass⟩
    · refine ⟨trivial, ?_⟩
      show (Screen.auth.after _ _, _) = _
      rw [← hst, ← hcalls.client]
      by_cases hok : (promptAndAuth rd m isLogin t).1 = .ok
      · rw [hok]
        cases isLogin <;> rfl
      · rw [Screen.after_of_ne _ _ hok, if_neg fun h => hok h.2]

theorem doGroupJoin_talk (isCreate : Bool) (t : Terminal τ σ) :
    ∃ rs, Talk m (.groups, t.client) rs (.groups, (doGroupJoin rd m isCreate t).client) := by
  rcases doGroupJoin_cases rd m isCreate t with hidles | ⟨group, hname, hgroup, hcalls⟩
  · exact ⟨[], by rw [hidles.client]; exact .nil _⟩
  · refine ⟨[_], .cons (r := if isCreate then .createGroup group else .joinGroup group) ?_ ?_⟩
    · cases isCreate <;> exact ⟨hname, hgroup⟩
    · rw [hcalls.client]
      cases isCreate <;> exact .nil _

theorem doGroupLeave_talk (t : Terminal τ σ) :
    ∃ rs, Talk m (.groups, t.client) rs (.groups, (doGroupLeave rd m t).client) := by
  rcases doGroupLeave_cases rd m t with hidles | ⟨group, hname, hgroup, hcalls⟩
  · exact ⟨[], by rw [hidles.client]; exact .nil _⟩
  · refine ⟨[_], .cons (r := .leaveGroup group) ⟨hname, hgroup⟩ ?_⟩
    rw [hcalls.client]
    exact .nil _

/-- The second screen ends with the first one up, or with the input. -/
theorem screen2_talk (t : Terminal τ σ) :
    ∃ rs s, Talk m (.groups, t.client) rs (s, (screen2 rd m t).client) ∧
      (s = .auth ∨ rd.size (screen2 rd m t).input = 0) := by
  -- a turn that comes back to the menu, and the turns after it
  have hthen : ∀ {c c' : σ} (rs : List Request) {t' : Terminal τ σ},
      Talk m (.groups, c) rs (.groups, c') →
      (∃ rs s, Talk m (.groups, c') rs (s, t'.client) ∧ (s = .auth ∨ rd.size t'.input = 0)) →
      ∃ rs s, Talk m (.groups, c) rs (s, t'.client) ∧ (s = .auth ∨ rd.size t'.input = 0) := by
    rintro c c' rs t' h ⟨rs', s, h', hs⟩
    exact ⟨rs ++ rs', s, h.append h', hs⟩
  fun_induction screen2 rd m t with
  | case1 t t' h =>
    obtain ⟨hsize, hinput, hclient⟩ := ask_none h
    refine ⟨[], .groups, ?_, .inr (by rw [hinput]; exact hsize)⟩
    rw [hclient]
    exact .nil _
  | case2 t choice t' h _ ih =>
    obtain ⟨rs, hrs⟩ := doGroupJoin_talk rd m true t'
    rw [(idles_menu h).client] at hrs
    exact hthen rs hrs ih
  | case3 t choice t' h _ _ ih =>
    obtain ⟨rs, hrs⟩ := doGroupJoin_talk rd m false t'
    rw [(idles_menu h).client] at hrs
    exact hthen rs hrs ih
  | case4 t choice t' h _ _ _ ih =>
    obtain ⟨rs, hrs⟩ := doGroupLeave_talk rd m t'
    rw [(idles_menu h).client] at hrs
    exact hthen rs hrs ih
  | case5 t choice t' h _ _ _ _ st hst =>
    refine ⟨[.logout], .auth, .cons trivial ⟨trivial, ?_⟩, .inl rfl⟩
    show (Screen.groups.after .logout _, _) = _
    rw [← (idles_menu h).client]
    exact congrArg (·, _) (congrArg (Screen.groups.after .logout) hst)
  | case6 t choice t' h _ _ _ _ st hst ih =>
    refine hthen [.logout] (.cons trivial ⟨trivial, ?_⟩) ih
    show (Screen.groups.after .logout _, _) = _
    rw [← (idles_menu h).client]
    exact congrArg (·, _) (Screen.after_of_ne _ _ hst)
  | case7 t choice t' h _ _ _ _ ih =>
    refine hthen [] ?_ ih
    show Talk m _ [] (.groups, t'.client)
    rw [(idles_menu h).client]
    exact .nil _

/-- **The menus make no request that is not on offer**, whatever is typed and whatever the calls
return.  They end with the first screen up, or with the input. -/
theorem uiRun_talk {s : Screen} (t : Terminal τ σ) (hs : s = .auth ∨ rd.size t.input = 0) :
    ∃ rs s', Talk m (s, t.client) rs (s', (uiRun rd m t).client) ∧
      (s' = .auth ∨ rd.size (uiRun rd m t).input = 0) := by
  have hauth : ∀ {t t' : Terminal τ σ} {menu : List UInt8} {choice : CStr} {s : Screen},
      (s = .auth ∨ rd.size t.input = 0) → ask rd .choice (t.print menu) = (some choice, t') →
      s = .auth := by
    intro t t' menu choice s hs h
    have hlt := size_ask_menu h
    exact hs.resolve_right (by omega)
  fun_induction uiRun rd m t generalizing s with
  | case1 t t' h =>
    obtain ⟨hsize, hinput, hclient⟩ := ask_none h
    refine ⟨[], s, ?_, .inr ?_⟩
    · show Talk m _ [] (s, t'.client)
      rw [hclient]
      exact .nil _
    · show rd.size t'.input = 0
      rw [hinput]
      exact hsize
  | case2 t choice t' h _ ih =>
    obtain rfl := hauth hs h
    obtain ⟨rs, hrs⟩ := promptAndAuth_talk rd m false t'
    rw [(idles_menu h).client] at hrs
    obtain ⟨rs', s', hrs', hs'⟩ := ih (.inl rfl)
    exact ⟨rs ++ rs', s', hrs.append hrs', hs'⟩
  | case3 t choice t' h _ _ hok ih =>
    obtain rfl := hauth hs h
    obtain ⟨rs, hrs⟩ := promptAndAuth_talk rd m true t'
    rw [(idles_menu h).client, if_pos ⟨rfl, hok⟩] at hrs
    obtain ⟨rs₂, s₂, hrs₂, hs₂⟩ := screen2_talk rd m (promptAndAuth rd m true t').2
    obtain ⟨rs', s', hrs', hs'⟩ := ih hs₂
    exact ⟨rs ++ rs₂ ++ rs', s', (hrs.append hrs₂).append hrs', hs'⟩
  | case4 t choice t' h _ _ hok ih =>
    obtain rfl := hauth hs h
    obtain ⟨rs, hrs⟩ := promptAndAuth_talk rd m true t'
    rw [(idles_menu h).client, if_neg fun hand => hok hand.2] at hrs
    obtain ⟨rs', s', hrs', hs'⟩ := ih (.inl rfl)
    exact ⟨rs ++ rs', s', hrs.append hrs', hs'⟩
  | case5 t choice t' h =>
    obtain rfl := hauth hs h
    refine ⟨[], .auth, ?_, .inl rfl⟩
    show Talk m _ [] (_, t'.client)
    rw [(idles_menu h).client]
    exact .nil _
  | case6 t choice t' h _ _ _ ih =>
    obtain rfl := hauth hs h
    obtain ⟨rs', s', hrs', hs'⟩ := ih (.inl rfl)
    refine ⟨rs', s', ?_, hs'⟩
    rw [← (idles_menu h).client]
    exact hrs'

end

end Ui

end ChatProject
