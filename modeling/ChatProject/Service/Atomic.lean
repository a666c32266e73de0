import ChatProject.Lib.Simulation
import ChatProject.Service.Replies

/-!
# The service as its users would like to have it

Users do not see bytes, slots or descriptors.  They ask for something and are answered, and what
they would like to think is that each request is dealt with in one go, at some moment between the
two.  `Atomic` is the service in which that is so: a client's call is either not there, or asked, or
served and on its way back, and serving it is one step that nobody sees.

* `Note` — what the users see: who asks for what, and what is answered.
* `Line` — the connection of one client.
* `Atomic.Step` — the steps.
* `Atomic.Move` — a step from where its client stands; `Step.move`: that is all a step is.

`System/Linearization.lean` proves that nobody can tell the real system from this one.
-/

set_option autoImplicit false

namespace ChatProject

/-- The group a request leads into. -/
def Request.enters : Request → Option CStr
  | .createGroup g | .joinGroup g => some g
  | _ => none

theorem Request.enters_eq_some_iff {r : Request} {g : CStr} :
    r.enters = some g ↔ r = .createGroup g ∨ r = .joinGroup g := by
  cases r <;> simp [enters]

/-- What the users see. -/
inductive Note (κ : Type) where
  | asked (k : κ) (r : Request)
  /-- The call has returned, with an address if it was one that leads into a group and succeeded. -/
  | answered (k : κ) (r : Request) (status : ChatStatus) (addr : Option McastPair)
  /-- The call has returned at once with `ST_ERR_PROTOCOL`, because a string is too long. -/
  | rejected (k : κ) (r : Request)
  /-- The client is gone. -/
  | left (k : κ)
deriving DecidableEq

/-- The address that goes with the answer to a request. -/
def Chat.address (c : Chat) (fd : Int) (r : Request) : Option McastPair :=
  if c.verdict fd r = .ok then r.enters.bind (c.serve fd r).1.held else none

/-! ## The state -/

/-- Where the call of a client stands. -/
inductive Pending where
  | idle
  | asked (r : Request)
  /-- It has been served, and this is the answer. -/
  | served (r : Request) (status : ChatStatus) (addr : Option McastPair)

/-- The request that has not been served. -/
def Pending.owed : Pending → Option Request
  | .asked r => some r
  | _ => none

/-- The client a note is about. -/
def Note.client {κ : Type} : Note κ → κ
  | .asked k _ | .answered k _ _ _ | .rejected k _ | .left k => k

/-- The connection of a client; `fd` is the descriptor the server knows it by, once there is one. -/
inductive Line where
  | unmade
  | made (fd : Option Int) (call : Pending)
  /-- The client is gone, and may have left a request behind. -/
  | left (fd : Option Int) (owed : Option Request)
  /-- The server knows that too. -/
  | forgotten

/-- The descriptor of a connection. -/
def Line.fd : Line → Option Int
  | .made fd _ | .left fd _ => fd
  | _ => none

/-- The request of a connection that has not been served. -/
def Line.owed : Line → Option Request
  | .made _ call => call.owed
  | .left _ owed => owed
  | _ => none

/-- The service and its clients. -/
structure Atomic (κ : Type) where
  chat : Chat
  line : κ → Line

namespace Atomic

variable {κ : Type} [DecidableEq κ] (A : Atomic κ)

/-- One line changes. -/
def withLine (k : κ) (l : Line) : Atomic κ := { A with line := Function.update A.line k l }

theorem withLine_line (k : κ) (l : Line) (k' : κ) :
    (A.withLine k l).line k' = if k' = k then l else A.line k' := Function.update_apply ..

/-- A descriptor of the table that nobody has. -/
def Unused (fd : Int) : Prop := 0 ≤ fd ∧ fd < fdSetSize ∧ ∀ k, (A.line k).fd ≠ some fd

/-! ## The steps -/

/-- A step of the service, and what is seen of it. -/
inductive Step (A : Atomic κ) : Option (Note κ) → Atomic κ → Prop
  | connect {k : κ} (h : A.line k = .unmade) : Step A none (A.withLine k (.made none .idle))
  | ask {k : κ} {fd : Option Int} {r : Request} (h : A.line k = .made fd .idle) (hr : r.Fits) :
    Step A (some (.asked k r)) (A.withLine k (.made fd (.asked r)))
  | reject {k : κ} {fd : Option Int} {r : Request} (h : A.line k = .made fd .idle)
    (hr : ¬ r.Fits) : Step A (some (.rejected k r)) A
  | accept {k : κ} {call : Pending} {fd : Int} (h : A.line k = .made none call)
    (hfd : A.Unused fd) : Step A none (A.withLine k (.made (some fd) call))
  /-- The server does not know yet that the client is gone. -/
  | acceptLeft {k : κ} {owed : Option Request} {fd : Int} (h : A.line k = .left none owed)
    (hfd : A.Unused fd) : Step A none (A.withLine k (.left (some fd) owed))
  /-- **A request is served.** -/
  | serve {k : κ} {fd : Int} {r : Request} (h : A.line k = .made (some fd) (.asked r)) :
    Step A none
      { chat := (A.chat.serve fd r).1
        line := Function.update A.line k
          (.made (some fd) (.served r (A.chat.verdict fd r) (A.chat.address fd r))) }
  /-- So it is when the client has not waited for it. -/
  | serveLeft {k : κ} {fd : Int} {r : Request} (h : A.line k = .left (some fd) (some r)) :
    Step A none
      { chat := (A.chat.serve fd r).1
        line := Function.update A.line k (.left (some fd) none) }
  | answer {k : κ} {fd : Option Int} {r : Request} {status : ChatStatus}
    {addr : Option McastPair} (h : A.line k = .made fd (.served r status addr)) :
    Step A (some (.answered k r status addr)) (A.withLine k (.made fd .idle))
  | leave {k : κ} {fd : Option Int} {call : Pending} (h : A.line k = .made fd call) :
    Step A (some (.left k)) (A.withLine k (.left fd call.owed))
  | hangUp {k : κ} {fd : Int} {owed : Option Request} (h : A.line k = .left (some fd) owed) :
    Step A none
      { chat := A.chat.hangUp fd
        line := Function.update A.line k .forgotten }

/-! ## One client at a time -/

/-- What a step is for the client whose step it is: how its line changes, what is seen of it, and
what becomes of the service. -/
inductive Move (A : Atomic κ) (k : κ) : Line → Option (Note κ) → Line → Chat → Prop
  | connect : Move A k .unmade none (.made none .idle) A.chat
  | ask {fd : Option Int} {r : Request} (hr : r.Fits) :
    Move A k (.made fd .idle) (some (.asked k r)) (.made fd (.asked r)) A.chat
  | reject {fd : Option Int} {r : Request} (hr : ¬ r.Fits) :
    Move A k (.made fd .idle) (some (.rejected k r)) (.made fd .idle) A.chat
  | accept {call : Pending} {fd : Int} (hfd : A.Unused fd) :
    Move A k (.made none call) none (.made (some fd) call) A.chat
  | acceptLeft {owed : Option Request} {fd : Int} (hfd : A.Unused fd) :
    Move A k (.left none owed) none (.left (some fd) owed) A.chat
  | serve {fd : Int} {r : Request} :
    Move A k (.made (some fd) (.asked r)) none
      (.made (some fd) (.served r (A.chat.verdict fd r) (A.chat.address fd r)))
      (A.chat.serve fd r).1
  | serveLeft {fd : Int} {r : Request} :
    Move A k (.left (some fd) (some r)) none (.left (some fd) none) (A.chat.serve fd r).1
  | answer {fd : Option Int} {r : Request} {status : ChatStatus} {addr : Option McastPair} :
    Move A k (.made fd (.served r status addr)) (some (.answered k r status addr)) (.made fd .idle)
      A.chat
  | leave {fd : Option Int} {call : Pending} :
    Move A k (.made fd call) (some (.left k)) (.left fd call.owed) A.chat
  | hangUp {fd : Int} {owed : Option Request} :
    Move A k (.left (some fd) owed) none .forgotten (A.chat.hangUp fd)

/-- A step is one client's, and leaves the lines of the others as they are. -/
theorem Step.move {A A' : Atomic κ} {x : Option (Note κ)} (h : A.Step x A') :
    ∃ k, A.Move k (A.line k) x (A'.line k) A'.chat ∧ ∀ k', k' ≠ k → A'.line k' = A.line k' := by
  have hwith : ∀ {k : κ} {l : Line}, A.Move k (A.line k) x l A.chat →
      ∃ k', A.Move k' (A.line k') x ((A.withLine k l).line k') A.chat ∧
        ∀ k'', k'' ≠ k' → (A.withLine k l).line k'' = A.line k'' := by
    intro k l hm
    refine ⟨k, ?_, fun k' hk => by rw [withLine_line, if_neg hk]⟩
    rwa [withLine_line, if_pos rfl]
  have hupdate : ∀ {k : κ} {l : Line} {c : Chat}, A.Move k (A.line k) x l c →
      ∃ k', A.Move k' (A.line k') x (Function.update A.line k l k') c ∧
        ∀ k'', k'' ≠ k' → Function.update A.line k l k'' = A.line k'' := by
    intro k l c hm
    refine ⟨k, ?_, fun k' hk => Function.update_of_ne hk ..⟩
    rwa [Function.update_self]
  cases h with
  | connect h => exact hwith (h ▸ .connect)
  | ask h hr => exact hwith (h ▸ .ask hr)
  | @reject k fd r h hr =>
    refine ⟨k, ?_, fun _ _ => rfl⟩
    rw [h]
    exact .reject hr
  | accept h hfd => exact hwith (h ▸ .accept hfd)
  | acceptLeft h hfd => exact hwith (h ▸ .acceptLeft hfd)
  | serve h => exact hupdate (h ▸ .serve)
  | serveLeft h => exact hupdate (h ▸ .serveLeft)
  | answer h => exact hwith (h ▸ .answer)
  | leave h => exact hwith (h ▸ .leave)
  | hangUp h => exact hupdate (h ▸ .hangUp)

omit [DecidableEq κ] in
/-- What is seen of a step is about the client whose step it is. -/
theorem Move.client {A : Atomic κ} {k : κ} {l l' : Line} {x : Note κ} {c : Chat}
    (h : A.Move k l (some x) l' c) : x.client = k := by
  cases h <;> rfl

end Atomic

end ChatProject
