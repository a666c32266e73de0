import ChatProject.Client.Typing
import ChatProject.System.Agreement

/-!
# A user at the terminal

`client_main.c`: the menus on standard input, over a connection to the server.  What is typed is up
to the user, what other clients do in between is up to them; but a user never gets the client out of
step with the server.

* `Seat` — the client of the menus: one end of a `System`, and what its surroundings will do.
* `InStep` — what there is to say about one request that has been made.
* `sitting_in_step` — it holds of every request, whatever is typed; and when the connection is
  closed the user is gone from the server.
-/

set_option autoImplicit false

namespace ChatProject

open Machine ServerMng

/-! ## The client of the menus -/

/-- One end of a connection, and what is to come. -/
structure Seat (ε : Type) where
  system : System ε
  /-- What the surroundings do during the call with this number. -/
  ahead : Nat → Surroundings
  /-- The calls that have been made. -/
  made : List (Surroundings × Request)

/-- `client_mng.c`, as the menus use it. -/
def Seat.manager {ε : Type} (os : Desktop ε) : Ui.Manager (Seat ε) where
  call r x :=
    let env := x.ahead x.made.length
    let res := x.system.call os env r
    ((res.status, res.outIp, res.outPort),
      { x with system := x.system.next os env r, made := x.made ++ [(env, r)] })
  username x := x.system.client.username

/-! ## One request -/

/-- A status that only a client gets that is out of step with the server. -/
def ChatStatus.Astray : ChatStatus → Prop
  | .errProtocol | .errNotLoggedIn | .unknown _ => True
  | _ => False

namespace Chat

variable {c : Chat} {fd : Int} {i : Fin fdSetSize}

/-- On the first screen. -/
theorem verdict_auth (hs : c.Sessions) (hfd : fdIndex fd = some i) (hout : c.session fd = none)
    {r : Request} (hr : Ui.Screen.auth.Offers r) :
    ¬ (c.verdict fd r).Astray ∧ (c.verdict fd r = .errAlreadyLoggedIn →
      ∃ n p fd', r = .login n p ∧ fd' ≠ fd ∧ c.session fd' = some n) := by
  have hsock : c.sock i = none := (session_of_fdIndex hfd).symm.trans hout
  cases r with
  | register n p =>
    rw [verdict]
    split <;> exact ⟨not_false, by simp⟩
  | login n p =>
    cases hu : c.user n with
    | none =>
      rw [verdict_login_of_unknown hfd hsock hu]
      exact ⟨not_false, by simp⟩
    | some u =>
      rw [verdict_login_of_known hfd hsock hu]
      split
      · exact ⟨not_false, by simp⟩
      split
      next honline =>
        obtain ⟨j, hj⟩ := hs.online hu honline
        have hother : c.session ((j : Nat) : Int) = some n :=
          (session_of_fdIndex (fdIndex_natCast j)).trans hj
        refine ⟨not_false, fun _ => ⟨n, p, _, rfl, fun heq => ?_, hother⟩⟩
        rw [heq, hout] at hother
        exact absurd hother (by simp)
      next => exact ⟨not_false, by simp⟩
  | _ => exact hr.elim

/-- On the second one. -/
theorem verdict_groups (hfd : fdIndex fd = some i) {n : CStr} (hin : c.session fd = some n)
    {r : Request} (hr : Ui.Screen.groups.Offers r) :
    ¬ (c.verdict fd r).Astray ∧ c.verdict fd r ≠ .errAlreadyLoggedIn := by
  have hsock : c.sock i = some n := (session_of_fdIndex hfd).symm.trans hin
  cases r with
  | logout =>
    simp only [verdict, hfd, hsock]
    exact ⟨not_false, by simp⟩
  | createGroup g =>
    rw [verdict, if_neg (by rw [hin]; simp)]
    split
    · exact ⟨not_false, by simp⟩
    split <;> exact ⟨not_false, by simp⟩
  | joinGroup g =>
    simp only [verdict, hin]
    split
    · exact ⟨not_false, by simp⟩
    split <;> exact ⟨not_false, by simp⟩
  | leaveGroup g =>
    simp only [verdict, hfd, hsock]
    split <;> exact ⟨not_false, by simp⟩
  | _ => exact hr.elim

end Chat

/-- The client believes to be logged in once a login, and until a logout, has been answered
`ST_OK`. -/
theorem ClientMng.loggedIn_call {ε : Type} (os : Desktop ε) (m : ClientMng) (w : Wire) (al : Alloc)
    (e : ε) (r : Request) {screen : Ui.Screen} (hscreen : screen = .groups ↔ m.loggedIn = 1) :
    screen.after r (m.call os w al e r).status = .groups ↔
      (m.call os w al e r).client.loggedIn = 1 := by
  have hne : ∀ {st : ChatStatus}, st ≠ .ok →
      (screen.after r st = .groups ↔ m.loggedIn = 1) := fun hst => by
    rw [Ui.Screen.after_of_ne _ _ hst, hscreen]
  rcases hexchange : m.exchange w r.encode with ⟨_ | frame, traffic⟩
  · obtain ⟨hstatus, hclient, -⟩ : (m.call os w al e r).status = .errProtocol ∧
        (m.call os w al e r).client = m ∧ (m.call os w al e r).traffic = _ :=
      call_of_none os hexchange
    rw [hstatus, hclient]
    exact hne (by simp)
  · obtain ⟨hstatus, -, -, -, hclient⟩ : (m.call os w al e r).status = _ ∧
        (m.call os w al e r).outIp = _ ∧ (m.call os w al e r).outPort = _ ∧
        (m.call os w al e r).traffic = _ ∧ (m.call os w al e r).client = _ :=
      call_of_reply os hexchange
    rw [hstatus, hclient]
    by_cases hok : (readReply r frame).1 = .ok
    · rw [if_pos hok, hok]
      cases r with
      | login _ _ => simp [Ui.Screen.after, granted]
      | logout => simp [Ui.Screen.after, granted]
      | _ => exact hscreen
    · rw [if_neg hok]
      exact hne hok

section
variable {ε : Type} (os : Desktop ε)

/-- A request of the menus, made where client and server stand as in `S`. -/
structure InStep (fd : Int) (S : System ε) (env : Surroundings) (r : Request) : Prop where
  /-- It goes out whole, and is understood. -/
  sent : Request.parse (S.call os env r).traffic.sent = some r
  /-- The first screen is up when the server has no session, the second one when it has one. -/
  screen : (∃ n p, r = .register n p ∨ r = .login n p) ↔ S.server.view.session fd = none
  /-- The name above the menu is that of the session. -/
  username : ∀ n, S.server.view.session fd = some n → S.client.username = n
  status : ¬ (S.call os env r).status.Astray
  /-- Who is told to be logged in already, is so on another connection. -/
  elsewhere : (S.call os env r).status = .errAlreadyLoggedIn → ∃ n p fd' es₁ es₂,
    r = .login n p ∧ fd' ≠ fd ∧ env.turns.flatten = es₁ ++ es₂ ∧
      (S.server.run es₁).view.session fd' = some n

variable {os} {fd : Int} {S : System ε} {env : Surroundings} {r : Request}

theorem InStep.of_agree (hS : S.Agree fd) (h0 : 0 ≤ fd) (hlt : fd < fdSetSize)
    (henv : env.Fair fd) {screen : Ui.Screen}
    (hscreen : screen = .groups ↔ S.client.loggedIn = 1) (hr : screen.Offers r) :
    InStep os fd S env r := by
  obtain ⟨i, hfd⟩ := exists_fdIndex h0 hlt
  obtain ⟨msg, frame, es₁, es₂, ha⟩ := hS.answered h0 henv hr.fits
  obtain ⟨hstatus, -, -, hsent, -⟩ := hS.call_of_answered os henv hr.fits ha
  have hu := undisturbed_run hS.inv ha.before
  have hlogin := hS.believes.login
  cases screen with
  | auth =>
    have hnone : S.server.view.session fd = none :=
      (hlogin.resolve_left fun hin => absurd (hscreen.mpr hin.1) (by simp)).2
    obtain ⟨hastray, hbusy⟩ :=
      Chat.verdict_auth hu.inv.sessions hfd (hu.session.trans hnone) hr
    refine ⟨by rw [hsent, ha.parse], ⟨fun _ => hnone, fun _ => ?_⟩, fun n hn => ?_,
      by rw [hstatus]; exact hastray, fun hst => ?_⟩
    · cases r with
      | register n p => exact ⟨n, p, .inl rfl⟩
      | login n p => exact ⟨n, p, .inr rfl⟩
      | _ => exact hr.elim
    · rw [hnone] at hn
      exact absurd hn (by simp)
    · obtain ⟨n, p, fd', hlog, hne, hother⟩ := hbusy (hstatus.symm.trans hst)
      exact ⟨n, p, fd', es₁, es₂, hlog, hne, ha.others, hother⟩
  | groups =>
    have hsome : S.server.view.session fd = some S.client.username :=
      (hlogin.resolve_right fun hout => absurd (hout.1.symm.trans (hscreen.mp rfl)) (by simp)).2
    obtain ⟨hastray, hbusy⟩ := Chat.verdict_groups hfd (hu.session.trans hsome) hr
    refine ⟨by rw [hsent, ha.parse], ⟨?_, fun hnone => ?_⟩, fun n hn => ?_,
      by rw [hstatus]; exact hastray, fun hst => absurd (hstatus.symm.trans hst) hbusy⟩
    · rintro ⟨n, p, rfl | rfl⟩ <;> exact hr.elim
    · rw [hsome] at hnone
      exact absurd hnone (by simp)
    · rw [hsome, Option.some_inj] at hn
      exact hn

/-! ## The whole sitting -/

variable (os fd) in
/-- What holds of a seat while a screen is up. -/
structure Seated (S₀ : System ε) (ahead : Nat → Surroundings) (screen : Ui.Screen)
    (x : Seat ε) : Prop where
  system : x.system = S₀.run os x.made
  ahead : x.ahead = ahead
  agree : x.system.Agree fd
  screen : screen = .groups ↔ x.system.client.loggedIn = 1
  made : ∀ before env r after, x.made = before ++ (env, r) :: after →
    InStep os fd (S₀.run os before) env r

theorem Seated.step {S₀ : System ε} {ahead : Nat → Surroundings}
    (hahead : ∀ n, (ahead n).Fair fd) (h0 : 0 ≤ fd) (hlt : fd < fdSetSize) {screen : Ui.Screen}
    {x : Seat ε} (h : Seated os fd S₀ ahead screen x) {r : Request} (hr : screen.Offers r) :
    Seated os fd S₀ ahead ((Seat.manager os).step (screen, x) r).1.1
      ((Seat.manager os).step (screen, x) r).1.2 := by
  have henv : (x.ahead x.made.length).Fair fd := h.ahead ▸ hahead _
  refine ⟨?_, h.ahead, h.agree.next os h0 henv r, ?_, ?_⟩
  · show x.system.next os (x.ahead x.made.length) r = S₀.run os (x.made ++ [(_, r)])
    rw [System.run, run_append]
    exact congrArg (System.next os · _ r) h.system
  · exact ClientMng.loggedIn_call os _ _ _ _ r h.screen
  · intro before env r' after heq
    replace heq : x.made ++ [(x.ahead x.made.length, r)] = before ++ (env, r') :: after := heq
    -- the request is the new one, or an earlier one
    rcases List.eq_nil_or_concat after with rfl | ⟨after, last, rfl⟩
    · obtain ⟨rfl, hnew⟩ := List.append_inj' heq rfl
      obtain ⟨rfl, rfl⟩ := Prod.mk.inj (List.singleton_inj.mp hnew)
      rw [← h.system]
      exact .of_agree h.agree h0 hlt henv h.screen hr
    · rw [List.concat_eq_append, ← List.cons_append, ← List.append_assoc] at heq
      exact h.made before env r' after (List.append_inj' heq rfl).1

/-- The server reads the end of the stream: the session is gone, and its user is in no group. -/
theorem gone_of_disconnect {s : ServerMng} (h : s.Inv) (fd : Int) :
    (s.step (.disconnect fd [])).1.view.session fd = none ∧
      ∀ n, s.view.session fd = some n → (s.step (.disconnect fd [])).1.view.joined n = [] := by
  have hview : (s.step (.disconnect fd [])).1.view = s.view.hangUp fd :=
    (onDisconnect_refines h fd []).2 rfl
  rw [hview]
  refine ⟨by rw [Chat.session_hangUp, Function.update_self], fun n hn => ?_⟩
  obtain ⟨u, hu, -⟩ := h.sessions.user_of_session hn
  rw [Chat.joined_hangUp hu hn, Function.update_self]

variable (os) in
/-- **Never out of step.**  A client connects, on a descriptor of the table, to a server in any
reachable state and its user types anything at all, while other clients make what calls they like;
the sends of this client do not fail, and the server finds memory for it and is not killed.  The
menus end.  Every request they have made was understood by the server; it was made from the first
screen if the server had no session for this connection, and from the second one, under the right
name, if it had one; and none was answered with a protocol error or `ST_ERR_NOT_LOGGED_IN`, or with
`ST_ERR_ALREADY_LOGGED_IN` unless the user was logged in on another connection.  When the client has
closed the connection, the server has no session for it and its user is in no group. -/
theorem sitting_in_step {al : Alloc} {s₀ : ServerMng} (h₀ : ServerMng.init al = some s₀)
    (es₀ : List Event) (h0 : 0 ≤ fd) (hlt : fd < fdSetSize) {S₀ : System ε}
    (hserver : S₀.server = s₀.run es₀) (hfresh : S₀.Fresh fd) {ahead : Nat → Surroundings}
    (hahead : ∀ n, (ahead n).Fair fd) (input : List UInt8) :
    let x := (Ui.uiRun Ui.stdin (Seat.manager os) ⟨input, [], ⟨S₀, ahead, []⟩⟩).client
    x.system = S₀.run os x.made ∧
    (∀ before env r after, x.made = before ++ (env, r) :: after →
      InStep os fd (S₀.run os before) env r) ∧
    (x.system.server.step (.disconnect fd [])).1.view.session fd = none ∧
    ∀ n, x.system.server.view.session fd = some n →
      (x.system.server.step (.disconnect fd [])).1.view.joined n = [] := by
  intro x
  have hagree : S₀.Agree fd := hfresh.agree (hserver ▸ inv_reachable h₀ es₀)
  have hstart : Seated os fd S₀ ahead .auth ⟨S₀, ahead, []⟩ := by
    refine ⟨rfl, rfl, hagree, ?_, fun before env r after heq => absurd heq (by simp)⟩
    show Ui.Screen.auth = .groups ↔ S₀.client.loggedIn = 1
    rw [hfresh.loggedIn]
    decide
  obtain ⟨rs, screen, ⟨halong, hrun⟩, -⟩ := Ui.uiRun_talk Ui.stdin (Seat.manager os) (s := .auth)
    ⟨input, [], ⟨S₀, ahead, []⟩⟩ (.inl rfl)
  have hseated := run_invariant_along
    (P := fun y : Ui.Screen × Seat ε => Seated os fd S₀ ahead y.1 y.2)
    (fun y r hr hy => hy.step hahead h0 hlt hr) halong hstart
  rw [hrun] at hseated
  exact ⟨hseated.system, hseated.made, gone_of_disconnect hseated.agree.inv fd⟩

end

/-- A user registers, logs in, founds a group, mistypes, and closes the input. -/
def keystrokes : List UInt8 :=
  literal "1\na\nb\n2\na\nb\n1\ng\n7\n"

/-- While that is typed, somebody else registers before each byte is read. -/
theorem sitting_in_step_newcomer :
    ∃ (os : Desktop Unit) (s₀ : ServerMng), ServerMng.init [] = some s₀ ∧
      let x := (Ui.uiRun Ui.stdin (Seat.manager os)
        ⟨keystrokes, [], ⟨newcomer s₀, fun _ => busy, []⟩⟩).client
      x.made.map Prod.snd = [.register ⟨[97], by decide⟩ ⟨[98], by decide⟩,
        .login ⟨[97], by decide⟩ ⟨[98], by decide⟩, .createGroup ⟨[103], by decide⟩] ∧
      (∀ before env r after, x.made = before ++ (env, r) :: after →
        InStep os 4 ((newcomer s₀).run os before) env r) ∧
      (x.system.server.step (.disconnect 4 [])).1.view.session 4 = none := by
  let os : Desktop Unit := ⟨fun _ e => (0, e), fun _ _ e => (some 100, e), fun _ e => e⟩
  have hrun : (ServerMng.init []).map (fun s => (Ui.uiRun Ui.stdin (Seat.manager os)
      ⟨keystrokes, [], ⟨newcomer s, fun _ => busy, []⟩⟩).client.made.map Prod.snd) =
        some [.register ⟨[97], by decide⟩ ⟨[98], by decide⟩,
          .login ⟨[97], by decide⟩ ⟨[98], by decide⟩, .createGroup ⟨[103], by decide⟩] := by
    decide +kernel
  obtain ⟨s₀, h₀, hmade⟩ := Option.map_eq_some_iff.mp hrun
  have hsession : s₀.view.session 4 = none := by
    rw [Chat.session_of_fdIndex (i := ⟨4, by decide⟩) rfl, (init_spec h₀).2.2.1]
  have hfresh : (newcomer s₀).Fresh 4 :=
    ⟨hsession, rfl, rfl, rfl, show (0 : Int) ≤ 3 by decide, rfl, rfl⟩
  have hbusy : busy.Fair 4 := ⟨by decide, by decide⟩
  have hahead : ∀ n : Nat, ((fun _ => busy : Nat → Surroundings) n).Fair 4 := fun _ => hbusy
  obtain ⟨-, hstep, hgone, -⟩ := sitting_in_step os h₀ [] (show (0 : Int) ≤ 4 by decide)
    (by decide) rfl hfresh hahead keystrokes
  exact ⟨os, s₀, h₀, hmade, hstep, hgone⟩

end ChatProject
