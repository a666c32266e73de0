import ChatProject.Server.Answering
import ChatProject.System.Agreement
import ChatProject.Tests.MockServer

/-!
# The server and its mock

`tests/mock_server.c` says of itself that its replies are the specification the real server must
match.  Here the two are put side by side: the same clients connect to both, one after the other,
and send the same bytes, which may arrive in different pieces.

Neither program does anything about `SIGPIPE`.  A client that has closed its end while there are
replies for it takes the process down with it (`afterSending`), and then nobody is served any more.
The comparison is about clients that read what they get before they close.

* `MockServer.Mirrored` — the mock knows the users of the server, and nobody is logged in on another
  connection.
* `MockServer.Covers` — frames that the mock was written for: registrations and logins, as long as
  there is room, and no login after one that was granted.
* `mock_matches_iff` — the clients get the same bytes back from both exactly when all they send is
  covered.
-/

set_option autoImplicit false

namespace ChatProject

open Framing Machine ServerMng

/-! ## What the mock was written for -/

namespace MockServer

/-- Whether a login has been granted on the connection once this frame is answered. -/
def busyAfter (m : MockServer) (busy : Bool) (frame : List UInt8) : Bool :=
  match Request.parse frame with
  | some (.login n p) => busy || m.handleLogin n p = .ok
  | _ => busy

/-- One frame. -/
def Covered (m : MockServer) (busy : Bool) (frame : List UInt8) : Prop :=
  match Request.parse frame with
  | some (.register n p) => (m.handleRegister n p).1 ≠ .errServerFull
  | some (.login _ _) => busy = false
  | _ => False

/-- The frames of a connection. -/
def Covers : MockServer → Bool → List (List UInt8) → Prop
  | _, _, [] => True
  | m, busy, frame :: frames =>
    m.Covered busy frame ∧ Covers (m.step frame).1 (m.busyAfter busy frame) frames

instance decidableCovered (m : MockServer) (busy : Bool) (frame : List UInt8) :
    Decidable (m.Covered busy frame) :=
  match h : Request.parse frame with
  | some (.register n p) =>
    decidable_of_iff ((m.handleRegister n p).1 ≠ .errServerFull) (by rw [Covered, h])
  | some (.login _ _) => decidable_of_iff (busy = false) (by rw [Covered, h])
  | none | some .logout | some (.createGroup _) | some (.joinGroup _) | some (.leaveGroup _) =>
    .isFalse (by rw [Covered, h]; exact not_false)

instance decidableCovers : ∀ (m : MockServer) (busy : Bool) (frames : List (List UInt8)),
    Decidable (m.Covers busy frames)
  | _, _, [] => .isTrue trivial
  | m, busy, frame :: frames =>
    @instDecidableAnd _ _ (m.decidableCovered busy frame)
      (decidableCovers (m.step frame).1 (m.busyAfter busy frame) frames)

/-! ## What the mock knows -/

/-- While the connection on `fd` is served. -/
structure Mirrored (m : MockServer) (c : Chat) (fd : Int) (busy : Bool) : Prop where
  known : ∀ n, (m.findUser n).map MockUser.pass = c.password n
  alone : ∀ fd', fd' ≠ fd → c.session fd' = none
  busy : c.session fd = none ↔ busy = false

variable {m : MockServer} {c : Chat} {fd : Int} {busy : Bool} {i : Fin fdSetSize}

theorem findUser_append {users : List MockUser} {u : MockUser}
    (hle : (users ++ [u]).length ≤ mockMaxUsers) (hle' : users.length ≤ mockMaxUsers)
    (hnew : findUser ⟨users, hle'⟩ u.name = none) (n : CStr) :
    findUser ⟨users ++ [u], hle⟩ n = if n = u.name then some u else findUser ⟨users, hle'⟩ n := by
  rw [findUser, List.find?_append]
  by_cases hn : n = u.name
  · subst hn
    rw [show users.find? (fun v => decide (v.name = u.name)) = none from hnew, if_pos rfl]
    simp
  · rw [if_neg hn, List.find?_singleton, if_neg (by simpa using Ne.symm hn), Option.or_none]
    rfl

theorem Mirrored.findUser_eq_none_iff (h : Mirrored m c fd busy) {n : CStr} :
    m.findUser n = none ↔ c.user n = none := by
  rw [← Option.map_eq_none_iff (f := MockUser.pass), h.known n, Chat.password,
    Option.map_eq_none_iff]

/-- A registration is answered alike, unless the mock is full. -/
theorem Mirrored.register (h : Mirrored m c fd busy) {n p : CStr}
    (hn : n.length ≤ chatMaxUsernameLen) (hp : p.length ≤ chatMaxPasswordLen)
    (hroom : (m.handleRegister n p).1 ≠ .errServerFull) :
    (m.handleRegister n p).1 = c.verdict fd (.register n p) ∧
      Mirrored (m.handleRegister n p).2
        (if c.verdict fd (.register n p) = .ok then c.grant fd (.register n p) else c) fd
        busy := by
  cases hfind : m.findUser n with
  | some u =>
    have hreg : m.handleRegister n p = (.errUserExists, m) := by rw [handleRegister, hfind]
    have hverdict : c.verdict fd (.register n p) = .errUserExists := by
      rw [Chat.verdict, if_neg fun hnone => ?_]
      rw [h.findUser_eq_none_iff.mpr hnone] at hfind
      exact absurd hfind (by simp)
    rw [hreg, hverdict, if_neg (by simp)]
    exact ⟨rfl, h⟩
  | none =>
    have hok : c.verdict fd (.register n p) = .ok :=
      Chat.verdict_register_eq_ok.mpr (h.findUser_eq_none_iff.mp hfind)
    by_cases hfull : mockMaxUsers ≤ m.users.length
    · have hreg : m.handleRegister n p = (.errServerFull, m) := by
        rw [handleRegister, hfind]
        exact dif_pos hfull
      exact absurd (congrArg Prod.fst hreg) hroom
    · have hle : (m.users ++ [(⟨n, p⟩ : MockUser)]).length ≤ mockMaxUsers := by
        rw [List.length_append]
        exact Nat.lt_of_not_le hfull
      have hreg : m.handleRegister n p = (.ok, ⟨m.users ++ [⟨n, p⟩], hle⟩) := by
        rw [handleRegister, hfind]
        simp only [dif_neg hfull, CStr.ncopy_eq_self hn, CStr.ncopy_eq_self hp]
      rw [hreg, hok, if_pos rfl]
      have hsession : (c.grant fd (.register n p)).session = c.session :=
        Chat.session_grant (by simp) (by simp)
      refine ⟨rfl, fun n' => ?_, by rw [hsession]; exact h.alone, by rw [hsession]; exact h.busy⟩
      rw [findUser_append hle m.le hfind, Chat.password_register]
      by_cases hn' : n' = n
      · subst hn'
        rw [if_pos rfl, Function.update_self]
        rfl
      · rw [if_neg hn', Function.update_of_ne hn']
        exact h.known n'

/-- While nobody is logged in, a login is up to the password. -/
theorem Mirrored.login (h : Mirrored m c fd false) (hs : c.Sessions) (hfd : fdIndex fd = some i)
    (n p : CStr) :
    m.handleLogin n p = c.verdict fd (.login n p) ∧
      Mirrored m
        (if c.verdict fd (.login n p) = .ok then c.grant fd (.login n p) else c) fd
        (m.handleLogin n p = .ok) := by
  have hnone : c.session fd = none := h.busy.mpr rfl
  have hsock : c.sock i = none := (Chat.session_of_fdIndex hfd).symm.trans hnone
  have heq : m.handleLogin n p = c.verdict fd (.login n p) := by
    have hknown := h.known n
    rw [Chat.password] at hknown
    cases hu : c.user n with
    | none =>
      rw [Chat.verdict_login_of_unknown hfd hsock hu, handleLogin,
        h.findUser_eq_none_iff.mpr hu]
    | some u =>
      rw [hu] at hknown
      obtain ⟨v, hfind, hpass⟩ := Option.map_eq_some_iff.mp hknown
      have hoffline : u.state ≠ .online := fun honline => by
        obtain ⟨j, hj⟩ := hs.online hu honline
        have hj' := (Chat.session_of_fdIndex (fdIndex_natCast j)).trans hj
        by_cases hjfd : ((j : Nat) : Int) = fd
        · rw [hjfd, hnone] at hj'
          exact absurd hj' (by simp)
        · rw [h.alone _ hjfd] at hj'
          exact absurd hj' (by simp)
      rw [Chat.verdict_login_of_known hfd hsock hu, handleLogin, hfind, if_neg hoffline, ← hpass]
  refine ⟨heq, ?_⟩
  by_cases hok : c.verdict fd (.login n p) = .ok
  · have hpassword : (c.grant fd (.login n p)).password = c.password :=
      Chat.password_grant fun _ _ => by simp
    have hsession := Chat.session_login hok
    rw [if_pos hok]
    refine ⟨fun n' => by rw [hpassword]; exact h.known n', fun fd' hne => ?_, ?_⟩
    · rw [hsession, Function.update_of_ne hne]
      exact h.alone fd' hne
    · rw [hsession, Function.update_self, heq, hok]
      simp
  · rw [if_neg hok]
    refine ⟨h.known, h.alone, ?_⟩
    rw [heq, decide_eq_false hok]
    exact iff_of_true hnone rfl

end MockServer

/-! ## What the server sends -/

namespace ServerMng

/-- One frame of a connection: the server, and the bytes that go back. -/
def replyTo (fd : Int) (s : ServerMng) (frame : List UInt8) : ServerMng × List UInt8 :=
  ((s.step (.message fd frame [])).1, bytesTo fd (s.step (.message fd frame [])).2)

end ServerMng

theorem bytesTo_single (fd : Int) (frame : List UInt8) : bytesTo fd [(fd, frame)] = frame := by
  simp [bytesTo]

namespace Chat

variable {c : Chat} {fd : Int} {i : Fin fdSetSize}

/-- On a descriptor of the table, no verdict is a protocol error. -/
theorem verdict_ne_errProtocol (hfd : fdIndex fd = some i) (r : Request) :
    c.verdict fd r ≠ .errProtocol := by
  cases r with
  | register n p =>
    rw [verdict]
    split <;> simp
  | login n p =>
    simp only [verdict, hfd]
    split
    · simp
    split
    · simp
    split
    · simp
    split <;> simp
  | logout =>
    simp only [verdict, hfd]
    split <;> simp
  | createGroup g =>
    rw [verdict]
    split
    · simp
    split
    · simp
    split <;> simp
  | joinGroup g =>
    rw [verdict]
    split
    · simp
    split
    · simp
    split <;> simp
  | leaveGroup g =>
    simp only [verdict, hfd]
    split
    · simp
    split <;> simp

end Chat

section
variable {s : ServerMng} {fd : Int} {frame : List UInt8} {r : Request}

theorem replyTo_of_none (h : s.Inv) (hp : Request.parse frame = none) :
    (replyTo fd s frame).1.view = s.view ∧ (replyTo fd s frame).2 = [] := by
  obtain ⟨hview, hsent⟩ : (s.step (.message fd frame [])).1.view = s.view ∧
      (s.step (.message fd frame [])).2 = [] := message_of_no_request h hp
  refine ⟨hview, ?_⟩
  rw [replyTo, hsent]
  rfl

/-- A request gets one frame, of its type, and not with the status `ST_ERR_PROTOCOL`. -/
theorem replyTo_of_some (h : s.Inv) (h0 : 0 ≤ fd) (hlt : fd < fdSetSize)
    (hp : Request.parse frame = some r) :
    ∃ len st tail, (replyTo fd s frame).2 = r.repOpcode.toByte :: len :: st :: tail ∧
      st ≠ ChatStatus.errProtocol.toByte := by
  obtain ⟨i, hfd⟩ := exists_fdIndex h0 hlt
  obtain ⟨len, st, rest, hsent, hst⟩ := exists_of_answer (answer_message h h0 hp)
  refine ⟨len, st, rest, ?_, ?_⟩
  · rw [replyTo, hsent, bytesTo_single]
  · rintro rfl
    exact Chat.verdict_ne_errProtocol hfd r hst

/-- A registration or a login gets its verdict. -/
theorem replyTo_of_auth (h : s.Inv) (h0 : 0 ≤ fd) (hp : Request.parse frame = some r)
    (hr : ∃ n p, r = .register n p ∨ r = .login n p) :
    (replyTo fd s frame).1.view =
        (if s.view.verdict fd r = .ok then s.view.grant fd r else s.view) ∧
      (replyTo fd s frame).2 = chatEncodeStatusRep r.repOpcode (s.view.verdict fd r) := by
  have hserve := message_eq_serve h fd hp
  have hok : s.view.okReply fd r = some (chatEncodeStatusRep r.repOpcode .ok) := by
    obtain ⟨n, p, rfl | rfl⟩ := hr <;> rfl
  rw [Chat.serve, hok] at hserve
  rw [replyTo]
  by_cases hv : s.view.verdict fd r = .ok
  · rw [if_pos hv, show sendReply fd (some (chatEncodeStatusRep r.repOpcode .ok)) =
      sendStatus fd r.repOpcode .ok from rfl, sendStatus_eq h0, Prod.mk.injEq] at hserve
    rw [if_pos hv, hserve.2, bytesTo_single, hv]
    exact ⟨hserve.1, rfl⟩
  · rw [if_neg hv, sendStatus_eq h0, Prod.mk.injEq] at hserve
    rw [if_neg hv, hserve.2, bytesTo_single]
    exact ⟨hserve.1, rfl⟩

end

/-- The first status in the stream is not a protocol error. -/
def Faultless (stream : List UInt8) : Prop :=
  ∀ op len st tail, stream = op :: len :: st :: tail → st ≠ ChatStatus.errProtocol.toByte

/-- What comes back for a list of frames. -/
def replies {σ : Type} (step : σ → List UInt8 → σ × List UInt8) (s : σ)
    (frames : List (List UInt8)) : List UInt8 :=
  ((trace step s frames).map Prod.snd).flatten

theorem replies_cons {σ : Type} (step : σ → List UInt8 → σ × List UInt8) (s : σ)
    (frame : List UInt8) (frames : List (List UInt8)) :
    replies step s (frame :: frames) =
      (step s frame).2 ++ replies step (step s frame).1 frames := rfl

theorem faultless_replies {s : ServerMng} (h : s.Inv) {fd : Int} (h0 : 0 ≤ fd)
    (hlt : fd < fdSetSize) (frames : List (List UInt8)) :
    Faultless (replies (replyTo fd) s frames) := by
  induction frames generalizing s with
  | nil => exact fun op len st tail heq => absurd heq (by simp [replies, trace])
  | cons frame frames ih =>
    intro op len st tail heq
    rw [replies_cons] at heq
    cases hp : Request.parse frame with
    | none =>
      rw [(replyTo_of_none h hp).2, List.nil_append] at heq
      exact ih (h.step _) op len st tail heq
    | some r =>
      obtain ⟨len', st', tail', hreply, hst⟩ := replyTo_of_some h h0 hlt hp
      rw [hreply] at heq
      obtain ⟨-, -, rfl, -⟩ : _ ∧ _ ∧ st' = st ∧ _ := by simpa using heq
      exact hst

/-! ## One frame -/

namespace MockServer

variable {m : MockServer} {s : ServerMng} {fd : Int} {busy : Bool} {frame : List UInt8}

theorem step_of_parse (m : MockServer) (hframe : tlv.IsFrame frame) :
    match Request.parse frame with
    | some (.register n p) =>
      m.step frame =
        ((m.handleRegister n p).2, chatEncodeStatusRep .regRep (m.handleRegister n p).1)
    | some (.login n p) => m.step frame = (m, chatEncodeStatusRep .loginRep (m.handleLogin n p))
    | _ => ∃ op, (op = .regRep ∨ op = .loginRep) ∧
      m.step frame = (m, chatEncodeStatusRep op .errProtocol) := by
  obtain ⟨t, l, payload, rfl, -⟩ := exists_of_isFrame hframe
  rw [Request.parse, step, reply]
  simp only [chatPeekHeader, List.headD_cons]
  cases ChatOpcode.ofByte t with
  | regReq =>
    simp only [Request.parseUserPass]
    cases chatDecodeUserPass (t :: l :: payload) with
    | error fault => exact ⟨_, .inl rfl, rfl⟩
    | ok names => rfl
  | loginReq =>
    simp only [Request.parseUserPass]
    cases chatDecodeUserPass (t :: l :: payload) with
    | error fault => exact ⟨_, .inr rfl, rfl⟩
    | ok names => rfl
  | logoutReq => exact ⟨_, .inl rfl, rfl⟩
  | createGroupReq =>
    simp only [Request.parseGroupname]
    cases chatDecodeGroupname (t :: l :: payload) <;> exact ⟨_, .inl rfl, rfl⟩
  | joinGroupReq =>
    simp only [Request.parseGroupname]
    cases chatDecodeGroupname (t :: l :: payload) <;> exact ⟨_, .inl rfl, rfl⟩
  | leaveGroupReq =>
    simp only [Request.parseGroupname]
    cases chatDecodeGroupname (t :: l :: payload) <;> exact ⟨_, .inl rfl, rfl⟩
  | _ => exact ⟨_, .inl rfl, rfl⟩

/-- **What is covered is answered alike**, and the mock goes on knowing what the server knows. -/
theorem Mirrored.covered (h : Mirrored m s.view fd busy) (hs : s.Inv) (h0 : 0 ≤ fd)
    (hlt : fd < fdSetSize) (hframe : tlv.IsFrame frame) (hcov : m.Covered busy frame) :
    (m.step frame).2 = (replyTo fd s frame).2 ∧
      Mirrored (m.step frame).1 (replyTo fd s frame).1.view fd (m.busyAfter busy frame) := by
  obtain ⟨i, hfd⟩ := exists_fdIndex h0 hlt
  have hstep := m.step_of_parse hframe
  rw [Covered] at hcov
  rw [busyAfter]
  cases hp : Request.parse frame with
  | none =>
    rw [hp] at hcov
    exact hcov.elim
  | some r =>
    rw [hp] at hcov hstep
    cases r with
    | register n p =>
      obtain ⟨hn, hpass⟩ : Request.Fits (.register n p) := Request.fits_of_parse hp
      obtain ⟨hview, hreply⟩ := replyTo_of_auth hs h0 hp ⟨n, p, .inl rfl⟩
      obtain ⟨hverdict, hmirror⟩ := h.register hn hpass hcov
      dsimp only at hstep ⊢
      rw [hstep, hreply, hview, ← hverdict]
      rw [← hverdict] at hmirror
      exact ⟨rfl, hmirror⟩
    | login n p =>
      obtain rfl : busy = false := hcov
      obtain ⟨hview, hreply⟩ := replyTo_of_auth hs h0 hp ⟨n, p, .inr rfl⟩
      obtain ⟨hverdict, hmirror⟩ := h.login hs.sessions hfd n p
      dsimp only at hstep ⊢
      rw [hstep, hreply, hview, Bool.false_or, ← hverdict]
      rw [← hverdict] at hmirror
      exact ⟨rfl, hmirror⟩
    | _ => exact hcov.elim

/-- **What is not covered is not**, and what is sent later does not make up for it. -/
theorem Mirrored.differs (h : Mirrored m s.view fd busy) (hs : s.Inv) (h0 : 0 ≤ fd)
    (hlt : fd < fdSetSize) (hframe : tlv.IsFrame frame) (hcov : ¬ m.Covered busy frame)
    (later : List UInt8) {later' : List UInt8} (hlater : Faultless later') :
    (m.step frame).2 ++ later ≠ (replyTo fd s frame).2 ++ later' := by
  obtain ⟨i, hfd⟩ := exists_fdIndex h0 hlt
  have hstep := m.step_of_parse hframe
  rw [Covered] at hcov
  intro heq
  cases hp : Request.parse frame with
  | none =>
    rw [hp] at hstep
    obtain ⟨op, -, hmock⟩ := hstep
    rw [hmock, (replyTo_of_none hs hp).2, List.nil_append] at heq
    exact hlater op.toByte 1 _ later heq.symm rfl
  | some r =>
    rw [hp] at hcov hstep
    -- a request that the mock has no handler for
    have hother : (∃ op, (op = .regRep ∨ op = .loginRep) ∧
        m.step frame = (m, chatEncodeStatusRep op .errProtocol)) → False := by
      rintro ⟨op, -, hmock⟩
      obtain ⟨len, st, tail, hreply, hst⟩ := replyTo_of_some hs h0 hlt hp
      rw [hmock, hreply] at heq
      obtain ⟨-, -, rfl, -⟩ : _ ∧ _ ∧ ChatStatus.errProtocol.toByte = st ∧ _ := by
        simpa [chatEncodeStatusRep] using heq
      exact hst rfl
    cases r with
    | register n p =>
      replace hcov : (m.handleRegister n p).1 = .errServerFull := not_not.mp hcov
      obtain ⟨-, hreply⟩ := replyTo_of_auth hs h0 hp ⟨n, p, .inl rfl⟩
      dsimp only at hstep
      rw [hstep, hreply, hcov] at heq
      have hst : ChatStatus.errServerFull.toByte =
          (s.view.verdict fd (.register n p)).toByte := by
        have hbytes := List.append_inj_left heq rfl
        simp only [chatEncodeStatusRep, List.cons.injEq, and_true] at hbytes
        exact hbytes.2.2
      rw [Chat.verdict] at hst
      split at hst <;> exact absurd hst (by decide)
    | login n p =>
      obtain rfl : busy = true := by simpa using hcov
      obtain ⟨-, hreply⟩ := replyTo_of_auth hs h0 hp ⟨n, p, .inr rfl⟩
      obtain ⟨n', hn'⟩ := Option.ne_none_iff_exists'.mp fun hnone =>
        absurd (h.busy.mp hnone) (by simp)
      have hsock : s.view.sock i = some n' := (Chat.session_of_fdIndex hfd).symm.trans hn'
      dsimp only at hstep
      rw [hstep, hreply, Chat.verdict_login_of_busy hfd hsock] at heq
      have hst : (m.handleLogin n p).toByte = ChatStatus.errAlreadyLoggedIn.toByte := by
        have hbytes := List.append_inj_left heq rfl
        simp only [chatEncodeStatusRep, List.cons.injEq, and_true] at hbytes
        exact hbytes.2.2
      rw [handleLogin] at hst
      split at hst
      · exact absurd hst (by decide)
      · split at hst <;> exact absurd hst (by decide)
    | _ => exact hother hstep

/-! ## One connection -/

/-- **The frames of a connection** are answered alike exactly when all of them are covered. -/
theorem Mirrored.replies_eq_iff (h : Mirrored m s.view fd busy) (hs : s.Inv) (h0 : 0 ≤ fd)
    (hlt : fd < fdSetSize) {frames : List (List UInt8)} (hframes : ∀ f ∈ frames, tlv.IsFrame f) :
    (replies MockServer.step m frames = replies (replyTo fd) s frames ↔ m.Covers busy frames) ∧
      (m.Covers busy frames → ∃ busy',
        Mirrored (Machine.run MockServer.step m frames)
          (Machine.run (replyTo fd) s frames).view fd busy') := by
  induction frames generalizing m s busy with
  | nil => exact ⟨iff_of_true rfl trivial, fun _ => ⟨busy, h⟩⟩
  | cons frame frames ih =>
    have hframe := hframes frame List.mem_cons_self
    rw [replies_cons, replies_cons, Covers]
    by_cases hcov : m.Covered busy frame
    · obtain ⟨hreply, hmirror⟩ := h.covered hs h0 hlt hframe hcov
      obtain ⟨hiff, hend⟩ := ih hmirror (hs.step _) fun f hf =>
        hframes f (List.mem_cons_of_mem _ hf)
      rw [hreply, List.append_right_inj, hiff, and_iff_right hcov]
      exact ⟨Iff.rfl, hend⟩
    · have hdiffers := h.differs hs h0 hlt hframe hcov
        (replies MockServer.step (m.step frame).1 frames)
        (faultless_replies (hs.step (.message fd frame [])) h0 hlt frames)
      exact ⟨iff_of_false hdiffers fun hall => hcov hall.1, fun hall => absurd hall.1 hcov⟩

end MockServer

/-! ## One client after the other -/

/-- A client that connects, sends these bytes, and goes. -/
structure Visit where
  bytes : List UInt8
  /-- How they get to the mock. -/
  toMock : Channel UInt8
  /-- What the mock's `send` calls return, for each reply. -/
  sends : List (List Int)
  /-- How they get to the server. -/
  toServer : Channel UInt8
  /-- The descriptor the server has for the connection. -/
  fd : Int
  /-- The tables it is entered in. -/
  tables : FdTables
  /-- When it closes its end with replies of the mock unread: how many bytes of them have gone out
  before a `send` finds it gone. -/
  leavesMock : Option Nat
  /-- The same for the server. -/
  leavesServer : Option Nat

/-- Every `send` of the mock takes something, the descriptor is one of the table, and the client
reads its replies before it closes. -/
structure Visit.Fair (v : Visit) : Prop where
  sends : ∀ answers ∈ v.sends, ∀ n ∈ answers, 0 < n
  fd_nonneg : 0 ≤ v.fd
  fd_lt : v.fd < fdSetSize
  reads_mock : v.leavesMock = none
  reads_server : v.leavesServer = none

/-- A process that has sent `out`, or that was killed by `SIGPIPE` when it had sent a part of it. -/
def afterSending {σ : Type} (leaves : Option Nat) (s : σ) (out : List UInt8) :
    Option σ × List UInt8 :=
  match leaves with
  | none => (some s, out)
  | some sent => if sent < out.length then (none, out.take sent) else (some s, out)

/-- One turn of the loop in the mock's `main`, if that is still there: what goes back. -/
def MockServer.visit : Option MockServer → Visit → Option MockServer × List UInt8
  | none, _ => (none, [])
  | some m, v =>
    match m.serveClient (v.toMock.cut v.bytes) v.sends with
    | (m, out) => afterSending v.leavesMock m out

/-- The server, if that is still there, reads what there is, and then the end of the stream. -/
def ServerMng.visit : Option ServerMng → Visit → Option ServerMng × List UInt8
  | none, _ => (none, [])
  | some s, v =>
    match serverTurns v.bytes.length (ClientState.free.install v.fd) v.tables
      (v.toServer.cut v.bytes) [] ⟨s, [], []⟩ with
    | (c, m) =>
      match handleClientData onMsg onDisc c v.tables (v.toServer.cut []) m with
      | (_, _, _, m) => afterSending v.leavesServer m.mng (bytesTo v.fd m.sent)

namespace Visit

variable {v : Visit}

/-- Frames that are handed over one by one. -/
theorem play_frames (fd : Int) (frames : List (List UInt8)) (m : Mng) :
    (m.play (frames.map fun msg => .message fd msg [])).mng =
        Machine.run (replyTo fd) m.mng frames ∧
      bytesTo fd (m.play (frames.map fun msg => .message fd msg [])).sent =
        bytesTo fd m.sent ++ replies (replyTo fd) m.mng frames := by
  induction frames generalizing m with
  | nil => exact ⟨rfl, (List.append_nil _).symm⟩
  | cons frame frames ih =>
    obtain ⟨hmng, hsent⟩ := ih (m.call fun _ => .message fd frame [])
    rw [List.map_cons, Mng.play_cons, hmng, hsent, replies_cons, ← List.append_assoc]
    refine ⟨rfl, congrArg (· ++ _) ?_⟩
    show bytesTo fd (m.sent ++ (m.mng.step _).2) = _
    rw [bytesTo, List.filter_append, List.flatMap_append]
    rfl

/-- What a visit comes to on both sides. -/
theorem spec (hv : v.Fair) (m : MockServer) (s : ServerMng) :
    ∃ frames rest, tlv.Segmentation v.bytes frames rest ∧
      MockServer.visit (some m) v =
        (some (Machine.run MockServer.step m frames), replies MockServer.step m frames) ∧
      ServerMng.visit (some s) v =
        (some ((Machine.run (replyTo v.fd) s frames).step (.disconnect v.fd [])).1,
          replies (replyTo v.fd) s frames) := by
  have hfree : (ClientState.free.install v.fd).Settled := ClientState.settled_of_empty rfl
  have hmem : (⟨s, [], []⟩ : Mng).mem = [] := rfl
  obtain ⟨c, es, frames, hserved, hfd, hc, hinter, hseg⟩ :=
    serverTurns_spec v.bytes.length hfree v.tables (Nat.le_of_eq (by rw [v.toServer.bytes_cut]))
      (fun e (he : e ∈ ([] : List (List Event)).flatten) => absurd he List.not_mem_nil) hmem
  rw [v.toServer.bytes_cut] at hseg
  replace hseg : tlv.Segmentation v.bytes frames c.data := hseg
  replace hinter : Interleaved v.fd frames [] es := hinter
  replace hfd : c.fd = v.fd := hfd
  -- all the calls are the frames of this connection
  have hes : es = frames.map fun msg => .message v.fd msg [] := by
    rw [← hinter.own, eq_comm, List.filter_eq_self]
    intro e he
    by_contra hne
    have hother : e ∈ es.filter fun e => e.sockfd ≠ v.fd :=
      List.mem_filter.mpr ⟨he, by simpa using hne⟩
    rw [hinter.others] at hother
    exact absurd hother List.not_mem_nil
  subst hes
  obtain ⟨hmng, hsent⟩ := play_frames v.fd frames ⟨s, [], []⟩
  refine ⟨frames, c.data, hseg, ?_, ?_⟩
  · rw [MockServer.visit, hv.reads_mock,
      MockServer.serveClient_spec m hv.sends (by rw [v.toMock.bytes_cut]; exact hseg)]
    rfl
  · rw [ServerMng.visit, hserved, hv.reads_server]
    dsimp only [afterSending]
    obtain ⟨-, hend⟩ | ⟨chunk, y, _, _, hchunk, hbytes, -⟩ :=
      handleClientData_cases onMsg onDisc hc v.tables (v.toServer.cut [])
        (Mng.play (frames.map fun msg => .message v.fd msg []) ⟨s, [], []⟩)
    · rw [hend]
      dsimp only
      have hmem' := Mng.mem_play hmem (frames.map fun msg => .message v.fd msg [])
      have hquiet : ((Machine.run (replyTo v.fd) s frames).step (.disconnect v.fd [])).2 = [] :=
        rfl
      rw [hfd, onDisc, Mng.call, hmem', List.headD_nil, hmng, hquiet, List.append_nil, hsent]
      rfl
    · rw [v.toServer.bytes_cut] at hbytes
      exact absurd (List.append_eq_nil_iff.mp hbytes.symm).1 hchunk

end Visit

/-- Between two visits. -/
structure MockServer.Knows (m : MockServer) (c : Chat) : Prop where
  known : ∀ n, (m.findUser n).map MockUser.pass = c.password n
  alone : ∀ fd, c.session fd = none

/-- The frames of the visit are covered. -/
def MockServer.CoversVisit (m : Option MockServer) (v : Visit) : Prop :=
  ∀ m₀ ∈ m, ∀ frames rest, tlv.Segmentation v.bytes frames rest → m₀.Covers false frames

theorem MockServer.Knows.visit {m : MockServer} {s : ServerMng} (h : m.Knows s.view) (hs : s.Inv)
    {v : Visit} (hv : v.Fair) :
    ∃ m' s' out out', MockServer.visit (some m) v = (some m', out) ∧
      ServerMng.visit (some s) v = (some s', out') ∧
      (out = out' ↔ MockServer.CoversVisit (some m) v) ∧ s'.Inv ∧
      (MockServer.CoversVisit (some m) v → m'.Knows s'.view) := by
  obtain ⟨frames, rest, hseg, hmock, hreal⟩ := v.spec hv m s
  have hmirror : MockServer.Mirrored m s.view v.fd false :=
    ⟨h.known, fun fd' _ => h.alone fd', iff_of_true (h.alone v.fd) rfl⟩
  have hcovers : MockServer.CoversVisit (some m) v ↔ m.Covers false frames := by
    refine ⟨fun hall => hall m rfl frames rest hseg, fun hcov m₀ hm₀ frames' rest' hseg' => ?_⟩
    obtain rfl : m = m₀ := Option.some_inj.mp hm₀
    rw [(hseg'.unique hseg).1]
    exact hcov
  obtain ⟨hiff, hend⟩ := hmirror.replies_eq_iff hs hv.fd_nonneg hv.fd_lt hseg.frames
  have hinv : (Machine.run (replyTo v.fd) s frames).Inv :=
    Machine.run_invariant (p := fun _ => True) (P := ServerMng.Inv)
      (fun _ frame _ hs => hs.step (.message v.fd frame [])) (fun _ _ => trivial) hs
  rw [hcovers]
  refine ⟨_, _, _, _, hmock, hreal, hiff, hinv.step _, fun hcov => ?_⟩
  obtain ⟨busy, hlast⟩ := hend hcov
  have hview : ((Machine.run (replyTo v.fd) s frames).step (.disconnect v.fd [])).1.view =
      (Machine.run (replyTo v.fd) s frames).view.hangUp v.fd :=
    (onDisconnect_refines hinv _ []).2 rfl
  rw [hview]
  refine ⟨fun n => ?_, fun fd => ?_⟩
  · rw [Chat.password_hangUp]
    exact hlast.known n
  · rw [Chat.session_hangUp]
    by_cases hfd : fd = v.fd
    · rw [hfd, Function.update_self]
    · rw [Function.update_of_ne hfd]
      exact hlast.alone fd hfd

/-- **The mock is the specification, of what it covers.**  The same clients visit the mock and the
server, one after the other, each sending any bytes at all and reading its replies before it closes;
the server finds memory for everything and hands its replies over whole.  Whatever the pieces the
bytes arrive in, each client gets the same bytes back from both, exactly when all that they send is
frames that the mock was written for: well-formed registrations and logins, with no registration
that finds the mock full, and on no connection a login after one that was granted. -/
theorem mock_matches_iff {al : Alloc} {s₀ : ServerMng} (h₀ : ServerMng.init al = some s₀)
    {visits : List Visit} (hvisits : ∀ v ∈ visits, v.Fair) :
    trace MockServer.visit (some .empty) visits = trace ServerMng.visit (some s₀) visits ↔
      Along MockServer.visit MockServer.CoversVisit (some .empty) visits := by
  have hgen : ∀ {m : MockServer} {s : ServerMng}, m.Knows s.view → s.Inv →
      (trace MockServer.visit (some m) visits = trace ServerMng.visit (some s) visits ↔
        Along MockServer.visit MockServer.CoversVisit (some m) visits) := by
    clear h₀
    induction visits with
    | nil => exact fun _ _ => iff_of_true rfl trivial
    | cons v visits ih =>
      intro m s h hs
      rw [List.forall_mem_cons] at hvisits
      obtain ⟨m', s', out, out', hmock, hreal, hiff, hinv, hknows⟩ := h.visit hs hvisits.1
      rw [trace, trace, Along, hmock, hreal, List.cons.injEq, Prod.mk.injEq, ← hiff]
      constructor
      · rintro ⟨⟨-, hreply⟩, htail⟩
        exact ⟨hreply, (ih hvisits.2 (hknows (hiff.mp hreply)) hinv).mp htail⟩
      · rintro ⟨hreply, htail⟩
        exact ⟨⟨rfl, hreply⟩, (ih hvisits.2 (hknows (hiff.mp hreply)) hinv).mpr htail⟩
  obtain ⟨-, huser, hsock, -⟩ := init_spec h₀
  refine hgen ⟨fun n => ?_, fun fd => ?_⟩ (inv_init h₀)
  · rw [Chat.password, huser]
    rfl
  · cases hfd : fdIndex fd with
    | none => exact Chat.session_of_badFd hfd
    | some i => rw [Chat.session_of_fdIndex hfd, hsock]

/-- Somebody registers and logs in; the mock gets the bytes one by one. -/
def firstVisit : Visit where
  bytes := [1, 4, 1, 97, 1, 98, 3, 4, 1, 97, 1, 98]
  toMock := .bytewise UInt8
  sends := [[1, 1, 1]]
  toServer := ⟨Inbox.arrived 5, Inbox.bytes_arrived 5⟩
  fd := 4
  tables := ⟨fun _ => false, fun _ => false⟩
  leavesMock := none
  leavesServer := none

/-- Somebody else tries another password. -/
def secondVisit : Visit :=
  { firstVisit with bytes := [3, 4, 1, 97, 1, 99], sends := [] }

/-- The mock and the server tell both the same. -/
theorem mock_matches_iff_visits :
    ∃ s₀, ServerMng.init [] = some s₀ ∧
      trace MockServer.visit (some .empty) [firstVisit, secondVisit] =
        trace ServerMng.visit (some s₀) [firstVisit, secondVisit] ∧
      (trace ServerMng.visit (some s₀) [firstVisit, secondVisit]).map Prod.snd =
        [[2, 1, 0, 4, 1, 0], [4, 1, 3]] := by
  have hinit : (ServerMng.init []).isSome = true := by decide +kernel
  obtain ⟨s₀, h₀⟩ := Option.isSome_iff_exists.mp hinit
  have hfair : ∀ v ∈ [firstVisit, secondVisit], v.Fair := by
    rw [List.forall_mem_cons, List.forall_mem_singleton]
    exact ⟨⟨by decide, by decide, by decide, rfl, rfl⟩, ⟨by decide, by decide, by decide, rfl, rfl⟩⟩
  have hfirst : tlv.Segmentation firstVisit.bytes
      [[1, 4, 1, 97, 1, 98], [3, 4, 1, 97, 1, 98]] [] := by
    refine ⟨rfl, ?_, incomplete_nil⟩
    rw [List.forall_mem_cons, List.forall_mem_singleton]
    exact ⟨isFrame_cons rfl, isFrame_cons rfl⟩
  have hsecond : tlv.Segmentation secondVisit.bytes [[3, 4, 1, 97, 1, 99]] [] := by
    refine ⟨rfl, ?_, incomplete_nil⟩
    rw [List.forall_mem_singleton]
    exact isFrame_cons rfl
  have hmock : ∃ m, (MockServer.visit (some .empty) firstVisit).1 = some m ∧
      m.Covers false [[3, 4, 1, 97, 1, 99]] := by
    have hrun : (MockServer.visit (some .empty) firstVisit).1.map (fun m =>
        decide (m.Covers false [[3, 4, 1, 97, 1, 99]])) = some true := by
      decide +kernel
    obtain ⟨m, hm, hcov⟩ := Option.map_eq_some_iff.mp hrun
    exact ⟨m, hm, of_decide_eq_true hcov⟩
  obtain ⟨m, hm, hcov⟩ := hmock
  have hcovers : Along MockServer.visit MockServer.CoversVisit (some .empty)
      [firstVisit, secondVisit] := by
    refine ⟨fun m₀ hm₀ frames rest hseg => ?_, fun m₀ hm₀ frames rest hseg => ?_, trivial⟩
    · obtain rfl := Option.some_inj.mp hm₀
      rw [(hseg.unique hfirst).1]
      decide +kernel
    · rw [hm] at hm₀
      obtain rfl : m = m₀ := Option.some_inj.mp hm₀
      rw [(hseg.unique hsecond).1]
      exact hcov
  have htrace := (mock_matches_iff h₀ hfair).mpr hcovers
  refine ⟨s₀, h₀, htrace, ?_⟩
  rw [← htrace]
  decide +kernel

/-- Two logouts, from somebody who does not wait for the second answer. -/
def hastyVisit : Visit :=
  { firstVisit with bytes := [5, 0, 5, 0], sends := [], leavesServer := some 3 }

-- and the next one finds no server
example : (ServerMng.init []).map (fun s =>
    (trace ServerMng.visit (some s) [hastyVisit, firstVisit]).map Prod.snd) =
      some [[6, 1, 5], []] := by
  decide +kernel

end ChatProject
