import ChatProject.System.Connections
import ChatProject.System.Exchange

/-!
# Client and server agree

One client and the server, with the network between them and everybody else around them.  The bytes
of a request reach the server in pieces; between any two pieces other clients may do what they
like; the reply comes back in pieces again.  The client never looks at the opcode of a reply, so
what keeps the two in step is that every request gets exactly one frame.

* `serverTurns` — what the server does with the bytes of a request: `HandleClientData` for every
  piece, with other clients' calls in between.  `serverTurns_spec` says that this is a run of the
  management layer in which the frames of the request are interleaved with these calls.
* `System` — both ends of the connection and what is on its way back.
* `System.Agree` — the client believes what is the case: that it is logged in, and under which name;
  and each of its chat windows is for a group its user is in.
* `Undisturbed` — what other clients' calls leave as it is, which is all that this client has to do
  with.
-/

set_option autoImplicit false

namespace ChatProject

open Framing ServerMng

/-! ## Everybody else -/

/-- What calls on other descriptors leave alone. -/
structure Undisturbed (fd : Int) (s s' : ServerMng) : Prop where
  inv : s'.Inv
  session : s'.view.session fd = s.view.session fd
  /-- The groups the user is in. -/
  joined : ∀ {n}, s.view.session fd = some n → s'.view.joined n = s.view.joined n
  /-- And their addresses. -/
  held : ∀ {n g}, s.view.session fd = some n → g ∈ s.view.joined n →
    s'.view.held g = s.view.held g

theorem Undisturbed.refl {s : ServerMng} (h : s.Inv) (fd : Int) : Undisturbed fd s s :=
  ⟨h, rfl, fun _ => rfl, fun _ _ => rfl⟩

theorem Undisturbed.trans {fd : Int} {s s' s'' : ServerMng} (h : Undisturbed fd s s')
    (h' : Undisturbed fd s' s'') : Undisturbed fd s s'' where
  inv := h'.inv
  session := h'.session.trans h.session
  joined hn := (h'.joined (h.session.trans hn)).trans (h.joined hn)
  held hn hg := (h'.held (h.session.trans hn) (h.joined hn ▸ hg)).trans (h.held hn hg)

theorem exists_held {s : ServerMng} (h : s.Inv) {n g : CStr} (hg : g ∈ s.view.joined n) :
    ∃ p, s.view.held g = some p := by
  obtain ⟨gr, hgr⟩ := Option.ne_none_iff_exists'.mp (h.books.filed hg)
  exact ⟨_, Chat.held_of_group hgr⟩

theorem undisturbed_step {fd : Int} {s : ServerMng} (h : s.Inv) {e : Event} (he : e.sockfd ≠ fd) :
    Undisturbed fd s (s.step e).1 := by
  have hstep := step_refines h e
  have hsession := hstep.session_of_ne he.symm
  have hjoined : ∀ {n}, s.view.session fd = some n →
      (s.step e).1.view.joined n = s.view.joined n := by
    intro n hn
    obtain ⟨u, hu, -⟩ := h.sessions.user_of_session hn
    have hother : s.view.session e.sockfd ≠ some n := fun hn' =>
      he (h.sessions.session_inj hn' hn)
    have hother' : (s.step e).1.view.session e.sockfd ≠ some n := fun hn' =>
      he ((h.step e).sessions.session_inj hn' (hsession.trans hn))
    rw [Chat.joined_of_user hu, Chat.joined_of_user (hstep.user_of_ne hu hother hother')]
  refine ⟨h.step e, hsession, hjoined, fun hn hg => ?_⟩
  obtain ⟨p, hp⟩ := exists_held h hg
  obtain ⟨p', hp'⟩ := exists_held (h.step e) (hjoined hn ▸ hg)
  rw [hp, hp', hstep.held hp hp']

/-! ## Plays

A play of the management layer is a list of calls, by whomever.  `Mng.play` is what happens in it,
with what is sent. -/

/-- A list of calls, one after the other. -/
def Mng.play (es : List Event) (m : Mng) : Mng := es.foldl (fun m e => m.call fun _ => e) m

namespace Mng

@[simp] theorem play_cons (e : Event) (es : List Event) (m : Mng) :
    m.play (e :: es) = (m.call fun _ => e).play es := rfl

theorem play_append (es es' : List Event) (m : Mng) :
    m.play (es ++ es') = (m.play es).play es' := List.foldl_append

theorem mem_call {m : Mng} (h : m.mem = []) (e : Alloc → Event) : (m.call e).mem = [] := by
  show m.mem.tail = []
  rw [h, List.tail_nil]

theorem mem_play {m : Mng} (h : m.mem = []) (es : List Event) : (m.play es).mem = [] := by
  induction es generalizing m with
  | nil => exact h
  | cons e es ih => exact ih (mem_call h _)

theorem mng_play (es : List Event) (m : Mng) : (m.play es).mng = m.mng.run es := by
  induction es generalizing m with
  | nil => rfl
  | cons e es ih => exact ih _

/-- Frames handed over while no allocation fails. -/
theorem foldl_onMsg {m : Mng} (h : m.mem = []) (fd : Int) (frames : List (List UInt8)) :
    frames.foldl (fun m msg => onMsg fd msg m) m =
      m.play (frames.map fun msg => .message fd msg []) := by
  induction frames generalizing m with
  | nil => rfl
  | cons msg frames ih =>
    have hmsg : onMsg fd msg m = m.call fun _ => .message fd msg [] := by
      rw [onMsg, call, call, h]
      rfl
    rw [List.foldl_cons, List.map_cons, play_cons, hmsg]
    exact ih (mem_call h _)

/-- Calls of others disturb nothing, and nothing of theirs is sent here. -/
theorem play_others {fd : Int} {m : Mng} (h : m.mng.Inv) {es : List Event}
    (hes : ∀ e ∈ es, e.sockfd ≠ fd) :
    Undisturbed fd m.mng (m.play es).mng ∧
      (m.play es).sent.filter (fun p => p.1 = fd) = m.sent.filter (fun p => p.1 = fd) := by
  induction es generalizing m with
  | nil => exact ⟨.refl h fd, rfl⟩
  | cons e es ih =>
    have he := hes e List.mem_cons_self
    have hone := undisturbed_step h he
    obtain ⟨hrest, hsent⟩ := ih (m := m.call fun _ => e) hone.inv
      fun e' he' => hes e' (List.mem_cons_of_mem _ he')
    refine ⟨hone.trans hrest, hsent.trans ?_⟩
    have hnone : (m.mng.step e).2.filter (fun p => p.1 = fd) = [] := by
      refine List.filter_eq_nil_iff.mpr fun p hp => ?_
      rw [(step_refines h e).addressee hp, decide_eq_true_eq]
      exact he
    rw [call, List.filter_append, hnone, List.append_nil]

end Mng

theorem undisturbed_run {fd : Int} {s : ServerMng} (h : s.Inv) {es : List Event}
    (hes : ∀ e ∈ es, e.sockfd ≠ fd) : Undisturbed fd s (s.run es) := by
  have hplay := (Mng.play_others (m := ⟨s, [], []⟩) h hes).1
  rwa [Mng.mng_play] at hplay

/-! ## The server's side of a call -/

/-- At most `n` calls of `HandleClientData` on the slot `c`, each made when there is something to
read, and before each of them the calls of others whose turn it is; at the end those who are
left. -/
def serverTurns : Nat → ClientState → FdTables → Inbox UInt8 → List (List Event) → Mng →
    ClientState × Mng
  | 0, c, _, _, turns, m => (c, m.play turns.flatten)
  | n + 1, c, t, x, turns, m =>
    if x.bytes = [] then (c, m.play turns.flatten)
    else
      match handleClientData onMsg onDisc c t x (m.play (turns.headD [])) with
      | (c, t, x, m) => serverTurns n c t x turns.tail m

/-- `es` is the frames of one client, in order, interleaved with the calls of others, in order. -/
structure Interleaved (fd : Int) (frames : List (List UInt8)) (others es : List Event) : Prop where
  own : es.filter (fun e => e.sockfd = fd) = frames.map fun msg => .message fd msg []
  others : es.filter (fun e => e.sockfd ≠ fd) = others

theorem Interleaved.of_others {fd : Int} {others : List Event}
    (h : ∀ e ∈ others, e.sockfd ≠ fd) : Interleaved fd [] others others where
  own := List.filter_eq_nil_iff.mpr fun e he => by simpa using h e he
  others := List.filter_eq_self.mpr fun e he => by simpa using h e he

theorem Interleaved.of_frames (fd : Int) (frames : List (List UInt8)) :
    Interleaved fd frames [] (frames.map fun msg => .message fd msg []) where
  own := List.filter_eq_self.mpr fun e he => by
    obtain ⟨msg, -, rfl⟩ := List.mem_map.mp he
    simp [Event.sockfd]
  others := List.filter_eq_nil_iff.mpr fun e he => by
    obtain ⟨msg, -, rfl⟩ := List.mem_map.mp he
    simp [Event.sockfd]

theorem Interleaved.append {fd : Int} {frames frames' : List (List UInt8)}
    {others others' es es' : List Event} (h : Interleaved fd frames others es)
    (h' : Interleaved fd frames' others' es') :
    Interleaved fd (frames ++ frames') (others ++ others') (es ++ es') where
  own := by rw [List.filter_append, h.own, h'.own, List.map_append]
  others := by rw [List.filter_append, h.others, h'.others]

/-- A single frame comes between two parts of the others' calls. -/
theorem Interleaved.split {fd : Int} {msg : List UInt8} {others es : List Event}
    (h : Interleaved fd [msg] others es) :
    ∃ es₁ es₂, es = es₁ ++ .message fd msg [] :: es₂ ∧ others = es₁ ++ es₂ ∧
      (∀ e ∈ es₁, e.sockfd ≠ fd) ∧ ∀ e ∈ es₂, e.sockfd ≠ fd := by
  obtain ⟨es₁, es₂, rfl, hes₁, hown, hes₂⟩ := List.filter_eq_cons_iff.mp h.own
  have h₁ : ∀ e ∈ es₁, e.sockfd ≠ fd := fun e he => by simpa using hes₁ e he
  have h₂ : ∀ e ∈ es₂, e.sockfd ≠ fd := fun e he => by
    simpa using List.filter_eq_nil_iff.mp hes₂ e he
  refine ⟨es₁, es₂, rfl, ?_, h₁, h₂⟩
  rw [← h.others, List.filter_append, List.filter_cons_of_neg (by simp [Event.sockfd]),
    (Interleaved.of_others h₁).others, (Interleaved.of_others h₂).others]

/-- Nothing to read: the others have their turns. -/
theorem serverTurns_end (n : Nat) (c : ClientState) (t : FdTables) {x : Inbox UInt8}
    (hx : x.bytes = []) (turns : List (List Event)) (m : Mng) :
    serverTurns n c t x turns m = (c, m.play turns.flatten) := by
  cases n with
  | zero => rfl
  | succ n => rw [serverTurns, if_pos hx]

/-- **The server's side.**  Whatever the pieces, the management layer sees the frames of the stream
interleaved with the calls of others. -/
theorem serverTurns_spec (n : Nat) {c : ClientState} (hc : c.Settled) (t : FdTables)
    {x : Inbox UInt8} (hx : x.bytes.length ≤ n) {turns : List (List Event)}
    (hturns : ∀ e ∈ turns.flatten, e.sockfd ≠ c.fd) {m : Mng} (hmem : m.mem = []) :
    ∃ c' es frames, serverTurns n c t x turns m = (c', m.play es) ∧ c'.fd = c.fd ∧ c'.Settled ∧
      Interleaved c.fd frames turns.flatten es ∧
      tlv.Segmentation (c.data ++ x.bytes) frames c'.data := by
  induction n generalizing c t x turns m with
  | zero =>
    have hend : x.bytes = [] := List.length_eq_zero_iff.mp (Nat.le_zero.mp hx)
    refine ⟨c, _, [], serverTurns_end 0 c t hend turns m, rfl, hc, .of_others hturns, ?_⟩
    rw [hend, List.append_nil]
    exact .nil hc.incomplete
  | succ n ih =>
    by_cases hend : x.bytes = []
    · refine ⟨c, _, [], serverTurns_end (n + 1) c t hend turns m, rfl, hc, .of_others hturns, ?_⟩
      rw [hend, List.append_nil]
      exact .nil hc.incomplete
    · -- one read: the others' turn, then the frames this piece completes
      have hsplit : turns.flatten = turns.headD [] ++ turns.tail.flatten := by cases turns <;> rfl
      rw [hsplit] at hturns
      have hfirst := fun e he => hturns e (List.mem_append_left _ he)
      have hlater := fun e he => hturns e (List.mem_append_right _ he)
      have hmem₁ := Mng.mem_play hmem (turns.headD [])
      rw [serverTurns, if_neg hend]
      obtain ⟨hnil, -⟩ | ⟨chunk, y, new, c₁, hchunk, hbytes, hr, hfd, hc₁, hnew⟩ :=
        handleClientData_cases onMsg onDisc hc t x (m.play (turns.headD []))
      · exact absurd hnil hend
      · have hlen : y.bytes.length ≤ n := by
          have hpos : 0 < chunk.length := List.length_pos_iff.mpr hchunk
          rw [hbytes, List.length_append] at hx
          omega
        rw [hr, Mng.foldl_onMsg hmem₁, ← Mng.play_append]
        obtain ⟨c', es, frames, hserve, hfd', hc', hinter, hseg⟩ :=
          ih hc₁ t hlen (hfd ▸ hlater) (Mng.mem_play hmem _)
        rw [hfd] at hinter
        refine ⟨c', _, new ++ frames, hserve.trans (by rw [← Mng.play_append]),
          hfd'.trans hfd, hc', ?_, ?_⟩
        · rw [hsplit]
          have hown := (Interleaved.of_others hfirst).append (Interleaved.of_frames c.fd new)
          rw [List.append_nil, List.nil_append] at hown
          exact hown.append hinter
        · rw [hbytes, ← List.append_assoc]
          exact hnew.append hseg

/-! ## The system -/

/-- What the surroundings do during one call. -/
structure Surroundings where
  /-- What the client's `send` calls return. -/
  sends : List Int
  /-- The way to the server. -/
  up : Channel UInt8
  /-- The way back. -/
  down : Channel UInt8
  /-- The calls of other clients, in the turns they come in. -/
  turns : List (List Event)
  /-- The allocation failures in the client. -/
  al : Alloc

/-- Every `send` takes something, and the other clients have other descriptors. -/
structure Surroundings.Fair (env : Surroundings) (fd : Int) : Prop where
  sends : ∀ n ∈ env.sends, 0 < n
  others : ∀ e ∈ env.turns.flatten, e.sockfd ≠ fd

/-- The two ends of a connection. -/
structure System (ε : Type) where
  client : ClientMng
  /-- The client's operating system. -/
  desktop : ε
  server : ServerMng
  /-- The server's slot for this connection. -/
  slot : ClientState
  tables : FdTables
  /-- What the server has sent and the client has not yet read. -/
  pending : List UInt8

/-- The bytes that go to one descriptor. -/
def bytesTo (fd : Int) (sent : List Packet) : List UInt8 :=
  (sent.filter fun p => p.1 = fd).flatMap Prod.snd

namespace System

variable {ε : Type} (os : Desktop ε) (S : System ε) (env : Surroundings) (r : Request)

/-- The server's end once the bytes `out` have been read, and what has been sent meanwhile. -/
def served (out : List UInt8) : ClientState × Mng :=
  serverTurns out.length S.slot S.tables (env.up.cut out) env.turns ⟨S.server, [], []⟩

/-- The client's socket. -/
def wire : Wire where
  sends := env.sends
  incoming out := env.down.cut (S.pending ++ bytesTo S.slot.fd (S.served env out).2.sent)

/-- One call of the client. -/
def call : ClientMng.Result ε := S.client.call os (S.wire env) env.al S.desktop r

/-- What the server sends while the call lasts, to whomever. -/
def packets : List Packet := (S.served env (S.call os env r).traffic.sent).2.sent

/-- Both ends after the call. -/
def next : System ε where
  client := (S.call os env r).client
  desktop := (S.call os env r).desktop
  server := (S.served env (S.call os env r).traffic.sent).2.mng
  slot := (S.served env (S.call os env r).traffic.sent).1
  tables := S.tables
  pending := (S.call os env r).traffic.unread.bytes

/-- A connection that has just been made: the server has no session on it and has received
nothing, and the client knows of nothing. -/
structure Fresh (fd : Int) : Prop where
  session : S.server.view.session fd = none
  slotFd : S.slot.fd = fd
  slotLen : S.slot.len = 0
  pending : S.pending = []
  sockfd : 0 ≤ S.client.sockfd
  loggedIn : S.client.loggedIn = 0
  groups : S.client.groups.groups = []

end System

/-! ## What the client believes -/

/-- What the client believes about itself is the case. -/
structure Believes (fd : Int) (m : ClientMng) (c : Chat) : Prop where
  /-- It is logged in, under the name of the session, or neither. -/
  login : m.loggedIn = 1 ∧ c.session fd = some m.username ∨
    m.loggedIn = 0 ∧ c.session fd = none
  /-- No group has two entries. -/
  nodup : m.groups.names.Nodup
  /-- Each entry is for a group the user is in. -/
  tracked : ∀ g ∈ m.groups.names, ∃ n, c.session fd = some n ∧ g ∈ c.joined n

namespace Believes

variable {fd : Int} {m : ClientMng} {c : Chat}

theorem loggedIn_iff (h : Believes fd m c) : m.loggedIn = 1 ↔ ∃ n, c.session fd = some n := by
  rcases h.login with ⟨hin, hs⟩ | ⟨hout, hs⟩
  · simp [hin, hs]
  · simp [hout, hs]

theorem names_eq_nil (h : Believes fd m c) (hs : c.session fd = none) : m.groups.names = [] :=
  List.eq_nil_iff_forall_not_mem.mpr fun g hg => by
    obtain ⟨n, hn, -⟩ := h.tracked g hg
    exact absurd (hn.symm.trans hs) (by simp)

/-- Others cannot make it wrong. -/
theorem undisturbed {s s' : ServerMng} (h : Believes fd m s.view) (hu : Undisturbed fd s s') :
    Believes fd m s'.view where
  login := by rw [hu.session]; exact h.login
  nodup := h.nodup
  tracked g hg := by
    obtain ⟨n, hn, hmem⟩ := h.tracked g hg
    exact ⟨n, hu.session.trans hn, (hu.joined hn).symm ▸ hmem⟩

/-- The server lets nobody into a group twice, so a group the client is let into has no entry. -/
theorem notMem_names (h : Believes fd m c) (hb : c.Books) {r : Request} {g : CStr}
    (hr : r = .createGroup g ∨ r = .joinGroup g) (hv : c.verdict fd r = .ok) :
    g ∉ m.groups.names := by
  intro hg
  obtain ⟨n, hn, hmem⟩ := h.tracked g hg
  rcases hr with rfl | rfl
  · obtain ⟨_, _, _, -, hnone, -⟩ := Chat.verdict_createGroup_eq_ok.mp hv
    exact hb.filed hmem hnone
  · obtain ⟨n', _, hn', -, hnot⟩ := Chat.verdict_joinGroup_eq_ok.mp hv
    rw [hn, Option.some_inj] at hn'
    exact hnot (hn' ▸ hmem)

variable {ε : Type} (os : Desktop ε) (al : Alloc) (e : ε)

/-- Entering a group. -/
theorem entered (h : Believes fd m c) (hs : c.Sessions) {r : Request} {g : CStr}
    (hr : r = .createGroup g ∨ r = .joinGroup g) (hfits : g.length ≤ chatMaxGroupnameLen)
    (hv : c.verdict fd r = .ok) (ip : CStr) (port : UInt16) :
    Believes fd { m with groups := (m.groups.onJoin os g ip port m.username al e).2.1 }
      (c.grant fd r) := by
  obtain ⟨n, hn, hsession, hjoined⟩ := Chat.grant_enter hs hr hv
  -- what was tracked is still, and the new entry is the group entered
  have htracked : ∀ g' ∈ m.groups.names ++ [g], ∃ n, (c.grant fd r).session fd = some n ∧
      g' ∈ (c.grant fd r).joined n := by
    intro g' hg'
    rw [hsession]
    refine ⟨n, hn, ?_⟩
    rw [hjoined]
    rcases List.mem_append.mp hg' with hg' | hg'
    · obtain ⟨n', hn', hmem⟩ := h.tracked g' hg'
      rw [hn, Option.some_inj] at hn'
      exact List.mem_append_left _ (hn' ▸ hmem)
    · exact List.mem_append_right _ hg'
  have hlogin := h.login
  rw [← hsession] at hlogin
  obtain hsame | ⟨hnew, hadd⟩ := m.groups.onJoin_cases os hfits ip port m.username al e
  · refine ⟨hlogin, ?_, fun g' hg' => ?_⟩
    · rw [hsame]
      exact h.nodup
    · rw [hsame] at hg'
      exact htracked g' (List.mem_append_left _ hg')
  · refine ⟨hlogin, ?_, fun g' hg' => ?_⟩
    · rw [hadd]
      exact List.nodup_append.mpr ⟨h.nodup, List.nodup_singleton g, fun a ha b hb => by
        rw [List.mem_singleton.mp hb]
        exact fun hab => hnew (hab ▸ ha)⟩
    · rw [hadd] at hg'
      exact htracked g' hg'

/-- Leaving a group. -/
theorem left (h : Believes fd m c) (hs : c.Sessions) {g : CStr}
    (hv : c.verdict fd (.leaveGroup g) = .ok) :
    Believes fd { m with groups := (m.groups.onLeave os g e).1 }
      (c.grant fd (.leaveGroup g)) := by
  obtain ⟨n, hn, -⟩ := Chat.verdict_leaveGroup_eq_ok.mp hv
  obtain ⟨u, hu, -⟩ := hs.user_of_session hn
  have hsession : (c.grant fd (.leaveGroup g)).session = c.session :=
    Chat.session_grant (by simp) (by simp)
  have hnames := m.groups.names_onLeave os g e
  refine ⟨by rw [hsession]; exact h.login, ?_, fun g' hg' => ?_⟩
  · rw [hnames]
    exact h.nodup.erase g
  · rw [hnames, h.nodup.mem_erase_iff] at hg'
    obtain ⟨n', hn', hmem⟩ := h.tracked g' hg'.2
    rw [hn, Option.some_inj] at hn'
    subst hn'
    refine ⟨n, by rw [hsession, hn], ?_⟩
    rw [Chat.joined_leave hu hn, Function.update_self]
    exact (List.mem_erase_of_ne hg'.1).mpr hmem

/-- The client's half of a granted request and the server's go together. -/
theorem granted (h : Believes fd m c) (hs : c.Sessions) {r : Request} (hr : r.Fits)
    (hv : c.verdict fd r = .ok) (ip : CStr) (port : UInt16) :
    Believes fd (m.granted os al e ip port r) (c.grant fd r) := by
  cases r with
  | register n p =>
    have hsession : (c.grant fd (.register n p)).session = c.session :=
      Chat.session_grant (by simp) (by simp)
    refine ⟨by rw [hsession]; exact h.login, h.nodup, fun g hg => ?_⟩
    rw [hsession, Chat.joined_auth (.inl rfl) hv]
    exact h.tracked g hg
  | login n p =>
    obtain ⟨i, -, hi, hfree, -⟩ := Chat.verdict_login_eq_ok.mp hv
    have hnone : c.session fd = none := (Chat.session_of_fdIndex hi).trans hfree
    have hnames : m.groups.names = [] := h.names_eq_nil hnone
    have hself : (c.grant fd (.login n p)).session fd = some n := by
      rw [Chat.session_login hv, Function.update_self]
    refine ⟨.inl ⟨rfl, ?_⟩, h.nodup, fun g hg => ?_⟩
    · rw [hself, ClientMng.granted, CStr.ncopy_eq_self hr.1]
    · rw [ClientMng.granted, hnames] at hg
      exact absurd hg List.not_mem_nil
  | logout =>
    refine ⟨.inr ⟨rfl, ?_⟩, List.nodup_nil, fun g hg => absurd hg List.not_mem_nil⟩
    rw [Chat.grant, Chat.session_hangUp, Function.update_self]
  | createGroup g => exact h.entered os al e hs (.inl rfl) hr hv ip port
  | joinGroup g => exact h.entered os al e hs (.inr rfl) hr hv ip port
  | leaveGroup g => exact h.left os e hs hv

end Believes

namespace System

variable {ε : Type} (S : System ε)

/-- What the client believes is the case, and nothing is on its way. -/
structure Agree (fd : Int) : Prop where
  inv : S.server.Inv
  slotFd : S.slot.fd = fd
  slotLen : S.slot.len = 0
  pending : S.pending = []
  sockfd : 0 ≤ S.client.sockfd
  believes : Believes fd S.client S.server.view

variable {S} {env : Surroundings} {fd : Int} {r : Request}

/-! ## One call -/

/-- Once nothing is sent, only the others are served. -/
theorem served_nil (S : System ε) (env : Surroundings) :
    S.served env [] = (S.slot, Mng.play env.turns.flatten ⟨S.server, [], []⟩) :=
  serverTurns_end 0 _ _ (env.up.bytes_cut []) _ _

/-- A request that is too long does not go out. -/
theorem Agree.call_of_not_fits (os : Desktop ε) (h : S.Agree fd) (henv : env.Fair fd)
    (hr : ¬ r.Fits) :
    (S.call os env r).status = .errProtocol ∧ (S.call os env r).traffic.sent = [] ∧
      (S.next os env r).Agree fd := by
  have hnone : S.client.exchange (S.wire env) r.encode =
      (none, ⟨[], (S.wire env).incoming []⟩) := by
    rw [Request.encode_of_not_fits hr]
    rfl
  obtain ⟨hstatus, hclient, htraffic⟩ : (S.call os env r).status = .errProtocol ∧
      (S.call os env r).client = S.client ∧ (S.call os env r).traffic = _ :=
    ClientMng.call_of_none os hnone
  obtain ⟨hothers, hsent⟩ := Mng.play_others (m := ⟨S.server, [], []⟩) h.inv henv.others
  have hserved : S.served env (S.call os env r).traffic.sent =
      (S.slot, Mng.play env.turns.flatten ⟨S.server, [], []⟩) := by
    rw [htraffic, served_nil]
  have hserver : (S.next os env r).server = (Mng.play env.turns.flatten ⟨S.server, [], []⟩).mng :=
    congrArg (·.2.mng) hserved
  have hslot : (S.next os env r).slot = S.slot := congrArg (·.1) hserved
  refine ⟨hstatus, by rw [htraffic], ?_⟩
  constructor
  · rw [hserver]
    exact hothers.inv
  · rw [hslot, h.slotFd]
  · rw [hslot, h.slotLen]
  · show (S.call os env r).traffic.unread.bytes = []
    rw [htraffic]
    show (env.down.cut (S.pending ++ bytesTo S.slot.fd (S.served env []).2.sent)).bytes = []
    rw [env.down.bytes_cut, h.pending, List.nil_append, bytesTo, h.slotFd, served_nil, hsent]
    rfl
  · show 0 ≤ (S.call os env r).client.sockfd
    rw [hclient]
    exact h.sockfd
  · show Believes fd (S.call os env r).client _
    rw [hclient, hserver]
    exact h.believes.undisturbed hothers

/-- A request has gone out as `msg`, was served between the calls `es₁` and `es₂` of others, and
`frame` is the one frame that comes back. -/
structure Answered (S : System ε) (env : Surroundings) (fd : Int) (r : Request)
    (msg frame : List UInt8) (es₁ es₂ : List Event) : Prop where
  encode : r.encode = some msg
  parse : Request.parse msg = some r
  others : env.turns.flatten = es₁ ++ es₂
  before : ∀ e ∈ es₁, e.sockfd ≠ fd
  after : ∀ e ∈ es₂, e.sockfd ≠ fd
  reply : ((S.server.run es₁).step (.message fd msg [])).2 = [(fd, frame)]
  isFrame : tlv.IsFrame frame
  /-- The client reads the verdict out of it. -/
  status : (readReply r frame).1 = (S.server.run es₁).view.verdict fd r
  /-- And the address of a group it was let into. -/
  address : ∀ g, r = .createGroup g ∨ r = .joinGroup g →
    (S.server.run es₁).view.verdict fd r = .ok →
      ((S.server.run es₁).step (.message fd msg [])).1.view.held g =
        some ⟨(readReply r frame).2.1, (readReply r frame).2.2⟩
  server : (S.served env msg).2.mng = ((S.server.run es₁).step (.message fd msg [])).1.run es₂
  slotFd : (S.served env msg).1.fd = fd
  slotLen : (S.served env msg).1.len = 0
  packets : (S.served env msg).2.sent.filter (fun p => p.1 = fd) = [(fd, frame)]

/-- **Every request that goes out is answered by one frame.** -/
theorem Agree.answered (h : S.Agree fd) (hfd : 0 ≤ fd) (henv : env.Fair fd) (hr : r.Fits) :
    ∃ msg frame es₁ es₂, S.Answered env fd r msg frame es₁ es₂ := by
  obtain ⟨msg, hencode, hframe, hparse⟩ := Request.parse_encode hr
  -- the server's slot sees the request as its one frame
  obtain ⟨c', es, frames, hserved, hslot, hsettled, hinter, hseg⟩ :=
    serverTurns_spec msg.length (ClientState.settled_of_empty h.slotLen) S.tables
      (x := env.up.cut msg) (by rw [env.up.bytes_cut]) (by rw [h.slotFd]; exact henv.others)
      (m := ⟨S.server, [], []⟩) rfl
  have hempty : S.slot.data = [] := by rw [ClientState.data, h.slotLen, List.take_zero]
  rw [hempty, List.nil_append, env.up.bytes_cut] at hseg
  have hone : tlv.Segmentation msg [msg] [] := by
    have hcons := Segmentation.cons hframe (.nil incomplete_nil)
    rwa [List.append_nil] at hcons
  obtain ⟨rfl, hrest⟩ := hseg.unique hone
  rw [h.slotFd] at hinter hslot
  obtain ⟨es₁, es₂, rfl, hothers, hes₁, hes₂⟩ := hinter.split
  -- before the request, the request, after the request
  have hsent₁ := (Mng.play_others (m := ⟨S.server, [], []⟩) h.inv hes₁).2
  have hu₁ := undisturbed_run h.inv hes₁
  obtain ⟨frame, hreply, hisFrame, hstatus, haddress⟩ :=
    Chat.exists_reply hu₁.inv.addresses hfd r
  have hserve := message_eq_serve hu₁.inv fd hparse
  rw [← congrArg Prod.snd hserve] at hreply
  rw [← congrArg Prod.fst hserve] at haddress
  rw [Mng.play_append, Mng.play_cons] at hserved
  have hinv₂ : (((Mng.play es₁ ⟨S.server, [], []⟩).call fun _ => .message fd msg []).mng).Inv := by
    show ((Mng.play es₁ ⟨S.server, [], []⟩).mng.step _).1.Inv
    rw [Mng.mng_play]
    exact hu₁.inv.step _
  obtain ⟨-, hsent₂⟩ := Mng.play_others hinv₂ hes₂
  have hsent : (S.served env msg).2.sent.filter (fun p => p.1 = fd) = [(fd, frame)] := by
    rw [served, hserved]
    refine hsent₂.trans ?_
    show (_ ++ ((Mng.play es₁ ⟨S.server, [], []⟩).mng.step _).2).filter _ = _
    rw [List.filter_append, hsent₁, Mng.mng_play, hreply]
    simp
  have hserver : (S.served env msg).2.mng =
      ((S.server.run es₁).step (.message fd msg [])).1.run es₂ := by
    rw [served, hserved]
    refine (Mng.mng_play _ _).trans ?_
    show ((Mng.play es₁ ⟨S.server, [], []⟩).mng.step _).1.run es₂ = _
    rw [Mng.mng_play]
  refine ⟨msg, frame, es₁, es₂, ?_⟩
  exact
    { encode := hencode
      parse := hparse
      others := hothers
      before := hes₁
      after := hes₂
      reply := hreply
      isFrame := hisFrame
      status := hstatus
      address := haddress
      server := hserver
      slotFd := by rw [served, hserved, hslot]
      slotLen := by
        rw [served, hserved]
        rw [← ClientState.length_data hsettled.len_le, hrest, List.length_nil]
      packets := hsent }

theorem Answered.view {msg frame : List UInt8} {es₁ es₂ : List Event} (h : S.server.Inv)
    (ha : S.Answered env fd r msg frame es₁ es₂) :
    ((S.server.run es₁).step (.message fd msg [])).1.view =
      ((S.server.run es₁).view.serve fd r).1 :=
  congrArg Prod.fst (message_eq_serve (undisturbed_run h ha.before).inv fd ha.parse)

/-- What the client makes of the answer. -/
theorem Agree.call_of_answered (os : Desktop ε) (h : S.Agree fd) (henv : env.Fair fd) (hr : r.Fits)
    {msg frame : List UInt8} {es₁ es₂ : List Event}
    (ha : S.Answered env fd r msg frame es₁ es₂) :
    (S.call os env r).status = (S.server.run es₁).view.verdict fd r ∧
      (S.call os env r).outIp = (readReply r frame).2.1 ∧
      (S.call os env r).outPort = (readReply r frame).2.2 ∧
      (S.call os env r).traffic.sent = msg ∧ (S.next os env r).Agree fd := by
  have hin : ((S.wire env).incoming msg).bytes = frame ++ [] := by
    show (env.down.cut (S.pending ++ bytesTo S.slot.fd (S.served env msg).2.sent)).bytes = _
    rw [env.down.bytes_cut, h.pending, bytesTo, h.slotFd, ha.packets]
    simp
  obtain ⟨unread, hexchange, hunread⟩ :=
    ClientMng.exchange_of_frame h.sockfd henv.sends ha.isFrame hin
  rw [← ha.encode] at hexchange
  obtain ⟨hstatus, hip, hport, htraffic, hclient⟩ : (S.call os env r).status = _ ∧
      (S.call os env r).outIp = _ ∧ (S.call os env r).outPort = _ ∧
      (S.call os env r).traffic = _ ∧ (S.call os env r).client = _ :=
    ClientMng.call_of_reply os hexchange
  have hsent : (S.call os env r).traffic.sent = msg := by rw [htraffic]
  rw [ha.status] at hstatus hclient
  have hserved : (S.next os env r).server = _ ∧ (S.next os env r).slot = (S.served env msg).1 :=
    ⟨(congrArg (S.served env · |>.2.mng) hsent).trans ha.server,
      congrArg (S.served env · |>.1) hsent⟩
  have hu₁ := undisturbed_run h.inv ha.before
  have hu₂ := undisturbed_run (hu₁.inv.step (.message fd msg [])) ha.after
  have hclient₂ : (S.call os env r).client.sockfd = S.client.sockfd ∧
      Believes fd (S.call os env r).client
        ((S.server.run es₁).step (.message fd msg [])).1.view := by
    have hbelieves := h.believes.undisturbed hu₁
    rw [hclient, ha.view h.inv, Chat.serve]
    by_cases hv : (S.server.run es₁).view.verdict fd r = .ok
    · rw [if_pos hv, if_pos hv]
      exact ⟨ClientMng.sockfd_granted os,
        hbelieves.granted os env.al S.desktop hu₁.inv.sessions hr hv _ _⟩
    · rw [if_neg hv, if_neg hv]
      exact ⟨rfl, hbelieves⟩
  refine ⟨hstatus, hip, hport, hsent, ?_⟩
  constructor
  · rw [hserved.1]
    exact hu₂.inv
  · rw [hserved.2, ha.slotFd]
  · rw [hserved.2, ha.slotLen]
  · show (S.call os env r).traffic.unread.bytes = []
    rw [htraffic]
    exact hunread
  · show 0 ≤ (S.call os env r).client.sockfd
    rw [hclient₂.1]
    exact h.sockfd
  · rw [hserved.1]
    exact hclient₂.2.undisturbed hu₂

/-- A group the client is let into is new to it, and it is told the address the server has for
it. -/
theorem Agree.enters (os : Desktop ε) (h : S.Agree fd) (hfd : 0 ≤ fd) (henv : env.Fair fd)
    {g : CStr} (hg : r = .createGroup g ∨ r = .joinGroup g) (hok : (S.call os env r).status = .ok) :
    S.client.groups.findEntry g = none ∧ ∃ gr, (S.next os env r).server.groupMng.group g = some gr ∧
      gr.mcastIp = (S.call os env r).outIp ∧ gr.mcastPort = (S.call os env r).outPort := by
  have hr : r.Fits := by
    by_contra hr
    rw [(h.call_of_not_fits os henv hr).1] at hok
    exact absurd hok (by decide)
  obtain ⟨msg, frame, es₁, es₂, ha⟩ := h.answered hfd henv hr
  obtain ⟨hstatus, hip, hport, hsent, -⟩ := h.call_of_answered os henv hr ha
  have hu₁ := undisturbed_run h.inv ha.before
  have hv : (S.server.run es₁).view.verdict fd r = .ok := hstatus.symm.trans hok
  refine ⟨ClientGroupsMng.findEntry_eq_none_iff.mpr
    ((h.believes.undisturbed hu₁).notMem_names hu₁.inv.books hg hv), ?_⟩
  -- the user is in the group now, so its address stays while others are served
  obtain ⟨n, hn, hsession, hjoined⟩ := Chat.grant_enter hu₁.inv.sessions hg hv
  have hview : ((S.server.run es₁).step (.message fd msg [])).1.view =
      (S.server.run es₁).view.grant fd r := by
    rw [ha.view h.inv, Chat.serve, if_pos hv]
  have hu₂ := undisturbed_run (hu₁.inv.step (.message fd msg [])) ha.after
  have hheld := hu₂.held (n := n) (g := g) (by rw [hview, hsession, hn])
    (by rw [hview, hjoined]; exact List.mem_append_right _ (List.mem_singleton_self g))
  rw [ha.address g hg hv] at hheld
  obtain ⟨gr, hgr, hpair⟩ := Chat.held_eq_some_iff.mp hheld
  have hserver : (S.next os env r).server = _ :=
    (congrArg (S.served env · |>.2.mng) hsent).trans ha.server
  refine ⟨gr, by rw [hserver]; exact hgr, ?_, ?_⟩
  · rw [hip]
    exact congrArg McastPair.ip hpair
  · rw [hport]
    exact congrArg McastPair.port hpair

/-- Both ends still agree after the call, whatever the request. -/
theorem Agree.next (os : Desktop ε) (h : S.Agree fd) (hfd : 0 ≤ fd) (henv : env.Fair fd)
    (r : Request) :
    (S.next os env r).Agree fd := by
  by_cases hr : r.Fits
  · obtain ⟨msg, frame, es₁, es₂, ha⟩ := h.answered hfd henv hr
    exact (h.call_of_answered os henv hr ha).2.2.2.2
  · exact (h.call_of_not_fits os henv hr).2.2

theorem Fresh.agree (h : S.Fresh fd) (hinv : S.server.Inv) : S.Agree fd where
  inv := hinv
  slotFd := h.slotFd
  slotLen := h.slotLen
  pending := h.pending
  sockfd := h.sockfd
  believes := by
    have hnames : S.client.groups.names = [] := by
      rw [ClientGroupsMng.names, h.groups, List.map_nil]
    refine ⟨.inr ⟨h.loggedIn, h.session⟩, by rw [hnames]; exact List.nodup_nil, fun g hg => ?_⟩
    rw [hnames] at hg
    exact absurd hg List.not_mem_nil

/-- The two ends after a sequence of calls. -/
def run (os : Desktop ε) (S : System ε) (calls : List (Surroundings × Request)) : System ε :=
  Machine.run (fun S call => (S.next os call.1 call.2, S.call os call.1 call.2)) S calls

theorem Agree.run (os : Desktop ε) (h : S.Agree fd) (hfd : 0 ≤ fd)
    {calls : List (Surroundings × Request)}
    (hcalls : ∀ call ∈ calls, call.1.Fair fd) : (S.run os calls).Agree fd :=
  Machine.run_invariant (p := fun call : Surroundings × Request => call.1.Fair fd)
    (P := fun S : System ε => S.Agree fd) (fun _ call hcall h => h.next os hfd hcall call.2) hcalls
    h

end System

/-- **Client and server agree.**  From a fresh connection to a server in any reachable state, after
any sequence of calls with strings of any length, and for the next call, whatever the pieces the
bytes arrive in and whatever other clients do in between:

* a request with a string that is too long is not sent and returns `ST_ERR_PROTOCOL`;
* every other request reaches the server as it was meant, gets exactly one frame, and the call
  returns the status that the server's handler has computed; nothing is left on the way;
* a group the client is let into is known to the server under the address the client is told, and
  the client has no entry for it yet;
* the client believes to be logged in exactly when it is, under the name of its session;
* each of its entries is for a group the user of the session is in. -/
theorem views_agree {ε : Type} (os : Desktop ε) {al : Alloc} {s₀ : ServerMng}
    (h₀ : ServerMng.init al = some s₀) (es₀ : List Event) {fd : Int} (hfd : 0 ≤ fd)
    {S₀ : System ε} (hserver : S₀.server = s₀.run es₀) (hfresh : S₀.Fresh fd)
    {calls : List (Surroundings × Request)} (hcalls : ∀ call ∈ calls, call.1.Fair fd)
    {env : Surroundings} (henv : env.Fair fd) (r : Request) :
    let S := S₀.run os calls
    let res := S.call os env r
    let S' := S.next os env r
    (¬ r.Fits → res.status = .errProtocol ∧ res.traffic.sent = []) ∧
    (r.Fits → ∃ msg frame es₁ es₂, res.traffic.sent = msg ∧ Request.parse msg = some r ∧
      env.turns.flatten = es₁ ++ es₂ ∧
      ((S.server.run es₁).step (.message fd msg [])).2 = [(fd, frame)] ∧
      S'.server = ((S.server.run es₁).step (.message fd msg [])).1.run es₂ ∧
      (S.packets os env r).filter (fun p => p.1 = fd) = [(fd, frame)] ∧ tlv.IsFrame frame ∧
      answer fd r.repOpcode [(fd, frame)] = some res.status ∧
      res.status = (S.server.run es₁).view.verdict fd r) ∧
    S'.pending = [] ∧
    (∀ g, r = .createGroup g ∨ r = .joinGroup g → res.status = .ok →
      S.client.groups.findEntry g = none ∧ ∃ gr, S'.server.groupMng.group g = some gr ∧
        gr.mcastIp = res.outIp ∧ gr.mcastPort = res.outPort) ∧
    (S'.client.loggedIn = 1 ↔ ∃ n, S'.server.view.session fd = some n) ∧
    (S'.client.loggedIn = 1 → S'.server.view.session fd = some S'.client.username) ∧
    (∀ g ∈ S'.client.groups.names, ∃ n, S'.server.view.session fd = some n ∧
      g ∈ S'.server.view.joined n) := by
  intro S res S'
  have hS : S.Agree fd := (hfresh.agree (hserver ▸ inv_reachable h₀ es₀)).run os hfd hcalls
  have hS' : S'.Agree fd := hS.next os hfd henv r
  refine ⟨fun hr => ?_, fun hr => ?_, hS'.pending, fun g hg hok => ?_, hS'.believes.loggedIn_iff,
    fun hin => ?_, hS'.believes.tracked⟩
  · obtain ⟨hstatus, hsent, -⟩ := hS.call_of_not_fits os henv hr
    exact ⟨hstatus, hsent⟩
  · obtain ⟨msg, frame, es₁, es₂, ha⟩ := hS.answered hfd henv hr
    obtain ⟨hstatus, -, -, hsent, -⟩ := hS.call_of_answered os henv hr ha
    have hanswer := answer_message (undisturbed_run hS.inv ha.before).inv hfd ha.parse
    rw [ha.reply, ← hstatus] at hanswer
    refine ⟨msg, frame, es₁, es₂, hsent, ha.parse, ha.others, ha.reply, ?_, ?_, ha.isFrame, hanswer,
      hstatus⟩
    · exact (congrArg (S.served env · |>.2.mng) hsent).trans ha.server
    · rw [System.packets]
      exact (congrArg (fun out => (S.served env out).2.sent.filter (fun p => p.1 = fd)) hsent).trans
        ha.packets
  · exact hS.enters os hfd henv hg hok
  · rcases hS'.believes.login with ⟨-, hs⟩ | ⟨hout, -⟩
    · exact hs
    · rw [hout] at hin
      exact absurd hin (by decide)

/-- A client that has just connected on descriptor 4. -/
def newcomer (s : ServerMng) : System Unit where
  client := ⟨3, 0, .empty, ⟨7, []⟩⟩
  desktop := ()
  server := s
  slot := ClientState.free.install 4
  tables := ⟨fun _ => false, fun _ => false⟩
  pending := []

/-- Every byte comes alone, and somebody on descriptor 5 registers before the second one is read. -/
def busy : Surroundings where
  sends := [1, 2]
  up := .bytewise UInt8
  down := .bytewise UInt8
  turns := [[], [.message 5 [1, 4, 1, 99, 1, 98] []]]
  al := []

/-- The newcomer registers and logs in. -/
def arrival : List (Surroundings × Request) :=
  [(busy, .register ⟨[97], by decide⟩ ⟨[98], by decide⟩),
    (busy, .login ⟨[97], by decide⟩ ⟨[98], by decide⟩)]

/-- The newcomer founds a group. -/
theorem views_agree_newcomer :
    ∃ (os : Desktop Unit) (s₀ : ServerMng), ServerMng.init [] = some s₀ ∧
      let S := (newcomer s₀).run os arrival
      let res := S.call os busy (.createGroup ⟨[103], by decide⟩)
      let S' := S.next os busy (.createGroup ⟨[103], by decide⟩)
      res.status = .ok ∧ S'.client.groups.names = [⟨[103], by decide⟩] ∧
        ∃ gr n, S'.server.groupMng.group ⟨[103], by decide⟩ = some gr ∧
          gr.mcastIp = res.outIp ∧ S'.server.view.session 4 = some n ∧
          ⟨[103], by decide⟩ ∈ S'.server.view.joined n := by
  let os : Desktop Unit := ⟨fun _ e => (0, e), fun _ _ e => (some 100, e), fun _ e => e⟩
  have hrun : (ServerMng.init []).map (fun s =>
      let S := (newcomer s).run os arrival
      ((S.call os busy (.createGroup ⟨[103], by decide⟩)).status,
        (S.next os busy (.createGroup ⟨[103], by decide⟩)).client.groups.names)) =
      some (.ok, [⟨[103], by decide⟩]) := by
    decide +kernel
  obtain ⟨s₀, h₀, hend⟩ := Option.map_eq_some_iff.mp hrun
  obtain ⟨hok, hnames⟩ := Prod.mk.inj hend
  have hsession : s₀.view.session 4 = none := by
    rw [Chat.session_of_fdIndex (i := ⟨4, by decide⟩) rfl, (init_spec h₀).2.2.1]
  have hfresh : (newcomer s₀).Fresh 4 :=
    ⟨hsession, rfl, rfl, rfl, show (0 : Int) ≤ 3 by decide, rfl, rfl⟩
  have hbusy : busy.Fair 4 := ⟨by decide, by decide⟩
  have harrival : ∀ call ∈ arrival, call.1.Fair 4 := by simp [arrival, hbusy]
  obtain ⟨-, -, -, hgroup, -, -, htracked⟩ :=
    views_agree os h₀ [] (show (0 : Int) ≤ 4 by decide) rfl hfresh harrival hbusy
      (.createGroup ⟨[103], by decide⟩)
  obtain ⟨-, gr, hgr, hip, -⟩ := hgroup _ (.inl rfl) hok
  obtain ⟨n, hn, hmem⟩ := htracked _ (hnames ▸ List.mem_singleton_self _)
  exact ⟨os, s₀, h₀, hok, hnames, gr, n, hgr, hip, hn, hmem⟩

end ChatProject
