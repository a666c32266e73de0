import ChatProject.System.Linearization

/-!
# What the users can rely on

What a user knows is what the program has told it: when a call returned, and with what.  This file
says what these answers have to do with each other, whoever they were given to, for any number of
clients and any order of everybody's steps.

* `LoggedIn`, `InGroup` — what a client has been told and has done nothing to undo.
* `Atomic.Sound` — the state of the service and its clients in every run of the atomic service.
* `Knows` — what a client knows is the case.
* `Vouched` — what is known of passwords is the case too.

The theorems about the network come from the runs of the atomic service, which
`System/Linearization.lean` says look the same.
-/

set_option autoImplicit false

namespace ChatProject

open ServerMng Machine

section
variable {κ : Type}

/-- `k` has been told that it is logged in as `n`, and since then has neither asked to be logged out
nor gone. -/
def LoggedIn (seen : List (Note κ)) (k : κ) (n : CStr) : Prop :=
  Since (fun _ x => ∃ p addr, x = .answered k (.login n p) .ok addr)
    (fun _ x => x = .asked k .logout ∨ x = .left k) seen

/-- `k` has been let into `g` and told the address `p`, and since then has neither asked to leave
`g` or to be logged out nor gone. -/
def InGroup (seen : List (Note κ)) (k : κ) (g : CStr) (p : McastPair) : Prop :=
  Since (fun _ x => ∃ r, r.enters = some g ∧ x = .answered k r .ok (some p))
    (fun _ x => x = .asked k (.leaveGroup g) ∨ x = .asked k .logout ∨ x = .left k) seen

/-! ## The state -/

namespace Atomic

/-- What holds in every state of the atomic service. -/
structure Sound (A : Atomic κ) : Prop where
  /-- The service is in a state the server can be in. -/
  backed : ∃ s : ServerMng, s.Inv ∧ s.view = A.chat
  distinct : ∀ {k k' fd}, (A.line k).fd = some fd → (A.line k').fd = some fd → k = k'
  fits : ∀ {k r}, (A.line k).owed = some r → r.Fits
  /-- A session is some client's. -/
  someone : ∀ {fd n}, A.chat.session fd = some n → ∃ k, (A.line k).fd = some fd

variable {A A' : Atomic κ} {k : κ} {x : Option (Note κ)} {l l' : Line} {c : Chat}

theorem sound_initial {al : Alloc} {mng : ServerMng} (h : ServerMng.init al = some mng) :
    (initial κ mng).Sound where
  backed := ⟨mng, inv_init h, rfl⟩
  distinct := fun hk => absurd hk (by simp [initial, Line.fd])
  fits := fun hk => absurd hk (by simp [initial, Line.owed])
  someone := fun {fd n} hn => by
    obtain ⟨i, -, hi⟩ := Chat.session_eq_some_iff.mp hn
    obtain ⟨-, -, hsock, -⟩ := init_spec h
    have hnone : mng.view.sock i = none := congrFun hsock i
    exact absurd (hnone.symm.trans hi) (by simp)

theorem Move.fd (h : A.Move k l x l' c) {fd : Int} (hfd : l'.fd = some fd) :
    l.fd = some fd ∨ A.Unused fd := by
  cases h with
  | accept hun | acceptLeft hun =>
    obtain rfl := Option.some.inj hfd
    exact .inr hun
  | connect | hangUp => exact absurd hfd (by simp [Line.fd])
  | _ => exact .inl hfd

theorem Move.owed (h : A.Move k l x l' c) {r : Request} (hr : l'.owed = some r) :
    l.owed = some r ∨ r.Fits ∧ x = some (.asked k r) := by
  cases h with
  | ask hfits =>
    obtain rfl := Option.some.inj hr
    exact .inr ⟨hfits, rfl⟩
  | accept | acceptLeft | leave => exact .inl hr
  | _ => exact absurd hr (by simp [Line.owed, Pending.owed])

/-- A client that is about to be told of a success was so before, or is so by this step. -/
theorem Move.served (h : A.Move k l x l' c) {fd : Option Int} {r : Request}
    {addr : Option McastPair} (hl : l' = .made fd (.served r .ok addr)) :
    (∃ fd, l = .made fd (.served r .ok addr)) ∨ ∃ d, l.owed = some r ∧ x = none ∧
      A.chat.verdict d r = .ok ∧ c = (A.chat.serve d r).1 := by
  cases h with
  | accept =>
    obtain ⟨-, rfl⟩ := Line.made.inj hl
    exact .inl ⟨_, rfl⟩
  | serve =>
    obtain ⟨-, hserved⟩ := Line.made.inj hl
    obtain ⟨rfl, hv, -⟩ := Pending.served.inj hserved
    exact .inr ⟨_, rfl, rfl, hv, rfl⟩
  | _ => exact absurd hl (by simp)

theorem Move.answered {r : Request} {status : ChatStatus} {addr : Option McastPair}
    (h : A.Move k l (some (.answered k r status addr)) l' c) :
    ∃ fd, l = .made fd (.served r status addr) ∧ l' = .made fd .idle := by
  cases h
  exact ⟨_, rfl, rfl⟩

/-- **What a move does to the service** is what a call does to the server: nothing to anybody
else. -/
theorem Move.undisturbed {s : ServerMng} (h : A.Move k l x l' c) (hs : s.Inv)
    (hv : s.view = A.chat) (hfits : ∀ r, l.owed = some r → r.Fits) :
    ∃ s' : ServerMng, s'.Inv ∧ s'.view = c ∧ ∀ fd, l.fd ≠ some fd → Undisturbed fd s s' := by
  have hserve : ∀ fd r, l.fd = some fd → l.owed = some r → ∃ s' : ServerMng, s'.Inv ∧
      s'.view = (A.chat.serve fd r).1 ∧ ∀ fd, l.fd ≠ some fd → Undisturbed fd s s' := by
    intro fd r hfd hr
    obtain ⟨msg, -, -, hparse⟩ := Request.parse_encode (hfits r hr)
    refine ⟨_, hs.step (.message fd msg []), ?_, fun d hd => undisturbed_step hs ?_⟩
    · rw [← hv]
      exact congrArg Prod.fst (message_eq_serve hs fd hparse)
    · rintro rfl
      exact hd hfd
  cases h with
  | serve => exact hserve _ _ rfl rfl
  | serveLeft => exact hserve _ _ rfl rfl
  | @hangUp fd owed =>
    refine ⟨_, hs.step (.disconnect fd []), ?_, fun d hd => undisturbed_step hs ?_⟩
    · rw [← hv]
      exact (onDisconnect_refines hs fd []).2 rfl
    · rintro rfl
      exact hd rfl
  | _ => exact ⟨s, hs, hv, fun fd _ => .refl hs fd⟩

variable [DecidableEq κ]

theorem Sound.step (h : A.Sound) (hstep : A.Step x A') : A'.Sound := by
  obtain ⟨k, hm, hrest⟩ := hstep.move
  obtain ⟨s, hs, hv⟩ := h.backed
  obtain ⟨s', hs', hv', hothers⟩ := hm.undisturbed hs hv fun r => h.fits
  have hfd : ∀ {k' fd}, (A'.line k').fd = some fd →
      (A.line k').fd = some fd ∨ k' = k ∧ A.Unused fd := by
    intro k' fd hk'
    by_cases hk : k' = k
    · subst hk
      exact (hm.fd hk').imp_right fun hun => ⟨rfl, hun⟩
    · rw [hrest k' hk] at hk'
      exact .inl hk'
  refine ⟨⟨s', hs', hv'⟩, fun {k₁ k₂ fd} h₁ h₂ => ?_, fun {k' r} hr => ?_, fun {fd n} hn => ?_⟩
  · obtain h₁ | ⟨rfl, hun⟩ := hfd h₁
    · obtain h₂ | ⟨rfl, hun⟩ := hfd h₂
      · exact h.distinct h₁ h₂
      · exact absurd h₁ (hun.2.2 k₁)
    · obtain h₂ | ⟨rfl, -⟩ := hfd h₂
      · exact absurd h₂ (hun.2.2 k₂)
      · rfl
  · by_cases hk : k' = k
    · subst hk
      exact (hm.owed hr).elim h.fits And.left
    · rw [hrest k' hk] at hr
      exact h.fits hr
  · by_cases hfd : (A.line k).fd = some fd
    · -- it is the session of the client whose step it is, unless it has just been ended
      refine ⟨k, ?_⟩
      generalize A.line k = l at hm hfd
      generalize A'.line k = l' at hm
      generalize hc : A'.chat = c at hm hn
      cases hm with
      | hangUp =>
        obtain rfl := Option.some.inj hfd
        rw [Chat.session_hangUp, Function.update_self] at hn
        exact absurd hn (by simp)
      | connect | accept | acceptLeft => exact absurd hfd (by simp [Line.fd])
      | _ => exact hfd
    · rw [← hv', (hothers fd hfd).session, hv] at hn
      obtain ⟨k', hk'⟩ := h.someone hn
      have hk : k' ≠ k := fun hk => hfd (hk ▸ hk')
      exact ⟨k', by rwa [hrest k' hk]⟩

end Atomic

end

/-! ## What a request that is served leads to -/

section
variable {s s' : ServerMng} {fd : Int} {r : Request} {n g : CStr} {p : McastPair}

/-- The session on `fd` is in `g`, whose address is `p`. -/
def Chat.Admits (c : Chat) (fd : Int) (g : CStr) (p : McastPair) : Prop :=
  ∃ n, c.session fd = some n ∧ g ∈ c.joined n ∧ c.held g = some p

theorem Chat.Admits.undisturbed (h : s.view.Admits fd g p) (hu : Undisturbed fd s s') :
    s'.view.Admits fd g p := by
  obtain ⟨n, hn, hg, hp⟩ := h
  exact ⟨n, hu.session.trans hn, (hu.joined hn).symm ▸ hg, (hu.held hn hg).trans hp⟩

/-- Only a LOGOUT ends a session. -/
theorem session_serve (hn : s.view.session fd = some n) (hr : r ≠ .logout) :
    (s.view.serve fd r).1.session fd = some n := by
  rw [Chat.serve]
  by_cases hv : s.view.verdict fd r = .ok
  · rw [if_pos hv]
    by_cases hin : ∃ m p, r = .login m p
    · obtain ⟨m, p, rfl⟩ := hin
      obtain ⟨i, u, hfd, hi, -⟩ := Chat.verdict_login_eq_ok.mp hv
      rw [Chat.session_of_fdIndex hfd, hi] at hn
      exact absurd hn (by simp)
    · rw [Chat.session_grant (fun m p hr => hin ⟨m, p, hr⟩) hr]
      exact hn
  · rw [if_neg hv]
    exact hn

/-- Only a LEAVE of the group, or a LOGOUT, takes a user out of it. -/
theorem joined_serve (hs : s.Inv) (hn : s.view.session fd = some n) (hout : r ≠ .logout)
    (hleave : r ≠ .leaveGroup g) (hg : g ∈ s.view.joined n) :
    g ∈ (s.view.serve fd r).1.joined n := by
  rw [Chat.serve]
  by_cases hv : s.view.verdict fd r = .ok
  · rw [if_pos hv]
    obtain ⟨u, hu, -⟩ := hs.sessions.user_of_session hn
    cases r with
    | register m q =>
      rw [Chat.joined_auth (.inl rfl) hv]
      exact hg
    | login m q =>
      rw [Chat.joined_auth (.inr rfl) hv]
      exact hg
    | logout => exact absurd rfl hout
    | createGroup g' =>
      rw [Chat.joined_enter hu hn (.inl rfl), Function.update_self]
      exact List.mem_append_left _ hg
    | joinGroup g' =>
      rw [Chat.joined_enter hu hn (.inr rfl), Function.update_self]
      exact List.mem_append_left _ hg
    | leaveGroup g' =>
      rw [Chat.joined_leave hu hn, Function.update_self]
      exact (List.mem_erase_of_ne fun hgg => hleave (by rw [hgg])).mpr hg
  · rw [if_neg hv]
    exact hg

/-- Serving a request is a step of the server. -/
theorem exists_serve (hs : s.Inv) (hr : r.Fits) :
    ∃ e : Event, e.sockfd = fd ∧ (s.step e).1.view = (s.view.serve fd r).1 := by
  obtain ⟨msg, -, -, hparse⟩ := Request.parse_encode hr
  exact ⟨.message fd msg [], rfl, congrArg Prod.fst (message_eq_serve hs fd hparse)⟩

theorem Chat.Admits.serve (h : s.view.Admits fd g p) (hs : s.Inv) (hr : r.Fits)
    (hout : r ≠ .logout) (hleave : r ≠ .leaveGroup g) : (s.view.serve fd r).1.Admits fd g p := by
  obtain ⟨n, hn, hg, hp⟩ := h
  have hg' := joined_serve hs hn hout hleave hg
  obtain ⟨e, -, he⟩ : ∃ e : Event, e.sockfd = fd ∧ _ := exists_serve hs hr
  have hg₁ := hg'
  rw [← he] at hg₁
  obtain ⟨p', hp'⟩ := exists_held (hs.step e) hg₁
  have hsame := (step_refines hs e).held hp hp'
  rw [he, hsame] at hp'
  exact ⟨n, session_serve hn hout, hg', hp'⟩

/-- A granted request that leads into a group is answered with the address of the group. -/
theorem admits_of_ok (hs : s.Inv) (hv : s.view.verdict fd r = .ok) (hg : r.enters = some g)
    (hp : s.view.address fd r = some p) : (s.view.serve fd r).1.Admits fd g p := by
  rw [Chat.address, if_pos hv, hg, Option.bind_some] at hp
  obtain ⟨n, hn, hsession, hjoined⟩ :=
    Chat.grant_enter hs.sessions (Request.enters_eq_some_iff.mp hg) hv
  refine ⟨n, ?_, ?_, hp⟩ <;> rw [Chat.serve, if_pos hv]
  · rw [hsession, hn]
  · rw [hjoined]
    exact List.mem_append_right _ (List.mem_singleton_self g)

theorem session_of_login {q : CStr} (hv : s.view.verdict fd (.login n q) = .ok) :
    (s.view.serve fd (.login n q)).1.session fd = some n := by
  rw [Chat.serve, if_pos hv, Chat.session_login hv, Function.update_self]

/-- Where there is a session after a request, it was there before, or has begun with it. -/
theorem session_of_serve {c : Chat} (hn : (c.serve fd r).1.session fd = some n) :
    c.session fd = some n ∧ r ≠ .logout ∨ ∃ q, r = .login n q ∧ c.verdict fd r = .ok := by
  rw [Chat.serve] at hn
  by_cases hv : c.verdict fd r = .ok
  · rw [if_pos hv] at hn
    by_cases hout : r = .logout
    · subst hout
      rw [Chat.grant, Chat.session_hangUp, Function.update_self] at hn
      exact absurd hn (by simp)
    by_cases hin : ∃ m q, r = .login m q
    · obtain ⟨m, q, rfl⟩ := hin
      rw [Chat.session_login hv, Function.update_self] at hn
      obtain rfl := Option.some.inj hn
      exact .inr ⟨q, rfl, hv⟩
    · rw [Chat.session_grant (fun m q hr => hin ⟨m, q, hr⟩) hout] at hn
      exact .inl ⟨hn, hout⟩
  · rw [if_neg hv] at hn
    refine .inl ⟨hn, ?_⟩
    rintro rfl
    obtain ⟨i, hfd, hi⟩ := Chat.session_eq_some_iff.mp hn
    exact hv (Chat.verdict_logout_eq_ok.mpr ⟨i, n, hfd, hi⟩)

end

/-! ## What a client knows -/

section
variable {κ : Type} {A : Atomic κ} {seen : List (Note κ)} {k : κ} {l l' : Line} {c c' : Chat}
  {x : Option (Note κ)} {s s' : ServerMng}

/-- What the client `k` has been told is so, in the state `c` of the service, with its own
connection at `l`. -/
structure Knows (seen : List (Note κ)) (k : κ) (l : Line) (c : Chat) : Prop where
  login : ∀ {n}, LoggedIn seen k n → ∃ fd call, l = .made (some fd) call ∧ c.session fd = some n ∧
    call ≠ .asked .logout
  group : ∀ {g p}, InGroup seen k g p → (∃ n, LoggedIn seen k n) ∧ ∃ fd call,
    l = .made (some fd) call ∧ c.Admits fd g p ∧ call ≠ .asked .logout ∧
    call ≠ .asked (.leaveGroup g)
  /-- So is what it is about to be told. -/
  served : ∀ {fd r addr}, l = .made fd (.served r .ok addr) → ∃ d, fd = some d ∧
    (∀ n q, r = .login n q → c.session d = some n) ∧
    ∀ g p, r.enters = some g → addr = some p → c.Admits d g p
  /-- The other way round: it knows of its session, unless it is just beginning or ending. -/
  session : ∀ {fd call n}, l = .made (some fd) call → c.session fd = some n →
    LoggedIn seen k n ∨ (∃ q addr, call = .served (.login n q) .ok addr) ∨ call = .asked .logout

/-- What others are told is not what this client is told. -/
theorem loggedIn_of_ne {y : Note κ} (hy : y.client ≠ k) {n : CStr} :
    LoggedIn (seen ++ [y]) k n ↔ LoggedIn seen k n := by
  rw [LoggedIn, since_concat]
  constructor
  · rintro (⟨p, addr, rfl⟩ | ⟨h, -⟩)
    · exact absurd rfl hy
    · exact h
  · refine fun h => .inr ⟨h, ?_⟩
    rintro (rfl | rfl) <;> exact hy rfl

theorem inGroup_of_ne {y : Note κ} (hy : y.client ≠ k) {g : CStr} {p : McastPair} :
    InGroup (seen ++ [y]) k g p ↔ InGroup seen k g p := by
  rw [InGroup, since_concat]
  constructor
  · rintro (⟨r, -, rfl⟩ | ⟨h, -⟩)
    · exact absurd rfl hy
    · exact h
  · refine fun h => .inr ⟨h, ?_⟩
    rintro (rfl | rfl | rfl) <;> exact hy rfl

/-- Steps of others leave it so. -/
theorem Knows.stays (h : Knows seen k l s.view) (hx : ∀ y ∈ x, y.client ≠ k)
    (hu : ∀ fd, l.fd = some fd → Undisturbed fd s s') : Knows (seen ++ x.toList) k l s'.view := by
  have hin : ∀ n, LoggedIn (seen ++ x.toList) k n ↔ LoggedIn seen k n := by
    intro n
    cases x with
    | none => rw [Option.toList_none, List.append_nil]
    | some y => exact loggedIn_of_ne (hx y rfl)
  have hgroup : ∀ g p, InGroup (seen ++ x.toList) k g p ↔ InGroup seen k g p := by
    intro g p
    cases x with
    | none => rw [Option.toList_none, List.append_nil]
    | some y => exact inGroup_of_ne (hx y rfl)
  constructor
  · intro n hn
    obtain ⟨fd, call, rfl, hs, hcall⟩ := h.login ((hin n).mp hn)
    exact ⟨fd, call, rfl, (hu fd rfl).session.trans hs, hcall⟩
  · intro g p hg
    obtain ⟨⟨n, hn⟩, fd, call, rfl, hs, hcall⟩ := h.group ((hgroup g p).mp hg)
    exact ⟨⟨n, (hin n).mpr hn⟩, fd, call, rfl, hs.undisturbed (hu fd rfl), hcall⟩
  · rintro fd r addr rfl
    obtain ⟨d, rfl, hlogin, henter⟩ := h.served rfl
    have hud := hu d rfl
    exact ⟨d, rfl, fun n q hr => hud.session.trans (hlogin n q hr),
      fun g p hg hp => (henter g p hg hp).undisturbed hud⟩
  · rintro fd call n rfl hn
    rw [(hu fd rfl).session] at hn
    rw [hin]
    exact h.session rfl hn

/-- A client without a session knows of none. -/
theorem Knows.of_not_made (hin : ∀ n, ¬ LoggedIn seen k n) (hgroup : ∀ g p, ¬ InGroup seen k g p)
    (hl : ∀ fd call, l = .made fd call → fd = none ∧ call = .idle) : Knows seen k l c where
  login hn := absurd hn (hin _)
  group hg := absurd hg (hgroup _ _)
  served hmade := absurd (hl _ _ hmade).2 (by simp)
  session hmade := absurd (hl _ _ hmade).1 (by simp)

theorem Knows.not_loggedIn (h : Knows seen k l c) (hl : ∀ fd call, l ≠ .made (some fd) call) :
    (∀ n, ¬ LoggedIn seen k n) ∧ ∀ g p, ¬ InGroup seen k g p := by
  constructor
  · intro n hn
    obtain ⟨fd, call, hmade, -⟩ := h.login hn
    exact hl fd call hmade
  · intro g p hg
    obtain ⟨-, fd, call, hmade, -⟩ := h.group hg
    exact hl fd call hmade

theorem Knows.ask {fd : Option Int} {r : Request} (h : Knows seen k (.made fd .idle) c) :
    Knows (seen ++ [.asked k r]) k (.made fd (.asked r)) c := by
  constructor
  · intro n hn
    obtain ⟨p, addr, hx⟩ | ⟨hn, hstop⟩ := since_concat.mp hn
    · exact absurd hx (by simp)
    obtain ⟨d, call, hmade, hs, -⟩ := h.login hn
    obtain ⟨rfl, rfl⟩ := Line.made.inj hmade
    exact ⟨d, _, rfl, hs, by rintro ⟨⟩; exact hstop (.inl rfl)⟩
  · intro g p hg
    obtain ⟨r', -, hx⟩ | ⟨hg, hstop⟩ := since_concat.mp hg
    · exact absurd hx (by simp)
    obtain ⟨⟨n, hn⟩, d, call, hmade, hs, -⟩ := h.group hg
    obtain ⟨rfl, rfl⟩ := Line.made.inj hmade
    have hout : r ≠ .logout := by
      rintro rfl
      exact hstop (.inr (.inl rfl))
    exact ⟨⟨n, since_concat.mpr (.inr ⟨hn, by simp [hout]⟩)⟩, d, _, rfl, hs, by simp [hout],
      by rintro ⟨⟩; exact hstop (.inl rfl)⟩
  · intro d r' addr hmade
    exact absurd (Line.made.inj hmade).2 (by simp)
  · intro d call n hmade hn
    obtain ⟨rfl, rfl⟩ := Line.made.inj hmade
    by_cases hout : r = .logout
    · exact .inr (.inr (by rw [hout]))
    · obtain hin | ⟨q, addr, hidle⟩ | hidle := h.session rfl hn
      · exact .inl (since_concat.mpr (.inr ⟨hin, by simp [hout]⟩))
      · exact absurd hidle (by simp)
      · exact absurd hidle (by simp)

theorem Knows.reject {fd : Option Int} {r : Request} (h : Knows seen k (.made fd .idle) c) :
    Knows (seen ++ [.rejected k r]) k (.made fd .idle) c := by
  have hin : ∀ n, LoggedIn (seen ++ [.rejected k r]) k n ↔ LoggedIn seen k n := fun n => by
    simp [LoggedIn, since_concat]
  have hgroup : ∀ g p, InGroup (seen ++ [.rejected k r]) k g p ↔ InGroup seen k g p := fun g p => by
    simp [InGroup, since_concat]
  refine ⟨fun hn => h.login ((hin _).mp hn), fun hg => ?_, h.served,
    fun hmade hn => (h.session hmade hn).imp_left (hin _).mpr⟩
  exact (h.group ((hgroup _ _).mp hg)).imp_left fun ⟨n, hn⟩ => ⟨n, (hin n).mpr hn⟩

theorem Knows.accept {call : Pending} {fd : Int} (h : Knows seen k (.made none call) c)
    (hfd : c.session fd = none) : Knows seen k (.made (some fd) call) c := by
  obtain ⟨hin, hgroup⟩ := h.not_loggedIn fun d call hmade => by simp at hmade
  constructor
  · exact fun hn => absurd hn (hin _)
  · exact fun hg => absurd hg (hgroup _ _)
  · intro d r addr hmade
    obtain ⟨-, rfl⟩ := Line.made.inj hmade
    obtain ⟨d', hd', -⟩ := h.served rfl
    exact absurd hd' (by simp)
  · intro d call' n hmade hn
    obtain ⟨hd, -⟩ := Line.made.inj hmade
    obtain rfl := Option.some.inj hd
    exact absurd (hfd.symm.trans hn) (by simp)

/-- **Being served.** -/
theorem Knows.serve {fd : Int} {r : Request} (h : Knows seen k (.made (some fd) (.asked r)) s.view)
    (hs : s.Inv) (hr : r.Fits) :
    Knows seen k (.made (some fd) (.served r (s.view.verdict fd r) (s.view.address fd r)))
      (s.view.serve fd r).1 := by
  constructor
  · intro n hn
    obtain ⟨d, call, hmade, hsession, hout⟩ := h.login hn
    obtain ⟨hd, rfl⟩ := Line.made.inj hmade
    obtain rfl := Option.some.inj hd
    exact ⟨fd, _, rfl, session_serve hsession fun hlogout => hout (by rw [hlogout]), by simp⟩
  · intro g p hg
    obtain ⟨hlogged, d, call, hmade, hin, hout, hleave⟩ := h.group hg
    obtain ⟨hd, rfl⟩ := Line.made.inj hmade
    obtain rfl := Option.some.inj hd
    exact ⟨hlogged, fd, _, rfl, hin.serve hs hr (fun hlogout => hout (by rw [hlogout]))
      (fun hlv => hleave (by rw [hlv])), by simp, by simp⟩
  · intro d r' addr hmade
    obtain ⟨rfl, hcall⟩ := Line.made.inj hmade
    obtain ⟨rfl, hv, rfl⟩ := Pending.served.inj hcall
    refine ⟨fd, rfl, ?_, fun g p hg hp => admits_of_ok hs hv hg hp⟩
    rintro n q rfl
    exact session_of_login hv
  · intro d call n hmade hn
    obtain ⟨hd, rfl⟩ := Line.made.inj hmade
    obtain rfl := Option.some.inj hd
    obtain ⟨hn, hout⟩ | ⟨q, rfl, hv⟩ := session_of_serve hn
    · obtain hin | ⟨q, addr, hasked⟩ | hasked := h.session rfl hn
      · exact .inl hin
      · exact absurd hasked (by simp)
      · exact absurd (Pending.asked.inj hasked) hout
    · exact .inr (.inl ⟨q, _, by rw [hv]⟩)

/-- **Being answered.** -/
theorem Knows.answer {fd : Option Int} {r : Request} {status : ChatStatus}
    {addr : Option McastPair} (h : Knows seen k (.made fd (.served r status addr)) c) :
    Knows (seen ++ [.answered k r status addr]) k (.made fd .idle) c := by
  constructor
  · intro n hn
    obtain ⟨q, addr', hx⟩ | ⟨hn, -⟩ := since_concat.mp hn
    · obtain ⟨-, rfl, rfl, rfl⟩ := Note.answered.inj hx
      obtain ⟨d, rfl, hlogin, -⟩ := h.served rfl
      exact ⟨d, _, rfl, hlogin n q rfl, by simp⟩
    · obtain ⟨d, call, hmade, hs, -⟩ := h.login hn
      obtain ⟨rfl, -⟩ := Line.made.inj hmade
      exact ⟨d, _, rfl, hs, by simp⟩
  · intro g p hg
    obtain ⟨r', henter, hx⟩ | ⟨hg, -⟩ := since_concat.mp hg
    · obtain ⟨-, rfl, rfl, rfl⟩ := Note.answered.inj hx
      obtain ⟨d, rfl, -, hgroup⟩ := h.served rfl
      have hin := hgroup g p henter rfl
      -- the session it has been let in with is one it had been told of before
      have ⟨n, hn, _⟩ := hin
      obtain hlogged | ⟨q, addr', hserved⟩ | hserved := h.session rfl hn
      · exact ⟨⟨n, since_concat.mpr (.inr ⟨hlogged, by simp⟩)⟩, d, _, rfl, hin, by simp, by simp⟩
      · obtain ⟨rfl, -⟩ := Pending.served.inj hserved
        exact absurd henter (by simp [Request.enters])
      · exact absurd hserved (by simp)
    · obtain ⟨⟨n, hn⟩, d, call, hmade, hs, -⟩ := h.group hg
      obtain ⟨rfl, -⟩ := Line.made.inj hmade
      exact ⟨⟨n, since_concat.mpr (.inr ⟨hn, by simp⟩)⟩, d, _, rfl, hs, by simp, by simp⟩
  · intro d r' addr' hmade
    exact absurd (Line.made.inj hmade).2 (by simp)
  · intro d call n hmade hn
    obtain ⟨rfl, rfl⟩ := Line.made.inj hmade
    obtain hin | ⟨q, addr', hserved⟩ | hserved := h.session rfl hn
    · exact .inl (since_concat.mpr (.inr ⟨hin, by simp⟩))
    · obtain ⟨rfl, rfl, rfl⟩ := Pending.served.inj hserved
      exact .inl (since_concat.mpr (.inl ⟨q, _, rfl⟩))
    · exact absurd hserved (by simp)

/-- Its own steps leave it so. -/
theorem Knows.move (h : Knows seen k l s.view) (hm : A.Move k l x l' c) (hs : s.Inv)
    (hv : s.view = A.chat) (hfits : ∀ r, l.owed = some r → r.Fits)
    (hfree : ∀ fd, A.Unused fd → s.view.session fd = none) :
    Knows (seen ++ x.toList) k l' c := by
  have hgone : (∀ fd call, l ≠ .made (some fd) call) →
      (∀ fd call, l' = .made fd call → fd = none ∧ call = .idle) →
      Knows (seen ++ (none : Option (Note κ)).toList) k l' c := by
    intro hl hl'
    obtain ⟨hin, hgroup⟩ := h.not_loggedIn hl
    rw [Option.toList_none, List.append_nil]
    exact .of_not_made hin hgroup hl'
  cases hm with
  | connect => exact hgone (by simp) (by simp)
  | ask => exact hv ▸ h.ask
  | reject => exact hv ▸ h.reject
  | accept hfd =>
    rw [Option.toList_none, List.append_nil]
    exact hv ▸ h.accept (hfree _ hfd)
  | acceptLeft | serveLeft | hangUp => exact hgone (by simp) (by simp)
  | serve =>
    rw [Option.toList_none, List.append_nil, ← hv]
    exact h.serve hs (hfits _ rfl)
  | answer => exact hv ▸ h.answer
  | leave =>
    refine .of_not_made (fun n hn => ?_) (fun g p hg => ?_) (by simp)
    · obtain ⟨q, addr, hx⟩ | ⟨-, hstop⟩ := since_concat.mp hn
      · exact absurd hx (by simp)
      · exact hstop (.inr rfl)
    · obtain ⟨r, -, hx⟩ | ⟨-, hstop⟩ := since_concat.mp hg
      · exact absurd hx (by simp)
      · exact hstop (.inr (.inr rfl))

end

/-! ## Passwords -/

section
variable {κ : Type} {A A' : Atomic κ} {seen : List (Note κ)} {k : κ} {l l' : Line} {c c' : Chat}
  {x : Option (Note κ)} {s : ServerMng} {fd : Int} {r : Request} {n p : CStr}

/-- The name and the password a request shows. -/
def Request.credentials : Request → Option (CStr × CStr)
  | .register n p | .login n p => some (n, p)
  | _ => none

/-- The note is a registration of `n` that succeeded. -/
def Note.Registers (n : CStr) : Note κ → Prop
  | .answered _ (.register m _) .ok _ => m = n
  | _ => False

/-- A password that is set stays. -/
theorem password_serve (h : c.password n = some p) :
    (c.serve fd r).1.password n = some p := by
  rw [Chat.serve]
  by_cases hv : c.verdict fd r = .ok
  · rw [if_pos hv]
    by_cases hr : ∃ m q, r = .register m q
    · obtain ⟨m, q, rfl⟩ := hr
      have hne : n ≠ m := by
        rintro rfl
        rw [Chat.password, Chat.verdict_register_eq_ok.mp hv] at h
        exact absurd h (by simp)
      rw [Chat.password_register, Function.update_of_ne hne]
      exact h
    · rw [Chat.password_grant fun m q hr' => hr ⟨m, q, hr'⟩]
      exact h
  · rw [if_neg hv]
    exact h

/-- Only a registration sets one. -/
theorem password_of_serve (h : (c.serve fd r).1.password n = some p) :
    c.password n = some p ∨ r = .register n p := by
  rw [Chat.serve] at h
  by_cases hv : c.verdict fd r = .ok
  · rw [if_pos hv] at h
    by_cases hr : ∃ m q, r = .register m q
    · obtain ⟨m, q, rfl⟩ := hr
      rw [Chat.password_register] at h
      by_cases hm : n = m
      · subst hm
        rw [Function.update_self, Option.some_inj] at h
        exact .inr (by rw [h])
      · rw [Function.update_of_ne hm] at h
        exact .inl h
    · rw [Chat.password_grant fun m q hr' => hr ⟨m, q, hr'⟩] at h
      exact .inl h
  · rw [if_neg hv] at h
    exact .inl h

/-- What a granted registration or login shows is the password there is then. -/
theorem password_of_ok (hv : c.verdict fd r = .ok) (hr : r.credentials = some (n, p)) :
    (c.serve fd r).1.password n = some p := by
  cases r with
  | register m q =>
    obtain ⟨rfl, rfl⟩ := Prod.mk.inj (Option.some.inj hr)
    rw [Chat.serve, if_pos hv, Chat.password_register, Function.update_self]
  | login m q =>
    obtain ⟨rfl, rfl⟩ := Prod.mk.inj (Option.some.inj hr)
    obtain ⟨i, u, -, -, hu, hp, -⟩ := Chat.verdict_login_eq_ok.mp hv
    exact password_serve (by rw [Chat.password, hu, Option.map_some, hp])
  | _ => exact absurd hr (by simp [Request.credentials])

/-- What has been seen of passwords is so. -/
structure Vouched (seen : List (Note κ)) (A : Atomic κ) : Prop where
  asked : ∀ {k r}, (A.line k).owed = some r → .asked k r ∈ seen
  /-- Each has been chosen by someone. -/
  chosen : ∀ {n p}, A.chat.password n = some p → ∃ k, .asked k (.register n p) ∈ seen
  answered : ∀ {k r addr n p}, .answered k r .ok addr ∈ seen → r.credentials = some (n, p) →
    A.chat.password n = some p
  served : ∀ {k fd r addr n p}, A.line k = .made fd (.served r .ok addr) →
    r.credentials = some (n, p) → A.chat.password n = some p
  /-- A name is registered once. -/
  once : seen.Pairwise fun x y => ∀ n, ¬ (x.Registers n ∧ y.Registers n)
  /-- So nobody is about to be told so again. -/
  told : ∀ {k fd n p addr}, A.line k = .made fd (.served (.register n p) .ok addr) →
    (∀ y ∈ seen, ¬ y.Registers n) ∧
    ∀ {k' fd' p' addr'}, A.line k' = .made fd' (.served (.register n p') .ok addr') → k' = k

theorem vouched_initial {al : Alloc} {mng : ServerMng} (h : ServerMng.init al = some mng) :
    Vouched [] (Atomic.initial κ mng) where
  asked := fun hr => absurd hr (by simp [Atomic.initial, Line.owed])
  chosen := fun {n p} hp => by
    obtain ⟨-, huser, -⟩ := init_spec h
    have hnone : mng.view.user n = none := congrFun huser n
    simp only [Atomic.initial, Chat.password, hnone] at hp
    exact absurd hp (by simp)
  answered := fun hx => absurd hx List.not_mem_nil
  served := fun hl => absurd hl (by simp [Atomic.initial])
  once := .nil
  told := fun hl => absurd hl (by simp [Atomic.initial])

section
variable (hm : A.Move k l x l' c)
include hm

theorem Atomic.Move.password (h : A.chat.password n = some p) : c.password n = some p := by
  cases hm with
  | serve | serveLeft => exact password_serve h
  | @hangUp fd =>
    rw [Chat.password_hangUp]
    exact h
  | _ => exact h

theorem Atomic.Move.password_of (h : c.password n = some p) :
    A.chat.password n = some p ∨ l.owed = some (.register n p) := by
  cases hm with
  | serve | serveLeft => exact (password_of_serve h).imp_right fun hr => by rw [hr]; rfl
  | @hangUp fd =>
    rw [Chat.password_hangUp] at h
    exact .inl h
  | _ => exact .inl h

end

theorem Note.registers_iff {y : Note κ} : y.Registers n ↔
    ∃ k p addr, y = .answered k (.register n p) .ok addr := by
  constructor
  · intro h
    unfold Registers at h
    split at h
    · subst h
      exact ⟨_, _, _, rfl⟩
    · exact h.elim
  · rintro ⟨k, p, addr, rfl⟩
    rfl

/-- The name of a registration that has succeeded is taken. -/
theorem Vouched.taken (h : Vouched seen A) {y : Note κ} (hy : y ∈ seen) (hn : y.Registers n) :
    A.chat.verdict fd (.register n p) ≠ .ok := by
  obtain ⟨k, q, addr, rfl⟩ := Note.registers_iff.mp hn
  have hp := h.answered hy rfl
  intro hv
  rw [Chat.password, Chat.verdict_register_eq_ok.mp hv] at hp
  exact absurd hp (by simp)

variable [DecidableEq κ]

theorem Vouched.step (h : Vouched seen A) (hstep : A.Step x A') :
    Vouched (seen ++ x.toList) A' := by
  obtain ⟨k, hm, hrest⟩ := hstep.move
  have hserved : ∀ {k' fd r addr}, A'.line k' = .made fd (.served r .ok addr) →
      (∃ fd, A.line k' = .made fd (.served r .ok addr)) ∨ k' = k ∧ ∃ d, x = none ∧
        A.chat.verdict d r = .ok ∧ A'.chat = (A.chat.serve d r).1 := by
    intro k' fd r addr hl
    by_cases hk : k' = k
    · subst hk
      obtain hold | ⟨d, -, hx, hv, hc⟩ := hm.served hl
      · exact .inl hold
      · exact .inr ⟨rfl, d, hx, hv, hc⟩
    · exact .inl ⟨fd, hrest k' hk ▸ hl⟩
  -- a success that is seen now is one the client was about to be told of
  have hseen : ∀ {k' r addr}, .answered k' r .ok addr ∈ x.toList → k' = k ∧
      (∃ fd, A.line k = .made fd (.served r .ok addr)) ∧ ∃ fd, A'.line k = .made fd .idle := by
    intro k' r addr hx
    rw [Option.mem_toList] at hx
    rw [hx] at hm
    obtain rfl := hm.client
    obtain ⟨fd, hl, hl'⟩ := hm.answered
    exact ⟨rfl, ⟨fd, hl⟩, fd, hl'⟩
  constructor
  · intro k' r hr
    by_cases hk : k' = k
    · subst hk
      obtain hold | ⟨-, rfl⟩ := hm.owed hr
      · exact List.mem_append_left _ (h.asked hold)
      · exact List.mem_append_right _ (List.mem_singleton_self _)
    · rw [hrest k' hk] at hr
      exact List.mem_append_left _ (h.asked hr)
  · intro n p hp
    obtain hp | hr := hm.password_of hp
    · obtain ⟨k', hk'⟩ := h.chosen hp
      exact ⟨k', List.mem_append_left _ hk'⟩
    · exact ⟨k, List.mem_append_left _ (h.asked hr)⟩
  · intro k' r addr n p hx hr
    rcases List.mem_append.mp hx with hx | hx
    · exact hm.password (h.answered hx hr)
    · obtain ⟨-, ⟨fd, hl⟩, -⟩ := hseen hx
      exact hm.password (h.served hl hr)
  · intro k' fd r addr n p hl hr
    obtain ⟨fd', hold⟩ | ⟨-, d, -, hv, hc⟩ := hserved hl
    · exact hm.password (h.served hold hr)
    · rw [hc]
      exact password_of_ok hv hr
  · refine List.pairwise_append.mpr ⟨h.once, ?_, ?_⟩
    · cases x with
      | none => exact .nil
      | some y => exact List.pairwise_singleton _ _
    · rintro y hy z hz n ⟨hyn, hzn⟩
      obtain ⟨k', q, addr, rfl⟩ := Note.registers_iff.mp hzn
      obtain ⟨-, ⟨fd, hl⟩, -⟩ := hseen hz
      exact (h.told hl).1 y hy hyn
  · intro k₁ fd n p addr hl
    refine ⟨fun y hy hyn => ?_, fun {k₂ fd' p' addr'} hl' => ?_⟩
    · rcases List.mem_append.mp hy with hy | hy
      · obtain ⟨fd', hold⟩ | ⟨-, d, -, hv, -⟩ := hserved hl
        · exact (h.told hold).1 y hy hyn
        · exact h.taken hy hyn hv
      · obtain ⟨k', q, addr', rfl⟩ := Note.registers_iff.mp hyn
        obtain ⟨-, ⟨fd', hk⟩, fd'', hidle⟩ := hseen hy
        obtain ⟨fd₁, hold⟩ | ⟨-, d, hx, -⟩ := hserved hl
        · have hsame := (h.told hold).2 hk
          subst hsame
          exact absurd (hidle.symm.trans hl) (by simp)
        · rw [hx] at hy
          exact absurd hy (by simp)
    · have hnew : ∀ {k fd q addr}, A.line k = .made fd (.served (.register n q) .ok addr) →
          ∀ d p, A.chat.verdict d (.register n p) ≠ .ok := by
        intro k fd q addr hk d p hv
        have hp := h.served hk rfl
        rw [Chat.password, Chat.verdict_register_eq_ok.mp hv] at hp
        exact absurd hp (by simp)
      obtain ⟨fd₁, h₁⟩ | ⟨rfl, d₁, -, hv₁, -⟩ := hserved hl
      · obtain ⟨fd₂, h₂⟩ | ⟨-, d₂, -, hv₂, -⟩ := hserved hl'
        · exact (h.told h₁).2 h₂
        · exact absurd hv₂ (hnew h₁ d₂ p')
      · obtain ⟨fd₂, h₂⟩ | ⟨rfl, -⟩ := hserved hl'
        · exact absurd hv₁ (hnew h₂ d₁ p)
        · rfl

end

/-! ## Whole runs -/

section
variable {κ ε : Type} [DecidableEq κ] {A A' : Atomic κ} {seen : List (Note κ)}

/-- What the clients know is so. -/
structure Informed (seen : List (Note κ)) (A : Atomic κ) : Prop where
  sound : A.Sound
  knows : ∀ k, Knows seen k (A.line k) A.chat
  vouched : Vouched seen A

theorem Informed.step {x : Option (Note κ)} (h : Informed seen A) (hstep : A.Step x A') :
    Informed (seen ++ x.toList) A' := by
  refine ⟨h.sound.step hstep, fun k => ?_, h.vouched.step hstep⟩
  obtain ⟨k', hm, hrest⟩ := hstep.move
  obtain ⟨s, hs, hv⟩ := h.sound.backed
  have hfits := fun r => h.sound.fits (k := k') (r := r)
  have hk := h.knows k
  rw [← hv] at hk
  by_cases hkk : k = k'
  · subst hkk
    refine hk.move hm hs hv hfits fun fd hun => ?_
    rw [hv]
    refine Option.eq_none_iff_forall_ne_some.mpr fun n hn => ?_
    obtain ⟨k', hk'⟩ := h.sound.someone hn
    exact hun.2.2 k' hk'
  · obtain ⟨s', hs', hv', hothers⟩ := hm.undisturbed hs hv hfits
    rw [hrest k hkk, ← hv']
    refine hk.stays ?_ fun fd hfd => hothers fd fun hfd' => hkk (h.sound.distinct hfd hfd')
    rintro y rfl
    rw [hm.client]
    exact Ne.symm hkk

theorem informed {al : Alloc} {mng : ServerMng} (h : ServerMng.init al = some mng)
    (hr : Runs Atomic.Step (.initial κ mng) seen A) : Informed seen A := by
  refine hr.history (R := Informed) (fun _ _ _ _ hi hstep => hi.step hstep) ?_
  exact ⟨Atomic.sound_initial h, fun k => .of_not_made (fun n => not_since_nil)
    (fun g p => not_since_nil) (by simp [Atomic.initial]), vouched_initial h⟩

end

/-! ## The theorems -/

namespace Network

section
variable {κ ε : Type} [DecidableEq κ] {al al' : Alloc} {mng : ServerMng}
  (hmng : ServerMng.init al = some mng) {listenFd : Int} (h0 : 0 ≤ listenFd) {opened : FdSet}
  (hopen : opened listenFd = true) {net : ServerNet}
  (hnet : ServerNet.create al' listenFd opened = some net) (os : Desktop ε) {N₀ N : Network κ ε}
  (h₀ : N₀.Initial net mng) {seen : List (Note κ)} (hr : Runs (Next os) N₀ seen N)
include hmng h0 hopen hnet h₀ hr

theorem exists_informed : ∃ A, Informed seen A := by
  obtain ⟨A, hrun, -⟩ := (simulation os).runs (refines_initial hmng h0 hopen hnet h₀) hr
  exact ⟨A, informed hmng hrun⟩

/-- **One client a name.**  In every run of the network, a client that has been told that it is
logged in, and has done nothing about it since, is the only one under its name, and has no other
name. -/
theorem one_client_per_name {k k' : κ} {n n' : CStr} (h : LoggedIn seen k n)
    (h' : LoggedIn seen k' n') : k = k' ↔ n = n' := by
  obtain ⟨A, hA⟩ := exists_informed hmng h0 hopen hnet os h₀ hr
  obtain ⟨s, hs, hv⟩ := hA.sound.backed
  obtain ⟨fd, call, hline, hn, -⟩ := (hA.knows k).login h
  obtain ⟨fd', call', hline', hn', -⟩ := (hA.knows k').login h'
  constructor
  · rintro rfl
    obtain ⟨hfd, -⟩ := Line.made.inj (hline.symm.trans hline')
    obtain rfl := Option.some.inj hfd
    exact Option.some.inj (hn.symm.trans hn')
  · rintro rfl
    obtain rfl := (hv ▸ hs.sessions).session_inj hn hn'
    exact hA.sound.distinct (show (A.line k).fd = some fd by rw [hline]; rfl)
      (by rw [hline']; rfl)

/-- **One address a group.**  In every run of the network, clients that have been let into groups,
and have done nothing about it since, have been told the same address exactly when it was the same
group: nobody's messages go astray, and nobody reads another group's.  And each of them has been
told that it is logged in. -/
theorem one_address_per_group {k k' : κ} {g g' : CStr} {p p' : McastPair}
    (h : InGroup seen k g p) (h' : InGroup seen k' g' p') :
    (g = g' ↔ p = p') ∧ (∃ n, LoggedIn seen k n) ∧ ∃ n, LoggedIn seen k' n := by
  obtain ⟨A, hA⟩ := exists_informed hmng h0 hopen hnet os h₀ hr
  obtain ⟨s, hs, hv⟩ := hA.sound.backed
  obtain ⟨hin, fd, call, -, ⟨n, -, -, hp⟩, -⟩ := (hA.knows k).group h
  obtain ⟨hin', fd', call', -, ⟨n', -, -, hp'⟩, -⟩ := (hA.knows k').group h'
  refine ⟨⟨?_, ?_⟩, hin, hin'⟩
  · rintro rfl
    exact Option.some.inj (hp.symm.trans hp')
  · rintro rfl
    exact (hv ▸ hs.addresses).held_inj hp hp'

/-- **Accounts.**  In every run of the network, a name is registered once; and whenever a login or a
registration succeeds, somebody has asked before to register just that name with just that password,
and no other password ever succeeds under the name. -/
theorem accounts : (seen.Pairwise fun x y => ∀ n, ¬ (x.Registers n ∧ y.Registers n)) ∧
    ∀ {k r addr n p before after}, seen = before ++ .answered k r .ok addr :: after →
      r.credentials = some (n, p) → (∃ k', .asked k' (.register n p) ∈ before) ∧
      ∀ {k' r' addr' p'}, .answered k' r' .ok addr' ∈ seen → r'.credentials = some (n, p') →
        p' = p := by
  obtain ⟨A, hrun, -⟩ := (simulation os).runs (refines_initial hmng h0 hopen hnet h₀) hr
  have hA := (informed hmng hrun).vouched
  refine ⟨hA.once, fun {k r addr n p before after} hseen hcred =>
    ⟨?_, fun {k' r' addr' p'} hx hr' => ?_⟩⟩
  · rw [hseen, List.append_cons] at hrun
    obtain ⟨A', hrun', -⟩ := hrun.of_append
    have hA' := (informed hmng hrun').vouched
    obtain ⟨k', hk'⟩ := hA'.chosen
      (hA'.answered (List.mem_append_right _ (List.mem_singleton_self _)) hcred)
    obtain hk' | hk' := List.mem_append.mp hk'
    · exact ⟨k', hk'⟩
    · exact absurd (List.mem_singleton.mp hk') (by simp)
  · have hp := hA.answered (hseen ▸ List.mem_append_right _ List.mem_cons_self) hcred
    exact Option.some.inj ((hA.answered hx hr').symm.trans hp)

end

end Network

/-! A run for all three: two clients register a name each and log in, one creates a group, and the
other one joins it. -/

/-- The calls of the two clients, and the passes in which the server serves them. -/
def meeting : List (Stride Nat) :=
  [.act (.connect 0), .act (.connect 1),
    .act (.ask 0 (.register (letter 97) (letter 98))), .act (.send 0 9),
    .act (.ask 1 (.register (letter 99) (letter 98))), .act (.send 1 9)] ++
  pass (fun fd => fd = 3) 4 0 ++ pass (fun fd => fd = 3 ∨ fd = 4) 5 1 ++
  [.act (.recv 0 9 []), .act (.recv 0 9 []),
    .act (.ask 0 (.login (letter 97) (letter 98))), .act (.send 0 9)] ++
  pass (fun fd => fd = 4 ∨ fd = 5) (-1) 2 ++
  [.act (.recv 0 9 []), .act (.recv 0 9 []),
    .act (.ask 0 (.createGroup (letter 103))), .act (.send 0 9),
    .act (.recv 1 9 []), .act (.recv 1 9 []),
    .act (.ask 1 (.login (letter 99) (letter 98))), .act (.send 1 9)] ++
  pass (fun fd => fd = 4 ∨ fd = 5) (-1) 2 ++
  [.act (.recv 0 9 []), .act (.recv 0 99 []), .act (.recv 1 9 []), .act (.recv 1 9 []),
    .act (.ask 1 (.joinGroup (letter 103))), .act (.send 1 9)] ++
  pass (fun fd => fd = 5) (-1) 2 ++ [.act (.recv 1 9 []), .act (.recv 1 99 [])]

/-- The first address of the pool. -/
def firstAddress : McastPair := ⟨⟨[50, 51, 57, 46, 49, 46, 49, 46, 49], by decide⟩, 6000⟩

/-- What the two see. -/
def meetingSeen : List (Note Nat) :=
  [.asked 0 (.register (letter 97) (letter 98)),
    .asked 1 (.register (letter 99) (letter 98)),
    .answered 0 (.register (letter 97) (letter 98)) .ok none,
    .asked 0 (.login (letter 97) (letter 98)),
    .answered 0 (.login (letter 97) (letter 98)) .ok none,
    .asked 0 (.createGroup (letter 103)),
    .answered 1 (.register (letter 99) (letter 98)) .ok none,
    .asked 1 (.login (letter 99) (letter 98)),
    .answered 0 (.createGroup (letter 103)) .ok (some firstAddress),
    .answered 1 (.login (letter 99) (letter 98)) .ok none,
    .asked 1 (.joinGroup (letter 103)),
    .answered 1 (.joinGroup (letter 103)) .ok (some firstAddress)]

theorem meeting_runs : ∃ mng N, ServerMng.init [] = some mng ∧
    Runs (Network.Next willing) (lobby mng) meetingSeen N := by
  have hrun : (ServerMng.init []).map (fun mng =>
      (decide (Machine.Along (Network.stride willing) Network.Strides (lobby mng) meeting),
        (Machine.trace (Network.stride willing) (lobby mng) meeting).flatMap fun x => x.2.toList)) =
      some (true, meetingSeen) := by
    decide +kernel
  obtain ⟨mng, hmng, hend⟩ := Option.map_eq_some_iff.mp hrun
  obtain ⟨hal, hseen⟩ := Prod.mk.inj hend
  have hruns := Network.runs_of_strides willing (lobby mng) (of_decide_eq_true hal)
  rw [hseen] at hruns
  exact ⟨mng, _, hmng, hruns⟩

theorem loggedIn_meeting : LoggedIn meetingSeen 0 (letter 97) ∧
    LoggedIn meetingSeen 1 (letter 99) := by
  have h₀ : ∀ z ∈ meetingSeen.drop 5, ¬ (z = .asked 0 .logout ∨ z = .left 0) := by decide
  have h₁ : ∀ z ∈ meetingSeen.drop 10, ¬ (z = .asked 1 .logout ∨ z = .left 1) := by decide
  constructor
  · show Since _ _ (meetingSeen.take 4 ++ _ :: meetingSeen.drop 5)
    exact since_of_forall ⟨_, _, rfl⟩ fun z hz _ => h₀ z hz
  · show Since _ _ (meetingSeen.take 9 ++ _ :: meetingSeen.drop 10)
    exact since_of_forall ⟨_, _, rfl⟩ fun z hz _ => h₁ z hz

theorem inGroup_meeting : InGroup meetingSeen 0 (letter 103) firstAddress ∧
    InGroup meetingSeen 1 (letter 103) firstAddress := by
  have h₀ : ∀ z ∈ meetingSeen.drop 9, ¬ (z = .asked 0 (.leaveGroup (letter 103)) ∨
      z = .asked 0 .logout ∨ z = .left 0) := by
    decide
  constructor
  · show Since _ _ (meetingSeen.take 8 ++ _ :: meetingSeen.drop 9)
    exact since_of_forall ⟨_, rfl, rfl⟩ fun z hz _ => h₀ z hz
  · show Since _ _ (meetingSeen.take 11 ++ _ :: [])
    exact since_of_forall ⟨_, rfl, rfl⟩ fun z hz => absurd hz List.not_mem_nil

/-- The server's side of the lobby. -/
theorem lobby_opened : (fun fd : Int => decide (0 ≤ fd ∧ fd ≤ 3)) 3 = true ∧
    ServerNet.create [] 3 (fun fd => 0 ≤ fd ∧ fd ≤ 3) = some firstNet := ⟨by decide, rfl⟩

/-- The two that meet are two, and have two names. -/
theorem Network.one_client_per_name_meeting :
    (0 : Nat) = 1 ↔ letter 97 = (letter 99) := by
  obtain ⟨mng, N, hmng, hruns⟩ := meeting_runs
  exact one_client_per_name hmng (show (0 : Int) ≤ 3 by decide) lobby_opened.1 lobby_opened.2
    willing (lobby_initial mng) hruns loggedIn_meeting.1 loggedIn_meeting.2

/-- They are in one group, and have been told one address. -/
theorem Network.one_address_per_group_meeting :
    (letter 103 = (letter 103) ↔ firstAddress = firstAddress) ∧
      (∃ n, LoggedIn meetingSeen 0 n) ∧ ∃ n, LoggedIn meetingSeen 1 n := by
  obtain ⟨mng, N, hmng, hruns⟩ := meeting_runs
  exact one_address_per_group hmng (show (0 : Int) ≤ 3 by decide) lobby_opened.1 lobby_opened.2
    willing (lobby_initial mng) hruns inGroup_meeting.1 inGroup_meeting.2

/-- The password the second one logs in with is the one it has chosen. -/
theorem Network.accounts_meeting : ∃ k, .asked k (.register (letter 99) (letter 98)) ∈
    meetingSeen.take 9 := by
  obtain ⟨mng, N, hmng, hruns⟩ := meeting_runs
  exact ((accounts hmng (show (0 : Int) ≤ 3 by decide) lobby_opened.1 lobby_opened.2
    willing (lobby_initial mng) hruns).2 (show meetingSeen = meetingSeen.take 9 ++
      .answered 1 (.login (letter 99) (letter 98)) .ok none :: meetingSeen.drop 10
      from rfl) rfl).1

end ChatProject
