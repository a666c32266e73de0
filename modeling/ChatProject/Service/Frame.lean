import ChatProject.Service.Addresses

/-!
# What a step of the service changes, and what it leaves alone

The frame of each move, one lemma per move and observation, and then of a whole step
(`Chat.Step.user_of_ne`, `Chat.Step.group_of_notMem`, `Chat.Step.held`,
`Chat.Step.of_no_session`).  The last section says exactly what a granted request does to the three
things that replies tell about: passwords, sessions and lists.
-/

set_option autoImplicit false

namespace ChatProject

namespace Chat

/-! ## The frame of each move -/

theorem countOut_group_of_ne (c : Chat) {g g' : CStr} (hne : g' ≠ g) :
    (c.countOut g).group g' = c.group g' := by
  rw [countOut]
  split
  · rfl
  · split
    · exact Function.update_of_ne hne ..
    · exact Function.update_of_ne hne ..

theorem foldl_countOut_group_of_notMem {g' : CStr} (l : List CStr) (c : Chat) (hg : g' ∉ l) :
    (l.foldl countOut c).group g' = c.group g' := by
  induction l generalizing c with
  | nil => rfl
  | cons g l ih =>
    rw [List.mem_cons, not_or] at hg
    rw [List.foldl_cons, ih _ hg.2, countOut_group_of_ne c hg.1]

/-- A group that is still there has the address it had. -/
theorem held_of_held_countOut (c : Chat) {g g' : CStr} {p : McastPair}
    (h : (c.countOut g).held g' = some p) : c.held g' = some p := by
  cases hg : c.group g with
  | none => rwa [countOut_of_none hg] at h
  | some gr =>
    by_cases hle : gr.memberCount ≤ 1
    · rw [countOut_of_last hg hle, held_update (c := c) (g := g) (x := none) rfl] at h
      by_cases hne : g' = g
      · rw [hne, Function.update_self] at h
        exact absurd h (by simp)
      · rwa [Function.update_of_ne hne] at h
    · rw [countOut_of_many hg (by omega),
        held_update_same (c := c) (g := g) rfl hg (Group.pair_countOut gr)] at h
      exact h

theorem held_of_held_foldl_countOut {g' : CStr} {p : McastPair} (l : List CStr) (c : Chat)
    (h : (l.foldl countOut c).held g' = some p) : c.held g' = some p := by
  induction l generalizing c with
  | nil => exact h
  | cons g l ih => exact held_of_held_countOut c (ih _ h)

/-! ## The frame of a step -/

/-- The groups a session's end concerns: those its user is in. -/
def groupsOf (c : Chat) (fd : Int) : Set CStr := {g | ∃ n, c.session fd = some n ∧ g ∈ c.joined n}

/-- The groups a call concerns: the one that is named in it, or for the end of a session those its
user is in. -/
def concerns (c : Chat) : ServerMng.Event → Set CStr
  | .disconnect fd _ => c.groupsOf fd
  | .message fd msg _ =>
    match Request.parse msg with
    | some .logout => c.groupsOf fd
    | some (.createGroup g) => {g}
    | some (.joinGroup g) => {g}
    | some (.leaveGroup g) => {g}
    | _ => ∅

theorem hangUp_user_of_ne {c : Chat} {fd : Int} {n : CStr} (hn : c.session fd ≠ some n) :
    (c.hangUp fd).user n = c.user n := by
  cases hs : c.session fd with
  | none => rw [hangUp_of_none hs]
  | some m =>
    obtain ⟨i, hfd, hi⟩ := session_eq_some_iff.mp hs
    rw [hangUp_of_session hfd hi]
    refine (Function.update_of_ne ?_ ..).trans (congrFun (foldl_countOut_user c _) n)
    rintro rfl
    exact hn hs

theorem hangUp_group_of_notMem {c : Chat} {fd : Int} {g : CStr} (hg : g ∉ c.groupsOf fd) :
    (c.hangUp fd).group g = c.group g := by
  cases hs : c.session fd with
  | none => rw [hangUp_of_none hs]
  | some m =>
    obtain ⟨i, hfd, hi⟩ := session_eq_some_iff.mp hs
    rw [hangUp_of_session hfd hi]
    exact foldl_countOut_group_of_notMem _ c fun hmem => hg ⟨m, hs, hmem⟩

theorem held_of_held_hangUp {c : Chat} {fd : Int} {g : CStr} {p : McastPair}
    (h : (c.hangUp fd).held g = some p) : c.held g = some p := by
  cases hs : c.session fd with
  | none => rwa [hangUp_of_none hs] at h
  | some m =>
    obtain ⟨i, hfd, hi⟩ := session_eq_some_iff.mp hs
    rw [hangUp_of_session hfd hi] at h
    exact held_of_held_foldl_countOut _ c h

section
variable {c : Chat} {fd : Int} {r : Request} (hv : c.verdict fd r = .ok)
include hv

/-- A granted request rewrites the record of the user of the descriptor, or registers a new one. -/
theorem grant_user_of_ne {n : CStr} {u : User} (hu : c.user n = some u)
    (hn : c.session fd ≠ some n) (hn' : (c.grant fd r).session fd ≠ some n) :
    (c.grant fd r).user n = some u := by
  have hsession : ∀ {m}, c.session fd = some m → n ≠ m := by
    rintro m hm rfl
    exact hn hm
  cases r with
  | register m p =>
    refine (Function.update_of_ne ?_ ..).trans hu
    rintro rfl
    rw [verdict_register_eq_ok.mp hv] at hu
    exact absurd hu (by simp)
  | login m p =>
    obtain ⟨i, v, hfd, -⟩ := verdict_login_eq_ok.mp hv
    rw [grant, hfd] at hn' ⊢
    refine (Function.update_of_ne ?_ ..).trans hu
    rintro rfl
    refine hn' ?_
    rw [session_of_fdIndex hfd]
    exact Function.update_self ..
  | logout => exact (hangUp_user_of_ne hn).trans hu
  | createGroup g =>
    obtain ⟨m, pair, rest, hm, -⟩ := verdict_createGroup_eq_ok.mp hv
    rw [grant_createGroup hm]
    exact (Function.update_of_ne (hsession hm) ..).trans ((congrFun (found_user c g) n).trans hu)
  | joinGroup g =>
    obtain ⟨m, gr, hm, -⟩ := verdict_joinGroup_eq_ok.mp hv
    rw [grant_joinGroup hm]
    exact (Function.update_of_ne (hsession hm) ..).trans hu
  | leaveGroup g =>
    obtain ⟨m, hm, -⟩ := verdict_leaveGroup_eq_ok.mp hv
    rw [grant_leaveGroup hm]
    exact (Function.update_of_ne (hsession hm) ..).trans ((congrFun (countOut_user c g) n).trans hu)

theorem grant_group_of_notMem {msg : List UInt8} {al : Alloc} (hp : Request.parse msg = some r)
    {g : CStr} (hg : g ∉ c.concerns (.message fd msg al)) :
    (c.grant fd r).group g = c.group g := by
  rw [concerns, hp] at hg
  cases r with
  | register m p => rfl
  | login m p =>
    obtain ⟨i, v, hfd, -⟩ := verdict_login_eq_ok.mp hv
    rw [grant, hfd]
    rfl
  | logout => exact hangUp_group_of_notMem hg
  | createGroup g' =>
    obtain ⟨m, pair, rest, hm, -, hfree⟩ := verdict_createGroup_eq_ok.mp hv
    rw [grant_createGroup hm, editUser_group, found_of_cons hfree]
    exact Function.update_of_ne hg ..
  | joinGroup g' =>
    obtain ⟨m, gr, hm, -⟩ := verdict_joinGroup_eq_ok.mp hv
    rw [grant_joinGroup hm, editUser_group]
    exact Function.update_of_ne hg ..
  | leaveGroup g' =>
    obtain ⟨m, hm, -⟩ := verdict_leaveGroup_eq_ok.mp hv
    rw [grant_leaveGroup hm, editUser_group, countOut_group_of_ne c hg]

/-- An address that a group has after a granted request it has had before, unless the request
founded the group. -/
theorem held_of_held_grant {g : CStr} {p : McastPair} (hr : r ≠ .createGroup g)
    (h : (c.grant fd r).held g = some p) : c.held g = some p := by
  cases r with
  | register m q => exact h
  | login m q =>
    obtain ⟨i, v, hfd, -⟩ := verdict_login_eq_ok.mp hv
    rw [grant, hfd] at h
    exact h
  | logout => exact held_of_held_hangUp h
  | createGroup g' =>
    obtain ⟨m, pair, rest, hm, hg, hfree⟩ := verdict_createGroup_eq_ok.mp hv
    have hne : g ≠ g' := fun heq => hr (by rw [heq])
    rwa [grant_createGroup hm, held_editUser, found_of_cons hfree,
      held_update (c := c) (g := g') (x := some ⟨g', pair.ip, pair.port, 1⟩) rfl,
      Function.update_of_ne hne] at h
  | joinGroup g' =>
    obtain ⟨m, gr, hm, hg, -⟩ := verdict_joinGroup_eq_ok.mp hv
    rwa [grant_joinGroup hm, held_editUser, countIn_of_some hg,
      held_update_same (c := c) (g := g') rfl hg (Group.pair_countIn gr)] at h
  | leaveGroup g' =>
    obtain ⟨m, hm, -⟩ := verdict_leaveGroup_eq_ok.mp hv
    rw [grant_leaveGroup hm, held_editUser] at h
    exact held_of_held_countOut c h

theorem grant_held {g : CStr} {p p' : McastPair} (h : c.held g = some p)
    (h' : (c.grant fd r).held g = some p') : p' = p := by
  have hr : r ≠ .createGroup g := by
    rintro rfl
    obtain ⟨m, pair, rest, -, hg, -⟩ := verdict_createGroup_eq_ok.mp hv
    rw [held, hg] at h
    exact absurd h (by simp)
  exact Option.some_inj.mp ((held_of_held_grant hv hr h').symm.trans h)

/-- Without a session only REG and LOGIN are granted, and these concern no group. -/
theorem grant_of_no_session (hs : c.session fd = none) :
    (c.grant fd r).group = c.group ∧ (c.grant fd r).free = c.free ∧
      (c.grant fd r).joined = c.joined := by
  cases r with
  | register m p =>
    refine ⟨rfl, rfl, ?_⟩
    rw [joined_update (c := c) (n := m) (u := ⟨m, p, .offline, -1, []⟩) rfl]
    exact Function.update_eq_iff.mpr
      ⟨(joined_of_none (verdict_register_eq_ok.mp hv)).symm, fun _ _ => rfl⟩
  | login m p =>
    obtain ⟨i, u, hfd, -, hu, -⟩ := verdict_login_eq_ok.mp hv
    rw [grant, hfd]
    refine ⟨rfl, rfl, ?_⟩
    refine (joined_update (c := c) (n := m) (u := u.bind fd) (editUser_user hu _)).trans ?_
    exact Function.update_eq_iff.mpr ⟨(joined_of_user hu).symm, fun _ _ => rfl⟩
  | logout =>
    obtain ⟨i, m, hfd, hi⟩ := verdict_logout_eq_ok.mp hv
    rw [session_of_fdIndex hfd, hi] at hs
    exact absurd hs (by simp)
  | createGroup g =>
    obtain ⟨m, pair, rest, hm, -⟩ := verdict_createGroup_eq_ok.mp hv
    rw [hm] at hs
    exact absurd hs (by simp)
  | joinGroup g =>
    obtain ⟨m, gr, hm, -⟩ := verdict_joinGroup_eq_ok.mp hv
    rw [hm] at hs
    exact absurd hs (by simp)
  | leaveGroup g =>
    obtain ⟨m, hm, -⟩ := verdict_leaveGroup_eq_ok.mp hv
    rw [hm] at hs
    exact absurd hs (by simp)

theorem not_returns_of_no_session (hs : c.session fd = none) : ¬ r.Returns := by
  cases r with
  | logout =>
    obtain ⟨i, m, hfd, hi⟩ := verdict_logout_eq_ok.mp hv
    rw [session_of_fdIndex hfd, hi] at hs
    exact absurd hs (by simp)
  | leaveGroup g =>
    obtain ⟨m, hm, -⟩ := verdict_leaveGroup_eq_ok.mp hv
    rw [hm] at hs
    exact absurd hs (by simp)
  | _ => exact id

end

section
variable {c c' : Chat} {e : ServerMng.Event} {sent : List Packet} (h : c.Step e c' sent)
include h

theorem Step.user_of_ne {n : CStr} {u : User} (hu : c.user n = some u)
    (hn : c.session e.sockfd ≠ some n) (hn' : c'.session e.sockfd ≠ some n) :
    c'.user n = some u := by
  cases h with
  | dropped hp => exact hu
  | @served fd msg al r c' sent hp ho =>
    cases ho with
    | refused hv => exact hu
    | granted hv hloss hal =>
      have hsession : c'.session fd = (c.grant fd r).session fd := by
        rw [session, session, hloss.sock]
      rw [hloss.user]
      exact grant_user_of_ne hv hu hn (hsession ▸ hn')
    | failed hv hal hfree hst => exact hu
  | idle hs => exact hu
  | hungUp hs hloss hal =>
    rw [hloss.user]
    exact (hangUp_user_of_ne hn).trans hu

theorem Step.group_of_notMem {g : CStr} (hg : g ∉ c.concerns e) : c'.group g = c.group g := by
  cases h with
  | dropped hp => rfl
  | served hp ho =>
    cases ho with
    | refused hv => rfl
    | granted hv hloss hal => rw [hloss.group, grant_group_of_notMem hv hp hg]
    | failed hv hal hfree hst => rfl
  | idle hs => rfl
  | hungUp hs hloss hal => rw [hloss.group, hangUp_group_of_notMem hg]

theorem Step.held {g : CStr} {p p' : McastPair} (hg : c.held g = some p)
    (hg' : c'.held g = some p') : p' = p := by
  have hsame : ∀ {d : Chat}, d.held g = c.held g → d.held g = some p' → p' = p :=
    fun hd hd' => Option.some_inj.mp (hd'.symm.trans (hd.trans hg))
  cases h with
  | dropped hp => exact hsame rfl hg'
  | served hp ho =>
    cases ho with
    | refused hv => exact hsame rfl hg'
    | granted hv hloss hal =>
      rw [held_congr hloss.group] at hg'
      exact grant_held hv hg hg'
    | failed hv hal hfree hst => exact hsame rfl hg'
  | idle hs => exact hsame rfl hg'
  | hungUp hs hloss hal =>
    rw [held_congr hloss.group] at hg'
    exact hsame (d := c) rfl (held_of_held_hangUp hg')

theorem Step.of_no_session (hs : c.session e.sockfd = none) :
    c'.group = c.group ∧ c'.free = c.free ∧ c'.joined = c.joined := by
  cases h with
  | dropped hp => exact ⟨rfl, rfl, rfl⟩
  | served hp ho =>
    cases ho with
    | refused hv => exact ⟨rfl, rfl, rfl⟩
    | granted hv hloss hal =>
      rw [hal (.inr (not_returns_of_no_session hv hs))]
      exact grant_of_no_session hv hs
    | failed hv hal hfree hst =>
      obtain rfl | ⟨g, pair, rest, rfl, -⟩ := hfree
      · exact ⟨rfl, rfl, rfl⟩
      · obtain ⟨m, pair, rest, hm, -⟩ := verdict_createGroup_eq_ok.mp hv
        exact absurd (hm.symm.trans hs) (by simp)
  | idle hs => exact ⟨rfl, rfl, rfl⟩
  | hungUp hn hloss hal => exact absurd (hn.symm.trans hs) (by simp)

end

/-! ## Passwords, sessions and lists -/

/-- The password of the user of a name. -/
def password (c : Chat) (n : CStr) : Option CStr := (c.user n).map User.password

theorem password_congr {c d : Chat} (h : c.user = d.user) : c.password = d.password := by
  funext n
  rw [password, password, h]

theorem password_editUser (c : Chat) (n : CStr) {f : User → User}
    (hf : ∀ u, (f u).password = u.password) : (c.editUser n f).password = c.password := by
  funext m
  simp only [password, editUser]
  by_cases hm : m = n
  · rw [hm, Function.update_self, Option.map_map]
    exact congrArg (Option.map · (c.user n)) (funext hf)
  · rw [Function.update_of_ne hm]

theorem password_hangUp (c : Chat) (fd : Int) : (c.hangUp fd).password = c.password := by
  cases hs : c.session fd with
  | none => rw [hangUp_of_none hs]
  | some m =>
    obtain ⟨i, hfd, hi⟩ := session_eq_some_iff.mp hs
    rw [hangUp_of_session hfd hi]
    refine (password_editUser _ m (f := User.unbind) fun _ => rfl).trans ?_
    exact password_congr (foldl_countOut_user c _)

/-- Registering sets the password of the new name. -/
theorem password_register (c : Chat) (fd : Int) (n p : CStr) :
    (c.grant fd (.register n p)).password = Function.update c.password n (some p) := by
  funext m
  simp only [password, grant]
  by_cases hm : m = n
  · rw [hm, Function.update_self, Function.update_self, Option.map_some]
  · rw [Function.update_of_ne hm, Function.update_of_ne hm]
    rfl

/-- Nothing else sets a password. -/
theorem password_grant {c : Chat} {fd : Int} {r : Request} (hr : ∀ n p, r ≠ .register n p) :
    (c.grant fd r).password = c.password := by
  cases r with
  | register n p => exact absurd rfl (hr n p)
  | login n p =>
    rw [grant]
    split
    · rfl
    · exact password_editUser c n (f := User.bind fd) fun _ => rfl
  | logout => exact password_hangUp c fd
  | createGroup g =>
    rw [grant]
    split
    · rfl
    · next m _ =>
      rw [password_editUser _ m (f := User.addGroup g) fun _ => rfl]
      exact password_congr (found_user c g)
  | joinGroup g =>
    rw [grant]
    split
    · rfl
    · next m _ => exact password_editUser _ m (f := User.addGroup g) fun _ => rfl
  | leaveGroup g =>
    rw [grant]
    split
    · rfl
    · next m _ =>
      rw [password_editUser _ m (f := User.dropGroup g) fun _ => rfl]
      exact password_congr (countOut_user c g)

theorem session_congr {c d : Chat} (h : c.sock = d.sock) : c.session = d.session := by
  funext fd
  rw [session, session, h]

theorem session_update {c d : Chat} {fd : Int} {i : Fin fdSetSize} {x : Option CStr}
    (hfd : fdIndex fd = some i) (h : d.sock = Function.update c.sock i x) :
    d.session = Function.update c.session fd x := by
  funext fd'
  by_cases hfd' : fd' = fd
  · rw [hfd', Function.update_self, session_of_fdIndex hfd, h, Function.update_self]
  · rw [Function.update_of_ne hfd']
    cases hi : fdIndex fd' with
    | none => rw [session_of_badFd hi, session_of_badFd hi]
    | some j =>
      have hj : j ≠ i := by
        rintro rfl
        exact hfd' ((fdIndex_eq_some_iff.mp hi).trans (fdIndex_eq_some_iff.mp hfd).symm)
      rw [session_of_fdIndex hi, session_of_fdIndex hi, h, Function.update_of_ne hj]

theorem session_hangUp (c : Chat) (fd : Int) :
    (c.hangUp fd).session = Function.update c.session fd none := by
  cases hs : c.session fd with
  | none => rw [hangUp_of_none hs, ← hs, Function.update_eq_self]
  | some m =>
    obtain ⟨i, hfd, hi⟩ := session_eq_some_iff.mp hs
    rw [hangUp_of_session hfd hi]
    exact session_update hfd rfl

theorem session_login {c : Chat} {fd : Int} {n p : CStr}
    (hv : c.verdict fd (.login n p) = .ok) :
    (c.grant fd (.login n p)).session = Function.update c.session fd (some n) := by
  obtain ⟨i, u, hfd, -⟩ := verdict_login_eq_ok.mp hv
  rw [grant, hfd]
  exact session_update hfd rfl

/-- Only LOGIN and LOGOUT change a session. -/
theorem session_grant {c : Chat} {fd : Int} {r : Request} (hin : ∀ n p, r ≠ .login n p)
    (hout : r ≠ .logout) : (c.grant fd r).session = c.session := by
  apply session_congr
  cases r with
  | register n p => rfl
  | login n p => exact absurd rfl (hin n p)
  | logout => exact absurd rfl hout
  | createGroup g =>
    rw [grant]
    split
    · rfl
    · rw [editUser_sock, found_sock]
  | joinGroup g =>
    rw [grant]
    split <;> rfl
  | leaveGroup g =>
    rw [grant]
    split
    · rfl
    · rw [editUser_sock, countOut_sock]

section
variable {c : Chat} {fd : Int} {n : CStr} {u : User}

theorem joined_hangUp (hu : c.user n = some u) (hn : c.session fd = some n) :
    (c.hangUp fd).joined = Function.update c.joined n [] := by
  obtain ⟨i, hfd, hi⟩ := session_eq_some_iff.mp hn
  rw [hangUp_of_session hfd hi]
  refine joined_update (c := c) (u := u.unbind) ?_
  refine (editUser_user (u := u) (by rw [foldl_countOut_user, hu]) User.unbind).trans ?_
  rw [foldl_countOut_user]

/-- Ending a session clears the list of its user, and no other. -/
theorem mem_joined_hangUp (hs : c.Sessions) {g : CStr} :
    g ∈ (c.hangUp fd).joined n ↔ g ∈ c.joined n ∧ c.session fd ≠ some n := by
  cases hn : c.session fd with
  | none => simp [hangUp_of_none hn]
  | some m =>
    obtain ⟨u, hu, -⟩ := hs.user_of_session hn
    rw [joined_hangUp hu hn]
    by_cases hm : n = m
    · simp [hm]
    · simp [hm, Ne.symm hm]

/-- Entering a group puts it at the end of the user's list. -/
theorem joined_enter (hu : c.user n = some u) (hn : c.session fd = some n) {g : CStr} {r : Request}
    (hr : r = .createGroup g ∨ r = .joinGroup g) :
    (c.grant fd r).joined = Function.update c.joined n (c.joined n ++ [g]) := by
  rw [joined_of_user hu]
  refine joined_update (c := c) (u := u.addGroup g) ?_
  rcases hr with rfl | rfl
  · rw [grant_createGroup hn, editUser_user (u := u) (by rw [found_user, hu]), found_user]
  · rw [grant_joinGroup hn, editUser_user (c := c.countIn g) hu, countIn_user]

/-- What entering a group comes to: the sessions stay, and the user of this one is in the group. -/
theorem grant_enter (hs : c.Sessions) {g : CStr} {r : Request}
    (hr : r = .createGroup g ∨ r = .joinGroup g) (hv : c.verdict fd r = .ok) :
    ∃ n, c.session fd = some n ∧ (c.grant fd r).session = c.session ∧
      (c.grant fd r).joined n = c.joined n ++ [g] := by
  have hn : ∃ n, c.session fd = some n := by
    rcases hr with rfl | rfl
    · obtain ⟨n, _, _, hn, -⟩ := verdict_createGroup_eq_ok.mp hv
      exact ⟨n, hn⟩
    · obtain ⟨n, _, hn, -⟩ := verdict_joinGroup_eq_ok.mp hv
      exact ⟨n, hn⟩
  obtain ⟨n, hn⟩ := hn
  obtain ⟨u, hu, -⟩ := hs.user_of_session hn
  refine ⟨n, hn, ?_, by rw [joined_enter hu hn hr, Function.update_self]⟩
  rcases hr with rfl | rfl <;> exact session_grant (by simp) (by simp)

theorem joined_leave (hu : c.user n = some u) (hn : c.session fd = some n) (g : CStr) :
    (c.grant fd (.leaveGroup g)).joined = Function.update c.joined n ((c.joined n).erase g) := by
  rw [joined_of_user hu, grant_leaveGroup hn]
  exact joined_update (c := c) (u := u.dropGroup g) (leave_user hu g)

/-- Registering and logging in concern no list. -/
theorem joined_auth {p : CStr} {r : Request} (hr : r = .register n p ∨ r = .login n p)
    (hv : c.verdict fd r = .ok) : (c.grant fd r).joined = c.joined := by
  rcases hr with rfl | rfl
  · refine (joined_update (c := c) (n := n) (u := ⟨n, p, .offline, -1, []⟩) rfl).trans ?_
    exact Function.update_eq_iff.mpr
      ⟨(joined_of_none (verdict_register_eq_ok.mp hv)).symm, fun _ _ => rfl⟩
  · obtain ⟨i, v, hfd, -, hv', -⟩ := verdict_login_eq_ok.mp hv
    rw [grant, hfd]
    refine (joined_update (c := c) (n := n) (u := v.bind fd) (editUser_user hv' _)).trans ?_
    exact Function.update_eq_iff.mpr ⟨(joined_of_user hv').symm, fun _ _ => rfl⟩

end

/-! ## The peer of a descriptor -/

theorem addressee_sendReply {fd : Int} {rep : Option (List UInt8)} {p : Packet}
    (h : p ∈ sendReply fd rep) : p.1 = fd := by
  cases rep with
  | none => exact absurd h List.not_mem_nil
  | some buf =>
    rw [sendReply, sendMessage] at h
    split at h
    · exact absurd h List.not_mem_nil
    · rw [List.mem_singleton.mp h]

section
variable {c c' : Chat} {e : ServerMng.Event} {sent : List Packet} (h : c.Step e c' sent)
include h

/-- A call is answered on its own descriptor only. -/
theorem Step.addressee {p : Packet} (hp : p ∈ sent) : p.1 = e.sockfd := by
  cases h with
  | dropped hr => exact absurd hp List.not_mem_nil
  | served hr ho =>
    cases ho with
    | refused hv => exact addressee_sendReply hp
    | granted hv hloss hal => exact addressee_sendReply hp
    | failed hv hal hfree hst => exact addressee_sendReply hp
  | idle hs => exact absurd hp List.not_mem_nil
  | hungUp hs hloss hal => exact absurd hp List.not_mem_nil

/-- A call concerns the session on its own descriptor only. -/
theorem Step.session_of_ne {fd : Int} (hfd : fd ≠ e.sockfd) : c'.session fd = c.session fd := by
  cases h with
  | dropped hr => rfl
  | @served fd' msg al r c' sent hr ho =>
    cases ho with
    | refused hv => rfl
    | granted hv hloss hal =>
      rw [session_congr hloss.sock]
      cases r with
      | login n p => rw [session_login hv]; exact Function.update_of_ne hfd _ _
      | logout => rw [grant, session_hangUp]; exact Function.update_of_ne hfd _ _
      | _ => rw [session_grant (by simp) (by simp)]
    | failed hv hal hfree hst => rfl
  | idle hs => rfl
  | @hungUp fd' al n c' hs hloss hal =>
    rw [session_congr hloss.sock, session_hangUp]
    exact Function.update_of_ne hfd _ _

end

/-- Nobody is logged in on two descriptors. -/
theorem Sessions.session_inj {c : Chat} (h : c.Sessions) {fd fd' : Int} {n : CStr}
    (hfd : c.session fd = some n) (hfd' : c.session fd' = some n) : fd = fd' := by
  obtain ⟨i, hi, hn⟩ := session_eq_some_iff.mp hfd
  obtain ⟨j, hj, hn'⟩ := session_eq_some_iff.mp hfd'
  rw [fdIndex_eq_some_iff.mp hi, fdIndex_eq_some_iff.mp hj, h.sock_inj hn hn']

end Chat

end ChatProject
