import ChatProject.Server.Membership
import ChatProject.Service.Frame

/-!
# The server as its clients see it

A client knows nothing of the managers.  What it can know is the history: which frames came on which
descriptors, which connections were lost, and which replies were sent.  This file defines from the
history alone who is registered, who is logged in where, who is in which group and which address a
group has, and proves that the replies are what these four relations say.

* `Granted`, `Ends`, `Drops`, `Tells` — what one entry of the history tells.
* `Registered`, `HasSession`, `Member`, `Told` — what the history as a whole tells.
* `Mirrors` — the server's state is what the history tells (`mirrors_reachable`).
* `authentication_law`, `group_law` — hence so are its replies.
-/

set_option autoImplicit false

namespace ChatProject

open ServerMng Machine

/-! ## One entry -/

/-- A call on the server, and what was sent while it was served. -/
abbrev Entry := Event × List Packet

/-- The request `r` on `fd` was answered `ST_OK` there. -/
def Granted (fd : Int) (r : Request) (x : Entry) : Prop :=
  ∃ msg al, x.1 = .message fd msg al ∧ Request.parse msg = some r ∧
    answer fd r.repOpcode x.2 = some .ok

/-- The connection `fd` was lost. -/
def Drops (fd : Int) (x : Entry) : Prop := ∃ al, x.1 = .disconnect fd al

/-- There was a LOGOUT on `fd`, or the connection was lost. -/
def Ends (fd : Int) (x : Entry) : Prop :=
  (∃ msg al, x.1 = .message fd msg al ∧ Request.parse msg = some .logout) ∨ Drops fd x

/-- The user on `fd` was let into `g`. -/
def LetIn (fd : Int) (g : CStr) (x : Entry) : Prop :=
  Granted fd (.createGroup g) x ∨ Granted fd (.joinGroup g) x

/-- The user on `fd` was let into `g`, and the reply told it the address `p`. -/
def Tells (fd : Int) (g : CStr) (p : McastPair) (x : Entry) : Prop :=
  ∃ r, (r = .createGroup g ∨ r = .joinGroup g) ∧ Granted fd r x ∧
    answerPair fd r.repOpcode x.2 = some p

/-! ## The whole history -/

/-- A registration of `n` with password `p` was answered `ST_OK`. -/
def Registered (tr : List Entry) (n p : CStr) : Prop := ∃ x ∈ tr, ∃ fd, Granted fd (.register n p) x

/-- A LOGIN of `n` on `fd` was answered `ST_OK`, and since then `fd` has had no LOGOUT and has not
been lost. -/
def HasSession (tr : List Entry) (fd : Int) (n : CStr) : Prop :=
  Since (fun _ x => ∃ p, Granted fd (.login n p) x) (fun _ x => Ends fd x) tr

/-- The user `n` was let into `g` on its socket, and since then has not had a LEAVE of `g` or a
LOGOUT answered `ST_OK` there, nor lost it. -/
def Member (tr : List Entry) (n g : CStr) : Prop :=
  Since (fun before x => ∃ fd, HasSession before fd n ∧ LetIn fd g x)
    (fun before x => ∃ fd, HasSession before fd n ∧
      (Granted fd (.leaveGroup g) x ∨ Granted fd .logout x ∨ Drops fd x)) tr

/-- A reply that let someone into `g` carried the address `p`, and since then `g` has had a member
all along. -/
def Told (tr : List Entry) (g : CStr) (p : McastPair) : Prop :=
  Since (fun _ x => ∃ fd, Tells fd g p x)
    (fun before x => ¬ ∃ n, Member (before ++ [x]) n g) tr

theorem registered_concat {tr : List Entry} {x : Entry} {n p : CStr} :
    Registered (tr ++ [x]) n p ↔ Registered tr n p ∨ ∃ fd, Granted fd (.register n p) x := by
  constructor
  · rintro ⟨y, hy, h⟩
    rcases List.mem_append.mp hy with hy | hy
    · exact .inl ⟨y, hy, h⟩
    · exact .inr (List.mem_singleton.mp hy ▸ h)
  · rintro (⟨y, hy, h⟩ | h)
    · exact ⟨y, List.mem_append_left _ hy, h⟩
    · exact ⟨x, List.mem_append_right _ (List.mem_singleton_self x), h⟩

/-! ## What the service does at an entry -/

/-- The calls a history law is about: no allocation fails, and frames come on real descriptors. -/
def Clean : Event → Prop
  | .message fd _ al => 0 ≤ fd ∧ al = []
  | .disconnect _ al => al = []

/-- How an entry is read, and what the service does at it. -/
inductive Read (c : Chat) (x : Entry) : Chat → Prop
  /-- Nothing was granted, and nothing has changed. -/
  | nothing (hnot : ∀ fd r, ¬ Granted fd r x) (hdrop : ∀ fd, ¬ Drops fd x)
    (hends : ∀ fd, Ends fd x → c.session fd = none) : Read c x c
  /-- One request was granted. -/
  | granted {fd : Int} {r : Request} (hv : c.verdict fd r = .ok)
    (hgranted : ∀ fd' r', Granted fd' r' x ↔ fd' = fd ∧ r' = r) (hdrop : ∀ fd', ¬ Drops fd' x)
    (hends : ∀ fd', Ends fd' x ↔ fd' = fd ∧ r = .logout)
    (hpair : ∀ g, r = .createGroup g ∨ r = .joinGroup g →
      answerPair fd r.repOpcode x.2 = (c.grant fd r).held g) : Read c x (c.grant fd r)
  /-- A connection was lost. -/
  | dropped {fd : Int} (hnot : ∀ fd' r, ¬ Granted fd' r x)
    (hdrop : ∀ fd', Drops fd' x ↔ fd' = fd) (hends : ∀ fd', Ends fd' x ↔ fd' = fd) :
    Read c x (c.hangUp fd)

theorem granted_message {fd fd' : Int} {msg : List UInt8} {al : Alloc} {sent : List Packet}
    {r r' : Request} (hp : Request.parse msg = some r) :
    Granted fd' r' (.message fd msg al, sent) ↔
      fd' = fd ∧ r' = r ∧ answer fd r.repOpcode sent = some .ok := by
  constructor
  · rintro ⟨msg', al', hm, hp', hans⟩
    rw [Event.message.injEq] at hm
    obtain ⟨rfl, rfl, rfl⟩ := hm
    rw [hp, Option.some_inj] at hp'
    subst hp'
    exact ⟨rfl, rfl, hans⟩
  · rintro ⟨rfl, rfl, hans⟩
    exact ⟨msg, al, rfl, hp, hans⟩

theorem not_drops_message {fd fd' : Int} {msg : List UInt8} {al : Alloc} {sent : List Packet} :
    ¬ Drops fd' (.message fd msg al, sent) := by
  rintro ⟨al', h⟩
  exact absurd h (by simp)

theorem ends_message {fd fd' : Int} {msg : List UInt8} {al : Alloc} {sent : List Packet} :
    Ends fd' (.message fd msg al, sent) ↔ fd' = fd ∧ Request.parse msg = some .logout := by
  constructor
  · rintro (⟨msg', al', hm, hp⟩ | hdrop)
    · rw [Event.message.injEq] at hm
      obtain ⟨rfl, rfl, -⟩ := hm
      exact ⟨rfl, hp⟩
    · exact absurd hdrop not_drops_message
  · rintro ⟨rfl, hp⟩
    exact .inl ⟨msg, al, rfl, hp⟩

theorem read_disconnect (c : Chat) (fd : Int) (al : Alloc) (sent : List Packet) :
    Read c (.disconnect fd al, sent) (c.hangUp fd) := by
  have hnot : ∀ fd' msg al', Event.disconnect fd al ≠ .message fd' msg al' := by simp
  have hdrop : ∀ fd', Drops fd' (.disconnect fd al, sent) ↔ fd' = fd := by
    intro fd'
    constructor
    · rintro ⟨al', h⟩
      rw [Event.disconnect.injEq] at h
      exact h.1.symm
    · rintro rfl
      exact ⟨al, rfl⟩
  refine .dropped ?_ hdrop fun fd' => ?_
  · rintro fd' r ⟨msg, al', h, -⟩
    exact hnot _ _ _ h
  · constructor
    · rintro (⟨msg, al', h, -⟩ | h)
      · exact absurd h (hnot _ _ _)
      · exact (hdrop fd').mp h
    · exact fun h => .inr ((hdrop fd').mpr h)

/-- **Every call reads as what it did.** -/
theorem read_step {s : ServerMng} (h : s.Inv) {e : Event} (he : Clean e) :
    Read s.view (e, (s.step e).2) (s.step e).1.view := by
  cases e with
  | disconnect fd al =>
    rw [show (s.step (.disconnect fd al)).1.view = s.view.hangUp fd from
      (onDisconnect_refines h fd al).2 he]
    exact read_disconnect ..
  | message fd msg al =>
    obtain ⟨hfd, rfl⟩ := he
    cases hp : Request.parse msg with
    | none =>
      rw [(message_of_no_request h hp).1]
      refine .nothing ?_ (fun _ => not_drops_message) fun fd' hends => ?_
      · rintro fd' r ⟨msg', al', hm, hp', -⟩
        rw [Event.message.injEq] at hm
        rw [← hm.2.1, hp] at hp'
        exact absurd hp' (by simp)
      · have hlogout := (ends_message.mp hends).2
        rw [hp] at hlogout
        exact absurd hlogout (by simp)
    | some r =>
      have hans := answer_message h hfd hp
      have hserve := message_eq_serve h fd hp
      rw [Chat.serve] at hserve
      by_cases hv : s.view.verdict fd r = .ok
      · rw [if_pos hv, Prod.mk.injEq] at hserve
        rw [hserve.1]
        refine .granted hv (fun fd' r' => ?_) (fun _ => not_drops_message) (fun fd' => ?_) ?_
        · rw [granted_message hp, hans, hv]
          simp
        · rw [ends_message, hp, Option.some_inj]
        · intro g hg
          obtain ⟨gr, frame, hgr, -, -, hsend, -, hpair⟩ := Chat.okReply_group h.addresses hfd hg hv
          rw [hserve.2, hsend, hpair, Chat.held_of_group hgr]
      · rw [if_neg hv, Prod.mk.injEq] at hserve
        rw [hserve.1]
        refine .nothing (fun fd' r' => ?_) (fun _ => not_drops_message) fun fd' hends => ?_
        · rw [granted_message hp, hans, Option.some_inj]
          exact fun hg => hv hg.2.2
        · rw [ends_message, hp, Option.some_inj] at hends
          obtain ⟨rfl, rfl⟩ := hends
          refine Option.eq_none_iff_forall_ne_some.mpr fun n hn => hv ?_
          obtain ⟨i, hi, hsock⟩ := Chat.session_eq_some_iff.mp hn
          exact Chat.verdict_logout_eq_ok.mpr ⟨i, n, hi, hsock⟩

/-! ## One entry more -/

section
variable {c c' : Chat} {x : Entry} (h : Read c x c')
include h

theorem Read.password {n p : CStr} :
    c'.password n = some p ↔ c.password n = some p ∨ ∃ fd, Granted fd (.register n p) x := by
  cases h with
  | nothing hnot hdrop hends => simp [hnot]
  | @granted fd r hv hgranted hdrop hends hpair =>
    simp only [hgranted]
    by_cases hr : ∃ m q, r = .register m q
    · obtain ⟨m, q, rfl⟩ := hr
      have hnew : c.password m = none := by
        rw [Chat.password, Chat.verdict_register_eq_ok.mp hv, Option.map_none]
      rw [Chat.password_register]
      by_cases hm : n = m
      · rw [hm, Function.update_self, hnew]
        simp [eq_comm]
      · rw [Function.update_of_ne hm]
        simp [hm]
    · rw [not_exists] at hr
      rw [Chat.password_grant fun m q hmq => hr m ⟨q, hmq⟩]
      refine ⟨.inl, fun hor => hor.resolve_right ?_⟩
      rintro ⟨fd', -, rfl⟩
      exact hr n ⟨p, rfl⟩
  | dropped hnot hdrop hends =>
    rw [Chat.password_hangUp]
    simp [hnot]

theorem Read.session {fd : Int} {n : CStr} :
    c'.session fd = some n ↔
      (∃ p, Granted fd (.login n p) x) ∨ c.session fd = some n ∧ ¬ Ends fd x := by
  cases h with
  | nothing hnot hdrop hends =>
    simp only [hnot, exists_const, false_or]
    refine ⟨fun hn => ⟨hn, fun he => ?_⟩, fun hn => hn.1⟩
    rw [hends fd he] at hn
    exact absurd hn (by simp)
  | @granted fd₀ r hv hgranted hdrop hends hpair =>
    simp only [hgranted, hends]
    by_cases hin : ∃ m q, r = .login m q
    · obtain ⟨m, q, rfl⟩ := hin
      obtain ⟨i, u, hfd, hfree, -⟩ := Chat.verdict_login_eq_ok.mp hv
      rw [Chat.session_login hv]
      by_cases hfd' : fd = fd₀
      · rw [hfd', Function.update_self, Chat.session_of_fdIndex hfd, hfree]
        simp [eq_comm]
      · rw [Function.update_of_ne hfd']
        simp [hfd']
    · have hin' : ∀ m q, r ≠ .login m q := fun m q hmq => hin ⟨m, q, hmq⟩
      have hno : ¬ ∃ q, fd = fd₀ ∧ Request.login n q = r := by
        rintro ⟨q, -, hq⟩
        exact hin' n q hq.symm
      by_cases hout : r = .logout
      · subst hout
        rw [Chat.grant, Chat.session_hangUp]
        by_cases hfd' : fd = fd₀
        · rw [hfd', Function.update_self]
          simp
        · rw [Function.update_of_ne hfd']
          simp [hfd']
      · rw [Chat.session_grant hin' hout]
        simp [hno, hout]
  | @dropped fd₀ hnot hdrop hends =>
    rw [Chat.session_hangUp]
    simp only [hnot, hends, exists_const, false_or]
    by_cases hfd' : fd = fd₀
    · rw [hfd', Function.update_self]
      simp
    · rw [Function.update_of_ne hfd']
      simp [hfd']

/-- A name is on a list when its user has been let in, and has not left. -/
theorem Read.joined (hs : c.Sessions) (hb : c.Books) {n g : CStr} :
    g ∈ c'.joined n ↔
      (∃ fd, c.session fd = some n ∧ LetIn fd g x) ∨
        g ∈ c.joined n ∧ ¬ ∃ fd, c.session fd = some n ∧
          (Granted fd (.leaveGroup g) x ∨ Granted fd .logout x ∨ Drops fd x) := by
  cases h with
  | nothing hnot hdrop hends => simp [LetIn, hnot, hdrop]
  | @dropped fd₀ hnot hdrop hends =>
    rw [Chat.mem_joined_hangUp hs]
    simp [LetIn, hnot, hdrop]
  | @granted fd₀ r hv hgranted hdrop hends hpair =>
    simp only [LetIn, hgranted, hdrop, or_false]
    cases r with
    | register m q => simp [Chat.joined_auth (.inl rfl) hv]
    | login m q => simp [Chat.joined_auth (.inr rfl) hv]
    | logout =>
      rw [Chat.grant, Chat.mem_joined_hangUp hs]
      simp
    | createGroup g₀ =>
      obtain ⟨m, pair, rest, hm, -⟩ := Chat.verdict_createGroup_eq_ok.mp hv
      obtain ⟨u, hu, -⟩ := hs.user_of_session hm
      rw [Chat.joined_enter hu hm (.inl rfl)]
      by_cases hn : n = m
      · simp [hn, hm, or_comm]
      · simp [hn, hm, Ne.symm hn]
    | joinGroup g₀ =>
      obtain ⟨m, gr, hm, -⟩ := Chat.verdict_joinGroup_eq_ok.mp hv
      obtain ⟨u, hu, -⟩ := hs.user_of_session hm
      rw [Chat.joined_enter hu hm (.inr rfl)]
      by_cases hn : n = m
      · simp [hn, hm, or_comm]
      · simp [hn, hm, Ne.symm hn]
    | leaveGroup g₀ =>
      obtain ⟨m, hm, -⟩ := Chat.verdict_leaveGroup_eq_ok.mp hv
      obtain ⟨u, hu, -⟩ := hs.user_of_session hm
      rw [Chat.joined_leave hu hm]
      by_cases hn : n = m
      · simp [hn, hm, (hb.nodup m).mem_erase_iff, and_comm]
      · simp [hn, hm, Ne.symm hn]

/-- A group has the address that was told, as long as it lasts. -/
theorem Read.held {g : CStr} {p : McastPair} :
    c'.held g = some p ↔
      (∃ fd, Tells fd g p x) ∨ c.held g = some p ∧ c'.group g ≠ none := by
  have hkeep : ∀ {d : Chat}, (∀ q q', c.held g = some q → d.held g = some q' → q' = q) →
      c.held g = some p → d.group g ≠ none → d.held g = some p := by
    intro d hsame hp hg
    obtain ⟨gr, hgr⟩ := Option.ne_none_iff_exists'.mp hg
    have hd := Chat.held_of_group hgr
    rw [hd, hsame p _ hp hd]
  have hgroup : ∀ {d : Chat}, d.held g = some p → d.group g ≠ none := by
    intro d hd
    obtain ⟨gr, hgr, -⟩ := Chat.held_eq_some_iff.mp hd
    rw [hgr]
    exact Option.some_ne_none gr
  cases h with
  | nothing hnot hdrop hends =>
    simp only [Tells, hnot, false_and, and_false, exists_false, false_or]
    exact ⟨fun hp => ⟨hp, hgroup hp⟩, fun hp => hp.1⟩
  | dropped hnot hdrop hends =>
    simp only [Tells, hnot, false_and, and_false, exists_false, false_or]
    refine ⟨fun hp => ⟨Chat.held_of_held_hangUp hp, hgroup hp⟩, fun hp => ?_⟩
    refine hkeep (fun q q' hq hq' => ?_) hp.1 hp.2
    exact Option.some_inj.mp ((Chat.held_of_held_hangUp hq').symm.trans hq)
  | @granted fd₀ r hv hgranted hdrop hends hpair =>
    have htells : (∃ fd, Tells fd g p x) ↔
        (r = .createGroup g ∨ r = .joinGroup g) ∧ answerPair fd₀ r.repOpcode x.2 = some p := by
      simp only [Tells, hgranted]
      constructor
      · rintro ⟨fd, r', hr, ⟨rfl, rfl⟩, hp⟩
        exact ⟨hr, hp⟩
      · rintro ⟨hr, hp⟩
        exact ⟨fd₀, r, hr, ⟨rfl, rfl⟩, hp⟩
    rw [htells]
    by_cases hr : r = .createGroup g ∨ r = .joinGroup g
    · rw [hpair g hr]
      exact ⟨fun hp => .inl ⟨hr, hp⟩, fun hp =>
        hp.elim And.right fun hp => hkeep (fun q q' => Chat.grant_held hv) hp.1 hp.2⟩
    · simp only [hr, false_and, false_or]
      rw [not_or] at hr
      exact ⟨fun hp => ⟨Chat.held_of_held_grant hv hr.1 hp, hgroup hp⟩,
        fun hp => hkeep (fun q q' => Chat.grant_held hv) hp.1 hp.2⟩

/-- Whoever is let into a group is told its address. -/
theorem Read.tells {fd : Int} {g : CStr} (hin : LetIn fd g x) : ∃ p, Tells fd g p x := by
  cases h with
  | nothing hnot hdrop hends => exact absurd hin (by simp [LetIn, hnot])
  | dropped hnot hdrop hends => exact absurd hin (by simp [LetIn, hnot])
  | @granted fd₀ r hv hgranted hdrop hends hpair =>
    have hr : fd = fd₀ ∧ (r = .createGroup g ∨ r = .joinGroup g) := by
      simp only [LetIn, hgranted, ← and_or_left] at hin
      exact ⟨hin.1, hin.2.imp Eq.symm Eq.symm⟩
    obtain ⟨rfl, hr⟩ := hr
    obtain ⟨gr, hgr⟩ := Chat.exists_group_of_grant hr hv
    exact ⟨gr.pair, r, hr, (hgranted fd r).mpr ⟨rfl, rfl⟩,
      (hpair g hr).trans (Chat.held_of_group hgr)⟩

end

/-! ## The state is what the history tells -/

/-- The server's state, read off the history. -/
structure Mirrors (s : ServerMng) (tr : List Entry) : Prop where
  /-- The invariants of the state. -/
  inv : s.Inv
  /-- Users and their passwords. -/
  registered : ∀ {n p}, s.view.password n = some p ↔ Registered tr n p
  /-- Sessions. -/
  session : ∀ {fd n}, s.view.session fd = some n ↔ HasSession tr fd n
  /-- Lists of groups. -/
  member : ∀ {n g}, g ∈ s.view.joined n ↔ Member tr n g
  /-- Addresses of groups. -/
  told : ∀ {g p}, s.view.held g = some p ↔ Told tr g p
  /-- Nobody was let into a group without being told its address. -/
  tells : ∀ x ∈ tr, ∀ fd g, LetIn fd g x → ∃ p, Tells fd g p x

namespace Mirrors

variable {s : ServerMng} {tr : List Entry}

theorem user_ne_none_iff (h : Mirrors s tr) {n : CStr} :
    s.view.user n ≠ none ↔ ∃ p, Registered tr n p := by
  have hpassword : s.view.password n = none ↔ s.view.user n = none := Option.map_eq_none_iff
  rw [Ne, ← hpassword, ← Ne, Option.ne_none_iff_exists']
  exact exists_congr fun p => h.registered

theorem session_ne_none_iff (h : Mirrors s tr) {fd : Int} :
    s.view.session fd ≠ none ↔ ∃ n, HasSession tr fd n := by
  rw [Option.ne_none_iff_exists']
  exact exists_congr fun n => h.session

theorem group_ne_none_iff (h : Mirrors s tr) {g : CStr} :
    s.view.group g ≠ none ↔ ∃ n, Member tr n g := by
  rw [← h.inv.books.members_nonempty_iff]
  exact exists_congr fun n => h.member

theorem held_ne_none_iff (h : Mirrors s tr) {g : CStr} :
    s.view.group g ≠ none ↔ ∃ p, Told tr g p := by
  have hheld : s.view.held g = none ↔ s.view.group g = none := Option.map_eq_none_iff
  rw [Ne, ← hheld, ← Ne, Option.ne_none_iff_exists']
  exact exists_congr fun p => h.told

end Mirrors

theorem Mirrors.step {s : ServerMng} {tr : List Entry} (h : Mirrors s tr) {e : Event}
    (he : Clean e) : Mirrors (s.step e).1 (tr ++ [(e, (s.step e).2)]) := by
  have hread := read_step h.inv he
  have hinv := h.inv.step e
  have hmember : ∀ {n g}, g ∈ (s.step e).1.view.joined n ↔
      Member (tr ++ [(e, (s.step e).2)]) n g := by
    intro n g
    rw [hread.joined h.inv.sessions h.inv.books, Member, since_concat, h.member]
    simp only [h.session]
    rfl
  refine ⟨hinv, ?_, ?_, hmember, ?_, ?_⟩
  · intro n p
    rw [hread.password, registered_concat, h.registered]
  · intro fd n
    rw [hread.session, HasSession, since_concat, h.session]
    rfl
  · intro g p
    rw [hread.held, Told, since_concat, h.told, ← hinv.books.members_nonempty_iff, not_not]
    refine or_congr Iff.rfl (and_congr Iff.rfl (exists_congr fun n => hmember))
  · intro x hx fd g hin
    rcases List.mem_append.mp hx with hx | hx
    · exact h.tells x hx fd g hin
    · rw [List.mem_singleton.mp hx] at hin ⊢
      exact hread.tells hin

theorem mirrors_init {s₀ : ServerMng} (h₀ : ServerMng.init [] = some s₀) : Mirrors s₀ [] := by
  obtain ⟨-, huser, hsock, hgroup, -⟩ := init_spec h₀
  refine ⟨inv_init h₀, ?_, ?_, ?_, ?_, fun x hx => absurd hx List.not_mem_nil⟩
  · intro n p
    rw [Chat.password, huser]
    simp [Registered]
  · intro fd n
    have hnone : s₀.view.session fd = none := by
      rw [Chat.session, hsock]
      cases fdIndex fd <;> rfl
    rw [hnone]
    simp [HasSession, not_since_nil]
  · intro n g
    rw [Chat.joined_of_none (congrFun huser n)]
    simp [Member, not_since_nil]
  · intro g p
    rw [Chat.held, hgroup]
    simp [Told, not_since_nil]

/-- **Every reachable state is what the history tells.** -/
theorem mirrors_reachable {s₀ : ServerMng} (h₀ : ServerMng.init [] = some s₀) {es : List Event}
    (hes : ∀ e ∈ es, Clean e) : Mirrors (s₀.run es) (trace ServerMng.step s₀ es) :=
  run_history (R := Mirrors) (fun _ _ _ he h => h.step he) hes (mirrors_init h₀)

/-! ## The laws -/

/-- **The authentication law.**  After any history without allocation failure: a REG of `n` is
answered `ST_OK` if none was before, and *user exists* otherwise; and a LOGIN of `n` with `p` on a
descriptor is answered, in this order, *already logged in* if the descriptor carries a session,
*user not found* if `n` was never registered, *bad password* if `p` is not the password it was
registered with, *already logged in* if another descriptor carries a session of `n`, and `ST_OK`
otherwise. -/
theorem authentication_law {s₀ : ServerMng} (h₀ : ServerMng.init [] = some s₀) {es : List Event}
    (hes : ∀ e ∈ es, Clean e) {fd : Int} (hfd : 0 ≤ fd) (msg : List UInt8) :
    let tr := trace ServerMng.step s₀ es
    let reply := fun op => answer fd op ((s₀.run es).step (.message fd msg [])).2
    (∀ n p, Request.parse msg = some (.register n p) →
      ((¬ ∃ q, Registered tr n q) → reply .regRep = some .ok) ∧
      ((∃ q, Registered tr n q) → reply .regRep = some .errUserExists)) ∧
    (∀ n q q', Registered tr n q → Registered tr n q' → q = q') ∧
    (∀ n p, Request.parse msg = some (.login n p) → fd < fdSetSize →
      ((∃ m, HasSession tr fd m) → reply .loginRep = some .errAlreadyLoggedIn) ∧
      ((¬ ∃ m, HasSession tr fd m) →
        ((¬ ∃ q, Registered tr n q) → reply .loginRep = some .errUserNotFound) ∧
        (∀ q, Registered tr n q →
          (q ≠ p → reply .loginRep = some .errBadPassword) ∧
          (q = p →
            ((∃ fd', fd' ≠ fd ∧ HasSession tr fd' n) →
              reply .loginRep = some .errAlreadyLoggedIn) ∧
            ((¬ ∃ fd', fd' ≠ fd ∧ HasSession tr fd' n) → reply .loginRep = some .ok))))) := by
  intro tr reply
  have h : Mirrors (s₀.run es) tr := mirrors_reachable h₀ hes
  refine ⟨fun n p hp => ?_, fun n q q' hq hq' => ?_, fun n p hp hfd' => ?_⟩
  · have hreply : reply .regRep = _ := answer_message h.inv hfd hp
    rw [hreply, ← h.user_ne_none_iff, Chat.verdict]
    refine ⟨fun hnot => by rw [if_pos (not_not.mp hnot)], fun hex => by rw [if_neg hex]⟩
  · rw [← h.registered] at hq hq'
    rw [hq, Option.some_inj] at hq'
    exact hq'
  · have hreply : reply .loginRep = _ := answer_message h.inv hfd hp
    obtain ⟨i, hi⟩ := exists_fdIndex hfd hfd'
    rw [hreply, ← h.session_ne_none_iff, Chat.session_of_fdIndex hi, ← h.user_ne_none_iff]
    refine ⟨fun hbusy => ?_, fun hidle => ⟨fun hnot => ?_, fun q hq => ?_⟩⟩
    · obtain ⟨m, hm⟩ := Option.ne_none_iff_exists'.mp hbusy
      rw [Chat.verdict_login_of_busy hi hm]
    · rw [Chat.verdict_login_of_unknown hi (not_not.mp hidle) (not_not.mp hnot)]
    · obtain ⟨u, hu, rfl⟩ := Option.map_eq_some_iff.mp (h.registered.mpr hq)
      rw [Chat.verdict_login_of_known hi (not_not.mp hidle) hu]
      refine ⟨fun hne => by rw [if_pos hne], fun heq => ⟨?_, fun hnone => ?_⟩⟩
      · rintro ⟨fd', -, hs⟩
        rw [if_neg (not_not_intro heq), if_pos]
        obtain ⟨v, hv, hon⟩ := h.inv.sessions.user_of_session (h.session.mpr hs)
        rw [hu, Option.some_inj] at hv
        exact hv ▸ hon
      · rw [if_neg (not_not_intro heq), if_neg]
        intro hon
        obtain ⟨j, hj⟩ := h.inv.sessions.online hu hon
        refine hnone ⟨((j : Nat) : Int), ?_, h.session.mp ?_⟩
        · intro hfdj
          rw [← hfdj, fdIndex_natCast, Option.some_inj] at hi
          rw [hi] at hj
          exact hidle (by rw [hj]; exact Option.some_ne_none n)
        · rw [Chat.session_of_fdIndex (fdIndex_natCast j), hj]

/-- After `firstGroup`, with `a` logged in on descriptor 4: a second REG of `a`, and on descriptor 5
LOGINs of a name that nobody has registered, of `a` with another password, and of `a`; on
descriptor 4 one more LOGIN.  After a LOGOUT there, descriptor 5 gets in. -/
theorem authentication_law_firstGroup :
    ∃ s₀, ServerMng.init [] = some s₀ ∧
      Registered (trace ServerMng.step s₀ firstGroup) ⟨[97], by decide⟩ ⟨[98], by decide⟩ ∧
      HasSession (trace ServerMng.step s₀ firstGroup) 4 ⟨[97], by decide⟩ ∧
      answer 5 .regRep ((s₀.run firstGroup).step (.message 5 [1, 4, 1, 97, 1, 99] [])).2 =
        some .errUserExists ∧
      answer 5 .loginRep ((s₀.run firstGroup).step (.message 5 [3, 4, 1, 98, 1, 98] [])).2 =
        some .errUserNotFound ∧
      answer 5 .loginRep ((s₀.run firstGroup).step (.message 5 [3, 4, 1, 97, 1, 99] [])).2 =
        some .errBadPassword ∧
      answer 5 .loginRep ((s₀.run firstGroup).step (.message 5 [3, 4, 1, 97, 1, 98] [])).2 =
        some .errAlreadyLoggedIn ∧
      answer 4 .loginRep ((s₀.run firstGroup).step (.message 4 [3, 4, 1, 97, 1, 98] [])).2 =
        some .errAlreadyLoggedIn ∧
      answer 5 .loginRep ((s₀.run (firstGroup ++ [.message 4 [5, 0] []])).step
        (.message 5 [3, 4, 1, 97, 1, 98] [])).2 = some .ok := by
  have hrun : (ServerMng.init []).map (fun s =>
      ((s.run firstGroup).view.password ⟨[97], by decide⟩,
        (s.run firstGroup).view.password ⟨[98], by decide⟩,
        (s.run firstGroup).view.session 4, (s.run firstGroup).view.session 5)) =
      some (some ⟨[98], by decide⟩, none, some ⟨[97], by decide⟩, none) := by
    decide +kernel
  have hrun' : (ServerMng.init []).map (fun s =>
      ((s.run (firstGroup ++ [.message 4 [5, 0] []])).view.session 5,
        ((s.run (firstGroup ++ [.message 4 [5, 0] []])).view.user ⟨[97], by decide⟩).map
          fun u => (u.password, u.state))) =
      some (none, some (⟨[98], by decide⟩, .offline)) := by
    decide +kernel
  obtain ⟨s₀, h₀, hend⟩ := Option.map_eq_some_iff.mp hrun
  simp only [Prod.mk.injEq] at hend
  obtain ⟨ha, hb, h4, h5⟩ := hend
  rw [h₀, Option.map_some, Option.some_inj, Prod.mk.injEq] at hrun'
  obtain ⟨h5', ha'⟩ := hrun'
  have hes : ∀ e ∈ firstGroup, Clean e := by simp [firstGroup, Clean]
  have hes' : ∀ e ∈ firstGroup ++ [.message 4 [5, 0] []], Clean e := by simp [firstGroup, Clean]
  have h := mirrors_reachable h₀ hes
  have h' := mirrors_reachable h₀ hes'
  have hreg := h.registered.mp ha
  have hnot : ¬ ∃ q, Registered (trace ServerMng.step s₀ firstGroup) ⟨[98], by decide⟩ q := by
    rintro ⟨q, hq⟩
    exact absurd (hb.symm.trans (h.registered.mpr hq)) (by simp)
  have hses := h.session.mp h4
  have hidle : ¬ ∃ m, HasSession (trace ServerMng.step s₀ firstGroup) 5 m :=
    fun hex => h.session_ne_none_iff.mpr hex h5
  have law := fun (fd : Int) (hfd : 0 ≤ fd) msg => authentication_law h₀ hes hfd msg
  refine ⟨s₀, h₀, hreg, hses, ?_, ?_, ?_, ?_, ?_, ?_⟩
  · exact ((law 5 (by decide) [1, 4, 1, 97, 1, 99]).1 ⟨[97], by decide⟩ ⟨[99], by decide⟩
      (by decide)).2 ⟨_, hreg⟩
  · exact (((law 5 (by decide) [3, 4, 1, 98, 1, 98]).2.2 ⟨[98], by decide⟩ ⟨[98], by decide⟩
      (by decide) (by decide)).2 hidle).1 hnot
  · exact ((((law 5 (by decide) [3, 4, 1, 97, 1, 99]).2.2 ⟨[97], by decide⟩ ⟨[99], by decide⟩
      (by decide) (by decide)).2 hidle).2 _ hreg).1 (by decide)
  · exact (((((law 5 (by decide) [3, 4, 1, 97, 1, 98]).2.2 ⟨[97], by decide⟩ ⟨[98], by decide⟩
      (by decide) (by decide)).2 hidle).2 _ hreg).2 rfl).1 ⟨4, by decide, hses⟩
  · exact ((law 4 (by decide) [3, 4, 1, 97, 1, 98]).2.2 ⟨[97], by decide⟩ ⟨[98], by decide⟩
      (by decide) (by decide)).1 ⟨_, hses⟩
  · obtain ⟨u, hu, hstate⟩ := Option.map_eq_some_iff.mp ha'
    rw [Prod.mk.injEq] at hstate
    have hreg' := h'.registered.mp (Option.map_eq_some_iff.mpr ⟨u, hu, hstate.1⟩)
    have h0 : (0 : Int) ≤ 5 := by decide
    refine (((((authentication_law h₀ hes' h0 [3, 4, 1, 97, 1, 98]).2.2
      ⟨[97], by decide⟩ ⟨[98], by decide⟩ (by decide) (by decide)).2
        fun hex => h'.session_ne_none_iff.mpr hex h5').2 _ hreg').2 rfl).2 ?_
    rintro ⟨fd', -, hs⟩
    obtain ⟨v, hv, hon⟩ := h'.inv.sessions.user_of_session (h'.session.mpr hs)
    rw [hu, Option.some_inj] at hv
    rw [← hv, hstate.2] at hon
    exact absurd hon (by simp)

/-- The groups with a member are the groups on file. -/
theorem Mirrors.encard_live {s : ServerMng} {tr : List Entry} (h : Mirrors s tr) :
    {g | ∃ n, Member tr n g}.encard = s.groupMng.groupsByName.objs.length := by
  have hset : {g | ∃ n, Member tr n g} =
      {g | ∃ gr, s.groupMng.groupsByName.lookup g = some gr ∧ (fun _ => true) gr = true} := by
    ext g
    rw [Set.mem_ofPred_eq, Set.mem_ofPred_eq, ← h.group_ne_none_iff, Option.ne_none_iff_exists']
    simp only [and_true]
    rfl
  obtain ⟨hfin, hcount⟩ := s.groupMng.groupsByName.countP_objs fun _ => true
  rw [hset, ← hfin.cast_ncard_eq, ← hcount, List.countP_true]

/-- Two replies that let someone into the same group, with a member in it all the time between them,
carry the same address. -/
theorem Mirrors.same_pair {s : ServerMng} {tr₁ tr₂ : List Entry} {x y : Entry} {g : CStr}
    {p p' : McastPair} (h : Mirrors s (tr₁ ++ x :: (tr₂ ++ [y])))
    (hx : ∃ fd, Tells fd g p x) (hy : ∃ fd, Tells fd g p' y)
    (halive : ∀ t t', tr₂ = t ++ t' → ∃ n, Member (tr₁ ++ x :: t) n g) : p = p' := by
  have hy' : Told (tr₁ ++ x :: (tr₂ ++ [y])) g p' := by
    rw [Told, ← List.cons_append, ← List.append_assoc, since_concat]
    exact .inl hy
  have hend : ∃ n, Member (tr₁ ++ x :: (tr₂ ++ [y])) n g := by
    rw [← h.group_ne_none_iff]
    exact h.held_ne_none_iff.mpr ⟨p', hy'⟩
  have hx' : Told (tr₁ ++ x :: (tr₂ ++ [y])) g p := by
    refine ⟨tr₁, x, tr₂ ++ [y], rfl, hx, fun t z t' ht => not_not_intro ?_⟩
    rw [List.append_assoc, List.cons_append]
    rcases List.eq_nil_or_concat t' with rfl | ⟨t', z', rfl⟩
    · rw [← ht]
      exact hend
    · rw [List.concat_eq_append, ← List.cons_append, ← List.append_assoc] at ht
      obtain ⟨ht, -⟩ := List.append_inj' ht rfl
      exact halive (t ++ [z]) t' (by rw [ht, List.append_assoc, List.singleton_append])
  exact Option.some_inj.mp ((h.told.mpr hx').symm.trans (h.told.mpr hy'))

/-- **The group law.**  After any history without allocation failure, on descriptors of the socket
array: without a session CREATE, JOIN and LEAVE are answered *not logged in*.  With a session of
`n`, CREATE of `g` is answered *group exists* if `g` has a member, `ST_OK` if it has none and fewer
than 255 groups have one, and *server full* otherwise; JOIN is answered *group not found* if `g` has
no member, *already in group* if `n` is one, and `ST_OK` otherwise; LEAVE is answered `ST_OK` if `n`
is a member, and *not in group* otherwise.  Whoever is let into a group is told its address: one and
the same for as long as the group has a member, and no two groups with members have the same. -/
theorem group_law {s₀ : ServerMng} (h₀ : ServerMng.init [] = some s₀) {es : List Event}
    (hes : ∀ e ∈ es, e.alloc = [] ∧ 0 ≤ e.sockfd ∧ e.sockfd < fdSetSize) :
    let tr := trace ServerMng.step s₀ es
    let reply := fun fd op msg => answer fd op ((s₀.run es).step (.message fd msg [])).2
    (∀ (fd : Int) msg g, 0 ≤ fd → fd < fdSetSize → Request.parse msg = some (.createGroup g) →
      ((¬ ∃ n, HasSession tr fd n) → reply fd .createGroupRep msg = some .errNotLoggedIn) ∧
      ((∃ n, HasSession tr fd n) →
        ((∃ m, Member tr m g) → reply fd .createGroupRep msg = some .errGroupExists) ∧
        ((¬ ∃ m, Member tr m g) →
          ({g' | ∃ m, Member tr m g'}.encard < 255 → reply fd .createGroupRep msg = some .ok) ∧
          (¬ {g' | ∃ m, Member tr m g'}.encard < 255 →
            reply fd .createGroupRep msg = some .errServerFull)))) ∧
    (∀ (fd : Int) msg g, 0 ≤ fd → fd < fdSetSize → Request.parse msg = some (.joinGroup g) →
      ((¬ ∃ n, HasSession tr fd n) → reply fd .joinGroupRep msg = some .errNotLoggedIn) ∧
      (∀ n, HasSession tr fd n →
        ((¬ ∃ m, Member tr m g) → reply fd .joinGroupRep msg = some .errGroupNotFound) ∧
        ((∃ m, Member tr m g) →
          (Member tr n g → reply fd .joinGroupRep msg = some .errAlreadyInGroup) ∧
          (¬ Member tr n g → reply fd .joinGroupRep msg = some .ok)))) ∧
    (∀ (fd : Int) msg g, 0 ≤ fd → fd < fdSetSize → Request.parse msg = some (.leaveGroup g) →
      ((¬ ∃ n, HasSession tr fd n) → reply fd .leaveGroupRep msg = some .errNotLoggedIn) ∧
      (∀ n, HasSession tr fd n →
        (Member tr n g → reply fd .leaveGroupRep msg = some .ok) ∧
        (¬ Member tr n g → reply fd .leaveGroupRep msg = some .errNotInGroup))) ∧
    (∀ x ∈ tr, ∀ fd g, LetIn fd g x → ∃ p, Tells fd g p x) ∧
    (∀ g, (∃ n, Member tr n g) ↔ ∃ p, Told tr g p) ∧
    (∀ tr₁ x tr₂ y tr₃ g p p', tr = tr₁ ++ x :: (tr₂ ++ y :: tr₃) →
      (∃ fd, Tells fd g p x) → (∃ fd, Tells fd g p' y) →
      (∀ t t', tr₂ = t ++ t' → ∃ n, Member (tr₁ ++ x :: t) n g) → p = p') ∧
    (∀ g g' p, Told tr g p → Told tr g' p → g = g') := by
  intro tr reply
  have hclean : ∀ e ∈ es, Clean e := fun e he => by
    obtain ⟨hal, hfd, -⟩ := hes e he
    cases e with
    | message fd msg al => exact ⟨hfd, hal⟩
    | disconnect fd al => exact hal
  have h : Mirrors (s₀.run es) tr := mirrors_reachable h₀ hclean
  have hc : (s₀.run es).view.Conserved := conserved_reachable h₀ fun e he => (hes e he).1
  have hroom : {g' | ∃ m, Member tr m g'}.encard < 255 ↔ (s₀.run es).view.free ≠ [] := by
    have hlen := length_free_add_groups h.inv hc
    rw [h.encard_live, ← List.length_pos_iff,
      show ((s₀.run es).groupMng.groupsByName.objs.length : ℕ∞) < 255 ↔
        (s₀.run es).groupMng.groupsByName.objs.length < 255 by exact_mod_cast Iff.rfl]
    omega
  refine ⟨fun fd msg g h0 h1 hp => ?_, fun fd msg g h0 h1 hp => ?_, fun fd msg g h0 h1 hp => ?_,
    h.tells, fun g => ?_, ?_, fun g g' p hg hg' => ?_⟩
  · have hreply : reply fd .createGroupRep msg = _ := answer_message h.inv h0 hp
    rw [hreply, ← h.session_ne_none_iff, ← h.group_ne_none_iff, hroom, Chat.verdict]
    refine ⟨fun hs => by rw [if_pos (not_not.mp hs)], fun hs => ⟨fun hg => ?_, fun hg => ⟨?_, ?_⟩⟩⟩
    · rw [if_neg hs, if_pos hg]
    · intro hfree
      rw [if_neg hs, if_neg hg, if_neg hfree]
    · intro hfree
      rw [if_neg hs, if_neg hg, if_pos (not_not.mp hfree)]
  · have hreply : reply fd .joinGroupRep msg = _ := answer_message h.inv h0 hp
    rw [hreply, ← h.session_ne_none_iff, ← h.group_ne_none_iff, Chat.verdict]
    refine ⟨fun hs => by rw [not_not.mp hs], fun n hn => ?_⟩
    rw [h.session.mpr hn, ← h.member]
    refine ⟨fun hg => by simp only [not_not.mp hg, if_true],
      fun hg => ⟨fun hmem => ?_, fun hmem => ?_⟩⟩
    · simp only
      rw [if_neg hg, if_pos hmem]
    · simp only
      rw [if_neg hg, if_neg hmem]
  · have hreply : reply fd .leaveGroupRep msg = _ := answer_message h.inv h0 hp
    obtain ⟨i, hi⟩ := exists_fdIndex h0 h1
    rw [hreply, ← h.session_ne_none_iff, Chat.verdict, hi, Chat.session_of_fdIndex hi]
    refine ⟨fun hs => by simp only [not_not.mp hs], fun n hn => ?_⟩
    rw [← h.session, Chat.session_of_fdIndex hi] at hn
    simp only [hn]
    rw [← h.member]
    exact ⟨fun hmem => by rw [if_pos hmem], fun hmem => by rw [if_neg hmem]⟩
  · rw [← h.group_ne_none_iff, h.held_ne_none_iff]
  · intro tr₁ x tr₂ y tr₃ g p p' htr hx hy halive
    have hsplit : tr = (tr₁ ++ x :: (tr₂ ++ [y])) ++ tr₃ := by
      rw [htr]
      simp
    obtain ⟨es₁, es₂, rfl, htr₁⟩ := exists_of_trace_eq_append hsplit
    have hprefix : Mirrors (s₀.run es₁) (tr₁ ++ x :: (tr₂ ++ [y])) := by
      rw [← htr₁]
      exact mirrors_reachable h₀ fun e he => hclean e (List.mem_append_left _ he)
    exact hprefix.same_pair hx hy halive
  · exact h.inv.addresses.held_inj (h.told.mpr hg) (h.told.mpr hg')

/-- After `firstGroup`, a JOIN by its founder and one on a descriptor nobody has logged in on. -/
theorem group_law_firstGroup :
    ∃ s₀, ServerMng.init [] = some s₀ ∧
      Member (trace ServerMng.step s₀ firstGroup) ⟨[97], by decide⟩ ⟨[103], by decide⟩ ∧
      answer 4 .joinGroupRep ((s₀.run firstGroup).step (.message 4 [9, 2, 1, 103] [])).2 =
        some .errAlreadyInGroup ∧
      answer 5 .joinGroupRep ((s₀.run firstGroup).step (.message 5 [9, 2, 1, 103] [])).2 =
        some .errNotLoggedIn := by
  have hrun : (ServerMng.init []).map (fun s => ((s.run firstGroup).view.session 4,
      (s.run firstGroup).view.session 5, (s.run firstGroup).view.joined ⟨[97], by decide⟩)) =
      some (some ⟨[97], by decide⟩, none, [⟨[103], by decide⟩]) := by
    decide +kernel
  obtain ⟨s₀, h₀, hend⟩ := Option.map_eq_some_iff.mp hrun
  obtain ⟨h4, hrest⟩ := Prod.mk.inj hend
  obtain ⟨h5, hjoined⟩ := Prod.mk.inj hrest
  have hes : ∀ e ∈ firstGroup, e.alloc = [] ∧ 0 ≤ e.sockfd ∧ e.sockfd < fdSetSize := by decide
  have h := mirrors_reachable h₀ (show ∀ e ∈ firstGroup, Clean e by simp [firstGroup, Clean])
  have hmember : Member (trace ServerMng.step s₀ firstGroup) ⟨[97], by decide⟩
      ⟨[103], by decide⟩ := h.member.mp (hjoined ▸ List.mem_singleton_self _)
  refine ⟨s₀, h₀, hmember, ?_, ?_⟩
  · have hlaw := (group_law h₀ hes).2.1 4 [9, 2, 1, 103] ⟨[103], by decide⟩ (by decide) (by decide)
      (by decide)
    exact ((hlaw.2 _ (h.session.mp h4)).2 ⟨_, hmember⟩).1 hmember
  · have hlaw := (group_law h₀ hes).2.1 5 [9, 2, 1, 103] ⟨[103], by decide⟩ (by decide) (by decide)
      (by decide)
    exact hlaw.1 fun hex => h.session_ne_none_iff.mpr hex h5

end ChatProject
