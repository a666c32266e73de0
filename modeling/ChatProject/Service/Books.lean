import Mathlib.Data.Set.Card
import ChatProject.Service.Chat

/-!
# The books of the service

The service keeps a count per group and a list per user, and never looks at both.  `Chat.Books`
says that they agree: every count is the number of users that have the group on their list, and it
is never zero.  `Chat.Addresses` says the same of the other thing that is handed around: an address
is in the pool, or with one group, and nowhere twice.

Each is shown for the few moves every request is made of — a user enters a group
(`Books.admit`), a user leaves one (`Books.dismiss`), a change that concerns no membership
(`Books.congr`) — and then for whole steps.  Ending a session is the one compound move: it is
brought into the form *leave the groups one by one, then go offline* (`hangUp_eq`), in which every
intermediate state keeps its books, although the code strikes the user off all the groups first.
-/

set_option autoImplicit false

namespace ChatProject

namespace Chat

/-! ## Sessions -/

/-- The descriptor table and the users' own records tell the same sessions. -/
structure Sessions (c : Chat) : Prop where
  /-- Each user is registered under its own name. -/
  username : ∀ {n u}, c.user n = some u → u.username = n
  /-- A descriptor shows a name exactly when the user of that name is online on it. -/
  sock_iff : ∀ {i n}, c.sock i = some n ↔
    ∃ u, c.user n = some u ∧ u.state = .online ∧ u.socketFd = ((i : Nat) : Int)
  /-- A user who is online is so on some descriptor of the table. -/
  online : ∀ {n u}, c.user n = some u → u.state = .online → ∃ i, c.sock i = some n

theorem Sessions.sock_inj {c : Chat} (h : c.Sessions) {i j : Fin fdSetSize} {n : CStr}
    (hi : c.sock i = some n) (hj : c.sock j = some n) : i = j := by
  obtain ⟨u, hu, -, hui⟩ := h.sock_iff.mp hi
  obtain ⟨v, hv, -, hvj⟩ := h.sock_iff.mp hj
  rw [hu, Option.some_inj] at hv
  subst hv
  exact Fin.ext (by omega)

theorem session_eq_some_iff {c : Chat} {fd : Int} {n : CStr} :
    c.session fd = some n ↔ ∃ i, fdIndex fd = some i ∧ c.sock i = some n := by
  rw [session, Option.bind_eq_some_iff]

theorem session_of_fdIndex {c : Chat} {fd : Int} {i : Fin fdSetSize} (h : fdIndex fd = some i) :
    c.session fd = c.sock i := by
  rw [session, h, Option.bind_some]

theorem session_of_badFd {c : Chat} {fd : Int} (h : fdIndex fd = none) :
    c.session fd = none := by
  rw [session, h, Option.bind_none]

/-- Only the descriptors of the table have a session. -/
theorem nonneg_of_session {c : Chat} {fd : Int} {n : CStr} (hn : c.session fd = some n) :
    0 ≤ fd := by
  obtain ⟨i, hfd, -⟩ := session_eq_some_iff.mp hn
  rw [fdIndex_eq_some_iff.mp hfd]
  exact Int.natCast_nonneg _

/-- The user of a session. -/
theorem Sessions.user_of_session {c : Chat} (h : c.Sessions) {fd : Int} {n : CStr}
    (hs : c.session fd = some n) : ∃ u, c.user n = some u ∧ u.state = .online := by
  obtain ⟨i, -, hi⟩ := session_eq_some_iff.mp hs
  obtain ⟨u, hu, hon, -⟩ := h.sock_iff.mp hi
  exact ⟨u, hu, hon⟩

/-! ## Lists and members -/

theorem joined_of_user {c : Chat} {n : CStr} {u : User} (h : c.user n = some u) :
    c.joined n = u.joinedGroups := by
  rw [joined, h, Option.elim_some]

theorem joined_of_none {c : Chat} {n : CStr} (h : c.user n = none) : c.joined n = [] := by
  rw [joined, h, Option.elim_none]

theorem joined_congr {c d : Chat} (h : c.user = d.user) : c.joined = d.joined := by
  funext n
  rw [joined, joined, h]

theorem members_congr {c d : Chat} (h : c.joined = d.joined) : c.members = d.members := by
  funext g
  rw [members, members, h]

@[simp] theorem mem_members {c : Chat} {g n : CStr} : n ∈ c.members g ↔ g ∈ c.joined n := Iff.rfl

/-- Where one user's record is rewritten, the other users' lists stay. -/
theorem joined_update {c d : Chat} {n : CStr} {u : User}
    (h : d.user = Function.update c.user n (some u)) :
    d.joined = Function.update c.joined n u.joinedGroups := by
  funext m
  rw [joined, h]
  by_cases hm : m = n
  · rw [hm, Function.update_self, Function.update_self, Option.elim_some]
  · rw [Function.update_of_ne hm, Function.update_of_ne hm, joined]

/-! ## The moves -/

@[simp] theorem editUser_sock (c : Chat) (n : CStr) (f : User → User) :
    (c.editUser n f).sock = c.sock := rfl

@[simp] theorem editUser_group (c : Chat) (n : CStr) (f : User → User) :
    (c.editUser n f).group = c.group := rfl

@[simp] theorem editUser_free (c : Chat) (n : CStr) (f : User → User) :
    (c.editUser n f).free = c.free := rfl

theorem editUser_user {c : Chat} {n : CStr} {u : User} (h : c.user n = some u)
    (f : User → User) : (c.editUser n f).user = Function.update c.user n (some (f u)) := by
  rw [editUser, h, Option.map_some]

@[simp] theorem countOut_user (c : Chat) (g : CStr) : (c.countOut g).user = c.user := by
  rw [countOut]
  split
  · rfl
  · split <;> rfl

@[simp] theorem countOut_sock (c : Chat) (g : CStr) : (c.countOut g).sock = c.sock := by
  rw [countOut]
  split
  · rfl
  · split <;> rfl

@[simp] theorem countIn_user (c : Chat) (g : CStr) : (c.countIn g).user = c.user := rfl

@[simp] theorem found_user (c : Chat) (g : CStr) : (c.found g).user = c.user := by
  rw [found]
  split <;> rfl

@[simp] theorem found_sock (c : Chat) (g : CStr) : (c.found g).sock = c.sock := by
  rw [found]
  split <;> rfl

@[simp] theorem foldl_countOut_user (c : Chat) (l : List CStr) :
    (l.foldl countOut c).user = c.user := by
  induction l generalizing c with
  | nil => rfl
  | cons g l ih => rw [List.foldl_cons, ih, countOut_user]

theorem countOut_of_none {c : Chat} {g : CStr} (h : c.group g = none) : c.countOut g = c := by
  rw [countOut, h]

theorem countOut_of_last {c : Chat} {g : CStr} {gr : Group} (h : c.group g = some gr)
    (hgr : gr.memberCount ≤ 1) :
    c.countOut g =
      { c with group := Function.update c.group g none, free := c.free ++ [gr.pair] } := by
  rw [countOut, h]
  simp only
  rw [if_pos hgr]

theorem countOut_of_many {c : Chat} {g : CStr} {gr : Group} (h : c.group g = some gr)
    (hgr : 2 ≤ gr.memberCount) :
    c.countOut g = { c with group := Function.update c.group g (some gr.countOut) } := by
  rw [countOut, h]
  simp only
  rw [if_neg (by omega)]

theorem countIn_of_some {c : Chat} {g : CStr} {gr : Group} (h : c.group g = some gr) :
    c.countIn g = { c with group := Function.update c.group g (some gr.countIn) } := by
  rw [countIn, h, Option.map_some]

theorem found_of_cons {c : Chat} {g : CStr} {pair : McastPair} {rest : List McastPair}
    (h : c.free = pair :: rest) :
    c.found g =
      { c with group := Function.update c.group g (some ⟨g, pair.ip, pair.port, 1⟩),
               free := rest } := by
  rw [found, h]

/-! ## The membership books -/

/-- Counts and lists agree. -/
structure Books (c : Chat) : Prop where
  /-- A user who is offline is in no group. -/
  offline : ∀ {n u}, c.user n = some u → u.state = .offline → u.joinedGroups = []
  /-- No list has a name twice. -/
  nodup : ∀ n, (c.joined n).Nodup
  /-- Every name on a list is the name of a group. -/
  filed : ∀ {n g}, g ∈ c.joined n → c.group g ≠ none
  /-- Each group is filed under its own name. -/
  name : ∀ {g gr}, c.group g = some gr → gr.name = g
  /-- A group has finitely many members. -/
  finite : ∀ g, (c.members g).Finite
  /-- The count is the number of members. -/
  count : ∀ {g gr}, c.group g = some gr → gr.memberCount = (c.members g).ncard
  /-- A group has a member. -/
  pos : ∀ {g gr}, c.group g = some gr → 1 ≤ gr.memberCount

theorem Books.members_eq_empty {c : Chat} (h : c.Books) {g : CStr} (hg : c.group g = none) :
    c.members g = ∅ :=
  Set.eq_empty_of_forall_notMem fun _ hn => h.filed hn hg

/-- Every group has a member, and only groups have. -/
theorem Books.members_nonempty_iff {c : Chat} (h : c.Books) {g : CStr} :
    (c.members g).Nonempty ↔ c.group g ≠ none := by
  constructor
  · rintro ⟨n, hn⟩
    exact h.filed hn
  · intro hg
    obtain ⟨gr, hgr⟩ := Option.ne_none_iff_exists'.mp hg
    rw [← Set.ncard_pos (h.finite g), ← h.count hgr]
    exact h.pos hgr

/-- A change that concerns no membership keeps the books. -/
theorem Books.congr {c d : Chat} (h : c.Books) (hj : d.joined = c.joined)
    (hg : d.group = c.group)
    (hoff : ∀ {n u}, d.user n = some u → u.state = .offline → d.joined n = []) : d.Books where
  offline hu ho := by rw [← joined_of_user hu]; exact hoff hu ho
  nodup n := by rw [hj]; exact h.nodup n
  filed := by rw [hj, hg]; exact h.filed
  name := by rw [hg]; exact h.name
  finite g := by rw [members_congr hj]; exact h.finite g
  count := by rw [members_congr hj, hg]; exact h.count
  pos := by rw [hg]; exact h.pos

/-- The books do not look at the pool. -/
theorem Books.of_core {c d : Chat} (h : c.Books) (hu : d.user = c.user)
    (hg : d.group = c.group) : d.Books :=
  h.congr (joined_congr hu) hg fun {n u} hn ho => by
    rw [hu] at hn
    rw [joined_congr hu, joined_of_user hn]
    exact h.offline hn ho

/-- Rewriting a user's record with the same groups keeps the books; only a user in no group can
go offline. -/
theorem Books.rewrite {c d : Chat} (h : c.Books) {n : CStr} {u : User}
    (hu : d.user = Function.update c.user n (some u)) (hj : u.joinedGroups = c.joined n)
    (hg : d.group = c.group) (hoff : u.state = .offline → u.joinedGroups = []) : d.Books := by
  have hjoined : d.joined = c.joined := by
    rw [joined_update hu]
    exact Function.update_eq_iff.mpr ⟨hj, fun _ _ => rfl⟩
  refine h.congr hjoined hg ?_
  intro m v hv ho
  rw [joined_of_user hv]
  rw [hu] at hv
  by_cases hm : m = n
  · rw [hm, Function.update_self, Option.some_inj] at hv
    exact hv ▸ hoff (hv ▸ ho)
  · rw [Function.update_of_ne hm] at hv
    exact h.offline hv ho

section
variable {c d : Chat} {n g : CStr} {u : User}

/-- **One user's list changes at one group.**  What has to be checked is that group. -/
theorem Books.change (h : c.Books) {l : List CStr} {x : Option Group}
    (hj : d.joined = Function.update c.joined n l) (hl : l.Nodup)
    (hrest : ∀ g', g' ≠ g → (g' ∈ l ↔ g' ∈ c.joined n))
    (hoff : ∀ {m v}, d.user m = some v → v.state = .offline → v.joinedGroups = [])
    (hg : d.group = Function.update c.group g x) (hfin : (d.members g).Finite)
    (hnone : x = none → d.members g = ∅)
    (hsome : ∀ gr, x = some gr →
      gr.name = g ∧ gr.memberCount = (d.members g).ncard ∧ 1 ≤ gr.memberCount) : d.Books := by
  have hother : ∀ g', g' ≠ g → d.members g' = c.members g' := by
    intro g' hne
    ext m
    rw [mem_members, mem_members, hj]
    by_cases hm : m = n
    · rw [hm, Function.update_self, hrest g' hne]
    · rw [Function.update_of_ne hm]
  -- every group on file is the one that changed, or was on file before
  have hcases : ∀ {g' gr}, d.group g' = some gr →
      g' = g ∧ x = some gr ∨ g' ≠ g ∧ c.group g' = some gr := by
    intro g' gr hgr
    rw [hg] at hgr
    by_cases hne : g' = g
    · rw [hne, Function.update_self] at hgr
      exact .inl ⟨hne, hgr⟩
    · rw [Function.update_of_ne hne] at hgr
      exact .inr ⟨hne, hgr⟩
  refine ⟨hoff, ?_, ?_, ?_, ?_, ?_, ?_⟩
  · intro m
    rw [hj]
    by_cases hm : m = n
    · rw [hm, Function.update_self]
      exact hl
    · rw [Function.update_of_ne hm]
      exact h.nodup m
  · intro m g' hm
    have hmem : m ∈ d.members g' := hm
    rw [hg]
    by_cases hne : g' = g
    · rw [hne, Function.update_self]
      rintro rfl
      rw [hne, hnone rfl] at hmem
      exact hmem
    · rw [Function.update_of_ne hne]
      rw [hother g' hne] at hmem
      exact h.filed hmem
  · intro g' gr hgr
    obtain ⟨rfl, hx⟩ | ⟨-, hold⟩ := hcases hgr
    · exact (hsome gr hx).1
    · exact h.name hold
  · intro g'
    by_cases hne : g' = g
    · rw [hne]
      exact hfin
    · rw [hother g' hne]
      exact h.finite g'
  · intro g' gr hgr
    obtain ⟨rfl, hx⟩ | ⟨hne, hold⟩ := hcases hgr
    · exact (hsome gr hx).2.1
    · rw [hother g' hne]
      exact h.count hold
  · intro g' gr hgr
    obtain ⟨rfl, hx⟩ | ⟨-, hold⟩ := hcases hgr
    · exact (hsome gr hx).2.2
    · exact h.pos hold

/-- Rewriting the record of a user who stays online. -/
theorem Books.offline_update (h : c.Books) (hon : u.state = .online)
    (hu : d.user = Function.update c.user n (some u)) {m : CStr} {v : User}
    (hv : d.user m = some v) (ho : v.state = .offline) : v.joinedGroups = [] := by
  rw [hu] at hv
  by_cases hm : m = n
  · rw [hm, Function.update_self, Option.some_inj] at hv
    rw [← hv, hon] at ho
    exact absurd ho (by simp)
  · rw [Function.update_of_ne hm] at hv
    exact h.offline hv ho

/-- **A user enters a group**, an old one or one founded just now: the count has to be one more than
the members so far. -/
theorem Books.admit (h : c.Books) (hon : u.state = .online) (gr : Group)
    (hun : c.user n = some u) (hg : g ∉ c.joined n)
    (hu : d.user = Function.update c.user n (some (u.addGroup g)))
    (hgr : d.group = Function.update c.group g (some gr)) (hname : gr.name = g)
    (hcount : gr.memberCount = (c.members g).ncard + 1) : d.Books := by
  have hj : d.joined = Function.update c.joined n (c.joined n ++ [g]) := by
    rw [joined_update hu, joined_of_user hun]
    rfl
  have hself : d.members g = insert n (c.members g) := by
    ext m
    rw [Set.mem_insert_iff, mem_members, mem_members, hj]
    by_cases hm : m = n <;> simp [hm]
  have hnew : n ∉ c.members g := hg
  refine h.change hj ?_ ?_ (h.offline_update (u := u.addGroup g) hon hu) hgr ?_ (by simp) ?_
  · rw [List.nodup_append]
    refine ⟨h.nodup n, List.nodup_singleton g, ?_⟩
    rintro a ha b hb rfl
    exact hg (List.mem_singleton.mp hb ▸ ha)
  · intro g' hne
    simp [hne]
  · rw [hself]
    exact (h.finite g).insert n
  · intro gr' hgr'
    rw [← Option.some_inj.mp hgr', hself, Set.ncard_insert_of_notMem hnew (h.finite g)]
    exact ⟨hname, hcount, by omega⟩

/-- **A user leaves a group.** -/
theorem Books.dismiss (h : c.Books) (hon : u.state = .online) (hun : c.user n = some u)
    (hg : g ∈ c.joined n) (hu : d.user = Function.update c.user n (some (u.dropGroup g)))
    (hgr : d.group = (c.countOut g).group) : d.Books := by
  obtain ⟨gr, hcg⟩ := Option.ne_none_iff_exists'.mp (h.filed hg)
  have hj : d.joined = Function.update c.joined n ((c.joined n).erase g) := by
    rw [joined_update hu, joined_of_user hun]
    rfl
  have hself : d.members g = c.members g \ {n} := by
    ext m
    rw [Set.mem_sdiff, Set.mem_singleton_iff, mem_members, mem_members, hj]
    by_cases hm : m = n
    · simp [hm, (h.nodup n).mem_erase_iff]
    · simp [hm]
  have hold : n ∈ c.members g := hg
  have hcard : (d.members g).ncard = gr.memberCount - 1 := by
    rw [hself, Set.ncard_sdiff_singleton_of_mem hold, h.count hcg]
  have hfin : (d.members g).Finite := by
    rw [hself]
    exact (h.finite g).sdiff
  -- the group is gone exactly when it has no member left
  have hgroup : d.group = Function.update c.group g
      (if gr.memberCount ≤ 1 then none else some gr.countOut) := by
    rw [hgr]
    split
    · next hle => rw [countOut_of_last hcg hle]
    · next hle => rw [countOut_of_many hcg (by omega)]
  refine h.change hj ((h.nodup n).erase g) ?_ (h.offline_update (u := u.dropGroup g) hon hu)
    hgroup hfin ?_ ?_
  · intro g' hne
    rw [(h.nodup n).mem_erase_iff]
    simp [hne]
  · intro hx
    rw [← Set.ncard_eq_zero hfin, hcard]
    split at hx
    · omega
    · exact absurd hx (by simp)
  · intro gr' hx
    split at hx
    · exact absurd hx (by simp)
    · rw [← Option.some_inj.mp hx, hcard, Group.memberCount_countOut, Group.name_countOut]
      exact ⟨h.name hcg, rfl, by omega⟩

end

/-! ## Ending a session -/

theorem countOut_editUser (c : Chat) (n g : CStr) (f : User → User) :
    (c.editUser n f).countOut g = (c.countOut g).editUser n f := by
  rw [countOut, countOut, editUser_group]
  split
  · rfl
  · split <;> rfl

theorem foldl_countOut_editUser (c : Chat) (n : CStr) (f : User → User) (l : List CStr) :
    l.foldl countOut (c.editUser n f) = (l.foldl countOut c).editUser n f := by
  induction l generalizing c with
  | nil => rfl
  | cons g l ih => rw [List.foldl_cons, List.foldl_cons, countOut_editUser, ih]

theorem editUser_editUser (c : Chat) (n : CStr) (f f' : User → User) :
    (c.editUser n f).editUser n f' = c.editUser n (f' ∘ f) := by
  simp only [editUser, Function.update_self, Function.update_idem, Option.map_map]

/-- The move of a LEAVE: out of one group. -/
def leave (n : CStr) (c : Chat) (g : CStr) : Chat := (c.countOut g).editUser n (User.dropGroup g)

theorem leave_user {n : CStr} {c : Chat} {u : User} (h : c.user n = some u) (g : CStr) :
    (leave n c g).user = Function.update c.user n (some (u.dropGroup g)) := by
  rw [leave, editUser_user ((congrFun (countOut_user c g) n).trans h), countOut_user]

/-- Striking the user off the groups first and clearing the list at the end comes to the same as
leaving the groups one by one. -/
theorem foldl_countOut_unbind (c : Chat) (n : CStr) (l : List CStr) :
    (l.foldl countOut c).editUser n User.unbind = (l.foldl (leave n) c).editUser n User.unbind := by
  induction l generalizing c with
  | nil => rfl
  | cons g l ih =>
    rw [List.foldl_cons, List.foldl_cons, ← ih, leave, foldl_countOut_editUser,
      editUser_editUser]
    rfl

theorem hangUp_of_session {c : Chat} {fd : Int} {i : Fin fdSetSize} {n : CStr}
    (hfd : fdIndex fd = some i) (hs : c.sock i = some n) :
    c.hangUp fd = { ((c.joined n).foldl countOut c).editUser n User.unbind with
      sock := Function.update c.sock i none } := by
  rw [hangUp, hfd]
  simp only [hs]

theorem hangUp_of_none {c : Chat} {fd : Int} (hs : c.session fd = none) : c.hangUp fd = c := by
  rw [hangUp]
  split
  · rfl
  · next i hfd =>
    rw [session_of_fdIndex hfd] at hs
    rw [hs]

/-- **Ending a session** is leaving the groups one by one, then going offline. -/
theorem hangUp_eq {c : Chat} {fd : Int} {i : Fin fdSetSize} {n : CStr}
    (hfd : fdIndex fd = some i) (hs : c.sock i = some n) :
    c.hangUp fd = { ((c.joined n).foldl (leave n) c).editUser n User.unbind with
      sock := Function.update c.sock i none } := by
  rw [hangUp_of_session hfd hs, foldl_countOut_unbind]

/-- The books along the way: after each group left, they still agree. -/
theorem Books.foldl_leave {c : Chat} (h : c.Books) {n : CStr} {u : User} (hu : c.user n = some u)
    (hon : u.state = .online) {l : List CStr} (rest : List CStr)
    (hl : u.joinedGroups = l ++ rest) :
    (l.foldl (leave n) c).Books ∧
      (l.foldl (leave n) c).user =
        Function.update c.user n (some { u with joinedGroups := rest }) := by
  induction l generalizing c u with
  | nil =>
    rw [List.nil_append] at hl
    refine ⟨h, ?_⟩
    rw [← hl, List.foldl_nil, ← hu, Function.update_eq_self]
  | cons g l ih =>
    have hg : g ∈ c.joined n := by
      rw [joined_of_user hu, hl]
      exact List.mem_cons_self
    have hbooks : (leave n c g).Books := h.dismiss hon hu hg (leave_user hu g) rfl
    have hdrop : (u.dropGroup g).joinedGroups = l ++ rest := by
      rw [User.dropGroup, hl, List.cons_append, List.erase_cons_head]
    have huser : (leave n c g).user n = some (u.dropGroup g) := by
      rw [leave_user hu, Function.update_self]
    obtain ⟨hb, hu'⟩ := ih hbooks huser hon hdrop
    refine ⟨hb, ?_⟩
    rw [List.foldl_cons, hu', leave_user hu, Function.update_idem]
    rfl

theorem Books.hangUp {c : Chat} (h : c.Books) (hs : c.Sessions) (fd : Int) :
    (c.hangUp fd).Books := by
  cases hn : c.session fd with
  | none => rw [hangUp_of_none hn]; exact h
  | some n =>
    obtain ⟨i, hfd, hi⟩ := session_eq_some_iff.mp hn
    obtain ⟨u, hu, hon⟩ := hs.user_of_session hn
    obtain ⟨hb, huser⟩ := h.foldl_leave hu hon []
      ((List.append_nil u.joinedGroups).symm)
    rw [← joined_of_user hu] at hb huser
    have hself : ((c.joined n).foldl (leave n) c).user n = some { u with joinedGroups := [] } := by
      rw [huser, Function.update_self]
    rw [hangUp_eq hfd hi]
    refine hb.rewrite (editUser_user hself User.unbind) ?_ rfl fun _ => rfl
    rw [joined_of_user hself]
    rfl

/-! ## Whole steps -/

theorem Books.grant {c : Chat} (h : c.Books) (hs : c.Sessions) {fd : Int} {r : Request}
    (hv : c.verdict fd r = .ok) : (c.grant fd r).Books := by
  cases r with
  | register n p =>
    have hnew := verdict_register_eq_ok.mp hv
    exact h.rewrite (n := n) (u := ⟨n, p, .offline, -1, []⟩) rfl (joined_of_none hnew).symm rfl
      fun _ => rfl
  | login n p =>
    obtain ⟨i, u, hfd, -, hu, -, hoff⟩ := verdict_login_eq_ok.mp hv
    rw [Chat.grant, hfd]
    exact h.rewrite (editUser_user hu (User.bind fd)) (joined_of_user hu).symm rfl
      fun hon => absurd hon (by simp [User.bind])
  | logout => exact h.hangUp hs fd
  | createGroup g =>
    obtain ⟨n, pair, rest, hn, hg, hfree⟩ := verdict_createGroup_eq_ok.mp hv
    obtain ⟨u, hu, hon⟩ := hs.user_of_session hn
    rw [grant_createGroup hn]
    refine h.admit (g := g) hon ⟨g, pair.ip, pair.port, 1⟩ hu (fun hm => h.filed hm hg)
      ?_ ?_ rfl ?_
    · rw [editUser_user ((congrFun (found_user c g) n).trans hu), found_user]
    · rw [editUser_group, found_of_cons hfree]
    · rw [h.members_eq_empty hg, Set.ncard_empty]
  | joinGroup g =>
    obtain ⟨n, gr, hn, hg, hnot⟩ := verdict_joinGroup_eq_ok.mp hv
    obtain ⟨u, hu, hon⟩ := hs.user_of_session hn
    rw [grant_joinGroup hn]
    refine h.admit hon gr.countIn hu hnot (editUser_user hu _) ?_ ?_ ?_
    · rw [editUser_group, countIn_of_some hg]
    · rw [Group.name_countIn, h.name hg]
    · rw [Group.memberCount_countIn, h.count hg]
  | leaveGroup g =>
    obtain ⟨n, hn, hg⟩ := verdict_leaveGroup_eq_ok.mp hv
    obtain ⟨u, hu, hon⟩ := hs.user_of_session hn
    rw [grant_leaveGroup hn]
    exact h.dismiss hon hu hg (leave_user hu g) rfl

/-- **The books agree after every step**, whatever allocations fail. -/
theorem Books.step {c c' : Chat} {e : ServerMng.Event} {sent : List Packet} (h : c.Books)
    (hs : c.Sessions) (ho : c.Step e c' sent) : c'.Books := by
  cases ho with
  | dropped hp => exact h
  | served hp ho =>
    cases ho with
    | refused hv => exact h
    | granted hv hloss hal => exact (h.grant hs hv).of_core hloss.user hloss.group
    | failed hv hal hfree hst => exact h.of_core rfl rfl
  | idle hn => exact h
  | hungUp hn hloss hal => exact (h.hangUp hs _).of_core hloss.user hloss.group

end Chat

end ChatProject
