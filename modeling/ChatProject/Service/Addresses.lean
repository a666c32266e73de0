import ChatProject.Lib.Ownership
import ChatProject.Service.Books

/-!
# Where the addresses are

The 255 address pairs are a stock that is lent out to groups.  Whatever allocations fail, no pair is
in two places (`Chat.Addresses`), so the reply that tells a group's address always fits its frame
and the pool always has room for a pair that comes back.  With no allocation failure no pair is lost
either (`Chat.Conserved`).
-/

set_option autoImplicit false

namespace ChatProject

namespace Chat

/-- The pair a group holds. -/
def held (c : Chat) (g : CStr) : Option McastPair := (c.group g).map Group.pair

/-- No pair is in two places. -/
def Addresses (c : Chat) : Prop := Ownership.Owned mcastFill c.free c.held

/-- No pair is lost. -/
def Conserved (c : Chat) : Prop := Ownership.Complete mcastFill c.free c.held

theorem held_of_group {c : Chat} {g : CStr} {gr : Group} (h : c.group g = some gr) :
    c.held g = some gr.pair := by
  rw [held, h, Option.map_some]

theorem held_eq_some_iff {c : Chat} {g : CStr} {p : McastPair} :
    c.held g = some p ↔ ∃ gr, c.group g = some gr ∧ gr.pair = p := by
  rw [held, Option.map_eq_some_iff]

theorem held_congr {c d : Chat} (h : d.group = c.group) : d.held = c.held := by
  funext g
  rw [held, held, h]

theorem held_update {c d : Chat} {g : CStr} {x : Option Group}
    (h : d.group = Function.update c.group g x) :
    d.held = Function.update c.held g (x.map Group.pair) := by
  funext g'
  rw [held, h]
  by_cases hg : g' = g
  · rw [hg, Function.update_self, Function.update_self]
  · rw [Function.update_of_ne hg, Function.update_of_ne hg, held]

theorem held_update_same {c d : Chat} {g : CStr} {gr gr' : Group}
    (h : d.group = Function.update c.group g (some gr')) (hg : c.group g = some gr)
    (hp : gr'.pair = gr.pair) : d.held = c.held := by
  rw [held_update h, Option.map_some, hp, ← held_of_group hg, Function.update_eq_self]

@[simp] theorem held_editUser (c : Chat) (n : CStr) (f : User → User) :
    (c.editUser n f).held = c.held := rfl

/-- Taking part in no lending: the owners keep what they have and the pool only loses. -/
theorem Addresses.of_sublist {c d : Chat} (h : c.Addresses) (hheld : d.held = c.held)
    (hfree : d.free.Sublist c.free) : d.Addresses := by
  rw [Addresses, hheld]
  exact h.shrink (h.nodup.sublist hfree) fun _ hb => hfree.subset hb

theorem Addresses.of_upToLoss {c d : Chat} (h : d.Addresses) (hloss : c.UpToLoss d) :
    c.Addresses :=
  h.of_sublist (held_congr hloss.group) hloss.free

/-- A pair that has been taken out can be put back. -/
theorem Addresses.length_rest_lt {c : Chat} (h : c.Addresses) {pair : McastPair}
    {rest : List McastPair} (hfree : c.free = pair :: rest) : rest.length < 255 := by
  have hsub : c.free.Subperm mcastFill := h.nodup.subperm fun _ hp => h.free_mem hp
  have hle := hsub.length_le
  rwa [hfree, length_mcastFill] at hle

/-! ## What one move does to the stock -/

/-- Nothing is lent, or the first free pair is, or a pair comes back. -/
inductive Lending (c d : Chat) : Prop
  | kept (hheld : d.held = c.held) (hfree : d.free = c.free)
  | lent {g : CStr} {pair : McastPair} (hg : c.held g = none) (hfree : c.free = pair :: d.free)
    (hheld : d.held = Function.update c.held g (some pair))
  | returned {g : CStr} {pair : McastPair} (hg : c.held g = some pair)
    (hfree : d.free = c.free ++ [pair]) (hheld : d.held = Function.update c.held g none)

theorem Lending.owned {all : List McastPair} {c d : Chat} (hl : c.Lending d)
    (h : Ownership.Owned all c.free c.held) : Ownership.Owned all d.free d.held := by
  cases hl with
  | kept hheld hfree =>
    rw [hheld, hfree]
    exact h
  | lent hg hfree hheld =>
    rw [hheld]
    rw [hfree] at h
    exact h.take _
  | returned hg hfree hheld =>
    rw [hheld, hfree]
    exact h.release hg

theorem Lending.complete {all : List McastPair} {c d : Chat} (hl : c.Lending d)
    (h : Ownership.Complete all c.free c.held) : Ownership.Complete all d.free d.held := by
  cases hl with
  | kept hheld hfree =>
    rw [hheld, hfree]
    exact h
  | lent hg hfree hheld =>
    rw [hheld]
    rw [hfree] at h
    exact h.take hg
  | returned hg hfree hheld =>
    rw [hheld, hfree]
    exact h.release hg

theorem Addresses.lending {c d : Chat} (h : c.Addresses) (hl : c.Lending d) : d.Addresses :=
  hl.owned h

theorem Conserved.lending {c d : Chat} (h : c.Conserved) (hl : c.Lending d) : d.Conserved :=
  hl.complete h

theorem lending_countOut (c : Chat) (g : CStr) : c.Lending (c.countOut g) := by
  cases hg : c.group g with
  | none =>
    rw [countOut_of_none hg]
    exact .kept rfl rfl
  | some gr =>
    by_cases hle : gr.memberCount ≤ 1
    · rw [countOut_of_last hg hle]
      exact .returned (held_of_group hg) rfl (held_update (x := none) rfl)
    · rw [countOut_of_many hg (by omega)]
      exact .kept (held_update_same rfl hg (Group.pair_countOut gr)) rfl

/-- What every lending keeps, ending a session keeps. -/
theorem hangUp_induction {P : Chat → Prop} (hP : ∀ {c d : Chat}, P c → c.Lending d → P d)
    {c : Chat} (h : P c) (fd : Int) : P (c.hangUp fd) := by
  have hfold : ∀ (l : List CStr) (c : Chat), P c → P (l.foldl countOut c) := by
    intro l
    induction l with
    | nil => exact fun c hc => hc
    | cons g l ih => exact fun c hc => ih _ (hP hc (lending_countOut c g))
  cases hn : c.session fd with
  | none => rw [hangUp_of_none hn]; exact h
  | some n =>
    obtain ⟨i, hfd, hi⟩ := session_eq_some_iff.mp hn
    rw [hangUp_of_session hfd hi]
    exact hP (hfold (c.joined n) c h) (.kept rfl rfl)

/-- What every lending keeps, a granted request keeps. -/
theorem grant_induction {P : Chat → Prop} (hP : ∀ {c d : Chat}, P c → c.Lending d → P d)
    {c : Chat} (h : P c) {fd : Int} {r : Request} (hv : c.verdict fd r = .ok) :
    P (c.grant fd r) := by
  cases r with
  | register n p => exact hP h (.kept rfl rfl)
  | login n p =>
    obtain ⟨i, u, hfd, -⟩ := verdict_login_eq_ok.mp hv
    rw [grant, hfd]
    exact hP h (.kept rfl rfl)
  | logout => exact hangUp_induction hP h fd
  | createGroup g =>
    obtain ⟨n, pair, rest, hn, hg, hfree⟩ := verdict_createGroup_eq_ok.mp hv
    rw [grant_createGroup hn]
    have hrest : c.free = pair :: ((c.found g).editUser n (User.addGroup g)).free := by
      rw [editUser_free, found_of_cons hfree, hfree]
    refine hP h (.lent (g := g) (by rw [held, hg, Option.map_none]) hrest ?_)
    rw [held_editUser, found_of_cons hfree]
    exact held_update (x := some ⟨g, pair.ip, pair.port, 1⟩) rfl
  | joinGroup g =>
    obtain ⟨n, gr, hn, hg, -⟩ := verdict_joinGroup_eq_ok.mp hv
    rw [grant_joinGroup hn]
    refine hP h (.kept ?_ rfl)
    rw [held_editUser, countIn_of_some hg]
    exact held_update_same rfl hg (Group.pair_countIn gr)
  | leaveGroup g =>
    obtain ⟨n, hn, -⟩ := verdict_leaveGroup_eq_ok.mp hv
    rw [grant_leaveGroup hn]
    exact hP (hP h (lending_countOut c g)) (.kept rfl rfl)

/-! ## Whole steps -/

/-- **No pair is ever in two places**, whatever allocations fail. -/
theorem Addresses.step {c c' : Chat} {e : ServerMng.Event} {sent : List Packet} (h : c.Addresses)
    (ho : c.Step e c' sent) : c'.Addresses := by
  cases ho with
  | dropped hp => exact h
  | served hp ho =>
    cases ho with
    | refused hv => exact h
    | granted hv hloss hal => exact (grant_induction Addresses.lending h hv).of_upToLoss hloss
    | failed hv hal hfree hst =>
      obtain rfl | ⟨g, pair, rest, -, hcons, hrest⟩ := hfree
      · exact h
      · have hperm : (rest ++ [pair]).Perm c.free := by
          rw [hcons]
          exact List.perm_append_singleton pair rest
        have hnd := hperm.nodup_iff.mpr h.nodup
        obtain rfl | rfl := hrest
        · exact h.shrink (List.nodup_append.mp hnd).1
            fun b hb => hperm.subset (List.mem_append_left _ hb)
        · exact h.shrink hnd fun b hb => hperm.subset hb
  | idle hn => exact h
  | hungUp hn hloss hal => exact (hangUp_induction Addresses.lending h _).of_upToLoss hloss

/-- **No pair is lost** as long as no allocation fails. -/
theorem Conserved.step {c c' : Chat} {e : ServerMng.Event} {sent : List Packet} (h : c.Conserved)
    (hal : e.alloc = []) (ho : c.Step e c' sent) : c'.Conserved := by
  cases ho with
  | dropped hp => exact h
  | served hp ho =>
    cases ho with
    | refused hv => exact h
    | granted hv hloss hgrant =>
      rw [hgrant (.inl hal)]
      exact grant_induction Conserved.lending h hv
    | failed hv hne hfree hst => exact absurd hal hne
  | idle hn => exact h
  | hungUp hn hloss hhang =>
    rw [hhang hal]
    exact hangUp_induction Conserved.lending h _

end Chat

end ChatProject
