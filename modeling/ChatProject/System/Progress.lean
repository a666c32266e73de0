import ChatProject.Lib.Progress
import ChatProject.Server.DescriptorRange
import ChatProject.System.Blocking
import Mathlib.Data.Prod.Lex

/-!
# Every call returns

A user who asks for something gets an answer: the call is not held up by how its bytes are cut up,
by any number of other clients, or by the place of its connection in the queue or in the table.
What is needed is only that nobody is left out for ever: that the server gets on, that `select`
reports what there is, and that the client's own process runs.

* `Phase.tick`, `Loop.distance` — the clock of the server's loop, and how long it takes it to come
  to a given place.
* `Network.Rank` — how far the call of a client is from its end: the bytes that have still to be
  moved, then its place in the queue of `accept`, then the clock.
* `FairRun` — a run in which nobody is left out.
-/

set_option autoImplicit false

namespace ChatProject

open Framing ServerMng ServerNet

/-! ## The clock of the loop -/

/-- Where in a round the loop stands. -/
def Phase.tick : Phase → Nat
  | .accept => 0
  | .scan i => min (i + 1) (maxClients + 1)
  | .select | .stopped _ => maxClients + 2

/-- The steps until the loop looks at the descriptor `fd`, which it does at the tick `t`, in this
round if it has been reported, and otherwise in the next. -/
def Loop.distance {σ : Type} (s : Loop σ) (fd : Int) (t : Nat) : Nat :=
  if s.readSet fd = true ∧ s.phase.tick ≤ t then t - s.phase.tick
  else maxClients + 2 - s.phase.tick + 1 + t

section
variable {σ : Type} {s s' : Loop σ} {fd : Int} {t : Nat}

theorem distance_next (hread : s'.readSet = s.readSet) (htick : s'.phase.tick = s.phase.tick + 1)
    (hle : s.phase.tick ≤ maxClients + 1) (hnow : s.readSet fd = true → s.phase.tick ≠ t) :
    s'.distance fd t < s.distance fd t := by
  rw [Loop.distance, Loop.distance, hread, htick]
  by_cases hfd : s.readSet fd = true
  · have hne := hnow hfd
    simp only [hfd, true_and]
    split <;> split <;> omega
  · rw [if_neg fun h => hfd h.1, if_neg fun h => hfd h.1]
    omega

theorem distance_selected (hphase : s.phase = .select) (hphase' : s'.phase = .accept)
    (hread : s'.readSet fd = true) (ht : t ≤ maxClients) :
    s'.distance fd t < s.distance fd t := by
  have htick : s.phase.tick = maxClients + 2 := by rw [hphase]; rfl
  have htick' : s'.phase.tick = 0 := by rw [hphase']; rfl
  rw [Loop.distance, Loop.distance, if_pos ⟨hread, by omega⟩, if_neg (by omega)]
  omega

end

/-- A step in which nothing is accepted or read brings the loop closer, unless `select` has been
interrupted. -/
theorem distance_idle {s : Server} {a : Answers} (hacc : ¬ s.Accepts) (hreads : s.reads = none)
    (hrun : a.keepRunning = true) (hfail : a.selected ≠ .failed)
    (hphase : ∀ code, s.phase ≠ .stopped code) {fd : Int} {t : Nat} (ht : t ≤ maxClients)
    (hreport : s.phase = .select → ∀ fds, a.selected = .ready fds →
      s.net.tables.masterSet fd = true ∧ fds fd = true)
    (hnow : s.readSet fd = true → s.phase.tick ≠ t) :
    (s.step a).distance fd t < s.distance fd t ∨ a.selected = .interrupted ∧ s.step a = s := by
  rw [Server.step, Loop.step]
  cases hp : s.phase with
  | select =>
    simp only
    rw [if_neg (by simp [hrun])]
    cases hsel : a.selected with
    | ready fds =>
      obtain ⟨hmaster, hfds⟩ := hreport hp fds hsel
      exact .inl (distance_selected hp rfl (by simp [hmaster, hfds]) ht)
    | interrupted => exact .inr ⟨rfl, rfl⟩
    | failed => exact absurd hsel hfail
  | accept =>
    simp only
    rw [if_neg fun h => hacc ⟨hp, h⟩]
    exact .inl (distance_next rfl (by rw [hp]; rfl) (by rw [hp]; exact Nat.zero_le _) hnow)
  | scan i =>
    simp only
    split
    · rename_i hi
      have hunread : s.readable ⟨i, hi⟩ ≠ true := by
        intro hread
        rw [Loop.reads, hp] at hreads
        simp only at hreads
        rw [dif_pos hi, if_pos hread] at hreads
        exact absurd hreads (by simp)
      rw [if_neg hunread]
      refine .inl (distance_next rfl ?_ ?_ hnow) <;> rw [hp] <;> simp only [Phase.tick] <;> omega
    · rename_i hi
      refine .inl (distance_next rfl ?_ ?_ hnow) <;> rw [hp] <;> simp only [Phase.tick] <;> omega
  | stopped code => exact absurd hp (hphase code)

/-- Nothing else stops the server. -/
theorem phase_running {s : Server} {a : Answers} (hrun : a.keepRunning = true)
    (hfail : a.selected ≠ .failed) (hphase : ∀ code, s.phase ≠ .stopped code) (code : Int) :
    (s.step a).phase ≠ .stopped code := by
  rw [Server.step, Loop.step]
  cases hp : s.phase with
  | select =>
    simp only
    rw [if_neg (by simp [hrun])]
    cases hsel : a.selected with
    | ready fds => simp
    | interrupted => simp [hp]
    | failed => exact absurd hsel hfail
  | accept =>
    simp only
    split <;> simp
  | scan i =>
    simp only
    split
    · split <;> simp
    · simp
  | stopped c => exact absurd hp (hphase c)

/-! ## How far a call is from its end -/

/-- The bytes that have still to be moved; of a reply that has not been sent, as many as there may
be, and one for its being sent. -/
def Peer.work {ε : Type} (p : Peer ε) : Nat :=
  (match p.stage with
    | .sending _ buf sent => 2 * (buf.length - sent)
    | _ => 0) + p.up.length + if p.down = [] then chatMaxMsgSize + 1 else p.down.length

/-- The client is in a call, and the request is `r`. -/
def Peer.Calls {ε : Type} (p : Peer ε) (r : Request) : Prop :=
  p.link = .made ∧ ((∃ buf sent, p.stage = .sending r buf sent) ∨ ∃ got, p.stage = .receiving r got)

section
variable {ε : Type} {p : Peer ε} {r r' : Request} {buf got : List UInt8} {sent n : Nat}

theorem Peer.work_send (hstage : p.stage = .sending r buf sent) (hdown : p.down = []) (hn : 0 < n)
    (hle : n ≤ buf.length - sent) : (p.send r buf sent n).work < p.work := by
  have hlen : ((buf.drop sent).take n).length = n := by
    rw [List.length_take, List.length_drop, Nat.min_eq_left hle]
  by_cases hall : sent + n = buf.length
  · simp only [work, send, if_pos hall, hstage, hdown, List.length_append, hlen, if_true]
    omega
  · simp only [work, send, if_neg hall, hstage, hdown, List.length_append, hlen, if_true]
    omega

theorem Peer.work_recv (hstage : p.stage = .receiving r got) (hdown : p.down ≠ []) (hn : 0 < n)
    (hrest : p.down.drop n ≠ []) : (p.recv r got n).work < p.work := by
  have hpos := List.length_pos_iff.mpr hdown
  simp only [work, recv, hstage, if_neg hdown, if_neg hrest, List.length_drop]
  omega

theorem Peer.Calls.send (h : p.Calls r) (buf : List UInt8) (sent n : Nat) :
    (p.send r buf sent n).Calls r := by
  refine ⟨h.1, ?_⟩
  simp only [Peer.send]
  split
  · exact .inr ⟨_, rfl⟩
  · exact .inl ⟨_, _, rfl⟩

theorem Peer.Calls.of_sending (h : p.Calls r) (hstage : p.stage = .sending r' buf sent) :
    r' = r := by
  obtain ⟨-, ⟨buf', sent', hst⟩ | ⟨got, hst⟩⟩ := h
  · exact (Stage.sending.inj (hstage.symm.trans hst)).1
  · exact absurd (hstage.symm.trans hst) (by simp)

theorem Peer.Calls.of_receiving (h : p.Calls r) (hstage : p.stage = .receiving r' got) :
    r' = r := by
  obtain ⟨-, ⟨buf, sent, hst⟩ | ⟨got', hst⟩⟩ := h
  · exact absurd (hstage.symm.trans hst) (by simp)
  · exact (Stage.receiving.inj (hstage.symm.trans hst)).1

end

namespace Network

variable {κ ε : Type} [DecidableEq κ]

/-- Where the server meets the client: its place in the queue of `accept`, or its slot; the
descriptor to be reported for it, and the tick at which the loop looks at that. -/
inductive Place (N : Network κ ε) (k : κ) : Nat → Int → Nat → Prop
  | queued (h : k ∈ N.backlog) : Place N k (N.backlog.idxOf k + 1) N.server.net.listenFd 0
  | slot {i : Fin maxClients} (h : N.peerOf (N.server.net.clients i).fd = some k) :
    Place N k 0 (N.server.net.clients i).fd (i + 1)

/-- How far the call of the client is from its end. -/
inductive Rank (N : Network κ ε) (k : κ) : ℕ ×ₗ ℕ ×ₗ ℕ → Prop
  /-- It is the client's turn. -/
  | client (hup : (N.peers k).up = []) : Rank N k (toLex ((N.peers k).work, toLex (0, 0)))
  /-- It is the server's. -/
  | server {q : Nat} {fd : Int} {t : Nat} (hup : (N.peers k).up ≠ []) (hp : N.Place k q fd t) :
    Rank N k (toLex ((N.peers k).work, toLex (q, N.server.distance fd t)))

/-- A step that the client is waiting for. -/
def Helps (N : Network κ ε) (k : κ) : Action κ → Prop
  | .send k' n => k' = k ∧ 0 < n ∧ ∃ r buf sent, (N.peers k).stage = .sending r buf sent
  | .recv k' n _ => k' = k ∧ 0 < n ∧ (N.peers k).down ≠ [] ∧
    ∃ r got, (N.peers k).stage = .receiving r got
  | .serve a => (∃ fds, a.selected = .ready fds) ∧ (N.peers k).up ≠ []
  | _ => False

/-- What the step `a` does to a call of rank `x`: it brings it closer to its end, or the client was
not waiting for it and does not notice. -/
def Closer (N : Network κ ε) (k : κ) (r : Request) (x : ℕ ×ₗ ℕ ×ₗ ℕ) (a : Action κ)
    (N' : Network κ ε) : Prop :=
  (N'.peers k).Calls r ∧
    ∃ y, N'.Rank k y ∧ (y < x ∨ y = x ∧ N'.peers k = N.peers k ∧ ¬ N.Helps k a)

variable {os : Desktop ε} {N N' : Network κ ε} {A : Atomic κ} {k : κ} {r : Request}
  {x : ℕ ×ₗ ℕ ×ₗ ℕ} {a : Action κ}

theorem exists_place (h : Refines os N A) (hlink : (N.peers k).link = .made) :
    ∃ q fd t, N.Place k q fd t := by
  obtain ⟨fd, held, hatt, -⟩ := h.exists_dialogue (.inl hlink)
  cases hatt with
  | queued hk => exact ⟨_, _, _, .queued hk⟩
  | slot i hi => exact ⟨_, _, _, .slot hi⟩

theorem exists_rank (h : Refines os N A) (hlink : (N.peers k).link = .made) :
    ∃ x, N.Rank k x := by
  by_cases hup : (N.peers k).up = []
  · exact ⟨_, .client hup⟩
  · obtain ⟨q, fd, t, hp⟩ := exists_place h hlink
    exact ⟨_, .server hup hp⟩

/-- Bytes have been moved. -/
theorem closer_of_work (h' : Refines os N' A) (hx : N.Rank k x) (hcalls : (N'.peers k).Calls r)
    (hwork : (N'.peers k).work < (N.peers k).work) : N.Closer k r x a N' := by
  obtain ⟨y, hy⟩ := exists_rank h' hcalls.1
  refine ⟨hcalls, y, hy, .inl ?_⟩
  cases hx <;> cases hy <;> exact Prod.Lex.toLex_lt_toLex.mpr (.inl hwork)

/-- The server has come closer to where it meets the client. -/
theorem closer_of_place (hcalls : (N.peers k).Calls r) (hsame : N'.peers k = N.peers k)
    (hhelps : N.Helps k a → (N.peers k).up ≠ []) (hx : N.Rank k x)
    (hplace : ∀ q fd t, N.Place k q fd t → ∃ q' fd' t', N'.Place k q' fd' t' ∧
      (q' < q ∨ q' = q ∧ N'.server.distance fd' t' < N.server.distance fd t)) :
    N.Closer k r x a N' := by
  refine ⟨hsame ▸ hcalls, ?_⟩
  cases hx with
  | client hup =>
    have hy := Rank.client (N := N') (k := k) (by rw [hsame]; exact hup)
    rw [hsame] at hy
    exact ⟨_, hy, .inr ⟨rfl, hsame, fun hh => hhelps hh hup⟩⟩
  | server hup hp =>
    obtain ⟨q', fd', t', hp', hlt⟩ := hplace _ _ _ hp
    have hy := Rank.server (by rw [hsame]; exact hup) hp'
    rw [hsame] at hy
    refine ⟨_, hy, .inl (Prod.Lex.toLex_lt_toLex.mpr (.inr ⟨rfl, ?_⟩))⟩
    exact Prod.Lex.toLex_lt_toLex.mpr hlt

/-- Nothing has happened that concerns the client. -/
theorem closer_of_same (hcalls : (N.peers k).Calls r) (hx : N.Rank k x)
    (hsame : N'.peers k = N.peers k) (hserver : N'.server = N.server)
    (hpeerOf : N'.peerOf = N.peerOf)
    (hback : k ∈ N.backlog → k ∈ N'.backlog ∧ N'.backlog.idxOf k = N.backlog.idxOf k)
    (hhelps : ¬ N.Helps k a) : N.Closer k r x a N' := by
  refine ⟨hsame ▸ hcalls, x, ?_, .inr ⟨rfl, hsame, hhelps⟩⟩
  cases hx with
  | client hup =>
    rw [← hsame] at hup ⊢
    exact .client hup
  | server hup hp =>
    rw [← hsame] at hup ⊢
    rw [← hserver]
    refine .server hup ?_
    cases hp with
    | queued hk =>
      obtain ⟨hk', hidx⟩ := hback hk
      rw [← hidx, ← hserver]
      exact .queued hk'
    | slot hk =>
      rw [← hserver] at hk ⊢
      exact .slot (by rw [hpeerOf]; exact hk)

/-! ## Steps of the server -/

section
variable (hr : Refines os N A) (hcalls : (N.peers k).Calls r) (hx : N.Rank k x)
include hr hcalls hx

theorem closer_of_idle {a : Turn} {server : Server} (ht : N.Truthful (.serve a))
    (hrun : a.keepRunning = true) (hfail : a.selected ≠ .failed)
    (hphase : ∀ code, N.server.phase ≠ .stopped code) (hacc : ¬ N.server.Accepts)
    (hreads : N.server.reads = none)
    (hserver : server = N.server.step ⟨a.keepRunning, a.selected, -1, .arrived 0 []⟩)
    (hnet : server.net = N.server.net) :
    N.Closer k r x (.serve a) { N with server } := by
  refine ⟨hcalls, ?_⟩
  cases hx with
  | client hup => exact ⟨_, .client hup, .inr ⟨rfl, rfl, fun hh => hh.2 hup⟩⟩
  | @server q fd t hup hp =>
    have hp' : Place { N with server } k q fd t := by
      cases hp with
      | queued hk => exact hnet ▸ .queued (N := { N with server }) hk
      | slot hk => exact hnet ▸ .slot (N := { N with server }) (by simp only [hnet]; exact hk)
    have hlt : server.distance fd t < N.server.distance fd t ∨
        a.selected = .interrupted ∧ server = N.server := by
      rw [hserver]
      cases hp with
      | queued hk =>
        have hmaster := (hr.server.net.master N.server.net.listenFd).mpr (.inl rfl)
        refine distance_idle hacc hreads hrun hfail hphase (Nat.zero_le _) (fun hsel fds hfds =>
          ⟨hmaster, (ht hsel fds hfds).1.mpr fun hnil => ?_⟩) fun hread htick => ?_
        · rw [hnil] at hk
          exact absurd hk List.not_mem_nil
        · refine hacc ⟨?_, hread⟩
          generalize N.server.phase = phase at htick
          cases phase <;> simp [Phase.tick] at htick ⊢
      | @slot i hk =>
        have hocc := (hr.occupied _).mp ⟨k, hk⟩
        have hmaster := (hr.server.net.master _).mpr (.inr hocc)
        have hi := i.isLt
        refine distance_idle hacc hreads hrun hfail hphase (by omega) (fun hsel fds hfds =>
          ⟨hmaster, ((ht hsel fds hfds).2 _ k hk).mpr (.inl hup)⟩) fun hread htick => ?_
        have hscan : N.server.phase = .scan i := by
          generalize N.server.phase = phase at htick
          cases phase with
          | scan j =>
            simp only [Phase.tick] at htick
            rw [show j = i by omega]
          | _ => simp only [Phase.tick] at htick; omega
        have hreadable : N.server.readable i = true := Loop.readable_iff.mpr ⟨hocc.1, hread⟩
        rw [Loop.reads, hscan] at hreads
        simp only at hreads
        rw [dif_pos hi, if_pos hreadable] at hreads
        exact absurd hreads (by simp)
    have hy := Rank.server (N := { N with server }) hup hp'
    obtain hlt | ⟨hsel, hsame⟩ := hlt
    · refine ⟨_, hy, .inl (Prod.Lex.toLex_lt_toLex.mpr (.inr ⟨rfl, ?_⟩))⟩
      exact Prod.Lex.toLex_lt_toLex.mpr (.inr ⟨rfl, hlt⟩)
    · subst hsame
      refine ⟨_, hy, .inr ⟨rfl, rfl, ?_⟩⟩
      rintro ⟨⟨fds, hfds⟩, -⟩
      exact absurd (hsel.symm.trans hfds) (by simp)

theorem closer_of_accepted {a : Turn} (hacc : N.server.Accepts) {k₀ : κ} {backlog : List κ}
    (hback : N.backlog = k₀ :: backlog) (hnew : N.server.net.tables.opened a.accepted = false)
    {i : Fin maxClients} (hfree : (N.server.net.clients i).fd = -1) :
    N.Closer k r x (.serve a)
      { N with
        server := { N.server with net := N.server.net.installed i a.accepted, phase := .scan 0 }
        backlog
        peerOf := Function.update N.peerOf a.accepted (some k₀) } := by
  refine closer_of_place hcalls rfl And.right hx fun q fd t hp => ?_
  cases hp with
  | queued hk =>
    by_cases hkk : k = k₀
    · -- it is its turn
      subst hkk
      refine ⟨0, _, _, .slot (i := i) ?_, .inl (Nat.succ_pos _)⟩
      simp only [fd_installed, Function.update_self]
    · rw [hback] at hk
      have hk' : k ∈ backlog := (List.mem_cons.mp hk).resolve_left hkk
      refine ⟨_, _, _, .queued hk', .inl ?_⟩
      rw [hback, List.idxOf_cons_ne _ (Ne.symm hkk)]
      exact Nat.lt_succ_self _
  | @slot j hk =>
    have hocc := (hr.occupied _).mp ⟨k, hk⟩
    have hne : j ≠ i := by
      rintro rfl
      exact hocc.1 hfree
    have hfd : (N.server.net.clients j).fd ≠ a.accepted := by
      intro heq
      exact hr.server.net.not_occupied_of_closed hnew (heq ▸ hocc)
    have hsame : (N.server.net.installed i a.accepted).clients j = N.server.net.clients j :=
      Function.update_of_ne hne _ _
    refine ⟨0, (N.server.net.clients j).fd, j + 1, ?_, .inr ⟨rfl, ?_⟩⟩
    · rw [← hsame]
      refine .slot (i := j) ?_
      simp only [hsame]
      rw [Function.update_of_ne hfd]
      exact hk
    · have htick : N.server.phase.tick = 0 := by rw [hacc.1]; rfl
      exact distance_next rfl (by rw [htick]; rfl) (by omega) fun _ => by omega

omit hr in
/-- A step in which the server reads from somebody else. -/
theorem closer_of_read {a : Turn} {i : Fin maxClients} (hreads : N.server.reads = some i) {k₀ : κ}
    (hk₀ : N.peerOf (N.server.net.clients i).fd = some k₀) (hne : k ≠ k₀)
    (hpeer : N'.peers k = N.peers k) (hback : N'.backlog = N.backlog)
    (hlisten : N'.server.net.listenFd = N.server.net.listenFd)
    (hclients : ∀ j, j ≠ i → N'.server.net.clients j = N.server.net.clients j)
    (hpeerOf : ∀ fd, fd ≠ (N.server.net.clients i).fd → N'.peerOf fd = N.peerOf fd)
    (hread : N'.server.readSet = N.server.readSet) (hphase : N'.server.phase = .scan (i + 1)) :
    N.Closer k r x (.serve a) N' := by
  have hi := i.isLt
  have htick : N.server.phase.tick = i + 1 := by
    rw [(reads_eq_some hreads).1, Phase.tick]
    omega
  have htick' : N'.server.phase.tick = i + 1 + 1 := by
    rw [hphase, Phase.tick]
    omega
  refine closer_of_place hcalls hpeer And.right hx fun q fd t hp => ?_
  cases hp with
  | queued hk =>
    refine ⟨_, _, _, .queued (hback ▸ hk), .inr ⟨by rw [hback], ?_⟩⟩
    rw [hlisten]
    exact distance_next hread (by omega) (by omega) fun _ => by omega
  | @slot j hk =>
    have hji : j ≠ i := by
      rintro rfl
      exact hne (Option.some.inj (hk.symm.trans hk₀))
    have hfd : (N.server.net.clients j).fd ≠ (N.server.net.clients i).fd :=
      fun heq => hne (Option.some.inj ((heq ▸ hk).symm.trans hk₀))
    have hsame := hclients j hji
    refine ⟨_, _, _, .slot (i := j) (by rw [hsame, hpeerOf _ hfd]; exact hk), .inr ⟨rfl, ?_⟩⟩
    rw [hsame]
    refine distance_next hread (by omega) (by omega) fun _ heq => hji (Fin.ext ?_)
    omega

/-- **A step of the server** brings the call closer to its end, or the client was not waiting for
it. -/
theorem closer_of_served {a : Turn} {A' : Atomic κ} (hr' : Refines os N' A')
    (ht : N.Truthful (.serve a)) (hrun : a.keepRunning = true) (hfail : a.selected ≠ .failed)
    (hphase : ∀ code, N.server.phase ≠ .stopped code)
    (haccept : N.server.Accepts → a.accepted ≠ -1) (hs : N.Served a N') :
    N.Closer k r x (.serve a) N' := by
  cases hs with
  | idle hacc hreads hserver hnet =>
    exact closer_of_idle hr hcalls hx ht hrun hfail hphase hacc hreads hserver hnet
  | refused hacc hnone => exact absurd hnone (haccept hacc)
  | accepted hacc hback _ _ hnew hfree =>
    exact closer_of_accepted hr hcalls hx hacc hback hnew hfree
  | @closed i hreads k₀ hk₀ hend ctx =>
    have hne : k ≠ k₀ := by
      rintro rfl
      exact absurd (hcalls.1.symm.trans hend) (by simp)
    exact closer_of_read hcalls hx hreads hk₀ hne rfl rfl rfl
      (fun j hj => Function.update_of_ne hj _ _) (fun fd hfd => Function.update_of_ne hfd _ _)
      rfl rfl
  | @received i hreads k₀ hk₀ chunk rest sent hchunk hup hdown hsent c hfd _ ctx =>
    by_cases hne : k = k₀
    · subst hne
      have hpos := List.length_pos_iff.mpr hchunk
      refine closer_of_work hr' hx ?_ ?_
      · simp only [Function.update_self]
        exact hcalls
      · simp only [Function.update_self, Peer.work]
        rw [hdown hcalls.1, hup, List.nil_append, List.length_append, if_pos rfl]
        rcases hsent with rfl | hframe
        · rw [if_pos rfl]
          omega
        · have hle := tlv_size_le hframe
          rw [if_neg hframe.ne_nil]
          omega
    · exact closer_of_read hcalls hx hreads hk₀ hne (Function.update_of_ne hne _ _) rfl rfl
        (fun j hj => Function.update_of_ne hj _ _) (fun fd _ => rfl) rfl rfl

end

/-! ## Every step -/

section
variable (hcalls : (N.peers k).Calls r) (hx : N.Rank k x)
include hcalls hx

theorem closer_of_none (hhelps : ¬ N.Helps k a) : N.Closer k r x a N :=
  closer_of_same hcalls hx rfl rfl rfl (fun hk => ⟨hk, rfl⟩) hhelps

/-- A step of another client. -/
theorem closer_of_other {k' : κ} (hne : k' ≠ k) (p : Peer ε) (hhelps : ¬ N.Helps k a) :
    N.Closer k r x a (N.withPeer k' p) :=
  closer_of_same hcalls hx (by rw [withPeer_peers, if_neg hne.symm]) rfl rfl
    (fun hk => ⟨hk, rfl⟩) hhelps

end

omit [DecidableEq κ] in
/-- What a client that sends knows. -/
theorem sending_spec (h : Refines os N A) {buf : List UInt8} {sent : Nat}
    (hstage : (N.peers k).stage = .sending r buf sent) :
    sent < buf.length ∧ (N.peers k).down = [] := by
  obtain ⟨fd, held, -, hd⟩ := h.exists_dialogue (k := k) (.inr (by simp [hstage]))
  generalize A.line k = l at hd
  cases hd with
  | sending _ hstage' _ hlt _ hdown =>
    obtain ⟨-, rfl, rfl⟩ := Stage.sending.inj (hstage.symm.trans hstage')
    exact ⟨hlt, hdown⟩
  | idle _ hstage' | waiting _ hstage' | left _ hstage' | gone _ hstage' =>
    exact absurd (hstage.symm.trans hstage') (by simp)
  | served _ _ hstage' => exact absurd (hstage.symm.trans hstage') (by simp)

omit [DecidableEq κ] in
/-- What a client to which there is something to read reads. -/
theorem receiving_spec (h : Refines os N A) {got : List UInt8}
    (hstage : (N.peers k).stage = .receiving r got) (hdown : (N.peers k).down ≠ []) :
    tlv.IsFrame (got ++ (N.peers k).down) := by
  obtain ⟨fd, held, -, hd⟩ := h.exists_dialogue (k := k) (.inr (by simp [hstage]))
  generalize A.line k = l at hd
  cases hd with
  | served _ _ hstage' _ hframe =>
    obtain ⟨-, rfl⟩ := Stage.receiving.inj (hstage.symm.trans hstage')
    exact hframe
  | waiting _ _ _ _ hdown' => exact absurd hdown' hdown
  | idle _ hstage' | sending _ hstage' | left _ hstage' | gone _ hstage' =>
    exact absurd (hstage.symm.trans hstage') (by simp)

section
variable (hr : Refines os N A) (hcalls : (N.peers k).Calls r) (hx : N.Rank k x)
include hr hcalls hx

theorem closer_of_send {A' : Atomic κ} {n : Nat} (hr' : Refines os (N.step os (.send k n)).1 A') :
    N.Closer k r x (.send k n) (N.step os (.send k n)).1 := by
  cases hstage : (N.peers k).stage with
  | sending r' buf sent =>
    obtain rfl := hcalls.of_sending hstage
    obtain ⟨hlt, hdown⟩ := sending_spec hr hstage
    simp only [Network.step, hstage] at hr' ⊢
    by_cases hn : min n (buf.length - sent) = 0
    · rw [if_pos hn]
      refine closer_of_none hcalls hx ?_
      rintro ⟨-, hpos, -⟩
      omega
    · rw [if_neg hn] at hr' ⊢
      refine closer_of_work hr' hx ?_ ?_ <;> rw [withPeer_peers, if_pos rfl]
      · exact hcalls.send _ _ _
      · exact Peer.work_send hstage hdown (by omega) (Nat.min_le_right _ _)
  | idle | receiving =>
    simp only [Network.step, hstage]
    refine closer_of_none hcalls hx ?_
    rintro ⟨-, -, r', buf, sent, hst⟩
    exact absurd (hstage.symm.trans hst) (by simp)

theorem returns_or_closer_of_recv {A' : Atomic κ} {n : Nat} {al : Alloc}
    (hr' : Refines os (N.step os (.recv k n al)).1 A') :
    (∃ st addr, (N.step os (.recv k n al)).2 = some (.answered k r st addr)) ∨
      N.Closer k r x (.recv k n al) (N.step os (.recv k n al)).1 := by
  cases hstage : (N.peers k).stage with
  | receiving r' got =>
    obtain rfl := hcalls.of_receiving hstage
    simp only [Network.step, recvStep, hstage] at hr' ⊢
    by_cases hn : min n (wanted got) = 0 ∨ (N.peers k).down = []
    · rw [if_pos hn]
      refine .inr (closer_of_none hcalls hx ?_)
      rintro ⟨-, hpos, hdown, -⟩
      have hframe := receiving_spec hr hstage hdown
      have hwanted := mt (wanted_of_isFrame hframe).2.mp hdown
      exact hn.elim (by omega) hdown
    · rw [if_neg hn] at hr' ⊢
      obtain ⟨hn, hdown⟩ := not_or.mp hn
      by_cases hall : wanted (got ++ (N.peers k).down.take (min n (wanted got))) = 0
      · rw [if_pos hall]
        exact .inl ⟨_, _, rfl⟩
      · rw [if_neg hall] at hr' ⊢
        refine .inr (closer_of_work hr' hx ?_ ?_) <;> rw [withPeer_peers, if_pos rfl]
        · exact ⟨hcalls.1, .inr ⟨_, rfl⟩⟩
        · refine Peer.work_recv hstage hdown (by omega) fun hnil => hall ?_
          have hframe := receiving_spec hr hstage hdown
          rw [← List.take_append_drop (min n (wanted got)) (N.peers k).down, ← List.append_assoc]
            at hframe
          exact (wanted_of_isFrame hframe).2.mpr hnil
  | idle | sending =>
    simp only [Network.step, recvStep, hstage]
    refine .inr (closer_of_none hcalls hx ?_)
    rintro ⟨-, -, -, r', got, hst⟩
    exact absurd (hstage.symm.trans hst) (by simp)

end

/-- What the surroundings of the server see to: nobody stops it, `select` does not fail, and when
there is a connection to accept, `accept` succeeds. -/
def Serviced (N : Network κ ε) : Action κ → Prop
  | .serve a => a.keepRunning = true ∧ a.selected ≠ .failed ∧ (N.server.Accepts → a.accepted ≠ -1)
  | _ => True

/-- **One step.**  The call returns, or the client is gone, or the call has come closer to its end,
or the client was not waiting for this step. -/
theorem returns_or_closer (hr : Refines os N A) {A' : Atomic κ}
    (hr' : Refines os (N.step os a).1 A') (hcalls : (N.peers k).Calls r) (hx : N.Rank k x)
    (hal : N.Allowed a) (ht : N.Truthful a) (hs : N.Serviced a)
    (hphase : ∀ code, N.server.phase ≠ .stopped code) :
    ((∃ st addr, (N.step os a).2 = some (.answered k r st addr)) ∨
      (N.step os a).2 = some (.left k)) ∨ N.Closer k r x a (N.step os a).1 := by
  have hidle : (N.peers k).stage ≠ .idle := by
    obtain ⟨-, ⟨buf, sent, hst⟩ | ⟨got, hst⟩⟩ := hcalls <;> simp [hst]
  cases a with
  | connect k' =>
    refine .inr ?_
    rw [Network.step]
    split
    · rename_i hlink
      have hne : k' ≠ k := by
        rintro rfl
        exact absurd (hcalls.1.symm.trans hlink) (by simp)
      refine closer_of_same hcalls hx (Function.update_of_ne hne.symm _ _) rfl rfl (fun hk => ?_) id
      exact ⟨List.mem_append_left _ hk, List.idxOf_append_of_mem hk⟩
    · exact closer_of_none hcalls hx id
  | ask k' r' =>
    refine .inr ?_
    rw [Network.step]
    split
    · rename_i hstage
      split
      · exact closer_of_none hcalls hx id
      · refine closer_of_other hcalls hx ?_ _ id
        rintro rfl
        exact hidle hstage
    · exact closer_of_none hcalls hx id
  | send k' n =>
    refine .inr ?_
    by_cases hne : k' = k
    · subst hne
      exact closer_of_send hr hcalls hx hr'
    · have hhelps : ¬ N.Helps k (.send k' n) := fun hh => hne hh.1
      rw [Network.step]
      split
      · simp only
        split
        · exact closer_of_none hcalls hx hhelps
        · exact closer_of_other hcalls hx hne _ hhelps
      · exact closer_of_none hcalls hx hhelps
  | recv k' n al =>
    by_cases hne : k' = k
    · subst hne
      exact (returns_or_closer_of_recv hr hcalls hx hr').imp_left .inl
    · have hhelps : ¬ N.Helps k (.recv k' n al) := fun hh => hne hh.1
      refine .inr ?_
      rw [Network.step, recvStep]
      split
      · simp only
        split
        · exact closer_of_none hcalls hx hhelps
        · split
          · exact closer_of_other hcalls hx hne _ hhelps
          · exact closer_of_other hcalls hx hne _ hhelps
      · exact closer_of_none hcalls hx hhelps
  | exit k' kept =>
    rw [Network.step]
    split
    · by_cases hne : k' = k
      · subst hne
        exact .inl (.inr rfl)
      · exact .inr (closer_of_other hcalls hx hne _ id)
    · exact .inr (closer_of_none hcalls hx id)
  | serve t =>
    exact .inr (closer_of_served hr hcalls hx hr' ht hs.1 hs.2.1 hphase hs.2.2
      (served_of_step hr hal))

/-- A request that has been asked is in progress. -/
theorem calls_of_asked (h : (N.step os a).2 = some (.asked k r)) :
    ((N.step os a).1.peers k).Calls r := by
  cases a with
  | ask k' r' =>
    rw [Network.step] at h ⊢
    split at h
    · rename_i hlink hstage
      split at h
      · exact absurd h (by simp)
      · rename_i buf hbuf
        obtain ⟨rfl, rfl⟩ := Note.asked.inj (Option.some.inj h)
        rw [withPeer_peers, if_pos rfl]
        exact ⟨hlink, .inl ⟨_, _, rfl⟩⟩
    · exact absurd h (by simp)
  | connect | send | exit => grind [Network.step]
  | recv => grind [Network.step, recvStep, ClientMng.Result.note]
  | serve => exact absurd h (by simp [Network.step])

/-- The server is where it was after a step of a client. -/
theorem server_step (h : ∀ t, a ≠ .serve t) : (N.step os a).1.server = N.server := by
  cases a with
  | serve t => exact absurd rfl (h t)
  | connect | ask | send | exit => grind [Network.step, withPeer]
  | recv => grind [Network.step, recvStep, withPeer]

/-- The server is not stopped. -/
theorem phase_step (hr : Refines os N A) (hal : N.Allowed a) (hs : N.Serviced a)
    (hphase : ∀ code, N.server.phase ≠ .stopped code) (code : Int) :
    (N.step os a).1.server.phase ≠ .stopped code := by
  by_cases hclient : ∀ t, a ≠ .serve t
  · rw [server_step hclient]
    exact hphase code
  · obtain ⟨t, rfl⟩ := not_forall_not.mp hclient
    have hserved := served_of_step hr hal
    rw [Network.step]
    generalize N.serve t = N' at hserved
    cases hserved with
    | idle _ _ hserver =>
      simp only [hserver]
      exact phase_running hs.1 hs.2.1 hphase code
    | refused | accepted | closed | received => simp

end Network

/-! ## Fair runs -/

section
variable {κ ε : Type} [DecidableEq κ]

/-- A run in which nobody is left out, and in which the surroundings do their part.  What a client
asks of its operating system when a call returns is one step here, so it is assumed to return. -/
structure FairRun (os : Desktop ε) (N : Nat → Network κ ε) (act : Nat → Action κ) : Prop where
  next : ∀ n, N (n + 1) = ((N n).step os (act n)).1
  promised : ∀ n, (N n).Promised (act n)
  truthful : ∀ n, (N n).Truthful (act n)
  serviced : ∀ n, (N n).Serviced (act n)
  /-- The server gets on, and its `select` is not interrupted for ever. -/
  serves : ∀ n, ∃ m, n ≤ m ∧ ∃ a fds, act m = .serve a ∧ a.selected = .ready fds
  /-- So does every client. -/
  sends : ∀ k n, ∃ m, n ≤ m ∧ ∃ j, 0 < j ∧ act m = .send k j
  receives : ∀ k n, ∃ m, n ≤ m ∧ ∃ j al, 0 < j ∧ act m = .recv k j al

variable {os : Desktop ε} {N : Nat → Network κ ε} {act : Nat → Action κ} {k : κ} {r : Request}

/-- What holds all along such a run. -/
theorem FairRun.state (h : FairRun os N act) {A : Atomic κ} (hr : Refines os (N 0) A)
    (hprompt : (N 0).Prompt) (hphase : ∀ code, (N 0).server.phase ≠ .stopped code) (n : Nat) :
    (∃ A, Refines os (N n) A) ∧ (N n).Prompt ∧ ∀ code, (N n).server.phase ≠ .stopped code := by
  induction n with
  | zero => exact ⟨⟨A, hr⟩, hprompt, hphase⟩
  | succ n ih =>
    obtain ⟨⟨A, hr⟩, hprompt, hphase⟩ := ih
    have hal := hprompt.allowed (h.promised n)
    obtain ⟨A', -, hr'⟩ := hr.step hal
    rw [h.next]
    exact ⟨⟨A', hr'⟩, hprompt.step hr (h.promised n) (h.truthful n),
      Network.phase_step hr hal (h.serviced n) hphase⟩

/-- The call of `k` returns in the `n`-th step, or `k` is gone with it. -/
def Returns (os : Desktop ε) (N : Nat → Network κ ε) (act : Nat → Action κ) (k : κ) (r : Request)
    (n : Nat) : Prop :=
  (∃ st addr, ((N n).step os (act n)).2 = some (.answered k r st addr)) ∨
    ((N n).step os (act n)).2 = some (.left k)

/-- There is always another step that the client is waiting for. -/
theorem FairRun.helps (h : FairRun os N act) {p : Peer ε} (hcalls : p.Calls r)
    (hwaits : ∀ n got, (N n).peers k = p → p.stage = .receiving r got → p.down = [] → p.up ≠ [])
    (n : Nat) : ∃ m, n ≤ m ∧ ((N m).peers k = p → (N m).Helps k (act m)) := by
  obtain ⟨-, ⟨buf, sent, hst⟩ | ⟨got, hst⟩⟩ := hcalls
  · obtain ⟨m, hm, j, hj, hact⟩ := h.sends k n
    refine ⟨m, hm, ?_⟩
    rintro rfl
    rw [hact]
    exact ⟨rfl, hj, r, buf, sent, hst⟩
  · by_cases hdown : p.down = []
    · obtain ⟨m, hm, a, fds, hact, hsel⟩ := h.serves n
      refine ⟨m, hm, fun hp => ?_⟩
      have hup := hwaits m got hp hst hdown
      subst hp
      rw [hact]
      exact ⟨⟨fds, hsel⟩, hup⟩
    · obtain ⟨m, hm, j, al, hj, hact⟩ := h.receives k n
      refine ⟨m, hm, ?_⟩
      rintro rfl
      rw [hact]
      exact ⟨rfl, hj, hdown, r, got, hst⟩

omit [DecidableEq κ] in
/-- A client that waits for the server has sent something that the server has not read. -/
theorem waiting_spec {N : Network κ ε} {A : Atomic κ} (hr : Refines os N A) {got : List UInt8}
    (hstage : (N.peers k).stage = .receiving r got) (hdown : (N.peers k).down = []) :
    (N.peers k).up ≠ [] := by
  obtain ⟨fd, held, hatt, hd⟩ := hr.exists_dialogue (k := k) (.inr (by simp [hstage]))
  generalize A.line k = l at hd
  cases hd with
  | @waiting _ buf _ _ hbuf hin =>
    intro hup
    obtain ⟨-, hframe, -⟩ := encode_spec hbuf
    rw [hup, List.append_nil] at hin
    subst hin
    cases hatt with
    | queued => exact hframe.ne_nil rfl
    | slot i =>
      have hinc := (hr.server.net.settled i).incomplete
      rw [← List.append_nil (ClientState.data _)] at hinc
      exact hframe.not_incomplete [] hinc
  | served _ _ _ _ _ hdown' => exact absurd hdown hdown'
  | idle _ hstage' | sending _ hstage' | left _ hstage' | gone _ hstage' =>
    exact absurd (hstage.symm.trans hstage') (by simp)

/-- A call is in progress at a moment of the run, so far from its end. -/
def Pends (N : Nat → Network κ ε) (k : κ) (r : Request) (n : Nat) (x : ℕ ×ₗ ℕ ×ₗ ℕ) : Prop :=
  ((N n).peers k).Calls r ∧ (N n).Rank k x

/-- A call that is in progress returns, or it comes closer to its end. -/
theorem FairRun.closer (h : FairRun os N act)
    (hstate : ∀ n, (∃ A, Refines os (N n) A) ∧ (N n).Prompt ∧
      ∀ code, (N n).server.phase ≠ .stopped code) {n : Nat} {x : ℕ ×ₗ ℕ ×ₗ ℕ}
    (hp : Pends N k r n x) :
    ∃ m, n ≤ m ∧ (Returns os N act k r m ∨ ∃ y, y < x ∧ Pends N k r m y) := by
  -- the client's record stays what it is until then
  have hstep : ∀ m, Pends N k r m x →
      Returns os N act k r m ∨ (N m).Closer k r x (act m) (N (m + 1)) := by
    intro m hm
    obtain ⟨⟨A, hr⟩, hprompt, hphase⟩ := hstate m
    obtain ⟨⟨A', hr'⟩, -⟩ := hstate (m + 1)
    rw [h.next] at hr' ⊢
    exact Network.returns_or_closer hr hr' hm.1 hm.2 (hprompt.allowed (h.promised m)) (h.truthful m)
      (h.serviced m) hphase
  have hstay : ∀ m, Pends N k r m x ∧ (N m).peers k = (N n).peers k →
      (Returns os N act k r m ∨ ∃ y, y < x ∧ Pends N k r (m + 1) y) ∨
        Pends N k r (m + 1) x ∧ (N (m + 1)).peers k = (N n).peers k := by
    rintro m ⟨hm, hsame⟩
    obtain hret | ⟨hcalls, y, hy, hlt | ⟨rfl, hpeer, -⟩⟩ := hstep m hm
    · exact .inl (.inl hret)
    · exact .inl (.inr ⟨y, hlt, hcalls, hy⟩)
    · exact .inr ⟨⟨hcalls, hy⟩, hpeer.trans hsame⟩
  have hhelp : ∀ m, ∃ m', m ≤ m' ∧ (Pends N k r m' x ∧ (N m').peers k = (N n).peers k →
      Returns os N act k r m' ∨ ∃ y, y < x ∧ Pends N k r (m' + 1) y) := by
    intro m
    have hwaits : ∀ i got, (N i).peers k = (N n).peers k →
        ((N n).peers k).stage = .receiving r got → ((N n).peers k).down = [] →
        ((N n).peers k).up ≠ [] := by
      intro i got hi hst hdown
      obtain ⟨⟨A, hr⟩, -⟩ := hstate i
      rw [← hi] at hst hdown ⊢
      exact waiting_spec hr hst hdown
    obtain ⟨m', hm', hhelps⟩ := h.helps hp.1 hwaits m
    refine ⟨m', hm', fun ⟨hm, hsame⟩ => ?_⟩
    obtain hret | ⟨hcalls, y, hy, hlt | ⟨-, -, hnot⟩⟩ := hstep m' hm
    · exact .inl hret
    · exact .inr ⟨y, hlt, hcalls, hy⟩
    · exact absurd (hhelps hsame) hnot
  obtain ⟨m, hm, hret | ⟨y, hlt, hy⟩⟩ := Progress.eventually_of_helpful hstay hhelp ⟨hp, rfl⟩
  · exact ⟨m, hm, .inl hret⟩
  · exact ⟨m + 1, by omega, .inr ⟨y, hlt, hy⟩⟩

/-- **Every call returns.**  In every run in which nobody is left out, the server is not stopped and
neither `select` nor `accept` fails, every call that a client has begun returns with an answer,
unless the client goes away first; whatever the other clients do, in however many pieces the request
and the reply travel, and however many connections are ahead. -/
theorem every_call_returns {al al' : Alloc} {mng : ServerMng}
    (hmng : ServerMng.init al = some mng) {listenFd : Int} (h0 : 0 ≤ listenFd) {opened : FdSet}
    (hopen : opened listenFd = true) {net : ServerNet}
    (hnet : ServerNet.create al' listenFd opened = some net) (h₀ : (N 0).Initial net mng)
    (h : FairRun os N act) {n : Nat} (hask : ((N n).step os (act n)).2 = some (.asked k r)) :
    ∃ m, n < m ∧ Returns os N act k r m := by
  have hphase : ∀ code, (N 0).server.phase ≠ .stopped code := by
    rw [h₀.server]
    simp [Loop.start]
  have hstate := h.state (refines_initial hmng h0 hopen hnet h₀) (prompt_initial h₀) hphase
  have hcalls : ((N (n + 1)).peers k).Calls r := by
    rw [h.next]
    exact Network.calls_of_asked hask
  obtain ⟨⟨A, hr⟩, -⟩ := hstate (n + 1)
  obtain ⟨x, hx⟩ := Network.exists_rank hr hcalls.1
  obtain ⟨m, hm, hret⟩ := Progress.eventually_of_rank (W := Pends N k r)
    (fun n x hp => h.closer hstate hp) ⟨hcalls, hx⟩
  exact ⟨m, hm, hret⟩

end

/-! A fair run: one client, with the server, the client's `send` and its `recv` in turns. -/

section
variable (N : Network Unit Unit)

/-- What there is to report. -/
def report : FdSet := fun fd =>
  decide (fd = N.server.net.listenFd ∧ N.backlog ≠ []) || match N.peerOf fd with
    | some k => decide ((N.peers k).up ≠ [] ∨ (N.peers k).link = .ended)
    | none => false

/-- A step of the server. -/
def roundTurn : Turn := ⟨true, .ready (report N), if N.backlog = [] then -1 else 4, 9⟩

/-- Whose turn it is. -/
def roundRobin : Nat → Action Unit
  | 0 => .connect ()
  | 1 => .ask () .logout
  | n + 2 => if n % 3 = 0 then .serve (roundTurn N) else if n % 3 = 1 then .send () 9
    else .recv () 9 []

/-- The client before it connects. -/
def solo (mng : ServerMng) : Network Unit Unit where
  server := Loop.start firstNet ⟨mng, [], []⟩
  peers _ := ⟨⟨3, 0, .empty, ⟨7, []⟩⟩, (), .idle, .unmade, [], []⟩
  backlog := []
  peerOf _ := none

/-- The run. -/
def rounds (N : Network Unit Unit) : Nat → Network Unit Unit
  | 0 => N
  | n + 1 => ((rounds N n).step willing (roundRobin (rounds N n) n)).1

end

section
variable {N : Network Unit Unit} {A : Atomic Unit} {opened : FdSet}

theorem truthful_roundRobin (hr : Refines willing N A) (n : Nat) :
    N.Truthful (roundRobin N n) := by
  have hlisten : N.peerOf N.server.net.listenFd = none := by
    refine Option.eq_none_iff_forall_ne_some.mpr fun k hk => ?_
    exact hr.server.net.not_occupied ((hr.occupied _).mp ⟨k, hk⟩)
  match n with
  | 0 | 1 => trivial
  | n + 2 =>
    rw [roundRobin]
    split
    · intro _ fds hfds
      obtain rfl := Selected.ready.inj hfds
      refine ⟨?_, fun fd k hk => ?_⟩
      · simp [report, hlisten]
      · have hne : fd ≠ N.server.net.listenFd := by
          rintro rfl
          exact absurd (hlisten.symm.trans hk) (by simp)
        simp [report, hk, hne, Peer.Ready]
    · split <;> trivial

theorem promised_roundRobin (hr : Refines willing N A)
    (hled : N.server.net.Ledger 3 fun fd => decide (0 ≤ fd ∧ fd ≤ 3)) (n : Nat) :
    N.Promised (roundRobin N n) := by
  match n with
  | 0 | 1 => trivial
  | n + 2 =>
    rw [roundRobin]
    split
    · intro _
      simp only [roundTurn]
      split
      · exact .inl rfl
      · rename_i hback
        refine .inr ⟨by decide, by decide, Bool.eq_false_iff.mpr fun hopen => ?_⟩
        -- the one client there is has no descriptor yet
        obtain hstart | hocc := (hled.opened_iff 4).mp hopen
        · exact absurd hstart (by decide)
        · obtain ⟨k, hk⟩ := (hr.occupied 4).mpr hocc
          obtain ⟨k', hk'⟩ := List.exists_mem_of_ne_nil _ hback
          have hq := (hr.queued k').mp hk'
          have hfd := (hr.line k 4).mpr hk
          obtain rfl : k = k' := rfl
          generalize A.line k = l at hq hfd
          cases l with
          | made fd | left fd =>
            obtain rfl : fd = some 4 := hfd
            exact hq
          | unmade | forgotten => exact hq
    · split <;> trivial

theorem serviced_roundRobin (hprompt : N.Prompt) (n : Nat) : N.Serviced (roundRobin N n) := by
  match n with
  | 0 | 1 => trivial
  | n + 2 =>
    rw [roundRobin]
    split
    · refine ⟨rfl, by simp [roundTurn], fun hacc => ?_⟩
      simp only [roundTurn]
      rw [if_neg (hprompt.listen hacc)]
      decide
    · split <;> trivial

/-- The ledger of the descriptors. -/
theorem ledger_step_network {os : Desktop Unit} {a : Action Unit} {listenFd : Int}
    (hr : Refines os N A) (hal : N.Allowed a) (h : N.server.net.Ledger listenFd opened) :
    (N.step os a).1.server.net.Ledger listenFd opened := by
  by_cases hclient : ∀ t, a ≠ .serve t
  · rwa [Network.server_step hclient]
  · obtain ⟨t, rfl⟩ := not_forall_not.mp hclient
    have hserved := Network.served_of_step hr hal
    rw [Network.step]
    generalize N.serve t = N' at hserved
    cases hserved with
    | idle _ _ _ hnet => exact hnet ▸ h
    | refused => exact h
    | accepted _ _ h0 hlt hnew hfree => exact h.installed hfree h0 hlt hnew
    | closed hreads =>
      exact h.dropped (Loop.readable_iff.mp (Network.reads_eq_some hreads).2).1
    | received _ _ _ _ _ _ hfd hc => exact h.kept hfd hc

/-- Nobody is left out in this run. -/
theorem fair_rounds {mng : ServerMng} (hmng : ServerMng.init [] = some mng) :
    FairRun willing (rounds (solo mng)) fun n => roundRobin (rounds (solo mng) n) n := by
  have hinit : (solo mng).Initial firstNet mng :=
    ⟨rfl, fun _ => ⟨show (0 : Int) ≤ 3 by decide, rfl, rfl, rfl, rfl, rfl, rfl⟩, rfl, fun _ => rfl⟩
  have hopen : (fun fd : Int => decide (0 ≤ fd ∧ fd ≤ 3)) 3 = true := by decide
  have hnet : ServerNet.create [] 3 (fun fd => 0 ≤ fd ∧ fd ≤ 3) = some firstNet := rfl
  have hstate : ∀ n, (∃ A, Refines willing (rounds (solo mng) n) A) ∧
      (rounds (solo mng) n).Prompt ∧
      (rounds (solo mng) n).server.net.Ledger 3 fun fd => decide (0 ≤ fd ∧ fd ≤ 3) := by
    intro n
    induction n with
    | zero =>
      exact ⟨⟨_, refines_initial hmng (by decide) hopen hnet hinit⟩, prompt_initial hinit,
        ledger_create (by decide) hopen hnet⟩
    | succ n ih =>
      obtain ⟨⟨A, hr⟩, hprompt, hled⟩ := ih
      have hp := promised_roundRobin hr hled n
      have hal := hprompt.allowed hp
      obtain ⟨A', -, hr'⟩ := hr.step hal
      exact ⟨⟨A', hr'⟩, hprompt.step hr hp (truthful_roundRobin hr n),
        ledger_step_network hr hal hled⟩
  refine ⟨fun _ => rfl, fun n => ?_, fun n => ?_, fun n => ?_, fun n => ?_, fun k n => ?_,
    fun k n => ?_⟩
  · obtain ⟨⟨A, hr⟩, -, hled⟩ := hstate n
    exact promised_roundRobin hr hled n
  · obtain ⟨⟨A, hr⟩, -⟩ := hstate n
    exact truthful_roundRobin hr n
  · exact serviced_roundRobin (hstate n).2.1 n
  · refine ⟨3 * n + 2, by omega, roundTurn (rounds (solo mng) (3 * n + 2)),
      report (rounds (solo mng) (3 * n + 2)), ?_, rfl⟩
    rw [roundRobin, if_pos (by omega)]
  · refine ⟨3 * n + 1 + 2, by omega, 9, by decide, ?_⟩
    rw [roundRobin, if_neg (by omega), if_pos (by omega)]
  · refine ⟨3 * n + 2 + 2, by omega, 9, [], by decide, ?_⟩
    rw [roundRobin, if_neg (by omega), if_neg (by omega)]

/-- So the one call of this run returns. -/
theorem every_call_returns_rounds : ∃ mng m, ServerMng.init [] = some mng ∧ 1 < m ∧
    Returns willing (rounds (solo mng)) (fun n => roundRobin (rounds (solo mng) n) n) () .logout
      m := by
  obtain ⟨mng, hmng⟩ : ∃ mng, ServerMng.init [] = some mng :=
    Option.isSome_iff_exists.mp (by decide +kernel)
  have hinit : (rounds (solo mng) 0).Initial firstNet mng :=
    ⟨rfl, fun _ => ⟨show (0 : Int) ≤ 3 by decide, rfl, rfl, rfl, rfl, rfl, rfl⟩, rfl, fun _ => rfl⟩
  have hask : ((rounds (solo mng) 1).step willing (roundRobin (rounds (solo mng) 1) 1)).2 =
      some (.asked () .logout) := rfl
  obtain ⟨m, hm, hret⟩ := every_call_returns hmng (show (0 : Int) ≤ 3 by decide)
    (show (fun fd : Int => decide (0 ≤ fd ∧ fd ≤ 3)) 3 = true by decide)
    (show ServerNet.create [] 3 (fun fd => 0 ≤ fd ∧ fd ≤ 3) = some firstNet from rfl) hinit
    (fair_rounds hmng) hask
  exact ⟨mng, m, hmng, hm, hret⟩

end

end ChatProject
