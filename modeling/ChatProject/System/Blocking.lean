import ChatProject.Server.Passes
import ChatProject.System.Linearization

/-!
# The server never waits for one client

The server has one thread, and its calls of `accept` and `recv` block.  What keeps one client from
holding up all the others is that each of these calls is made only where `select` has reported that
there is something to accept or to read; but between the report and the call the loop accepts a
connection, reads from other slots and takes connections down, whose descriptors the kernel may
give out again.

* `Network.Served` — what one step of the server can do to the network.
* `Network.Truthful` — `select` reports what there is.
* `Network.Prompt` — what has been reported and not yet looked at is still there.
-/

set_option autoImplicit false

namespace ChatProject

open Framing ServerMng ServerNet

/-- There is something to read, if only the end of the stream. -/
def Peer.Ready {ε : Type} (p : Peer ε) : Prop := p.up ≠ [] ∨ p.link = .ended

/-- The slot is still to be looked at in this pass. -/
def Phase.Ahead : Phase → Fin maxClients → Prop
  | .accept, _ => True
  | .scan i, j => i ≤ j
  | _, _ => False

namespace Network

variable {κ ε : Type}

/-! ## What a step of the server does -/

/-- What the step `a` of the server can do. -/
inductive Served [DecidableEq κ] (N : Network κ ε) (a : Turn) : Network κ ε → Prop
  /-- Nothing is accepted or read. -/
  | idle (hacc : ¬ N.server.Accepts) (hreads : N.server.reads = none) {server : Server}
    (hserver : server = N.server.step ⟨a.keepRunning, a.selected, -1, .arrived 0 []⟩)
    (hnet : server.net = N.server.net) : Served N a { N with server }
  /-- `accept` fails. -/
  | refused (hacc : N.server.Accepts) (hfail : a.accepted = -1) :
    Served N a { N with server := { N.server with phase := .scan 0 } }
  | accepted (hacc : N.server.Accepts) {k : κ} {backlog : List κ} (hback : N.backlog = k :: backlog)
    (h0 : 0 ≤ a.accepted) (hlt : a.accepted < fdSetSize)
    (hnew : N.server.net.tables.opened a.accepted = false) {i : Fin maxClients}
    (hfree : (N.server.net.clients i).fd = -1) :
    Served N a
      { N with
        server := { N.server with net := N.server.net.installed i a.accepted, phase := .scan 0 }
        backlog
        peerOf := Function.update N.peerOf a.accepted (some k) }
  /-- The server learns that a client is gone. -/
  | closed {i : Fin maxClients} (hreads : N.server.reads = some i) {k : κ}
    (hk : N.peerOf (N.server.net.clients i).fd = some k) (hend : (N.peers k).link = .ended)
    (ctx : Mng) :
    Served N a
      { N with
        server := ⟨N.server.net.dropped i, N.server.readSet, .scan (i + 1), ctx⟩
        peerOf := Function.update N.peerOf (N.server.net.clients i).fd none }
  /-- A piece comes in, and what it completes is answered. -/
  | received {i : Fin maxClients} (hreads : N.server.reads = some i) {k : κ}
    (hk : N.peerOf (N.server.net.clients i).fd = some k) {chunk rest sent : List UInt8}
    (hchunk : chunk ≠ []) (hup : (N.peers k).up = chunk ++ rest)
    (hdown : (N.peers k).link = .made → (N.peers k).down = [])
    (hsent : sent = [] ∨ tlv.IsFrame sent) {c : ClientState}
    (hfd : c.fd = (N.server.net.clients i).fd) (hc : c.Settled) (ctx : Mng) :
    Served N a
      { N with
        server := ⟨N.server.net.kept i c, N.server.readSet, .scan (i + 1), ctx⟩
        peers := Function.update N.peers k
          { N.peers k with up := rest, down := (N.peers k).down ++ sent } }

section
variable [DecidableEq κ] {os : Desktop ε} {N : Network κ ε} {A : Atomic κ}

/-- While a request is on its way, nothing is on the way back. -/
theorem down_of_up {c : Chat} {fd : Option Int} {held : List UInt8} {p : Peer ε} {l : Line}
    (h : Dialogue os c fd held p l) (hlink : p.link = .made) (hup : p.up ≠ []) : p.down = [] := by
  cases h with
  | idle _ _ _ hdown | sending _ _ _ _ _ hdown | waiting _ _ _ _ hdown => exact hdown
  | served _ _ _ hin => exact absurd (List.append_eq_nil_iff.mp hin).2 hup
  | left hlink' | gone hlink' => exact absurd (hlink.symm.trans hlink') (by simp)

theorem served_of_read (h : Refines os N A) {i : Fin maxClients} (hreads : N.server.reads = some i)
    {k : κ} (hk : N.peerOf (N.server.net.clients i).fd = some k)
    (hend : (N.peers k).up = [] → (N.peers k).link = .ended) (a : Turn) :
    Served N a (N.readFrom i k a.size) := by
  have hd := h.dialogue k _ _ (.slot i hk)
  have hfd : 0 ≤ (N.server.net.clients i).fd :=
    (h.server.net.range _ ((h.occupied _).mp ⟨k, hk⟩)).1
  obtain ⟨hup, heq⟩ | ⟨chunk, rest, frames, c, hchunk, hup, hcfd, hc, hseg, heq⟩ :=
    readFrom_cases h.server.net hreads k a.size
  · have hsent : (onDisc (N.server.net.clients i).fd N.server.ctx).sent = [] := by
      rw [onDisc, Mng.call, h.sent]
      rfl
    rw [heq, hsent]
    exact .closed hreads hk (hend hup) _
  · have hdown : (N.peers k).link = .made → (N.peers k).down = [] := fun hlink =>
      down_of_up hd hlink (by rw [hup]; simp [hchunk])
    rw [heq]
    rw [h.chat] at hd
    obtain ⟨rfl, -⟩ | ⟨r, buf, frame, l', rfl, hsent, hframe, -⟩ :=
      hd.read h.server.mng hfd hup hchunk hseg
    · have hr := Served.received (a := a) hreads hk hchunk hup hdown (.inl rfl) hcfd hc
        (quiet N.server.ctx)
      simp only [List.foldl_nil, h.sent]
      simpa only [List.append_nil] using hr
    · have hcall : ([buf].foldl (fun m msg => onMsg (N.server.net.clients i).fd msg m)
          N.server.ctx).sent = [((N.server.net.clients i).fd, frame)] := by
        rw [List.foldl_cons, List.foldl_nil, onMsg, Mng.call, h.mem, h.sent, List.headD_nil,
          List.nil_append]
        exact hsent
      rw [hcall]
      simp only [List.foldl_cons, List.foldl_nil, deliver, hk, Function.update_self,
        Function.update_idem]
      exact .received hreads hk hchunk hup hdown (.inr hframe) hcfd hc _

/-- **What a step of the server does.** -/
theorem served_of_step (h : Refines os N A) {a : Turn} (hal : N.Allowed (.serve a)) :
    N.Served a (N.serve a) := by
  rw [serve]
  by_cases hacc : N.server.Accepts
  · rw [if_pos hacc, accept, step_of_accepts hacc]
    have hfail : a.accepted = -1 → N.server.net.handleNewConnection a.accepted = N.server.net :=
      fun hfail => by rw [handleNewConnection, if_pos hfail]
    cases hback : N.backlog with
    | nil =>
      have hnone := (hal.1 hacc).resolve_right fun hp => hp.1 hback
      have hr := Served.refused (a := a) hacc hnone
      simp only [hfail hnone]
      rwa [hback] at hr
    | cons k backlog =>
      simp only
      by_cases hnone : a.accepted = -1
      · have hr := Served.refused (a := a) hacc hnone
        rw [if_pos hnone]
        simp only [hfail hnone]
        rwa [hback] at hr
      · obtain ⟨-, h0, hlt, hnew⟩ := (hal.1 hacc).resolve_left hnone
        obtain ⟨i, hi⟩ := exists_freeSlot h.server.net h0 hlt hnew
        have hfree : (N.server.net.clients i).fd = -1 := by simpa using List.find?_some hi
        have hinst : N.server.net.handleNewConnection a.accepted =
            N.server.net.installed i a.accepted := by
          simp only [handleNewConnection, if_neg hnone, hi]
          rfl
        have hopen : (N.server.net.installed i a.accepted).tables.opened a.accepted = true :=
          (FdSet.set_apply _ _ _).mpr (.inl rfl)
        rw [if_neg hnone]
        simp only [hinst]
        rw [if_pos hopen]
        exact .accepted hacc hback h0 hlt hnew hfree
  · rw [if_neg hacc]
    split
    · rename_i hreads
      exact .idle hacc hreads rfl (turn_idle hacc hreads _).1
    · rename_i i hreads
      obtain ⟨-, hread⟩ := reads_eq_some hreads
      obtain ⟨k, hk⟩ := (h.occupied _).mpr ⟨(Loop.readable_iff.mp hread).1, i, rfl⟩
      rw [hk]
      refine served_of_read h hreads hk (hal.2 k ?_) a
      rw [reader, hreads, Option.mem_def, Option.bind_some, hk]

end

/-! ## What has been reported -/

section
variable {N : Network κ ε}

/-- `select` reports the listening socket when a connection is waiting, and a connection when there
is something to read on it; and nothing else. -/
def Truthful (N : Network κ ε) : Action κ → Prop
  | .serve a => N.server.phase = .select → ∀ fds, a.selected = .ready fds →
    (fds N.server.net.listenFd = true ↔ N.backlog ≠ []) ∧
    ∀ fd k, N.peerOf fd = some k → (fds fd = true ↔ (N.peers k).Ready)
  | _ => True

/-- `accept` fails, or returns a descriptor that is not open. -/
def Promised (N : Network κ ε) : Action κ → Prop
  | .serve a => N.server.Accepts → a.accepted = -1 ∨ 0 ≤ a.accepted ∧ a.accepted < fdSetSize ∧
    N.server.net.tables.opened a.accepted = false
  | _ => True

/-- What has been reported and not looked at is there. -/
structure Prompt (N : Network κ ε) : Prop where
  /-- Nothing is reported that was not asked about. -/
  masked : N.server.phase = .accept → ∀ fd, N.server.readSet fd = true →
    N.server.net.tables.masterSet fd = true
  listen : N.server.Accepts → N.backlog ≠ []
  slots : ∀ {j k}, N.server.phase.Ahead j → N.server.readable j = true →
    N.peerOf (N.server.net.clients j).fd = some k → (N.peers k).Ready

/-- A step of a client. -/
theorem Prompt.client (h : Prompt N) {N' : Network κ ε} (hserver : N'.server = N.server)
    (hpeerOf : N'.peerOf = N.peerOf) (hback : N.backlog ≠ [] → N'.backlog ≠ [])
    (hready : ∀ k, (N.peers k).Ready → (N'.peers k).Ready) : Prompt N' where
  masked := by rw [hserver]; exact h.masked
  listen := by rw [hserver]; exact fun hacc => hback (h.listen hacc)
  slots := by
    rw [hserver, hpeerOf]
    exact fun hahead hread hk => hready _ (h.slots hahead hread hk)

/-- A step of the server after which no pass is under way. -/
theorem prompt_of_ended {N : Network κ ε}
    (h : N.server.phase = .select ∨ ∃ code, N.server.phase = .stopped code) : Prompt N := by
  have hacc : N.server.phase ≠ .accept := by
    obtain h | ⟨code, h⟩ := h <;> simp [h]
  refine ⟨fun hphase => absurd hphase hacc, fun hphase => absurd hphase.1 hacc, fun hahead => ?_⟩
  obtain h | ⟨code, h⟩ := h <;> simp [h, Phase.Ahead] at hahead

/-- What the server looks at next is ready. -/
theorem Prompt.reader_ready (h : Prompt N) {k : κ} (hk : k ∈ N.reader) : (N.peers k).Ready := by
  rw [reader, Option.mem_def, Option.bind_eq_some_iff] at hk
  obtain ⟨i, hreads, hk⟩ := hk
  obtain ⟨hphase, hread⟩ := reads_eq_some hreads
  exact h.slots (by rw [hphase]; exact Nat.le_refl _) hread hk

/-- No call of the server blocks. -/
theorem Prompt.allowed (h : Prompt N) {a : Action κ} (hp : N.Promised a) : N.Allowed a := by
  cases a with
  | serve a =>
    refine ⟨fun hacc => (hp hacc).imp_right fun hfd => ⟨h.listen hacc, hfd⟩, fun k hk hup => ?_⟩
    exact (h.reader_ready hk).resolve_left (not_not_intro hup)
  | _ => trivial

/-- A step of the server in which nothing is accepted or read. -/
theorem Prompt.idle (h : Prompt N) {a : Turn} (ht : N.Truthful (.serve a))
    {server : Server}
    (hserver : server = N.server.step ⟨a.keepRunning, a.selected, -1, .arrived 0 []⟩)
    (hnet : server.net = N.server.net) : Prompt { N with server } := by
  have hmove := Loop.step_move onMsg onDisc N.server
    ⟨a.keepRunning, a.selected, -1, .arrived 0 []⟩
  rw [← Server.step, ← hserver] at hmove
  cases hmove with
  | ended hnext => exact prompt_of_ended hnext
  | selected fds hphase _ hsel hread hnext =>
    obtain ⟨hlisten, hpeers⟩ := ht hphase fds hsel
    have hset : ∀ fd, server.readSet fd = true →
        N.server.net.tables.masterSet fd = true ∧ fds fd = true := by
      intro fd hfd
      rwa [hread, Bool.and_eq_true] at hfd
    refine ⟨fun _ fd hfd => ?_, fun hacc' => ?_, fun {j k} _ hreadable hk => ?_⟩
    · simp only [hnet]
      exact (hset fd hfd).1
    · have hfd := hacc'.2
      simp only [hnet] at hfd
      exact hlisten.mp (hset _ hfd).2
    · have hfd := (Loop.readable_iff.mp hreadable).2
      simp only [hnet] at hfd hk
      exact (hpeers _ _ hk).mp (hset _ hfd).2
  | accepted hphase hnext hread =>
    refine ⟨fun hp => absurd (hnext.symm.trans hp) (by simp),
      fun hp => absurd (hnext.symm.trans hp.1) (by simp), fun {j k} _ hreadable hk => ?_⟩
    simp only [Loop.readable, hnet, hread] at hreadable hk
    exact h.slots (by rw [hphase]; trivial) hreadable hk
  | scanned i hphase hnext hread =>
    refine ⟨fun hp => absurd (hnext.symm.trans hp) (by simp),
      fun hp => absurd (hnext.symm.trans hp.1) (by simp), fun {j k} hahead hreadable hk => ?_⟩
    simp only [hnext, Phase.Ahead] at hahead
    simp only [Loop.readable, hnet, hread] at hreadable hk
    refine h.slots ?_ hreadable hk
    rw [hphase]
    exact Nat.le_of_succ_le hahead

variable [DecidableEq κ] {os : Desktop ε} {A : Atomic κ}

theorem Prompt.withPeer (h : Prompt N) {k : κ} {p : Peer ε}
    (hp : (N.peers k).Ready → p.Ready) : Prompt (N.withPeer k p) := by
  refine h.client rfl rfl id fun k' hk' => ?_
  rw [withPeer_peers]
  split
  · rename_i hk
    exact hp (hk ▸ hk')
  · exact hk'

/-- **A step of the server.** -/
theorem Prompt.served (h : Prompt N) (hr : Refines os N A) {a : Turn} {N' : Network κ ε}
    (ht : N.Truthful (.serve a)) (hs : N.Served a N') : Prompt N' := by
  cases hs with
  | idle _ _ hserver hnet => exact h.idle ht hserver hnet
  | refused hacc =>
    refine ⟨fun hp => absurd hp (by simp), fun hp => absurd hp.1 (by simp),
      fun {j k} _ hreadable hk => h.slots (by rw [hacc.1]; trivial) hreadable hk⟩
  | @accepted hacc k backlog hback h0 hlt hnew i hfree =>
    refine ⟨fun hp => absurd hp (by simp), fun hp => absurd hp.1 (by simp),
      fun {j k'} _ hreadable hk => ?_⟩
    -- the new descriptor was not open when `select` was asked
    have hfresh : N.server.readSet a.accepted ≠ true := by
      intro hread
      have hopen := hr.server.net.opened_of_master (h.masked hacc.1 _ hread)
      rw [hnew] at hopen
      exact absurd hopen (by simp)
    have hread := (Loop.readable_iff.mp hreadable).2
    have hne : j ≠ i := by
      rintro rfl
      simp only [fd_installed] at hread
      exact hfresh hread
    have hsame : (N.server.net.installed i a.accepted).clients j = N.server.net.clients j :=
      Function.update_of_ne hne _ _
    simp only [Loop.readable, hsame] at hreadable hread hk
    rw [Function.update_of_ne fun heq => hfresh (by rw [← heq]; exact hread)] at hk
    exact h.slots (by rw [hacc.1]; trivial) hreadable hk
  | @closed i hreads k hk _ ctx =>
    obtain ⟨hphase, hread⟩ := reads_eq_some hreads
    refine ⟨fun hp => absurd hp (by simp), fun hp => absurd hp.1 (by simp),
      fun {j k'} hahead hreadable hk' => ?_⟩
    have hne : j ≠ i := by
      rintro rfl
      exact absurd hahead (by simp [Phase.Ahead])
    have hsame : (N.server.net.dropped i).clients j = N.server.net.clients j :=
      Function.update_of_ne hne _ _
    simp only [Loop.readable, hsame] at hreadable hk'
    have hfd : (N.server.net.clients j).fd ≠ (N.server.net.clients i).fd := fun heq =>
      hne (hr.server.net.distinct j i (Loop.readable_iff.mp hreadable).1 heq)
    rw [Function.update_of_ne hfd] at hk'
    refine h.slots ?_ hreadable hk'
    rw [hphase]
    exact Nat.le_of_succ_le hahead
  | @received i hreads k hk chunk rest sent _ _ _ _ c hcfd _ ctx =>
    obtain ⟨hphase, hread⟩ := reads_eq_some hreads
    refine ⟨fun hp => absurd hp (by simp), fun hp => absurd hp.1 (by simp),
      fun {j k'} hahead hreadable hk' => ?_⟩
    have hne : j ≠ i := by
      rintro rfl
      exact absurd hahead (by simp [Phase.Ahead])
    have hsame : (N.server.net.kept i c).clients j = N.server.net.clients j :=
      Function.update_of_ne hne _ _
    simp only [Loop.readable, hsame] at hreadable hk'
    have hother : k' ≠ k := by
      rintro rfl
      have heq := ((hr.line k' _).mpr hk').symm.trans ((hr.line k' _).mpr hk)
      exact hne
        (hr.server.net.distinct j i (Loop.readable_iff.mp hreadable).1 (Option.some.inj heq))
    simp only [Function.update_of_ne hother]
    refine h.slots ?_ hreadable hk'
    rw [hphase]
    exact Nat.le_of_succ_le hahead

theorem Prompt.step (h : Prompt N) (hr : Refines os N A) {a : Action κ} (hp : N.Promised a)
    (ht : N.Truthful a) : Prompt (N.step os a).1 := by
  cases a with
  | connect k =>
    rw [Network.step]
    split
    · refine (h.withPeer (p := (N.peers k).connect) fun hk => ?_).client rfl rfl (by simp)
        fun _ => id
      rename_i hlink
      exact hk.imp_right fun hend => absurd (hlink.symm.trans hend) (by simp)
    · exact h
  | ask k r =>
    rw [Network.step]
    split
    · split
      · exact h
      · exact h.withPeer id
    · exact h
  | send k n =>
    rw [Network.step]
    split
    · simp only
      split
      · exact h
      · exact h.withPeer fun hk => hk.imp_left fun hup => by simp [Peer.send, hup]
    · exact h
  | recv k n al =>
    rw [Network.step, recvStep]
    split
    · simp only
      split
      · exact h
      · split
        · exact h.withPeer id
        · exact h.withPeer id
    · exact h
  | exit k kept =>
    rw [Network.step]
    split
    · exact h.withPeer fun _ => .inr rfl
    · exact h
  | serve a => exact h.served hr ht (served_of_step hr (h.allowed hp))

end

end Network

/-! ## The theorem -/

section
variable {κ ε : Type} {os : Desktop ε} {N₀ : Network κ ε}

theorem prompt_initial {net : ServerNet} {mng : ServerMng} (h : N₀.Initial net mng) :
    N₀.Prompt := by
  refine Network.prompt_of_ended (.inl ?_)
  rw [h.server]
  rfl

variable [DecidableEq κ]

/-- A run in surroundings that tell the truth is one of those in which nothing blocks. -/
theorem along_allowed {N : Network κ ε} {A : Atomic κ} (hr : Refines os N A) (h : N.Prompt)
    {acts : List (Action κ)} (hacts : Machine.Along (Network.step os)
      (fun N a => N.Promised a ∧ N.Truthful a) N acts) :
    Machine.Along (Network.step os) (fun N a => N.Allowed a ∧ ∀ t, a = .serve t →
      (N.server.Accepts → N.backlog ≠ []) ∧ ∀ k ∈ N.reader, (N.peers k).Ready) N acts := by
  induction acts generalizing N A with
  | nil => trivial
  | cons a acts ih =>
    obtain ⟨⟨hp, ht⟩, hrest⟩ := hacts
    have hal := h.allowed hp
    refine ⟨⟨hal, fun t _ => ⟨h.listen, fun k hk => h.reader_ready hk⟩⟩, ?_⟩
    obtain ⟨A', -, hr'⟩ := hr.step hal
    exact ih hr' (h.step hr hp ht) hrest

/-- **The server never waits for one client.**  As long as `select` reports what there is, and
`accept` returns nothing from `FD_SETSIZE` on, at every step of every run — clients that connect,
send in any pieces, go away in the middle of a request; descriptors that are given out again — a
connection is there when the server calls `accept`, and there is something to read, or the
connection is closed, when it calls `recv`. -/
theorem server_never_waits {al al' : Alloc} {mng : ServerMng}
    (hmng : ServerMng.init al = some mng) {listenFd : Int} (h0 : 0 ≤ listenFd) {opened : FdSet}
    (hopen : opened listenFd = true) {net : ServerNet}
    (hnet : ServerNet.create al' listenFd opened = some net) (h₀ : N₀.Initial net mng)
    {acts : List (Action κ)} (hacts : Machine.Along (Network.step os)
      (fun N a => N.Promised a ∧ N.Truthful a) N₀ acts) :
    Machine.Along (Network.step os) (fun N a => N.Allowed a ∧ ∀ t, a = .serve t →
      (N.server.Accepts → N.backlog ≠ []) ∧ ∀ k ∈ N.reader, (N.peers k).Ready) N₀ acts :=
  along_allowed (refines_initial hmng h0 hopen hnet h₀) (prompt_initial h₀) hacts

variable (os) in
/-- What is left of a pass with nothing to read keeps the promises. -/
theorem along_rest {N : Network κ ε} {i : Nat} (hi : i ≤ maxClients)
    (hphase : N.server.phase = .scan i)
    (h : ∀ j : Fin maxClients, i ≤ j → N.server.readable j = false) :
    let acts := List.replicate (maxClients - i + 1) (.serve ⟨true, .interrupted, -1, 0⟩)
    Machine.Along (Network.step os) (fun N a => N.Promised a ∧ N.Truthful a) N acts ∧
      Machine.run (Network.step os) N acts = N.rest := by
  obtain ⟨left, hleft⟩ : ∃ left, maxClients - i = left := ⟨_, rfl⟩
  rw [hleft]
  induction left generalizing N i with
  | zero =>
    obtain ⟨hacc, -, hstep⟩ := Network.step_idle os hphase h
    rw [if_neg (by omega)] at hstep
    refine ⟨⟨⟨fun hacc' => absurd hacc' hacc, fun hsel => ?_⟩, trivial⟩, congrArg Prod.fst hstep⟩
    exact absurd (hphase.symm.trans hsel) (by simp)
  | succ left ih =>
    obtain ⟨hacc, -, hstep⟩ := Network.step_idle os hphase h
    rw [if_pos (by omega)] at hstep
    obtain ⟨halong, hrun⟩ :=
      ih (N := { N with server := { N.server with phase := .scan (i + 1) } }) (i := i + 1)
        (by omega) rfl (fun j hj => h j (by omega)) (by omega)
    refine ⟨⟨⟨fun hacc' => absurd hacc' hacc, fun hsel => ?_⟩, ?_⟩, ?_⟩
    · exact absurd (hphase.symm.trans hsel) (by simp)
    · rw [hstep]
      exact halong
    · rw [List.replicate_succ, Machine.run, List.foldl_cons, hstep]
      exact hrun

/-- A client connects, and the server takes the connection. -/
def comesIn : List (Action Nat) :=
  [.connect 0, .serve ⟨true, .ready fun fd => fd = 3, -1, 0⟩, .serve ⟨true, .interrupted, 4, 0⟩]

/-- The client sends a registration. -/
def asksFirst : List (Action Nat) :=
  [.ask 0 (.register (letter 97) (letter 98)), .send 0 9]

/-- The server is told so, and comes to the slot of the client. -/
def comesRound : List (Action Nat) :=
  [.serve ⟨true, .ready fun fd => fd = 4, -1, 0⟩, .serve ⟨true, .interrupted, -1, 0⟩]

/-- The server accepts a connection in one pass and reads from it in the next. -/
theorem server_never_waits_register : ∃ mng, ServerMng.init [] = some mng ∧
    let pass := List.replicate (maxClients + 1) (.serve ⟨true, .interrupted, -1, 0⟩)
    let acts := comesIn ++ (pass ++ (asksFirst ++ comesRound))
    0 ∈ (Machine.run (Network.step willing) (lobby mng) acts).reader ∧
      Machine.Along (Network.step willing) (fun N a => N.Allowed a ∧ ∀ t, a = .serve t →
        (N.server.Accepts → N.backlog ≠ []) ∧ ∀ k ∈ N.reader, (N.peers k).Ready) (lobby mng)
        (acts ++ [.serve ⟨true, .interrupted, -1, 9⟩]) := by
  have hin : (ServerMng.init []).map (fun mng =>
      let N := Machine.run (Network.step willing) (lobby mng) comesIn
      (N.server.phase, decide N.Resting, N.peerOf 4)) = some (.scan 0, true, some 0) := by
    decide +kernel
  have hasks : (ServerMng.init []).map (fun mng =>
      let N := Machine.run (Network.step willing) (lobby mng) comesIn
      let N := Machine.run (Network.step willing) N.rest asksFirst
      (N.server.phase, N.server.net.listenFd, N.backlog, (N.peers 0).up)) =
      some (.select, 3, [], [1, 4, 1, 97, 1, 98]) := by
    decide +kernel
  have hround : (ServerMng.init []).map (fun mng =>
      let N := Machine.run (Network.step willing) (lobby mng) comesIn
      let N := Machine.run (Network.step willing) N.rest asksFirst
      let N' := Machine.run (Network.step willing) N comesRound
      ((Machine.run (Network.step willing) N (comesRound.take 1)).server.phase, N'.server.phase,
        N'.reader)) = some (.accept, .scan 0, some 0) := by
    decide +kernel
  obtain ⟨mng, hmng, hin⟩ := Option.map_eq_some_iff.mp hin
  rw [hmng, Option.map_some, Option.some_inj] at hasks hround
  simp only [Prod.mk.injEq] at hin hasks hround
  obtain ⟨hphase, hrest, hpeer⟩ := hin
  obtain ⟨hselect, hlisten, hback, hup⟩ := hasks
  obtain ⟨haccept, hscan, hreader⟩ := hround
  have hquiet : ∀ j : Fin maxClients, 0 ≤ (j : Nat) →
      (Machine.run (Network.step willing) (lobby mng) comesIn).server.readable j = false := by
    have hresting := of_decide_eq_true hrest
    rw [Network.Resting, Loop.Resting, hphase] at hresting
    exact hresting
  obtain ⟨hpass, hend⟩ := along_rest willing (Nat.zero_le maxClients) hphase hquiet
  rw [Nat.sub_zero] at hpass hend
  have hpeers : ∀ fd k,
      (Machine.run (Network.step willing) (lobby mng) comesIn).peerOf fd = some k →
        fd = 4 ∧ k = 0 := by
    intro fd k hk
    obtain ⟨x, hx⟩ : ∃ x, (Machine.run (Network.step willing) (lobby mng) comesIn).peerOf =
        Function.update (fun _ => none) 4 x := ⟨_, rfl⟩
    rw [hx, Function.update_self] at hpeer
    rw [hx, hpeer, Function.update_apply] at hk
    split at hk
    · next hfd => exact ⟨hfd, (Option.some_inj.mp hk).symm⟩
    · exact absurd hk (by simp)
  refine ⟨mng, hmng, ?_, server_never_waits hmng (show (0 : Int) ≤ 3 by decide)
    (show (fun fd : Int => decide (0 ≤ fd ∧ fd ≤ 3)) 3 = true by decide)
    (show ServerNet.create [] 3 (fun fd => 0 ≤ fd ∧ fd ≤ 3) = some firstNet from rfl)
    (lobby_initial mng) ?_⟩
  · rw [Machine.run_append, Machine.run_append, hend, Machine.run_append, hreader]
    exact Option.mem_some_self 0
  · rw [List.append_assoc, List.append_assoc, List.append_assoc, Machine.along_append,
      Machine.along_append, hend, Machine.along_append, Machine.along_append]
    refine ⟨⟨⟨trivial, trivial⟩, ⟨fun hacc => ?_, fun _ fds hfds => ?_⟩, ⟨fun _ => .inr ?_, ?_⟩,
      trivial⟩, hpass, ⟨⟨trivial, trivial⟩, ⟨trivial, trivial⟩, trivial⟩, ?_⟩
    · exact absurd (show Phase.select = .accept from hacc.1) (by decide)
    · obtain rfl := Selected.ready.inj hfds
      exact ⟨show decide ((3 : Int) = 3) = true ↔ [0] ≠ [] by decide,
        fun fd k hk => absurd (show (none : Option Nat) = some k from hk) (by simp)⟩
    · exact ⟨by decide, by decide, show firstNet.tables.opened 4 = false by decide⟩
    · exact fun hphase => absurd (show Phase.accept = .select from hphase) (by decide)
    · refine ⟨⟨⟨fun _ => .inl rfl, fun _ fds hfds => ?_⟩, ⟨fun _ => .inl rfl, fun hsel => ?_⟩,
        trivial⟩, ⟨fun _ => .inl rfl, fun hsel => ?_⟩, trivial⟩
      · obtain rfl := Selected.ready.inj hfds
        refine ⟨?_, fun fd k hk => ?_⟩
        · rw [hlisten, hback]
          decide
        · obtain ⟨rfl, rfl⟩ := hpeers fd k hk
          refine ⟨fun _ => .inl ?_, fun _ => rfl⟩
          rw [hup]
          exact List.cons_ne_nil _ _
      · exact absurd (haccept.symm.trans hsel) (by simp)
      · exact absurd (hscan.symm.trans hsel) (by simp)

end

end ChatProject
