import ChatProject.System.Dialogue

/-!
# Nobody can tell

The network of `System/Network.lean`, in which requests and replies travel in pieces and everybody
runs at once, looks from outside like the service of `Service/Atomic.lean`, in which every request
is served in one step.  The moment a request is served is the one at which the server reads the last
byte of it.

* `Refines` — the relation between the two systems, which is also the invariant of the network.
* `Refines.connect`, …, `Refines.serve` — the steps, one after the other.
* `network_linearizable` — whatever the users of the network see, the users of the atomic service
  could have seen.
-/

set_option autoImplicit false

namespace ChatProject

open Framing ServerMng ServerNet

/-! ## All of them -/

/-- The connection is in the queue of `accept`. -/
def Line.Queued : Line → Prop
  | .made none _ | .left none _ => True
  | _ => False

section
variable {κ ε : Type}

/-- Where the server has the connection of `k`: nowhere yet, or in a slot. -/
inductive Network.Attached (N : Network κ ε) (k : κ) : Option Int → List UInt8 → Prop
  | queued (h : k ∈ N.backlog) : Attached N k none []
  | slot (i : Fin maxClients) (h : N.peerOf (N.server.net.clients i).fd = some k) :
    Attached N k (some (N.server.net.clients i).fd) (N.server.net.clients i).data

/-- The network in the state `N` is, seen from outside, the atomic service in the state `A`. -/
structure Refines (os : Desktop ε) (N : Network κ ε) (A : Atomic κ) : Prop where
  server : N.server.Inv
  mem : N.server.ctx.mem = []
  sent : N.server.ctx.sent = []
  chat : A.chat = N.server.ctx.mng.view
  /-- Every connection of the server has a client. -/
  occupied : ∀ fd, (∃ k, N.peerOf fd = some k) ↔ N.server.net.Occupied fd
  line : ∀ k fd, (A.line k).fd = some fd ↔ N.peerOf fd = some k
  nodup : N.backlog.Nodup
  queued : ∀ k, k ∈ N.backlog ↔ (A.line k).Queued
  sockfd : ∀ k, 0 ≤ (N.peers k).client.sockfd
  unmade : ∀ k, A.line k = .unmade → (N.peers k).New
  forgotten : ∀ k, A.line k = .forgotten → (N.peers k).link = .ended ∧ (N.peers k).stage = .idle
  dialogue : ∀ k fd held, N.Attached k fd held →
    Dialogue os A.chat fd held (N.peers k) (A.line k)

variable {os : Desktop ε} {N : Network κ ε} {A : Atomic κ} {k : κ}

/-- Two clients have two descriptors. -/
theorem Network.fd_ne {fd fd' : Int} {k' : κ} (hk : N.peerOf fd = some k)
    (hk' : N.peerOf fd' = some k') (hne : k' ≠ k) : fd' ≠ fd := by
  rintro rfl
  exact hne (Option.some.inj (hk'.symm.trans hk))

/-- A client is not there yet, is gone for good, or is known to the server. -/
theorem Refines.attached (h : Refines os N A) (k : κ) :
    A.line k = .unmade ∨ A.line k = .forgotten ∨ ∃ fd held, N.Attached k fd held := by
  have hfd : ∀ fd, (A.line k).fd = some fd → ∃ fd held, N.Attached k fd held := by
    intro fd hfd
    have hk := (h.line k fd).mp hfd
    obtain ⟨-, i, rfl⟩ := (h.occupied fd).mp ⟨k, hk⟩
    exact ⟨_, _, .slot i hk⟩
  have hqueue : (A.line k).Queued → ∃ fd held, N.Attached k fd held := fun hq =>
    ⟨_, _, .queued ((h.queued k).mpr hq)⟩
  match hl : A.line k with
  | .unmade => exact .inl rfl
  | .forgotten => exact .inr (.inl rfl)
  | .made none _ | .left none _ => exact .inr (.inr (hqueue (by rw [hl]; trivial)))
  | .made (some fd) _ | .left (some fd) _ => exact .inr (.inr (hfd fd (by rw [hl]; rfl)))

/-- A client whose connection is made, or that is in a call, is in a dialogue. -/
theorem Refines.exists_dialogue (h : Refines os N A)
    (hk : (N.peers k).link = .made ∨ (N.peers k).stage ≠ .idle) :
    ∃ fd held, N.Attached k fd held ∧ Dialogue os A.chat fd held (N.peers k) (A.line k) := by
  obtain hl | hl | ⟨fd, held, hatt⟩ := h.attached k
  · have hnew := h.unmade k hl
    rw [hnew.link, hnew.stage] at hk
    simp at hk
  · obtain ⟨hlink, hstage⟩ := h.forgotten k hl
    rw [hlink, hstage] at hk
    simp at hk
  · exact ⟨fd, held, hatt, h.dialogue k fd held hatt⟩

/-- There is one place where the server has a client. -/
theorem Refines.attached_unique (h : Refines os N A) {fd fd' : Option Int}
    {held held' : List UInt8} (hatt : N.Attached k fd held) (hatt' : N.Attached k fd' held') :
    fd' = fd ∧ held' = held := by
  have hline := (h.dialogue k fd held hatt).fd_eq
  have hline' := (h.dialogue k fd' held' hatt').fd_eq
  obtain rfl : fd' = fd := hline'.symm.trans hline
  refine ⟨rfl, ?_⟩
  cases hatt with
  | queued => cases hatt'; rfl
  | slot i hi =>
    generalize hfd : some (N.server.net.clients i).fd = fd at hatt'
    cases hatt' with
    | queued => exact absurd hfd (by simp)
    | slot j hj =>
      have hocc := ((h.occupied _).mp ⟨k, hi⟩).1
      rw [h.server.net.distinct i j hocc (Option.some.inj hfd)]

/-- The server takes a step that concerns nobody. -/
theorem Refines.withServer (h : Refines os N A) {server : Server} (hinv : server.Inv)
    (hnet : server.net = N.server.net) (hctx : server.ctx = N.server.ctx) :
    Refines os { N with server } A where
  server := hinv
  mem := hctx ▸ h.mem
  sent := hctx ▸ h.sent
  chat := by
    rw [h.chat, ← hctx]
  occupied fd := by
    show _ ↔ server.net.Occupied fd
    rw [hnet]
    exact h.occupied fd
  line := h.line
  nodup := h.nodup
  queued := h.queued
  sockfd := h.sockfd
  unmade := h.unmade
  forgotten := h.forgotten
  dialogue k fd held hatt := by
    refine h.dialogue k fd held ?_
    cases hatt with
    | queued hk => exact .queued hk
    | slot i hi =>
      simp only [hnet] at hi ⊢
      exact .slot i hi

/-! ## The clients' steps -/

section
variable [DecidableEq κ]

/-- A step of one client, which stays where the server has it. -/
theorem Refines.withPeer (h : Refines os N A) {p : Peer ε} {l : Line}
    (hfd : l.fd = (A.line k).fd) (hqueued : l.Queued ↔ (A.line k).Queued)
    (hsock : 0 ≤ p.client.sockfd) (hunmade : l ≠ .unmade) (hover : l ≠ .forgotten)
    (hd : ∀ fd held, N.Attached k fd held → Dialogue os A.chat fd held p l) :
    Refines os (N.withPeer k p) (A.withLine k l) where
  server := h.server
  mem := h.mem
  sent := h.sent
  chat := h.chat
  occupied := h.occupied
  line k' fd := by
    rw [Atomic.withLine_line]
    split
    · rename_i hk
      rw [hk, hfd]
      exact h.line k fd
    · exact h.line k' fd
  nodup := h.nodup
  queued k' := by
    rw [Atomic.withLine_line]
    split
    · rename_i hk
      rw [hk, hqueued]
      exact h.queued k
    · exact h.queued k'
  sockfd k' := by
    rw [Network.withPeer_peers]
    split
    · exact hsock
    · exact h.sockfd k'
  unmade k' := by
    rw [Network.withPeer_peers, Atomic.withLine_line]
    split
    · exact fun hl => absurd hl hunmade
    · exact h.unmade k'
  forgotten k' := by
    rw [Network.withPeer_peers, Atomic.withLine_line]
    split
    · exact fun hl => absurd hl hover
    · exact h.forgotten k'
  dialogue k' fd held hatt := by
    have hatt' : N.Attached k' fd held := by
      cases hatt with
      | queued hk => exact .queued hk
      | slot i hi => exact .slot i hi
    rw [Network.withPeer_peers, Atomic.withLine_line]
    split
    · rename_i hk
      exact hd fd held (hk ▸ hatt')
    · exact h.dialogue k' fd held hatt'

/-- The same, where the new dialogue follows from the old one. -/
theorem Refines.withPeer_of (h : Refines os N A) {fd : Option Int} {held : List UInt8}
    (hatt : N.Attached k fd held) {p : Peer ε} {l : Line} (hsock : 0 ≤ p.client.sockfd)
    (hd : Dialogue os A.chat fd held p l) : Refines os (N.withPeer k p) (A.withLine k l) := by
  have hold := h.dialogue k fd held hatt
  have hqueued : ∀ {q : Peer ε} {l : Line}, Dialogue os A.chat fd held q l →
      (l.Queued ↔ fd = none) := by
    intro q l hd
    cases hd <;> cases fd <;> simp [Line.Queued]
  refine h.withPeer (hd.fd_eq.trans hold.fd_eq.symm) ((hqueued hd).trans (hqueued hold).symm) hsock
    ?_ ?_ fun fd' held' hatt' => ?_
  · rintro rfl
    cases hd
  · rintro rfl
    cases hd
  · obtain ⟨rfl, rfl⟩ := h.attached_unique hatt hatt'
    exact hd

/-- The atomic service follows a step of the network. -/
def Follows (os : Desktop ε) (A : Atomic κ) (N' : Network κ ε) (l : Option (Note κ)) : Prop :=
  ∃ A', Runs Atomic.Step A l.toList A' ∧ Refines os N' A'

theorem Refines.stays (h : Refines os N A) : Follows os A N none := ⟨A, .refl, h⟩

/-- A step of one client in which its line stays what it is. -/
theorem Refines.withPeer_same (h : Refines os N A) {fd : Option Int} {held : List UInt8}
    (hatt : N.Attached k fd held) {p : Peer ε} (hsock : 0 ≤ p.client.sockfd)
    (hd : Dialogue os A.chat fd held p (A.line k)) : Refines os (N.withPeer k p) A := by
  have hp := h.withPeer_of hatt hsock hd
  rwa [show A.withLine k (A.line k) = A from by rw [Atomic.withLine, Function.update_eq_self]] at hp

theorem Refines.connect (h : Refines os N A) (hk : (N.peers k).link = .unmade) :
    Follows os A { N.withPeer k (N.peers k).connect with backlog := N.backlog ++ [k] } none := by
  have hl : A.line k = .unmade := by
    obtain hl | hl | ⟨fd, held, hatt⟩ := h.attached k
    · exact hl
    · exact absurd (hk.symm.trans (h.forgotten k hl).1) (by simp)
    · exact absurd hk (h.dialogue k fd held hatt).link_ne
  have hnew := h.unmade k hl
  have hback : k ∉ N.backlog := by
    rw [h.queued, hl]
    exact id
  have hpeer : ∀ fd, N.peerOf fd ≠ some k := by
    intro fd hfd
    rw [← h.line, hl] at hfd
    exact absurd hfd (by simp [Line.fd])
  refine ⟨_, .single (.connect hl), ?_⟩
  exact
    { server := h.server
      mem := h.mem
      sent := h.sent
      chat := h.chat
      occupied := h.occupied
      line := fun k' fd => by
        rw [Atomic.withLine_line]
        split
        · rename_i hk'
          rw [hk']
          exact ⟨fun hfd => absurd hfd (by simp [Line.fd]), fun hfd => absurd hfd (hpeer fd)⟩
        · exact h.line k' fd
      nodup := h.nodup.append (List.nodup_singleton k) (by simpa using hback)
      queued := fun k' => by
        rw [Atomic.withLine_line, List.mem_append, List.mem_singleton]
        split
        · rename_i hk'
          simp [hk', Line.Queued]
        · rename_i hk'
          rw [or_iff_left hk']
          exact h.queued k'
      sockfd := fun k' => by
        show 0 ≤ ((N.withPeer k _).peers k').client.sockfd
        rw [Network.withPeer_peers]
        split
        · exact h.sockfd k
        · exact h.sockfd k'
      unmade := fun k' => by
        rw [Atomic.withLine_line]
        show _ → ((N.withPeer k _).peers k').New
        rw [Network.withPeer_peers]
        split
        · exact fun hl => absurd hl (by simp)
        · exact h.unmade k'
      forgotten := fun k' => by
        rw [Atomic.withLine_line]
        show _ → ((N.withPeer k _).peers k').link = _ ∧ ((N.withPeer k _).peers k').stage = _
        rw [Network.withPeer_peers]
        split
        · exact fun hl => absurd hl (by simp)
        · exact h.forgotten k'
      dialogue := fun k' fd held hatt => by
        rw [Atomic.withLine_line]
        show Dialogue os A.chat fd held ((N.withPeer k _).peers k') _
        rw [Network.withPeer_peers]
        split
        · rename_i hk'
          subst hk'
          cases hatt with
          | queued =>
            exact .idle rfl hnew.stage hnew.up hnew.down ⟨hnew.loggedIn, hnew.groups⟩
          | slot i hi => exact absurd hi (hpeer _)
        · rename_i hk'
          refine h.dialogue k' fd held ?_
          cases hatt with
          | queued hmem =>
            exact .queued ((List.mem_append.mp hmem).resolve_right (by simpa using hk'))
          | slot i hi => exact .slot i hi }

theorem Refines.ask (h : Refines os N A) (hlink : (N.peers k).link = .made)
    (hstage : (N.peers k).stage = .idle) {r : Request} {buf : List UInt8}
    (hbuf : r.encode = some buf) :
    Follows os A (N.withPeer k ((N.peers k).ask r buf)) (some (.asked k r)) := by
  obtain ⟨fd, held, hatt, hd⟩ := h.exists_dialogue (.inl hlink)
  obtain ⟨hr, hframe, -⟩ := encode_spec hbuf
  generalize hline : A.line k = line at hd
  cases hd with
  | idle _ _ hin hdown htrust =>
    refine ⟨_, .single (.ask hline hr), h.withPeer_of hatt (h.sockfd k) ?_⟩
    exact .sending hlink rfl hbuf (tlv.pos hframe) hin hdown htrust
  | sending _ hstage' | waiting _ hstage' | served _ _ hstage' =>
    exact absurd (hstage.symm.trans hstage') (by simp)
  | left hlink' | gone hlink' => exact absurd (hlink.symm.trans hlink') (by simp)

theorem Refines.reject (h : Refines os N A) (hlink : (N.peers k).link = .made)
    (hstage : (N.peers k).stage = .idle) {r : Request} (hr : r.encode = none) :
    Follows os A N (some (.rejected k r)) := by
  obtain ⟨fd, held, hatt, hd⟩ := h.exists_dialogue (.inl hlink)
  have hfits : ¬ r.Fits := by
    intro hfits
    obtain ⟨msg, hmsg, -⟩ := Request.parse_encode hfits
    exact absurd (hr.symm.trans hmsg) (by simp)
  generalize hline : A.line k = line at hd
  cases hd with
  | idle => exact ⟨A, .single (.reject hline hfits), h⟩
  | sending _ hstage' | waiting _ hstage' | served _ _ hstage' =>
    exact absurd (hstage.symm.trans hstage') (by simp)
  | left hlink' | gone hlink' => exact absurd (hlink.symm.trans hlink') (by simp)

theorem Refines.send (h : Refines os N A) {r : Request} {buf : List UInt8} {sent n : Nat}
    (hstage : (N.peers k).stage = .sending r buf sent) (hn : n ≤ buf.length - sent) :
    Follows os A (N.withPeer k ((N.peers k).send r buf sent n)) none := by
  obtain ⟨fd, held, hatt, hd⟩ := h.exists_dialogue (k := k) (.inr (by simp [hstage]))
  refine ⟨A, .refl, h.withPeer_same hatt (h.sockfd k) ?_⟩
  generalize hline : A.line k = line at hd
  cases hd with
  | sending hlink hstage' hbuf hlt hin hdown htrust =>
    obtain ⟨rfl, rfl, rfl⟩ := Stage.sending.inj (hstage.symm.trans hstage')
    have hin' : held ++ ((N.peers k).up ++ (buf.drop sent).take n) = buf.take (sent + n) := by
      rw [← List.append_assoc, hin, ← List.take_add]
    by_cases hall : sent + n = buf.length
    · rw [hall, List.take_length] at hin'
      exact .waiting hlink (if_pos hall) hbuf hin' hdown htrust
    · exact .sending hlink (if_neg hall) hbuf (by omega) hin' hdown htrust
  | idle _ hstage' | waiting _ hstage' | served _ _ hstage' | left _ hstage' | gone _ hstage' =>
    exact absurd (hstage.symm.trans hstage') (by simp)

theorem Refines.recv (h : Refines os N A) {r : Request} {got : List UInt8} {n : Nat} (al : Alloc)
    (hstage : (N.peers k).stage = .receiving r got) (hdown : (N.peers k).down ≠ []) :
    if wanted (got ++ (N.peers k).down.take n) = 0 then
      Follows os A (N.withPeer k ((N.peers k).finish os al r got n))
        (some (((N.peers k).result os al r (got ++ (N.peers k).down.take n)).note k r))
    else Follows os A (N.withPeer k ((N.peers k).recv r got n)) none := by
  obtain ⟨fd, held, hatt, hd⟩ := h.exists_dialogue (k := k) (.inr (by simp [hstage]))
  generalize hline : A.line k = line at hd
  cases hd with
  | @served _ _ d hfd hlink hstage' hin hframe _ hfits howed =>
    obtain ⟨rfl, rfl⟩ := Stage.receiving.inj (hstage.symm.trans hstage')
    subst hfd
    -- the reply is what has come in, this piece, and what is left
    have hsplit : got ++ (N.peers k).down =
        (got ++ (N.peers k).down.take n) ++ (N.peers k).down.drop n := by
      rw [List.append_assoc, List.take_append_drop]
    obtain ⟨-, hend⟩ := wanted_of_isFrame (hsplit ▸ hframe)
    by_cases hall : wanted (got ++ (N.peers k).down.take n) = 0
    · rw [if_pos hall]
      rw [hend.mp hall, List.append_nil] at hsplit
      rw [hsplit] at hframe howed hline
      obtain ⟨hst, hip, hport, hclient⟩ := result_spec os (h.sockfd k) al hfits hframe
      refine ⟨_, ?_, h.withPeer_of hatt (l := .made (some d) .idle) ?_ ?_⟩
      · have hnote : ((N.peers k).result os al r (got ++ (N.peers k).down.take n)).note k r = _ :=
          rfl
        rw [hnote, ClientMng.Result.note, hst, hip, hport]
        exact .single (.answer hline)
      · show 0 ≤ ((N.peers k).result os al r _).client.sockfd
        rw [hclient]
        split
        · rw [ClientMng.sockfd_granted]
          exact h.sockfd k
        · exact h.sockfd k
      · refine .idle hlink rfl hin (hend.mp hall) ?_
        show Believes _ ((N.peers k).result os al r _).client _
        rw [hclient]
        split
        · rename_i hok
          exact howed.granted hok al _
        · rename_i hok
          exact howed.refused hok
    · rw [if_neg hall]
      refine ⟨A, .refl, h.withPeer_same hatt (h.sockfd k) ?_⟩
      rw [hline, hsplit]
      rw [hsplit] at hframe howed
      exact .served rfl hlink rfl hin hframe (fun hnil => hall (hend.mpr hnil)) hfits howed
  | waiting _ _ _ _ hdown' => exact absurd hdown' hdown
  | idle _ hstage' | sending _ hstage' | left _ hstage' | gone _ hstage' =>
    exact absurd (hstage.symm.trans hstage') (by simp)

theorem Refines.exit (h : Refines os N A) (hlink : (N.peers k).link = .made) (kept : Nat) :
    Follows os A (N.withPeer k ((N.peers k).exit kept)) (some (.left k)) := by
  obtain ⟨fd, held, hatt, hd⟩ := h.exists_dialogue (.inl hlink)
  have hnil : held ++ (N.peers k).up = [] → held ++ ((N.peers k).exit kept).up = [] := by
    intro hin
    obtain ⟨hheld, hup⟩ := List.append_eq_nil_iff.mp hin
    rw [Peer.exit, hheld, hup, List.take_nil]
    rfl
  have hpre : ∀ {buf}, held ++ (N.peers k).up <+: buf →
      held ++ ((N.peers k).exit kept).up <+: buf := fun hin =>
    ((List.prefix_append_right_inj held).mpr (List.take_prefix _ _)).trans hin
  generalize hline : A.line k = line at hd
  cases hd with
  | idle _ _ hin =>
    exact ⟨_, .single (.leave hline), h.withPeer_of hatt (h.sockfd k) (.gone rfl rfl (hnil hin)
      (.inl rfl))⟩
  | sending _ _ hbuf _ hin =>
    exact ⟨_, .single (.leave hline), h.withPeer_of hatt (h.sockfd k) (.left rfl rfl hbuf
      (hpre (hin ▸ List.take_prefix _ _)) rfl)⟩
  | waiting _ _ hbuf hin =>
    exact ⟨_, .single (.leave hline), h.withPeer_of hatt (h.sockfd k) (.left rfl rfl hbuf
      (hpre (hin ▸ List.prefix_rfl)) rfl)⟩
  | served _ _ _ hin =>
    exact ⟨_, .single (.leave hline), h.withPeer_of hatt (h.sockfd k) (.gone rfl rfl (hnil hin)
      (.inl rfl))⟩
  | left hlink' | gone hlink' => exact absurd (hlink.symm.trans hlink') (by simp)

end

end

/-! ## The server's steps -/

section
variable {κ ε : Type} [DecidableEq κ] {os : Desktop ε} {N : Network κ ε} {A : Atomic κ} {k : κ}

/-- Every descriptor a connection can have leaves a slot free: there are as many slots as
descriptors, and the new one is in none. -/
theorem exists_freeSlot {net : ServerNet} (h : net.Inv) {fd : Int} (h0 : 0 ≤ fd)
    (hlt : fd < fdSetSize) (hnew : net.tables.opened fd = false) :
    ∃ i, net.freeSlot = some i := by
  by_contra hfull
  have hocc : ∀ i, net.Occupied (net.clients i).fd := by
    intro i
    refine ⟨fun hfree => hfull ?_, i, rfl⟩
    rw [← Option.isSome_iff_exists, ServerNet.freeSlot, List.find?_isSome]
    exact ⟨i, List.mem_finRange i, decide_eq_true hfree⟩
  let number : Fin maxClients → Fin maxClients := fun i =>
    ⟨(net.clients i).fd.toNat, by
      have := h.range _ (hocc i)
      show _ < fdSetSize
      omega⟩
  have hinj : Function.Injective number := by
    intro i j hij
    have hi := h.range _ (hocc i)
    have hj := h.range _ (hocc j)
    have heq : (net.clients i).fd.toNat = (net.clients j).fd.toNat := congrArg Fin.val hij
    exact h.distinct i j (hocc i).1 (by omega)
  have hbound : fd.toNat < maxClients := by
    show _ < fdSetSize
    omega
  obtain ⟨i, hi⟩ := Finite.injective_iff_surjective.mp hinj ⟨fd.toNat, hbound⟩
  have heq : (net.clients i).fd.toNat = fd.toNat := congrArg Fin.val hi
  have hrange := h.range _ (hocc i)
  have hfd : (net.clients i).fd = fd := by omega
  exact h.not_occupied_of_closed hnew (hfd ▸ hocc i)

theorem Refines.turn (h : Refines os N A) (hacc : ¬ N.server.Accepts)
    (hreads : N.server.reads = none) (a : Turn) : Follows os A (N.turn a) none := by
  obtain ⟨hnet, hctx⟩ := Network.turn_idle hacc hreads
    ⟨a.keepRunning, a.selected, -1, Inbox.arrived 0 []⟩
  exact (h.withServer (h.server.step (.inl rfl)) hnet hctx).stays

/-! ### Accepting -/

theorem accept_step {fd : Int} (hq : (A.line k).Queued) (hfd : A.Unused fd) :
    Atomic.Step A none (A.withLine k ((A.line k).accept fd)) := by
  match hl : A.line k with
  | .made none call => exact .accept hl hfd
  | .left none owed => exact .acceptLeft hl hfd
  | .made (some _) _ | .left (some _) _ | .unmade | .forgotten =>
    rw [hl] at hq
    exact hq.elim

/-- `accept` returns. -/
theorem step_of_accepts {s : Server} (h : s.Accepts) (a : Answers) :
    s.step a = { s with net := s.net.handleNewConnection a.accepted, phase := .scan 0 } := by
  rw [Server.step, Loop.step, h.1]
  simp only
  rw [if_pos h.2]

/-- A descriptor that is not open has no session on it. -/
theorem session_of_closed {s : Server} (h : s.Inv) {fd : Int}
    (hnew : s.net.tables.opened fd = false) : s.ctx.mng.view.session fd = none := by
  by_contra hsession
  obtain ⟨n, hn⟩ := Option.ne_none_iff_exists'.mp hsession
  obtain ⟨i, hi, hsock⟩ := Chat.session_eq_some_iff.mp hn
  have hfd := fdIndex_eq_some_iff.mp hi
  refine h.net.not_occupied_of_closed hnew (hfd ▸ h.connected i fun hnone => ?_)
  exact absurd (hsock.symm.trans (UserMng.sock_eq_none_iff.mpr hnone)) (by simp)

theorem Refines.accepted (h : Refines os N A) {backlog : List κ} (hback : N.backlog = k :: backlog)
    {fd : Int} (h0 : 0 ≤ fd) (hlt : fd < fdSetSize) (hnew : N.server.net.tables.opened fd = false)
    {i : Fin maxClients} (hfree : (N.server.net.clients i).fd = -1) {server : Server}
    (hinv : server.Inv) (hnet : server.net = N.server.net.installed i fd)
    (hctx : server.ctx = N.server.ctx) :
    Follows os A
      { N with server, backlog, peerOf := Function.update N.peerOf fd (some k) } none := by
  have hq : (A.line k).Queued := (h.queued k).mp (hback ▸ List.mem_cons_self)
  have hnobody : ∀ k', N.peerOf fd ≠ some k' := fun k' hk' =>
    h.server.net.not_occupied_of_closed hnew ((h.occupied fd).mp ⟨k', hk'⟩)
  have hnofd : ∀ fd', N.peerOf fd' ≠ some k := by
    intro fd' hfd'
    rw [← h.line] at hfd'
    generalize A.line k = l at hq hfd'
    cases l with
    | made fd call | left fd call => cases fd <;> simp_all [Line.fd, Line.Queued]
    | unmade | forgotten => exact hq
  have hline : ((A.line k).accept fd).fd = some fd := by
    generalize A.line k = l at hq
    cases l with
    | made fd call | left fd call => cases fd <;> simp_all [Line.fd, Line.Queued, Line.accept]
    | unmade | forgotten => exact hq.elim
  have hnotq : ¬ ((A.line k).accept fd).Queued := by
    generalize A.line k = l at hq hline
    cases l with
    | made fd call | left fd call => cases fd <;> simp_all [Line.fd, Line.Queued, Line.accept]
    | unmade | forgotten => exact hq.elim
  have hnodup := h.nodup
  rw [hback, List.nodup_cons] at hnodup
  refine
    ⟨_, .single (accept_step hq ⟨h0, hlt, fun k' hk' => hnobody k' ((h.line k' fd).mp hk')⟩), ?_⟩
  exact
    { server := hinv
      mem := hctx ▸ h.mem
      sent := hctx ▸ h.sent
      chat := by
        show A.chat = _
        rw [h.chat, ← hctx]
      occupied := fun fd' => by
        show (∃ k', Function.update N.peerOf fd (some k) fd' = some k') ↔ server.net.Occupied fd'
        rw [hnet, occupied_installed hfree h0, ← h.occupied, Function.update_apply]
        split
        · rename_i hfd'
          simp [hfd']
        · rename_i hfd'
          simp [hfd']
      line := fun k' fd' => by
        show _ ↔ Function.update N.peerOf fd (some k) fd' = some k'
        rw [Atomic.withLine_line, Function.update_apply]
        by_cases hk' : k' = k
        · subst hk'
          rw [if_pos rfl, hline]
          split
          · rename_i hfd'
            simp [hfd']
          · rename_i hfd'
            exact ⟨fun heq => absurd (Option.some.inj heq).symm hfd', fun heq =>
              absurd heq (hnofd fd')⟩
        · rw [if_neg hk', h.line]
          split
          · rename_i hfd'
            subst hfd'
            exact ⟨fun heq => absurd heq (hnobody k'), fun heq =>
              absurd (Option.some.inj heq).symm hk'⟩
          · exact Iff.rfl
      nodup := hnodup.2
      queued := fun k' => by
        rw [Atomic.withLine_line]
        split
        · rename_i hk'
          subst hk'
          exact ⟨fun hmem => absurd hmem hnodup.1, fun hq' => absurd hq' hnotq⟩
        · rename_i hk'
          rw [← h.queued, hback, List.mem_cons, or_iff_right hk']
      sockfd := h.sockfd
      unmade := fun k' => by
        rw [Atomic.withLine_line]
        split
        · rename_i hk'
          intro hl
          rw [hl] at hline
          exact absurd hline (by simp [Line.fd])
        · exact h.unmade k'
      forgotten := fun k' => by
        rw [Atomic.withLine_line]
        split
        · rename_i hk'
          intro hl
          rw [hl] at hline
          exact absurd hline (by simp [Line.fd])
        · exact h.forgotten k'
      dialogue := fun k' fd' held hatt => by
        show Dialogue os A.chat fd' held (N.peers k') _
        rw [Atomic.withLine_line]
        cases hatt with
        | queued hmem =>
          have hmem' : k' ∈ backlog := hmem
          rw [if_neg fun hk' : k' = k => hnodup.1 (hk' ▸ hmem')]
          exact h.dialogue k' none [] (.queued (hback ▸ List.mem_cons_of_mem _ hmem'))
        | slot j hj =>
          simp only [hnet] at hj ⊢
          by_cases hji : j = i
          · subst hji
            have hdata : ((N.server.net.installed j fd).clients j).data = [] := by
              simp only [installed, Function.update_self]
              rfl
            rw [fd_installed, Function.update_self] at hj
            obtain rfl := Option.some.inj hj
            rw [if_pos rfl, fd_installed, hdata]
            refine (h.dialogue k none [] (.queued (hback ▸ List.mem_cons_self))).accept ?_
            rw [h.chat]
            exact session_of_closed h.server hnew
          · have hsame : (N.server.net.installed i fd).clients j = N.server.net.clients j :=
              Function.update_of_ne hji _ _
            rw [hsame] at hj ⊢
            have hne : (N.server.net.clients j).fd ≠ fd := by
              rintro rfl
              exact h.server.net.not_occupied_of_closed hnew ⟨by omega, j, rfl⟩
            rw [Function.update_of_ne hne] at hj
            rw [if_neg fun hk' : k' = k => hnofd _ (hk' ▸ hj)]
            exact h.dialogue k' _ _ (.slot j hj) }

theorem Refines.accept (h : Refines os N A) (hacc : N.server.Accepts) {accepted : Int}
    (hal : accepted = -1 ∨ N.backlog ≠ [] ∧ 0 ≤ accepted ∧ accepted < fdSetSize ∧
      N.server.net.tables.opened accepted = false) :
    Follows os A (N.accept accepted) none := by
  rw [Network.accept, step_of_accepts hacc]
  have hstep := h.server.step (a := ⟨true, .interrupted, accepted, Inbox.arrived 0 []⟩)
    (hal.imp_right And.right)
  rw [step_of_accepts hacc] at hstep
  simp only at hstep ⊢
  have hnone : accepted = -1 → N.server.net.handleNewConnection accepted = N.server.net :=
    fun hfail => by rw [handleNewConnection, if_pos hfail]
  cases hback : N.backlog with
  | nil =>
    have hfail := hal.resolve_right fun hp => hp.1 hback
    have hw := (h.withServer hstep (hnone hfail) rfl).stays
    rwa [hback] at hw
  | cons k backlog =>
    simp only
    by_cases hfail : accepted = -1
    · rw [if_pos hfail]
      have hw := (h.withServer hstep (hnone hfail) rfl).stays
      rwa [hback] at hw
    · obtain ⟨-, h0, hlt, hnew⟩ := hal.resolve_left hfail
      obtain ⟨i, hi⟩ := exists_freeSlot h.server.net h0 hlt hnew
      have hfind := List.find?_some hi
      have hfree : (N.server.net.clients i).fd = -1 := by simpa using hfind
      have hinst : N.server.net.handleNewConnection accepted =
          N.server.net.installed i accepted := by
        simp only [handleNewConnection, if_neg hfail, hi]
        rfl
      rw [if_neg hfail]
      have hopen : (N.server.net.installed i accepted).tables.opened accepted = true :=
        (FdSet.set_apply _ _ _).mpr (.inl rfl)
      simp only [hinst] at hstep ⊢
      rw [if_pos hopen]
      exact h.accepted hback h0 hlt hnew hfree hstep rfl rfl

/-! ### Reading -/

theorem inv_readFrom (h : N.server.Inv) (i : Fin maxClients) (k : κ) (size : Nat) :
    (N.readFrom i k size).server.Inv := by
  have hstep : (N.server.step ⟨true, .interrupted, -1, Inbox.arrived size (N.peers k).up⟩).Inv :=
    h.step (.inl rfl)
  exact ⟨hstep.net, hstep.mng, hstep.connected⟩

/-- Bytes have arrived from `k`, and the service may have served it. -/
theorem Refines.kept (h : Refines os N A) {i : Fin maxClients}
    (hk : N.peerOf (N.server.net.clients i).fd = some k) {c : ClientState}
    (hfd : c.fd = (N.server.net.clients i).fd) {readSet : FdSet} {phase : Phase} {m : ServerMng}
    (hinv : Server.Inv ⟨N.server.net.kept i c, readSet, phase, ⟨m, [], []⟩⟩)
    (hm : ∀ d, d ≠ (N.server.net.clients i).fd → Undisturbed d N.server.ctx.mng m) {p : Peer ε}
    {l : Line} (hsock : 0 ≤ p.client.sockfd)
    (hd : Dialogue os m.view (some (N.server.net.clients i).fd) c.data p l) :
    Refines os
      { N with
        server := ⟨N.server.net.kept i c, readSet, phase, ⟨m, [], []⟩⟩
        peers := Function.update N.peers k p }
      ⟨m.view, Function.update A.line k l⟩ where
  server := hinv
  mem := rfl
  sent := rfl
  chat := rfl
  occupied fd := by
    rw [h.occupied]
    exact (occupied_kept hfd fd).symm
  line k' fd := by
    show ((A.withLine k l).line k').fd = some fd ↔ _
    rw [Atomic.withLine_line]
    split
    · rename_i hk'
      rw [hk', hd.fd_eq, ← (h.line k _).mpr hk]
      exact h.line k fd
    · exact h.line k' fd
  nodup := h.nodup
  queued k' := by
    show _ ↔ ((A.withLine k l).line k').Queued
    rw [Atomic.withLine_line]
    split
    · rename_i hk'
      have hold := (h.line k _).mpr hk
      have hnew := hd.fd_eq
      have hnot : ∀ {l : Line} {d : Int}, l.fd = some d → ¬ l.Queued := by
        intro l d hl hq
        cases l with
        | made fd call | left fd call => cases fd <;> simp_all [Line.fd, Line.Queued]
        | unmade | forgotten => exact hq
      rw [hk', h.queued]
      exact ⟨fun hq => absurd hq (hnot hold), fun hq => absurd hq (hnot hnew)⟩
    · exact h.queued k'
  sockfd k' := by
    show 0 ≤ ((N.withPeer k p).peers k').client.sockfd
    rw [Network.withPeer_peers]
    split
    · exact hsock
    · exact h.sockfd k'
  unmade k' := by
    show (A.withLine k l).line k' = _ → ((N.withPeer k p).peers k').New
    rw [Atomic.withLine_line, Network.withPeer_peers]
    split
    · rintro rfl
      cases hd
    · exact h.unmade k'
  forgotten k' := by
    show (A.withLine k l).line k' = _ → ((N.withPeer k p).peers k').link = _ ∧
      ((N.withPeer k p).peers k').stage = _
    rw [Atomic.withLine_line, Network.withPeer_peers]
    split
    · rintro rfl
      cases hd
    · exact h.forgotten k'
  dialogue k' fd held hatt := by
    show Dialogue os m.view fd held ((N.withPeer k p).peers k') ((A.withLine k l).line k')
    rw [Atomic.withLine_line, Network.withPeer_peers]
    by_cases hk' : k' = k
    · subst hk'
      rw [if_pos rfl, if_pos rfl]
      cases hatt with
      | queued hq =>
        have hold := h.dialogue _ none [] (.queued hq)
        exact absurd (hold.fd_eq.symm.trans ((h.line _ _).mpr hk)) (by simp)
      | slot j hj =>
        have hj' : N.peerOf ((N.server.net.kept i c).clients j).fd = some k' := hj
        by_cases hji : j = i
        · subst hji
          have hc : (N.server.net.kept j c).clients j = c := Function.update_self ..
          simp only [hc, hfd]
          exact hd
        · have hc : (N.server.net.kept i c).clients j = N.server.net.clients j :=
            Function.update_of_ne hji _ _
          rw [hc] at hj'
          have hsame := ((h.line _ _).mpr hj').symm.trans ((h.line _ _).mpr hk)
          exact absurd (h.server.net.distinct j i ((h.occupied _).mp ⟨_, hj'⟩).1
            (Option.some.inj hsame)) hji
    · rw [if_neg hk', if_neg hk']
      cases hatt with
      | queued hq =>
        have hold := h.dialogue k' none [] (.queued hq)
        rw [h.chat] at hold
        exact hold.undisturbed fun d hd => absurd hd (by simp)
      | slot j hj =>
        have hji : j ≠ i := by
          rintro rfl
          have hc : (N.server.net.kept j c).clients j = c := Function.update_self ..
          simp only [hc, hfd] at hj
          exact hk' (Option.some.inj (hj.symm.trans hk))
        have hc : (N.server.net.kept i c).clients j = N.server.net.clients j :=
          Function.update_of_ne hji _ _
        simp only [hc] at hj ⊢
        have hold := h.dialogue k' _ _ (.slot j hj)
        rw [h.chat] at hold
        refine hold.undisturbed fun d hd => ?_
        obtain rfl := Option.some.inj hd
        exact hm _ (Network.fd_ne hk hj hk')

/-- The connection of `k` has ended. -/
theorem Refines.dropped (h : Refines os N A) {i : Fin maxClients}
    (hk : N.peerOf (N.server.net.clients i).fd = some k)
    (hgone : (N.peers k).link = .ended ∧ (N.peers k).stage = .idle) {readSet : FdSet}
    {phase : Phase} {m : ServerMng}
    (hinv : Server.Inv ⟨N.server.net.dropped i, readSet, phase, ⟨m, [], []⟩⟩)
    (hm : ∀ d, d ≠ (N.server.net.clients i).fd → Undisturbed d N.server.ctx.mng m) :
    Refines os
      { N with
        server := ⟨N.server.net.dropped i, readSet, phase, ⟨m, [], []⟩⟩
        peerOf := Function.update N.peerOf (N.server.net.clients i).fd none }
      ⟨m.view, Function.update A.line k .forgotten⟩ where
  server := hinv
  mem := rfl
  sent := rfl
  chat := rfl
  occupied fd := by
    show (∃ k', Function.update N.peerOf _ none fd = some k') ↔ (N.server.net.dropped i).Occupied fd
    rw [h.server.net.occupied_dropped i fd, ← h.occupied, Function.update_apply]
    split
    · rename_i hfd
      simp [hfd]
    · rename_i hfd
      simp [hfd]
  line k' fd := by
    show ((A.withLine k .forgotten).line k').fd = some fd ↔
      Function.update N.peerOf _ none fd = some k'
    rw [Atomic.withLine_line, Function.update_apply]
    by_cases hk' : k' = k
    · rw [if_pos hk']
      split
      · simp [Line.fd]
      · rename_i hfd
        refine ⟨fun heq => absurd heq (by simp [Line.fd]), fun heq => absurd ?_ hfd⟩
        have hline := ((h.line k fd).mpr (hk' ▸ heq)).symm.trans ((h.line k _).mpr hk)
        exact Option.some.inj hline
    · rw [if_neg hk', h.line]
      split
      · rename_i hfd
        rw [hfd]
        exact ⟨fun heq => absurd (Option.some.inj (heq.symm.trans hk)) hk', fun heq =>
          absurd heq (by simp)⟩
      · exact Iff.rfl
  nodup := h.nodup
  queued k' := by
    show _ ↔ ((A.withLine k .forgotten).line k').Queued
    rw [Atomic.withLine_line]
    split
    · rename_i hk'
      refine ⟨fun hq => ?_, fun hq => hq.elim⟩
      have hold := h.dialogue k' none [] (.queued hq)
      exact absurd (hold.fd_eq.symm.trans ((h.line k' _).mpr (hk' ▸ hk))) (by simp)
    · exact h.queued k'
  sockfd := h.sockfd
  unmade k' := by
    show (A.withLine k .forgotten).line k' = _ → _
    rw [Atomic.withLine_line]
    split
    · exact fun hl => absurd hl (by simp)
    · exact h.unmade k'
  forgotten k' := by
    show (A.withLine k .forgotten).line k' = _ → _
    rw [Atomic.withLine_line]
    split
    · rename_i hk'
      rw [hk']
      exact fun _ => hgone
    · exact h.forgotten k'
  dialogue k' fd held hatt := by
    show Dialogue os m.view fd held (N.peers k') ((A.withLine k .forgotten).line k')
    rw [Atomic.withLine_line]
    cases hatt with
    | queued hq =>
      have hold := h.dialogue k' none [] (.queued hq)
      have hne : k' ≠ k := by
        rintro rfl
        exact absurd (hold.fd_eq.symm.trans ((h.line k' _).mpr hk)) (by simp)
      rw [if_neg hne]
      rw [h.chat] at hold
      exact hold.undisturbed fun d hd => absurd hd (by simp)
    | slot j hj =>
      have hj' : Function.update N.peerOf (N.server.net.clients i).fd none
          ((N.server.net.dropped i).clients j).fd = some k' := hj
      have hji : j ≠ i := by
        rintro rfl
        have hfree : ((N.server.net.dropped j).clients j).fd = -1 := by
          rw [show (N.server.net.dropped j).clients j = _ from Function.update_self ..]
          rfl
        have hnot := (h.server.net.occupied_dropped j (-1)).mp
        rw [hfree, Function.update_apply] at hj'
        split at hj'
        · exact absurd hj' (by simp)
        · exact ((h.occupied (-1)).mp ⟨k', hj'⟩).1 rfl
      have hc : (N.server.net.dropped i).clients j = N.server.net.clients j :=
        Function.update_of_ne hji _ _
      simp only [hc] at hj' ⊢
      rw [Function.update_apply] at hj'
      split at hj'
      · exact absurd hj' (by simp)
      · rename_i hne
        have hk' : k' ≠ k := by
          rintro rfl
          exact hne (Option.some.inj (((h.line k' _).mpr hj').symm.trans ((h.line k' _).mpr hk)))
        rw [if_neg hk']
        have hold := h.dialogue k' _ _ (.slot j hj')
        rw [h.chat] at hold
        refine hold.undisturbed fun d hd => ?_
        obtain rfl := Option.some.inj hd
        exact hm _ hne

theorem Refines.readFrom (h : Refines os N A) {i : Fin maxClients}
    (hreads : N.server.reads = some i) (hk : N.peerOf (N.server.net.clients i).fd = some k)
    (hend : (N.peers k).up = [] → (N.peers k).link = .ended) (size : Nat) :
    Follows os A (N.readFrom i k size) none := by
  have hinv := inv_readFrom h.server i k size
  have hd := h.dialogue k _ _ (.slot i hk)
  have hfd : 0 ≤ (N.server.net.clients i).fd :=
    (h.server.net.range _ ((h.occupied _).mp ⟨k, hk⟩)).1
  obtain ⟨hup, heq⟩ | ⟨chunk, rest, frames, c, hchunk, hup, hcfd, -, hseg, heq⟩ :=
    Network.readFrom_cases h.server.net hreads k size
  · -- the client is gone, and the server learns it
    have hcall : onDisc (N.server.net.clients i).fd N.server.ctx =
        ⟨N.server.ctx.mng.onDisconnect (N.server.net.clients i).fd [], [], []⟩ := by
      rw [onDisc, Mng.call, h.mem, h.sent]
      rfl
    rw [heq, hcall] at hinv ⊢
    have hm : ∀ d, d ≠ (N.server.net.clients i).fd → Undisturbed d N.server.ctx.mng
        (N.server.ctx.mng.onDisconnect (N.server.net.clients i).fd []) := fun d hne =>
      undisturbed_step (e := .disconnect _ []) h.server.mng hne.symm
    obtain ⟨owed, hl, hstage⟩ : ∃ owed,
        A.line k = .left (some (N.server.net.clients i).fd) owed ∧ (N.peers k).stage = .idle := by
      have hlink := hend hup
      generalize A.line k = l at hd
      cases hd with
      | left _ hstage => exact ⟨_, rfl, hstage⟩
      | gone _ hstage => exact ⟨_, rfl, hstage⟩
      | idle hmade | sending hmade | waiting hmade | served _ hmade =>
        exact absurd (hmade.symm.trans hlink) (by simp)
    refine ⟨_, .single (.hangUp hl), ?_⟩
    rw [h.chat, ← (onDisconnect_refines h.server.mng _ []).2 rfl]
    exact h.dropped hk ⟨hend hup, hstage⟩ hinv hm
  · rw [h.chat] at hd
    obtain ⟨rfl, hd'⟩ | ⟨r, buf, frame, l', rfl, hsent, -, hview, hserves, hd'⟩ :=
      hd.read h.server.mng hfd hup hchunk hseg
    · -- nothing is complete yet
      have hctx : Network.quiet N.server.ctx = ⟨N.server.ctx.mng, [], []⟩ := by
        rw [Network.quiet, ← h.mem]
      rw [heq] at hinv ⊢
      simp only [List.foldl_nil, hctx, h.sent] at hinv ⊢
      have hkept := h.kept (p := { N.peers k with up := rest }) hk hcfd hinv
        (fun d _ => .refl h.server.mng d) (h.sockfd k) hd'
      rw [Function.update_eq_self, ← h.chat] at hkept
      exact hkept.stays
    · -- the request is there, and is served
      have hcall : [buf].foldl (fun m msg => onMsg (N.server.net.clients i).fd msg m) N.server.ctx =
          ⟨(N.server.ctx.mng.step (.message (N.server.net.clients i).fd buf [])).1,
            [((N.server.net.clients i).fd, frame)], []⟩ := by
        rw [List.foldl_cons, List.foldl_nil, onMsg, Mng.call, h.mem, h.sent, List.headD_nil,
          List.tail_nil, hsent]
        rfl
      rw [heq, hcall] at hinv ⊢
      have hm : ∀ d, d ≠ (N.server.net.clients i).fd → Undisturbed d N.server.ctx.mng
          (N.server.ctx.mng.step (.message (N.server.net.clients i).fd buf [])).1 := fun d hne =>
        undisturbed_step h.server.mng hne.symm
      have hkept := h.kept
        (p := { N.peers k with up := rest, down := (N.peers k).down ++ frame }) hk hcfd hinv hm
        (h.sockfd k) hd'
      have hdeliver : Network.deliver N.peerOf
          (Function.update N.peers k { N.peers k with up := rest })
          ((N.server.net.clients i).fd, frame) =
          Function.update N.peers k
            { N.peers k with up := rest, down := (N.peers k).down ++ frame } := by
        simp only [Network.deliver, hk, Function.update_self, Function.update_idem]
      refine ⟨⟨(N.server.ctx.mng.step (.message (N.server.net.clients i).fd buf [])).1.view,
        Function.update A.line k l'⟩, ?_, ?_⟩
      · rw [hview, ← h.chat]
        rw [← h.chat] at hserves
        generalize hl : A.line k = l at hserves
        cases hserves with
        | made => exact .single (.serve hl)
        | left => exact .single (.serveLeft hl)
      · simp only [List.foldl_cons, List.foldl_nil, hdeliver]
        exact hkept

theorem Refines.serve (h : Refines os N A) {a : Turn} (hal : N.Allowed (.serve a)) :
    Follows os A (N.serve a) none := by
  rw [Network.serve]
  by_cases hacc : N.server.Accepts
  · rw [if_pos hacc]
    exact h.accept hacc (hal.1 hacc)
  · rw [if_neg hacc]
    split
    · rename_i hreads
      exact h.turn hacc hreads a
    · rename_i i hreads
      split
      · exact h.stays
      · rename_i k hk
        refine h.readFrom hreads hk (hal.2 k ?_) a.size
        rw [Network.reader, hreads, Option.mem_def, Option.bind_some, hk]

/-! ## Every step -/

theorem Refines.step (h : Refines os N A) {a : Action κ} (hal : N.Allowed a) :
    Follows os A (N.step os a).1 (N.step os a).2 := by
  cases a with
  | connect k =>
    rw [Network.step]
    split
    · rename_i hlink
      exact h.connect hlink
    · exact h.stays
  | ask k r =>
    rw [Network.step]
    split
    · rename_i hlink hstage
      split
      · rename_i hr
        exact h.reject hlink hstage hr
      · rename_i buf hbuf
        exact h.ask hlink hstage hbuf
    · exact h.stays
  | send k n =>
    rw [Network.step]
    split
    · rename_i r buf sent hstage
      simp only
      split
      · exact h.stays
      · exact h.send hstage (Nat.min_le_right _ _)
    · exact h.stays
  | recv k n al =>
    rw [Network.step, Network.recvStep]
    split
    · rename_i r got hstage
      simp only
      split
      · exact h.stays
      · rename_i hsome
        have hrecv := h.recv al hstage (n := min n (wanted got)) (not_or.mp hsome).2
        split
        · rename_i hall
          rwa [if_pos hall] at hrecv
        · rename_i hall
          rwa [if_neg hall] at hrecv
    · exact h.stays
  | exit k kept =>
    rw [Network.step]
    split
    · rename_i hlink
      exact h.exit hlink kept
    · exact h.stays
  | serve a =>
    rw [Network.step]
    exact h.serve hal

/-- The atomic service can follow every step of the network. -/
theorem simulation (os : Desktop ε) :
    Simulation (Network.Next os) (Atomic.Step (κ := κ)) (Refines os) := by
  rintro N l N' A h ⟨a, hal, hstep⟩
  have hfollows := h.step hal
  rw [hstep] at hfollows
  exact hfollows

end

/-! ## The theorem -/

section
variable {κ ε : Type} {os : Desktop ε} {N : Network κ ε}

/-- The server as `main` leaves it before the loop, and no client has connected yet. -/
structure Network.Initial (N : Network κ ε) (net : ServerNet) (mng : ServerMng) : Prop where
  server : N.server = Loop.start net ⟨mng, [], []⟩
  peers : ∀ k, (N.peers k).New
  backlog : N.backlog = []
  peerOf : ∀ fd, N.peerOf fd = none

/-- The atomic service with nobody there. -/
def Atomic.initial (κ : Type) (mng : ServerMng) : Atomic κ := ⟨mng.view, fun _ => .unmade⟩

theorem refines_initial {al al' : Alloc} {mng : ServerMng} (hmng : ServerMng.init al = some mng)
    {listenFd : Int} (h0 : 0 ≤ listenFd) {opened : FdSet} (hopen : opened listenFd = true)
    {net : ServerNet} (hnet : ServerNet.create al' listenFd opened = some net)
    (h : N.Initial net mng) : Refines os N (.initial κ mng) := by
  have hfree : ∀ fd, ¬ net.Occupied fd := by
    rw [ServerNet.create] at hnet
    split at hnet
    · exact absurd hnet (by simp)
    · rw [if_neg (by omega)] at hnet
      obtain rfl := Option.some.inj hnet
      rintro fd ⟨hfd, _, hi⟩
      exact hfd hi.symm
  have hreach : Server.Reachable net mng [] (Loop.start net ⟨mng, [], []⟩) := .refl
  exact
    { server := h.server ▸ Server.inv_reachable hmng h0 hopen hnet hreach
      mem := by rw [h.server]; rfl
      sent := by rw [h.server]; rfl
      chat := by rw [h.server]; rfl
      occupied := fun fd => by
        rw [h.server]
        refine iff_of_false ?_ (hfree fd)
        rintro ⟨k, hk⟩
        exact absurd ((h.peerOf fd).symm.trans hk) (by simp)
      line := fun k fd => by
        rw [h.peerOf]
        exact ⟨fun hk => absurd hk (by simp [Atomic.initial, Line.fd]),
          fun hk => absurd hk (by simp)⟩
      nodup := by rw [h.backlog]; exact List.nodup_nil
      queued := fun k => by
        rw [h.backlog]
        exact ⟨fun hk => absurd hk List.not_mem_nil, fun hk => hk.elim⟩
      sockfd := fun k => (h.peers k).sockfd
      unmade := fun k _ => h.peers k
      forgotten := fun k hk => absurd hk (by simp [Atomic.initial])
      dialogue := fun k fd held hatt => by
        cases hatt with
        | queued hk => exact absurd (h.backlog ▸ hk) List.not_mem_nil
        | slot i hi => exact absurd ((h.peerOf _).symm.trans hi) (by simp) }

variable [DecidableEq κ]

/-- **Nobody can tell.**  For every run of the network — any number of clients, each asking for
whatever it likes as soon as it has been answered, or gone in the middle of a call; every request
sent and read in any pieces, every reply sent whole and read in any pieces; the steps of all of them
and of the server in any order — there is a run of the atomic service in which the users see the
same, and which ends in the same state of the service. -/
theorem network_linearizable {al al' : Alloc} {mng : ServerMng}
    (hmng : ServerMng.init al = some mng) {listenFd : Int} (h0 : 0 ≤ listenFd) {opened : FdSet}
    (hopen : opened listenFd = true) {net : ServerNet}
    (hnet : ServerNet.create al' listenFd opened = some net) (os : Desktop ε)
    {N₀ N : Network κ ε} (h₀ : N₀.Initial net mng) {seen : List (Note κ)}
    (hr : Runs (Network.Next os) N₀ seen N) :
    ∃ A, Runs Atomic.Step (.initial κ mng) seen A ∧ A.chat = N.server.ctx.mng.view := by
  obtain ⟨A, hrun, hA⟩ := (simulation os).runs (refines_initial hmng h0 hopen hnet h₀) hr
  exact ⟨A, hrun, hA.chat⟩

end

/-- Nobody is there yet. -/
def lobby (mng : ServerMng) : Network Nat Unit where
  server := Loop.start firstNet ⟨mng, [], []⟩
  peers _ := ⟨⟨3, 0, .empty, ⟨7, []⟩⟩, (), .idle, .unmade, [], []⟩
  backlog := []
  peerOf _ := none

/-- An operating system on which every command succeeds. -/
def willing : Desktop Unit := ⟨fun _ e => (0, e), fun _ _ e => (some 100, e), fun _ e => e⟩

/-- A pass of the server's loop: `select` reports `ready`, `accept` would return `accepted`, and
there is something to read on the first `n` slots at most. -/
def pass (ready : FdSet) (accepted : Int) (n : Nat) : List (Stride Nat) :=
  .act (.serve ⟨true, .ready ready, -1, 0⟩) :: .act (.serve ⟨true, .interrupted, accepted, 0⟩) ::
    (List.replicate n (.act (.serve ⟨true, .interrupted, -1, 9⟩)) ++ [.rest])

/-- A string of one character. -/
def letter (c : UInt8) : CStr := .ofBuffer [c]

/-- Two clients register the same name; the second one is answered first. -/
def race : List (Stride Nat) :=
  [.act (.connect 0), .act (.connect 1),
    .act (.ask 0 (.register (letter 97) (letter 98))), .act (.send 0 3),
    .act (.ask 1 (.register (letter 97) (letter 99))), .act (.send 1 9)] ++
  pass (fun fd => fd = 3) 4 0 ++ pass (fun fd => fd = 3 ∨ fd = 4) 5 1 ++ [.act (.send 0 9)] ++
  pass (fun fd => fd = 4 ∨ fd = 5) (-1) 2 ++
  [.act (.recv 1 1 []), .act (.recv 1 1 []), .act (.recv 0 9 []), .act (.recv 1 9 []),
    .act (.recv 0 9 [])]

/-- What the two see. -/
def raceSeen : List (Note Nat) :=
  [.asked 0 (.register (letter 97) (letter 98)),
    .asked 1 (.register (letter 97) (letter 99)),
    .answered 1 (.register (letter 97) (letter 99)) .errUserExists none,
    .answered 0 (.register (letter 97) (letter 98)) .ok none]

theorem lobby_initial (mng : ServerMng) : (lobby mng).Initial firstNet mng :=
  ⟨rfl, fun _ => ⟨show (0 : Int) ≤ 3 by decide, rfl, rfl, rfl, rfl, rfl, rfl⟩, rfl, fun _ => rfl⟩

theorem race_runs : ∃ mng N, ServerMng.init [] = some mng ∧
    Runs (Network.Next willing) (lobby mng) raceSeen N := by
  have hrun : (ServerMng.init []).map (fun mng =>
      (decide (Machine.Along (Network.stride willing) Network.Strides (lobby mng) race),
        (Machine.trace (Network.stride willing) (lobby mng) race).flatMap fun x => x.2.toList)) =
      some (true, raceSeen) := by
    decide +kernel
  obtain ⟨mng, hmng, hend⟩ := Option.map_eq_some_iff.mp hrun
  obtain ⟨hal, hseen⟩ := Prod.mk.inj hend
  have hruns := Network.runs_of_strides willing (lobby mng) (of_decide_eq_true hal)
  rw [hseen] at hruns
  exact ⟨mng, _, hmng, hruns⟩

/-- The race looks like one in which the first client is served first. -/
theorem network_linearizable_race :
    ∃ mng A, ServerMng.init [] = some mng ∧ Runs Atomic.Step (.initial Nat mng) raceSeen A := by
  obtain ⟨mng, N, hmng, hruns⟩ := race_runs
  obtain ⟨A, hA, -⟩ := network_linearizable hmng (show (0 : Int) ≤ 3 by decide)
    (show (fun fd : Int => decide (0 ≤ fd ∧ fd ≤ 3)) 3 = true by decide)
    (show ServerNet.create [] 3 (fun fd => 0 ≤ fd ∧ fd ≤ 3) = some firstNet from rfl) willing
    (lobby_initial mng) hruns
  exact ⟨mng, A, hmng, hA⟩

end ChatProject
