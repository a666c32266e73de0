import ChatProject.System.Network

/-!
# One client and the server

What a client, its connection and the server's slot for it can look like together, in the network of
`System/Network.lean`.  There is never more than one request or one reply under way: the client is
at the menu, or part of its request has gone out, or all of it, or it has been served and the reply
is coming in.  This file says so of one client at a time (`Dialogue`), and what a read, an `accept`
and other clients' calls make of it; `System/Linearization.lean` puts the clients together.

* `Trusts` — what the client believes about itself is the case.
* `Owed` — what a reply on its way will make it believe is the case.
* `Dialogue` — all of this, together with the line it is of the service in `Service/Atomic.lean`.
* `Dialogue.read` — what the server makes of the next piece.
-/

set_option autoImplicit false

namespace ChatProject

open Framing ServerMng

/-! ## What a client believes meanwhile -/

/-- What the client believes is the case; before `accept` there is nothing to believe. -/
def Trusts (fd : Option Int) (m : ClientMng) (c : Chat) : Prop :=
  match fd with
  | none => m.loggedIn = 0 ∧ m.groups.groups = []
  | some fd => Believes fd m c

/-- A reply on its way to the client: what it will make the client believe is the case. -/
structure Owed {ε : Type} (os : Desktop ε) (fd : Int) (m : ClientMng) (r : Request)
    (frame : List UInt8) (c : Chat) : Prop where
  refused : (readReply r frame).1 ≠ .ok → Believes fd m c
  granted : (readReply r frame).1 = .ok → ∀ al e, Believes fd
    (m.granted os al e (readReply r frame).2.1 (readReply r frame).2.2 r) c
  /-- The user is in the group the reply leads into, and the address is the group's. -/
  address : ∀ g, r.enters = some g → (readReply r frame).1 = .ok →
    (∃ n, c.session fd = some n ∧ g ∈ c.joined n) ∧
      c.held g = some ⟨(readReply r frame).2.1, (readReply r frame).2.2⟩
  /-- The client has no windows for that group yet. -/
  entering : ∀ g, r.enters = some g → (readReply r frame).1 = .ok → g ∉ m.groups.names

section
variable {ε : Type} {os : Desktop ε} {fd : Int} {m : ClientMng} {r : Request} {frame : List UInt8}
  {s s' : ServerMng}

theorem Trusts.undisturbed {fd : Option Int} (h : Trusts fd m s.view)
    (hu : ∀ d, fd = some d → Undisturbed d s s') : Trusts fd m s'.view := by
  cases fd with
  | none => exact h
  | some d => exact Believes.undisturbed h (hu d rfl)

theorem Owed.undisturbed (h : Owed os fd m r frame s.view) (hu : Undisturbed fd s s') :
    Owed os fd m r frame s'.view where
  refused hst := (h.refused hst).undisturbed hu
  granted hst al e := (h.granted hst al e).undisturbed hu
  address g hg hst := by
    obtain ⟨⟨n, hn, hmem⟩, hheld⟩ := h.address g hg hst
    exact ⟨⟨n, hu.session.trans hn, (hu.joined hn).symm ▸ hmem⟩, (hu.held hn hmem).trans hheld⟩
  entering := h.entering

/-- **A request is served.**  One frame comes back, out of which the client will read the verdict
and the address, and what it will then believe is the case. -/
theorem exists_owed (os : Desktop ε) (h : s.Inv) (hfd : 0 ≤ fd) (hb : Believes fd m s.view)
    (hr : r.Fits) :
    ∃ frame, (s.view.serve fd r).2 = [(fd, frame)] ∧ tlv.IsFrame frame ∧
      (readReply r frame).1 = s.view.verdict fd r ∧
      (if (readReply r frame).1 = .ok then
        r.enters.map fun _ => ⟨(readReply r frame).2.1, (readReply r frame).2.2⟩ else none) =
        s.view.address fd r ∧
      Owed os fd m r frame (s.view.serve fd r).1 := by
  obtain ⟨frame, hsent, hframe, hstatus, haddress⟩ := Chat.exists_reply h.addresses hfd r
  refine ⟨frame, hsent, hframe, hstatus, ?_, ?_, ?_, ?_, ?_⟩
  · rw [hstatus, Chat.address]
    by_cases hv : s.view.verdict fd r = .ok
    · rw [if_pos hv, if_pos hv]
      cases hg : r.enters with
      | none => rfl
      | some g =>
        rw [Option.map_some, Option.bind_some]
        exact (haddress g (Request.enters_eq_some_iff.mp hg) hv).symm
    · rw [if_neg hv, if_neg hv]
  · intro hst
    rw [hstatus] at hst
    rw [Chat.serve, if_neg hst]
    exact hb
  · intro hst al e
    rw [hstatus] at hst
    rw [Chat.serve, if_pos hst]
    exact hb.granted os al e h.sessions hr hst _ _
  · intro g hg hst
    rw [hstatus] at hst
    have hr' := Request.enters_eq_some_iff.mp hg
    obtain ⟨n, hn, hsession, hjoined⟩ := Chat.grant_enter h.sessions hr' hst
    refine ⟨⟨n, ?_, ?_⟩, haddress g hr' hst⟩ <;> rw [Chat.serve, if_pos hst]
    · rw [hsession, hn]
    · rw [hjoined]
      exact List.mem_append_right _ (List.mem_singleton_self g)
  · intro g hg hst
    rw [hstatus] at hst
    exact hb.notMem_names h.books (Request.enters_eq_some_iff.mp hg) hst

end

/-! ## One client, its connection and its slot -/

/-- A client, its connection and what the server's slot holds of it (`held`), in a state `c` of the
service, and the line that is of the atomic service. -/
inductive Dialogue {ε : Type} (os : Desktop ε) (c : Chat) (fd : Option Int) (held : List UInt8)
    (p : Peer ε) : Line → Prop
  | idle (hlink : p.link = .made) (hstage : p.stage = .idle) (hin : held ++ p.up = [])
    (hdown : p.down = []) (htrust : Trusts fd p.client c) : Dialogue os c fd held p (.made fd .idle)
  /-- Part of the request has gone out. -/
  | sending {r : Request} {buf : List UInt8} {sent : Nat} (hlink : p.link = .made)
    (hstage : p.stage = .sending r buf sent) (hbuf : r.encode = some buf) (hlt : sent < buf.length)
    (hin : held ++ p.up = buf.take sent) (hdown : p.down = []) (htrust : Trusts fd p.client c) :
    Dialogue os c fd held p (.made fd (.asked r))
  /-- All of it has, and the server has not read all of it. -/
  | waiting {r : Request} {buf : List UInt8} (hlink : p.link = .made)
    (hstage : p.stage = .receiving r []) (hbuf : r.encode = some buf) (hin : held ++ p.up = buf)
    (hdown : p.down = []) (htrust : Trusts fd p.client c) :
    Dialogue os c fd held p (.made fd (.asked r))
  /-- The reply is on its way, or part of it has come in. -/
  | served {r : Request} {got : List UInt8} {d : Int} (hfd : fd = some d) (hlink : p.link = .made)
    (hstage : p.stage = .receiving r got) (hin : held ++ p.up = [])
    (hframe : tlv.IsFrame (got ++ p.down)) (hdown : p.down ≠ []) (hfits : r.Fits)
    (howed : Owed os d p.client r (got ++ p.down) c) :
    Dialogue os c fd held p (.made fd (.served r (readReply r (got ++ p.down)).1
      (if (readReply r (got ++ p.down)).1 = .ok then
        r.enters.map fun _ => ⟨(readReply r (got ++ p.down)).2.1,
          (readReply r (got ++ p.down)).2.2⟩
      else none)))
  /-- The client is gone, and has left the front of a request behind. -/
  | left {r : Request} {buf : List UInt8} (hlink : p.link = .ended) (hstage : p.stage = .idle)
    (hbuf : r.encode = some buf) (hin : held ++ p.up <+: buf) (hdown : p.down = []) :
    Dialogue os c fd held p (.left fd (some r))
  /-- The client is gone and owes nothing; at most one reply has been sent to it since. -/
  | gone (hlink : p.link = .ended) (hstage : p.stage = .idle) (hin : held ++ p.up = [])
    (hdown : p.down = [] ∨ tlv.IsFrame p.down) : Dialogue os c fd held p (.left fd none)

section
variable {ε : Type} {os : Desktop ε} {c : Chat} {fd : Option Int} {held : List UInt8} {p : Peer ε}
  {l : Line}

theorem Dialogue.fd_eq (h : Dialogue os c fd held p l) : l.fd = fd := by
  cases h <;> rfl

theorem Dialogue.link_ne (h : Dialogue os c fd held p l) : p.link ≠ .unmade := by
  intro hlink
  cases h with
  | idle h | sending h | waiting h | served _ h | left h | gone h =>
    exact absurd (hlink.symm.trans h) (by simp)

/-- Calls of others do not touch it. -/
theorem Dialogue.undisturbed {s s' : ServerMng} (h : Dialogue os s.view fd held p l)
    (hu : ∀ d, fd = some d → Undisturbed d s s') : Dialogue os s'.view fd held p l := by
  cases h with
  | idle hlink hstage hin hdown htrust =>
    exact .idle hlink hstage hin hdown (htrust.undisturbed hu)
  | sending hlink hstage hbuf hlt hin hdown htrust =>
    exact .sending hlink hstage hbuf hlt hin hdown (htrust.undisturbed hu)
  | waiting hlink hstage hbuf hin hdown htrust =>
    exact .waiting hlink hstage hbuf hin hdown (htrust.undisturbed hu)
  | served hfd hlink hstage hin hframe hdown hfits howed =>
    exact .served hfd hlink hstage hin hframe hdown hfits (howed.undisturbed (hu _ hfd))
  | left hlink hstage hbuf hin hdown => exact .left hlink hstage hbuf hin hdown
  | gone hlink hstage hin hdown => exact .gone hlink hstage hin hdown

end

/-! ## Requests and replies -/

theorem encode_spec {r : Request} {buf : List UInt8} (h : r.encode = some buf) :
    r.Fits ∧ tlv.IsFrame buf ∧ Request.parse buf = some r := by
  have hr : r.Fits := by
    by_contra hr
    rw [Request.encode_of_not_fits hr] at h
    exact absurd h (by simp)
  obtain ⟨msg, hmsg, hframe, hparse⟩ := Request.parse_encode hr
  obtain rfl : buf = msg := Option.some.inj (h.symm.trans hmsg)
  exact ⟨hr, hframe, hparse⟩

section
variable {ε : Type}

/-- What a call returns when `frame` has come in. -/
theorem result_spec (os : Desktop ε) {p : Peer ε} (hsock : 0 ≤ p.client.sockfd) (al : Alloc)
    {r : Request} (hr : r.Fits) {frame : List UInt8} (hframe : tlv.IsFrame frame) :
    (p.result os al r frame).status = (readReply r frame).1 ∧
      (p.result os al r frame).outIp = (readReply r frame).2.1 ∧
      (p.result os al r frame).outPort = (readReply r frame).2.2 ∧
      (p.result os al r frame).client =
        if (readReply r frame).1 = .ok then
          p.client.granted os al p.desktop (readReply r frame).2.1 (readReply r frame).2.2 r
        else p.client := by
  obtain ⟨buf, hbuf, -⟩ := Request.parse_encode hr
  obtain ⟨_, hx, -⟩ := ClientMng.exchange_of_frame hsock (fun n hn => absurd hn List.not_mem_nil)
    hframe (Wire.bytes_replying frame buf)
  rw [← hbuf] at hx
  obtain ⟨hst, hip, hport, -, hclient⟩ : (p.result os al r frame).status = _ ∧
      (p.result os al r frame).outIp = _ ∧ (p.result os al r frame).outPort = _ ∧
      (p.result os al r frame).traffic = _ ∧ (p.result os al r frame).client = _ :=
    ClientMng.call_of_reply os hx
  exact ⟨hst, hip, hport, hclient⟩

end

/-! ## What one read does to a dialogue -/

/-- Of the front of a frame a receiver makes nothing, and of the whole of it this frame. -/
theorem segmentation_of_prefix {buf pre data : List UInt8} {frames : List (List UInt8)}
    (hbuf : tlv.IsFrame buf) (hpre : pre <+: buf) (h : tlv.Segmentation pre frames data) :
    pre ≠ buf ∧ frames = [] ∧ data = pre ∨ pre = buf ∧ frames = [buf] ∧ data = [] := by
  by_cases hall : pre = buf
  · subst hall
    have hone := Segmentation.cons hbuf (.nil incomplete_nil)
    rw [List.append_nil] at hone
    obtain ⟨hframes, hdata⟩ := h.unique hone
    exact .inr ⟨rfl, hframes, hdata⟩
  · have hlt : pre.length < buf.length := by
      refine lt_of_le_of_ne hpre.length_le fun hlen => hall ?_
      exact hpre.eq_of_length hlen
    have hinc : tlv.Incomplete pre := by
      rw [List.prefix_iff_eq_take.mp hpre]
      exact hbuf.incomplete_take hlt
    obtain ⟨hframes, hdata⟩ := h.unique (.nil hinc)
    exact .inl ⟨hall, hframes, hdata⟩

/-- Serving the request of a client moves its line. -/
inductive Serves (c : Chat) (fd : Int) (r : Request) : Line → Line → Prop
  | made : Serves c fd r (.made (some fd) (.asked r))
    (.made (some fd) (.served r (c.verdict fd r) (c.address fd r)))
  | left : Serves c fd r (.left (some fd) (some r)) (.left (some fd) none)

section
variable {ε : Type} {os : Desktop ε} {s : ServerMng} {fd : Int} {held chunk rest data : List UInt8}
  {frames : List (List UInt8)} {p : Peer ε} {l : Line}

/-- The last byte of a request has been read. -/
theorem served_of_read (os : Desktop ε) (hs : s.Inv) (hfd : 0 ≤ fd) {r : Request}
    {buf : List UInt8} (hbuf : r.encode = some buf) {m : ClientMng} (hb : Believes fd m s.view) :
    ∃ frame, (s.step (.message fd buf [])).2 = [(fd, frame)] ∧ tlv.IsFrame frame ∧
      (s.step (.message fd buf [])).1.view = (s.view.serve fd r).1 ∧
      (readReply r frame).1 = s.view.verdict fd r ∧
      (if (readReply r frame).1 = .ok then
        r.enters.map fun _ => ⟨(readReply r frame).2.1, (readReply r frame).2.2⟩ else none) =
        s.view.address fd r ∧
      Owed os fd m r frame (s.step (.message fd buf [])).1.view := by
  obtain ⟨hr, -, hparse⟩ := encode_spec hbuf
  obtain ⟨frame, hsent, hframe, hst, haddr, howed⟩ := exists_owed os hs hfd hb hr
  have hserve := message_eq_serve hs fd hparse
  rw [← congrArg Prod.snd hserve] at hsent
  rw [← congrArg Prod.fst hserve] at howed
  exact ⟨frame, hsent, hframe, congrArg Prod.fst hserve, hst, haddr, howed⟩

/-- **What a read does.**  The piece completes nothing, or it completes the request; then the
request is served, and one frame is sent. -/
theorem Dialogue.read (h : Dialogue os s.view (some fd) held p l) (hs : s.Inv) (hfd : 0 ≤ fd)
    (hup : p.up = chunk ++ rest) (hchunk : chunk ≠ [])
    (hseg : tlv.Segmentation (held ++ chunk) frames data) :
    (frames = [] ∧ Dialogue os s.view (some fd) data { p with up := rest } l) ∨
    ∃ r buf frame l', frames = [buf] ∧ (s.step (.message fd buf [])).2 = [(fd, frame)] ∧
      tlv.IsFrame frame ∧
      (s.step (.message fd buf [])).1.view = (s.view.serve fd r).1 ∧ Serves s.view fd r l l' ∧
      Dialogue os (s.step (.message fd buf [])).1.view (some fd) data
        { p with up := rest, down := p.down ++ frame } l' := by
  have hnil : held ++ p.up ≠ [] := by
    rw [hup]
    simp [hchunk]
  cases h with
  | idle _ _ hin | served _ _ _ hin | gone _ _ hin => exact absurd hin hnil
  | sending hlink hstage hbuf hlt hin hdown htrust =>
    rw [hup, ← List.append_assoc] at hin
    obtain ⟨-, hframe, -⟩ := encode_spec hbuf
    have hpre : held ++ chunk <+: _ :=
      (List.prefix_append _ rest).trans (hin ▸ List.take_prefix _ _)
    obtain ⟨-, hnone, hdata⟩ | ⟨hall, -⟩ := segmentation_of_prefix hframe hpre hseg
    · subst hdata
      exact .inl ⟨hnone, .sending hlink hstage hbuf hlt hin hdown htrust⟩
    · have hlen := congrArg List.length hin
      rw [List.length_append, hall, List.length_take] at hlen
      omega
  | @waiting r buf hlink hstage hbuf hin hdown htrust =>
    rw [hup, ← List.append_assoc] at hin
    obtain ⟨hr, hframe, -⟩ := encode_spec hbuf
    obtain ⟨-, hnone, hdata⟩ | ⟨hall, hone, hdata⟩ :=
      segmentation_of_prefix hframe ⟨rest, hin⟩ hseg
    · subst hdata
      exact .inl ⟨hnone, .waiting hlink hstage hbuf hin hdown htrust⟩
    · obtain rfl : rest = [] := by
        rw [hall] at hin
        exact List.append_right_eq_self.mp hin
      obtain ⟨frame, hsent, hisFrame, hview, hst, haddr, howed⟩ :=
        served_of_read os hs hfd hbuf htrust
      refine .inr ⟨r, buf, frame, _, hone, hsent, hisFrame, hview, .made, ?_⟩
      rw [hdown, List.nil_append, ← hst, ← haddr, hdata]
      have hserved : Dialogue os (s.step (.message fd buf [])).1.view (some fd) []
          { p with up := [], down := frame } _ :=
        .served rfl hlink hstage rfl hisFrame hisFrame.ne_nil hr howed
      exact hserved
  | @left r buf hlink hstage hbuf hin hdown =>
    rw [hup, ← List.append_assoc] at hin
    obtain ⟨hr, hframe, hparse⟩ := encode_spec hbuf
    have hpre := (List.prefix_append (held ++ chunk) rest).trans hin
    obtain ⟨-, hnone, hdata⟩ | ⟨hall, hone, hdata⟩ := segmentation_of_prefix hframe hpre hseg
    · subst hdata
      exact .inl ⟨hnone, .left hlink hstage hbuf hin hdown⟩
    · obtain rfl : rest = [] := by
        rw [hall] at hin
        have hlen := hin.length_le
        rw [List.length_append] at hlen
        exact List.length_eq_zero_iff.mp (by omega)
      obtain ⟨frame, hsent, hisFrame, -⟩ := Chat.exists_reply hs.addresses hfd r
      have hserve := message_eq_serve hs fd hparse
      rw [← congrArg Prod.snd hserve] at hsent
      refine .inr ⟨r, buf, frame, _, hone, hsent, hisFrame, congrArg Prod.fst hserve, .left, ?_⟩
      rw [hdown, List.nil_append, hdata]
      exact .gone hlink hstage rfl (.inr hisFrame)

end

/-! ## A descriptor at last -/

/-- The line of a connection that gets a descriptor. -/
def Line.accept (fd : Int) : Line → Line
  | .made none call => .made (some fd) call
  | .left none owed => .left (some fd) owed
  | l => l

section
variable {ε : Type} {os : Desktop ε}

/-- What has been on the way before there was a descriptor still is. -/
theorem Dialogue.accept {c : Chat} {fd : Int} {p : Peer ε} {l : Line}
    (h : Dialogue os c none [] p l) (hs : c.session fd = none) :
    Dialogue os c (some fd) [] p (l.accept fd) := by
  have hb : Trusts none p.client c → Trusts (some fd) p.client c := by
    rintro ⟨hin, hgroups⟩
    have hnames : p.client.groups.names = [] := by
      rw [ClientGroupsMng.names, hgroups, List.map_nil]
    refine ⟨.inr ⟨hin, hs⟩, by rw [hnames]; exact List.nodup_nil, fun g hg => ?_⟩
    rw [hnames] at hg
    exact absurd hg List.not_mem_nil
  cases h with
  | idle hlink hstage hin hdown htrust => exact .idle hlink hstage hin hdown (hb htrust)
  | sending hlink hstage hbuf hlt hin hdown htrust =>
    exact .sending hlink hstage hbuf hlt hin hdown (hb htrust)
  | waiting hlink hstage hbuf hin hdown htrust =>
    exact .waiting hlink hstage hbuf hin hdown (hb htrust)
  | served hfd => exact absurd hfd (by simp)
  | left hlink hstage hbuf hin hdown => exact .left hlink hstage hbuf hin hdown
  | gone hlink hstage hin hdown => exact .gone hlink hstage hin hdown

end

end ChatProject
