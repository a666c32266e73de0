import ChatProject.System.Histories

/-!
# Which windows are opened

A client opens windows by handing command lines to the shell.  Here the operating system writes them
down (`Desktop.recorded`), and what is written down is compared with what the user has been told,
for any number of clients and any order of everybody's steps.

* `ClientMng.commands` — the command lines of one call; `log_call` says that there are no others.
* `Network.step_cases` — only the step in which a call returns changes what the client keeps.
* `Opened` — the invariant of one client: its command lines are for the groups it has been let into.
* `windows_opened` — what follows for whole runs.
-/

set_option autoImplicit false

namespace ChatProject

open Framing Machine ServerMng

/-! ## Writing the command lines down -/

section
variable {ε : Type} (os : Desktop ε)

/-- The operating system, with a list of the command lines it has been given. -/
def Desktop.recorded : Desktop (ε × List (List UInt8)) where
  system cmd e := ((os.system cmd e.1).1, (os.system cmd e.1).2, e.2 ++ [cmd])
  msgrcv msqid role e := ((os.msgrcv msqid role e.1).1, (os.msgrcv msqid role e.1).2, e.2)
  kill pid e := (os.kill pid e.1, e.2)

namespace ClientGroupsMng

variable (m : ClientGroupsMng) (e : ε × List (List UInt8))

theorem log_recvChildPid (msqid : Int) (role : WindowRole) :
    (recvChildPid os.recorded msqid role e).2.2 = e.2 := by
  rw [recvChildPid]
  split
  · rename_i heq
    exact congrArg (·.2.2) heq.symm
  · rename_i heq
    exact congrArg (·.2.2) heq.symm

theorem log_killEntry (entry : GroupEntry) : (killEntry os.recorded entry e).2 = e.2 := by
  simp only [killEntry]
  split <;> split <;> rfl

theorem log_onLeave (g : CStr) : (m.onLeave os.recorded g e).2.2 = e.2 := by
  rw [onLeave]
  split
  · rfl
  · exact log_killEntry os e _

theorem log_clear : (m.clear os.recorded e).2.2 = e.2 := by
  rw [clear]
  induction m.groups generalizing e with
  | nil => rfl
  | cons entry entries ih => exact (ih _).trans (log_killEntry os e entry)

/-- A join opens the window that sends; the one that receives only if the first could be opened. -/
theorem log_onJoin {g : CStr} (hnew : m.findEntry g = none) (ip : CStr) (port : UInt16)
    (username : CStr) (al : Alloc) :
    (m.onJoin os.recorded g ip port username al e).2.2.2 =
      e.2 ++ senderCommand g ip port m.msqid username ::
        if (os.system (senderCommand g ip port m.msqid username) e.1).1 = 0 then
          [receiverCommand g ip port m.msqid] else [] := by
  rw [onJoin, hnew]
  simp only
  split
  · rename_i hfail
    have hrc : ¬ (os.system (senderCommand g ip port m.msqid username) e.1).1 = 0 := hfail
    rw [if_neg hrc]
    rfl
  · rename_i hopened
    have hrc : (os.system (senderCommand g ip port m.msqid username) e.1).1 = 0 :=
      not_not.mp hopened
    rw [if_pos hrc, List.append_cons e.2]
    split
    · rfl
    split
    · rfl
    -- the process ids are read off the queue
    have hpids : ∀ e, (recvChildPid os.recorded m.msqid .receiver
        (recvChildPid os.recorded m.msqid .sender e).2).2.2 = e.2 := fun e =>
      (log_recvChildPid os _ m.msqid .receiver).trans (log_recvChildPid os e m.msqid .sender)
    split
    · exact (log_killEntry os _ _).trans (hpids _)
    · exact hpids _

theorem msqid_onJoin {δ : Type} (os : Desktop δ) (m : ClientGroupsMng) (g ip : CStr) (port : UInt16)
    (username : CStr) (al : Alloc) (e : δ) :
    (m.onJoin os g ip port username al e).2.1.msqid = m.msqid := by
  rw [onJoin]
  split
  · rfl
  split
  split
  · rfl
  split
  split
  · rfl
  split
  · rfl
  simp only
  split <;> rfl

theorem msqid_onLeave {δ : Type} (os : Desktop δ) (m : ClientGroupsMng) (g : CStr) (e : δ) :
    (m.onLeave os g e).1.msqid = m.msqid := by
  rw [onLeave]
  split <;> rfl

end ClientGroupsMng

namespace ClientMng

open ClientGroupsMng

variable (m : ClientMng) {w : Wire} {al : Alloc} {e : ε × List (List UInt8)} {r : Request}

/-- The command lines of a call that is answered `ST_OK` and with this address. -/
def commands (e : ε) (ip : CStr) (port : UInt16) (r : Request) : List (List UInt8) :=
  match r.enters with
  | none => []
  | some g =>
    senderCommand g ip port m.groups.msqid m.username ::
      if (os.system (senderCommand g ip port m.groups.msqid m.username) e).1 = 0 then
        [receiverCommand g ip port m.groups.msqid] else []

/-- What there is among them. -/
theorem of_mem_commands {e : ε} {ip : CStr} {port : UInt16} {line : List UInt8}
    (h : line ∈ m.commands os e ip port r) : ∃ g, r.enters = some g ∧
      (line = senderCommand g ip port m.groups.msqid m.username ∨
        line = receiverCommand g ip port m.groups.msqid) := by
  rw [commands] at h
  split at h
  · exact absurd h List.not_mem_nil
  · rename_i g hg
    refine ⟨g, hg, ?_⟩
    rcases List.mem_cons.mp h with rfl | h
    · exact .inl rfl
    · split at h
      · exact .inr (List.mem_singleton.mp h)
      · exact absurd h List.not_mem_nil

/-- **The command lines of a call.** -/
theorem log_call {frame : List UInt8} {traffic : Traffic}
    (h : m.exchange w r.encode = (some frame, traffic))
    (hnew : ∀ g, r.enters = some g → (readReply r frame).1 = .ok → g ∉ m.groups.names) :
    (m.call os.recorded w al e r).desktop.2 =
      e.2 ++ if (readReply r frame).1 = .ok then
        m.commands os e.1 (readReply r frame).2.1 (readReply r frame).2.2 r else [] := by
  have henter : ∀ {op g}, r.enters = some g →
      m.exchange w (chatEncodeGroupnameReq op g) = (some frame, traffic) →
      readReply r frame = readReply (.joinGroup g) frame →
      (m.enterGroup w os.recorded al e op g).desktop.2 =
        e.2 ++ if (readReply r frame).1 = .ok then
          m.commands os e.1 (readReply r frame).2.1 (readReply r frame).2.2 r else [] := by
    intro op g hg hx hread
    rw [hread] at hnew ⊢
    simp only [enterGroup, doGroupJoin_of_reply hx, commands, hg]
    by_cases hok : (readReply (.joinGroup g) frame).1 = .ok
    · rw [if_pos hok, if_pos hok]
      exact log_onJoin os m.groups e (findEntry_eq_none_iff.mpr (hnew g hg hok)) _ _ _ al
    · rw [if_neg hok, if_neg hok, List.append_nil]
  have hnone : r.enters = none → ∀ c : Prop, [Decidable c] → e.2 = e.2 ++ if c then
      m.commands os e.1 (readReply r frame).2.1 (readReply r frame).2.2 r else [] := by
    intro hr c _
    simp only [commands, hr, ite_self, List.append_nil]
  cases r with
  | createGroup g => exact henter rfl h rfl
  | joinGroup g => exact henter rfl h rfl
  | register n p => exact hnone rfl _
  | login n p =>
    rw [← hnone rfl, call, login]
    simp only
    split <;> rfl
  | logout =>
    rw [← hnone rfl, call, logout]
    simp only
    split
    · exact log_clear os m.groups e
    · rfl
  | leaveGroup g =>
    rw [← hnone rfl, call, leaveGroup]
    simp only
    split
    · exact log_onLeave os m.groups e g
    · rfl

theorem msqid_granted {δ : Type} (os : Desktop δ) (m : ClientMng) (al : Alloc) (e : δ) (ip : CStr)
    (port : UInt16) (r : Request) :
    (m.granted os al e ip port r).groups.msqid = m.groups.msqid := by
  cases r with
  | createGroup g | joinGroup g => exact msqid_onJoin os m.groups g ip port m.username al e
  | leaveGroup g => exact msqid_onLeave os m.groups g e
  | _ => rfl

end ClientMng

end

/-! ## What a client keeps -/

namespace Network

section
variable {κ ε : Type} [DecidableEq κ] (os : Desktop ε) (N : Network κ ε)

/-- What the clients keep is the same. -/
def SameClients (peers peers' : κ → Peer ε) : Prop :=
  ∀ k, (peers' k).client = (peers k).client ∧ (peers' k).desktop = (peers k).desktop

theorem sameClients_update {peers : κ → Peer ε} {k : κ} {p : Peer ε}
    (hc : p.client = (peers k).client) (hd : p.desktop = (peers k).desktop) :
    SameClients peers (Function.update peers k p) := by
  intro k'
  by_cases hk : k' = k
  · subst hk
    rw [Function.update_self]
    exact ⟨hc, hd⟩
  · rw [Function.update_of_ne hk]
    exact ⟨rfl, rfl⟩

theorem sameClients_deliver (peerOf : Int → Option κ) (peers : κ → Peer ε) (packets : List Packet) :
    SameClients peers (packets.foldl (deliver peerOf) peers) := by
  induction packets generalizing peers with
  | nil => exact fun _ => ⟨rfl, rfl⟩
  | cons p packets ih =>
    have hone : SameClients peers (deliver peerOf peers p) := by
      rw [deliver]
      split
      · exact fun _ => ⟨rfl, rfl⟩
      · exact sameClients_update rfl rfl
    exact fun k => ⟨(ih _ k).1.trans (hone k).1, (ih _ k).2.trans (hone k).2⟩

theorem sameClients_readFrom (i : Fin maxClients) (k : κ) (size : Nat) :
    SameClients N.peers (N.readFrom i k size).peers := by
  intro k'
  rw [readFrom]
  generalize (handleClientData onMsg onDisc (N.server.net.clients i) N.server.net.tables
    (Inbox.arrived size (N.peers k).up) N.server.ctx).2.2.1.bytes = unread
  have hread : SameClients N.peers (Function.update N.peers k { N.peers k with up := unread }) :=
    sameClients_update rfl rfl
  have hsent := sameClients_deliver N.peerOf
    (Function.update N.peers k { N.peers k with up := unread })
    (N.server.step ⟨true, .interrupted, -1, Inbox.arrived size (N.peers k).up⟩).ctx.sent
  exact ⟨(hsent k').1.trans (hread k').1, (hsent k').2.trans (hread k').2⟩

theorem sameClients_serve (a : Turn) : SameClients N.peers (N.serve a).peers := by
  have hsame : SameClients N.peers N.peers := fun _ => ⟨rfl, rfl⟩
  rw [serve]
  split
  · rw [accept]
    split
    · exact hsame
    · split <;> exact hsame
  split
  · exact hsame
  split
  · exact hsame
  · exact sameClients_readFrom N _ _ _

/-- **What a step can do.**  A call returns, or nothing changes that a client keeps and nobody is
answered. -/
theorem step_cases (a : Action κ) :
    (∃ k r got n al, (N.peers k).stage = .receiving r got ∧ (N.peers k).down ≠ [] ∧
      wanted (got ++ (N.peers k).down.take n) = 0 ∧ N.step os a =
        (N.withPeer k ((N.peers k).finish os al r got n),
          some (((N.peers k).result os al r (got ++ (N.peers k).down.take n)).note k r))) ∨
    SameClients N.peers (N.step os a).1.peers ∧
      ∀ k r st addr, (N.step os a).2 ≠ some (.answered k r st addr) := by
  have hsame : SameClients N.peers N.peers := fun _ => ⟨rfl, rfl⟩
  cases a with
  | connect k =>
    refine .inr ?_
    rw [step]
    split
    · exact ⟨sameClients_update rfl rfl, by simp⟩
    · exact ⟨hsame, by simp⟩
  | ask k r =>
    refine .inr ?_
    rw [step]
    split
    · split
      · exact ⟨hsame, by simp⟩
      · exact ⟨sameClients_update rfl rfl, by simp⟩
    · exact ⟨hsame, by simp⟩
  | send k n =>
    refine .inr ?_
    rw [step]
    split
    · simp only
      split
      · exact ⟨hsame, by simp⟩
      · exact ⟨sameClients_update rfl rfl, by simp⟩
    · exact ⟨hsame, by simp⟩
  | recv k n al =>
    rw [step, recvStep]
    split
    · rename_i r got hstage
      simp only
      split
      · exact .inr ⟨hsame, by simp⟩
      · rename_i hsome
        split
        · rename_i hall
          exact .inl ⟨k, r, got, _, al, hstage, (not_or.mp hsome).2, hall, rfl⟩
        · exact .inr ⟨sameClients_update rfl rfl, by simp⟩
    · exact .inr ⟨hsame, by simp⟩
  | exit k kept =>
    refine .inr ?_
    rw [step]
    split
    · exact ⟨sameClients_update rfl rfl, by simp⟩
    · exact ⟨hsame, by simp⟩
  | serve a => exact .inr ⟨sameClients_serve N a, by simp [step]⟩

end

end Network

/-! ## What a client has opened -/

section
variable {κ ε : Type} {os : Desktop ε} {msqid : Int} {seen : List (Note κ)} {k : κ}
  {p p' : Peer (ε × List (List UInt8))} {x : Option (Note κ)}

open ClientGroupsMng

/-- What the client `k`, whose queue is `msqid`, has opened, when this much has been seen. -/
structure Opened (os : Desktop ε) (msqid : Int) (seen : List (Note κ)) (k : κ)
    (p : Peer (ε × List (List UInt8))) : Prop where
  queue : p.client.groups.msqid = msqid
  /-- Each command line is for a group it had been let into, and names the address it had been told
  and the user it was. -/
  vouched : ∀ line ∈ p.desktop.2, ∃ before after g q n, seen = before ++ after ∧
    InGroup before k g q ∧ LoggedIn before k n ∧
    (line = senderCommand g q.ip q.port msqid n ∨ line = receiverCommand g q.ip q.port msqid)
  /-- The window that sends has been opened for each group it is in. -/
  sender : ∀ {g q n}, InGroup seen k g q → LoggedIn seen k n →
    senderCommand g q.ip q.port msqid n ∈ p.desktop.2
  /-- So has the one that receives, if no command fails. -/
  receiver : (∀ line e, (os.system line e).1 = 0) → ∀ {g q}, InGroup seen k g q →
    receiverCommand g q.ip q.port msqid ∈ p.desktop.2

/-- Nobody is logged in or let into a group without being told so. -/
theorem LoggedIn.of_append (hx : ∀ r st addr, x ≠ some (.answered k r st addr)) {n : CStr}
    (h : LoggedIn (seen ++ x.toList) k n) : LoggedIn seen k n := by
  cases x with
  | none => rwa [Option.toList_none, List.append_nil] at h
  | some y =>
    obtain ⟨q, addr, rfl⟩ | ⟨h, -⟩ := since_concat.mp h
    · exact absurd rfl (hx _ _ _)
    · exact h

theorem InGroup.of_append (hx : ∀ r st addr, x ≠ some (.answered k r st addr)) {g : CStr}
    {q : McastPair} (h : InGroup (seen ++ x.toList) k g q) : InGroup seen k g q := by
  cases x with
  | none => rwa [Option.toList_none, List.append_nil] at h
  | some y =>
    obtain ⟨r, -, rfl⟩ | ⟨h, -⟩ := since_concat.mp h
    · exact absurd rfl (hx _ _ _)
    · exact h

theorem Opened.keeps (h : Opened os msqid seen k p) (hc : p'.client = p.client)
    (hd : p'.desktop = p.desktop) (hx : ∀ r st addr, x ≠ some (.answered k r st addr)) :
    Opened os msqid (seen ++ x.toList) k p' where
  queue := hc ▸ h.queue
  vouched line hline := by
    obtain ⟨before, after, g, q, n, rfl, hrest⟩ := h.vouched line (hd ▸ hline)
    exact ⟨before, after ++ x.toList, g, q, n, List.append_assoc .., hrest⟩
  sender hg hn := hd ▸ h.sender (hg.of_append hx) (hn.of_append hx)
  receiver hos {g q} hg := hd ▸ h.receiver hos (hg.of_append hx)

end

section
variable {κ ε : Type} {os : Desktop ε} {N : Network κ ε} {A : Atomic κ} {k : κ} {r : Request}
  {got : List UInt8} {n : Nat}

/-- The reply that completes a call. -/
theorem Refines.exists_served (h : Refines os N A)
    (hstage : (N.peers k).stage = .receiving r got) (hdown : (N.peers k).down ≠ [])
    (hall : wanted (got ++ (N.peers k).down.take n) = 0) :
    r.Fits ∧ tlv.IsFrame (got ++ (N.peers k).down.take n) ∧ ∃ d,
      Owed os d (N.peers k).client r (got ++ (N.peers k).down.take n) A.chat ∧
      A.line k = .made (some d) (.served r (readReply r (got ++ (N.peers k).down.take n)).1
        (if (readReply r (got ++ (N.peers k).down.take n)).1 = .ok then
          r.enters.map fun _ => ⟨(readReply r (got ++ (N.peers k).down.take n)).2.1,
            (readReply r (got ++ (N.peers k).down.take n)).2.2⟩
        else none)) := by
  obtain ⟨fd, held, hatt, hd⟩ := h.exists_dialogue (k := k) (.inr (by simp [hstage]))
  generalize hline : A.line k = line at hd
  cases hd with
  | @served _ _ d hfd hlink hstage' hin hframe _ hfits howed =>
    obtain ⟨rfl, rfl⟩ := Stage.receiving.inj (hstage.symm.trans hstage')
    have hsplit : got ++ (N.peers k).down =
        (got ++ (N.peers k).down.take n) ++ (N.peers k).down.drop n := by
      rw [List.append_assoc, List.take_append_drop]
    obtain ⟨-, hend⟩ := wanted_of_isFrame (hsplit ▸ hframe)
    rw [hend.mp hall, List.append_nil] at hsplit
    rw [hsplit] at hframe howed
    rw [hsplit, hfd]
    exact ⟨hfits, hframe, d, howed, rfl⟩
  | waiting _ _ _ _ hdown' => exact absurd hdown' hdown
  | idle _ hstage' | sending _ hstage' | left _ hstage' | gone _ hstage' =>
    exact absurd (hstage.symm.trans hstage') (by simp)

end

section
variable {κ ε : Type} {os : Desktop ε} {msqid : Int} {seen : List (Note κ)} {k : κ}
  {N : Network κ (ε × List (List UInt8))} {A : Atomic κ} {r : Request} {got : List UInt8} {n : Nat}

open ClientGroupsMng

/-- What a call that returns leaves behind. -/
theorem Peer.finish_spec {p : Peer (ε × List (List UInt8))} (hsock : 0 ≤ p.client.sockfd)
    (al : Alloc) (hfits : r.Fits) {d : Int} {c : Chat} (hframe : tlv.IsFrame (got ++ p.down.take n))
    (howed : Owed os.recorded d p.client r (got ++ p.down.take n) c) :
    ∃ st ip port, readReply r (got ++ p.down.take n) = (st, ip, port) ∧
      (∀ k : κ, (p.result os.recorded al r (got ++ p.down.take n)).note k r = .answered k r st
        (if st = .ok then r.enters.map fun _ => ⟨ip, port⟩ else none)) ∧
      (p.finish os.recorded al r got n).client.groups.msqid = p.client.groups.msqid ∧
      (p.finish os.recorded al r got n).desktop.2 = p.desktop.2 ++
        if st = .ok then p.client.commands os p.desktop.1 ip port r else [] := by
  generalize hreply : got ++ p.down.take n = frame at *
  obtain ⟨hst, hip, hport, hclient⟩ := result_spec os.recorded hsock al hfits hframe
  refine ⟨(readReply r frame).1, (readReply r frame).2.1, (readReply r frame).2.2, rfl,
    fun k => ?_, ?_, ?_⟩
  · rw [ClientMng.Result.note, hst, hip, hport]
  · show (p.result os.recorded al r (got ++ p.down.take n)).client.groups.msqid = _
    rw [hreply, hclient]
    split
    · exact ClientMng.msqid_granted os.recorded p.client al p.desktop _ _ r
    · rfl
  · show (p.result os.recorded al r (got ++ p.down.take n)).desktop.2 = _
    obtain ⟨buf, hbuf, -⟩ := Request.parse_encode hfits
    obtain ⟨_, hx, -⟩ := ClientMng.exchange_of_frame hsock
      (fun n hn => absurd hn List.not_mem_nil) hframe (Wire.bytes_replying frame buf)
    rw [← hbuf] at hx
    rw [hreply]
    exact ClientMng.log_call os p.client hx howed.entering

theorem ClientMng.username_granted {δ : Type} (os : Desktop δ) (m : ClientMng) (al : Alloc) (e : δ)
    (ip : CStr) (port : UInt16) {r : Request} {g : CStr} (hr : r.enters = some g) :
    (m.granted os al e ip port r).username = m.username := by
  rcases Request.enters_eq_some_iff.mp hr with rfl | rfl <;> rfl

/-- Who has just been let into a group has been told before under which name, and knows it. -/
theorem Refines.username (hK : Knows seen k (A.line k) A.chat) {m : ClientMng} {d : Int}
    {frame : List UInt8} (howed : Owed os.recorded d m r frame A.chat) {ip : CStr} {port : UInt16}
    (hreply : readReply r frame = (.ok, ip, port)) {g : CStr} (hg : r.enters = some g)
    (hline : A.line k = .made (some d) (.served r .ok (some ⟨ip, port⟩)))
    {e : ε × List (List UInt8)} :
    LoggedIn seen k m.username ∧ A.chat.session d = some m.username := by
  obtain ⟨_, hd, -, henter⟩ := hK.served hline
  obtain rfl := Option.some.inj hd
  obtain ⟨n, hn, -⟩ := henter g ⟨ip, port⟩ hg rfl
  have hsame : n = m.username := by
    have hlogin := (howed.granted (by rw [hreply]) [] e).login
    rw [hn, ClientMng.username_granted _ _ _ _ _ _ hg] at hlogin
    rcases hlogin with ⟨-, hname⟩ | ⟨-, hnone⟩
    · exact Option.some.inj hname
    · exact absurd hnone (by simp)
  rw [← hsame]
  obtain hin | ⟨q, addr, hcall⟩ | hcall := hK.session hline hn
  · exact ⟨hin, hn⟩
  · obtain ⟨rfl, -⟩ := Pending.served.inj hcall
    exact absurd hg (by simp [Request.enters])
  · exact absurd hcall (by simp)

/-- **A call returns.** -/
theorem Opened.finish (h : Opened os msqid seen k (N.peers k)) (hN : Refines os.recorded N A)
    (hK : Knows seen k (A.line k) A.chat) (al : Alloc)
    (hstage : (N.peers k).stage = .receiving r got) (hdown : (N.peers k).down ≠ [])
    (hall : wanted (got ++ (N.peers k).down.take n) = 0) :
    r.Fits ∧ ∃ st addr, ((N.peers k).result os.recorded al r
        (got ++ (N.peers k).down.take n)).note k r = .answered k r st addr ∧
      Opened os msqid (seen ++ [.answered k r st addr]) k
        ((N.peers k).finish os.recorded al r got n) := by
  obtain ⟨hfits, hframe, d, howed, hline⟩ := hN.exists_served hstage hdown hall
  obtain ⟨st, ip, port, hreply, hnote, hqueue, hlog⟩ :=
    Peer.finish_spec (hN.sockfd k) al hfits hframe howed
  refine ⟨hfits, st, _, hnote k, ?_⟩
  rw [hreply] at hline
  generalize haddr : (if st = .ok then r.enters.map fun _ => (⟨ip, port⟩ : McastPair) else none) =
    addr at hline ⊢
  -- the user that is let into a group
  have huser : ∀ g, r.enters = some g → st = .ok → addr = some ⟨ip, port⟩ ∧
      LoggedIn seen k (N.peers k).client.username ∧
      A.chat.session d = some (N.peers k).client.username := by
    rintro g hg rfl
    rw [if_pos rfl, hg] at haddr
    obtain rfl : some ⟨ip, port⟩ = addr := haddr
    exact ⟨rfl, Refines.username hK howed hreply hg hline (e := (N.peers k).desktop)⟩
  have hsession : ∀ {n}, LoggedIn seen k n → A.chat.session d = some n := by
    intro n hn
    obtain ⟨_, _, hmade, hsession, -⟩ := hK.login hn
    obtain ⟨hd, -⟩ := Line.made.inj (hline.symm.trans hmade)
    obtain rfl := Option.some.inj hd
    exact hsession
  have hold : ∀ {line}, line ∈ (N.peers k).desktop.2 →
      line ∈ ((N.peers k).finish os.recorded al r got n).desktop.2 := fun hline =>
    hlog ▸ List.mem_append_left _ hline
  constructor
  · exact hqueue.trans h.queue
  · intro line hmem
    rw [hlog] at hmem
    rcases List.mem_append.mp hmem with hmem | hmem
    · obtain ⟨before, after, g, q, n, rfl, hrest⟩ := h.vouched line hmem
      exact ⟨before, after ++ [_], g, q, n, List.append_assoc .., hrest⟩
    · split at hmem
      · rename_i hok
        obtain ⟨g, hg, hcommand⟩ := ClientMng.of_mem_commands os _ hmem
        obtain ⟨rfl, hn, -⟩ := huser g hg hok
        rw [h.queue] at hcommand
        refine ⟨_, [], g, ⟨ip, port⟩, _, (List.append_nil _).symm, ?_, ?_, hcommand⟩
        · exact since_concat.mpr (.inl ⟨r, hg, by rw [hok]⟩)
        · exact since_concat.mpr (.inr ⟨hn, by simp⟩)
      · exact absurd hmem List.not_mem_nil
  · intro g q n hg hn
    obtain ⟨r', hr', hx⟩ | ⟨hg', -⟩ := since_concat.mp hg
    · -- into this group, just now
      obtain ⟨-, rfl, rfl, rfl⟩ := Note.answered.inj hx
      obtain ⟨hq, hin, hname⟩ := huser g hr' rfl
      obtain rfl := Option.some.inj hq
      obtain ⟨_, _, hx⟩ | ⟨hn, -⟩ := since_concat.mp hn
      · obtain ⟨-, rfl, -⟩ := Note.answered.inj hx
        exact absurd hr' (by simp [Request.enters])
      obtain rfl := Option.some.inj ((hsession hn).symm.trans hname)
      rw [hlog, if_pos rfl, ClientMng.commands, hr', h.queue]
      exact List.mem_append_right _ List.mem_cons_self
    · obtain ⟨⟨n', hn'⟩, -⟩ := hK.group hg'
      obtain ⟨_, _, hx⟩ | ⟨hn, -⟩ := since_concat.mp hn
      · -- logged in just now, and yet in the group before: it is the name it had
        obtain ⟨-, rfl, rfl, rfl⟩ := Note.answered.inj hx
        obtain ⟨_, hd, hlogin, -⟩ := hK.served hline
        obtain rfl := Option.some.inj hd
        obtain rfl := Option.some.inj ((hsession hn').symm.trans (hlogin _ _ rfl))
        exact hold (h.sender hg' hn')
      · exact hold (h.sender hg' hn)
  · intro hos g q hg
    obtain ⟨r', hr', hx⟩ | ⟨hg, -⟩ := since_concat.mp hg
    · obtain ⟨-, rfl, rfl, rfl⟩ := Note.answered.inj hx
      obtain ⟨hq, -⟩ := huser g hr' rfl
      obtain rfl := Option.some.inj hq
      rw [hlog, if_pos rfl, ClientMng.commands, hr', h.queue]
      simp only
      rw [if_pos (hos _ _)]
      exact List.mem_append_right _ (List.mem_cons_of_mem _ (List.mem_singleton_self _))
    · exact hold (h.receiver hos hg)

end

/-! ## Whole runs -/

section
variable {κ ε : Type} [DecidableEq κ] {os : Desktop ε} {seen : List (Note κ)} {A A' : Atomic κ}
  {N N' : Network κ (ε × List (List UInt8))} {msqid : κ → Int}

theorem Informed.runs {tr : List (Note κ)} (h : Informed seen A) (hr : Runs Atomic.Step A tr A') :
    Informed (seen ++ tr) A' := by
  refine hr.history (R := fun tr A => Informed (seen ++ tr) A) (fun tr A x A' hA hstep => ?_) ?_
  · rw [← List.append_assoc]
    exact hA.step hstep
  · rw [List.append_nil]
    exact h

/-- What holds of everybody. -/
structure Watched (os : Desktop ε) (msqid : κ → Int) (seen : List (Note κ))
    (N : Network κ (ε × List (List UInt8))) (A : Atomic κ) : Prop where
  refines : Refines os.recorded N A
  informed : Informed seen A
  /-- Only requests that fit are answered. -/
  fits : ∀ {k r st addr}, .answered k r st addr ∈ seen → r.Fits
  opened : ∀ k, Opened os (msqid k) seen k (N.peers k)

theorem Watched.step (h : Watched os msqid seen N A) {x : Option (Note κ)}
    (hstep : Network.Next os.recorded N x N') :
    ∃ A', Watched os msqid (seen ++ x.toList) N' A' := by
  obtain ⟨A', hrun, hN'⟩ := simulation os.recorded h.refines hstep
  suffices hrest : (∀ k r st addr, .answered k r st addr ∈ seen ++ x.toList → r.Fits) ∧
      ∀ k, Opened os (msqid k) (seen ++ x.toList) k (N'.peers k) from
    ⟨A', hN', h.informed.runs hrun, hrest.1 _ _ _ _, hrest.2⟩
  obtain ⟨a, hal, hx⟩ := hstep
  obtain ⟨k, r, got, n, al, hstage, hdown, hall, heq⟩ | ⟨hsame, hquiet⟩ :=
    N.step_cases os.recorded a
  · obtain ⟨hfits, st, addr, hnote, hopened⟩ :=
      (h.opened k).finish h.refines (h.informed.knows k) al hstage hdown hall
    rw [heq, hnote] at hx
    obtain ⟨rfl, rfl⟩ := Prod.mk.inj hx
    refine ⟨fun _ _ _ _ hmem => ?_, fun k' => ?_⟩
    · rcases List.mem_append.mp hmem with hmem | hmem
      · exact h.fits hmem
      · obtain ⟨-, rfl, -⟩ := Note.answered.inj (List.mem_singleton.mp hmem)
        exact hfits
    · rw [Network.withPeer_peers]
      by_cases hk : k' = k
      · subst hk
        rw [if_pos rfl]
        exact hopened
      · rw [if_neg hk]
        refine (h.opened k').keeps rfl rfl fun _ _ _ hanswered => hk ?_
        exact (Note.answered.inj (Option.some.inj hanswered)).1.symm
  · rw [hx] at hsame hquiet
    refine ⟨fun k r st addr hmem => ?_, fun k => ?_⟩
    · rcases List.mem_append.mp hmem with hmem | hmem
      · exact h.fits hmem
      · exact absurd (Option.mem_toList.mp hmem) (hquiet k r st addr)
    · exact (h.opened k).keeps (hsame k).1 (hsame k).2 (hquiet k)

/-- Of every run. -/
theorem watched {al al' : Alloc} {mng : ServerMng} (hmng : ServerMng.init al = some mng)
    {listenFd : Int} (h0 : 0 ≤ listenFd) {opened : FdSet} (hopen : opened listenFd = true)
    {net : ServerNet} (hnet : ServerNet.create al' listenFd opened = some net) (os : Desktop ε)
    {N₀ : Network κ (ε × List (List UInt8))} (h₀ : N₀.Initial net mng)
    (hlog : ∀ k, (N₀.peers k).desktop.2 = [])
    (hr : Runs (Network.Next os.recorded) N₀ seen N) :
    ∃ A, Watched os (fun k => (N₀.peers k).client.groups.msqid) seen N A := by
  refine hr.history (R := fun seen N => ∃ A, Watched os _ seen N A)
    (fun _ _ _ _ h hstep => h.elim fun _ hA => hA.step hstep) ⟨.initial κ mng, ?_⟩
  refine ⟨refines_initial hmng h0 hopen hnet h₀, informed hmng .refl,
    fun hmem => absurd hmem List.not_mem_nil, fun k => ⟨rfl, fun line hline => ?_, ?_, ?_⟩⟩
  · rw [hlog k] at hline
    exact absurd hline List.not_mem_nil
  · exact fun hg => absurd hg not_since_nil
  · exact fun _ {g q} hg => absurd hg not_since_nil

/-- **Windows.**  In every run of the network, each command line that a client hands to the shell is
for a group it had been let into, with the address it had been told and the name it was logged in
under; and for each group it is in it has opened the window that sends, and, if no command fails,
the one that receives. -/
theorem Network.windows_opened {al al' : Alloc} {mng : ServerMng}
    (hmng : ServerMng.init al = some mng) {listenFd : Int} (h0 : 0 ≤ listenFd) {opened : FdSet}
    (hopen : opened listenFd = true) {net : ServerNet}
    (hnet : ServerNet.create al' listenFd opened = some net) (os : Desktop ε)
    {N₀ : Network κ (ε × List (List UInt8))} (h₀ : N₀.Initial net mng)
    (hlog : ∀ k, (N₀.peers k).desktop.2 = []) (hr : Runs (Network.Next os.recorded) N₀ seen N)
    (k : κ) :
    (∀ line ∈ (N.peers k).desktop.2, ∃ before after g q n, seen = before ++ after ∧
      InGroup before k g q ∧ LoggedIn before k n ∧
      (line = ClientGroupsMng.senderCommand g q.ip q.port (N₀.peers k).client.groups.msqid n ∨
        line = ClientGroupsMng.receiverCommand g q.ip q.port (N₀.peers k).client.groups.msqid)) ∧
    ∀ {g q}, InGroup seen k g q → ∃ n, LoggedIn seen k n ∧
      ClientGroupsMng.senderCommand g q.ip q.port (N₀.peers k).client.groups.msqid n ∈
        (N.peers k).desktop.2 ∧
      ((∀ line e, (os.system line e).1 = 0) →
        ClientGroupsMng.receiverCommand g q.ip q.port (N₀.peers k).client.groups.msqid ∈
          (N.peers k).desktop.2) := by
  obtain ⟨A, hA⟩ := watched hmng h0 hopen hnet os h₀ hlog hr
  have hk := hA.opened k
  refine ⟨hk.vouched, fun {g q} hg => ?_⟩
  obtain ⟨⟨n, hn⟩, -⟩ := (hA.informed.knows k).group hg
  exact ⟨n, hn, hk.sender hg hn, fun hos => hk.receiver hos hg⟩

end

/-- The lobby, where everybody's commands are written down. -/
def desks (mng : ServerMng) : Network Nat (Unit × List (List UInt8)) where
  server := Loop.start firstNet ⟨mng, [], []⟩
  peers _ := ⟨⟨3, 0, .empty, ⟨7, []⟩⟩, ((), []), .idle, .unmade, [], []⟩
  backlog := []
  peerOf _ := none

theorem desks_initial (mng : ServerMng) : (desks mng).Initial firstNet mng :=
  ⟨rfl, fun _ => ⟨show (0 : Int) ≤ 3 by decide, rfl, rfl, rfl, rfl, rfl, rfl⟩, rfl, fun _ => rfl⟩

theorem meeting_recorded : ∃ mng N, ServerMng.init [] = some mng ∧
    Runs (Network.Next willing.recorded) (desks mng) meetingSeen N := by
  have hrun : (ServerMng.init []).map (fun mng =>
      (decide (Machine.Along (Network.stride willing.recorded) Network.Strides (desks mng) meeting),
        (Machine.trace (Network.stride willing.recorded) (desks mng) meeting).flatMap
          fun x => x.2.toList)) = some (true, meetingSeen) := by
    decide +kernel
  obtain ⟨mng, hmng, hend⟩ := Option.map_eq_some_iff.mp hrun
  obtain ⟨hal, hseen⟩ := Prod.mk.inj hend
  have hruns := Network.runs_of_strides willing.recorded (desks mng) (of_decide_eq_true hal)
  rw [hseen] at hruns
  exact ⟨mng, _, hmng, hruns⟩

/-- The second of the two that have met has opened both its windows. -/
theorem Network.windows_opened_meeting :
    ∃ (N : Network Nat (Unit × List (List UInt8))) (n : CStr), LoggedIn meetingSeen 1 n ∧
      ClientGroupsMng.senderCommand (letter 103) firstAddress.ip firstAddress.port 7 n ∈
        (N.peers 1).desktop.2 ∧
      ClientGroupsMng.receiverCommand (letter 103) firstAddress.ip firstAddress.port 7 ∈
        (N.peers 1).desktop.2 := by
  obtain ⟨mng, N, hmng, hruns⟩ := meeting_recorded
  obtain ⟨n, hn, hsender, hreceiver⟩ := (windows_opened hmng (show (0 : Int) ≤ 3 by decide)
    lobby_opened.1 lobby_opened.2 willing (desks_initial mng) (fun _ => rfl) hruns 1).2
    inGroup_meeting.2
  exact ⟨N, n, hn, hsender, hreceiver fun _ _ => rfl⟩

end ChatProject
