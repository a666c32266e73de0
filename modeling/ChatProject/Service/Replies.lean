import ChatProject.Service.Addresses

/-!
# What is sent

A request on a descriptor that is not negative gets exactly one frame back, and the frame says the
verdict: `Chat.serve` puts the service together as a function for the case that memory never runs
out, and `Chat.answer_serve` reads its verdict off the bytes.  A frame counts as the answer only if
it is the one frame sent, went to the descriptor of the request and has the opcode of its reply.
The one reply that could fail to be encoded is the one with an address in it, and all addresses of
the pool fit.
-/

set_option autoImplicit false

namespace ChatProject

/-- The status of the reply that went to `fd`, if exactly one frame was sent, it went there, and it
is a whole frame of the type `op`. -/
def answer (fd : Int) (op : ChatOpcode) (sent : List Packet) : Option ChatStatus :=
  match sent with
  | [(dest, opcode :: len :: status :: rest)] =>
    if dest = fd ∧ opcode = op.toByte ∧ len.toNat = rest.length + 1 then
      some (ChatStatus.ofByte status)
    else none
  | _ => none

/-- The address in the reply that went to `fd`, if exactly one frame was sent, it went there, and it
is of the type `op`. -/
def answerPair (fd : Int) (op : ChatOpcode) (sent : List Packet) : Option McastPair :=
  match sent with
  | [(dest, frame)] =>
    if dest = fd ∧ frame.head? = some op.toByte then
      match chatDecodeGroupRepOk frame with
      | .ok (.ok, ip, port) => some ⟨CStr.ofBuffer ip, port⟩
      | _ => none
    else none
  | _ => none

/-- What there was to be sent for an answer. -/
theorem exists_of_answer {fd : Int} {op : ChatOpcode} {sent : List Packet} {st : ChatStatus}
    (h : answer fd op sent = some st) :
    ∃ len status rest, sent = [(fd, op.toByte :: len :: status :: rest)] ∧
      st = ChatStatus.ofByte status := by
  unfold answer at h
  split at h
  · next dest opcode len status rest =>
    by_cases hc : dest = fd ∧ opcode = op.toByte ∧ len.toNat = rest.length + 1
    · obtain ⟨rfl, rfl, hlen⟩ := hc
      rw [if_pos ⟨rfl, rfl, hlen⟩, Option.some_inj] at h
      exact ⟨len, status, rest, rfl, h.symm⟩
    · rw [if_neg hc] at h
      exact absurd h (by simp)
  · exact absurd h (by simp)

theorem sendStatus_eq {fd : Int} (hfd : 0 ≤ fd) (op : ChatOpcode) (st : ChatStatus) :
    sendStatus fd op st = [(fd, chatEncodeStatusRep op st)] := by
  rw [sendStatus, sendReply, sendMessage, if_neg]
  simp only [chatEncodeStatusRep, List.length_cons, not_or]
  omega

theorem sendStatus_of_neg {fd : Int} (hfd : fd < 0) (op : ChatOpcode) (st : ChatStatus) :
    sendStatus fd op st = [] := by
  rw [sendStatus, sendReply, sendMessage, if_pos (.inl hfd)]

theorem answer_sendStatus {fd : Int} (hfd : 0 ≤ fd) (op : ChatOpcode) {st : ChatStatus}
    (hst : st.Named) : answer fd op (sendStatus fd op st) = some st := by
  rw [sendStatus_eq hfd, chatEncodeStatusRep, answer, if_pos ⟨rfl, rfl, rfl⟩,
    ChatStatus.ofByte_toByte hst]

/-- The address reply on the wire. -/
theorem sendGroupRepOk_eq {fd : Int} (hfd : 0 ≤ fd) (op : ChatOpcode) {ip : CStr} (port : UInt16)
    (hip : ip.length < chatMaxIpStrLen) :
    ∃ frame, chatEncodeGroupRepOk op ip port = some frame ∧
      sendReply fd (chatEncodeGroupRepOk op ip port) = [(fd, frame)] ∧
      answer fd op [(fd, frame)] = some .ok ∧
      answerPair fd op [(fd, frame)] = some ⟨ip, port⟩ := by
  have hdec := fun f (hf : chatEncodeGroupRepOk op ip port = some f) =>
    chatDecodeGroupRepOk_encode hf []
  rw [chatEncodeGroupRepOk_eq hip] at hdec ⊢
  refine ⟨_, rfl, ?_, ?_, ?_⟩
  · rw [sendReply, sendMessage, if_neg]
    simp only [List.length_cons, not_or]
    omega
  · have hlen : (UInt8.ofNat (5 + ip.length)).toNat = 5 + ip.length := by
      simp only [chatMaxIpStrLen] at hip
      exact UInt8.toNat_ofNat_of_lt' (by simp only [UInt8.size]; omega)
    rw [answer, if_pos]
    · rfl
    · refine ⟨rfl, rfl, ?_⟩
      rw [hlen, CStr.length]
      simp only [List.length_cons, List.length_append, List.length_nil]
      omega
  · have h := hdec _ rfl
    rw [List.append_nil] at h
    rw [answerPair, if_pos ⟨rfl, rfl⟩, h]
    simp only [CStr.ofBuffer_bytes]

namespace Chat

/-! ## The verdict on the wire -/

theorem verdict_named (c : Chat) (fd : Int) (r : Request) : (c.verdict fd r).Named := by
  intro code
  cases r with
  | register n p => rw [verdict]; split <;> simp
  | login n p =>
    rw [verdict]
    split
    · simp
    split
    · simp
    split
    · simp
    split
    · simp
    split <;> simp
  | logout =>
    rw [verdict]
    split
    · simp
    split <;> simp
  | createGroup g =>
    rw [verdict]
    split
    · simp
    split
    · simp
    split <;> simp
  | joinGroup g =>
    rw [verdict]
    split
    · simp
    split
    · simp
    split <;> simp
  | leaveGroup g =>
    rw [verdict]
    split
    · simp
    split
    · simp
    split <;> simp

/-- Serving a request when memory does not run out. -/
def serve (c : Chat) (fd : Int) (r : Request) : Chat × List Packet :=
  if c.verdict fd r = .ok then (c.grant fd r, sendReply fd (c.okReply fd r))
  else (c, sendStatus fd r.repOpcode (c.verdict fd r))

theorem Outcome.eq_serve {c c' : Chat} {fd : Int} {r : Request} {sent : List Packet}
    (h : c.Outcome fd [] r c' sent) : (c', sent) = c.serve fd r := by
  rw [serve]
  cases h with
  | refused hv => rw [if_neg hv]
  | granted hv hloss hal => rw [if_pos hv, hal (.inl rfl)]
  | failed hv hal => exact absurd rfl hal

/-- The group a request leads into is one with an address that can be told. -/
theorem announce_eq {c : Chat} (h : c.Addresses) (op : ChatOpcode) {g : CStr} {gr : Group}
    (hg : c.group g = some gr) :
    c.announce op g = chatEncodeGroupRepOk op gr.mcastIp gr.mcastPort ∧
      gr.mcastIp.length < chatMaxIpStrLen := by
  rw [announce, hg, Option.bind_some]
  exact ⟨rfl, length_ip_of_mem_mcastFill gr.pair (h.held_mem (held_of_group hg))⟩

/-- The groups that exist after a granted request that leads into one. -/
theorem exists_group_of_grant {c : Chat} {fd : Int} {g : CStr} {r : Request}
    (hr : r = .createGroup g ∨ r = .joinGroup g) (hv : c.verdict fd r = .ok) :
    ∃ gr, (c.grant fd r).group g = some gr := by
  rcases hr with rfl | rfl
  · obtain ⟨n, pair, rest, hn, hg, hfree⟩ := verdict_createGroup_eq_ok.mp hv
    rw [grant_createGroup hn, editUser_group, found_of_cons hfree]
    exact ⟨_, Function.update_self ..⟩
  · obtain ⟨n, gr, hn, hg, -⟩ := verdict_joinGroup_eq_ok.mp hv
    rw [grant_joinGroup hn, editUser_group, countIn_of_some hg]
    exact ⟨_, Function.update_self ..⟩

/-- The reply to a granted CREATE or JOIN tells the group's address. -/
theorem okReply_group {c : Chat} (h : c.Addresses) {fd : Int} (hfd : 0 ≤ fd) {g : CStr}
    {r : Request} (hr : r = .createGroup g ∨ r = .joinGroup g) (hv : c.verdict fd r = .ok) :
    ∃ gr frame, (c.grant fd r).group g = some gr ∧ gr.mcastIp.length < chatMaxIpStrLen ∧
      chatEncodeGroupRepOk r.repOpcode gr.mcastIp gr.mcastPort = some frame ∧
      sendReply fd (c.okReply fd r) = [(fd, frame)] ∧
      answer fd r.repOpcode [(fd, frame)] = some .ok ∧
      answerPair fd r.repOpcode [(fd, frame)] = some gr.pair := by
  obtain ⟨gr, hgr⟩ := exists_group_of_grant hr hv
  have haddr : (c.grant fd r).Addresses := grant_induction Addresses.lending h hv
  obtain ⟨heq, hip⟩ := announce_eq haddr r.repOpcode hgr
  obtain ⟨frame, henc, hsend, hans, hpair⟩ :=
    sendGroupRepOk_eq hfd r.repOpcode gr.mcastPort hip
  have hok : c.okReply fd r = (c.grant fd r).announce r.repOpcode g := by
    rcases hr with rfl | rfl <;> rfl
  exact ⟨gr, frame, hgr, hip, henc, by rw [hok, heq, hsend], hans, hpair⟩

theorem okReply_of_status {c : Chat} {fd : Int} {r : Request}
    (hr : ∀ g, r ≠ .createGroup g ∧ r ≠ .joinGroup g) :
    c.okReply fd r = some (chatEncodeStatusRep r.repOpcode .ok) := by
  cases r with
  | createGroup g => exact absurd rfl (hr g).1
  | joinGroup g => exact absurd rfl (hr g).2
  | _ => rfl

/-- **The answer is the verdict.** -/
theorem answer_serve {c : Chat} (h : c.Addresses) {fd : Int} (hfd : 0 ≤ fd) (r : Request) :
    answer fd r.repOpcode (c.serve fd r).2 = some (c.verdict fd r) := by
  rw [serve]
  by_cases hv : c.verdict fd r = .ok
  · rw [if_pos hv, hv]
    by_cases hr : ∃ g, r = .createGroup g ∨ r = .joinGroup g
    · obtain ⟨g, hg⟩ := hr
      obtain ⟨gr, frame, -, -, -, hsend, hans, -⟩ := okReply_group h hfd hg hv
      simp only [hsend, hans]
    · rw [okReply_of_status (by simpa only [not_exists, not_or] using hr)]
      exact answer_sendStatus hfd _ (by intro code; simp)
  · rw [if_neg hv]
    exact answer_sendStatus hfd _ (c.verdict_named fd r)

end Chat

end ChatProject
