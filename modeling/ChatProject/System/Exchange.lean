import ChatProject.Client.ClientMng
import ChatProject.Service.Replies
import ChatProject.Shared.Codec

/-!
# One request, one reply

The two ends of the protocol put side by side, without the network between them.  The client has an
encoder for each request and the server a decoder; the server picks one of two encoders for its
reply, depending on the verdict, and the client one of two decoders, depending on the request.

* `Request.encode` — what the client sends for a request.  `Request.parse_encode` is the way there:
  the server reads the request the client meant.
* `readReply` — what the client makes of a reply.  `Chat.exists_reply` is the way back: there is
  exactly one frame, and the client reads the verdict out of it, and the address of the group where
  there is one.
* `ClientMng.call` — the six calls as one function of the request; `call_of_reply` says what it does
  with a reply.
-/

set_option autoImplicit false

namespace ChatProject

open Framing

/-! ## The way there -/

namespace Request

/-- The frame the client sends for a request, if every string fits. -/
def encode : Request → Option (List UInt8)
  | register n p => chatEncodeUserPassReq .regReq n p
  | login n p => chatEncodeUserPassReq .loginReq n p
  | logout => some chatEncodeLogoutReq
  | createGroup g => chatEncodeGroupnameReq .createGroupReq g
  | joinGroup g => chatEncodeGroupnameReq .joinGroupReq g
  | leaveGroup g => chatEncodeGroupnameReq .leaveGroupReq g

theorem encodeUserPass_spec {op : ChatOpcode} {n p : CStr} (hn : n.length ≤ chatMaxUsernameLen)
    (hp : p.length ≤ chatMaxPasswordLen) :
    ∃ l payload, chatEncodeUserPassReq op n p = some (op.toByte :: l :: payload) ∧
      tlv.IsFrame (op.toByte :: l :: payload) ∧
      ∀ make, parseUserPass make (op.toByte :: l :: payload) = some (make n p) := by
  have heq : chatEncodeUserPassReq op n p = some _ := chatEncodeUserPassReq_eq hn hp
  have hdec := chatDecodeUserPass_encode heq []
  rw [List.append_nil] at hdec
  refine ⟨_, _, heq, (framed_userPassReq heq).isFrame, fun make => ?_⟩
  rw [parseUserPass, hdec]
  simp only [CStr.ofBuffer_bytes]

theorem encodeGroupname_spec {op : ChatOpcode} {g : CStr} (hg : g.length ≤ chatMaxGroupnameLen) :
    ∃ l payload, chatEncodeGroupnameReq op g = some (op.toByte :: l :: payload) ∧
      tlv.IsFrame (op.toByte :: l :: payload) ∧
      ∀ make, parseGroupname make (op.toByte :: l :: payload) = some (make g) := by
  have heq : chatEncodeGroupnameReq op g = some _ := chatEncodeGroupnameReq_eq hg
  have hdec := chatDecodeGroupname_encode heq []
  rw [List.append_nil] at hdec
  refine ⟨_, _, heq, (framed_groupnameReq heq).isFrame, fun make => ?_⟩
  rw [parseGroupname, hdec]
  simp only [CStr.ofBuffer_bytes]

/-- **The way there.**  A request whose strings fit goes out as one frame, and the server reads the
same request out of it. -/
theorem parse_encode {r : Request} (h : r.Fits) :
    ∃ msg, r.encode = some msg ∧ tlv.IsFrame msg ∧ parse msg = some r := by
  cases r with
  | register n p =>
    obtain ⟨l, payload, heq, hframe, hparse⟩ := encodeUserPass_spec h.1 h.2
    exact ⟨_, heq, hframe, hparse register⟩
  | login n p =>
    obtain ⟨l, payload, heq, hframe, hparse⟩ := encodeUserPass_spec h.1 h.2
    exact ⟨_, heq, hframe, hparse login⟩
  | logout => exact ⟨_, rfl, isFrame_cons rfl, rfl⟩
  | createGroup g =>
    obtain ⟨l, payload, heq, hframe, hparse⟩ := encodeGroupname_spec h
    exact ⟨_, heq, hframe, hparse createGroup⟩
  | joinGroup g =>
    obtain ⟨l, payload, heq, hframe, hparse⟩ := encodeGroupname_spec h
    exact ⟨_, heq, hframe, hparse joinGroup⟩
  | leaveGroup g =>
    obtain ⟨l, payload, heq, hframe, hparse⟩ := encodeGroupname_spec h
    exact ⟨_, heq, hframe, hparse leaveGroup⟩

/-- A request with a string that is too long is not sent. -/
theorem encode_of_not_fits {r : Request} (h : ¬ r.Fits) : r.encode = none := by
  have hpair : ∀ (op : ChatOpcode) (n p : CStr),
      ¬ (n.length ≤ chatMaxUsernameLen ∧ p.length ≤ chatMaxPasswordLen) →
        chatEncodeUserPassReq op n p = none := fun op n p hnp => if_pos (by omega)
  have hname : ∀ (op : ChatOpcode) (g : CStr), ¬ g.length ≤ chatMaxGroupnameLen →
      chatEncodeGroupnameReq op g = none := fun op g hg => if_pos (by omega)
  cases r with
  | register n p => exact hpair _ n p h
  | login n p => exact hpair _ n p h
  | logout => exact absurd trivial h
  | createGroup g => exact hname _ g h
  | joinGroup g => exact hname _ g h
  | leaveGroup g => exact hname _ g h

end Request

/-! ## The way back -/

/-- What the client reads out of a reply: the status, and the address where it looks for one. -/
def readReply (r : Request) (frame : List UInt8) : ChatStatus × CStr × UInt16 :=
  match r with
  | .createGroup _ | .joinGroup _ =>
    match chatDecodeGroupRepOk frame with
    | .error _ => (.errProtocol, .empty, 0)
    | .ok (status, ip, port) => (status, CStr.ofBuffer ip, port)
  | _ => (ClientMng.statusOf (some frame), .empty, 0)

theorem readReply_statusRep (r : Request) (op : ChatOpcode) {st : ChatStatus} (h : st.Named) :
    (readReply r (chatEncodeStatusRep op st)).1 = st := by
  have hstatus : chatDecodeStatusRep (chatEncodeStatusRep op st ++ []) = _ :=
    chatDecodeStatusRep_encode (ChatStatus.ofByte_toByte h) []
  have hgroup : chatDecodeGroupRepOk (chatEncodeStatusRep op st ++ []) = _ :=
    chatDecodeGroupRepOk_status (ChatStatus.ofByte_toByte h) []
  rw [List.append_nil] at hstatus hgroup
  cases r <;> simp only [readReply, ClientMng.statusOf, hstatus, hgroup]

namespace Chat

/-- **The way back.**  A request gets exactly one frame, out of which the client reads the verdict,
and the address of the group it has been let into. -/
theorem exists_reply {c : Chat} (h : c.Addresses) {fd : Int} (hfd : 0 ≤ fd) (r : Request) :
    ∃ frame, (c.serve fd r).2 = [(fd, frame)] ∧ tlv.IsFrame frame ∧
      (readReply r frame).1 = c.verdict fd r ∧
      ∀ g, r = .createGroup g ∨ r = .joinGroup g → c.verdict fd r = .ok →
        (c.serve fd r).1.held g = some ⟨(readReply r frame).2.1, (readReply r frame).2.2⟩ := by
  by_cases hv : c.verdict fd r = .ok
  · by_cases hr : ∃ g, r = .createGroup g ∨ r = .joinGroup g
    · obtain ⟨g, hg⟩ := hr
      obtain ⟨gr, frame, hgr, hip, henc, hsend, -⟩ := okReply_group h hfd hg hv
      have hdec := chatDecodeGroupRepOk_encode henc []
      rw [List.append_nil] at hdec
      have hread : readReply r frame = (.ok, gr.mcastIp, gr.mcastPort) := by
        rcases hg with rfl | rfl <;> simp only [readReply, hdec, CStr.ofBuffer_bytes]
      refine ⟨frame, by rw [serve, if_pos hv, hsend], (framed_groupRepOk henc).isFrame,
        by rw [hread, hv], fun g' hg' _ => ?_⟩
      obtain rfl : g = g' := by
        rcases hg with rfl | rfl <;> simpa using hg'
      rw [serve, if_pos hv, hread, held_of_group hgr]
      rfl
    · have hr' : ∀ g, r ≠ .createGroup g ∧ r ≠ .joinGroup g := by
        simpa only [not_exists, not_or] using hr
      refine ⟨chatEncodeStatusRep r.repOpcode .ok, ?_, (framed_statusRep _ _).isFrame, ?_, ?_⟩
      · rw [serve, if_pos hv, okReply_of_status hr']
        exact sendStatus_eq hfd _ _
      · rw [readReply_statusRep _ _ (by intro code; simp), hv]
      · exact fun g hg => absurd ⟨g, hg⟩ hr
  · refine ⟨chatEncodeStatusRep r.repOpcode (c.verdict fd r), ?_, (framed_statusRep _ _).isFrame,
      readReply_statusRep _ _ (c.verdict_named fd r), fun g _ hok => absurd hok hv⟩
    rw [serve, if_neg hv, sendStatus_eq hfd]

end Chat

/-! ## The calls -/

namespace ClientMng

variable {ε : Type} (os : Desktop ε)

/-- The call for a request. -/
def call (m : ClientMng) (w : Wire) (al : Alloc) (e : ε) : Request → Result ε
  | .register user pass => m.register w e user pass
  | .login user pass => m.login w e user pass
  | .logout => m.logout w os e
  | .createGroup group => m.createGroup w os al e group
  | .joinGroup group => m.joinGroup w os al e group
  | .leaveGroup group => m.leaveGroup w os e group

/-- What the client makes of a request that was answered `ST_OK`. -/
def granted (m : ClientMng) (al : Alloc) (e : ε) (outIp : CStr) (outPort : UInt16) :
    Request → ClientMng
  | .register _ _ => m
  | .login user _ => { m with loggedIn := 1, username := user.ncopy chatMaxUsernameLen }
  | .logout => { m with groups := (m.groups.clear os e).1, loggedIn := 0, username := .empty }
  | .createGroup group | .joinGroup group =>
    { m with groups := (m.groups.onJoin os group outIp outPort m.username al e).2.1 }
  | .leaveGroup group => { m with groups := (m.groups.onLeave os group e).1 }

variable {m : ClientMng} {w : Wire} {al : Alloc} {e : ε} {r : Request}

theorem sockfd_granted {ip : CStr} {port : UInt16} :
    (m.granted os al e ip port r).sockfd = m.sockfd := by
  cases r <;> rfl

/-- A request goes out whole, and the first frame that comes in is the reply. -/
theorem exchange_of_frame (hfd : 0 ≤ m.sockfd) (hsends : ∀ n ∈ w.sends, 0 < n)
    {buf frame rest : List UInt8} (hframe : tlv.IsFrame frame)
    (hin : (w.incoming buf).bytes = frame ++ rest) :
    ∃ unread, m.exchange w (some buf) = (some frame, ⟨buf, unread⟩) ∧ unread.bytes = rest := by
  obtain ⟨unread, hrest, hrecv⟩ := recvMsg_of_frame hfd hframe hin
  refine ⟨unread, ?_, hrest⟩
  rw [exchange]
  simp only [sendAll_of_pos hfd buf hsends, hrecv, List.take_length]
  rw [if_neg (by simp)]

/-- A call that gets no frame gives up and changes nothing. -/
theorem call_of_none {traffic : Traffic} (h : m.exchange w r.encode = (none, traffic)) :
    (m.call os w al e r).status = .errProtocol ∧ (m.call os w al e r).client = m ∧
      (m.call os w al e r).traffic = traffic := by
  cases r with
  | register n p =>
    simp only [call, register, doUserPass, Request.encode] at h ⊢
    simp [h, statusOf]
  | login n p =>
    simp only [call, login, doUserPass, Request.encode] at h ⊢
    simp [h, statusOf]
  | logout =>
    simp only [call, logout, Request.encode] at h ⊢
    simp [h, statusOf]
  | createGroup g =>
    simp only [call, createGroup, enterGroup, doGroupJoin, Request.encode] at h ⊢
    simp [h]
  | joinGroup g =>
    simp only [call, joinGroup, enterGroup, doGroupJoin, Request.encode] at h ⊢
    simp [h]
  | leaveGroup g =>
    simp only [call, leaveGroup, Request.encode] at h ⊢
    simp [h, statusOf]

theorem doGroupJoin_of_reply {op : ChatOpcode} {g : CStr} {frame : List UInt8} {traffic : Traffic}
    (h : m.exchange w (chatEncodeGroupnameReq op g) = (some frame, traffic)) :
    m.doGroupJoin w op g = ((readReply (.joinGroup g) frame).1,
      (readReply (.joinGroup g) frame).2.1, (readReply (.joinGroup g) frame).2.2, traffic) := by
  rw [doGroupJoin, h]
  cases hdec : chatDecodeGroupRepOk frame with
  | error fault => simp only [readReply, hdec]
  | ok out => simp only [readReply, hdec]

/-- What a call makes of a reply. -/
theorem call_of_reply {frame : List UInt8} {traffic : Traffic}
    (h : m.exchange w r.encode = (some frame, traffic)) :
    (m.call os w al e r).status = (readReply r frame).1 ∧
      (m.call os w al e r).outIp = (readReply r frame).2.1 ∧
      (m.call os w al e r).outPort = (readReply r frame).2.2 ∧
      (m.call os w al e r).traffic = traffic ∧
      (m.call os w al e r).client =
        if (readReply r frame).1 = .ok then
          m.granted os al e (readReply r frame).2.1 (readReply r frame).2.2 r
        else m := by
  cases r with
  | register n p =>
    simp only [Request.encode] at h
    by_cases hok : statusOf (some frame) = .ok <;>
      simp [call, register, doUserPass, h, readReply, granted, hok]
  | login n p =>
    simp only [Request.encode] at h
    by_cases hok : statusOf (some frame) = .ok <;>
      simp [call, login, doUserPass, h, readReply, granted, hok]
  | logout =>
    simp only [Request.encode] at h
    by_cases hok : statusOf (some frame) = .ok <;> simp [call, logout, h, readReply, granted, hok]
  | createGroup g =>
    by_cases hok : (readReply (.joinGroup g) frame).1 = .ok <;>
      simp [call, createGroup, enterGroup, doGroupJoin_of_reply h, granted, hok,
        show readReply (.createGroup g) frame = readReply (.joinGroup g) frame from rfl]
  | joinGroup g =>
    by_cases hok : (readReply (.joinGroup g) frame).1 = .ok <;>
      simp [call, joinGroup, enterGroup, doGroupJoin_of_reply h, granted, hok]
  | leaveGroup g =>
    simp only [Request.encode] at h
    by_cases hok : statusOf (some frame) = .ok <;>
      simp [call, leaveGroup, h, readReply, granted, hok]

end ClientMng

end ChatProject
