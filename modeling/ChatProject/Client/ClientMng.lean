import ChatProject.Client.ClientGroupsMng
import ChatProject.Client.ClientNet

/-!
# The client

`client/client_mng.c`: every call sends one request, blocks for one frame, reads a status out of it
and updates what the client believes about itself: whether it is logged in, under which name, and
which chat windows are open.  All calls go through the same four steps, encode, send, receive,
decode, and give up with `ST_ERR_PROTOCOL` at the first that fails (`exchange`).

The socket is what the surroundings make of it (`Wire`): how many bytes each `send` takes, and the
stream that `recv` will find once certain bytes have gone out.  A call therefore returns, besides
its result, what it has sent and what it has left unread.
-/

set_option autoImplicit false

namespace ChatProject

/-- `struct ClientMng`, without the server's address, which is not used after the connect. -/
structure ClientMng where
  sockfd : Int
  /-- `logged_in`, 0 or 1. -/
  loggedIn : Int
  /-- The empty string when not logged in. -/
  username : CStr
  groups : ClientGroupsMng

/-- The socket during one call. -/
structure Wire where
  /-- What the `send` calls return. -/
  sends : List Int
  /-- The stream the `recv` calls find after these bytes have gone out. -/
  incoming : List UInt8 → Inbox UInt8

/-- What a call leaves on the socket. -/
structure Traffic where
  /-- The bytes that went out. -/
  sent : List UInt8
  /-- The stream as the call leaves it. -/
  unread : Inbox UInt8

namespace ClientMng

variable (m : ClientMng) (w : Wire)

/-- Send a request that was encoded to `req` (`none`: the encoder returned -1) and wait for a frame:
what stands in `buf[0 .. rlen)`, or `none` where the call gives up. -/
def exchange (req : Option (List UInt8)) : Option (List UInt8) × Traffic :=
  match req with
  | none => ⟨none, [], w.incoming []⟩
  | some buf =>
    match sendAll m.sockfd buf w.sends with
    | (code, sent) =>
      if code ≠ 0 then ⟨none, sent, w.incoming sent⟩
      else
        match recvMsg m.sockfd (w.incoming sent) with
        | (none, unread) => ⟨none, sent, unread⟩
        | (some (buf, rlen), unread) => ⟨some (buf.take rlen), sent, unread⟩

/-- The status of a plain reply. -/
def statusOf (reply : Option (List UInt8)) : ChatStatus :=
  match reply with
  | none => .errProtocol
  | some buf =>
    match chatDecodeStatusRep buf with
    | .error _ => .errProtocol
    | .ok status => status

/-- `do_user_pass`. -/
def doUserPass (op : ChatOpcode) (user pass : CStr) : ChatStatus × Traffic :=
  match m.exchange w (chatEncodeUserPassReq op user pass) with
  | (reply, traffic) => (statusOf reply, traffic)

/-- `do_group_join`: the status, and what is in `out_ip` and `*out_port` when it is `ST_OK`. -/
def doGroupJoin (op : ChatOpcode) (group : CStr) : ChatStatus × CStr × UInt16 × Traffic :=
  match m.exchange w (chatEncodeGroupnameReq op group) with
  | (none, traffic) => (.errProtocol, .empty, 0, traffic)
  | (some buf, traffic) =>
    match chatDecodeGroupRepOk buf with
    | .error _ => (.errProtocol, .empty, 0, traffic)
    | .ok (status, ip, port) => (status, CStr.ofBuffer ip, port, traffic)

/-! ## The calls -/

/-- What a call returns and leaves behind. -/
structure Result (ε : Type) where
  status : ChatStatus
  /-- `out_ip` and `*out_port`, for the calls that have them. -/
  outIp : CStr
  outPort : UInt16
  client : ClientMng
  traffic : Traffic
  /-- The state of the operating system. -/
  desktop : ε

variable {ε : Type} (os : Desktop ε) (al : Alloc) (e : ε)

/-- `client_mng_register`. -/
def register (user pass : CStr) : Result ε :=
  match m.doUserPass w .regReq user pass with
  | (status, traffic) => ⟨status, .empty, 0, m, traffic, e⟩

/-- `client_mng_login`. -/
def login (user pass : CStr) : Result ε :=
  match m.doUserPass w .loginReq user pass with
  | (status, traffic) =>
    if status = .ok then
      ⟨status, .empty, 0, { m with loggedIn := 1, username := user.ncopy chatMaxUsernameLen },
        traffic, e⟩
    else ⟨status, .empty, 0, m, traffic, e⟩

/-- `client_mng_logout`. -/
def logout : Result ε :=
  match m.exchange w (some chatEncodeLogoutReq) with
  | (reply, traffic) =>
    if statusOf reply = .ok then
      match m.groups.clear os e with
      | (groups, e) =>
        ⟨statusOf reply, .empty, 0, { m with groups, loggedIn := 0, username := .empty }, traffic,
          e⟩
    else ⟨statusOf reply, .empty, 0, m, traffic, e⟩

/-- The body that `client_mng_create_group` and `client_mng_join_group` share. -/
def enterGroup (op : ChatOpcode) (group : CStr) : Result ε :=
  match m.doGroupJoin w op group with
  | (status, outIp, outPort, traffic) =>
    if status = .ok then
      -- a failure to open the windows is reported on stderr and otherwise ignored
      match m.groups.onJoin os group outIp outPort m.username al e with
      | (_, groups, e) => ⟨status, outIp, outPort, { m with groups }, traffic, e⟩
    else ⟨status, outIp, outPort, m, traffic, e⟩

/-- `client_mng_create_group`. -/
def createGroup (group : CStr) : Result ε := m.enterGroup w os al e .createGroupReq group

/-- `client_mng_join_group`. -/
def joinGroup (group : CStr) : Result ε := m.enterGroup w os al e .joinGroupReq group

/-- `client_mng_leave_group`. -/
def leaveGroup (group : CStr) : Result ε :=
  match m.exchange w (chatEncodeGroupnameReq .leaveGroupReq group) with
  | (reply, traffic) =>
    if statusOf reply = .ok then
      match m.groups.onLeave os group e with
      | (groups, e) => ⟨statusOf reply, .empty, 0, { m with groups }, traffic, e⟩
    else ⟨statusOf reply, .empty, 0, m, traffic, e⟩

end ClientMng

end ChatProject
