import ChatProject.Server.GroupMng
import ChatProject.Server.UserMng

/-!
# The management layer

`server/server_mng.c`: the two managers side by side, and the code that turns one frame from one
socket into calls on them and at most one reply.  The network layer calls it with whole frames
(`ServerMng.handleMessage`) and when a connection is gone (`ServerMng.onDisconnect`); a run of the
server is any sequence of these two calls, on any descriptors and with any bytes, each with the
allocation failures that strike while it is served (`ServerMng.step`).

The handlers are kept as the source has them: CREATE takes an address and files the group before it
knows whether the user can be put in, JOIN counts the member in before it looks for a duplicate,
and both undo what they did by `GroupMng_LeaveGroup`.
-/

set_option autoImplicit false

namespace ChatProject

/-- Bytes handed to `send`, and the descriptor they go to. -/
abbrev Packet := Int × List UInt8

/-- `ServerNet_SendMessage`: what reaches `send`. -/
def sendMessage (sockfd : Int) (buf : List UInt8) : List Packet :=
  if 0 > sockfd ∨ buf.length = 0 then [] else [(sockfd, buf)]

/-- The end of every handler: `if (repLen > 0)` the reply is sent. -/
def sendReply (sockfd : Int) (rep : Option (List UInt8)) : List Packet :=
  match rep with
  | none => []
  | some repBuf => sendMessage sockfd repBuf

/-- A plain status reply. -/
def sendStatus (sockfd : Int) (op : ChatOpcode) (status : ChatStatus) : List Packet :=
  sendReply sockfd (some (chatEncodeStatusRep op status))

/-- The globals of the management layer.  The pool `g_mcQueue` is the one the group manager points
at, so it is found in there. -/
structure ServerMng where
  /-- `g_userMng`. -/
  userMng : UserMng
  /-- `g_groupMng`. -/
  groupMng : GroupMng

namespace ServerMng

/-- `ServerMng_Init`: nothing when it returns -1. -/
def init (al : Alloc) : Option ServerMng :=
  match FreeMcQueue.create al with
  | (none, _) => none
  | (some mcQueue, al) =>
    match GroupMng.create mcQueue al with
    | (none, _) => none
    | (some groupMng, al) =>
      match UserMng.create al with
      | (none, _) => none
      | (some userMng, _) => some ⟨userMng, groupMng⟩

/-- `OnUserImplicitLeave`: the callback a logout runs for each group. -/
def onUserImplicitLeave (groupName : CStr) (ctx : GroupMng × Alloc) : GroupMng × Alloc :=
  (ctx.1.leaveGroup groupName ctx.2).2

section Handlers
variable (s : ServerMng) (sockfd : Int) (msg : List UInt8) (al : Alloc)

/-- `HandleRegisterReq`. -/
def handleRegisterReq : ServerMng × List Packet :=
  match chatDecodeUserPass msg with
  | .error _ => (s, [])
  | .ok (user, pass) =>
    match s.userMng.register (CStr.ofBuffer user) (CStr.ofBuffer pass) al with
    | (status, userMng, _) => ({ s with userMng }, sendStatus sockfd .regRep status)

/-- `HandleLoginReq`. -/
def handleLoginReq : ServerMng × List Packet :=
  match chatDecodeUserPass msg with
  | .error _ => (s, [])
  | .ok (user, pass) =>
    match s.userMng.login (CStr.ofBuffer user) (CStr.ofBuffer pass) sockfd with
    | (status, userMng) => ({ s with userMng }, sendStatus sockfd .loginRep status)

/-- The `OP_LOGOUT_REQ` case of `ServerMng_HandleMessage`; the payload is not looked at. -/
def handleLogoutReq : ServerMng × List Packet :=
  match s.userMng.logout sockfd onUserImplicitLeave (s.groupMng, al) with
  | (status, userMng, groupMng, _) => (⟨userMng, groupMng⟩, sendStatus sockfd .logoutRep status)

/-- `HandleCreateGroupReq`. -/
def handleCreateGroupReq : ServerMng × List Packet :=
  match chatDecodeGroupname msg with
  | .error _ => (s, [])
  | .ok name =>
    let groupName := CStr.ofBuffer name
    if s.userMng.isLoggedIn sockfd = false then
      (s, sendStatus sockfd .createGroupRep .errNotLoggedIn)
    else
      match s.groupMng.createGroup groupName al with
      | (.ok, some newGroup, groupMng, al) =>
        match s.userMng.joinGroup sockfd groupName al with
        | (.ok, userMng, _) =>
          let g := groupMng.groupsByName.heap newGroup
          (⟨userMng, groupMng⟩,
            sendReply sockfd (chatEncodeGroupRepOk .createGroupRep g.mcastIp g.mcastPort))
        | (_, userMng, al) =>
          -- roll back: the count goes to 0 and the address is reclaimed
          (⟨userMng, (groupMng.leaveGroup groupName al).2.1⟩,
            sendStatus sockfd .createGroupRep .errServerFull)
      | (status, _, groupMng, _) =>
        ({ s with groupMng }, sendStatus sockfd .createGroupRep status)

/-- `HandleJoinGroupReq`. -/
def handleJoinGroupReq : ServerMng × List Packet :=
  match chatDecodeGroupname msg with
  | .error _ => (s, [])
  | .ok name =>
    let groupName := CStr.ofBuffer name
    if s.userMng.isLoggedIn sockfd = false then
      (s, sendStatus sockfd .joinGroupRep .errNotLoggedIn)
    else
      match s.groupMng.joinGroup groupName with
      | (.ok, some group, groupMng) =>
        match s.userMng.joinGroup sockfd groupName al with
        | (.ok, userMng, _) =>
          let g := groupMng.groupsByName.heap group
          (⟨userMng, groupMng⟩,
            sendReply sockfd (chatEncodeGroupRepOk .joinGroupRep g.mcastIp g.mcastPort))
        | (userStatus, userMng, al) =>
          -- undo the increment
          (⟨userMng, (groupMng.leaveGroup groupName al).2.1⟩,
            sendStatus sockfd .joinGroupRep userStatus)
      | (status, _, groupMng) =>
        ({ s with groupMng }, sendStatus sockfd .joinGroupRep status)

/-- `HandleLeaveGroupReq`. -/
def handleLeaveGroupReq : ServerMng × List Packet :=
  match chatDecodeGroupname msg with
  | .error _ => (s, [])
  | .ok name =>
    let groupName := CStr.ofBuffer name
    match s.userMng.leaveGroup sockfd groupName with
    | (.ok, userMng) =>
      match s.groupMng.leaveGroup groupName al with
      | (status, groupMng, _) =>
        (⟨userMng, groupMng⟩, sendStatus sockfd .leaveGroupRep status)
    | (status, userMng) => ({ s with userMng }, sendStatus sockfd .leaveGroupRep status)

/-- `ServerMng_HandleMessage`: the return code, and the new state with what was sent. -/
def handleMessage : Int × ServerMng × List Packet :=
  match chatPeekHeader msg with
  | none => (-1, s, [])
  | some (type, _) =>
    match ChatOpcode.ofByte type with
    | .regReq => (0, s.handleRegisterReq sockfd msg al)
    | .loginReq => (0, s.handleLoginReq sockfd msg)
    | .logoutReq => (0, s.handleLogoutReq sockfd al)
    | .createGroupReq => (0, s.handleCreateGroupReq sockfd msg al)
    | .joinGroupReq => (0, s.handleJoinGroupReq sockfd msg al)
    | .leaveGroupReq => (0, s.handleLeaveGroupReq sockfd msg al)
    | _ => (0, s, [])

/-- `ServerMng_OnDisconnect`: the same cleanup as a logout, and no reply. -/
def onDisconnect : ServerMng :=
  match s.userMng.disconnect sockfd onUserImplicitLeave (s.groupMng, al) with
  | (userMng, groupMng, _) => ⟨userMng, groupMng⟩

end Handlers

/-! ## Runs -/

/-- A call of the network layer, with the allocation failures that strike while it is served. -/
inductive Event where
  /-- `ServerMng_HandleMessage`. -/
  | message (sockfd : Int) (msg : List UInt8) (al : Alloc)
  /-- `ServerMng_OnDisconnect`. -/
  | disconnect (sockfd : Int) (al : Alloc)

/-- The descriptor of a call. -/
def Event.sockfd : Event → Int
  | .message sockfd _ _ => sockfd
  | .disconnect sockfd _ => sockfd

/-- The allocation failures of a call. -/
def Event.alloc : Event → Alloc
  | .message _ _ al => al
  | .disconnect _ al => al

/-- One call: the new state, and what was sent. -/
def step (s : ServerMng) : Event → ServerMng × List Packet
  | .message sockfd msg al => (s.handleMessage sockfd msg al).2
  | .disconnect sockfd al => (s.onDisconnect sockfd al, [])

/-- The state after a sequence of calls. -/
def run (s : ServerMng) (es : List Event) : ServerMng := Machine.run step s es

end ServerMng

end ChatProject
