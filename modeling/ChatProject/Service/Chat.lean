import ChatProject.Server.ServerMng

/-!
# The chat service

What the server is for, said without hash maps, pointers, ring buffers or rollbacks.  The state of
the service is four things: who is registered, who is logged in on which descriptor, which groups
there are, and which addresses are free.  A request either is *refused* with a status and changes
nothing, or is *granted*: `Chat.verdict` says which, in the order the checks are made, and
`Chat.grant` says what a granted request does.

* `Request.parse` — the six requests, and the frames that carry them.
* `Chat.verdict`, `Chat.grant`, `Chat.okReply` — the service.
* `Chat.Outcome` — what serving one request may come to when memory can run out: besides being
  refused or granted it can *fail*, which only ever costs addresses.
* `Chat.Step` — one call on the server.

`Server/Refinement.lean` proves that the server does exactly this.
-/

set_option autoImplicit false

namespace ChatProject

/-! ## Requests -/

/-- What a client can ask for. -/
inductive Request where
  | register (username password : CStr)
  | login (username password : CStr)
  | logout
  | createGroup (groupName : CStr)
  | joinGroup (groupName : CStr)
  | leaveGroup (groupName : CStr)
deriving DecidableEq

namespace Request

/-- The request with two strings that a frame carries, if its decoder accepts it. -/
def parseUserPass (make : CStr → CStr → Request) (msg : List UInt8) : Option Request :=
  match chatDecodeUserPass msg with
  | .error _ => none
  | .ok (user, pass) => some (make (CStr.ofBuffer user) (CStr.ofBuffer pass))

/-- The request with a group name that a frame carries, if its decoder accepts it. -/
def parseGroupname (make : CStr → Request) (msg : List UInt8) : Option Request :=
  match chatDecodeGroupname msg with
  | .error _ => none
  | .ok name => some (make (CStr.ofBuffer name))

/-- The request a frame carries; a frame that carries none is dropped without a reply. -/
def parse (msg : List UInt8) : Option Request :=
  match chatPeekHeader msg with
  | none => none
  | some (type, _) =>
    match ChatOpcode.ofByte type with
    | .regReq => parseUserPass register msg
    | .loginReq => parseUserPass login msg
    | .logoutReq => some logout
    | .createGroupReq => parseGroupname createGroup msg
    | .joinGroupReq => parseGroupname joinGroup msg
    | .leaveGroupReq => parseGroupname leaveGroup msg
    | _ => none

/-- The opcode of the reply. -/
def repOpcode : Request → ChatOpcode
  | register _ _ => .regRep
  | login _ _ => .loginRep
  | logout => .logoutRep
  | createGroup _ => .createGroupRep
  | joinGroup _ => .joinGroupRep
  | leaveGroup _ => .leaveGroupRep

/-- The requests that can give an address back. -/
def Returns : Request → Prop
  | logout => True
  | leaveGroup _ => True
  | _ => False

/-- Every string of the request fits the field the server copies it to. -/
def Fits : Request → Prop
  | register username password => username.length ≤ chatMaxUsernameLen ∧
      password.length ≤ chatMaxPasswordLen
  | login username password => username.length ≤ chatMaxUsernameLen ∧
      password.length ≤ chatMaxPasswordLen
  | logout => True
  | createGroup groupName => groupName.length ≤ chatMaxGroupnameLen
  | joinGroup groupName => groupName.length ≤ chatMaxGroupnameLen
  | leaveGroup groupName => groupName.length ≤ chatMaxGroupnameLen

theorem fits_of_parseUserPass {make : CStr → CStr → Request} {msg : List UInt8} {r : Request}
    (h : parseUserPass make msg = some r) :
    ∃ n p, r = make n p ∧ n.length ≤ chatMaxUsernameLen ∧ p.length ≤ chatMaxPasswordLen := by
  rw [parseUserPass] at h
  split at h
  · exact absurd h (by simp)
  · next user pass hdec =>
    obtain ⟨hu, hp⟩ := length_of_chatDecodeUserPass hdec
    exact ⟨_, _, (Option.some_inj.mp h).symm, (CStr.length_ofBuffer_le user).trans hu,
      (CStr.length_ofBuffer_le pass).trans hp⟩

theorem fits_of_parseGroupname {make : CStr → Request} {msg : List UInt8} {r : Request}
    (h : parseGroupname make msg = some r) :
    ∃ g, r = make g ∧ g.length ≤ chatMaxGroupnameLen := by
  rw [parseGroupname] at h
  split at h
  · exact absurd h (by simp)
  · next name hdec =>
    exact ⟨_, (Option.some_inj.mp h).symm,
      (CStr.length_ofBuffer_le name).trans (length_of_chatDecodeGroupname hdec)⟩

/-- What the decoders deliver fits. -/
theorem fits_of_parse {msg : List UInt8} {r : Request} (h : parse msg = some r) : r.Fits := by
  rw [parse] at h
  split at h
  · exact absurd h (by simp)
  split at h
  · obtain ⟨n, p, rfl, hfits⟩ := fits_of_parseUserPass h
    exact hfits
  · obtain ⟨n, p, rfl, hfits⟩ := fits_of_parseUserPass h
    exact hfits
  · rw [← Option.some_inj.mp h]
    trivial
  · obtain ⟨g, rfl, hfits⟩ := fits_of_parseGroupname h
    exact hfits
  · obtain ⟨g, rfl, hfits⟩ := fits_of_parseGroupname h
    exact hfits
  · obtain ⟨g, rfl, hfits⟩ := fits_of_parseGroupname h
    exact hfits
  · exact absurd h (by simp)

end Request

/-! ## The state -/

/-- The state of the service. -/
structure Chat where
  /-- The user registered under a name. -/
  user : CStr → Option User
  /-- The name of the user logged in on a descriptor. -/
  sock : Fin fdSetSize → Option CStr
  /-- The group of a name. -/
  group : CStr → Option Group
  /-- The free addresses, in the order they will be given out. -/
  free : List McastPair

namespace Chat

/-- The name of the user logged in on a descriptor of any value. -/
def session (c : Chat) (fd : Int) : Option CStr := (fdIndex fd).bind c.sock

/-- The groups the user of a name is in. -/
def joined (c : Chat) (n : CStr) : List CStr := (c.user n).elim [] User.joinedGroups

/-- The users in a group. -/
def members (c : Chat) (g : CStr) : Set CStr := {n | g ∈ c.joined n}

/-! ## Verdicts -/

/-- The answer to a request; the requests answered `ST_OK` are the granted ones. -/
def verdict (c : Chat) (fd : Int) : Request → ChatStatus
  | .register n _ => if c.user n = none then .ok else .errUserExists
  | .login n p =>
    match fdIndex fd with
    | none => .errProtocol
    | some i =>
      match c.sock i with
      | some _ => .errAlreadyLoggedIn
      | none =>
        match c.user n with
        | none => .errUserNotFound
        | some u =>
          if u.password ≠ p then .errBadPassword
          else if u.state = .online then .errAlreadyLoggedIn
          else .ok
  | .logout =>
    match fdIndex fd with
    | none => .errProtocol
    | some i => if c.sock i = none then .errNotLoggedIn else .ok
  | .createGroup g =>
    if c.session fd = none then .errNotLoggedIn
    else if c.group g ≠ none then .errGroupExists
    else if c.free = [] then .errServerFull
    else .ok
  | .joinGroup g =>
    match c.session fd with
    | none => .errNotLoggedIn
    | some n =>
      if c.group g = none then .errGroupNotFound
      else if g ∈ c.joined n then .errAlreadyInGroup
      else .ok
  | .leaveGroup g =>
    match fdIndex fd with
    | none => .errProtocol
    | some i =>
      match c.sock i with
      | none => .errNotLoggedIn
      | some n => if g ∈ c.joined n then .ok else .errNotInGroup

/-! What each request needs to be granted. -/

section
variable {c : Chat} {fd : Int} {n p g : CStr}

theorem verdict_register_eq_ok : c.verdict fd (.register n p) = .ok ↔ c.user n = none := by
  rw [verdict]
  split <;> simp_all

theorem verdict_login_eq_ok :
    c.verdict fd (.login n p) = .ok ↔
      ∃ i u, fdIndex fd = some i ∧ c.sock i = none ∧ c.user n = some u ∧ u.password = p ∧
        u.state = .offline := by
  rw [verdict]
  cases hfd : fdIndex fd with
  | none => simp
  | some i =>
    cases hs : c.sock i with
    | some m => simp [hs]
    | none =>
      cases hu : c.user n with
      | none => simp [hs]
      | some u =>
        by_cases hp : u.password = p
        · cases hst : u.state <;> simp [hp, hs, hst]
        · simp [hs, hp]

section
variable {i : Fin fdSetSize} (hfd : fdIndex fd = some i)
include hfd

theorem verdict_login_of_busy {m : CStr} (hs : c.sock i = some m) :
    c.verdict fd (.login n p) = .errAlreadyLoggedIn := by
  simp only [verdict, hfd, hs]

theorem verdict_login_of_unknown (hs : c.sock i = none) (hu : c.user n = none) :
    c.verdict fd (.login n p) = .errUserNotFound := by
  simp only [verdict, hfd, hs, hu]

theorem verdict_login_of_known {u : User} (hs : c.sock i = none) (hu : c.user n = some u) :
    c.verdict fd (.login n p) = if u.password ≠ p then .errBadPassword
      else if u.state = .online then .errAlreadyLoggedIn else .ok := by
  simp only [verdict, hfd, hs, hu]

end

theorem verdict_logout_eq_ok :
    c.verdict fd .logout = .ok ↔ ∃ i m, fdIndex fd = some i ∧ c.sock i = some m := by
  rw [verdict]
  cases hfd : fdIndex fd with
  | none => simp
  | some i =>
    cases hs : c.sock i with
    | none => simp [hs]
    | some m => simp [hs]

theorem verdict_createGroup_eq_ok :
    c.verdict fd (.createGroup g) = .ok ↔
      ∃ m pair rest, c.session fd = some m ∧ c.group g = none ∧ c.free = pair :: rest := by
  rw [verdict]
  cases hs : c.session fd with
  | none => simp
  | some m =>
    cases hg : c.group g with
    | some gr => simp
    | none =>
      cases hf : c.free with
      | nil => simp
      | cons pair rest => simp

theorem verdict_joinGroup_eq_ok :
    c.verdict fd (.joinGroup g) = .ok ↔
      ∃ m gr, c.session fd = some m ∧ c.group g = some gr ∧ g ∉ c.joined m := by
  rw [verdict]
  cases hs : c.session fd with
  | none => simp
  | some m =>
    cases hg : c.group g with
    | none => simp
    | some gr => simp

theorem verdict_leaveGroup_eq_ok :
    c.verdict fd (.leaveGroup g) = .ok ↔ ∃ m, c.session fd = some m ∧ g ∈ c.joined m := by
  rw [verdict, session]
  cases hfd : fdIndex fd with
  | none => simp
  | some i =>
    cases hs : c.sock i with
    | none => simp [hs]
    | some m => simp [hs]

end

/-! ## Effects -/

/-- Change the record of one user. -/
def editUser (c : Chat) (n : CStr) (f : User → User) : Chat :=
  { c with user := Function.update c.user n ((c.user n).map f) }

/-- Count one member in. -/
def countIn (c : Chat) (g : CStr) : Chat :=
  { c with group := Function.update c.group g ((c.group g).map Group.countIn) }

/-- Count one member out; the group that loses its last one ends, and its address is free. -/
def countOut (c : Chat) (g : CStr) : Chat :=
  match c.group g with
  | none => c
  | some gr =>
    if gr.memberCount ≤ 1 then
      { c with group := Function.update c.group g none, free := c.free ++ [gr.pair] }
    else { c with group := Function.update c.group g (some gr.countOut) }

/-- Found a group with the first free address. -/
def found (c : Chat) (g : CStr) : Chat :=
  match c.free with
  | [] => c
  | pair :: rest =>
    { c with group := Function.update c.group g (some ⟨g, pair.ip, pair.port, 1⟩), free := rest }

/-- End the session on a descriptor, if there is one: out of every group, then offline. -/
def hangUp (c : Chat) (fd : Int) : Chat :=
  match fdIndex fd with
  | none => c
  | some i =>
    match c.sock i with
    | none => c
    | some n =>
      let d := (c.joined n).foldl countOut c
      { d.editUser n User.unbind with sock := Function.update c.sock i none }

/-- What a granted request does. -/
def grant (c : Chat) (fd : Int) : Request → Chat
  | .register n p => { c with user := Function.update c.user n (some ⟨n, p, .offline, -1, []⟩) }
  | .login n _ =>
    match fdIndex fd with
    | none => c
    | some i => { c.editUser n (User.bind fd) with sock := Function.update c.sock i (some n) }
  | .logout => c.hangUp fd
  | .createGroup g =>
    match c.session fd with
    | none => c
    | some n => (c.found g).editUser n (User.addGroup g)
  | .joinGroup g =>
    match c.session fd with
    | none => c
    | some n => (c.countIn g).editUser n (User.addGroup g)
  | .leaveGroup g =>
    match c.session fd with
    | none => c
    | some n => (c.countOut g).editUser n (User.dropGroup g)

section
variable {c : Chat} {fd : Int} {n : CStr} (hn : c.session fd = some n) (g : CStr)
include hn

theorem grant_createGroup :
    c.grant fd (.createGroup g) = (c.found g).editUser n (User.addGroup g) := by
  rw [grant, hn]

theorem grant_joinGroup :
    c.grant fd (.joinGroup g) = (c.countIn g).editUser n (User.addGroup g) := by
  rw [grant, hn]

theorem grant_leaveGroup :
    c.grant fd (.leaveGroup g) = (c.countOut g).editUser n (User.dropGroup g) := by
  rw [grant, hn]

end

/-- The frame that tells the address of a group. -/
def announce (c : Chat) (op : ChatOpcode) (g : CStr) : Option (List UInt8) :=
  (c.group g).bind fun gr => chatEncodeGroupRepOk op gr.mcastIp gr.mcastPort

/-- The reply to a granted request: with the group's address for CREATE and JOIN. -/
def okReply (c : Chat) (fd : Int) (r : Request) : Option (List UInt8) :=
  match r with
  | .createGroup g => (c.grant fd r).announce .createGroupRep g
  | .joinGroup g => (c.grant fd r).announce .joinGroupRep g
  | _ => some (chatEncodeStatusRep r.repOpcode .ok)

/-! ## What serving a request may come to -/

/-- `c` is `d`, except that some of the addresses that are free in `d` are lost. -/
structure UpToLoss (c d : Chat) : Prop where
  user : c.user = d.user
  sock : c.sock = d.sock
  group : c.group = d.group
  free : c.free.Sublist d.free

/-- Serving a request: the next state, and what is sent. -/
inductive Outcome (c : Chat) (fd : Int) (al : Alloc) (r : Request) : Chat → List Packet → Prop
  /-- A check failed. -/
  | refused (h : c.verdict fd r ≠ .ok) :
    Outcome c fd al r c (sendStatus fd r.repOpcode (c.verdict fd r))
  /-- The request was carried out; an address is lost where it should have been given back. -/
  | granted {c' : Chat} (h : c.verdict fd r = .ok) (hloss : c'.UpToLoss (c.grant fd r))
    (hal : al = [] ∨ ¬ r.Returns → c' = c.grant fd r) :
    Outcome c fd al r c' (sendReply fd (c.okReply fd r))
  /-- Memory ran out and what had been done was undone; only CREATE can have touched the pool. -/
  | failed {free : List McastPair} {st : ChatStatus} (h : c.verdict fd r = .ok) (hal : al ≠ [])
    (hfree : free = c.free ∨ ∃ g pair rest, r = .createGroup g ∧ c.free = pair :: rest ∧
      (free = rest ∨ free = rest ++ [pair]))
    (hst : st = .errServerFull ∨ st = .errProtocol) :
    Outcome c fd al r { c with free } (sendStatus fd r.repOpcode st)

theorem Outcome.of_verdict {c : Chat} {fd : Int} {al : Alloc} {r : Request} {st : ChatStatus}
    (h : c.verdict fd r = st) (hst : st ≠ .ok) :
    c.Outcome fd al r c (sendStatus fd r.repOpcode st) := by
  subst h
  exact .refused hst

theorem Outcome.of_eq_grant {c c' : Chat} {fd : Int} {al : Alloc} {r : Request}
    (h : c.verdict fd r = .ok) (hc : c' = c.grant fd r) :
    c.Outcome fd al r c' (sendReply fd (c.okReply fd r)) := by
  subst hc
  exact .granted h ⟨rfl, rfl, rfl, List.Sublist.refl _⟩ fun _ => rfl

/-- One call on the server, as the service sees it. -/
inductive Step (c : Chat) : ServerMng.Event → Chat → List Packet → Prop
  /-- A frame that carries no request is dropped. -/
  | dropped {fd : Int} {msg : List UInt8} {al : Alloc} (h : Request.parse msg = none) :
    Step c (.message fd msg al) c []
  | served {fd : Int} {msg : List UInt8} {al : Alloc} {r : Request} {c' : Chat}
    {sent : List Packet} (h : Request.parse msg = some r) (ho : Outcome c fd al r c' sent) :
    Step c (.message fd msg al) c' sent
  /-- A connection without a session is lost. -/
  | idle {fd : Int} {al : Alloc} (hn : c.session fd = none) : Step c (.disconnect fd al) c []
  /-- A lost connection ends the session on it. -/
  | hungUp {fd : Int} {al : Alloc} {n : CStr} {c' : Chat} (hn : c.session fd = some n)
    (hloss : c'.UpToLoss (c.hangUp fd)) (hal : al = [] → c' = c.hangUp fd) :
    Step c (.disconnect fd al) c' []

end Chat

end ChatProject
