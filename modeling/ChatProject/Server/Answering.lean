import ChatProject.Server.Refinement
import ChatProject.Shared.Codec

/-!
# Which requests are answered

The client sends one request and blocks until one frame comes back.  `tests/mock_server.c` answers
every frame it reads, with `ST_ERR_PROTOCOL` where it cannot decode it; the handlers of the server
return without a word there.

* `Chat.Outcome.one_reply` — whatever serving a request comes to, granted, refused or undone,
  exactly one frame goes out, to the descriptor it came from, with the next opcode.
* `ServerMng.Answered` — what the client waits for.
* `request_answered_iff` — it gets it exactly when the payload has the fields that its request is
  made of.  LOGOUT has none, and is always answered.
-/

set_option autoImplicit false

namespace ChatProject

/-! ## Requests and their frames -/

/-- The type bytes of the six requests. -/
def requestTypes : List UInt8 :=
  [ChatOpcode.regReq, .loginReq, .logoutReq, .createGroupReq, .joinGroupReq, .leaveGroupReq].map
    ChatOpcode.toByte

/-- The fields a request of this type is made of stand in front of the payload. -/
def HasFields (t : UInt8) (payload : List UInt8) : Prop :=
  match ChatOpcode.ofByte t with
  | .regReq | .loginReq => ∃ user pass rest, UserPassShape payload user pass rest
  | .createGroupReq | .joinGroupReq | .leaveGroupReq =>
    ∃ group rest, GroupnameShape payload group rest
  | _ => True

namespace Request

variable {t l : UInt8} {payload : List UInt8}

theorem parseUserPass_isSome_iff (make : CStr → CStr → Request) (hl : payload.length = l.toNat) :
    (parseUserPass make (t :: l :: payload)).isSome ↔
      ∃ user pass rest, UserPassShape payload user pass rest := by
  rw [parseUserPass]
  cases hdec : chatDecodeUserPass (t :: l :: payload) with
  | error fault =>
    refine iff_of_false (by simp) ?_
    rintro ⟨user, pass, hshape⟩
    rw [(chatDecodeUserPass_eq_ok_iff hl).mpr hshape] at hdec
    exact absurd hdec (by simp)
  | ok names => exact iff_of_true rfl ⟨_, _, (chatDecodeUserPass_eq_ok_iff hl).mp hdec⟩

theorem parseGroupname_isSome_iff (make : CStr → Request) (hl : payload.length = l.toNat) :
    (parseGroupname make (t :: l :: payload)).isSome ↔
      ∃ group rest, GroupnameShape payload group rest := by
  rw [parseGroupname]
  cases hdec : chatDecodeGroupname (t :: l :: payload) with
  | error fault =>
    refine iff_of_false (by simp) ?_
    rintro ⟨group, hshape⟩
    rw [(chatDecodeGroupname_eq_ok_iff hl).mpr hshape] at hdec
    exact absurd hdec (by simp)
  | ok name => exact iff_of_true rfl ⟨_, (chatDecodeGroupname_eq_ok_iff hl).mp hdec⟩

/-- A frame of a request type carries a request exactly when the fields are there. -/
theorem parse_isSome_iff (ht : t ∈ requestTypes) (hl : payload.length = l.toNat) :
    (parse (t :: l :: payload)).isSome ↔ HasFields t payload := by
  simp only [requestTypes, List.map_cons, List.map_nil, List.mem_cons, List.not_mem_nil,
    or_false] at ht
  rcases ht with rfl | rfl | rfl | rfl | rfl | rfl
  · exact parseUserPass_isSome_iff register hl
  · exact parseUserPass_isSome_iff login hl
  · exact iff_of_true rfl trivial
  · exact parseGroupname_isSome_iff createGroup hl
  · exact parseGroupname_isSome_iff joinGroup hl
  · exact parseGroupname_isSome_iff leaveGroup hl

/-- The reply to a request has the next type byte. -/
theorem repOpcode_of_parse {r : Request} (h : parse (t :: l :: payload) = some r) :
    r.repOpcode.toByte = t + 1 := by
  have ht := ChatOpcode.toByte_ofByte t
  rw [parse] at h
  simp only [chatPeekHeader] at h
  split at h
  all_goals rename_i hop
  · obtain ⟨n, p, rfl, -⟩ := fits_of_parseUserPass h
    rw [← ht, hop]
    rfl
  · obtain ⟨n, p, rfl, -⟩ := fits_of_parseUserPass h
    rw [← ht, hop]
    rfl
  · rw [← Option.some_inj.mp h, ← ht, hop]
    rfl
  · obtain ⟨g, rfl, -⟩ := fits_of_parseGroupname h
    rw [← ht, hop]
    rfl
  · obtain ⟨g, rfl, -⟩ := fits_of_parseGroupname h
    rw [← ht, hop]
    rfl
  · obtain ⟨g, rfl, -⟩ := fits_of_parseGroupname h
    rw [← ht, hop]
    rfl
  · exact absurd h (by simp)

end Request

/-! ## One reply -/

namespace Chat

/-- **Every outcome is one frame**, on the descriptor of the request and of its reply type. -/
theorem Outcome.one_reply {c c' : Chat} {fd : Int} {al : Alloc} {r : Request}
    {sent : List Packet} (haddr : c.Addresses) (hfd : 0 ≤ fd) (h : c.Outcome fd al r c' sent) :
    ∃ reply, sent = [(fd, reply)] ∧ Framed r.repOpcode.toByte reply := by
  cases h with
  | refused _ => exact ⟨_, sendStatus_eq hfd _ _, framed_statusRep _ _⟩
  | granted hv hloss hal =>
    by_cases hr : ∃ g, r = .createGroup g ∨ r = .joinGroup g
    · obtain ⟨g, hg⟩ := hr
      obtain ⟨gr, frame, -, -, henc, hsend, -⟩ := okReply_group haddr hfd hg hv
      exact ⟨frame, hsend, framed_groupRepOk henc⟩
    · rw [okReply_of_status (by simpa only [not_exists, not_or] using hr)]
      exact ⟨_, sendStatus_eq hfd _ _, framed_statusRep _ _⟩
  | failed _ _ _ _ => exact ⟨_, sendStatus_eq hfd _ _, framed_statusRep _ _⟩

end Chat

namespace ServerMng

/-- **What the client waits for**: one frame of the next type; and where the request cannot be
decoded, `ST_ERR_PROTOCOL`, with nothing changed. -/
structure Answered (s : ServerMng) (fd : Int) (t : UInt8) (msg : List UInt8) (al : Alloc) :
    Prop where
  one : ∃ reply, (s.handleMessage fd msg al).2.2 = [(fd, reply)] ∧ Framed (t + 1) reply
  undecodable : Request.parse msg = none →
    (s.handleMessage fd msg al).2 =
      (s, [(fd, chatEncodeStatusRep (.ofByte (t + 1)) .errProtocol)])

/-- **Which requests are answered**, in every state the server can reach. -/
theorem request_answered_iff {al₀ : Alloc} {s₀ : ServerMng} (h₀ : init al₀ = some s₀)
    (es : List Event) {fd : Int} (hfd : 0 ≤ fd) {t l : UInt8} (ht : t ∈ requestTypes)
    {payload : List UInt8} (hl : payload.length = l.toNat) (al : Alloc) :
    (s₀.run es).Answered fd t (t :: l :: payload) al ↔ HasFields t payload := by
  have h : (s₀.run es).Inv := inv_reachable h₀ es
  rw [← Request.parse_isSome_iff ht hl]
  cases hp : Request.parse (t :: l :: payload) with
  | none =>
    refine iff_of_false (fun hans => ?_) (by simp)
    obtain ⟨reply, hsent, -⟩ := hans.one
    have hnone : ((s₀.run es).handleMessage fd (t :: l :: payload) al).2.2 = [] :=
      (message_of_no_request h hp).2
    rw [hnone] at hsent
    exact absurd hsent (by simp)
  | some r =>
    refine iff_of_true ⟨?_, fun hnone => ?_⟩ rfl
    · have hstep := message_refines h fd (t :: l :: payload) al
      generalize ((s₀.run es).handleMessage fd (t :: l :: payload) al).2.1.view = c' at hstep
      generalize ((s₀.run es).handleMessage fd (t :: l :: payload) al).2.2 = sent at hstep ⊢
      cases hstep with
      | dropped hnone =>
        rw [hp] at hnone
        exact absurd hnone (by simp)
      | served hr ho =>
        rw [← Request.repOpcode_of_parse hr]
        exact ho.one_reply h.addresses hfd
    · rw [hp] at hnone
      exact absurd hnone (by simp)

/-- A REG of `a` with password `b` is answered. -/
theorem request_answered_iff_register :
    ∃ s₀, init [] = some s₀ ∧ (s₀.run []).Answered 4 1 [1, 4, 1, 97, 1, 98] [] := by
  have hinit : (init []).isSome = true := by decide +kernel
  obtain ⟨s₀, h₀⟩ := Option.isSome_iff_exists.mp hinit
  refine ⟨s₀, h₀, (request_answered_iff h₀ [] (l := 4) (by decide) (by decide) rfl []).mpr ?_⟩
  exact ⟨[97], [98], [], ⟨1, 1, rfl, rfl, rfl⟩, by decide, by decide⟩

/-- A REG with an empty payload, the first frame after the start: nothing is sent. -/
theorem emptyRegister_not_answered :
    ¬ ∀ (al₀ : Alloc) (s₀ : ServerMng), init al₀ = some s₀ → ∀ (es : List Event) (fd : Int),
      0 ≤ fd → ∀ (t l : UInt8) (payload : List UInt8), t ∈ requestTypes →
      payload.length = l.toNat → ∀ al, (s₀.run es).Answered fd t (t :: l :: payload) al := by
  intro h
  have hinit : (init []).isSome = true := by decide +kernel
  obtain ⟨s₀, h₀⟩ := Option.isSome_iff_exists.mp hinit
  obtain ⟨reply, hsent, -⟩ := (h [] s₀ h₀ [] 4 (by decide) 1 0 [] (by decide) rfl []).one
  have hnone : ((s₀.run []).handleMessage 4 [1, 0] []).2.2 = [] := rfl
  rw [hnone] at hsent
  exact absurd hsent (by simp)

end ServerMng

end ChatProject
