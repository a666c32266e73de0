import ChatProject.Lib.Machine
import ChatProject.Server.ServerNet

/-!
# The receive buffer never fills up

A slot of the network layer has room for three frames of the longest kind, and `HandleClientData`
returns at once when that room is used up — which would leave the socket readable for ever.  It
cannot happen: what is left in a buffer after a call is less than one frame.

* `processRound` — one round of the `while (1)` loop of `ProcessBuffer`, and `Rounds`, the states
  the loop goes through.  `processBuffer_rounds` says that `processBuffer` is that loop.
* `Rounds.len_add_le` — every round takes at least two bytes off the buffer, so the loop ends, and
  no round takes more than there is.
* `recv_buffer_never_full` — the slot over any series of calls, whatever `recv` returns.
-/

set_option autoImplicit false

namespace ChatProject

open Machine Framing

section
variable {σ : Type} (onMsg : Int → List UInt8 → σ → σ) (onDisc : Int → σ → σ)

/-! ## The loop of `ProcessBuffer` -/

/-- One round of the loop of `ProcessBuffer`; `none` when it leaves the loop. -/
def processRound (s : ClientState × σ) : Option (ClientState × σ) :=
  match chatPeekHeader s.1.data with
  | none => none
  | some (_, length) =>
    if s.1.len < 2 + length.toNat then none
    else
      some (s.1.consume (2 + length.toNat),
        onMsg s.1.fd (s.1.buffer.take (2 + length.toNat)) s.2)

/-- The loop, started in `s`, is in `s'` after `k` rounds. -/
inductive Rounds (s : ClientState × σ) : Nat → ClientState × σ → Prop
  | start : Rounds s 0 s
  | round {k : Nat} {s' s'' : ClientState × σ} (h : Rounds s k s')
    (hround : processRound onMsg s' = some s'') : Rounds s (k + 1) s''

variable {onMsg} {s s' s'' : ClientState × σ} {k : Nat}

/-- **What one round does.**  It takes a frame off the buffer that is all there. -/
theorem processRound_eq_some (h : processRound onMsg s = some s') :
    ∃ type length, chatPeekHeader s.1.data = some (type, length) ∧ 2 + length.toNat ≤ s.1.len ∧
      s'.1.len = s.1.len - (2 + length.toNat) := by
  rw [processRound] at h
  cases hpeek : chatPeekHeader s.1.data with
  | none =>
    rw [hpeek] at h
    exact absurd h (by simp)
  | some header =>
    obtain ⟨type, length⟩ := header
    rw [hpeek] at h
    by_cases hlt : s.1.len < 2 + length.toNat
    · simp only [if_pos hlt] at h
      exact absurd h (by simp)
    · simp only [if_neg hlt, Option.some.injEq] at h
      subst h
      refine ⟨type, length, rfl, Nat.le_of_not_lt hlt, ?_⟩
      rw [ClientState.consume_len, sizeSub_eq (Nat.le_of_not_lt hlt)]

theorem Rounds.head (hround : processRound onMsg s = some s') (h : Rounds onMsg s' k s'') :
    Rounds onMsg s (k + 1) s'' := by
  induction h with
  | start => exact .round .start hround
  | round _ hlast ih => exact .round ih hlast

/-- **Every round takes at least two bytes.** -/
theorem Rounds.len_add_le (h : Rounds onMsg s k s') : s'.1.len + 2 * k ≤ s.1.len := by
  induction h with
  | start => exact Nat.le_refl _
  | round _ hround ih =>
    obtain ⟨type, length, -, hle, hlen⟩ := processRound_eq_some hround
    omega

/-- **`processBuffer` is the loop.**  The loop comes to its end, where `processBuffer` does. -/
theorem processBuffer_rounds (c : ClientState) (ctx : σ) :
    ∃ k, Rounds onMsg (c, ctx) k (processBuffer onMsg c ctx) ∧
      processRound onMsg (processBuffer onMsg c ctx) = none := by
  fun_induction processBuffer onMsg c ctx with
  | case1 c ctx hpeek => exact ⟨0, .start, by simp only [processRound, hpeek]⟩
  | case2 c ctx type length hpeek totalMsgLen hlt =>
    exact ⟨0, .start, by simp only [processRound, hpeek]; exact if_pos hlt⟩
  | case3 c ctx type length hpeek totalMsgLen hge ih =>
    obtain ⟨k, hrounds, hend⟩ := ih
    exact ⟨k + 1, .head (by simp only [processRound, hpeek]; exact if_neg hge) hrounds, hend⟩

/-! ## The slot -/

namespace ClientState

/-- The buffer holds less than a header, or less than the frame whose header is at its front. -/
def FrontIncomplete (c : ClientState) : Prop :=
  c.len < 2 ∨ ∃ type length, chatPeekHeader c.data = some (type, length) ∧ c.len < 2 + length.toNat

theorem Settled.frontIncomplete {c : ClientState} (h : c.Settled) : c.FrontIncomplete := by
  cases hpeek : chatPeekHeader c.data with
  | none =>
    left
    rw [← length_data h.len_le]
    match hdata : c.data with
    | [] | [_] => simp
    | t :: l :: rest =>
      rw [hdata] at hpeek
      exact absurd hpeek (by simp [chatPeekHeader])
  | some header =>
    have hlt := h.incomplete _ (tlv_size_eq hpeek)
    rw [length_data h.len_le] at hlt
    exact .inr ⟨header.1, header.2, hpeek, hlt⟩

theorem FrontIncomplete.len_le {c : ClientState} (h : c.FrontIncomplete) : c.len ≤ 256 := by
  rcases h with hlt | ⟨type, length, -, hlt⟩
  · omega
  · have := length.toNat_lt
    omega

end ClientState

variable (onMsg)

/-- One call of `HandleClientData`, on whatever `recv` finds on the socket. -/
def slotStep (s : ClientState × FdTables × σ) (x : Inbox UInt8) :
    (ClientState × FdTables × σ) × Unit :=
  match handleClientData onMsg onDisc s.1 s.2.1 x s.2.2 with
  | (c, t, _, ctx) => ((c, t, ctx), ())

variable {onMsg onDisc}

theorem settled_slotStep {s : ClientState × FdTables × σ} (h : s.1.Settled) (x : Inbox UInt8) :
    (slotStep onMsg onDisc s x).1.1.Settled := by
  rw [slotStep]
  obtain ⟨-, heq⟩ | ⟨chunk, y, frames, c', -, -, heq, -, hsettled, -⟩ :=
    handleClientData_cases onMsg onDisc h s.2.1 x s.2.2
  · rw [heq]
    exact ClientState.settled_of_empty rfl
  · rw [heq]
    exact hsettled

theorem settled_run (slot : ClientState) (fd : Int) (t : FdTables) (ctx : σ)
    (xs : List (Inbox UInt8)) :
    (run (slotStep onMsg onDisc) (slot.install fd, t, ctx) xs).1.Settled := by
  refine run_invariant (p := fun _ => True) (P := fun s : ClientState × FdTables × σ => s.1.Settled)
    (fun s x _ h => settled_slotStep h x) (fun _ _ => trivial) ?_
  exact ClientState.settled_of_empty rfl

/-! ## The bounds -/

variable (onMsg) in
/-- What the next call of `HandleClientData` can rely on, when it finds the slot `c`. -/
structure Roomy (c : ClientState) (ctx : σ) : Prop where
  front : c.FrontIncomplete
  len_le : c.len ≤ 256
  /-- The early return is out of reach: there is room to read into. -/
  spaceLeft : 0 < recvBufferSize - 256 ∧ recvBufferSize - 256 ≤ sizeSub recvBufferSize c.len
  /-- Whatever is read fits, and the loop that follows comes to its end. -/
  ends : ∀ bytes : List UInt8, bytes.length ≤ sizeSub recvBufferSize c.len →
    ∃ k, Rounds onMsg (c.receive bytes, ctx) k (processBuffer onMsg (c.receive bytes) ctx) ∧
      processRound onMsg (processBuffer onMsg (c.receive bytes) ctx) = none ∧
      2 * k ≤ recvBufferSize
  /-- Before any of its rounds the buffer holds no more than it can. -/
  len_le_size : ∀ bytes : List UInt8, bytes.length ≤ sizeSub recvBufferSize c.len →
    ∀ k s, Rounds onMsg (c.receive bytes, ctx) k s → s.1.len ≤ recvBufferSize
  /-- No round subtracts more than there is. -/
  noWrap : ∀ bytes : List UInt8, bytes.length ≤ sizeSub recvBufferSize c.len →
    ∀ k s s', Rounds onMsg (c.receive bytes, ctx) k s → processRound onMsg s = some s' →
      ∃ type length, chatPeekHeader s.1.data = some (type, length) ∧
        2 + length.toNat ≤ s.1.len ∧ s'.1.len = s.1.len - (2 + length.toNat)

theorem ClientState.Settled.roomy {c : ClientState} (h : c.Settled) (ctx : σ) :
    Roomy onMsg c ctx := by
  have hlen := h.frontIncomplete.len_le
  have hspace : sizeSub recvBufferSize c.len = recvBufferSize - c.len := sizeSub_eq h.len_le
  have hroom : 0 < recvBufferSize - 256 := by decide
  have hbound : ∀ bytes : List UInt8, bytes.length ≤ sizeSub recvBufferSize c.len →
      ∀ k s, Rounds onMsg (c.receive bytes, ctx) k s → s.1.len + 2 * k ≤ recvBufferSize := by
    intro bytes hbytes k s hrounds
    have hk : s.1.len + 2 * k ≤ c.len + bytes.length := hrounds.len_add_le
    omega
  refine ⟨h.frontIncomplete, hlen, ⟨hroom, by omega⟩, fun bytes hbytes => ?_,
    fun bytes hbytes k s hrounds => ?_, fun bytes hbytes k s s' hrounds hround => ?_⟩
  · obtain ⟨k, hrounds, hend⟩ := processBuffer_rounds (c.receive bytes) ctx
    exact ⟨k, hrounds, hend, (Nat.le_add_left _ _).trans (hbound bytes hbytes k _ hrounds)⟩
  · exact (Nat.le_add_right _ _).trans (hbound bytes hbytes k s hrounds)
  · exact processRound_eq_some hround

/-- **The receive buffer never fills up.**  Take a slot into which a connection has been put, and
any series of calls of `HandleClientData` on it.  What is left in the buffer is less than a frame,
so the next call has room to read into; whatever it reads fits; and the loop that follows ends,
without ever taking more off the buffer than there is. -/
theorem recv_buffer_never_full (slot : ClientState) (fd : Int) (t : FdTables) (ctx : σ)
    (xs : List (Inbox UInt8)) :
    Roomy onMsg (run (slotStep onMsg onDisc) (slot.install fd, t, ctx) xs).1
      (run (slotStep onMsg onDisc) (slot.install fd, t, ctx) xs).2.2 :=
  (settled_run slot fd t ctx xs).roomy _

end

end ChatProject
