import ChatProject.Shared.Protocol

/-!
# The network layer of the client

`client/client_net.c`: blocking sends and reads that loop until everything has gone out or enough
has come in, and `recvMsg`, which reads one frame.  Where the server collects what has arrived and
looks for frames in it, the client asks for two bytes, learns from them how many more belong to the
frame, and asks for exactly these.

`recvMsg_of_frame` and `recvMsg_of_incomplete` say what a call does, whatever the pieces are the
stream arrives in: it returns the first frame of what is to come and leaves the rest, and fails when
no frame is complete.
-/

set_option autoImplicit false

namespace ChatProject

open Framing

/-! ## Sending -/

/-- One call of `send` with `n` bytes to go, where `answers` holds what the coming calls return: a
count (never more than `n`), 0 or -1.  Past its end everything is taken. -/
def send (n : Nat) (answers : List Int) : Int := min (answers.headD n) n

/-- The loop of `client_net_send_all`: the return code, and how many bytes have been sent. -/
def sendLoop (buf : List UInt8) (sent : Nat) (answers : List Int) : Int × Nat :=
  if sent < buf.length then
    let n := send (buf.length - sent) answers
    if n < 0 then (-1, sent)
    else if n = 0 then (-1, sent)
    else sendLoop buf (sent + n.toNat) answers.tail
  else (0, sent)
termination_by buf.length - sent
decreasing_by omega

/-- `client_net_send_all`: the return code, and what has gone out. -/
def sendAll (fd : Int) (buf : List UInt8) (answers : List Int) : Int × List UInt8 :=
  if fd < 0 then (-1, [])
  else
    let (code, sent) := sendLoop buf 0 answers
    (code, buf.take sent)

theorem send_le (n : Nat) (answers : List Int) : send n answers ≤ n :=
  Int.min_le_right _ _

theorem send_pos {n : Nat} (hn : 0 < n) {answers : List Int} (h : ∀ k ∈ answers, 0 < k) :
    0 < send n answers := by
  cases answers with
  | nil => simpa [send] using hn
  | cons k answers => exact Int.lt_min.mpr ⟨h k List.mem_cons_self, by omega⟩

theorem sendLoop_of_pos (buf : List UInt8) (sent : Nat) (answers : List Int)
    (h : ∀ n ∈ answers, 0 < n) (hsent : sent ≤ buf.length) :
    sendLoop buf sent answers = (0, buf.length) := by
  fun_induction sendLoop buf sent answers with
  | case1 sent answers hlt n hn =>
    have := send_pos (n := buf.length - sent) (by omega) h
    omega
  | case2 sent answers hlt n hn hzero =>
    have := send_pos (n := buf.length - sent) (by omega) h
    omega
  | case3 sent answers hlt n hn hzero ih =>
    have := send_le (buf.length - sent) answers
    exact ih (fun n hn => h n (List.mem_of_mem_tail hn)) (by omega)
  | case4 sent answers hge => rw [Nat.le_antisymm hsent (Nat.le_of_not_lt hge)]

/-- When no `send` fails, everything goes out. -/
theorem sendAll_of_pos {fd : Int} (hfd : 0 ≤ fd) (buf : List UInt8) {answers : List Int}
    (h : ∀ n ∈ answers, 0 < n) : sendAll fd buf answers = (0, buf) := by
  rw [sendAll, if_neg (by omega), sendLoop_of_pos buf 0 answers h (Nat.zero_le _)]
  simp

/-! ## Receiving -/

/-- The loop of `recv_exact`: the bytes got so far are `got`, and `need` of them are wanted.
`none` is the -1 of the source. -/
def recvExact (need : Nat) (got : List UInt8) (x : Inbox UInt8) :
    Option (List UInt8) × Inbox UInt8 :=
  if got.length < need then
    match x.recv (need - got.length) with
    | (some (b :: bs), x) => recvExact need (got ++ b :: bs) x
    | (_, x) => (none, x)
  else (some got, x)
termination_by need - got.length
decreasing_by
  rw [List.length_append, List.length_cons]
  omega

/-- `client_net_recv_msg`: what is in `buf` and `*out_len`, or `none` for -1. -/
def recvMsg (fd : Int) (x : Inbox UInt8) : Option (List UInt8 × Nat) × Inbox UInt8 :=
  if fd < 0 then (none, x)
  else
    match recvExact 2 [] x with
    | (none, x) => (none, x)
    | (some header, x) =>
      match chatPeekHeader header with
      | none => (none, x)
      | some (_, len) =>
        if 0 < len.toNat then
          match recvExact len.toNat [] x with
          | (none, x) => (none, x)
          | (some payload, x) => (some (header ++ payload, 2 + len.toNat), x)
        else (some (header, 2 + len.toNat), x)

/-- **Exact reads.**  `recvExact` takes just as many bytes off the stream as it was asked for, or
there are not that many left and it reads to the end. -/
theorem recvExact_cases (need : Nat) (got : List UInt8) (x : Inbox UInt8)
    (h : got.length ≤ need) :
    (∃ read y, x.bytes = read ++ y.bytes ∧ got.length + read.length = need ∧
      recvExact need got x = (some (got ++ read), y)) ∨
    ∃ y, x.bytes.length < need - got.length ∧ y.bytes = [] ∧ recvExact need got x = (none, y) := by
  -- the measure of the loop: what is still missing
  generalize hmiss : need - got.length = miss
  induction miss using Nat.strong_induction_on generalizing got x with
  | _ miss ih =>
    rw [recvExact]
    by_cases hlt : got.length < need
    · rw [if_pos hlt]
      obtain ⟨hend, hrecv⟩ | ⟨chunk, y, hchunk, hlen, hrecv, hbytes, -⟩ :=
        x.recv_cases (Nat.sub_pos_of_lt hlt)
      · refine .inr ⟨x, by rw [hend, List.length_nil]; omega, hend, ?_⟩
        rw [hrecv]
        cases x.broken <;> rfl
      · rw [hrecv]
        obtain ⟨b, bs, rfl⟩ := List.exists_cons_of_ne_nil hchunk
        have hgot : (got ++ b :: bs).length = got.length + (b :: bs).length := List.length_append
        have hpos : 0 < (b :: bs).length := Nat.succ_pos _
        obtain ⟨read, z, hz, hsum, hr⟩ | ⟨z, hshort, hz, hr⟩ :=
          ih (need - (got ++ b :: bs).length) (by omega) (got ++ b :: bs) y (by omega) rfl
        · refine .inl ⟨b :: bs ++ read, z, ?_, ?_, ?_⟩
          · rw [hbytes, hz, List.append_assoc]
          · rw [List.length_append]
            omega
          · exact hr.trans (by rw [List.append_assoc])
        · refine .inr ⟨z, ?_, hz, hr⟩
          rw [hbytes, List.length_append]
          omega
    · rw [if_neg hlt]
      exact .inl ⟨[], x, rfl, by rw [List.length_nil]; omega, by rw [List.append_nil]⟩

theorem recvExact_of_le (need : Nat) {x : Inbox UInt8} (read : List UInt8) {rest : List UInt8}
    (hx : x.bytes = read ++ rest) (h : read.length = need) :
    ∃ y, y.bytes = rest ∧ recvExact need [] x = (some read, y) := by
  obtain ⟨read', y, hy, hlen, hr⟩ | ⟨y, hshort, -, -⟩ :=
    recvExact_cases need [] x (by simp)
  · rw [List.length_nil, Nat.zero_add] at hlen
    obtain ⟨rfl, rfl⟩ := List.append_inj (hx.symm.trans hy) (h.trans hlen.symm)
    exact ⟨y, rfl, hr⟩
  · rw [hx, List.length_append] at hshort
    simp only [List.length_nil] at hshort
    omega

theorem recvExact_of_lt {need : Nat} {x : Inbox UInt8} (h : x.bytes.length < need) :
    ∃ y, y.bytes = [] ∧ recvExact need [] x = (none, y) := by
  obtain ⟨read, y, hy, hlen, -⟩ | ⟨y, -, hy, hr⟩ :=
    recvExact_cases need [] x (by simp)
  · rw [hy, List.length_append] at h
    simp only [List.length_nil] at hlen
    omega
  · exact ⟨y, hy, hr⟩

/-- A stream with a frame in front gives this frame. -/
theorem recvMsg_of_frame {fd : Int} (hfd : 0 ≤ fd) {x : Inbox UInt8} {f rest : List UInt8}
    (hf : tlv.IsFrame f) (hx : x.bytes = f ++ rest) :
    ∃ y, y.bytes = rest ∧ recvMsg fd x = (some (f, f.length), y) := by
  obtain ⟨t, l, payload, rfl, hl⟩ := exists_of_isFrame hf
  obtain ⟨y, hy, hheader⟩ := recvExact_of_le 2 [t, l] hx rfl
  have hlen : 2 + l.toNat = (t :: l :: payload).length := by
    simp only [List.length_cons]
    omega
  rw [recvMsg, if_neg (by omega), hheader]
  simp only [chatPeekHeader]
  by_cases hpos : 0 < l.toNat
  · obtain ⟨z, hz, hpayload⟩ := recvExact_of_le l.toNat payload hy hl
    rw [if_pos hpos, hpayload, hlen]
    exact ⟨z, hz, rfl⟩
  · obtain rfl : payload = [] := List.length_eq_zero_iff.mp (by omega)
    rw [if_neg hpos, hlen]
    exact ⟨y, hy, rfl⟩

/-- A stream without a whole frame gives none, and is read to its end. -/
theorem recvMsg_of_incomplete {fd : Int} (hfd : 0 ≤ fd) {x : Inbox UInt8}
    (hx : tlv.Incomplete x.bytes) : ∃ y, y.bytes = [] ∧ recvMsg fd x = (none, y) := by
  rw [recvMsg, if_neg (by omega)]
  by_cases hshort : x.bytes.length < 2
  · obtain ⟨y, hy, hheader⟩ := recvExact_of_lt hshort
    rw [hheader]
    exact ⟨y, hy, rfl⟩
  · match hbytes : x.bytes with
    | [] | [_] => simp [hbytes] at hshort
    | t :: l :: payload =>
      obtain ⟨y, hy, hheader⟩ := recvExact_of_le 2 [t, l] hbytes rfl
      have hlt := hx _ (tlv_size_eq (by rw [hbytes]; rfl))
      rw [hbytes, List.length_cons, List.length_cons] at hlt
      have hmiss : y.bytes.length < l.toNat := by
        rw [hy]
        omega
      obtain ⟨z, hz, hpayload⟩ := recvExact_of_lt hmiss
      rw [hheader]
      simp only [chatPeekHeader]
      rw [if_pos (by omega), hpayload]
      exact ⟨z, hz, rfl⟩

end ChatProject
