import ChatProject.Shared.Stdin

/-!
# What is typed into a chat window

`chat_sender` sends what it reads from standard input to the group, with the name of the user in
front of each piece, and `chat_receiver` prints what comes.

* `sendLoop` — the main loop of the sender; `printed` is a round of the receiver's.
* `sendLoop_eq` — a round sends the first 1023 bytes of the line it is on.
* `one_line_one_datagram` — so a line is one datagram exactly when it has no more.
-/

set_option autoImplicit false

namespace ChatProject

open Lines

namespace ChatSender

/-- `MAX_LINE`. -/
def maxLine : Nat := 1024

/-- `MAX_NAME`. -/
def maxName : Nat := 33

/-- `sizeof(out)`. -/
def outSize : Nat := maxName + 2 + maxLine

/-- The user name that `main` takes from its last argument; `none` is NULL. -/
def username (arg : Option CStr) : Option CStr := arg.filter (· ≠ CStr.empty)

/-- `"%s: %s"`. -/
def attributed (username : CStr) (line : List UInt8) : List UInt8 :=
  username.bytes ++ literal ": " ++ line

/-- The string that `snprintf` is to print. -/
def whole (username line : CStr) : CStr :=
  ⟨attributed username line.bytes, by
    rw [attributed, List.mem_append, List.mem_append, not_or, not_or]
    exact ⟨⟨username.noNul, by decide⟩, line.noNul⟩⟩

/-- `snprintf(out, sizeof(out), "%s: %s", username, line)`: what it returns, and `out`. -/
def prefixed (username line : CStr) : Nat × CStr :=
  ((whole username line).length, (whole username line).ncopy (outSize - 1))

/-- What is sent for a line. -/
def payload (username : Option CStr) (line : CStr) : CStr :=
  match username with
  | none => line
  | some username =>
    if 0 < (prefixed username line).1 then (prefixed username line).2 else line

/-- The main loop, for at most `rounds` rounds: the datagrams it has handed to `sendto`.  `sends`
are the answers of the coming `sendto` calls; past its end every call succeeds. -/
def sendLoop (username : Option CStr) :
    (rounds : Nat) → (sends : List Bool) → (stdin : List UInt8) → Option (List (List UInt8))
  | 0, _, _ => none
  | rounds + 1, sends, stdin =>
    match fgets maxLine stdin with
    | (none, _) => some []
    | (some line, stdin) =>
      let datagram := (payload username (CStr.ofBuffer line)).bytes
      if sends.headD true then
        (sendLoop username rounds sends.tail stdin).map (datagram :: ·)
      else some []

end ChatSender

namespace ChatReceiver

/-- `MAX_DGRAM`. -/
def maxDgram : Nat := 1500

/-- What the receiver prints of a datagram. -/
def printed (datagram : List UInt8) : List UInt8 := (CStr.ofBuffer (datagram.take maxDgram)).bytes

/-- A string that fits is printed as it is. -/
theorem printed_eq {s : CStr} (hs : s.length ≤ maxDgram) : printed s.bytes = s.bytes := by
  rw [printed, List.take_of_length_le hs, CStr.ofBuffer_bytes]

end ChatReceiver

namespace ChatSender

/-! ## One round -/

theorem length_attributed (user : CStr) (line : List UInt8) :
    (attributed user line).length = user.length + 2 + line.length := by
  have hcolon : (literal ": ").length = 2 := by decide
  rw [attributed, List.length_append, List.length_append, hcolon, CStr.length]

theorem attributed_inj {user : CStr} {line line' : List UInt8} :
    attributed user line = attributed user line' ↔ line = line' :=
  List.append_right_inj _

/-- The name is always put in front, as far as there is room for the whole. -/
theorem payload_some (user line : CStr) :
    payload (some user) line = (whole user line).ncopy (outSize - 1) := by
  have hpos : 0 < (prefixed user line).1 := by
    rw [prefixed, CStr.length, whole, length_attributed]
    omega
  exact if_pos hpos

theorem length_payload_le (user line : CStr) : (payload (some user) line).length ≤ outSize - 1 := by
  rw [payload_some]
  exact List.length_take_le _ _

/-- There is room for all that `fgets` reads. -/
theorem payload_eq {user : CStr} (huser : user.length < maxName) {line : CStr}
    (hline : line.length < maxLine) :
    (payload (some user) line).bytes = attributed user line.bytes := by
  have hlen : (whole user line).length ≤ outSize - 1 := by
    rw [CStr.length, whole, length_attributed, outSize]
    rw [CStr.length] at hline
    omega
  rw [payload_some, CStr.ncopy_eq_self hlen, whole]

/-- **One round.**  The first 1023 bytes of the line go out, and what is behind them stays. -/
theorem sendLoop_succ {user : CStr} (huser : user.length < maxName) (rounds : Nat)
    {sends : List Bool} (hsends : sends.headD true = true) {stdin : List UInt8} (hne : stdin ≠ [])
    (h0 : 0 ∉ stdin) :
    sendLoop (some user) (rounds + 1) sends stdin
      = (sendLoop (some user) rounds sends.tail
          (stdin.drop ((line newline stdin).take (maxLine - 1)).length)).map
            (attributed user ((line newline stdin).take (maxLine - 1)) :: ·) := by
  have h0' : 0 ∉ (line newline stdin).take (maxLine - 1) := fun h =>
    h0 (line_append_rest newline stdin ▸ List.mem_append_left _ (List.mem_of_mem_take h))
  have hread := fgets_eq (n := maxLine - 1) (.inr hne)
  have hlen : CStr.length ⟨_, h0'⟩ < maxLine :=
    Nat.lt_of_le_of_lt (List.length_take_le _ _) (by decide)
  rw [sendLoop, show (maxLine : Int) = (maxLine - 1 + 1 : Nat) from rfl, hread]
  simp only [hsends, if_true]
  rw [CStr.ofBuffer_bytes ⟨_, h0'⟩, payload_eq huser hlen]

theorem sendLoop_nil (user : Option CStr) (rounds : Nat) (sends : List Bool) :
    sendLoop user (rounds + 1) sends [] = some [] := rfl

/-! ## All rounds -/

/-- Whatever is sent is a string that the buffer holds. -/
theorem exists_of_mem {user : CStr} {rounds : Nat} {sends : List Bool} {stdin : List UInt8}
    {sent : List (List UInt8)} (h : sendLoop (some user) rounds sends stdin = some sent)
    {datagram : List UInt8} (hmem : datagram ∈ sent) :
    ∃ s : CStr, datagram = s.bytes ∧ s.length ≤ outSize - 1 := by
  induction rounds generalizing sends stdin sent with
  | zero => exact absurd h (by simp [sendLoop])
  | succ rounds ih =>
    rw [sendLoop] at h
    split at h
    · rw [Option.some_inj] at h
      exact absurd (h ▸ hmem) List.not_mem_nil
    · split at h
      · obtain ⟨sent, hsent, rfl⟩ := Option.map_eq_some_iff.mp h
        rcases List.mem_cons.mp hmem with rfl | hmem
        · exact ⟨_, rfl, length_payload_le user _⟩
        · exact ih hsent hmem
      · rw [Option.some_inj] at h
        exact absurd (h ▸ hmem) List.not_mem_nil

/-- The loop ends, and its datagrams are the lines when all lines fit. -/
theorem sendLoop_spec {user : CStr} (huser : user.length < maxName) {rounds : Nat}
    {sends : List Bool} (hsends : false ∉ sends) {stdin : List UInt8} (h0 : 0 ∉ stdin)
    (hrounds : stdin.length < rounds) :
    ∃ sent, sendLoop (some user) rounds sends stdin = some sent ∧
      (sent = (all newline stdin).map (attributed user) ↔
        ∀ l ∈ all newline stdin, l.length < maxLine) := by
  induction rounds generalizing sends stdin with
  | zero => omega
  | succ rounds ih =>
    by_cases hne : stdin = []
    · subst hne
      exact ⟨[], sendLoop_nil .., by simp [all]⟩
    have hhead : sends.headD true = true := by
      cases sends with
      | nil => rfl
      | cons ok sends =>
        cases ok with
        | true => rfl
        | false => exact absurd List.mem_cons_self hsends
    have htail : false ∉ sends.tail := fun h => hsends (List.mem_of_mem_tail h)
    have hshort :
        (stdin.drop ((line newline stdin).take (maxLine - 1)).length).length < rounds := by
      have hline := List.length_pos_iff.mpr (line_ne_nil newline hne)
      have hpos := List.length_pos_iff.mpr hne
      rw [List.length_drop, List.length_take, maxLine]
      omega
    obtain ⟨sent, hsent, hiff⟩ := ih htail (fun h => h0 (List.mem_of_mem_drop h)) hshort
    refine ⟨_, by rw [sendLoop_succ huser rounds hhead hne h0, hsent, Option.map_some], ?_⟩
    rw [all_eq newline hne, List.map_cons, List.cons.injEq, attributed_inj, List.forall_mem_cons]
    by_cases hfit : (line newline stdin).length < maxLine
    · have hall : (line newline stdin).take (maxLine - 1) = line newline stdin :=
        List.take_of_length_le (Nat.le_sub_one_of_lt hfit)
      rw [hall, drop_length_line] at hiff
      exact and_congr (iff_of_true hall hfit) hiff
    · refine iff_of_false (fun h => hfit ?_) (fun h => hfit h.1)
      have hlen := congrArg List.length h.1
      rw [List.length_take] at hlen
      rw [maxLine] at hlen ⊢
      omega

/-! ## The theorem -/

open ChatReceiver

/-- **One line, one datagram.**  Let no `sendto` fail.  Each line is one datagram that a receiver
prints as it was sent exactly when no line, with its newline, has more than 1023 bytes. -/
theorem one_line_one_datagram {user : CStr} (hpos : 1 ≤ user.length) (hmax : user.length ≤ 32)
    {stdin : List UInt8} (h0 : 0 ∉ stdin) {sends : List Bool} (hsends : false ∉ sends)
    {rounds : Nat} (hrounds : stdin.length < rounds) :
    ∃ sent, sendLoop (username (some user)) rounds sends stdin = some sent ∧
      ((sent = (all newline stdin).map (attributed user) ∧
          ∀ datagram ∈ sent, datagram.length ≤ maxDgram ∧ printed datagram = datagram) ↔
        ∀ l ∈ all newline stdin, l.length < maxLine) := by
  have huser : username (some user) = some user := by
    rw [username, Option.filter_some, if_pos]
    rw [decide_eq_true_eq]
    rintro rfl
    exact absurd hpos (by decide)
  obtain ⟨sent, hsent, hiff⟩ := sendLoop_spec (Nat.lt_succ_of_le hmax) hsends h0 hrounds
  refine ⟨sent, by rw [huser, hsent], ?_⟩
  rw [and_iff_left, hiff]
  intro datagram hmem
  obtain ⟨s, rfl, hs⟩ := exists_of_mem hsent hmem
  have hfits : s.length ≤ maxDgram := hs.trans (by decide)
  exact ⟨hfits, printed_eq hfits⟩

/-- Two lines of a user called `a`, the second without a newline. -/
theorem one_line_one_datagram_twoLines :
    ∃ sent, sendLoop (username (some ⟨[97], by decide⟩)) 6 [] [104, 105, newline, 120, 121]
        = some sent ∧
      sent = [[97, 58, 32, 104, 105, newline], [97, 58, 32, 120, 121]] := by
  obtain ⟨sent, hsent, hiff⟩ := @one_line_one_datagram ⟨[97], by decide⟩ (by decide) (by decide)
    [104, 105, newline, 120, 121] (by decide) [] (by decide) 6 (by decide)
  exact ⟨sent, hsent, (hiff.mpr (by decide)).1⟩

/-- A line of 1023 bytes and its newline. -/
theorem one_line_two_datagrams :
    ¬ ∃ sent, sendLoop (username (some ⟨[97], by decide⟩)) 1025 []
        (List.replicate 1023 120 ++ [newline]) = some sent ∧
      sent = (all newline (List.replicate 1023 120 ++ [newline])).map
        (attributed ⟨[97], by decide⟩) := by
  rintro ⟨sent, hsent, rfl⟩
  have hlen := congrArg (Option.map List.length) hsent
  have htwo : (sendLoop (username (some ⟨[97], by decide⟩)) 1025 []
      (List.replicate 1023 120 ++ [newline])).map List.length = some 2 := by
    decide +kernel
  have hone : (all newline (List.replicate 1023 120 ++ [newline])).length = 1 := by
    decide +kernel
  rw [htwo, Option.map_some, List.length_map, hone] at hlen
  exact absurd hlen (by decide)

end ChatSender

end ChatProject
