import ChatProject.Client.ChatSender
import ChatProject.System.SpawnCommands

/-!
# What the windows are told

`chat_sender` and `chat_receiver` learn all they know from their command lines, which the client has
printed, the shell has taken apart and the terminal has handed on.  Numbers go there and back as
decimals.

* `atoi`, `inetPton` — how the windows read them; `atoi_signedDecimal` and `inetPton_mcastPair` say
  that they read what was printed.
* `windowArgs` — the arguments that both `main`s take.
* `ChatSender.start`, `ChatReceiver.start` — the two `main`s up to their loops; `ChatSender.main`
  and `ChatReceiver.main` are the whole of them.
* `Opens` — a command line opens a window in which a program runs with these arguments.
* `opens_sender`, `opens_receiver` — what the command lines of `client_groups_mng_on_join` open.
-/

set_option autoImplicit false

namespace ChatProject

/-! ## Reading numbers and addresses -/

/-- `isspace`. -/
def isSpace (b : UInt8) : Bool := b = 32 || 9 ≤ b && b ≤ 13

/-- `isdigit`. -/
def isDigit (b : UInt8) : Bool := 48 ≤ b && b ≤ 57

/-- The number at the front. -/
def leadingNumber (s : List UInt8) : Nat := ofDecimal (s.takeWhile isDigit)

/-- `atoi`.  For a number that is not an `int` C promises nothing; here it is that number. -/
def atoi (s : CStr) : Int :=
  match s.bytes.dropWhile isSpace with
  | 45 :: s => -leadingNumber s
  | 43 :: s => leadingNumber s
  | s => leadingNumber s

/-- `inet_pton(AF_INET, s, ...)`: four numbers up to 255, of up to three digits each, with dots
between them. -/
def inetPton (s : CStr) : Option (List UInt8) :=
  let parts := s.bytes.splitOn 46
  if parts.length = 4 ∧
      ∀ p ∈ parts, p ≠ [] ∧ p.length ≤ 3 ∧ p.all isDigit = true ∧ ofDecimal p ≤ 255 then
    some (parts.map fun p => UInt8.ofNat (ofDecimal p))
  else none

theorem ofDecimal_append (ds : List UInt8) (d : UInt8) :
    ofDecimal (ds ++ [d]) = ofDecimal ds * 10 + (d.toNat - 48) :=
  List.foldl_concat ..

theorem toNat_digitChar {n : Nat} (h : n < 10) :
    (UInt8.ofNat n.digitChar.toNat).toNat = 48 + n := by
  interval_cases n <;> decide

/-- What `%u` prints is read again. -/
theorem ofDecimal_decimal (n : Nat) : ofDecimal (decimal n) = n := by
  induction n using Nat.strongRecOn with
  | _ n ih =>
    by_cases hn : n < 10
    · rw [decimal, Nat.toDigits_of_lt_base hn, List.map_singleton, ← List.nil_append [_],
        ofDecimal_append, toNat_digitChar hn]
      simp [ofDecimal]
    · rw [decimal, Nat.toDigits_of_base_le (by decide) (by omega), List.map_append,
        List.map_singleton, ofDecimal_append, toNat_digitChar (Nat.mod_lt n (by decide))]
      have hfront := ih (n / 10) (by omega)
      rw [decimal] at hfront
      rw [hfront]
      omega

theorem isDigit_of_mem_decimal {n : Nat} {b : UInt8} (h : b ∈ decimal n) : isDigit b = true := by
  obtain ⟨hlo, hhi⟩ := digit_of_mem_decimal h
  rw [isDigit, Bool.and_eq_true, decide_eq_true_eq, decide_eq_true_eq]
  exact ⟨UInt8.le_iff_toNat_le.mpr hlo, UInt8.le_iff_toNat_le.mpr hhi⟩

theorem leadingNumber_decimal (n : Nat) : leadingNumber (decimal n) = n := by
  rw [leadingNumber, List.takeWhile_eq_self_iff.mpr fun b hb => isDigit_of_mem_decimal hb,
    ofDecimal_decimal]

theorem isSpace_of_mem_decimal {n : Nat} {b : UInt8} (h : b ∈ decimal n) : isSpace b = false := by
  obtain ⟨hlo, hhi⟩ := digit_of_mem_decimal h
  rw [← UInt8.ofNat_toNat (x := b)]
  generalize b.toNat = k at hlo hhi
  interval_cases k <;> decide

theorem zero_not_mem_decimal (n : Nat) : 0 ∉ decimal n := fun h =>
  absurd (digit_of_mem_decimal h).1 (by decide)

theorem zero_not_mem_signedDecimal (n : Int) : 0 ∉ signedDecimal n := by
  rw [signedDecimal]
  split_ifs
  · rw [List.mem_append, not_or]
    exact ⟨by decide, zero_not_mem_decimal _⟩
  · exact zero_not_mem_decimal _

/-- What `%d` prints is read again. -/
theorem atoi_signedDecimal {s : CStr} {n : Int} (hs : s.bytes = signedDecimal n) : atoi s = n := by
  rw [atoi, hs, signedDecimal]
  split_ifs with hneg
  · rw [show literal "-" = [45] from by decide, List.singleton_append]
    show -(leadingNumber (decimal n.natAbs) : Int) = n
    rw [leadingNumber_decimal]
    omega
  · obtain ⟨d, ds, hd⟩ := List.exists_cons_of_ne_nil (decimal_ne_nil n.natAbs)
    have hdigit := digit_of_mem_decimal (hd ▸ List.mem_cons_self : d ∈ decimal n.natAbs)
    have hspace : isSpace d = false := isSpace_of_mem_decimal (hd ▸ List.mem_cons_self)
    have hval := leadingNumber_decimal n.natAbs
    rw [hd] at hval ⊢
    rw [List.dropWhile_cons_of_neg (by rw [hspace]; simp)]
    split
    · rename_i heq
      obtain ⟨rfl, -⟩ := List.cons.inj heq
      exact absurd hdigit.1 (by decide)
    · rename_i heq
      obtain ⟨rfl, -⟩ := List.cons.inj heq
      exact absurd hdigit.1 (by decide)
    · rw [hval]
      omega

/-- The addresses of the pool are addresses. -/
theorem inetPton_mcastPair {i : Nat} (h : i ∈ fillRange) :
    inetPton (mcastPair i).ip = some [239, 1, 1, UInt8.ofNat i] := by
  have hall : ∀ i ∈ fillRange, inetPton (mcastPair i).ip = some [239, 1, 1, UInt8.ofNat i] := by
    decide +kernel
  exact hall i h

/-! ## The programs -/

/-- An address and a port: `struct sockaddr_in`. -/
structure SocketAddr where
  ip : List UInt8
  port : UInt16
deriving DecidableEq

/-- What both programs find on their command lines. -/
structure WindowArgs where
  mcastIp : CStr
  port : Int
  /-- The queue the process id goes to; none if this is negative. -/
  msqid : Int
  /-- The username, or the name of the group. -/
  last : Option CStr

/-- `main` of both programs up to `socket`, where `argv` comes without the name of the program. -/
def windowArgs (argv : List CStr) : Option WindowArgs :=
  match argv with
  | mcastIp :: port :: rest =>
    if 2 < rest.length then none
    else if atoi port ≤ 0 ∨ atoi port > 65535 then none
    else
      some
        { mcastIp
          port := atoi port
          msqid := (rest.head?.map atoi).getD (-1)
          -- NULL if it is not there or empty
          last := ChatSender.username rest[1]? }
  | _ => none

namespace ChatSender

/-- What the surroundings answer to the calls of `main` before its loop: `socket`, and `setsockopt`
for the TTL and for the interface. -/
structure StartAnswers where
  socket : Int
  ttl : Int
  iface : Int

/-- `main` up to its loop: where it will send to, and under which name. -/
def start (k : StartAnswers) (argv : List CStr) : Option (SocketAddr × Option CStr) :=
  match windowArgs argv with
  | none => none
  | some args =>
    if k.socket < 0 ∨ k.ttl < 0 ∨ k.iface < 0 then none
    else
      match inetPton args.mcastIp with
      | none => none
      | some ip => some (⟨ip, UInt16.ofInt args.port⟩, args.last)

/-- `main`: the datagrams it sends, and where to. -/
def main (k : StartAnswers) (argv : List CStr) (rounds : Nat) (sends : List Bool)
    (stdin : List UInt8) : Option (List (SocketAddr × List UInt8)) :=
  match start k argv with
  | none => some []
  | some (dst, username) => (sendLoop username rounds sends stdin).map (·.map (dst, ·))

end ChatSender

namespace ChatReceiver

/-- What the surroundings answer to the calls of `main` before its loop: `socket`, `setsockopt` for
`SO_REUSEADDR`, `bind`, and `setsockopt` for the membership. -/
structure StartAnswers where
  socket : Int
  reuse : Int
  bind : Int
  membership : Int

/-- `main` up to its loop: the address it is bound to. -/
def start (k : StartAnswers) (argv : List CStr) : Option SocketAddr :=
  match windowArgs argv with
  | none => none
  | some args =>
    if k.socket < 0 ∨ k.reuse < 0 then none
    else
      match inetPton args.mcastIp with
      | none => none
      | some ip =>
        if k.bind < 0 ∨ k.membership < 0 then none else some ⟨ip, UInt16.ofInt args.port⟩

/-- `main`: what it prints of the datagrams that reach the host.  The kernel hands on the ones that
are for the address the socket is bound to. -/
def main (k : StartAnswers) (argv : List CStr) (arrived : List (SocketAddr × List UInt8)) :
    List UInt8 :=
  match start k argv with
  | none => []
  | some addr => ((arrived.filter (·.1 = addr)).map fun d => printed d.2).flatten

end ChatReceiver

/-! ## From the client to the programs -/

/-- The command line opens a window in which `program` runs with the arguments `argv`: the shell
runs the terminal and nothing else, and the terminal runs what stands behind `--`. -/
def Opens (line program : List UInt8) (argv : List CStr) : Prop :=
  ∃ title, RunsOnly line
    ([literal "gnome-terminal", title, literal "--", program] ++ argv.map CStr.bytes)

/-- The arguments the client means a window to have. -/
def windowArgv (mcastIp : CStr) (mcastPort : UInt16) (msqid : Int) (last : CStr) : List CStr :=
  [mcastIp, ⟨decimal mcastPort.toNat, zero_not_mem_decimal _⟩,
    ⟨signedDecimal msqid, zero_not_mem_signedDecimal _⟩, last]

section
variable {group username : CStr} {i : Nat} {port : UInt16} {msqid : Int}

theorem opens_spawnCommand {role program : String} {last : CStr}
    (hrole : 39 ∉ literal role) (hroleLen : (literal role).length ≤ 8)
    (hprogram : ∀ b ∈ literal program, Shell.Plain b) (hprogramLen : (literal program).length ≤ 13)
    (hgroup : group.length ≤ chatMaxGroupnameLen) (hlast : last.length ≤ 32) (hi : i ≤ 255)
    (hmin : -2147483648 ≤ msqid) (hmax : msqid ≤ 2147483647) (hquote : 39 ∉ group.bytes)
    (hquote' : 39 ∉ last.bytes) :
    Opens (ClientGroupsMng.spawnCommand role program group (mcastPair i).ip port msqid last)
      (literal "./bin/" ++ literal program) (windowArgv (mcastPair i).ip port msqid last) := by
  have hne : (mcastPair i).ip.bytes ≠ [] := by
    rw [bytes_mcastPair]
    exact List.append_ne_nil_of_right_ne_nil _ (decimal_ne_nil i)
  have hfits : (spawnText role program group (mcastPair i).ip port msqid last).length < cmdSize :=
    length_spawnText_lt hroleLen hprogramLen hgroup (length_ip_le hi) hmin hmax hlast
  rw [spawnCommand_eq hfits]
  exact ⟨_, (runsOnly_spawnText_iff hrole hprogram (fun _ => plain_of_mem_ip) hne).mpr
    ⟨hquote, hquote'⟩⟩

/-- **The window that sends** is told the address, the queue and the name of the user. -/
theorem opens_sender (hgroup : group.length ≤ chatMaxGroupnameLen)
    (huser : username.length ≤ chatMaxUsernameLen) (hi : i ≤ 255)
    (hmin : -2147483648 ≤ msqid) (hmax : msqid ≤ 2147483647) (hquote : 39 ∉ group.bytes)
    (hquote' : 39 ∉ username.bytes) :
    Opens (ClientGroupsMng.senderCommand group (mcastPair i).ip port msqid username)
      (literal "./bin/chat_sender") (windowArgv (mcastPair i).ip port msqid username) :=
  opens_spawnCommand (by decide) (by decide)
    (Shell.plain_of_all (by decide)) (by decide) hgroup huser hi hmin hmax hquote hquote'

/-- **The window that receives** is told the address, the queue and the name of the group. -/
theorem opens_receiver (hgroup : group.length ≤ chatMaxGroupnameLen) (hi : i ≤ 255)
    (hmin : -2147483648 ≤ msqid) (hmax : msqid ≤ 2147483647) (hquote : 39 ∉ group.bytes) :
    Opens (ClientGroupsMng.receiverCommand group (mcastPair i).ip port msqid)
      (literal "./bin/chat_receiver") (windowArgv (mcastPair i).ip port msqid group) :=
  opens_spawnCommand (by decide) (by decide)
    (Shell.plain_of_all (by decide)) (by decide) hgroup hgroup hi hmin hmax hquote hquote

/-- Both programs read what the client has printed. -/
theorem windowArgs_windowArgv (ip last : CStr) (hport : port ≠ 0) :
    windowArgs (windowArgv ip port msqid last) =
      some ⟨ip, port.toNat, msqid, ChatSender.username (some last)⟩ := by
  have hpos : 0 < port.toNat := Nat.pos_of_ne_zero fun h0 => hport (UInt16.toNat_inj.mp h0)
  have hlt := port.toNat_lt
  have hdecimal : signedDecimal (port.toNat : Int) = decimal port.toNat := by
    rw [signedDecimal, if_neg (by omega), Int.natAbs_natCast]
  have hread : atoi ⟨decimal port.toNat, zero_not_mem_decimal _⟩ = port.toNat :=
    atoi_signedDecimal hdecimal.symm
  have hid : atoi ⟨signedDecimal msqid, zero_not_mem_signedDecimal _⟩ = msqid :=
    atoi_signedDecimal rfl
  simp only [windowArgs, windowArgv, hread, List.head?_cons, Option.map_some, hid]
  rw [if_neg (by simp), if_neg (by omega)]
  rfl

theorem ofInt_toNat (port : UInt16) : UInt16.ofInt port.toNat = port := by
  have hlt := port.toNat_lt
  rw [UInt16.ofInt, Int.emod_eq_of_lt (by omega) (by omega), Int.toNat_natCast, UInt16.ofNat_toNat]

theorem ChatSender.start_windowArgv {k : StartAnswers} (hk : 0 ≤ k.socket ∧ 0 ≤ k.ttl ∧ 0 ≤ k.iface)
    (hi : i ∈ fillRange) (hport : port ≠ 0) :
    start k (windowArgv (mcastPair i).ip port msqid username) =
      some (⟨[239, 1, 1, UInt8.ofNat i], port⟩, ChatSender.username (some username)) := by
  rw [start, windowArgs_windowArgv _ _ hport]
  simp only [inetPton_mcastPair hi]
  rw [if_neg (by omega), ofInt_toNat]

theorem ChatReceiver.start_windowArgv {k : StartAnswers}
    (hk : 0 ≤ k.socket ∧ 0 ≤ k.reuse ∧ 0 ≤ k.bind ∧ 0 ≤ k.membership) (hi : i ∈ fillRange)
    (hport : port ≠ 0) :
    start k (windowArgv (mcastPair i).ip port msqid group) =
      some ⟨[239, 1, 1, UInt8.ofNat i], port⟩ := by
  rw [start, windowArgs_windowArgv _ _ hport]
  simp only [inetPton_mcastPair hi]
  rw [if_neg (by omega), if_neg (by omega), ofInt_toNat]

end

end ChatProject
