import Mathlib.Tactic.IntervalCases
import ChatProject.Client.ClientGroupsMng
import ChatProject.Lib.ShellWords
import ChatProject.Server.ServerMng

/-!
# The command lines of the windows

`client_groups_mng_on_join` opens a window by handing a command line to the shell, with the group's
name and the username pasted between single quotes.  Nobody on the way from the keyboard to here has
looked at what is in these names.

* `spawnText` — the command line before it is cut to the size of `cmd`; it always fits.
* `spawnWords` — the program that is meant, with its arguments.
* `spawn_commands_iff` — the two command lines run what is meant exactly when neither name has a
  single quote in it.  `quoted_name_runs_more` has a name with which the shell runs another program
  as well.
-/

set_option autoImplicit false

namespace ChatProject

open Shell (Plain Reads marks)

/-! ## Numbers and addresses -/

theorem digit_of_mem_decimal {n : Nat} {b : UInt8} (h : b ∈ decimal n) :
    48 ≤ b.toNat ∧ b.toNat ≤ 57 := by
  obtain ⟨c, hc, rfl⟩ := List.mem_map.mp h
  have hdigit := Nat.isDigit_of_mem_toDigits (by decide) (by decide) hc
  rw [Char.isDigit, Bool.and_eq_true, decide_eq_true_eq, decide_eq_true_eq] at hdigit
  have hlo : 48 ≤ c.toNat := UInt32.le_iff_toNat_le.mp hdigit.1
  have hhi : c.toNat ≤ 57 := UInt32.le_iff_toNat_le.mp hdigit.2
  rw [toNat_ofNat_of_le (by omega)]
  exact ⟨hlo, hhi⟩

theorem plain_of_mem_decimal {n : Nat} {b : UInt8} (h : b ∈ decimal n) : Plain b := by
  obtain ⟨hlo, hhi⟩ := digit_of_mem_decimal h
  rw [← UInt8.ofNat_toNat (x := b)]
  generalize b.toNat = k at hlo hhi
  interval_cases k <;> decide

theorem decimal_ne_nil (n : Nat) : decimal n ≠ [] := by
  rw [decimal, Ne, List.map_eq_nil_iff]
  exact Nat.toDigits_ne_nil

theorem length_decimal_le {n k : Nat} (hk : 0 < k) (h : n < 10 ^ k) : (decimal n).length ≤ k := by
  rw [decimal, List.length_map]
  exact (Nat.length_toDigits_le_iff (by decide) hk).mpr h

theorem plain_of_mem_signedDecimal {n : Int} {b : UInt8} (h : b ∈ signedDecimal n) : Plain b := by
  rw [signedDecimal] at h
  split_ifs at h
  · rcases List.mem_append.mp h with h | h
    · exact List.mem_singleton.mp (show b ∈ [45] from h) ▸ by decide
    · exact plain_of_mem_decimal h
  · exact plain_of_mem_decimal h

theorem signedDecimal_ne_nil (n : Int) : signedDecimal n ≠ [] := by
  rw [signedDecimal]
  split_ifs
  · exact List.append_ne_nil_of_right_ne_nil _ (decimal_ne_nil _)
  · exact decimal_ne_nil _

theorem length_signedDecimal_le {n : Int} {k : Nat} (hk : 0 < k) (h : n.natAbs < 10 ^ k) :
    (signedDecimal n).length ≤ k + 1 := by
  have hle := length_decimal_le hk h
  rw [signedDecimal]
  split_ifs
  · rw [List.length_append, show (literal "-").length = 1 from rfl]
    omega
  · omega

/-- The address in a pair is what the fill loop printed. -/
theorem bytes_mcastPair (i : Nat) : (mcastPair i).ip.bytes = mcastPrefix ++ decimal i := by
  have hnul : 0 ∉ mcastPrefix ++ decimal i := by
    rw [List.mem_append, not_or]
    exact ⟨by decide, fun h => absurd (digit_of_mem_decimal h).1 (by decide)⟩
  exact congrArg CStr.bytes (CStr.ofBuffer_bytes ⟨_, hnul⟩)

theorem plain_of_mem_ip {i : Nat} {b : UInt8} (h : b ∈ (mcastPair i).ip.bytes) : Plain b := by
  rw [bytes_mcastPair] at h
  rcases List.mem_append.mp h with h | h
  · exact Shell.plain_of_all (by decide) b h
  · exact plain_of_mem_decimal h

theorem length_ip_le {i : Nat} (h : i ≤ 255) : (mcastPair i).ip.bytes.length ≤ 11 := by
  have hle := length_decimal_le (n := i) (k := 3) (by decide) (by omega)
  rw [bytes_mcastPair, List.length_append, show mcastPrefix.length = 8 from rfl]
  omega

/-! ## The command line and the program that is meant -/

section Spawn

variable (role program : String) (groupName mcastIp : CStr) (mcastPort : UInt16) (msqid : Int)
  (last : CStr)

/-- What `snprintf` would write into a buffer that is large enough. -/
def spawnText : List UInt8 :=
  literal "gnome-terminal --title='" ++ groupName.bytes ++ literal " (" ++ literal role ++
    literal ")' -- ./bin/" ++ literal program ++ literal " " ++ mcastIp.bytes ++ literal " " ++
    decimal mcastPort.toNat ++ literal " " ++ signedDecimal msqid ++ literal " '" ++ last.bytes ++
    literal "' &"

/-- The program, and its arguments. -/
def spawnWords : List (List UInt8) :=
  [literal "gnome-terminal",
    literal "--title=" ++ (groupName.bytes ++ literal " (" ++ literal role ++ literal ")"),
    literal "--", literal "./bin/" ++ literal program, mcastIp.bytes, decimal mcastPort.toNat,
    signedDecimal msqid, last.bytes]

/-- The shell runs these words as one command, in the background, and nothing else. -/
def RunsOnly (line : List UInt8) (words : List (List UInt8)) : Prop :=
  Shell.split line = some (words.map .word ++ [.operator 38])

instance (line : List UInt8) (words : List (List UInt8)) : Decidable (RunsOnly line words) :=
  inferInstanceAs (Decidable (_ = _))

/-- The command line, word by word: the text of each, and what it is read as. -/
def spawnTexts : List (List UInt8 × List UInt8) :=
  [(literal "gnome-terminal", literal "gnome-terminal"),
    (literal "--title=" ++
        39 :: ((groupName.bytes ++ literal " (" ++ literal role ++ literal ")") ++ [39]),
      literal "--title=" ++ (groupName.bytes ++ literal " (" ++ literal role ++ literal ")")),
    (literal "--", literal "--"),
    (literal "./bin/" ++ literal program, literal "./bin/" ++ literal program),
    (mcastIp.bytes, mcastIp.bytes), (decimal mcastPort.toNat, decimal mcastPort.toNat),
    (signedDecimal msqid, signedDecimal msqid),
    ([] ++ 39 :: (last.bytes ++ [39]), [] ++ last.bytes)]

theorem spawnText_eq :
    spawnText role program groupName mcastIp mcastPort msqid last =
      (spawnTexts role program groupName mcastIp mcastPort msqid last).flatMap
        (fun t => t.1 ++ [32]) ++ [38] := by
  rw [spawnText, spawnTexts,
    show literal "gnome-terminal --title='" =
      literal "gnome-terminal" ++ 32 :: (literal "--title=" ++ [39]) from by decide,
    show literal ")' -- ./bin/" =
      literal ")" ++ 39 :: 32 :: (literal "--" ++ 32 :: literal "./bin/") from by decide,
    show literal " '" = [32, 39] from by decide, show literal "' &" = [39, 32, 38] from by decide,
    show literal " " = [32] from by decide]
  simp only [List.flatMap_cons, List.flatMap_nil, List.append_assoc, List.cons_append,
    List.nil_append, List.append_nil]

/-- The names are pasted as they are, so no double quote and no backslash is added. -/
theorem marks_spawnWords :
    marks (spawnWords role program groupName mcastIp mcastPort msqid last).flatten =
      marks (spawnText role program groupName mcastIp mcastPort msqid last) := by
  simp only [spawnWords, spawnText, List.flatten_cons, List.flatten_nil, Shell.marks_append,
    Shell.marks_nil, show marks (literal "gnome-terminal") = 0 from by decide,
    show marks (literal "--title=") = 0 from by decide,
    show marks (literal " (") = 0 from by decide,
    show marks (literal ")") = 0 from by decide, show marks (literal "--") = 0 from by decide,
    show marks (literal "./bin/") = 0 from by decide,
    show marks (literal "gnome-terminal --title='") = 0 from by decide,
    show marks (literal ")' -- ./bin/") = 0 from by decide,
    show marks (literal " ") = 0 from by decide, show marks (literal " '") = 0 from by decide,
    show marks (literal "' &") = 0 from by decide]
  omega

variable {role program groupName mcastIp mcastPort msqid last}

/-- **One window.**  Its command line runs what is meant exactly when both names are without a
single quote. -/
theorem runsOnly_spawnText_iff (hrole : 39 ∉ literal role)
    (hprogram : ∀ b ∈ literal program, Plain b) (hip : ∀ b ∈ mcastIp.bytes, Plain b)
    (hne : mcastIp.bytes ≠ []) :
    RunsOnly (spawnText role program groupName mcastIp mcastPort msqid last)
        (spawnWords role program groupName mcastIp mcastPort msqid last) ↔
      39 ∉ groupName.bytes ∧ 39 ∉ last.bytes := by
  constructor
  · intro h
    have hbytes := (Shell.bytesOf_words (spawnWords role program groupName mcastIp mcastPort msqid
      last) [.operator 38]).trans (List.append_nil _)
    have hquote := Shell.not_mem_of_kept (show Shell.Mode.Clean .between from trivial) h
      (by rw [hbytes, marks_spawnWords, Shell.marks_nil, Nat.zero_add]) List.not_mem_nil
    rw [hbytes] at hquote
    simp only [spawnWords, List.flatten_cons, List.mem_append, not_or] at hquote
    exact ⟨hquote.2.1.2.1.1.1, hquote.2.2.2.2.2.2.2.1⟩
  · rintro ⟨hgroup, hlast⟩
    have htitle : 39 ∉ groupName.bytes ++ literal " (" ++ literal role ++ literal ")" := by
      simp only [List.mem_append, not_or]
      exact ⟨⟨⟨hgroup, by decide⟩, hrole⟩, by decide⟩
    have hbin : ∀ b ∈ literal "./bin/" ++ literal program, Plain b := by
      intro b hb
      rcases List.mem_append.mp hb with hb | hb
      · exact Shell.plain_of_all (by decide) b hb
      · exact hprogram b hb
    have hreads : ∀ t ∈ spawnTexts role program groupName mcastIp mcastPort msqid last,
        Reads t.1 t.2 := by
      rw [spawnTexts]
      simp only [List.forall_mem_cons, List.not_mem_nil, false_implies, implies_true, and_true]
      exact ⟨Shell.reads_plain (Shell.plain_of_all (by decide)) (by decide),
        Shell.reads_quoted (Shell.plain_of_all (by decide)) htitle,
        Shell.reads_plain (Shell.plain_of_all (by decide)) (by decide),
        Shell.reads_plain hbin (by simp [literal]),
        Shell.reads_plain hip hne,
        Shell.reads_plain (fun _ => plain_of_mem_decimal) (decimal_ne_nil _),
        Shell.reads_plain (fun _ => plain_of_mem_signedDecimal) (signedDecimal_ne_nil _),
        Shell.reads_quoted (by simp) hlast⟩
    rw [RunsOnly, spawnText_eq, Shell.split, Shell.run_words hreads]
    rfl

/-- The command line is never cut. -/
theorem length_spawnText_lt (hrole : (literal role).length ≤ 8)
    (hprogram : (literal program).length ≤ 13) (hgroup : groupName.length ≤ chatMaxGroupnameLen)
    (hip : mcastIp.bytes.length ≤ 11)
    (hmin : -2147483648 ≤ msqid) (hmax : msqid ≤ 2147483647) (hlast : last.length ≤ 32) :
    (spawnText role program groupName mcastIp mcastPort msqid last).length < cmdSize := by
  have hport := mcastPort.toNat_lt
  have hportLen := length_decimal_le (n := mcastPort.toNat) (k := 5) (by decide) (by omega)
  have hidLen := length_signedDecimal_le (n := msqid) (k := 10) (by decide) (by omega)
  simp only [CStr.length, chatMaxGroupnameLen] at hgroup hlast
  simp only [spawnText, cmdSize, List.length_append,
    show (literal "gnome-terminal --title='").length = 24 from rfl,
    show (literal " (").length = 2 from rfl, show (literal ")' -- ./bin/").length = 12 from rfl,
    show (literal " ").length = 1 from rfl, show (literal " '").length = 2 from rfl,
    show (literal "' &").length = 3 from rfl]
  omega

theorem spawnCommand_eq
    (h : (spawnText role program groupName mcastIp mcastPort msqid last).length < cmdSize) :
    ClientGroupsMng.spawnCommand role program groupName mcastIp mcastPort msqid last =
      spawnText role program groupName mcastIp mcastPort msqid last :=
  List.take_of_length_le (Nat.le_sub_one_of_lt h)

end Spawn

/-! ## The two windows of a join -/

section Join

variable {group username : CStr} {i : Nat} {msqid : Int}

/-- **The spawn commands.**  For every group name and username within their limits, every address of
the pool, every port and every queue id, both command lines fit into `cmd`; and the shell runs the
two programs that are meant, and nothing else, exactly when neither name has a single quote in
it. -/
theorem spawn_commands_iff (hgroup : group.length ≤ chatMaxGroupnameLen)
    (huser : username.length ≤ chatMaxUsernameLen) (hi : i ≤ 255) (port : UInt16)
    (hmin : -2147483648 ≤ msqid) (hmax : msqid ≤ 2147483647) :
    (spawnText "sender" "chat_sender" group (mcastPair i).ip port msqid username).length < cmdSize ∧
      (spawnText "receiver" "chat_receiver" group (mcastPair i).ip port msqid group).length <
        cmdSize ∧
      (RunsOnly (ClientGroupsMng.senderCommand group (mcastPair i).ip port msqid username)
            (spawnWords "sender" "chat_sender" group (mcastPair i).ip port msqid username) ∧
          RunsOnly (ClientGroupsMng.receiverCommand group (mcastPair i).ip port msqid)
            (spawnWords "receiver" "chat_receiver" group (mcastPair i).ip port msqid group) ↔
        39 ∉ group.bytes ∧ 39 ∉ username.bytes) := by
  have hne : (mcastPair i).ip.bytes ≠ [] := by
    rw [bytes_mcastPair]
    exact List.append_ne_nil_of_right_ne_nil _ (decimal_ne_nil i)
  have hsender : (spawnText "sender" "chat_sender" group (mcastPair i).ip port msqid
      username).length < cmdSize :=
    length_spawnText_lt (by decide) (by decide) hgroup (length_ip_le hi) hmin hmax huser
  have hreceiver : (spawnText "receiver" "chat_receiver" group (mcastPair i).ip port msqid
      group).length < cmdSize :=
    length_spawnText_lt (by decide) (by decide) hgroup (length_ip_le hi) hmin hmax hgroup
  refine ⟨hsender, hreceiver, ?_⟩
  rw [ClientGroupsMng.senderCommand, ClientGroupsMng.receiverCommand, spawnCommand_eq hsender,
    spawnCommand_eq hreceiver,
    runsOnly_spawnText_iff (by decide) (Shell.plain_of_all (by decide)) (fun _ => plain_of_mem_ip)
      hne,
    runsOnly_spawnText_iff (by decide) (Shell.plain_of_all (by decide)) (fun _ => plain_of_mem_ip)
      hne]
  exact ⟨fun h => h.1, fun h => ⟨h, h.1, h.1⟩⟩

end Join

/-- The group `fish & chips`. -/
def fishAndChips : CStr := ⟨[102, 105, 115, 104, 32, 38, 32, 99, 104, 105, 112, 115], by decide⟩

/-- The user `$HOME;`. -/
def awkwardUser : CStr := ⟨[36, 72, 79, 77, 69, 59], by decide⟩

/-- Spaces, dollar signs and operators in the names do no harm. -/
theorem spawn_commands_iff_awkward :
    (spawnText "sender" "chat_sender" fishAndChips (mcastPair 255).ip 6000 (-1)
        awkwardUser).length < cmdSize ∧
      RunsOnly (ClientGroupsMng.senderCommand fishAndChips (mcastPair 255).ip 6000 (-1) awkwardUser)
        (spawnWords "sender" "chat_sender" fishAndChips (mcastPair 255).ip 6000 (-1) awkwardUser) ∧
      RunsOnly (ClientGroupsMng.receiverCommand fishAndChips (mcastPair 255).ip 6000 (-1))
        (spawnWords "receiver" "chat_receiver" fishAndChips (mcastPair 255).ip 6000 (-1)
          fishAndChips) := by
  have hgroup : fishAndChips.length ≤ chatMaxGroupnameLen := by decide
  have huser : awkwardUser.length ≤ chatMaxUsernameLen := by decide
  have hmin : -2147483648 ≤ (-1 : Int) := by decide
  obtain ⟨hlen, -, hiff⟩ :=
    spawn_commands_iff hgroup huser (Nat.le_refl 255) 6000 hmin (by decide)
  exact ⟨hlen, hiff.mpr ⟨by decide, by decide⟩⟩

/-- The group `x';y;'`. -/
def quotedName : CStr := ⟨[120, 39, 59, 121, 59, 39], by decide⟩

/-- User `u` with password `p` is registered and logs in, on socket 5. -/
def enterUser : List ServerMng.Event :=
  [.message 5 [1, 4, 1, 117, 1, 112] [], .message 5 [3, 4, 1, 117, 1, 112] []]

/-- The server lets a user create the group `x';y;'`, and the client then has the shell run `y`. -/
theorem quoted_name_runs_more :
    (∃ s₀, ServerMng.init [] = some s₀ ∧
      ((s₀.run enterUser).handleMessage 5 (7 :: 7 :: 6 :: quotedName.bytes) []).2.2 =
        [(5, [8, 14, 0] ++ 9 :: (mcastPair 1).ip.bytes ++ [2, 23, 112])]) ∧
      Shell.split (ClientGroupsMng.senderCommand quotedName (mcastPair 1).ip 6000 7
          ⟨[117], by decide⟩) =
        some [.word (literal "gnome-terminal"), .word (literal "--title=x"), .operator 59,
          .word (literal "y"), .operator 59, .word (literal " (sender)"), .word (literal "--"),
          .word (literal "./bin/chat_sender"), .word (literal "239.1.1.1"), .word (literal "6000"),
          .word (literal "7"), .word (literal "u"), .operator 38] ∧
      ¬ RunsOnly (ClientGroupsMng.senderCommand quotedName (mcastPair 1).ip 6000 7
          ⟨[117], by decide⟩)
        (spawnWords "sender" "chat_sender" quotedName (mcastPair 1).ip 6000 7
          ⟨[117], by decide⟩) := by
  refine ⟨?_, by decide +kernel, by decide +kernel⟩
  have hinit : ((ServerMng.init []).map fun s₀ =>
      ((s₀.run enterUser).handleMessage 5 (7 :: 7 :: 6 :: quotedName.bytes) []).2.2) =
      some [(5, [8, 14, 0] ++ 9 :: (mcastPair 1).ip.bytes ++ [2, 23, 112])] := by decide +kernel
  exact Option.map_eq_some_iff.mp hinit

end ChatProject
