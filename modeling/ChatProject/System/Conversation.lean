import ChatProject.System.CommandLog
import ChatProject.System.Windows

/-!
# What is said in a group

From the keyboard of one user to the screen of another: what is typed into a window of `chat_sender`
is printed by a window of `chat_receiver` if the clients that have opened them are in the same
group, and otherwise it is not.

* `HasWindow` — a client has opened a window in which a program runs with these arguments.
* `Watched.hasSender`, `Watched.hasReceiver` — the two windows of a client that is in a group.
* `Network.said_in_group` — what the one sends and the other prints.
-/

set_option autoImplicit false

namespace ChatProject

open Lines ServerMng

/-! ## One window and another -/

section
variable {i j : Nat} {port : UInt16}

/-- The addresses of the pool are different as addresses, not only as texts. -/
theorem fillRange_inj (hi : i ∈ fillRange) (hj : j ∈ fillRange) :
    (⟨[239, 1, 1, UInt8.ofNat i], port⟩ : SocketAddr) = ⟨[239, 1, 1, UInt8.ofNat j], port⟩ ↔
      i = j := by
  rw [fillRange, List.mem_range'_1] at hi hj
  constructor
  · intro h
    have hbyte : UInt8.ofNat i = UInt8.ofNat j := by
      simpa using congrArg SocketAddr.ip h
    have hnat := congrArg UInt8.toNat hbyte
    rw [toNat_ofNat_of_le (by omega), toNat_ofNat_of_le (by omega)] at hnat
    exact hnat
  · rintro rfl
    rfl

/-- Nothing goes wrong in a `chat_sender`: no call fails, and what is typed into it are lines that
fit its buffer. -/
structure ChatSender.Smooth (k : StartAnswers) (rounds : Nat) (sends : List Bool)
    (stdin : List UInt8) : Prop where
  start : 0 ≤ k.socket ∧ 0 ≤ k.ttl ∧ 0 ≤ k.iface
  sends : false ∉ sends
  rounds : stdin.length < rounds
  noNul : 0 ∉ stdin
  short : ∀ l ∈ all newline stdin, l.length < maxLine

/-- The `chat_sender` of a user sends line by line, with the user's name in front. -/
theorem ChatSender.main_windowArgv {k : StartAnswers} {rounds : Nat} {sends : List Bool}
    {stdin : List UInt8} (h : Smooth k rounds sends stdin) (hi : i ∈ fillRange) (hport : port ≠ 0)
    {msqid : Int} {n : CStr} (hne : n ≠ .empty) (hn : n.length ≤ chatMaxUsernameLen) :
    main k (windowArgv (mcastPair i).ip port msqid n) rounds sends stdin =
      some ((all newline stdin).map fun l =>
        (⟨[239, 1, 1, UInt8.ofNat i], port⟩, attributed n l)) := by
  have hname : ChatSender.username (some n) = some n := by
    rw [ChatSender.username, Option.filter_some, if_pos]
    rwa [decide_eq_true_eq]
  obtain ⟨sent, hsent, hlines⟩ := sendLoop_spec (Nat.lt_succ_of_le hn) h.sends h.noNul h.rounds
  rw [main, start_windowArgv h.start hi hport]
  simp only [hname, hsent, Option.map_some, hlines.mpr h.short, List.map_map]
  rfl

/-- The `chat_receiver` of a group prints what is sent to its address. -/
theorem ChatReceiver.main_windowArgv {k : StartAnswers}
    (hk : 0 ≤ k.socket ∧ 0 ≤ k.reuse ∧ 0 ≤ k.bind ∧ 0 ≤ k.membership) (hi : i ∈ fillRange)
    (hport : port ≠ 0) {msqid : Int} {g : CStr} (arrived : List (SocketAddr × List UInt8)) :
    main k (windowArgv (mcastPair i).ip port msqid g) arrived =
      ((arrived.filter (·.1 = ⟨[239, 1, 1, UInt8.ofNat i], port⟩)).map
        fun d => printed d.2).flatten := by
  rw [main, start_windowArgv hk hi hport]

/-- A line of a user is printed as it was sent. -/
theorem printed_attributed {n : CStr} (hn : n.length ≤ chatMaxUsernameLen) {l : List UInt8}
    (h0 : 0 ∉ l) (hl : l.length < ChatSender.maxLine) :
    ChatReceiver.printed (ChatSender.attributed n l) = ChatSender.attributed n l := by
  refine ChatReceiver.printed_eq (s := ChatSender.whole n ⟨l, h0⟩) ?_
  have hline : (⟨l, h0⟩ : CStr).bytes.length < 1024 := hl
  rw [CStr.length, ChatSender.whole, ChatSender.length_attributed, ChatReceiver.maxDgram]
  rw [chatMaxUsernameLen] at hn
  omega

end

/-! ## The theorem -/

section
variable {κ ε : Type}

/-- The client `k` has opened a window in which `program` runs with the arguments `argv`. -/
def HasWindow (N : Network κ (ε × List (List UInt8))) (k : κ) (program : List UInt8)
    (argv : List CStr) : Prop :=
  ∃ line ∈ (N.peers k).desktop.2, Opens line program argv

/-- `k` is in the group `g`, and says there as `n` what it says: names that the shell leaves
alone. -/
structure Speaks (seen : List (Note κ)) (k : κ) (g n : CStr) : Prop where
  group : ∃ q, InGroup seen k g q
  user : LoggedIn seen k n
  named : n ≠ .empty
  quote : 39 ∉ g.bytes
  quote' : 39 ∉ n.bytes

variable {os : Desktop ε} {msqid : κ → Int} {seen : List (Note κ)}
  {N : Network κ (ε × List (List UInt8))} {A : Atomic κ} {k : κ} {g n : CStr} {q : McastPair}

/-- What a client has been told of a group. -/
theorem Watched.told (h : Watched os msqid seen N A) (hg : InGroup seen k g q) :
    g.length ≤ chatMaxGroupnameLen ∧ q ∈ mcastFill ∧ A.chat.held g = some q := by
  obtain ⟨s, hs, hv⟩ := h.informed.sound.backed
  obtain ⟨-, _, _, -, ⟨_, -, -, hheld⟩, -⟩ := (h.informed.knows k).group hg
  obtain ⟨before, x, after, rfl, ⟨r, hr, rfl⟩, -⟩ := hg
  have hfits : r.Fits := h.fits (List.mem_append_right _ List.mem_cons_self)
  refine ⟨?_, (hv ▸ hs.addresses).held_mem hheld, hheld⟩
  rcases Request.enters_eq_some_iff.mp hr with rfl | rfl <;> exact hfits

theorem Watched.length_username (h : Watched os msqid seen N A) (hn : LoggedIn seen k n) :
    n.length ≤ chatMaxUsernameLen := by
  obtain ⟨before, x, after, rfl, ⟨p, addr, rfl⟩, -⟩ := hn
  have hfits : (Request.login n p).Fits := h.fits (List.mem_append_right _ List.mem_cons_self)
  exact hfits.1

/-- **The window that sends.** -/
theorem Watched.hasSender (h : Watched os msqid seen N A) (hmin : -2147483648 ≤ msqid k)
    (hmax : msqid k ≤ 2147483647) (hm : Speaks seen k g n) :
    ∃ i, i ∈ fillRange ∧ A.chat.held g = some (mcastPair i) ∧
      HasWindow N k (literal "./bin/chat_sender")
        (windowArgv (mcastPair i).ip chatMcastBasePort (msqid k) n) := by
  obtain ⟨q, hg⟩ := hm.group
  obtain ⟨hlen, hq, hheld⟩ := h.told hg
  obtain ⟨i, hi, rfl⟩ := List.mem_map.mp hq
  have hle : i ≤ 255 := by
    rw [fillRange, List.mem_range'_1] at hi
    omega
  exact ⟨i, hi, hheld, _, (h.opened k).sender hg hm.user,
    opens_sender hlen (h.length_username hm.user) hle hmin hmax hm.quote hm.quote'⟩

/-- **The window that receives.** -/
theorem Watched.hasReceiver (h : Watched os msqid seen N A)
    (hos : ∀ line e, (os.system line e).1 = 0) (hmin : -2147483648 ≤ msqid k)
    (hmax : msqid k ≤ 2147483647) (hg : InGroup seen k g q) (hquote : 39 ∉ g.bytes) :
    ∃ i, i ∈ fillRange ∧ A.chat.held g = some (mcastPair i) ∧
      HasWindow N k (literal "./bin/chat_receiver")
        (windowArgv (mcastPair i).ip chatMcastBasePort (msqid k) g) := by
  obtain ⟨hlen, hq, hheld⟩ := h.told hg
  obtain ⟨i, hi, rfl⟩ := List.mem_map.mp hq
  have hle : i ≤ 255 := by
    rw [fillRange, List.mem_range'_1] at hi
    omega
  exact ⟨i, hi, hheld, _, (h.opened k).receiver hos hg, opens_receiver hlen hle hmin hmax hquote⟩

/-- Two groups have two addresses. -/
theorem Watched.address_inj (h : Watched os msqid seen N A) {g' : CStr} {i j : Nat}
    (hi : i ∈ fillRange) (hg : A.chat.held g = some (mcastPair i)) (hj : j ∈ fillRange)
    (hg' : A.chat.held g' = some (mcastPair j)) {port : UInt16} :
    (⟨[239, 1, 1, UInt8.ofNat i], port⟩ : SocketAddr) = ⟨[239, 1, 1, UInt8.ofNat j], port⟩ ↔
      g = g' := by
  obtain ⟨s, hs, hv⟩ := h.informed.sound.backed
  have howned := hv ▸ hs.addresses
  rw [fillRange_inj hi hj]
  constructor
  · rintro rfl
    exact howned.held_inj hg hg'
  · rintro rfl
    have hpair : mcastPair i = mcastPair j := Option.some.inj (hg.symm.trans hg')
    exact List.inj_on_of_nodup_map nodup_mcastFill hi hj hpair

end

/-- What members of groups say, and what of it the window of a group prints. -/
theorem ChatReceiver.main_of_voices {ι : Type} {i : ι → Nat} {j : Nat} {g n : ι → CStr} {g' : CStr}
    {port : UInt16} (hj : j ∈ fillRange) (hport : port ≠ 0)
    (haddr : ∀ v, (⟨[239, 1, 1, UInt8.ofNat (i v)], port⟩ : SocketAddr) =
      ⟨[239, 1, 1, UInt8.ofNat j], port⟩ ↔ g v = g')
    (hn : ∀ v, (n v).length ≤ chatMaxUsernameLen) {k : StartAnswers}
    (hk : 0 ≤ k.socket ∧ 0 ≤ k.reuse ∧ 0 ≤ k.bind ∧ 0 ≤ k.membership) {msqid : Int}
    {stdin : ι → List UInt8} (h0 : ∀ v, 0 ∉ stdin v)
    (hshort : ∀ v, ∀ l ∈ all newline (stdin v), l.length < ChatSender.maxLine)
    {arrived : List (ι × SocketAddr × List UInt8)}
    (hfrom : ∀ x ∈ arrived, x.2 ∈ (all newline (stdin x.1)).map fun l =>
      ((⟨[239, 1, 1, UInt8.ofNat (i x.1)], port⟩ : SocketAddr), ChatSender.attributed (n x.1) l)) :
    main k (windowArgv (mcastPair j).ip port msqid g') (arrived.map Prod.snd) =
      ((arrived.filter fun x => g x.1 = g').map fun x => x.2.2).flatten := by
  rw [main_windowArgv hk hj hport]
  congr 1
  induction arrived with
  | nil => rfl
  | cons x arrived ih =>
    have hrest := ih fun y hy => hfrom y (List.mem_cons_of_mem _ hy)
    obtain ⟨l, hl, hx⟩ := List.mem_map.mp (hfrom x List.mem_cons_self)
    have hline : 0 ∉ l := fun hmem =>
      h0 x.1 (flatten_all newline (stdin x.1) ▸ List.mem_flatten_of_mem hl hmem)
    have hprinted : printed x.2.2 = x.2.2 := by
      rw [← hx]
      exact printed_attributed (hn x.1) hline (hshort x.1 l hl)
    have hto : x.2.1 = ⟨[239, 1, 1, UInt8.ofNat j], port⟩ ↔ g x.1 = g' := by
      rw [← hx]
      exact haddr x.1
    rw [List.map_cons]
    by_cases hg : g x.1 = g'
    · rw [List.filter_cons_of_pos (by simpa using hto.mpr hg),
        List.filter_cons_of_pos (by simpa using hg), List.map_cons, List.map_cons, hprinted, hrest]
    · rw [List.filter_cons_of_neg (by simpa using fun h => hg (hto.mp h)),
        List.filter_cons_of_neg (by simpa using hg), hrest]

namespace Network

section
variable {κ ε : Type} [DecidableEq κ] {al al' : Alloc} {mng : ServerMng}
  (hmng : ServerMng.init al = some mng) {listenFd : Int} (h0 : 0 ≤ listenFd) {opened : FdSet}
  (hopen : opened listenFd = true) {net : ServerNet}
  (hnet : ServerNet.create al' listenFd opened = some net) {os : Desktop ε}
  (hos : ∀ line e, (os.system line e).1 = 0) {N₀ N : Network κ (ε × List (List UInt8))}
  (h₀ : N₀.Initial net mng) (hlog : ∀ k, (N₀.peers k).desktop.2 = [])
  (hqueue : ∀ k, -2147483648 ≤ (N₀.peers k).client.groups.msqid ∧
    (N₀.peers k).client.groups.msqid ≤ 2147483647)
  {seen : List (Note κ)} (hr : Runs (Next os.recorded) N₀ seen N)
include hmng h0 hopen hnet hos h₀ hlog hqueue hr

/-- **What is said in a group.**  In every run of the network in which no command of a client fails,
let any number of clients be in groups, each under its name.  Each of them has opened a window of
`chat_sender` for its group, and a client that is in a group has opened one of `chat_receiver`.  If
no call of theirs fails, every line that is typed into the former goes out with the name of the
user in front; and of the datagrams that reach the host of the latter, whichever they are and
whatever their order, it prints those from the windows of its own group, as they were sent, and no
others. -/
theorem said_in_group {ι : Type} {voice : ι → κ} {g n : ι → CStr}
    (hm : ∀ v, Speaks seen (voice v) (g v) (n v)) {k : κ} {g' : CStr} {q : McastPair}
    (hg' : InGroup seen k g' q) (hquote : 39 ∉ g'.bytes) :
    ∃ (argv : ι → List CStr) (argv' : List CStr),
      (∀ v, HasWindow N (voice v) (literal "./bin/chat_sender") (argv v)) ∧
      HasWindow N k (literal "./bin/chat_receiver") argv' ∧
      ∀ {ans : ι → ChatSender.StartAnswers} {rounds : ι → Nat} {sends : ι → List Bool}
        {stdin : ι → List UInt8},
        (∀ v, ChatSender.Smooth (ans v) (rounds v) (sends v) (stdin v)) →
        ∃ sent : ι → List (SocketAddr × List UInt8),
          (∀ v, ChatSender.main (ans v) (argv v) (rounds v) (sends v) (stdin v) = some (sent v) ∧
            (sent v).map Prod.snd = (all newline (stdin v)).map (ChatSender.attributed (n v))) ∧
          ∀ {ans' : ChatReceiver.StartAnswers} {arrived : List (ι × SocketAddr × List UInt8)},
            0 ≤ ans'.socket ∧ 0 ≤ ans'.reuse ∧ 0 ≤ ans'.bind ∧ 0 ≤ ans'.membership →
            (∀ x ∈ arrived, x.2 ∈ sent x.1) →
            ChatReceiver.main ans' argv' (arrived.map Prod.snd) =
              ((arrived.filter fun x => g x.1 = g').map fun x => x.2.2).flatten := by
  obtain ⟨A, hA⟩ := watched hmng h0 hopen hnet os h₀ hlog hr
  have hsender := fun v => hA.hasSender (hqueue (voice v)).1 (hqueue (voice v)).2 (hm v)
  choose i hi hheld hwindow using hsender
  obtain ⟨j, hj, hheld', hwindow'⟩ :=
    hA.hasReceiver hos (hqueue k).1 (hqueue k).2 hg' hquote
  have hport : chatMcastBasePort ≠ 0 := by decide
  refine ⟨_, _, hwindow, hwindow', fun {_ _ _ stdin} hs => ⟨fun v => (all newline (stdin v)).map
    fun l => (⟨[239, 1, 1, UInt8.ofNat (i v)], chatMcastBasePort⟩, ChatSender.attributed (n v) l),
    fun v => ⟨?_, ?_⟩, fun hk hfrom => ?_⟩⟩
  · exact ChatSender.main_windowArgv (hs v) (hi v) hport (hm v).named
      (hA.length_username (hm v).user)
  · rw [List.map_map]
    rfl
  · exact ChatReceiver.main_of_voices hj hport
      (fun v => hA.address_inj (hi v) (hheld v) hj hheld') (fun v => hA.length_username (hm v).user)
      hk (fun v => (hs v).noNul) (fun v => (hs v).short) hfrom

end

end Network

/-- The first of the two that have met says `hi`, and the second one reads it. -/
theorem Network.said_in_group_meeting :
    ∃ (N : Network Nat (Unit × List (List UInt8))) (argv argv' : List CStr)
      (sent : List (SocketAddr × List UInt8)),
      HasWindow N 0 (literal "./bin/chat_sender") argv ∧
      HasWindow N 1 (literal "./bin/chat_receiver") argv' ∧
      ChatSender.main ⟨3, 0, 0⟩ argv 9 [] [104, 105, newline] = some sent ∧
      ChatReceiver.main ⟨3, 0, 0, 0⟩ argv' sent = [97, 58, 32, 104, 105, newline] := by
  obtain ⟨mng, N, hmng, hruns⟩ := meeting_recorded
  have hm : Speaks meetingSeen 0 (letter 103) (letter 97) :=
    ⟨⟨_, inGroup_meeting.1⟩, loggedIn_meeting.1, by decide, by decide, by decide⟩
  obtain ⟨argv, argv', hwindow, hwindow', hsaid⟩ := said_in_group hmng
    (show (0 : Int) ≤ 3 by decide) lobby_opened.1 lobby_opened.2 (fun _ _ => rfl)
    (desks_initial mng) (fun _ => rfl)
    (fun _ => ⟨show -2147483648 ≤ (7 : Int) by decide, show (7 : Int) ≤ 2147483647 by decide⟩) hruns
    (fun _ : Unit => hm) inGroup_meeting.2 (show 39 ∉ (letter 103).bytes by decide)
  have hsmooth : ChatSender.Smooth ⟨3, 0, 0⟩ 9 [] [104, 105, newline] :=
    ⟨by decide, by decide, by decide, by decide, by decide⟩
  obtain ⟨sent, hsent, hprinted⟩ := hsaid fun _ => hsmooth
  obtain ⟨hmain, hlines⟩ := hsent ()
  refine ⟨N, argv (), argv', sent (), hwindow (), hwindow', hmain, ?_⟩
  have hall : (sent ()).map Prod.snd = [[97, 58, 32, 104, 105, newline]] := hlines.trans (by decide)
  have hfrom : ∀ x ∈ (sent ()).map fun d => ((), d), x.2 ∈ sent x.1 := by
    intro x hx
    obtain ⟨d, hd, rfl⟩ := List.mem_map.mp hx
    exact hd
  have h := @hprinted ⟨3, 0, 0, 0⟩ _ (by decide) hfrom
  rw [List.filter_eq_self.mpr fun _ _ => decide_eq_true rfl, List.map_map, List.map_map] at h
  exact (congrArg _ (List.map_id _).symm).trans (h.trans (congrArg List.flatten hall))

end ChatProject
