import ChatProject.System.Attribution

/-!
# What a client's entries name

Two runs of the host are looked at.  In the first there is one client, with a queue that nobody else
uses, and `system`, `calloc` and the list may fail it.  In the second any number of clients start
and end, and nothing fails.

* `windows_attributed` — one client: its entries name the windows of the joins that made them, a
  leave closes these, and a clear closes every window there has been, as long as no join is
  abandoned between opening a window and getting its message.  `abandoned_join_misattributes` has a
  join whose second `system` fails, and what the next one makes of it.
* `clients_separate` — many clients: no two have the same queue, entries name the client's own
  windows, and a client that ends takes nobody else's queue with it, as long as the low bytes of the
  process ids differ.  `low_byte_shared` has clients 1 and 257.
-/

set_option autoImplicit false

namespace ChatProject

namespace HostEvent

/-- A step of this client, or of a window. -/
def By (c : Nat) : HostEvent → Prop
  | .create _ _ _ => False
  | .join c' _ _ _ _ | .spawned c' _ | .allocated c' _ | .received c' | .leave c' _ | .clear c'
  | .destroy c' => c' = c
  | .report _ => True

/-- No call fails in this step. -/
def Succeeds : HostEvent → Prop
  | .create _ _ listed => listed = true
  | .spawned _ pid => pid.isSome = true
  | .allocated _ ok => ok = true
  | _ => True

instance (c : Nat) : DecidablePred (By c)
  | .create _ _ _ => isFalse not_false
  | .join c' _ _ _ _ | .spawned c' _ | .allocated c' _ | .received c' | .leave c' _ | .clear c'
  | .destroy c' => inferInstanceAs (Decidable (c' = c))
  | .report _ => isTrue trivial

theorem By.ne_create {c : Nat} {e : HostEvent} (h : e.By c) (c' : Nat) (fresh : Int)
    (listed : Bool) : e ≠ .create c' fresh listed := by
  rintro rfl
  exact h

theorem Succeeds.not_lateFailure {e : HostEvent} (he : e.Succeeds) (h : Host) :
    ¬ h.LateFailure e := by
  intro hlate
  cases e with
  | spawned c pid =>
    cases pid with
    | none => exact absurd he (by simp [Succeeds])
    | some pid => exact hlate
  | allocated c ok =>
    cases ok with
    | false => exact absurd he (by simp [Succeeds])
    | true => exact hlate
  | _ => exact hlate

end HostEvent

namespace Host

variable (ftok : Nat → Int)

/-! ## One client -/

/-- One client that has just been created, with the queue it has made. -/
def single (c : Nat) (msqid : Int) : Host :=
  { empty with
    clients := Function.update empty.clients c (some ⟨msqid, [], none⟩)
    queues := empty.queues ++ [(ftok (c % 256), msqid)] }

/-- The windows of a client are attributed to the right groups. -/
structure Attributed (h : Host) (c : Nat) : Prop where
  /-- An entry has the process ids of the two windows opened by the join that made it. -/
  entries : ∀ cl, h.clients c = some cl → ∀ f ∈ cl.groups, FiledOk h.opened c f
  /-- A leave signals the two windows of the group, and nothing else. -/
  leaving : ∀ cl groupName f, h.clients c = some cl → cl.call = none →
    (cl.groups.find? fun f => f.entry.name = groupName) = some f →
    ∃ s ∈ h.opened, ∃ r ∈ h.opened, s.call = f.call ∧ s.role = .sender ∧ r.call = f.call ∧
      r.role = .receiver ∧
      (step ftok h (.leave c groupName)).signalled = h.signalled ++ [s.pid, r.pid]
  /-- After a clear, or when the client has ended, every window there has been is signalled. -/
  clearing : ∀ cl, h.clients c = some cl → cl.call = none → ∀ w ∈ h.opened,
    w.pid ∈ (step ftok h (.clear c)).signalled ∧ w.pid ∈ (step ftok h (.destroy c)).signalled

variable {ftok} {h : Host} {c : Nat}

theorem inv_single {msqid : Int} (hmsqid : 0 ≤ msqid) : Inv ftok (single ftok c msqid) := by
  refine (inv_empty ftok).create rfl hmsqid ?_
  rintro ⟨q, hq, -⟩
  exact List.not_mem_nil hq

theorem whenIdle_eq {cl : HostClient} (hc : h.clients c = some cl) (hcl : cl.call = none)
    (f : HostClient → Host) : h.whenIdle c f = f cl := by
  obtain ⟨msqid, groups, call⟩ := cl
  obtain rfl : call = none := hcl
  rw [whenIdle, hc]

theorem settle_clients_of_ne {c' : Nat} (hne : c' ≠ c) (cl : HostClient) (n : Nat) (r : Resumed) :
    (h.settle c cl n r).clients c' = h.clients c' := by
  cases r <;> exact Function.update_of_ne hne ..

/-- What a client does leaves the others as they are. -/
theorem step_clients_of_ne {e : HostEvent} (he : e.By c) {c' : Nat} (hne : c' ≠ c) :
    (step ftok h e).clients c' = h.clients c' := by
  have hidle {f : HostClient → Host} (hf : ∀ cl, (f cl).clients c' = h.clients c') :
      (h.whenIdle c f).clients c' = h.clients c' :=
    whenIdle_cases (P := fun h' => h'.clients c' = h.clients c') rfl fun cl _ _ => hf cl
  have hjoining {f : HostClient → Nat → JoinCall → Host}
      (hf : ∀ cl n call, (f cl n call).clients c' = h.clients c') :
      (h.whenJoining c f).clients c' = h.clients c' :=
    whenJoining_cases (P := fun h' => h'.clients c' = h.clients c') rfl fun cl n call _ _ =>
      hf cl n call
  cases e with
  | create c₀ fresh listed => exact he.elim
  | join c₀ groupName mcastIp mcastPort username =>
    obtain rfl : c₀ = c := he
    refine hidle fun cl => ?_
    rw [join]
    split_ifs
    · rfl
    · exact Function.update_of_ne hne ..
  | spawned c₀ pid =>
    obtain rfl : c₀ = c := he
    refine hjoining fun cl n call => ?_
    rw [spawned]
    cases call.phase.spawns with
    | none => rfl
    | some role => cases pid <;> exact settle_clients_of_ne hne ..
  | allocated c₀ ok =>
    obtain rfl : c₀ = c := he
    refine hjoining fun cl n call => ?_
    rw [allocated]
    split_ifs
    · exact settle_clients_of_ne hne ..
    · rfl
  | received c₀ =>
    obtain rfl : c₀ = c := he
    refine hjoining fun cl n call => ?_
    rw [received]
    cases call.phase.receives with
    | none => rfl
    | some role =>
      simp only
      split_ifs
      · cases h.firstMessage cl.msqid role with
        | none => rfl
        | some w => exact settle_clients_of_ne hne ..
      · exact settle_clients_of_ne hne ..
  | leave c₀ groupName =>
    obtain rfl : c₀ = c := he
    refine hidle fun cl => ?_
    rw [leave]
    cases cl.groups.find? fun f => f.entry.name = groupName with
    | none => rfl
    | some f => exact Function.update_of_ne hne ..
  | clear c₀ =>
    obtain rfl : c₀ = c := he
    exact hidle fun cl => Function.update_of_ne hne ..
  | destroy c₀ =>
    obtain rfl : c₀ = c := he
    refine hidle fun cl => ?_
    rw [destroy]
    split_ifs <;> exact (Function.update_of_ne hne ..).trans (Function.update_of_ne hne ..)
  | report w =>
    rw [step, msgsnd]
    split_ifs <;> rfl

/-- There is no other client. -/
def Alone (h : Host) (c : Nat) : Prop := ∀ c', c' ≠ c → h.clients c' = none

theorem alone_single (msqid : Int) : (single ftok c msqid).Alone c :=
  fun _ hne => Function.update_of_ne hne ..

theorem Alone.step (hc : h.Alone c) {e : HostEvent} (he : e.By c) : (Host.step ftok h e).Alone c :=
  fun c' hne => (step_clients_of_ne he hne).trans (hc c' hne)

theorem Inv.signalled_of_clear (inv : Inv ftok h) (halone : h.Alone c) {cl : HostClient}
    (hc : h.clients c = some cl) (hcl : cl.call = none) {w : Window} (hw : w ∈ h.opened) :
    w.pid ∈ (h.clear c cl).signalled := by
  rcases (inv_clear inv hc).kept w hw with hsig | ⟨x, hx, hkeeps⟩
  · exact hsig
  · have hx : Function.update h.clients c (some { cl with groups := [] }) w.parent = some x := hx
    rcases eq_or_of_update hx with ⟨-, rfl⟩ | ⟨hne, hx⟩
    · rw [HostClient.Keeps, hcl] at hkeeps
      simp at hkeeps
    · exact absurd ((halone w.parent hne).symm.trans hx) (by simp)

theorem Inv.attributed (inv : Inv ftok h) (halone : h.Alone c) : Attributed ftok h c := by
  refine ⟨fun cl hc => inv.filed hc, ?_, ?_⟩
  · intro cl groupName f hc hcl hfind
    have hfiled := inv.filed hc f (List.mem_of_find?_eq_some hfind)
    have hsignals := hfiled.signals_eq
    obtain ⟨s, hs, -, hscall, hsrole, hspid⟩ := hfiled.sender
    obtain ⟨r, hr, -, hrcall, hrrole, hrpid⟩ := hfiled.receiver
    refine ⟨s, hs, r, hr, hscall, hsrole, hrcall, hrrole, ?_⟩
    rw [step, whenIdle_eq hc hcl, leave, hfind, hspid, hrpid, ← hsignals]
    rfl
  · intro cl hc hcl w hw
    have hclear := inv.signalled_of_clear halone hc hcl hw
    refine ⟨?_, ?_⟩
    · rw [step, whenIdle_eq hc hcl]
      exact hclear
    · rw [step, whenIdle_eq hc hcl, destroy, if_pos (inv.queue hc).1]
      exact hclear

/-- **One client and its windows.**  Whatever the client does and whatever fails it, and in whatever
order the messages of its windows arrive: its windows are attributed to the right groups, as long as
in no join the second `system` or the `calloc` fails. -/
theorem windows_attributed {msqid : Int} (hmsqid : 0 ≤ msqid) {es : List HostEvent}
    (hes : Machine.Along (fun h e => (step ftok h e, ())) (fun h e => e.By c ∧ ¬ h.LateFailure e)
      (single ftok c msqid) es) :
    Attributed ftok ((single ftok c msqid).run ftok es) c := by
  have hrun : Inv ftok ((single ftok c msqid).run ftok es) ∧
      ((single ftok c msqid).run ftok es).Alone c :=
    Machine.run_invariant_along (P := fun h => Inv ftok h ∧ h.Alone c)
      (fun _ _ he hh => ⟨inv_step hh.1 he.1.ne_create he.2, hh.2.step he.1⟩) hes
      ⟨inv_single hmsqid, alone_single msqid⟩
  exact hrun.1.attributed hrun.2

/-- `ftok` for a file with inode 2 on device 8, for small ids. -/
def someFtok (id : Nat) : Int := id * 16777216 + 524290

/-- The windows of client 7, on queue 0. -/
def someWindow (pid : { pid : Int // 0 < pid }) (role : WindowRole) (call : Nat) : Window :=
  .withPid pid role 7 call 0

/-- Client 7 joins group `g`. -/
def joinG : HostEvent := .join 7 ⟨[103], by decide⟩ .empty 6000 .empty

/-- Client 7 joins group `k`. -/
def joinK : HostEvent := .join 7 ⟨[107], by decide⟩ .empty 6000 .empty

/-- A join of `g` whose first `system` fails, and one that goes well, with the messages of its
windows arriving in the wrong order. -/
def orderlyRun : List HostEvent :=
  [joinG, .spawned 7 none, joinG, .spawned 7 (some ⟨11, by decide⟩),
    .spawned 7 (some ⟨12, by decide⟩), .report (someWindow ⟨12, by decide⟩ .receiver 1),
    .allocated 7 true, .received 7, .report (someWindow ⟨11, by decide⟩ .sender 1), .received 7,
    .received 7, .allocated 7 true]

theorem windows_attributed_orderlyRun :
    Attributed someFtok ((single someFtok 7 0).run someFtok orderlyRun) 7 :=
  windows_attributed (by decide) (by decide)

/-- A join of `g` whose second `system` fails, and then one of `k`. -/
def abandonedRun : List HostEvent :=
  [joinG, .spawned 7 (some ⟨11, by decide⟩), .spawned 7 none, joinK,
    .spawned 7 (some ⟨12, by decide⟩), .spawned 7 (some ⟨13, by decide⟩),
    .report (someWindow ⟨11, by decide⟩ .sender 0), .report (someWindow ⟨12, by decide⟩ .sender 1),
    .report (someWindow ⟨13, by decide⟩ .receiver 1), .allocated 7 true, .received 7, .received 7,
    .allocated 7 true]

/-- The entry of `k` has the sender of `g`, 11, in place of its own, 12, which no clear will ever
signal. -/
theorem abandoned_join_misattributes :
    (∃ cl f, ((single someFtok 7 0).run someFtok abandonedRun).clients 7 = some cl ∧
      cl.groups = [f] ∧ f.call = 1 ∧ f.entry.senderPid = 11 ∧ f.entry.receiverPid = 13) ∧
      OpenedAs ((single someFtok 7 0).run someFtok abandonedRun).opened 7 1 .sender 12 ∧
      12 ∉ (step someFtok ((single someFtok 7 0).run someFtok abandonedRun) (.clear 7)).signalled ∧
      ¬ Attributed someFtok ((single someFtok 7 0).run someFtok abandonedRun) 7 := by
  have hcleared : 12 ∉
      (step someFtok ((single someFtok 7 0).run someFtok abandonedRun) (.clear 7)).signalled := by
    decide
  have hopened : someWindow ⟨12, by decide⟩ .sender 1 ∈
      ((single someFtok 7 0).run someFtok abandonedRun).opened := by decide
  refine ⟨⟨_, _, rfl, rfl, rfl, rfl, rfl⟩, ⟨_, hopened, rfl, rfl, rfl, rfl⟩, hcleared, fun h => ?_⟩
  exact hcleared (h.clearing _ rfl rfl _ hopened).1

/-! ## Many clients -/

/-- The low byte of a new client's process id is no other client's. -/
def OwnByte (h : Host) : HostEvent → Prop
  | .create c _ _ => ∀ c' cl', h.clients c' = some cl' → c' % 256 ≠ c % 256
  | _ => True

/-- The clients of a host do not get in each other's way. -/
structure Separate (ftok : Nat → Int) (h : Host) : Prop where
  /-- No two have the same queue. -/
  queues : ∀ c c' cl cl', h.clients c = some cl → h.clients c' = some cl' → c ≠ c' →
    cl.msqid ≠ cl'.msqid
  /-- The process ids in a client's entries are those of windows it has opened. -/
  pids : ∀ c cl, h.clients c = some cl → ∀ f ∈ cl.groups, FiledOk h.opened c f
  /-- When a client ends, the others still have their queues. -/
  ends : ∀ c c' cl', h.clients c' = some cl' → c' ≠ c →
    (step ftok h (.destroy c)).HasQueue cl'.msqid

theorem Inv.separate (inv : Inv ftok h) : Separate ftok h := by
  refine ⟨fun c c' cl cl' hc hc' hne heq => hne (inv.own hc hc' heq),
    fun c cl hc => inv.filed hc, ?_⟩
  intro c c' cl' hc' hne
  have hqueue : h.HasQueue cl'.msqid := ⟨_, (inv.queue hc').2, rfl⟩
  refine whenIdle_cases (P := fun h' => h'.HasQueue cl'.msqid) hqueue fun cl hc _ => ?_
  rw [destroy, if_pos (inv.queue hc).1]
  refine ⟨_, List.mem_filter.mpr ⟨(inv.queue hc').2, decide_eq_true fun heq => ?_⟩, rfl⟩
  exact hne (inv.own hc' hc heq)

/-- **Clients on one host.**  Any number of clients start, join, leave and end, in any order and
with their windows' messages arriving at any time, and no call fails: they do not get in each
other's way, as long as the process ids of those that are alive together differ in their low
bytes. -/
theorem clients_separate (hftok : ∀ a b, a < 256 → b < 256 → ftok a = ftok b → a = b)
    {es : List HostEvent}
    (hes : Machine.Along (fun h e => (step ftok h e, ())) (fun h e => e.Succeeds ∧ h.OwnByte e)
      empty es) :
    Separate ftok (empty.run ftok es) := by
  have hinv : Inv ftok (empty.run ftok es) := by
    refine Machine.run_invariant_along (P := Inv ftok) (fun h e he inv => ?_) hes (inv_empty ftok)
    by_cases hcreate : ∃ c fresh listed, e = .create c fresh listed
    · obtain ⟨c, fresh, listed, rfl⟩ := hcreate
      obtain ⟨rfl, hbyte⟩ := he
      exact inv_step_create hftok inv hbyte fresh
    · exact inv_step inv (fun c fresh listed heq => hcreate ⟨c, fresh, listed, heq⟩)
        (he.1.not_lateFailure h)
  exact hinv.separate

/-- Clients 7 and 8 start, and 7 joins a group. -/
def twoClients : List HostEvent :=
  [.create 7 0 true, .create 8 1 true, joinG, .spawned 7 (some ⟨11, by decide⟩),
    .spawned 7 (some ⟨12, by decide⟩), .report (someWindow ⟨12, by decide⟩ .receiver 0),
    .allocated 7 true, .report (someWindow ⟨11, by decide⟩ .sender 0), .received 7, .received 7,
    .allocated 7 true]

theorem clients_separate_twoClients : Separate someFtok (empty.run someFtok twoClients) := by
  refine clients_separate (fun a b _ _ heq => ?_) ⟨⟨rfl, ?_⟩, ⟨rfl, ?_⟩, ?_⟩
  · rw [someFtok, someFtok] at heq
    omega
  · intro c' cl' hc'
    exact absurd hc' (by simp [empty])
  · intro c' cl' hc'
    rcases eq_or_of_update hc' with ⟨rfl, -⟩ | ⟨-, hc'⟩
    · decide
    · exact absurd hc' (by simp [empty])
  · simp [Machine.Along, HostEvent.Succeeds, OwnByte, joinG]

/-- Clients 1 and 257 start; 257 opens two windows, then 1 does, and the windows of 257 are the
first to send their messages. -/
def sharedRun : List HostEvent :=
  [.create 1 0 true, .create 257 1 true, .join 257 ⟨[103], by decide⟩ .empty 6000 .empty,
    .spawned 257 (some ⟨11, by decide⟩), .spawned 257 (some ⟨12, by decide⟩),
    .join 1 ⟨[103], by decide⟩ .empty 6000 .empty, .spawned 1 (some ⟨21, by decide⟩),
    .spawned 1 (some ⟨22, by decide⟩), .report ⟨11, by decide, .sender, 257, 0, 0⟩,
    .report ⟨12, by decide, .receiver, 257, 0, 0⟩, .allocated 1 true, .received 1, .received 1,
    .allocated 1 true, .report ⟨21, by decide, .sender, 1, 1, 0⟩,
    .report ⟨22, by decide, .receiver, 1, 1, 0⟩, .allocated 257 true, .received 257, .received 257,
    .allocated 257 true]

/-- Clients 1 and 257 have the same queue; the entry of 1 has the process ids of two windows that
257 has opened; and when 257 ends, 1 is left without a queue. -/
theorem low_byte_shared :
    (∀ e ∈ sharedRun, e.Succeeds) ∧
      (∃ cl cl' f, (empty.run someFtok sharedRun).clients 1 = some cl ∧
        (empty.run someFtok sharedRun).clients 257 = some cl' ∧ cl.msqid = cl'.msqid ∧
        cl.groups = [f] ∧
        OpenedAs (empty.run someFtok sharedRun).opened 257 0 .sender f.entry.senderPid ∧
        ¬ FiledOk (empty.run someFtok sharedRun).opened 1 f ∧
        ¬ (step someFtok (empty.run someFtok sharedRun) (.destroy 257)).HasQueue cl.msqid) ∧
      ¬ Separate someFtok (empty.run someFtok sharedRun) := by
  refine ⟨by simp [sharedRun, HostEvent.Succeeds], ?_, fun h => ?_⟩
  · refine ⟨_, _, _, rfl, rfl, rfl, rfl,
      ⟨⟨11, by decide, .sender, 257, 0, 0⟩, by decide, rfl, rfl, rfl, rfl⟩, ?_, by decide⟩
    rintro ⟨⟨w, hw, hparent, -, -, hpid⟩, -⟩
    revert w
    decide
  · exact h.queues 1 257 _ _ rfl rfl (by decide) rfl

end Host

end ChatProject
