import ChatProject.System.Host

/-!
# Whose window a process id is

A client learns the process ids of its windows from a queue, and takes the first message of the
right role for the one it waits for.  That this is the right one rests on two things: nobody else's
windows send to this queue, and no message is left on it by an earlier join.

* `Inv` — what holds between any two steps: every message on its way is awaited by the join that
  opened the window, and every window that has been opened is in the hands of its client or has been
  signalled.
* `LateFailure` — the steps that do not keep it so: a join is abandoned after it has opened a
  window.  All others of a client or a window do (`inv_step`), and so does the start of a client
  whose process id has a low byte of its own (`inv_step_create`).
-/

set_option autoImplicit false

namespace ChatProject

/-! ## Windows and joins -/

/-- A window of this role is among those the join has opened. -/
def JoinPhase.Opened : JoinPhase → WindowRole → Prop
  | .spawnSender, _ => False
  | .spawnReceiver, role => role = .sender
  | _, _ => True

/-- The join has opened a window of this role, and has not got its message yet. -/
def JoinPhase.Awaits : JoinPhase → WindowRole → Prop
  | .spawnReceiver, role => role = .sender
  | .allocEntry, _ => True
  | .recvSender, _ => True
  | .recvReceiver _, role => role = .receiver
  | _, _ => False

/-- What holds of the process ids that the join has got. -/
def JoinPhase.Knows (P : WindowRole → Int → Prop) : JoinPhase → Prop
  | .recvReceiver senderPid => P .sender senderPid
  | .pushEntry senderPid receiverPid => P .sender senderPid ∧ P .receiver receiverPid
  | _ => True

/-- A window with this process id was opened in this role, by this join of this client. -/
def OpenedAs (opened : List Window) (c n : Nat) (role : WindowRole) (pid : Int) : Prop :=
  ∃ w ∈ opened, w.parent = c ∧ w.call = n ∧ w.role = role ∧ w.pid = pid

/-- The process ids in an entry are those of the two windows that the join which made the entry has
opened. -/
structure FiledOk (opened : List Window) (c : Nat) (f : Filed) : Prop where
  sender : OpenedAs opened c f.call .sender f.entry.senderPid
  receiver : OpenedAs opened c f.call .receiver f.entry.receiverPid

/-- A join that a client is in. -/
structure CallOk (opened : List Window) (calls c n : Nat) (call : JoinCall) : Prop where
  lt : n < calls
  mine : ∀ w ∈ opened, w.call = n → w.parent = c ∧ call.phase.Opened w.role
  knows : call.phase.Knows (OpenedAs opened c n)

/-- The client is in the join that opened the window, and waits for its message or will. -/
def HostClient.Expects (cl : HostClient) (w : Window) : Prop :=
  w.msqid = cl.msqid ∧ ∃ call, cl.call = some (w.call, call) ∧ call.phase.Awaits w.role

/-- The client has an entry from the join that opened the window, or is still in it. -/
def HostClient.Keeps (cl : HostClient) (w : Window) : Prop :=
  (∃ f ∈ cl.groups, f.call = w.call) ∨ ∃ call, cl.call = some (w.call, call)

/-- Two windows that are not the same one of the same join. -/
def Window.Apart (w w' : Window) : Prop := w.call = w'.call → w.role ≠ w'.role

theorem Window.Apart.symm {w w' : Window} (h : w.Apart w') : w'.Apart w :=
  fun hcall hrole => h hcall.symm hrole.symm

/-- A client is in one join at a time. -/
theorem HostClient.call_inj {cl : HostClient} {n n' : Nat} {call call' : JoinCall}
    (h : cl.call = some (n, call)) (h' : cl.call = some (n', call')) : n = n' ∧ call = call' := by
  rw [h, Option.some_inj, Prod.mk.injEq] at h'
  exact h'

/-- Going on with the join it is in, a client keeps the windows it has. -/
theorem HostClient.Keeps.resume {cl : HostClient} {n : Nat} {call : JoinCall} {w : Window}
    (h : cl.Keeps w) (hcl : cl.call = some (n, call)) (call' : JoinCall) :
    HostClient.Keeps { cl with call := some (n, call') } w := by
  rcases h with hfiled | ⟨call₀, hcall₀⟩
  · exact .inl hfiled
  · obtain ⟨rfl, -⟩ := HostClient.call_inj hcl hcall₀
    exact .inr ⟨call', rfl⟩

theorem OpenedAs.mono {opened opened' : List Window} (hsub : opened ⊆ opened') {c n : Nat}
    {role : WindowRole} {pid : Int} (h : OpenedAs opened c n role pid) :
    OpenedAs opened' c n role pid := by
  obtain ⟨w, hw, hrest⟩ := h
  exact ⟨w, hsub hw, hrest⟩

theorem FiledOk.mono {opened opened' : List Window} (hsub : opened ⊆ opened') {c : Nat} {f : Filed}
    (h : FiledOk opened c f) : FiledOk opened' c f :=
  ⟨h.sender.mono hsub, h.receiver.mono hsub⟩

theorem JoinPhase.Knows.mono {P Q : WindowRole → Int → Prop}
    (hPQ : ∀ role pid, P role pid → Q role pid) {phase : JoinPhase} (h : phase.Knows P) :
    phase.Knows Q := by
  cases phase with
  | recvReceiver senderPid => exact hPQ _ _ h
  | pushEntry senderPid receiverPid => exact ⟨hPQ _ _ h.1, hPQ _ _ h.2⟩
  | _ => trivial

/-- The windows of the join that made an entry are those the entry names. -/
theorem FiledOk.mem_signals {opened : List Window} {c : Nat} {f : Filed} (hf : FiledOk opened c f)
    (hsole : ∀ {w w'}, w ∈ opened → w' ∈ opened → w.call = w'.call → w.role = w'.role → w = w')
    {w : Window} (hw : w ∈ opened) (hcall : w.call = f.call) : w.pid ∈ f.entry.signals := by
  rw [GroupEntry.signals, List.mem_filter]
  refine ⟨?_, decide_eq_true w.pos⟩
  cases hrole : w.role with
  | sender =>
    obtain ⟨w', hw', -, hcall', hrole', hpid⟩ := hf.sender
    rw [hsole hw hw' (hcall.trans hcall'.symm) (hrole.trans hrole'.symm), hpid]
    exact List.mem_cons_self
  | receiver =>
    obtain ⟨w', hw', -, hcall', hrole', hpid⟩ := hf.receiver
    rw [hsole hw hw' (hcall.trans hcall'.symm) (hrole.trans hrole'.symm), hpid]
    exact List.mem_cons_of_mem _ List.mem_cons_self

/-- An entry's two process ids are positive, so both are signalled. -/
theorem FiledOk.signals_eq {opened : List Window} {c : Nat} {f : Filed} (hf : FiledOk opened c f) :
    f.entry.signals = [f.entry.senderPid, f.entry.receiverPid] := by
  obtain ⟨s, -, -, -, -, hs⟩ := hf.sender
  obtain ⟨r, -, -, -, -, hr⟩ := hf.receiver
  have hspos := s.pos
  have hrpos := r.pos
  rw [hs] at hspos
  rw [hr] at hrpos
  simp [GroupEntry.signals, hspos, hrpos]

/-! ## The invariant -/

namespace Host

section Invariant

variable (ftok : Nat → Int)

/-- **Between any two steps.** -/
structure Inv (h : Host) : Prop where
  /-- A client has a queue, under its own key. -/
  queue : ∀ {c cl}, h.clients c = some cl → 0 ≤ cl.msqid ∧ (ftok (c % 256), cl.msqid) ∈ h.queues
  /-- There are no other queues. -/
  held : ∀ q ∈ h.queues, ∃ c cl, h.clients c = some cl ∧ q = (ftok (c % 256), cl.msqid)
  /-- No two clients have the same one. -/
  own : ∀ {c c' cl cl'}, h.clients c = some cl → h.clients c' = some cl' → cl.msqid = cl'.msqid →
    c = c'
  /-- Every message on its way is expected. -/
  expected : ∀ w ∈ h.unsent ++ h.sent, w ∈ h.opened ∧
    ∃ cl, h.clients w.parent = some cl ∧ cl.Expects w
  /-- No two of them are for the same place. -/
  apart : (h.unsent ++ h.sent).Pairwise Window.Apart
  /-- A join opens one window of each role. -/
  sole : ∀ {w w'}, w ∈ h.opened → w' ∈ h.opened → w.call = w'.call → w.role = w'.role → w = w'
  /-- Joins to come have opened none. -/
  lt : ∀ w ∈ h.opened, w.call < h.calls
  /-- A join belongs to one client. -/
  serial : ∀ {c c' cl cl' n call call'}, h.clients c = some cl → h.clients c' = some cl' →
    cl.call = some (n, call) → cl'.call = some (n, call') → c = c'
  call : ∀ {c cl n call}, h.clients c = some cl → cl.call = some (n, call) →
    CallOk h.opened h.calls c n call
  filed : ∀ {c cl}, h.clients c = some cl → ∀ f ∈ cl.groups, FiledOk h.opened c f
  /-- No window is forgotten. -/
  kept : ∀ w ∈ h.opened, w.pid ∈ h.signalled ∨
    ∃ cl, h.clients w.parent = some cl ∧ cl.Keeps w

/-- Nothing has happened yet. -/
theorem inv_empty : Inv ftok empty where
  queue h := absurd h (by simp [empty])
  held q hq := absurd hq List.not_mem_nil
  own h := absurd h (by simp [empty])
  expected w hw := absurd hw List.not_mem_nil
  apart := List.Pairwise.nil
  sole hw := absurd hw List.not_mem_nil
  lt w hw := absurd hw List.not_mem_nil
  serial h := absurd h (by simp [empty])
  call h := absurd h (by simp [empty])
  filed h := absurd h (by simp [empty])
  kept w hw := absurd hw List.not_mem_nil

end Invariant

/-! ## One client goes on

Most steps change one client, and perhaps open a window, take a message off its way or send signals.
`Inv.update` says once what has to be checked for these. -/

section Update

variable {ftok : Nat → Int} {h : Host} {c : Nat} {cl cl' : HostClient}

/-- A client of the host after the change is the one that was changed, or an old one. -/
theorem eq_or_of_update {c' : Nat} {x : HostClient}
    (hx : Function.update h.clients c (some cl') c' = some x) :
    c' = c ∧ x = cl' ∨ c' ≠ c ∧ h.clients c' = some x := by
  by_cases hne : c' = c
  · subst hne
    rw [Function.update_self, Option.some_inj] at hx
    exact .inl ⟨rfl, hx.symm⟩
  · rw [Function.update_of_ne hne] at hx
    exact .inr ⟨hne, hx⟩

theorem Inv.update (inv : Inv ftok h) (hc : h.clients c = some cl) (cl' : HostClient)
    (hmsqid : cl'.msqid = cl.msqid) (new : List Window) {unsent sent : List Window}
    {signalled : List Int} {calls : Nat}
    (hway : ∀ w ∈ unsent ++ sent, (w ∈ h.unsent ++ h.sent ∨ w ∈ new) ∧
      (w.parent = c → cl'.Expects w))
    (hapart : (unsent ++ sent).Pairwise Window.Apart)
    (hnew : ∀ w ∈ new, w.parent = c ∧ ∃ call, cl'.call = some (w.call, call))
    (hsole : ∀ {w w'}, w ∈ h.opened ++ new → w' ∈ h.opened ++ new → w.call = w'.call →
      w.role = w'.role → w = w')
    (hsignalled : h.signalled ⊆ signalled) (hcalls : h.calls ≤ calls)
    (hcall : ∀ {n call}, cl'.call = some (n, call) →
      ((∃ call₀, cl.call = some (n, call₀)) ∨ n = h.calls) ∧
        CallOk (h.opened ++ new) calls c n call)
    (hfiled : ∀ f ∈ cl'.groups, FiledOk h.opened c f)
    (hkept : ∀ w ∈ h.opened, w.parent = c → cl.Keeps w → w.pid ∈ signalled ∨ cl'.Keeps w) :
    Inv ftok { h with
      clients := Function.update h.clients c (some cl')
      unsent, sent, signalled, calls
      opened := h.opened ++ new } := by
  -- another client cannot be in the same join
  have hother {c' : Nat} {x : HostClient} {n : Nat} {call call' : JoinCall} (hne : c' ≠ c)
      (hx : h.clients c' = some x) (hxcall : x.call = some (n, call'))
      (hn : cl'.call = some (n, call)) : False := by
    rcases (hcall hn).1 with ⟨call₀, hcall₀⟩ | rfl
    · exact hne (inv.serial hx hc hxcall hcall₀)
    · exact Nat.lt_irrefl _ (inv.call hx hxcall).lt
  refine
    { queue := ?_, held := ?_, own := ?_, expected := ?_, apart := hapart, sole := hsole,
      lt := ?_, serial := ?_, call := ?_, filed := ?_, kept := ?_ }
  · intro c' x hx
    rcases eq_or_of_update hx with ⟨rfl, rfl⟩ | ⟨-, hx⟩
    · rw [hmsqid]
      exact inv.queue hc
    · exact inv.queue hx
  · intro q hq
    obtain ⟨c', x, hx, rfl⟩ := inv.held q hq
    by_cases hne : c' = c
    · subst hne
      rw [hc, Option.some_inj] at hx
      subst hx
      exact ⟨c', cl', Function.update_self .., by rw [hmsqid]⟩
    · exact ⟨c', x, (Function.update_of_ne hne ..).trans hx, rfl⟩
  · intro c₁ c₂ x₁ x₂ h₁ h₂ heq
    rcases eq_or_of_update h₁ with ⟨rfl, rfl⟩ | ⟨-, h₁'⟩ <;>
      rcases eq_or_of_update h₂ with ⟨rfl, rfl⟩ | ⟨-, h₂'⟩
    · rfl
    · exact inv.own hc h₂' (hmsqid ▸ heq)
    · exact inv.own h₁' hc (heq.trans hmsqid)
    · exact inv.own h₁' h₂' heq
  · intro w hw
    obtain ⟨hold | hold, hmine⟩ := hway w hw
    · obtain ⟨hopened, x, hx, hexp⟩ := inv.expected w hold
      refine ⟨List.mem_append_left new hopened, ?_⟩
      by_cases hne : w.parent = c
      · exact ⟨cl', hne ▸ Function.update_self .., hmine hne⟩
      · exact ⟨x, (Function.update_of_ne hne ..).trans hx, hexp⟩
    · have hparent := (hnew w hold).1
      exact ⟨List.mem_append_right _ hold, cl', hparent ▸ Function.update_self .., hmine hparent⟩
  · intro w hw
    rcases List.mem_append.mp hw with hw | hw
    · exact Nat.lt_of_lt_of_le (inv.lt w hw) hcalls
    · obtain ⟨-, call, hn⟩ := hnew w hw
      exact (hcall hn).2.lt
  · intro c₁ c₂ x₁ x₂ n call₁ call₂ h₁ h₂ hcall₁ hcall₂
    rcases eq_or_of_update h₁ with ⟨rfl, rfl⟩ | ⟨hne₁, h₁'⟩ <;>
      rcases eq_or_of_update h₂ with ⟨rfl, rfl⟩ | ⟨hne₂, h₂'⟩
    · rfl
    · exact (hother hne₂ h₂' hcall₂ hcall₁).elim
    · exact (hother hne₁ h₁' hcall₁ hcall₂).elim
    · exact inv.serial h₁' h₂' hcall₁ hcall₂
  · intro c' x n call hx hxcall
    rcases eq_or_of_update hx with ⟨rfl, rfl⟩ | ⟨hne, hx'⟩
    · exact (hcall hxcall).2
    · obtain ⟨hlt, hmine, hknows⟩ := inv.call hx' hxcall
      refine ⟨Nat.lt_of_lt_of_le hlt hcalls, fun w hw hwn => ?_,
        hknows.mono fun _ _ => OpenedAs.mono (List.subset_append_left _ _)⟩
      rcases List.mem_append.mp hw with hw | hw
      · exact hmine w hw hwn
      · obtain ⟨-, call', hn⟩ := hnew w hw
        exact (hother hne hx' (hwn ▸ hxcall) hn).elim
  · intro c' x hx f hf
    rcases eq_or_of_update hx with ⟨rfl, rfl⟩ | ⟨-, hx'⟩
    · exact (hfiled f hf).mono (List.subset_append_left _ _)
    · exact (inv.filed hx' f hf).mono (List.subset_append_left _ _)
  · intro w hw
    rcases List.mem_append.mp hw with hw | hw
    · rcases inv.kept w hw with hsig | ⟨x, hx, hkeeps⟩
      · exact .inl (hsignalled hsig)
      · by_cases hne : w.parent = c
        · rw [hne, hc, Option.some_inj] at hx
          subst hx
          exact (hkept w hw hne hkeeps).imp_right fun hkeeps' =>
            ⟨cl', hne ▸ Function.update_self .., hkeeps'⟩
        · exact .inr ⟨x, (Function.update_of_ne hne ..).trans hx, hkeeps⟩
    · obtain ⟨hparent, call, hn⟩ := hnew w hw
      exact .inr ⟨cl', hparent ▸ Function.update_self .., .inr ⟨call, hn⟩⟩

/-- No window is opened. -/
theorem Inv.change (inv : Inv ftok h) (hc : h.clients c = some cl) (cl' : HostClient)
    (hmsqid : cl'.msqid = cl.msqid) {unsent sent : List Window} {signalled : List Int} {calls : Nat}
    (hway : ∀ w ∈ unsent ++ sent, w ∈ h.unsent ++ h.sent ∧ (w.parent = c → cl'.Expects w))
    (hapart : (unsent ++ sent).Pairwise Window.Apart) (hsignalled : h.signalled ⊆ signalled)
    (hcalls : h.calls ≤ calls)
    (hcall : ∀ {n call}, cl'.call = some (n, call) →
      ((∃ call₀, cl.call = some (n, call₀)) ∨ n = h.calls) ∧ CallOk h.opened calls c n call)
    (hfiled : ∀ f ∈ cl'.groups, FiledOk h.opened c f)
    (hkept : ∀ w ∈ h.opened, w.parent = c → cl.Keeps w → w.pid ∈ signalled ∨ cl'.Keeps w) :
    Inv ftok { h with
      clients := Function.update h.clients c (some cl')
      unsent, sent, signalled, calls } := by
  have hinv := inv.update hc cl' hmsqid [] (fun w hw => ⟨.inl (hway w hw).1, (hway w hw).2⟩) hapart
    (fun w hw => absurd hw List.not_mem_nil)
    (fun hw hw' => inv.sole (List.append_nil h.opened ▸ hw) (List.append_nil h.opened ▸ hw'))
    hsignalled hcalls
    (fun hn => ⟨(hcall hn).1, (List.append_nil h.opened).symm ▸ (hcall hn).2⟩) hfiled hkept
  rwa [List.append_nil] at hinv

/-- A client expects every message that is on its way to it. -/
theorem Inv.expects (inv : Inv ftok h) (hc : h.clients c = some cl) {w : Window}
    (hw : w ∈ h.unsent ++ h.sent) (hparent : w.parent = c) : cl.Expects w := by
  obtain ⟨-, x, hx, hexp⟩ := inv.expected w hw
  rw [hparent, hc, Option.some_inj] at hx
  exact hx ▸ hexp

section Joining

variable {n : Nat} {call call' : JoinCall}

/-- A message of this client's is one its join awaits. -/
theorem Inv.awaits (inv : Inv ftok h) (hc : h.clients c = some cl) (hcl : cl.call = some (n, call))
    {w : Window} (hw : w ∈ h.unsent ++ h.sent) (hparent : w.parent = c) :
    w.msqid = cl.msqid ∧ w.call = n ∧ call.phase.Awaits w.role := by
  obtain ⟨hmsqid, call₀, hcall₀, hawaits⟩ := inv.expects hc hw hparent
  obtain ⟨rfl, rfl⟩ := HostClient.call_inj hcl hcall₀
  exact ⟨hmsqid, rfl, hawaits⟩

/-- No message is on its way to a client that is in no join. -/
theorem Inv.idle (inv : Inv ftok h) (hc : h.clients c = some cl) (hcl : cl.call = none) {w : Window}
    (hw : w ∈ h.unsent ++ h.sent) : w.parent ≠ c := by
  intro hparent
  obtain ⟨-, call₀, hcall₀, -⟩ := inv.expects hc hw hparent
  exact absurd (hcl.symm.trans hcall₀) (by simp)

/-- The join goes on to its next call. -/
theorem Inv.advance (inv : Inv ftok h) (hc : h.clients c = some cl) (hcl : cl.call = some (n, call))
    {sent : List Window} (hsent : sent.Sublist h.sent)
    (hawaits : ∀ w ∈ h.unsent ++ sent, w.call = n → call.phase.Awaits w.role →
      call'.phase.Awaits w.role)
    (hopened : ∀ role, call'.phase.Opened role)
    (hknows : call'.phase.Knows (OpenedAs h.opened c n)) :
    Inv ftok { h with
      clients := Function.update h.clients c (some { cl with call := some (n, call') })
      sent } := by
  have hsub := hsent.append_left h.unsent
  refine inv.change hc { cl with call := some (n, call') } rfl
    (fun w hw => ⟨hsub.subset hw, fun hparent => ?_⟩) (inv.apart.sublist hsub)
    (List.Subset.refl _) (Nat.le_refl _) ?_ (fun f hf => inv.filed hc f hf)
    fun w _ _ hkeeps => .inr (hkeeps.resume hcl call')
  · obtain ⟨hmsqid, rfl, hold⟩ := inv.awaits hc hcl (hsub.subset hw) hparent
    exact ⟨hmsqid, call', rfl, hawaits w hw rfl hold⟩
  · intro n' call'' heq
    rw [Option.some_inj, Prod.mk.injEq] at heq
    obtain ⟨rfl, rfl⟩ := heq
    obtain ⟨hlt, hmine, -⟩ := inv.call hc hcl
    exact ⟨.inl ⟨call, hcl⟩, hlt, fun w hw hwn => ⟨(hmine w hw hwn).1, hopened w.role⟩, hknows⟩

/-- The join returns. -/
theorem Inv.finish (inv : Inv ftok h) (hc : h.clients c = some cl) (hcl : cl.call = some (n, call))
    (hawaits : ∀ role, ¬ call.phase.Awaits role) {groups : List Filed}
    (hgroups : cl.groups ⊆ groups) (pids : List Int) (hfiled : ∀ f ∈ groups, FiledOk h.opened c f)
    (hkept : ∀ w ∈ h.opened, w.call = n → w.pid ∈ pids ∨ ∃ f ∈ groups, f.call = n) :
    Inv ftok { h with
      clients := Function.update h.clients c (some { cl with call := none, groups })
      signalled := h.signalled ++ pids } := by
  refine inv.change hc { cl with call := none, groups } rfl (fun w hw => ⟨hw, fun hparent => ?_⟩)
    inv.apart (List.subset_append_left _ _) (Nat.le_refl _) (fun hn => absurd hn (by simp))
    hfiled ?_
  · exact absurd (inv.awaits hc hcl hw hparent).2.2 (hawaits w.role)
  · rintro w hw - (⟨f, hf, hfn⟩ | ⟨call₀, hcall₀⟩)
    · exact .inr (.inl ⟨f, hgroups hf, hfn⟩)
    · obtain ⟨rfl, -⟩ := HostClient.call_inj hcl hcall₀
      exact (hkept w hw rfl).imp (List.mem_append_right _) .inl

/-- A join begins. -/
theorem Inv.begin (inv : Inv ftok h) (hc : h.clients c = some cl) (hcl : cl.call = none)
    (hphase : call.phase = .spawnSender) :
    Inv ftok { h with
      clients := Function.update h.clients c (some { cl with call := some (h.calls, call) })
      calls := h.calls + 1 } := by
  refine inv.change hc { cl with call := some (h.calls, call) } rfl
    (fun w hw => ⟨hw, fun hparent => absurd hparent (inv.idle hc hcl hw)⟩) inv.apart
    (List.Subset.refl _) (Nat.le_succ h.calls) ?_ (fun f hf => inv.filed hc f hf) ?_
  · intro n' call' heq
    rw [Option.some_inj, Prod.mk.injEq] at heq
    obtain ⟨rfl, rfl⟩ := heq
    refine ⟨.inr rfl, Nat.lt_succ_self _, fun w hw hwn => ?_, by rw [hphase]; trivial⟩
    exact absurd (inv.lt w hw) (by rw [hwn]; exact Nat.lt_irrefl _)
  · rintro w - - (hfiled | ⟨call₀, hcall₀⟩)
    · exact .inr (.inl hfiled)
    · exact absurd (hcl.symm.trans hcall₀) (by simp)

/-- A join opens a window. -/
theorem Inv.spawn (inv : Inv ftok h) (hc : h.clients c = some cl) (hcl : cl.call = some (n, call))
    {w₀ : Window} (hparent : w₀.parent = c) (hn : w₀.call = n) (hmsqid : w₀.msqid = cl.msqid)
    (hrole : ¬ call.phase.Opened w₀.role)
    (hawaits : ∀ role, call.phase.Awaits role → role ≠ w₀.role ∧ call'.phase.Awaits role)
    (hawaits₀ : call'.phase.Awaits w₀.role)
    (hopened : ∀ role, call.phase.Opened role → call'.phase.Opened role)
    (hopened₀ : call'.phase.Opened w₀.role) (hknows : call'.phase.Knows fun _ _ => False) :
    Inv ftok { h with
      clients := Function.update h.clients c (some { cl with call := some (n, call') })
      unsent := h.unsent ++ [w₀]
      opened := h.opened ++ [w₀] } := by
  obtain ⟨hlt, hmine, -⟩ := inv.call hc hcl
  have hfresh {w : Window} (hw : w ∈ h.opened) (hwn : w.call = n) : w.role ≠ w₀.role :=
    fun heq => hrole (heq ▸ (hmine w hw hwn).2)
  have hperm : (h.unsent ++ [w₀] ++ h.sent).Perm (w₀ :: (h.unsent ++ h.sent)) := by
    rw [List.append_assoc]
    exact List.perm_middle
  refine inv.update hc { cl with call := some (n, call') } rfl [w₀] (fun w hw => ?_) ?_ ?_ ?_
    (List.Subset.refl _) (Nat.le_refl _) ?_ (fun f hf => inv.filed hc f hf)
    fun w _ _ hkeeps => .inr (hkeeps.resume hcl call')
  · rcases List.mem_cons.mp (hperm.mem_iff.mp hw) with rfl | hw
    · exact ⟨.inr List.mem_cons_self, fun _ => ⟨hmsqid, call', by rw [hn], hawaits₀⟩⟩
    · refine ⟨.inl hw, fun hwc => ?_⟩
      obtain ⟨hmsq, hwn, hold⟩ := inv.awaits hc hcl hw hwc
      exact ⟨hmsq, call', by rw [hwn], (hawaits w.role hold).2⟩
  · rw [hperm.pairwise_iff fun hab => hab.symm, List.pairwise_cons]
    refine ⟨fun w hw hwn => ?_, inv.apart⟩
    obtain ⟨hwopened, -⟩ := inv.expected w hw
    exact (hfresh hwopened (hwn.symm.trans hn)).symm
  · intro w hw
    rw [List.mem_singleton.mp hw]
    exact ⟨hparent, call', by rw [hn]⟩
  · intro w w' hw hw' hcall heq
    rcases List.mem_append.mp hw with hw | hw <;> rcases List.mem_append.mp hw' with hw' | hw'
    · exact inv.sole hw hw' hcall heq
    · rw [List.mem_singleton.mp hw'] at hcall heq
      exact absurd heq (hfresh hw (hcall.trans hn))
    · rw [List.mem_singleton.mp hw] at hcall heq
      exact absurd heq.symm (hfresh hw' (hcall.symm.trans hn))
    · rw [List.mem_singleton.mp hw, List.mem_singleton.mp hw']
  · intro n' call'' heq
    rw [Option.some_inj, Prod.mk.injEq] at heq
    obtain ⟨rfl, rfl⟩ := heq
    refine ⟨.inl ⟨call, hcl⟩, hlt, fun w hw hwn => ?_, hknows.mono fun _ _ => False.elim⟩
    rcases List.mem_append.mp hw with hw | hw
    · exact ⟨(hmine w hw hwn).1, hopened w.role (hmine w hw hwn).2⟩
    · rw [List.mem_singleton.mp hw]
      exact ⟨hparent, hopened₀⟩

end Joining

/-! ## Entries are given up -/

/-- Entries go, and what they name is signalled. -/
theorem Inv.regroup (inv : Inv ftok h) (hc : h.clients c = some cl) {groups : List Filed}
    (hgroups : groups ⊆ cl.groups) {pids : List Int}
    (hgone : ∀ f ∈ cl.groups, f ∈ groups ∨ f.entry.signals ⊆ pids) :
    Inv ftok { h with
      clients := Function.update h.clients c (some { cl with groups })
      signalled := h.signalled ++ pids } := by
  refine inv.change hc { cl with groups } rfl (fun w hw => ⟨hw, fun hparent => ?_⟩) inv.apart
    (List.subset_append_left _ _) (Nat.le_refl _) (fun hn => ⟨.inl ⟨_, hn⟩, inv.call hc hn⟩)
    (fun f hf => inv.filed hc f (hgroups hf)) ?_
  · exact inv.expects hc hw hparent
  · rintro w hw - (⟨f, hf, hfn⟩ | hcall)
    · rcases hgone f hf with hstays | hpids
      · exact .inr (.inl ⟨f, hstays, hfn⟩)
      · have hmem := (inv.filed hc f hf).mem_signals inv.sole hw hfn.symm
        exact .inl (List.mem_append_right _ (hpids hmem))
    · exact .inr (.inr hcall)

end Update

/-! ## Clients come and go, messages arrive -/

section Kernel

variable {ftok : Nat → Int} {h : Host} {c : Nat} {cl : HostClient}

/-- A client is created with a queue of its own. -/
theorem Inv.create (inv : Inv ftok h) (hc : h.clients c = none) {msqid : Int} (hnn : 0 ≤ msqid)
    (hfresh : ¬ h.HasQueue msqid) :
    Inv ftok { h with
      clients := Function.update h.clients c (some ⟨msqid, [], none⟩)
      queues := h.queues ++ [(ftok (c % 256), msqid)] } := by
  have hold {c' : Nat} {x : HostClient} (hx : h.clients c' = some x) : c' ≠ c := by
    rintro rfl
    exact absurd (hc.symm.trans hx) (by simp)
  have hstays {c' : Nat} {x : HostClient} (hx : h.clients c' = some x) :
      Function.update h.clients c (some ⟨msqid, [], none⟩) c' = some x :=
    (Function.update_of_ne (hold hx) ..).trans hx
  have hne {c' : Nat} {x : HostClient} (hx : h.clients c' = some x) : x.msqid ≠ msqid :=
    fun heq => hfresh ⟨_, (inv.queue hx).2, heq⟩
  refine
    { queue := ?_, held := ?_, own := ?_, expected := ?_, apart := inv.apart, sole := inv.sole,
      lt := inv.lt, serial := ?_, call := ?_, filed := ?_, kept := ?_ }
  · intro c' x hx
    rcases eq_or_of_update hx with ⟨rfl, rfl⟩ | ⟨-, hx⟩
    · exact ⟨hnn, List.mem_append_right _ List.mem_cons_self⟩
    · exact ⟨(inv.queue hx).1, List.mem_append_left _ (inv.queue hx).2⟩
  · intro q hq
    rcases List.mem_append.mp hq with hq | hq
    · obtain ⟨c', x, hx, rfl⟩ := inv.held q hq
      exact ⟨c', x, hstays hx, rfl⟩
    · rw [List.mem_singleton.mp hq]
      exact ⟨c, _, Function.update_self .., rfl⟩
  · intro c₁ c₂ x₁ x₂ h₁ h₂ heq
    rcases eq_or_of_update h₁ with ⟨rfl, rfl⟩ | ⟨-, h₁'⟩ <;>
      rcases eq_or_of_update h₂ with ⟨rfl, rfl⟩ | ⟨-, h₂'⟩
    · rfl
    · exact absurd heq.symm (hne h₂')
    · exact absurd heq (hne h₁')
    · exact inv.own h₁' h₂' heq
  · intro w hw
    obtain ⟨hopened, x, hx, hexp⟩ := inv.expected w hw
    exact ⟨hopened, x, hstays hx, hexp⟩
  · intro c₁ c₂ x₁ x₂ n call₁ call₂ h₁ h₂ hcall₁ hcall₂
    rcases eq_or_of_update h₁ with ⟨rfl, rfl⟩ | ⟨-, h₁'⟩
    · exact absurd hcall₁ (by simp)
    · rcases eq_or_of_update h₂ with ⟨rfl, rfl⟩ | ⟨-, h₂'⟩
      · exact absurd hcall₂ (by simp)
      · exact inv.serial h₁' h₂' hcall₁ hcall₂
  · intro c' x n call hx hcall
    rcases eq_or_of_update hx with ⟨rfl, rfl⟩ | ⟨-, hx⟩
    · exact absurd hcall (by simp)
    · exact inv.call hx hcall
  · intro c' x hx f hf
    rcases eq_or_of_update hx with ⟨rfl, rfl⟩ | ⟨-, hx⟩
    · exact absurd hf List.not_mem_nil
    · exact inv.filed hx f hf
  · intro w hw
    exact (inv.kept w hw).imp_right fun ⟨x, hx, hkeeps⟩ => ⟨x, hstays hx, hkeeps⟩

/-- A client that has no window left goes, with its queue. -/
theorem Inv.depart (inv : Inv ftok h) (hc : h.clients c = some cl) (hgroups : cl.groups = [])
    (hcall : cl.call = none) :
    Inv ftok { h with
      clients := Function.update h.clients c none
      queues := h.queues.filter fun q => q.2 ≠ cl.msqid
      sent := h.sent.filter fun w => w.msqid ≠ cl.msqid } := by
  have hold {c' : Nat} {x : HostClient} (hx : Function.update h.clients c none c' = some x) :
      c' ≠ c ∧ h.clients c' = some x := by
    by_cases hne : c' = c
    · subst hne
      rw [Function.update_self] at hx
      exact absurd hx (by simp)
    · rw [Function.update_of_ne hne] at hx
      exact ⟨hne, hx⟩
  have hstays {c' : Nat} {x : HostClient} (hne : c' ≠ c) (hx : h.clients c' = some x) :
      Function.update h.clients c none c' = some x :=
    (Function.update_of_ne hne ..).trans hx
  have hsub : (h.unsent ++ h.sent.filter fun w => w.msqid ≠ cl.msqid).Sublist
      (h.unsent ++ h.sent) := List.filter_sublist.append_left h.unsent
  refine
    { queue := ?_, held := ?_, own := ?_, expected := ?_, apart := inv.apart.sublist hsub,
      sole := inv.sole, lt := inv.lt, serial := ?_, call := ?_, filed := ?_, kept := ?_ }
  · intro c' x hx
    obtain ⟨hne, hx⟩ := hold hx
    refine ⟨(inv.queue hx).1, List.mem_filter.mpr ⟨(inv.queue hx).2, decide_eq_true ?_⟩⟩
    exact fun heq => hne (inv.own hx hc heq)
  · intro q hq
    obtain ⟨hq, hne⟩ := List.mem_filter.mp hq
    obtain ⟨c', x, hx, rfl⟩ := inv.held q hq
    refine ⟨c', x, hstays ?_ hx, rfl⟩
    rintro rfl
    rw [hc, Option.some_inj] at hx
    exact of_decide_eq_true hne (by rw [hx])
  · intro c₁ c₂ x₁ x₂ h₁ h₂ heq
    exact inv.own (hold h₁).2 (hold h₂).2 heq
  · intro w hw
    obtain ⟨hopened, x, hx, hexp⟩ := inv.expected w (hsub.subset hw)
    exact ⟨hopened, x, hstays (inv.idle hc hcall (hsub.subset hw)) hx, hexp⟩
  · intro c₁ c₂ x₁ x₂ n call₁ call₂ h₁ h₂ hcall₁ hcall₂
    exact inv.serial (hold h₁).2 (hold h₂).2 hcall₁ hcall₂
  · intro c' x n call hx hxcall
    exact inv.call (hold hx).2 hxcall
  · intro c' x hx f hf
    exact inv.filed (hold hx).2 f hf
  · intro w hw
    rcases inv.kept w hw with hsig | ⟨x, hx, hkeeps⟩
    · exact .inl hsig
    · refine .inr ⟨x, hstays ?_ hx, hkeeps⟩
      rintro hparent
      rw [hparent, hc, Option.some_inj] at hx
      rw [HostClient.Keeps, ← hx, hgroups, hcall] at hkeeps
      simp at hkeeps

/-- A message arrives, or is lost. -/
theorem Inv.arrive (inv : Inv ftok h) {unsent sent : List Window}
    (hperm : ∃ l, (unsent ++ sent).Perm l ∧ l.Sublist (h.unsent ++ h.sent)) :
    Inv ftok { h with unsent, sent } := by
  obtain ⟨l, hperm, hsub⟩ := hperm
  exact
    { queue := inv.queue, held := inv.held, own := inv.own,
      expected := fun w hw => inv.expected w (hsub.subset (hperm.mem_iff.mp hw)),
      apart := (hperm.pairwise_iff fun hab => hab.symm).mpr (inv.apart.sublist hsub),
      sole := inv.sole, lt := inv.lt, serial := inv.serial, call := inv.call, filed := inv.filed,
      kept := inv.kept }

end Kernel

/-! ## Every step -/

/-- What the join waits for that a client is in. -/
def phaseOf (h : Host) (c : Nat) : Option JoinPhase :=
  (h.clients c).bind fun cl => cl.call.map fun p => p.2.phase

theorem phaseOf_eq {h : Host} {c n : Nat} {cl : HostClient} {call : JoinCall}
    (hc : h.clients c = some cl) (hcl : cl.call = some (n, call)) :
    h.phaseOf c = some call.phase := by
  rw [phaseOf, hc, Option.bind_some, hcl, Option.map_some]

/-- A join is abandoned that has opened a window: its second `system` fails, or its `calloc`. -/
def LateFailure (h : Host) : HostEvent → Prop
  | .spawned c none => h.phaseOf c = some .spawnReceiver
  | .allocated c false => h.phaseOf c = some .allocEntry
  | _ => False

instance (h : Host) : DecidablePred h.LateFailure
  | .spawned c none => inferInstanceAs (Decidable (h.phaseOf c = some .spawnReceiver))
  | .allocated c false => inferInstanceAs (Decidable (h.phaseOf c = some .allocEntry))
  | .spawned _ (some _) | .allocated _ true | .create _ _ _ | .join _ _ _ _ _ | .received _
  | .leave _ _ | .clear _ | .destroy _ | .report _ => isFalse not_false

section Step

variable {ftok : Nat → Int} {h : Host} {c : Nat} {P : Host → Prop}

theorem whenIdle_cases {f : HostClient → Host} (hsame : P h)
    (hidle : ∀ cl, h.clients c = some cl → cl.call = none → P (f cl)) : P (h.whenIdle c f) := by
  rw [whenIdle]
  split
  · next hc => exact hidle _ hc rfl
  · exact hsame

theorem whenJoining_cases {f : HostClient → Nat → JoinCall → Host} (hsame : P h)
    (hjoining : ∀ cl n call, h.clients c = some cl → cl.call = some (n, call) → P (f cl n call)) :
    P (h.whenJoining c f) := by
  rw [whenJoining]
  split
  · next hc => exact hjoining _ _ _ hc rfl
  · exact hsame

variable {cl : HostClient} {n : Nat} {call : JoinCall}

theorem inv_spawned (inv : Inv ftok h) (hc : h.clients c = some cl) (hcl : cl.call = some (n, call))
    (pid : Option { pid : Int // 0 < pid }) (hlate : ¬ h.LateFailure (.spawned c pid)) :
    Inv ftok (h.spawned c cl n call pid) := by
  have hphase := phaseOf_eq hc hcl
  obtain ⟨groupName, mcastIp, mcastPort, username, phase⟩ := call
  cases phase with
  | spawnSender =>
    cases pid with
    | none =>
      have hinv := inv.finish hc hcl (fun _ => id) (List.Subset.refl _) []
        (fun f hf => inv.filed hc f hf) fun w hw hwn => ((inv.call hc hcl).mine w hw hwn).2.elim
      rwa [List.append_nil] at hinv
    | some pid =>
      exact inv.spawn hc hcl rfl rfl rfl id (fun _ => False.elim) rfl (fun _ => False.elim) rfl
        trivial
  | spawnReceiver =>
    cases pid with
    | none => exact absurd hphase hlate
    | some pid =>
      refine inv.spawn hc hcl rfl rfl rfl (by simp [JoinPhase.Opened]) (fun role hrole => ?_)
        trivial (fun _ _ => trivial) trivial trivial
      exact ⟨by rw [show role = .sender from hrole]; simp, trivial⟩
  | _ => exact inv

theorem inv_allocated (inv : Inv ftok h) (hc : h.clients c = some cl)
    (hcl : cl.call = some (n, call)) (ok : Bool) (hlate : ¬ h.LateFailure (.allocated c ok)) :
    Inv ftok (h.allocated c cl n call ok) := by
  have hphase := phaseOf_eq hc hcl
  obtain ⟨-, hmine, hknows⟩ := inv.call hc hcl
  obtain ⟨groupName, mcastIp, mcastPort, username, phase⟩ := call
  cases phase with
  | allocEntry =>
    cases ok with
    | false => exact absurd hphase hlate
    | true =>
      exact inv.advance hc hcl (List.Sublist.refl _) (fun _ _ _ _ => trivial) (fun _ => trivial)
        trivial
  | pushEntry senderPid receiverPid =>
    let filed : Filed := ⟨⟨groupName.ncopy chatMaxGroupnameLen, senderPid, receiverPid⟩, n⟩
    have hentry : FiledOk h.opened c filed := ⟨hknows.1, hknows.2⟩
    cases ok with
    | false =>
      exact inv.finish hc hcl (fun _ => id) (List.Subset.refl _) _ (fun f hf => inv.filed hc f hf)
        fun w hw hwn => .inl (hentry.mem_signals inv.sole hw hwn)
    | true =>
      have hinv := inv.finish hc hcl (fun _ => id) (List.subset_append_left _ [filed]) []
        (fun f hf => ?_)
        fun w hw hwn => .inr ⟨filed, List.mem_append_right _ List.mem_cons_self, rfl⟩
      · rwa [List.append_nil] at hinv
      · rcases List.mem_append.mp hf with hf | hf
        · exact inv.filed hc f hf
        · rw [List.mem_singleton.mp hf]
          exact hentry
  | _ => exact inv

/-- What is first on a client's queue in the role it waits for comes from the join it is in. -/
theorem Inv.first (inv : Inv ftok h) (hc : h.clients c = some cl) (hcl : cl.call = some (n, call))
    {role : WindowRole} {w : Window} (hw : h.firstMessage cl.msqid role = some w) :
    w ∈ h.sent ∧ w.role = role ∧ OpenedAs h.opened c n role w.pid ∧
      ∀ w' ∈ h.unsent ++ h.sent.erase w, w'.call = n → w'.role ≠ role := by
  rw [firstMessage] at hw
  have hsent := List.mem_of_find?_eq_some hw
  have hmatch := List.find?_some hw
  rw [decide_eq_true_eq] at hmatch
  obtain ⟨hmsqid, hrole⟩ := hmatch
  have hway : w ∈ h.unsent ++ h.sent := List.mem_append_right _ hsent
  obtain ⟨hopened, x, hx, hxmsqid, -⟩ := inv.expected w hway
  -- no other client has this queue
  have hparent : w.parent = c := inv.own hx hc (hxmsqid.symm.trans hmsqid)
  obtain ⟨-, hn, -⟩ := inv.awaits hc hcl hway hparent
  refine ⟨hsent, hrole, ⟨w, hopened, hparent, hn, hrole, rfl⟩, fun w' hw' hn' heq => ?_⟩
  have hperm : (h.unsent ++ h.sent).Perm (w :: (h.unsent ++ h.sent.erase w)) :=
    ((List.perm_cons_erase hsent).append_left h.unsent).trans List.perm_middle
  have hapart := (hperm.pairwise_iff fun hab => hab.symm).mp inv.apart
  exact (List.pairwise_cons.mp hapart).1 w' hw' (hn.trans hn'.symm) (hrole.trans heq.symm)

theorem inv_received (inv : Inv ftok h) (hc : h.clients c = some cl)
    (hcl : cl.call = some (n, call)) : Inv ftok (h.received c cl n call) := by
  have hqueue : h.HasQueue cl.msqid := ⟨_, (inv.queue hc).2, rfl⟩
  obtain ⟨-, -, hknows⟩ := inv.call hc hcl
  obtain ⟨groupName, mcastIp, mcastPort, username, phase⟩ := call
  cases phase with
  | recvSender =>
    rw [received]
    simp only [JoinPhase.receives, if_pos hqueue]
    cases hfirst : h.firstMessage cl.msqid .sender with
    | none => exact inv
    | some w =>
      obtain ⟨hsent, hrole, hopened, hothers⟩ := inv.first hc hcl hfirst
      refine inv.advance hc hcl List.erase_sublist (fun w' hw' hn' _ => ?_) (fun _ => trivial)
        hopened
      cases hrole' : w'.role with
      | sender => exact absurd hrole' (hothers w' hw' hn')
      | receiver => exact rfl
  | recvReceiver senderPid =>
    rw [received]
    simp only [JoinPhase.receives, if_pos hqueue]
    cases hfirst : h.firstMessage cl.msqid .receiver with
    | none => exact inv
    | some w =>
      obtain ⟨hsent, hrole, hopened, hothers⟩ := inv.first hc hcl hfirst
      exact inv.advance hc hcl List.erase_sublist
        (fun w' hw' hn' hawaits => absurd hawaits (hothers w' hw' hn')) (fun _ => trivial)
        ⟨hknows, hopened⟩
  | _ => exact inv

theorem inv_join (inv : Inv ftok h) (hc : h.clients c = some cl) (hcl : cl.call = none)
    (hphase : call.phase = .spawnSender) : Inv ftok (h.join c cl call) := by
  rw [join]
  split_ifs
  · exact inv
  · exact inv.begin hc hcl hphase

theorem inv_leave (inv : Inv ftok h) (hc : h.clients c = some cl) (groupName : CStr) :
    Inv ftok (h.leave c cl groupName) := by
  rw [leave]
  cases hfind : cl.groups.find? fun f => f.entry.name = groupName with
  | none => exact inv
  | some f =>
    refine inv.regroup hc List.eraseP_subset fun f' hf' => ?_
    obtain ⟨hname, l₁, l₂, hgroups, hl₁⟩ := List.find?_eq_some_iff_append.mp hfind
    have herase : (f :: l₂).eraseP (fun f => f.entry.name = groupName) = l₂ :=
      List.eraseP_cons_of_pos hname
    rw [hgroups, List.eraseP_append_right _ (by simpa using hl₁), herase]
    rw [hgroups] at hf'
    rcases List.mem_append.mp hf' with hf' | hf'
    · exact .inl (List.mem_append_left _ hf')
    · rcases List.mem_cons.mp hf' with rfl | hf'
      · exact .inr (List.Subset.refl _)
      · exact .inl (List.mem_append_right _ hf')

theorem inv_clear (inv : Inv ftok h) (hc : h.clients c = some cl) : Inv ftok (h.clear c cl) :=
  inv.regroup hc (List.nil_subset _) fun f hf => .inr fun _ hpid =>
    List.mem_flatMap.mpr ⟨f, hf, hpid⟩

theorem inv_destroy (inv : Inv ftok h) (hc : h.clients c = some cl) (hcl : cl.call = none) :
    Inv ftok (h.destroy c cl) := by
  have hclear := inv_clear inv hc
  have hclient : (h.clear c cl).clients c = some { cl with groups := [] } := Function.update_self ..
  have hdepart := hclear.depart hclient rfl hcl
  rw [destroy, if_pos (inv.queue hc).1]
  exact hdepart

theorem inv_report (inv : Inv ftok h) {w : Window} (hw : w ∈ h.unsent) : Inv ftok (h.msgsnd w) := by
  rw [msgsnd]
  split_ifs
  · refine inv.arrive ⟨h.unsent ++ h.sent, ?_, List.Sublist.refl _⟩
    have hlast : (h.unsent.erase w ++ (h.sent ++ [w])).Perm (h.unsent.erase w ++ (w :: h.sent)) :=
      (List.perm_append_singleton w h.sent).append_left _
    have hback : (w :: (h.unsent.erase w ++ h.sent)).Perm (h.unsent ++ h.sent) :=
      (List.perm_cons_erase hw).symm.append_right h.sent
    exact (hlast.trans List.perm_middle).trans hback
  · exact inv.arrive ⟨_, List.Perm.refl _, List.erase_sublist.append_right h.sent⟩

/-- **A step of a client or of a window** keeps the invariant, unless a join is abandoned that has
opened a window. -/
theorem inv_step (inv : Inv ftok h) {e : HostEvent}
    (hcreate : ∀ c fresh listed, e ≠ .create c fresh listed) (hlate : ¬ h.LateFailure e) :
    Inv ftok (step ftok h e) := by
  cases e with
  | create c fresh listed => exact absurd rfl (hcreate c fresh listed)
  | join c groupName mcastIp mcastPort username =>
    exact whenIdle_cases inv fun cl hc hcl => inv_join inv hc hcl rfl
  | spawned c pid =>
    exact whenJoining_cases inv fun cl n call hc hcl => inv_spawned inv hc hcl pid hlate
  | allocated c ok =>
    exact whenJoining_cases inv fun cl n call hc hcl => inv_allocated inv hc hcl ok hlate
  | received c => exact whenJoining_cases inv fun cl n call hc hcl => inv_received inv hc hcl
  | leave c groupName => exact whenIdle_cases inv fun cl hc _ => inv_leave inv hc groupName
  | clear c => exact whenIdle_cases inv fun cl hc _ => inv_clear inv hc
  | destroy c => exact whenIdle_cases inv fun cl hc hcl => inv_destroy inv hc hcl
  | report w =>
    rw [step]
    split_ifs with hw
    · exact inv_report inv hw
    · exact inv

/-- **A client starts**, and the low byte of its process id is not in use. -/
theorem inv_step_create (hftok : ∀ a b, a < 256 → b < 256 → ftok a = ftok b → a = b)
    (inv : Inv ftok h) (hbyte : ∀ c' cl', h.clients c' = some cl' → c' % 256 ≠ c % 256)
    (fresh : Int) :
    Inv ftok (step ftok h (.create c fresh true)) := by
  rw [step]
  split_ifs with hlive
  · exact inv
  · rw [Bool.not_eq_true, Option.isSome_eq_false_iff, Option.isNone_iff_eq_none] at hlive
    have hkey : (h.queues.find? fun q => q.1 = ftok (c % 256)) = none := by
      rw [List.find?_eq_none]
      intro q hq hkey
      obtain ⟨c', cl', hc', rfl⟩ := inv.held q hq
      exact hbyte c' cl' hc' (hftok _ _ (Nat.mod_lt _ (by decide)) (Nat.mod_lt _ (by decide))
        (of_decide_eq_true hkey))
    rw [create, msgget, hkey]
    simp only
    split_ifs with hfresh
    · exact inv.create hlive hfresh.1 hfresh.2
    · exact inv

end Step

end Host

end ChatProject
