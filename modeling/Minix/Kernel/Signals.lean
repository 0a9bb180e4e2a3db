/-
This file shows that no signal is stranded in the kernel: `sig_procs` counts the processes with
the PENDING flag, and MM is not blocked in RECEIVE from ANY while there is such a process.

The part of the process table that concerns signals is a ledger, and a kernel entry changes it
only by the events `SignalEvent`. `State.Signalled` says which events an entry causes and when
MM may wait after it; each function of the kernel gets one lemma of this form. The count then is
a property of the ledger, kept by every legal event.
-/

import Minix.Kernel.Machine

namespace Minix.Kernel

open Function (update update_eq_self)
open Option (some.inj bind_eq_some_iff ite_none_left_eq_some ite_none_right_eq_some)

/-! ### The ledger of signals -/

/-- What the kernel keeps about the signals of one process: whether it is a user process, PENDING,
the pending signals, and the number of pending and unfinished signals. -/
structure Account where
  user : Bool := false
  pending : Bool := false
  signals : Finset Nat := ∅
  unfinished : Nat := 0

/-- The accounts of all processes, the count of those with PENDING and the messages to MM. -/
structure Ledger where
  account : Slot → Account
  procs : Int
  ksigs : List (Slot × Finset Nat)

/-- What happens to signals: one is caused, MM is informed of those of a process, MM has finished
one, or a process is forked off or exits. -/
inductive SignalEvent
  | caused (p : Slot) (sigNr : Nat)
  | informed (p : Slot)
  | ended (p : Slot)
  | forked (p : Slot)
  | exited (p : Slot)
deriving DecidableEq

namespace Ledger

/-- The ledger after an event. -/
def apply (ledger : Ledger) : SignalEvent → Ledger
  | .caused p sigNr =>
    { ledger with
      account := update ledger.account p
        { ledger.account p with
          pending := true
          signals := insert sigNr (ledger.account p).signals
          unfinished := (ledger.account p).unfinished + 1 }
      procs := if (ledger.account p).pending then ledger.procs else ledger.procs + 1 }
  | .informed p =>
    { account := update ledger.account p
        { ledger.account p with pending := false, signals := ∅ }
      procs := ledger.procs - 1
      ksigs := ledger.ksigs ++ [(p, (ledger.account p).signals)] }
  | .ended p =>
    { ledger with
      account := update ledger.account p
        { ledger.account p with unfinished := (ledger.account p).unfinished - 1 } }
  | .forked p => { ledger with account := update ledger.account p { user := true } }
  | .exited p =>
    { ledger with
      account := update ledger.account p {}
      procs := if (ledger.account p).pending then ledger.procs - 1 else ledger.procs }

/-- The events that can happen: a new signal is caused for a user process, MM is informed of
pending ones, and a slot that a process is forked into has none. -/
def Legal (ledger : Ledger) : SignalEvent → Prop
  | .caused p sigNr => (ledger.account p).user = true ∧ sigNr ∉ (ledger.account p).signals
  | .informed p => (ledger.account p).pending = true
  | .forked p => (ledger.account p).pending = false
  | _ => True

/-- The ledger after legal events, oldest first. -/
inductive After : Ledger → List SignalEvent → Ledger → Prop
  | nil {ledger : Ledger} : After ledger [] ledger
  | cons {ledger ledger' : Ledger} {event : SignalEvent} {events : List SignalEvent} :
      ledger.Legal event → After (ledger.apply event) events ledger' →
      After ledger (event :: events) ledger'

variable {event : SignalEvent} {events : List SignalEvent}

theorem After.single {ledger : Ledger} (legal : ledger.Legal event) :
    After ledger [event] (ledger.apply event) := .cons legal .nil

@[simp] theorem after_nil {ledger ledger' : Ledger} :
    After ledger [] ledger' ↔ ledger' = ledger := by
  constructor
  · rintro ⟨⟩
    rfl
  · rintro rfl
    exact .nil

@[simp] theorem after_cons {ledger ledger' : Ledger} :
    After ledger (event :: events) ledger' ↔
      ledger.Legal event ∧ After (ledger.apply event) events ledger' := by
  constructor
  · rintro (_ | ⟨legal, after⟩)
    exact ⟨legal, after⟩
  · rintro ⟨legal, after⟩
    exact .cons legal after

/-- The processes with PENDING. -/
def pendingProcs (ledger : Ledger) : Finset Slot :=
  Finset.univ.filter fun p => (ledger.account p).pending = true

/-- The count is right. -/
def Counted (ledger : Ledger) : Prop := ledger.procs = ledger.pendingProcs.card

theorem mem_pendingProcs {ledger : Ledger} {p : Slot} :
    p ∈ ledger.pendingProcs ↔ (ledger.account p).pending = true := by
  simp [pendingProcs]

theorem pendingProcs_update {ledger after : Ledger} {p : Slot} {account : Account}
    (changed : after.account = update ledger.account p account) :
    after.pendingProcs =
      if account.pending then insert p ledger.pendingProcs else ledger.pendingProcs.erase p := by
  ext q
  by_cases same : q = p
  · subst same
    by_cases pending : account.pending = true <;> simp [mem_pendingProcs, changed, pending]
  · by_cases pending : account.pending = true <;> simp [mem_pendingProcs, changed, pending, same]

theorem Counted.apply {ledger : Ledger} (counted : ledger.Counted) (legal : ledger.Legal event) :
    (ledger.apply event).Counted := by
  rw [Counted] at counted ⊢
  cases event with
  | caused p sigNr =>
    rw [pendingProcs_update rfl, if_pos rfl]
    simp only [Ledger.apply]
    by_cases pending : (ledger.account p).pending = true
    · rw [if_pos pending, Finset.insert_eq_of_mem (mem_pendingProcs.mpr pending), counted]
    · rw [if_neg pending, Finset.card_insert_of_notMem fun member =>
        pending (mem_pendingProcs.mp member), counted]
      rfl
  | informed p =>
    have member : p ∈ ledger.pendingProcs := mem_pendingProcs.mpr legal
    rw [pendingProcs_update rfl, if_neg (by simp)]
    have some : 0 < ledger.pendingProcs.card := Finset.card_pos.mpr ⟨p, member⟩
    simp only [Ledger.apply, Finset.card_erase_of_mem member]
    omega
  | ended p =>
    have same : (ledger.apply (.ended p)).pendingProcs = ledger.pendingProcs := by
      ext q
      by_cases same : q = p
      · subst same
        simp [mem_pendingProcs, Ledger.apply]
      · simp [mem_pendingProcs, Ledger.apply, same]
    rw [same]
    exact counted
  | forked p =>
    have notMember : p ∉ ledger.pendingProcs := fun member => by
      rw [mem_pendingProcs, show (ledger.account p).pending = false from legal] at member
      cases member
    rw [pendingProcs_update rfl, if_neg (by simp), Finset.erase_eq_of_notMem notMember]
    exact counted
  | exited p =>
    rw [pendingProcs_update rfl, if_neg (by simp)]
    simp only [Ledger.apply]
    by_cases pending : (ledger.account p).pending = true
    · have member : p ∈ ledger.pendingProcs := mem_pendingProcs.mpr pending
      have some : 0 < ledger.pendingProcs.card := Finset.card_pos.mpr ⟨p, member⟩
      rw [if_pos pending, Finset.card_erase_of_mem member]
      omega
    · rw [if_neg pending, Finset.erase_eq_of_notMem fun member =>
        pending (mem_pendingProcs.mp member), counted]

theorem Counted.after {ledger ledger' : Ledger} (counted : ledger.Counted)
    (after : ledger.After events ledger') : ledger'.Counted := by
  induction after with
  | nil => exact counted
  | cons legal _ inductionHypothesis => exact inductionHypothesis (counted.apply legal)

end Ledger

/-! ### The ledger of the kernel -/

def Proc.account (entry : Proc) : Account where
  user := entry.pPriority == .user
  pending := entry.pFlags.pending
  signals := entry.pPending
  unfinished := entry.pPendcount

/-- The ledger that the process table holds. -/
def State.ledger (k : State) : Ledger where
  account p := (k.proc p).account
  procs := k.sigProcs
  ksigs := k.ksigs

/-- MM is blocked in RECEIVE from ANY. -/
def State.mmWaits (k : State) : Prop :=
  (k.proc mm).pFlags.receiving = true ∧ (k.proc mm).pGetfrom = any

instance (k : State) : Decidable k.mmWaits := inferInstanceAs (Decidable (_ ∧ _))

/-- Nothing happens to signals, and MM waits only if it waited before. -/
structure State.Quiet (k k' : State) : Prop where
  ledger : k'.ledger = k.ledger
  waits : k'.mmWaits → k.mmWaits

/-- The given events happen. MM waits afterwards only if it waited and the count has not grown, or
if it starts to wait and the count is zero. It is informed only if it waited or starts to, and it
does not wait then. -/
structure State.Signalled (starts : Prop) (k : State) (events : List SignalEvent) (k' : State) :
    Prop where
  after : k.ledger.After events k'.ledger
  waits : k'.mmWaits → k.mmWaits ∧ k'.sigProcs ≤ k.sigProcs ∨ starts ∧ k'.sigProcs ≤ 0
  informed : ∀ p, .informed p ∈ events → (k.mmWaits ∨ starts) ∧ ¬ k'.mmWaits

/-- The events of an entry other than a fork, an exit and the end of a signal: one of the given
signals may be caused, and MM may be informed of one process. -/
inductive Asynchronous (causes : Nat → Prop) : List SignalEvent → Prop
  | none : Asynchronous causes []
  | caused (p : Slot) (sigNr : Nat) : causes sigNr → Asynchronous causes [.caused p sigNr]
  | informed (p : Slot) : Asynchronous causes [.informed p]
  | told (p q : Slot) (sigNr : Nat) :
      causes sigNr → Asynchronous causes [.caused p sigNr, .informed q]

theorem Asynchronous.mono {causes causes' : Nat → Prop} {events : List SignalEvent}
    (asynchronous : Asynchronous causes events)
    (weaker : ∀ sigNr, causes sigNr → causes' sigNr) : Asynchronous causes' events := by
  cases asynchronous with
  | none => exact .none
  | caused p sigNr allowed => exact .caused p sigNr (weaker sigNr allowed)
  | informed p => exact .informed p
  | told p q sigNr allowed => exact .told p q sigNr (weaker sigNr allowed)

section Frames

variable {k k₁ k' : State} {p : Slot} {change : Proc → Proc} {starts : Prop}
  {events : List SignalEvent}

theorem State.Quiet.refl (k : State) : k.Quiet k := ⟨rfl, id⟩

theorem State.Quiet.trans (first : k.Quiet k₁) (second : k₁.Quiet k') : k.Quiet k' :=
  ⟨second.ledger.trans first.ledger, fun waits => first.waits (second.waits waits)⟩

theorem State.Quiet.sigProcs (quiet : k.Quiet k') : k'.sigProcs = k.sigProcs :=
  congrArg Ledger.procs quiet.ledger

theorem State.Rescheduled.quiet (changed : k.Rescheduled k') : k.Quiet k' := by
  obtain ⟨s, rfl⟩ := changed
  exact ⟨rfl, id⟩

theorem State.Relinked.quiet (changed : k.Relinked k') : k.Quiet k' := by
  obtain ⟨links, heads, rfl⟩ := changed
  exact ⟨rfl, id⟩

theorem State.ledger_modify (k : State) (p : Slot) (change : Proc → Proc) :
    (k.modify p change).ledger = { k.ledger with
      account := update k.ledger.account p (change (k.proc p)).account } := by
  have accounts := k.modify_update p change Proc.account
  simp only [State.ledger]
  rw [accounts]
  rfl

/-- A change of an entry that leaves its signals alone and does not make MM wait. -/
theorem State.quiet_modify (account : (change (k.proc p)).account = (k.proc p).account)
    (waits : p = mm → (change (k.proc p)).pFlags.receiving = true →
      (change (k.proc p)).pGetfrom = any →
        (k.proc p).pFlags.receiving = true ∧ (k.proc p).pGetfrom = any) :
    k.Quiet (k.modify p change) := by
  constructor
  · have same : k.ledger.account p = (k.proc p).account := rfl
    rw [State.ledger_modify, account, ← same, update_eq_self]
  · by_cases isMm : p = mm
    · subst isMm
      simpa [State.mmWaits] using waits rfl
    · simp [State.mmWaits, Ne.symm isMm]

theorem State.Quiet.signalled (quiet : k.Quiet k') : k.Signalled starts [] k' where
  after := quiet.ledger ▸ .nil
  waits waits := .inl ⟨quiet.waits waits, quiet.sigProcs.le⟩
  informed _ member := absurd member List.not_mem_nil

theorem State.Signalled.quiet (signalled : k.Signalled starts events k₁) (quiet : k₁.Quiet k') :
    k.Signalled starts events k' where
  after := quiet.ledger ▸ signalled.after
  waits waits := by
    rw [quiet.sigProcs]
    exact signalled.waits (quiet.waits waits)
  informed q member := (signalled.informed q member).imp_right fun gone waits =>
    gone (quiet.waits waits)

theorem State.Quiet.before (quiet : k.Quiet k₁) (signalled : k₁.Signalled starts events k') :
    k.Signalled starts events k' where
  after := quiet.ledger ▸ signalled.after
  waits waits := by
    rw [← quiet.sigProcs]
    exact (signalled.waits waits).imp_left fun both => ⟨quiet.waits both.1, both.2⟩
  informed q member := (signalled.informed q member).imp_left fun told =>
    told.imp_left quiet.waits

theorem State.Signalled.mono {starts' : Prop} (signalled : k.Signalled starts events k')
    (weaker : starts → starts') : k.Signalled starts' events k' where
  after := signalled.after
  waits waits := (signalled.waits waits).imp_right fun both => ⟨weaker both.1, both.2⟩
  informed q member := (signalled.informed q member).imp_left fun told => told.imp_right weaker

end Frames

/-! ### Sending -/

section Sending

variable {k k' : State} {caller dest p : Slot} {mPtr : UInt32}

theorem State.quiet_setFlags {change : Flags → Flags}
    (pending : (change (k.proc p).pFlags).pending = (k.proc p).pFlags.pending)
    (receiving : (change (k.proc p).pFlags).receiving = true →
      (k.proc p).pFlags.receiving = true) : k.Quiet (k.setFlags p change) := by
  refine State.quiet_modify ?_ fun _ receives getfrom => ⟨receiving receives, getfrom⟩
  simp only [Proc.account, pending]

theorem deliver_quiet (completed : deliver k caller dest mPtr = some k') :
    k.Quiet k' ∧ (dest = mm → ¬ k'.mmWaits) := by
  unfold deliver at completed
  have readied := (readyIfClear_rescheduled completed).quiet
  let k₁ := k.emit [.delivered caller dest mPtr (k.proc dest).pMessbuf]
  have emitted : k.Quiet k₁ := ⟨rfl, id⟩
  refine ⟨(emitted.trans (State.quiet_setFlags rfl fun set => by cases set)).trans readied, ?_⟩
  rintro rfl waits
  have receiving := (readied.waits waits).1
  simp [State.setFlags] at receiving

theorem blockSender_quiet (completed : blockSender k caller dest mPtr = some k') :
    k.Quiet k' := by
  obtain ⟨asleep, slept, completed⟩ := bind_eq_some_iff.mp completed
  obtain ⟨queued, append, completed⟩ := bind_eq_some_iff.mp completed
  obtain rfl := some.inj completed
  have noted : k.Quiet (k.modify caller fun entry => { entry with pMessbuf := mPtr }) :=
    State.quiet_modify rfl fun _ receiving getfrom => ⟨receiving, getfrom⟩
  have sends : asleep.Quiet (asleep.modify caller fun entry =>
      { entry with pFlags := { entry.pFlags with sending := true }, pSendto := dest }) :=
    State.quiet_modify rfl fun _ receiving getfrom => ⟨receiving, getfrom⟩
  have appended : queued.Quiet (queued.emit [.blocked caller dest mPtr]) := ⟨rfl, id⟩
  exact (((noted.trans (unreadyIfClear_rescheduled slept).quiet).trans sends).trans
    (appendCaller_relinked append).quiet).trans appended

theorem miniSend_quiet {n : Int} {result : Result}
    (completed : miniSend k caller n mPtr = some (k', result)) : k.Quiet k' := by
  rcases miniSend_cases completed with ⟨rfl, -⟩ |
    ⟨dest, rfl, -, -, -, -, ⟨-, delivered⟩ | ⟨-, blocked⟩⟩
  · exact .refl k'
  · exact (deliver_quiet delivered).1
  · exact blockSender_quiet blocked

theorem hardware_send_quiet (waits : k.isWaitingFor mm hardware = true)
    (sent : miniSend k hardware (procNumber mm) mPtr = some (k', .ok)) :
    k.Quiet k' ∧ ¬ k'.mmWaits := by
  rcases miniSend_cases sent with ⟨-, failed⟩ |
    ⟨dest, destIs, -, -, -, -, ⟨-, delivered⟩ | ⟨notWaiting, -⟩⟩
  · exact absurd rfl failed
  · obtain ⟨quiet, gone⟩ := deliver_quiet delivered
    exact ⟨quiet, gone (procNumber_injective destIs).symm⟩
  · obtain rfl : mm = dest := procNumber_injective destIs
    rw [waits] at notWaiting
    cases notWaiting

end Sending

/-! ### Signalling -/

section Signalling

variable {k k' : State} {p caller : Slot} {src : Int} {mPtr : UInt32}

theorem Invariant.pending_user {scope : Scope} (inv : Invariant scope k)
    (pending : (k.proc p).pFlags.pending = true) : nrTasks ≤ p.val := by
  by_contra task
  have system : p < init := Fin.lt_def.mpr (Nat.lt_of_lt_of_le (not_le.mp task) (by decide))
  have clear := ((inv.entries p).system system).2.1
  rw [pending] at clear
  cases clear

theorem inform_signalled (waits : k.mmWaits) (reachable : k.isWaitingFor mm hardware = true)
    (task : nrTasks ≤ p.val) (pending : (k.proc p).pFlags.pending = true)
    (completed : inform k = some k') :
    ∃ rp, k.Signalled False [.informed rp] k' ∧ ¬ k'.mmWaits := by
  unfold inform at completed
  split at completed
  case h_1 absent =>
    have missed := List.find?_eq_none.mp absent p (List.mem_finRange p)
    simp [task, pending] at missed
  case h_2 rp found =>
    have told : (k.proc rp).pFlags.pending = true := by
      have hit := List.find?_some found
      simp only [Bool.and_eq_true] at hit
      exact hit.2
    obtain ⟨⟨k₁, result⟩, sent, completed⟩ := bind_eq_some_iff.mp completed
    obtain ⟨succeeded, completed⟩ := ite_none_left_eq_some.mp completed
    obtain rfl : result = .ok := by simpa using succeeded
    obtain rfl := some.inj completed
    let k₀ : State := { k with
      sigProcs := k.sigProcs - 1
      ksigs := k.ksigs ++ [(rp, (k.proc rp).pPending)] }
    obtain ⟨quiet, gone⟩ : k₀.Quiet k₁ ∧ ¬ k₁.mmWaits := hardware_send_quiet reachable sent
    let k₂ := k₁.modify rp fun entry =>
      { entry with pPending := ∅, pFlags := { entry.pFlags with pending := false } }
    have picked : k₂.Quiet (pickProc k₂) := (State.Rescheduled.refl k₂).pickProc.quiet
    have gone₂ : ¬ k₂.mmWaits := by
      intro waits₂
      apply gone
      by_cases same : mm = rp <;> simpa [State.mmWaits, k₂, same] using waits₂
    have account : (k₁.proc rp).account = (k.proc rp).account :=
      congrFun (congrArg Ledger.account quiet.ledger) rp
    have entry : (k₂.proc rp).account =
        { (k.proc rp).account with pending := false, signals := ∅ } := by
      rw [← account]
      simp [k₂, Proc.account]
    have ledger : (pickProc k₂).ledger = k.ledger.apply (.informed rp) := by
      rw [picked.ledger, State.ledger_modify, quiet.ledger]
      simp only [k₂, State.modify_proc, if_true] at entry
      rw [entry]
      rfl
    have gone₃ : ¬ (pickProc k₂).mmWaits := fun waits₃ => gone₂ (picked.waits waits₃)
    refine ⟨rp, ⟨?_, fun waits₃ => absurd waits₃ gone₃, fun _ _ => ⟨.inl waits, gone₃⟩⟩, gone₃⟩
    rw [ledger]
    exact .single told

/-- `cause_sig` causes the signal, unless it is pending already, and MM is informed if it
waits. -/
theorem causeSig_signalled {scope : Scope} {sigNr : Nat} (inv : Invariant scope k)
    (user : k.priority p = .user) (completed : causeSig k p sigNr = some k') :
    ∃ events, k.Signalled False events k' ∧ Asynchronous (· = sigNr) events := by
  have notSystem := (inv.entries p).notSystem user
  have apart : mm ≠ p := by
    rintro rfl
    exact notSystem (by decide)
  have task : nrTasks ≤ p.val := by
    by_contra below
    exact notSystem (Fin.lt_def.mpr (Nat.lt_of_lt_of_le (not_le.mp below) (by decide)))
  unfold causeSig at completed
  split at completed
  case isTrue =>
    obtain rfl := some.inj completed
    exact ⟨[], (State.Quiet.refl k).signalled, .none⟩
  case isFalse fresh =>
    have legal : k.ledger.Legal (.caused p sigNr) := ⟨(k.isuserp_iff p).mpr user, fresh⟩
    let count : Proc → Proc := fun entry =>
      { entry with pPending := insert sigNr entry.pPending, pPendcount := entry.pPendcount + 1 }
    dsimp only at completed
    split at completed
    case isTrue pending =>
      obtain rfl := some.inj completed
      have set : (k.proc p).pFlags.pending = true := by simpa using pending
      have ledger : (k.modify p count).ledger = k.ledger.apply (.caused p sigNr) := by
        have before : (k.ledger.account p).pending = true := set
        rw [State.ledger_modify, Ledger.apply, if_pos before]
        simp only [count, Proc.account, set]
        rfl
      refine ⟨_, ⟨ledger ▸ .single legal, fun waits => .inl ⟨?_, le_rfl⟩, ?_⟩, .caused p sigNr rfl⟩
      · simpa [State.mmWaits, apart] using waits
      · simp
    case isFalse clear =>
      have unset : (k.proc p).pFlags.pending = false := by simpa using clear
      obtain ⟨k₁, slept, completed⟩ := bind_eq_some_iff.mp completed
      obtain ⟨s, rfl⟩ := unreadyIfClear_rescheduled slept
      let k₂ : State := { ((k.modify p count).withSchedule s).setFlags p fun flags =>
        { flags with pending := true, sigPending := true } with sigProcs := k.sigProcs + 1 }
      have ledger : k₂.ledger = k.ledger.apply (.caused p sigNr) := by
        have before : ¬ (k.ledger.account p).pending = true := by
          simp [State.ledger, Proc.account, unset]
        have accounts : (fun q => (k₂.proc q).account) = update k.ledger.account p
            { k.ledger.account p with
              pending := true
              signals := insert sigNr (k.ledger.account p).signals
              unfinished := (k.ledger.account p).unfinished + 1 } := by
          funext q
          by_cases same : q = p
          · subst same
            simp [k₂, State.setFlags, State.withSchedule, count, Proc.account, State.ledger]
          · simp [k₂, State.setFlags, State.withSchedule, same, Proc.account, State.ledger]
        rw [Ledger.apply, if_neg before]
        simp only [State.ledger] at accounts ⊢
        rw [accounts]
        rfl
      have mmEntry : (k₂.proc mm).pFlags = (k.proc mm).pFlags ∧
          (k₂.proc mm).pGetfrom = (k.proc mm).pGetfrom := by
        simp [k₂, State.setFlags, State.withSchedule, apart]
      have sameWaits : k₂.mmWaits ↔ k.mmWaits := by
        rw [State.mmWaits, mmEntry.1, mmEntry.2, State.mmWaits]
      have pending₂ : (k₂.proc p).pFlags.pending = true := by
        simp [k₂, State.setFlags]
      split at completed
      case isTrue busy =>
        obtain rfl := some.inj completed
        have notWaiting : ¬ k₂.mmWaits := by
          rintro ⟨receiving, getfrom⟩
          have busy₂ : (!(k₂.proc mm).pFlags.receiving || (k₂.proc mm).pGetfrom != any) = true :=
            busy
          rw [receiving, getfrom] at busy₂
          simp at busy₂
        exact ⟨_, ⟨ledger ▸ .single legal, fun waits => absurd waits notWaiting, by simp⟩,
          .caused p sigNr rfl⟩
      case isFalse idle =>
        have waits₂ : k₂.mmWaits := by
          simp only [Bool.or_eq_true, Bool.not_eq_true', bne_iff_ne, not_or, Bool.not_eq_false,
            Decidable.not_not] at idle
          exact idle
        have waits := sameWaits.mp waits₂
        have reachable : k₂.isWaitingFor mm hardware = true := by
          rw [State.isWaitingFor, mmEntry.1, mmEntry.2]
          exact inv.mmWaits waits.1 waits.2 hardware
        obtain ⟨rp, signalled, gone⟩ := inform_signalled waits₂ reachable task pending₂ completed
        refine ⟨[.caused p sigNr, .informed rp], ⟨?_, fun waits' => absurd waits' gone,
          fun _ _ => ⟨.inl waits, gone⟩⟩, .told p rp sigNr rfl⟩
        exact .cons legal (ledger ▸ signalled.after)

/-- A process that blocks in RECEIVE. MM, who blocks in RECEIVE from ANY, is informed if a
signal is pending. -/
theorem blockReceiver_signalled (counted : k.ledger.Counted)
    (users : ∀ p, (k.proc p).pFlags.pending = true → nrTasks ≤ p.val)
    (receives : caller = mm → src = any → (k.proc mm).pFlags.sending = false)
    (completed : blockReceiver k caller src mPtr = some k') :
    ∃ events, k.Signalled (caller = mm ∧ src = any) events k' ∧
      Asynchronous (fun _ => False) events := by
  obtain ⟨k₁, slept, completed⟩ := bind_eq_some_iff.mp completed
  obtain ⟨s, rfl⟩ := unreadyIfClear_rescheduled slept
  let k₂ := ((k.modify caller fun entry =>
    { entry with pGetfrom := src, pMessbuf := mPtr }).withSchedule s).setFlags caller
      fun flags => { flags with receiving := true }
  have accounts : ∀ q, (k₂.proc q).account = (k.proc q).account := by
    intro q
    by_cases same : q = caller
    · subst same
      simp [k₂, State.setFlags, State.withSchedule, Proc.account]
    · simp [k₂, State.setFlags, State.withSchedule, same, Proc.account]
  have ledger : k₂.ledger = k.ledger := by
    simp only [State.ledger, accounts]
    rfl
  have waits₂ : k₂.mmWaits → k.mmWaits ∨ (caller = mm ∧ src = any) := by
    rintro ⟨receiving, getfrom⟩
    by_cases same : mm = caller
    · subst same
      simp [k₂, State.setFlags, State.withSchedule] at getfrom
      exact .inr ⟨rfl, getfrom⟩
    · simp [k₂, State.setFlags, State.withSchedule, same] at receiving getfrom
      exact .inl ⟨receiving, getfrom⟩
  dsimp only at completed
  split at completed
  case isTrue told =>
    obtain ⟨positive, rfl, rfl⟩ := told
    have count : 0 < k.ledger.pendingProcs.card := by
      have procs : 0 < k.ledger.procs := positive
      rw [counted] at procs
      exact_mod_cast procs
    obtain ⟨p, member⟩ := Finset.card_pos.mp count
    have pending : (k₂.proc p).pFlags.pending = true :=
      (congrArg Account.pending (accounts p)).trans (Ledger.mem_pendingProcs.mp member)
    have waits : k₂.mmWaits := by
      simp [k₂, State.mmWaits, State.setFlags, State.withSchedule]
    have reachable : k₂.isWaitingFor mm hardware = true := by
      have notSending := receives rfl rfl
      simp [k₂, State.isWaitingFor, State.setFlags, State.withSchedule, notSending]
    obtain ⟨rp, signalled, gone⟩ := inform_signalled waits reachable
      (users p (Ledger.mem_pendingProcs.mp member)) pending completed
    exact ⟨_, ⟨ledger ▸ signalled.after, fun waits' => absurd waits' gone,
      fun _ _ => ⟨.inr ⟨rfl, rfl⟩, gone⟩⟩, .informed rp⟩
  case isFalse none =>
    obtain rfl := some.inj completed
    refine ⟨[], ⟨ledger ▸ .nil, fun waits => ?_, fun _ member =>
      absurd member List.not_mem_nil⟩, .none⟩
    rcases waits₂ waits with before | ⟨isMm, fromAny⟩
    · exact .inl ⟨before, le_rfl⟩
    · refine .inr ⟨⟨isMm, fromAny⟩, ?_⟩
      by_contra positive
      exact none ⟨not_le.mp positive, isMm, fromAny⟩

theorem takeSender_quiet {previous : Option Slot} {sender : Slot}
    (completed : takeSender k caller src mPtr previous sender = some k') : k.Quiet k' := by
  unfold takeSender at completed
  have emitted : k.Quiet
      (k.emit [.received sender caller src (k.proc sender).pMessbuf mPtr]) := ⟨rfl, id⟩
  exact ((emitted.trans (unlinkFrom_relinked _ caller previous sender).quiet).trans
    (State.quiet_setFlags rfl id)).trans (readyIfClear_rescheduled completed).quiet

theorem miniRec_signalled (counted : k.ledger.Counted)
    (users : ∀ p, (k.proc p).pFlags.pending = true → nrTasks ≤ p.val)
    (receives : caller = mm → src = any → (k.proc mm).pFlags.sending = false)
    (completed : miniRec k caller src mPtr = some k') :
    ∃ events, k.Signalled (caller = mm ∧ src = any) events k' ∧
      Asynchronous (fun _ => False) events := by
  unfold miniRec at completed
  split at completed
  case isTrue => exact blockReceiver_signalled counted users receives completed
  case isFalse =>
    split at completed
    case h_1 => cases completed
    case h_2 => exact ⟨[], (takeSender_quiet completed).signalled, .none⟩
    case h_3 =>
      split at completed
      case isTrue =>
        obtain rfl := some.inj completed
        have noted : k.Quiet (k.emit [.notified caller]) := ⟨rfl, id⟩
        exact ⟨[], (noted.trans (State.quiet_modify rfl
          fun _ receiving getfrom => ⟨receiving, getfrom⟩)).signalled, .none⟩
      case isFalse => exact blockReceiver_signalled counted users receives completed

end Signalling

/-! ### Kernel entries -/

/-- The running process is MM and asks for a message from ANY. -/
def Call.receivesAny (k : State) : Call → Bool
  | .sysCall function srcDest _ => k.procPtr == mm && function == .receive && srcDest == any
  | _ => false

section Entries

variable {scope : Scope} {k k' : State} {result : Result}

theorem sysCall_signalled {function : SysFunction} {srcDest : Int} {mPtr : UInt32}
    (inv : Invariant scope k) (counted : k.ledger.Counted) (notIdle : k.procPtr ≠ idle)
    (completed : sysCall k function srcDest mPtr = some (k', result)) :
    ∃ events, k.Signalled ((Call.sysCall function srcDest mPtr).receivesAny k = true) events k' ∧
      Asynchronous (fun _ => False) events := by
  have users : ∀ p, (k.proc p).pFlags.pending = true → nrTasks ≤ p.val := fun p =>
    inv.pending_user
  unfold sysCall at completed
  split at completed
  case isTrue =>
    obtain ⟨rfl, -⟩ := Prod.mk.inj (some.inj completed)
    exact ⟨[], (State.Quiet.refl k).signalled, .none⟩
  dsimp only at completed
  split at completed
  case isTrue =>
    obtain ⟨rfl, -⟩ := Prod.mk.inj (some.inj completed)
    exact ⟨[], (State.Quiet.refl k).signalled, .none⟩
  split at completed
  case isTrue receives =>
    obtain ⟨after, received, same⟩ := bind_eq_some_iff.mp completed
    obtain ⟨rfl, -⟩ := Prod.mk.inj (some.inj same)
    obtain ⟨events, signalled, kinds⟩ := miniRec_signalled counted users
      (fun isMm _ => by rw [← isMm, (inv.runs notIdle).flags]) received
    refine ⟨events, signalled.mono fun both => ?_, kinds⟩
    simp [Call.receivesAny, both.1, receives, both.2]
  case isFalse sends =>
    obtain ⟨⟨k₁, sent⟩, send, completed⟩ := bind_eq_some_iff.mp completed
    have quiet := miniSend_quiet send
    split at completed
    case isTrue =>
      obtain ⟨rfl, -⟩ := Prod.mk.inj (some.inj completed)
      exact ⟨[], quiet.signalled, .none⟩
    case isFalse continues =>
      obtain ⟨after, received, same⟩ := bind_eq_some_iff.mp completed
      obtain ⟨rfl, -⟩ := Prod.mk.inj (some.inj same)
      -- The source of the receive half is the destination of the send half.
      have notAny : srcDest ≠ any := by
        rcases miniSend_cases send with ⟨-, failed⟩ | ⟨dest, rfl, -⟩
        · exact absurd (.inr failed) continues
        · exact procNumber_ne_any dest
      have users₁ : ∀ p, (k₁.proc p).pFlags.pending = true → nrTasks ≤ p.val := by
        intro p pending
        have account : (k₁.proc p).account = (k.proc p).account :=
          congrFun (congrArg Ledger.account quiet.ledger) p
        exact users p ((congrArg Account.pending account).symm.trans pending)
      obtain ⟨events, signalled, kinds⟩ := miniRec_signalled (quiet.ledger ▸ counted) users₁
        (fun _ fromAny => absurd fromAny notAny) received
      exact ⟨events, quiet.before (signalled.mono fun both => absurd both.2 notAny), kinds⟩

theorem interrupt_quiet {rp : Slot} {competing : Bool}
    (completed : interrupt k rp competing = some k') : k.Quiet k' := by
  have note : ∀ change : Proc → Proc,
      (change (k.proc rp)).account = (k.proc rp).account →
      ((change (k.proc rp)).pFlags.receiving = true → (k.proc rp).pFlags.receiving = true) →
      (change (k.proc rp)).pGetfrom = (k.proc rp).pGetfrom → k.Quiet (k.modify rp change) :=
    fun change account receiving getfrom => State.quiet_modify account
      fun _ receives fromAny => ⟨receiving receives, getfrom ▸ fromAny⟩
  unfold interrupt at completed
  split at completed
  case isTrue =>
    split at completed
    case isTrue =>
      obtain rfl := some.inj completed
      exact .refl k
    case isFalse =>
      obtain rfl := some.inj completed
      obtain ⟨ledger, waits⟩ := note (fun entry => { entry with pIntHeld := true }) rfl id rfl
      exact ⟨ledger, waits⟩
  case isFalse =>
    split at completed
    case isTrue =>
      obtain rfl := some.inj completed
      exact note _ rfl id rfl
    case isFalse =>
      obtain ⟨ledger, waits⟩ := note (fun entry => { entry with
        pFlags := { entry.pFlags with receiving := false }, pIntBlocked := false }) rfl nofun rfl
      have notified : k.Quiet ((k.emit [.notified rp]).modify rp fun entry => { entry with
        pFlags := { entry.pFlags with receiving := false }, pIntBlocked := false }) :=
        ⟨ledger, waits⟩
      exact notified.trans (ready_rescheduled completed).quiet

theorem unhold_quiet (completed : unhold k = some k') : k.Quiet k' := by
  unfold unhold at completed
  split at completed
  · obtain rfl := some.inj completed
    exact .refl k
  · rename_i rp rest _
    let k₁ : State := { k with held := rest }
    have rested : k.Quiet k₁ := ⟨rfl, id⟩
    have noted : k₁.Quiet (k₁.modify rp fun entry => { entry with pIntHeld := false }) :=
      State.quiet_modify rfl fun _ receiving getfrom => ⟨receiving, getfrom⟩
    exact (rested.trans noted).trans (interrupt_quiet completed)

theorem doNewmap_quiet {n : Int} {map : MemMap} (completed : doNewmap k n map = some (k', result)) :
    k.Quiet k' := by
  unfold doNewmap at completed
  split at completed
  · obtain ⟨rfl, -⟩ := Prod.mk.inj (some.inj completed)
    exact .refl k
  · rename_i rp _
    obtain ⟨k₁, mapped, same⟩ := bind_eq_some_iff.mp completed
    obtain ⟨rfl, -⟩ := Prod.mk.inj (some.inj same)
    have installed : k.Quiet (k.modify rp fun entry =>
        { entry with pMap := map, pFlags := { entry.pFlags with noMap := false } }) :=
      State.quiet_modify rfl fun _ receiving getfrom => ⟨receiving, getfrom⟩
    split at mapped
    · exact installed.trans (readyIfClear_rescheduled mapped).quiet
    · obtain rfl := some.inj mapped
      exact installed

theorem doTrace_quiet {request : TraceRequest} {p : Slot}
    (completed : doTrace k request p = some (k', result)) : k.Quiet k' := by
  have stop : ∀ (k : State) (set : Bool), k.Quiet
      (k.setFlags p fun flags => { flags with pStop := set }) :=
    fun k set => State.quiet_setFlags rfl id
  unfold doTrace at completed
  split at completed
  · obtain ⟨rfl, -⟩ := Prod.mk.inj (some.inj completed)
    exact .refl k
  split at completed
  · obtain ⟨k₁, slept, same⟩ := bind_eq_some_iff.mp completed
    obtain ⟨rfl, -⟩ := Prod.mk.inj (some.inj same)
    exact (unreadyIfClear_rescheduled slept).quiet.trans (stop k₁ true)
  · obtain ⟨rfl, -⟩ := Prod.mk.inj (some.inj completed)
    exact .refl k
  · obtain ⟨k₁, resumed, same⟩ := bind_eq_some_iff.mp completed
    obtain ⟨rfl, -⟩ := Prod.mk.inj (some.inj same)
    exact (stop k false).trans (readyIfClear_rescheduled resumed).quiet

section

variable (inv : Invariant scope k)
include inv

theorem doExec_signalled {p : Slot} {traced : Bool} (completed : doExec k p traced = some k') :
    ∃ events, k.Signalled False events k' ∧
      Asynchronous (fun sigNr => traced = true ∧ sigNr = sigtrap) events := by
  obtain ⟨permitted, completed⟩ := ite_none_left_eq_some.mp completed
  have user : k.priority p = .user := (k.isuserp_iff p).mp (by simpa using permitted)
  obtain ⟨k₁, trapped, readied⟩ := bind_eq_some_iff.mp completed
  have resumed : k₁.Quiet k' :=
    (State.quiet_setFlags rfl fun set => by cases set).trans
      (readyIfClear_rescheduled readied).quiet
  split at trapped
  case isTrue isTraced =>
    obtain ⟨events, signalled, kinds⟩ := causeSig_signalled inv user trapped
    exact ⟨events, signalled.quiet resumed, kinds.mono fun _ same => ⟨isTraced, same⟩⟩
  case isFalse =>
    obtain rfl := some.inj trapped
    exact ⟨[], resumed.signalled, .none⟩

theorem doFork_signalled {parent child : Slot} (completed : doFork k parent child = some k') :
    k.Signalled False [.forked child] k' := by
  obtain ⟨permitted, completed⟩ := ite_none_right_eq_some.mp completed
  obtain rfl := some.inj completed
  rw [Bool.and_eq_true, State.isuserp_iff, State.isemptyp_iff] at permitted
  have apart : mm ≠ child := by
    rintro rfl
    exact (inv.entries mm).notSystem_of_dead permitted.2 (by decide)
  have unset : (k.ledger.account child).pending = false :=
    congrArg Flags.pending ((inv.entries child).empty permitted.2)
  refine ⟨?_, fun waits => .inl ⟨?_, le_rfl⟩, by simp⟩
  · have ledger : ∀ k₁ : State, (k₁.emit [.forked parent child]).ledger = k₁.ledger :=
      fun _ => rfl
    rw [ledger, State.ledger_modify]
    have account : ({ user := true } : Account) = Proc.account { k.proc parent with
        pFlags := { (k.proc parent).pFlags with
          noMap := true, pending := false, sigPending := false, pStop := false }
        pPending := ∅
        pPendcount := 0 } := by
      simp [Proc.account, permitted.1]
    rw [← account]
    exact @Ledger.After.single (.forked child) _ unset
  · simpa [State.mmWaits, apart] using waits

theorem doXit_signalled {parent rc : Slot} (completed : doXit k parent rc = some k') :
    k.Signalled False [.exited rc] k' := by
  obtain ⟨permitted, completed⟩ := ite_none_right_eq_some.mp completed
  rw [Bool.and_eq_true, State.isuserp_iff, State.isuserp_iff] at permitted
  have apart : mm ≠ rc := by
    rintro rfl
    exact (inv.entries mm).notSystem permitted.2 (by decide)
  obtain ⟨asleep, slept, completed⟩ := bind_eq_some_iff.mp completed
  obtain ⟨unlinked, unlink, completed⟩ := bind_eq_some_iff.mp completed
  obtain rfl := some.inj completed
  have unqueued : asleep.Quiet unlinked := by
    split at unlink
    · exact (unlinkSender_relinked unlink).quiet
    · obtain rfl := some.inj unlink
      exact .refl asleep
  have quiet := (unreadyIfClear_rescheduled slept).quiet.trans unqueued
  refine quiet.before ⟨?_, fun waits => .inl ?_, by simp⟩
  · let k₁ : State := { unlinked with
      sigProcs := if (unlinked.proc rc).pFlags.pending then unlinked.sigProcs - 1
        else unlinked.sigProcs }
    have ledger : ∀ k₁ : State, (k₁.emit [.exited rc]).ledger = k₁.ledger := fun _ => rfl
    rw [ledger, State.ledger_modify]
    exact @Ledger.After.single (.exited rc) _ trivial
  · refine ⟨by simpa [State.mmWaits, apart] using waits, ?_⟩
    show (if (unlinked.proc rc).pFlags.pending then unlinked.sigProcs - 1
      else unlinked.sigProcs) ≤ unlinked.sigProcs
    split <;> omega

end

theorem doEndsig_signalled {p : Slot} (completed : doEndsig k p = some (k', result)) :
    k.Signalled False
      (if k.isuserp p = true ∧ (k.proc p).pPendcount ≠ 0 then [.ended p] else []) k' := by
  unfold doEndsig at completed
  split at completed
  case isTrue dead =>
    obtain ⟨rfl, -⟩ := Prod.mk.inj (some.inj completed)
    have notUser : ¬ k.isuserp p = true := fun user => by
      rw [State.isuserp_iff] at user
      rw [State.isemptyp_iff, user] at dead
      cases dead
    rw [if_neg fun both => notUser both.1]
    exact (State.Quiet.refl k).signalled
  obtain ⟨user, completed⟩ := ite_none_left_eq_some.mp completed
  split at completed
  case isTrue none =>
    obtain ⟨rfl, -⟩ := Prod.mk.inj (some.inj completed)
    rw [if_neg fun both => both.2 none]
    exact (State.Quiet.refl k).signalled
  case isFalse some =>
    rw [if_pos ⟨by simpa using user, some⟩]
    let k₁ := k.modify p fun entry => { entry with pPendcount := entry.pPendcount - 1 }
    have ended : k.Signalled False [.ended p] k₁ := by
      refine ⟨?_, fun waits => .inl ⟨?_, le_rfl⟩, by simp⟩
      · rw [State.ledger_modify]
        exact @Ledger.After.single (.ended p) _ trivial
      · by_cases same : mm = p <;> simpa [k₁, State.mmWaits, same] using waits
    dsimp only at completed
    split at completed
    case isTrue =>
      obtain ⟨rfl, -⟩ := Prod.mk.inj (Option.some.inj completed)
      exact ended
    case isFalse =>
      obtain ⟨k₂, woken, same⟩ := bind_eq_some_iff.mp completed
      obtain ⟨rfl, -⟩ := Prod.mk.inj (Option.some.inj same)
      exact ended.quiet ((State.quiet_setFlags rfl id).trans
        (readyIfClear_rescheduled woken).quiet)

/-- The signal that a kernel entry may cause. -/
def Call.signal : Call → Option Nat
  | .causeSig _ sigNr => some sigNr
  | .kill _ sigNr => some sigNr
  | .exec _ true => some sigtrap
  | _ => none

/-- What a kernel entry does to signals. -/
def Call.Events (k : State) : Call → List SignalEvent → Prop
  | .fork _ child, events => events = [.forked child]
  | .xit _ p, events => events = [.exited p]
  | .endsig p, events =>
    events = if k.isuserp p = true ∧ (k.proc p).pPendcount ≠ 0 then [.ended p] else []
  | call, events => Asynchronous (fun sigNr => call.signal = some sigNr) events

theorem step_signalled {call : Call} (inv : Invariant scope k) (counted : k.ledger.Counted)
    (contract : Contract k call) (completed : step k call = some k') :
    ∃ events, k.Signalled (call.receivesAny k = true) events k' ∧ call.Events k events := by
  have first : ∀ {after : Option (State × Result)}, after.map Prod.fst = some k' →
      ∃ result, after = some (k', result) := by
    rintro after found
    obtain ⟨⟨_, result⟩, same, rfl⟩ := Option.map_eq_some_iff.mp found
    exact ⟨result, same⟩
  have none : ∀ events, Asynchronous (fun _ => False) events →
      Asynchronous (fun sigNr => call.signal = some sigNr) events :=
    fun _ kinds => kinds.mono fun _ => False.elim
  cases call with
  | sysCall function srcDest mPtr =>
    obtain ⟨result, completed⟩ := first completed
    obtain ⟨events, signalled, kinds⟩ := sysCall_signalled inv counted contract completed
    exact ⟨events, signalled, none events kinds⟩
  | interrupt task competing => exact ⟨[], (interrupt_quiet completed).signalled, .none⟩
  | unhold => exact ⟨[], (unhold_quiet completed).signalled, .none⟩
  | sched => exact ⟨[], (sched_rescheduled completed).quiet.signalled, .none⟩
  | causeSig p sigNr =>
    obtain ⟨events, signalled, kinds⟩ :=
      causeSig_signalled inv ((k.isuserp_iff p).mp contract) completed
    exact ⟨events, signalled.mono False.elim, kinds.mono fun _ same => congrArg some same.symm⟩
  | fork parent child => exact ⟨_, (doFork_signalled inv completed).mono False.elim, rfl⟩
  | newmap n map =>
    obtain ⟨result, completed⟩ := first completed
    exact ⟨[], (doNewmap_quiet completed).signalled, .none⟩
  | exec p traced =>
    obtain ⟨events, signalled, kinds⟩ := doExec_signalled inv completed
    refine ⟨events, signalled.mono False.elim, kinds.mono ?_⟩
    rintro _ ⟨rfl, rfl⟩
    rfl
  | xit parent p => exact ⟨_, (doXit_signalled inv completed).mono False.elim, rfl⟩
  | trace request p =>
    obtain ⟨result, completed⟩ := first completed
    exact ⟨[], (doTrace_quiet completed).signalled, .none⟩
  | kill p sigNr =>
    change doKill k p sigNr = some k' at completed
    obtain ⟨user, completed⟩ := ite_none_right_eq_some.mp completed
    obtain ⟨events, signalled, kinds⟩ :=
      causeSig_signalled inv ((k.isuserp_iff p).mp user) completed
    exact ⟨events, signalled.mono False.elim, kinds.mono fun _ same => congrArg some same.symm⟩
  | endsig p =>
    obtain ⟨result, completed⟩ := first completed
    exact ⟨_, (doEndsig_signalled completed).mono False.elim, rfl⟩

end Entries

/-! ### No signal is stranded -/

/-- `sig_procs` is right, and MM does not wait while a process has a signal it was not told of. -/
structure NoneStranded (k : State) : Prop where
  counted : k.ledger.Counted
  told : k.mmWaits → k.sigProcs = 0

theorem NoneStranded.step {k k' : State} {call : Call} (stranded : NoneStranded k)
    (inv : Invariant .system k) (contract : Contract k call)
    (completed : step k call = some k') : NoneStranded k' := by
  obtain ⟨events, signalled, -⟩ := step_signalled inv stranded.counted contract completed
  have counted := stranded.counted.after signalled.after
  refine ⟨counted, fun waits => ?_⟩
  have atLeast : 0 ≤ k'.sigProcs := by
    rw [show k'.sigProcs = k'.ledger.procs from rfl, counted]
    exact Int.natCast_nonneg _
  rcases signalled.waits waits with ⟨before, notMore⟩ | ⟨-, none⟩
  · rw [stranded.told before] at notMore
    exact le_antisymm notMore atLeast
  · exact le_antisymm none atLeast

/-- The table invariant together with the count. -/
structure SignalInvariant (k : State) : Prop where
  table : Invariant .system k
  stranded : NoneStranded k

theorem main_signalInvariant {maps : Slot → MemMap} {sysMessage : UInt32} {k : State}
    (started : main maps sysMessage = some k) : SignalInvariant k := by
  obtain ⟨k₀, started₀, inv, -⟩ := main_invariant .system maps sysMessage
  obtain rfl := some.inj (started₀.symm.trans started)
  obtain ⟨s, s', started', -⟩ := main_boots maps sysMessage
  obtain rfl := some.inj (started'.symm.trans started)
  refine ⟨inv, ?_, fun _ => rfl⟩
  rfl

theorem SignalInvariant.step {k k' : State} {call : Call} (inv : SignalInvariant k)
    (contract : Contract k call) (completed : step k call = some k') : SignalInvariant k' :=
  ⟨(step_later inv.table contract (inv.table.undivided completed) completed).invariant,
    inv.stranded.step inv.table contract completed⟩

theorem Reaches.signalInvariant {maps : Slot → MemMap} {sysMessage : UInt32} {calls : List Call}
    {k : State} (reached : Reaches Contract maps sysMessage calls k) : SignalInvariant k := by
  obtain ⟨start, started, run⟩ := reached
  exact run.invariant (main_signalInvariant started) fun _ _ _ inv => inv.step

/-- No signal is stranded in the kernel: whatever the order of entries, `sig_procs` is the number
of processes with PENDING, and MM is not blocked in RECEIVE from ANY while it is positive. -/
theorem no_signal_stranded {maps : Slot → MemMap} {sysMessage : UInt32} {calls : List Call}
    {k : State} (reached : Reaches Contract maps sysMessage calls k) :
    k.sigProcs = (Finset.univ.filter fun p => (k.proc p).pFlags.pending = true).card ∧
      ¬ ((k.proc mm).pFlags.receiving = true ∧ (k.proc mm).pGetfrom = any ∧ 0 < k.sigProcs) := by
  have stranded := reached.signalInvariant.stranded
  refine ⟨stranded.counted, fun ⟨receiving, getfrom, positive⟩ => ?_⟩
  rw [stranded.told ⟨receiving, getfrom⟩] at positive
  exact absurd positive (lt_irrefl 0)

/-- Every task and server waits for a message; then `INIT` gets a signal, of which MM is informed,
and another one, of which MM is not, because it is busy with the first. -/
theorem no_signal_stranded_busy :
    ∃ k, Reaches Contract (fun _ => { stackLen := 1024 }) 0
        (List.replicate 10 (.sysCall .receive any 0) ++ [.causeSig init 2, .causeSig init 15]) k ∧
      k.sigProcs = 1 ∧
      (Finset.univ.filter fun p => (k.proc p).pFlags.pending = true).card = 1 := by
  have executed : ((main (fun _ => { stackLen := 1024 }) 0).bind fun start =>
      (Transition.execute step Contract
        (List.replicate 10 (.sysCall .receive any 0) ++ [.causeSig init 2, .causeSig init 15])
        start).map State.sigProcs) = some 1 := by decide +kernel
  obtain ⟨start, started, executed⟩ := bind_eq_some_iff.mp executed
  obtain ⟨k, executed, sigProcs⟩ := Option.map_eq_some_iff.mp executed
  have reached : Reaches Contract (fun _ => { stackLen := 1024 }) 0
      (List.replicate 10 (.sysCall .receive any 0) ++ [.causeSig init 2, .causeSig init 15]) k :=
    ⟨start, started, .of_execute executed⟩
  refine ⟨k, reached, sigProcs, ?_⟩
  have counted := (no_signal_stranded reached).1
  rw [sigProcs] at counted
  exact_mod_cast counted.symm

end Minix.Kernel
