/-
This file proves that no interrupt of a task is lost: from the call of `interrupt` on until the task
receives the message, the interrupt is on the held list or recorded in the task's entry, and a task
that waits for an interrupt has none recorded.

`mini_rec` takes ordinary messages first. So an interrupt that is recorded is received by a RECEIVE
that finds no ordinary message, and a task that always finds one does not receive it.
-/

import Minix.Kernel.Machine
import Minix.Library.Endless

namespace Minix.Kernel

open LinkedList Transition
open Option (some.inj bind_eq_some_iff ite_none_left_eq_some ite_none_right_eq_some)

/-! ### Receiving an interrupt -/

/-- The process waits for an interrupt: the condition under which `interrupt` sends the message. -/
def Proc.awaitsHardware (entry : Proc) : Bool :=
  entry.pFlags.receiving && !entry.pFlags.sending && isrxhardware entry.pGetfrom

/-- `mini_rec` finds no ordinary message and takes the interrupt that is recorded. -/
def State.takesInterrupt (k : State) (caller : Slot) (src : Int) : Bool :=
  !(k.proc caller).pFlags.sending &&
    scan k.sendlink (accepts src) tableSize none (k.callerq caller) == some none &&
      (k.proc caller).pIntBlocked && isrxhardware src

/-- The running process takes a recorded interrupt in its system call. -/
def State.sysCallTakes (k : State) (function : SysFunction) (srcDest : Int) (mPtr : UInt32) :
    Bool :=
  isoksrcDest srcDest && !(k.isuserp k.procPtr && function != .both) &&
    match function with
    | .send => false
    | .receive => k.takesInterrupt k.procPtr srcDest
    | .both =>
      match miniSend k k.procPtr srcDest mPtr with
      | some (k', .ok) => k'.takesInterrupt k.procPtr srcDest
      | _ => false

/-- Between two states HARD_INT has been written into the buffer of the task. -/
def HardInt (k k' : State) (task : Slot) : Prop :=
  ∃ events, k'.history = k.history ++ events ∧ .notified task ∈ events

theorem HardInt.later {k k₁ k' : State} {task : Slot} {events : List Event}
    (sent : HardInt k k₁ task) (grown : k'.history = k₁.history ++ events) :
    HardInt k k' task := by
  obtain ⟨before, history, member⟩ := sent
  exact ⟨before ++ events, by rw [grown, history, List.append_assoc],
    List.mem_append_left _ member⟩

theorem HardInt.earlier {k k₁ k' : State} {task : Slot} {events : List Event}
    (grown : k₁.history = k.history ++ events) (sent : HardInt k₁ k' task) :
    HardInt k k' task := by
  obtain ⟨after, history, member⟩ := sent
  exact ⟨events ++ after, by rw [history, grown, List.append_assoc],
    List.mem_append_right _ member⟩

/-- The interrupts of the task that have not been received yet: on the held list, or recorded. -/
def State.Owed (k : State) (task : Slot) : Prop := task ∈ k.held ∨ (k.proc task).pIntBlocked = true

/-- The held list holds each task once, and `p_int_held` says which ones. A process that waits for
an interrupt has none recorded, and user processes have no interrupts. -/
structure IntOk (k : State) : Prop where
  once : k.held.Nodup
  held : ∀ p, (k.proc p).pIntHeld = true ↔ p ∈ k.held
  blocked : ∀ p, (k.proc p).pIntBlocked = true → (k.proc p).awaitsHardware = false
  system : ∀ p, (k.proc p).pIntBlocked = true → p < init

/-! ### What leaves interrupts alone -/

/-- No interrupt is recorded, held or received, and no process with a recorded interrupt starts to
wait for one. -/
structure State.Calm (k k' : State) : Prop where
  held : k'.held = k.held
  flags : ∀ p, (k'.proc p).pIntBlocked = (k.proc p).pIntBlocked ∧
    (k'.proc p).pIntHeld = (k.proc p).pIntHeld
  awaits : ∀ p, (k.proc p).pIntBlocked = true → (k'.proc p).awaitsHardware = true →
    (k.proc p).awaitsHardware = true

section Calm

variable {k k₁ k' : State} {p caller dest sender : Slot} {src : Int} {mPtr : UInt32}
  {change : Proc → Proc}

theorem State.Calm.refl (k : State) : k.Calm k := ⟨rfl, fun _ => ⟨rfl, rfl⟩, fun _ _ => id⟩

theorem State.Calm.trans (first : k.Calm k₁) (second : k₁.Calm k') : k.Calm k' where
  held := second.held.trans first.held
  flags p :=
    ⟨(second.flags p).1.trans (first.flags p).1, (second.flags p).2.trans (first.flags p).2⟩
  awaits p blocked waits :=
    first.awaits p blocked (second.awaits p ((first.flags p).1.trans blocked) waits)

theorem State.Rescheduled.calm (changed : k.Rescheduled k') : k.Calm k' := by
  obtain ⟨s, rfl⟩ := changed
  exact ⟨rfl, fun _ => ⟨rfl, rfl⟩, fun _ _ => id⟩

theorem State.Relinked.calm (changed : k.Relinked k') : k.Calm k' := by
  obtain ⟨links, heads, rfl⟩ := changed
  exact ⟨rfl, fun _ => ⟨rfl, rfl⟩, fun _ _ => id⟩

/-- A change of an entry that leaves its interrupts alone and does not make it wait for one. -/
theorem State.calm_modify (blocked : (change (k.proc p)).pIntBlocked = (k.proc p).pIntBlocked)
    (held : (change (k.proc p)).pIntHeld = (k.proc p).pIntHeld)
    (awaits : (k.proc p).pIntBlocked = true → (change (k.proc p)).awaitsHardware = true →
      (k.proc p).awaitsHardware = true) : k.Calm (k.modify p change) := by
  refine ⟨rfl, fun q => ?_, fun q => ?_⟩ <;> by_cases same : q = p
  · subst same
    simpa using ⟨blocked, held⟩
  · simp [same]
  · subst same
    simpa using awaits
  · simp [same]

/-- Flags other than RECEIVING change, or RECEIVING is cleared, or SENDING is set. -/
theorem State.calm_setFlags {change : Flags → Flags}
    (receiving : (change (k.proc p).pFlags).receiving = true → (k.proc p).pFlags.receiving = true)
    (sending : (change (k.proc p).pFlags).sending = false → (k.proc p).pFlags.sending = false) :
    k.Calm (k.setFlags p change) := by
  refine State.calm_modify rfl rfl fun _ waits => ?_
  simp only [Proc.awaitsHardware, Bool.and_eq_true, Bool.not_eq_true'] at waits ⊢
  exact ⟨⟨receiving waits.1.1, sending waits.1.2⟩, waits.2⟩

theorem deliver_calm (completed : deliver k caller dest mPtr = some k') : k.Calm k' := by
  unfold deliver at completed
  have emitted : k.Calm (k.emit [.delivered caller dest mPtr (k.proc dest).pMessbuf]) :=
    ⟨rfl, fun _ => ⟨rfl, rfl⟩, fun _ _ => id⟩
  refine (emitted.trans (State.calm_setFlags (fun set => ?_) id)).trans
    (readyIfClear_rescheduled completed).calm
  cases set

theorem blockSender_calm (completed : blockSender k caller dest mPtr = some k') :
    k.Calm k' := by
  obtain ⟨asleep, slept, completed⟩ := bind_eq_some_iff.mp completed
  obtain ⟨queued, append, completed⟩ := bind_eq_some_iff.mp completed
  obtain rfl := some.inj completed
  have noted : k.Calm (k.modify caller fun entry => { entry with pMessbuf := mPtr }) :=
    State.calm_modify rfl rfl fun _ => id
  have sends : asleep.Calm (asleep.modify caller fun entry =>
      { entry with pFlags := { entry.pFlags with sending := true }, pSendto := dest }) :=
    State.calm_modify rfl rfl fun _ waits => by simp [Proc.awaitsHardware] at waits
  have appended : queued.Calm (queued.emit [.blocked caller dest mPtr]) :=
    ⟨rfl, fun _ => ⟨rfl, rfl⟩, fun _ _ => id⟩
  exact (((noted.trans (unreadyIfClear_rescheduled slept).calm).trans sends).trans
    (appendCaller_relinked append).calm).trans appended

theorem miniSend_calm {n : Int} {result : Result}
    (completed : miniSend k caller n mPtr = some (k', result)) : k.Calm k' := by
  rcases miniSend_cases completed with ⟨rfl, -⟩ |
    ⟨dest, rfl, -, -, -, -, ⟨-, delivered⟩ | ⟨-, blocked⟩⟩
  · exact .refl k'
  · exact deliver_calm delivered
  · exact blockSender_calm blocked

theorem inform_calm (completed : inform k = some k') : k.Calm k' := by
  unfold inform at completed
  split at completed
  · obtain rfl := some.inj completed
    exact .refl k
  · obtain ⟨⟨sent, result⟩, send, completed⟩ := bind_eq_some_iff.mp completed
    have calm := miniSend_calm send
    obtain ⟨-, completed⟩ := ite_none_left_eq_some.mp completed
    obtain rfl := some.inj completed
    have told : k.Calm sent := ⟨calm.held, calm.flags, calm.awaits⟩
    exact (told.trans (State.calm_modify rfl rfl fun _ => id)).trans
      (State.Rescheduled.refl _).pickProc.calm

theorem causeSig_calm {sigNr : Nat} (completed : causeSig k p sigNr = some k') : k.Calm k' := by
  unfold causeSig at completed
  split at completed
  · obtain rfl := some.inj completed
    exact .refl k
  dsimp only at completed
  split at completed
  · obtain rfl := some.inj completed
    exact State.calm_modify rfl rfl fun _ => id
  obtain ⟨asleep, slept, completed⟩ := bind_eq_some_iff.mp completed
  let flagged := asleep.setFlags p fun flags => { flags with pending := true, sigPending := true }
  have calm : k.Calm { flagged with sigProcs := flagged.sigProcs + 1 } := by
    have noted : k.Calm (k.modify p fun entry =>
        { entry with
          pPending := insert sigNr entry.pPending
          pPendcount := entry.pPendcount + 1 }) :=
      State.calm_modify rfl rfl fun _ => id
    obtain ⟨held, flags, awaits⟩ := (noted.trans (unreadyIfClear_rescheduled slept).calm).trans
      (State.calm_setFlags id id : asleep.Calm flagged)
    exact ⟨held, flags, awaits⟩
  split at completed
  · obtain rfl := some.inj completed
    exact calm
  · exact calm.trans (inform_calm completed)

/-- A sender that is taken goes on, or waits for the answer of the process that took it. -/
theorem takeSender_calm {previous : Option Slot}
    (answer : (k.proc sender).pFlags.receiving = true →
      isrxhardware (k.proc sender).pGetfrom = false)
    (completed : takeSender k caller src mPtr previous sender = some k') : k.Calm k' := by
  unfold takeSender at completed
  let k₁ := k.emit [.received sender caller src (k.proc sender).pMessbuf mPtr]
  obtain ⟨links, heads, unlinked⟩ := unlinkFrom_relinked k₁ caller previous sender
  have relinked : k.Calm (unlinkFrom k₁ caller previous sender) :=
    (⟨rfl, fun _ => ⟨rfl, rfl⟩, fun _ _ => id⟩ : k.Calm k₁).trans
      (unlinkFrom_relinked k₁ caller previous sender).calm
  refine (relinked.trans (State.calm_modify rfl rfl fun _ waits => ?_)).trans
    (readyIfClear_rescheduled completed).calm
  rw [unlinked] at waits
  simp only [Proc.awaitsHardware, Bool.and_eq_true] at waits
  have quiet := answer waits.1.1
  rw [show isrxhardware (k.proc sender).pGetfrom = true from waits.2] at quiet
  cases quiet

/-- A process that blocks in RECEIVE has no recorded interrupt that it would accept. -/
theorem blockReceiver_calm
    (none : (k.proc caller).pIntBlocked = true → (k.proc caller).pFlags.sending = false →
      isrxhardware src = false)
    (completed : blockReceiver k caller src mPtr = some k') : k.Calm k' := by
  obtain ⟨k₁, slept, completed⟩ := bind_eq_some_iff.mp completed
  obtain ⟨s, rfl⟩ := unreadyIfClear_rescheduled slept
  let k₂ := ((k.modify caller fun entry =>
    { entry with pGetfrom := src, pMessbuf := mPtr }).withSchedule s).setFlags caller
      fun flags => { flags with receiving := true }
  have calm : k.Calm k₂ := by
    refine ⟨rfl, fun q => ?_, fun q blocked waits => ?_⟩ <;> by_cases same : q = caller
    · subst same
      simp [k₂, State.setFlags, State.withSchedule]
    · simp [k₂, State.setFlags, State.withSchedule, same]
    · subst same
      simp only [k₂, State.setFlags, State.withSchedule, State.modify_proc, if_pos,
        Proc.awaitsHardware, Bool.true_and, Bool.and_eq_true, Bool.not_eq_true'] at waits
      rw [none blocked waits.1] at waits
      exact absurd waits.2 Bool.false_ne_true
    · simp only [k₂, State.setFlags, State.withSchedule, State.modify_proc, if_neg same] at waits
      exact waits
  dsimp only at completed
  split at completed
  · exact calm.trans (inform_calm completed)
  · obtain rfl := some.inj completed
    exact calm

end Calm

/-! ### Receiving -/

section Receiving

variable {scope : Scope} {k k' : State} {p caller sender : Slot} {src : Int} {mPtr : UInt32}

/-- The recorded interrupt is taken. -/
def State.clearBlocked (k : State) (p : Slot) : State :=
  (k.emit [.notified p]).modify p fun entry => { entry with pIntBlocked := false }

section

variable (inv : Invariant scope k)
include inv

theorem Invariant.answer (sends : (k.proc sender).pFlags.sending = true)
    (dest : (k.proc sender).pSendto ≠ hardware) :
    (k.proc sender).pFlags.receiving = true → isrxhardware (k.proc sender).pGetfrom = false := by
  intro receives
  rw [(inv.entries sender).sendrec sends receives, isrxhardware, Bool.or_eq_false_iff]
  refine ⟨by simpa using procNumber_ne_any _, ?_⟩
  simpa using fun same => dest (procNumber_injective same)

theorem miniRec_interrupts (may : MayReceive k caller src mPtr)
    (completed : miniRec k caller src mPtr = some k') :
    k.takesInterrupt caller src = true ∧ k' = k.clearBlocked caller ∨
      k.takesInterrupt caller src = false ∧ k.Calm k' := by
  unfold miniRec at completed
  rw [State.takesInterrupt]
  split at completed
  case isTrue sending =>
    refine .inr ⟨by simp [sending], blockReceiver_calm (fun _ notSending => ?_) completed⟩
    rw [sending] at notSending
    cases notSending
  case isFalse sending =>
    split at completed
    case h_1 => cases completed
    case h_2 previous sender walk =>
      refine .inr ⟨by rw [walk]; simp, takeSender_calm ?_ completed⟩
      by_cases covers : scope.Covers caller
      · rw [(inv.chain caller covers).scan_eq (accepts src) (inv.chain caller covers).length_le
          none, Option.some.injEq] at walk
        obtain ⟨front, back, split, -⟩ := locate_eq_some walk
        obtain ⟨sends, dest⟩ := inv.sending covers (p := sender) (by simp [split])
        exact inv.answer sends (dest ▸ (may.live inv).2.2)
      · have found := scan_found (k.Loose scope) (by simp)
          (fun p head => inv.looseHead caller p covers head) inv.looseLink walk
        obtain ⟨sends, outside⟩ := found.2.1.sending
        refine inv.answer sends fun same => outside ?_
        rw [same]
        cases scope with
        | system => exact (by decide : hardware < init)
        | every => exact trivial
    case h_3 walk =>
      split at completed
      case isTrue takes =>
        obtain rfl := some.inj completed
        rw [Bool.and_eq_true] at takes
        refine .inl ⟨?_, rfl⟩
        rw [walk]
        simp [sending, takes.1, takes.2]
      case isFalse leaves =>
        refine .inr ⟨?_, blockReceiver_calm (fun blocked _ => ?_) completed⟩
        · rw [Bool.and_assoc, Bool.eq_false_iff.mpr leaves, Bool.and_false]
        · simpa [blocked] using leaves

/-- A system call that takes a recorded interrupt does nothing else about interrupts. -/
theorem sysCall_interrupts {function : SysFunction} {srcDest : Int} {result : Result}
    (notIdle : k.procPtr ≠ idle) (completed : sysCall k function srcDest mPtr = some (k', result)) :
    k.sysCallTakes function srcDest mPtr = true ∧
        (∃ k₁, k.Calm k₁ ∧ k' = k₁.clearBlocked k.procPtr ∧ HardInt k k' k.procPtr) ∨
      k.sysCallTakes function srcDest mPtr = false ∧ k.Calm k' := by
  have runs := inv.runs notIdle
  unfold State.sysCallTakes
  unfold sysCall at completed
  split at completed
  case isTrue badDest =>
    obtain ⟨rfl, -⟩ := Prod.mk.inj (some.inj completed)
    rw [Bool.not_eq_true'] at badDest
    exact .inr ⟨by rw [badDest]; rfl, .refl k⟩
  case isFalse okDest =>
    rw [Bool.not_eq_true', Bool.not_eq_false] at okDest
    dsimp only at completed
    split at completed
    case isTrue noPerm =>
      obtain ⟨rfl, -⟩ := Prod.mk.inj (some.inj completed)
      exact .inr ⟨by rw [noPerm, okDest]; rfl, .refl k⟩
    case isFalse permitted =>
      rw [okDest, Bool.eq_false_iff.mpr permitted]
      split at completed
      case isTrue receives =>
        subst receives
        obtain ⟨after, received, same⟩ := bind_eq_some_iff.mp completed
        obtain ⟨rfl, -⟩ := Prod.mk.inj (some.inj same)
        rcases miniRec_interrupts inv (.inl runs) received with ⟨takes, rfl⟩ | ⟨leaves, calm⟩
        · exact .inl ⟨takes, k, .refl k, rfl, _, rfl, List.mem_singleton_self _⟩
        · exact .inr ⟨leaves, calm⟩
      case isFalse sends =>
        obtain ⟨⟨k₁, sent⟩, send, completed⟩ := bind_eq_some_iff.mp completed
        have calm := miniSend_calm send
        obtain ⟨later, entered⟩ := miniSend_later inv notIdle sends send
        cases function with
        | receive => exact absurd rfl sends
        | send =>
          rw [if_pos (.inl rfl)] at completed
          obtain ⟨rfl, -⟩ := Prod.mk.inj (some.inj completed)
          exact .inr ⟨rfl, calm⟩
        | both =>
          cases sent with
          | ok =>
            rw [if_neg (by simp)] at completed
            obtain ⟨after, received, same⟩ := bind_eq_some_iff.mp completed
            obtain ⟨rfl, -⟩ := Prod.mk.inj (some.inj same)
            simp only [send]
            rcases miniRec_interrupts later.invariant (entered rfl).1 received with
              ⟨takes, rfl⟩ | ⟨leaves, calm'⟩
            · obtain ⟨-, events, grown, -⟩ := later
              have sent : HardInt k₁ (k₁.clearBlocked k.procPtr) k.procPtr :=
                ⟨_, rfl, List.mem_singleton_self _⟩
              exact .inl ⟨takes, k₁, calm, rfl, sent.earlier grown⟩
            · exact .inr ⟨leaves, calm.trans calm'⟩
          | _ =>
            rw [if_pos (.inr (by simp))] at completed
            obtain ⟨rfl, -⟩ := Prod.mk.inj (some.inj completed)
            simp only [send]
            exact .inr ⟨rfl, calm⟩

end

end Receiving

/-! ### The handlers of the system task -/

section Handlers

variable {k k' : State} {p : Slot} {result : Result}

theorem doNewmap_calm {n : Int} {map : MemMap} (completed : doNewmap k n map = some (k', result)) :
    k.Calm k' := by
  unfold doNewmap at completed
  split at completed
  · obtain ⟨rfl, -⟩ := Prod.mk.inj (some.inj completed)
    exact .refl k
  case h_2 rp _ =>
    obtain ⟨after, awoken, same⟩ := bind_eq_some_iff.mp completed
    obtain ⟨rfl, -⟩ := Prod.mk.inj (some.inj same)
    have mapped : k.Calm (k.modify rp fun entry =>
        { entry with pMap := map, pFlags := { entry.pFlags with noMap := false } }) :=
      State.calm_modify rfl rfl fun _ => id
    refine mapped.trans ?_
    split at awoken
    · exact (readyIfClear_rescheduled awoken).calm
    · obtain rfl := some.inj awoken
      exact .refl _

theorem doExec_calm {traced : Bool} (completed : doExec k p traced = some k') : k.Calm k' := by
  obtain ⟨-, completed⟩ := ite_none_left_eq_some.mp completed
  obtain ⟨signalled, signal, completed⟩ := bind_eq_some_iff.mp completed
  have calm : k.Calm signalled := by
    split at signal
    · exact causeSig_calm signal
    · obtain rfl := some.inj signal
      exact .refl k
  refine (calm.trans (State.calm_setFlags (fun set => ?_) id)).trans
    (readyIfClear_rescheduled completed).calm
  cases set

theorem doXit_calm {parent : Slot} (completed : doXit k parent p = some k') : k.Calm k' := by
  obtain ⟨-, completed⟩ := ite_none_right_eq_some.mp completed
  obtain ⟨asleep, slept, completed⟩ := bind_eq_some_iff.mp completed
  obtain ⟨unlinked, unlink, completed⟩ := bind_eq_some_iff.mp completed
  obtain rfl := some.inj completed
  have calm : asleep.Calm unlinked := by
    split at unlink
    · exact (unlinkSender_relinked unlink).calm
    · obtain rfl := some.inj unlink
      exact .refl _
  have removed : unlinked.Calm (unlinked.modify p fun entry =>
      { entry with pPending := ∅, pPendcount := 0, pFlags := {}, pPriority := .none }) :=
    State.calm_modify rfl rfl fun _ waits => by cases waits
  obtain ⟨held, flags, awaits⟩ :=
    ((unreadyIfClear_rescheduled slept).calm.trans calm).trans removed
  exact ⟨held, flags, awaits⟩

theorem doTrace_calm {request : TraceRequest}
    (completed : doTrace k request p = some (k', result)) : k.Calm k' := by
  unfold doTrace at completed
  split at completed
  · obtain ⟨rfl, -⟩ := Prod.mk.inj (some.inj completed)
    exact .refl k
  · split at completed
    · obtain ⟨asleep, slept, same⟩ := bind_eq_some_iff.mp completed
      obtain ⟨rfl, -⟩ := Prod.mk.inj (some.inj same)
      exact (unreadyIfClear_rescheduled slept).calm.trans (State.calm_setFlags id id)
    · obtain ⟨rfl, -⟩ := Prod.mk.inj (some.inj completed)
      exact .refl k
    · obtain ⟨awake, awoken, same⟩ := bind_eq_some_iff.mp completed
      obtain ⟨rfl, -⟩ := Prod.mk.inj (some.inj same)
      exact (State.calm_setFlags id id).trans (readyIfClear_rescheduled awoken).calm

theorem doEndsig_calm (completed : doEndsig k p = some (k', result)) :
    k.Calm k' := by
  unfold doEndsig at completed
  split at completed
  · obtain ⟨rfl, -⟩ := Prod.mk.inj (some.inj completed)
    exact .refl k
  split at completed
  · cases completed
  split at completed
  · obtain ⟨rfl, -⟩ := Prod.mk.inj (some.inj completed)
    exact .refl k
  dsimp only at completed
  have calm : k.Calm (k.modify p fun entry =>
      { entry with pPendcount := entry.pPendcount - 1 }) :=
    State.calm_modify rfl rfl fun _ => id
  split at completed
  · obtain ⟨rfl, -⟩ := Prod.mk.inj (some.inj completed)
    exact calm
  · obtain ⟨awake, awoken, same⟩ := bind_eq_some_iff.mp completed
    obtain ⟨rfl, -⟩ := Prod.mk.inj (some.inj same)
    exact (calm.trans (State.calm_setFlags id id)).trans (readyIfClear_rescheduled awoken).calm

end Handlers

/-! ### One step -/

section Steps

variable {scope : Scope} {k k₁ k' : State} {p task : Slot} {call : Call}

/-- What is left of the held list. -/
def Call.rest : Call → List Slot → List Slot
  | .unhold, held => held.tail
  | _, held => held

/-- What a step does about interrupts. An interrupt that is recorded or held stays so until the task
receives HARD_INT; `unhold` takes the first one off the held list, and others are put at its end. -/
structure Settled (k : State) (call : Call) (k' : State) : Prop where
  ok : IntOk k'
  recorded : ∀ p, (k.proc p).pIntBlocked = true →
    HardInt k k' p ∨ (k'.proc p).pIntBlocked = true
  queue : ∃ more, k'.held = call.rest k.held ++ more
  popped : call = .unhold → ∀ p ∈ k.held.head?,
    HardInt k k' p ∨ (k'.proc p).pIntBlocked = true
  noted : ∀ p competing, call = .interrupt p competing → HardInt k k' p ∨
    competing = true ∧ p ∈ k'.held ∨ (k'.proc p).pIntBlocked = true

theorem IntOk.calm (ok : IntOk k) (calm : k.Calm k') : IntOk k' where
  once := calm.held ▸ ok.once
  held p := by rw [(calm.flags p).2, calm.held, ok.held]
  blocked p blocked := by
    rw [(calm.flags p).1] at blocked
    by_contra waits
    rw [Bool.not_eq_false] at waits
    have waited := calm.awaits p blocked waits
    rw [ok.blocked p blocked] at waited
    cases waited
  system p blocked := ok.system p ((calm.flags p).1.symm.trans blocked)

/-- The call neither notes an interrupt nor takes one from the list. -/
def Call.ordinary : Call → Bool
  | .interrupt _ _ => false
  | .unhold => false
  | _ => true

theorem IntOk.settled (ok : IntOk k) (calm : k.Calm k') (ordinary : call.ordinary = true) :
    Settled k call k' where
  ok := ok.calm calm
  recorded p blocked := .inr ((calm.flags p).1.trans blocked)
  queue := ⟨[], by
    rw [calm.held, List.append_nil]
    cases call with
    | unhold => cases ordinary
    | _ => rfl⟩
  popped same := by
    rw [same] at ordinary
    cases ordinary
  noted p competing same := by
    rw [same] at ordinary
    cases ordinary

theorem Invariant.system_of_task (inv : Invariant scope k) (task : k.priority p = .task) :
    p < init := by
  by_contra outside
  rcases (inv.entries p).others outside with user | none
  · exact absurd (user.symm.trans task) (by decide)
  · exact absurd (none.symm.trans task) (by decide)

theorem doFork_calm {parent child : Slot} (inv : Invariant scope k) (ok : IntOk k)
    (completed : doFork k parent child = some k') : k.Calm k' := by
  obtain ⟨permitted, completed⟩ := ite_none_right_eq_some.mp completed
  rw [Bool.and_eq_true, State.isuserp_iff, State.isemptyp_iff] at permitted
  obtain rfl := some.inj completed
  have user := (inv.entries parent).notSystem permitted.1
  have dead := (inv.entries child).notSystem_of_dead permitted.2
  have notBlocked (p : Slot) (outside : ¬p < init) : (k.proc p).pIntBlocked = false :=
    Bool.eq_false_iff.mpr fun blocked => outside (ok.system p blocked)
  have notHeld (p : Slot) (outside : ¬p < init) : (k.proc p).pIntHeld = false := by
    refine Bool.eq_false_iff.mpr fun held => outside ?_
    exact inv.system_of_task (inv.held p ((ok.held p).mp held))
  refine ⟨rfl, fun p => ?_, fun p blocked => ?_⟩ <;> by_cases same : p = child
  · subst same
    simp [notBlocked, notHeld, user, dead]
  · simp [same]
  · subst same
    rw [notBlocked p dead] at blocked
    cases blocked
  · simp [same]

/-- An interrupt is delivered, recorded or held. -/
theorem interrupt_settled {competing : Bool} (ok : IntOk k) (system : p < init)
    (completed : interrupt k p competing = some k') : Settled k (.interrupt p competing) k' := by
  unfold interrupt at completed
  split at completed
  case isTrue competes =>
    split at completed
    case isTrue held =>
      obtain rfl := some.inj completed
      refine ⟨ok, fun _ => .inr, ⟨[], (List.append_nil _).symm⟩, nofun, fun q _ same => ?_⟩
      obtain ⟨rfl, rfl⟩ := Call.interrupt.inj same
      exact .inr (.inl ⟨competes, (ok.held p).mp held⟩)
    case isFalse notHeld =>
      obtain rfl := some.inj completed
      have fresh : p ∉ k.held := fun member => notHeld ((ok.held p).mpr member)
      let k₁ := k.modify p fun entry => { entry with pIntHeld := true }
      have calm (q : Slot) : (k₁.proc q).pIntBlocked = (k.proc q).pIntBlocked ∧
          (k₁.proc q).awaitsHardware = (k.proc q).awaitsHardware := by
        by_cases same : q = p
        · subst same
          simp [k₁, Proc.awaitsHardware]
        · simp [k₁, same]
      refine ⟨⟨?_, fun q => ?_, fun q blocked => ?_, fun q blocked => ?_⟩,
        fun q blocked => .inr ((calm q).1.trans blocked), ⟨[p], rfl⟩, nofun, fun q _ same => ?_⟩
      · exact List.nodup_append.mpr ⟨ok.once, List.nodup_singleton p,
          fun q member r last => by
            rintro rfl
            exact fresh (List.mem_singleton.mp last ▸ member)⟩
      · by_cases same : q = p
        · simp [same]
        · simp [same, ok.held]
      · exact (calm q).2.trans (ok.blocked q ((calm q).1.symm.trans blocked))
      · exact ok.system q ((calm q).1.symm.trans blocked)
      · obtain ⟨rfl, rfl⟩ := Call.interrupt.inj same
        exact .inr (.inl ⟨competes, List.mem_append_right _ (List.mem_singleton_self p)⟩)
  case isFalse free =>
    have waits_eq : (!((k.proc p).pFlags.receiving && !(k.proc p).pFlags.sending) ||
        !isrxhardware (k.proc p).pGetfrom) = !(k.proc p).awaitsHardware := by
      rw [Proc.awaitsHardware]
      exact (Bool.not_and _ _).symm
    rw [waits_eq] at completed
    split at completed
    case isTrue busy =>
      obtain rfl := some.inj completed
      rw [Bool.not_eq_true'] at busy
      refine ⟨⟨ok.once, fun q => ?_, fun q blocked => ?_, fun q blocked => ?_⟩, fun q blocked => ?_,
        ⟨[], (List.append_nil _).symm⟩, nofun, fun q _ same => ?_⟩
      · by_cases same : q = p
        · subst same
          simpa using ok.held q
        · simpa [same] using ok.held q
      · by_cases same : q = p
        · subst same
          simpa [Proc.awaitsHardware] using busy
        · simp only [State.modify_proc, if_neg same] at blocked ⊢
          exact ok.blocked q blocked
      · by_cases same : q = p
        · exact same ▸ system
        · simp only [State.modify_proc, if_neg same] at blocked
          exact ok.system q blocked
      · by_cases same : q = p
        · simp [same]
        · simp [same, blocked]
      · obtain ⟨rfl, -⟩ := Call.interrupt.inj same
        exact .inr (.inr (by simp))
    case isFalse waits =>
      obtain ⟨s, rfl⟩ := ready_rescheduled completed
      have sent {k₁ : State} (grown : k₁.history = k.history ++ [.notified p]) : HardInt k k₁ p :=
        ⟨_, grown, List.mem_singleton_self _⟩
      refine ⟨⟨ok.once, fun q => ?_, fun q blocked => ?_, fun q blocked => ?_⟩, fun q blocked => ?_,
        ⟨[], (List.append_nil _).symm⟩, nofun, fun q _ same => ?_⟩
      · by_cases same : q = p
        · subst same
          simpa [State.withSchedule] using ok.held q
        · simpa [State.withSchedule, same] using ok.held q
      · by_cases same : q = p
        · subst same
          simp [State.withSchedule] at blocked
        · simp only [State.withSchedule, State.modify_proc, if_neg same] at blocked ⊢
          exact ok.blocked q blocked
      · by_cases same : q = p
        · exact same ▸ system
        · simp only [State.withSchedule, State.modify_proc, if_neg same] at blocked
          exact ok.system q blocked
      · by_cases same : q = p
        · subst same
          exact .inl (sent rfl)
        · exact .inr (by simp [State.withSchedule, same, blocked])
      · obtain ⟨rfl, -⟩ := Call.interrupt.inj same
        exact .inl (sent rfl)

section

variable (inv : Invariant scope k) (ok : IntOk k)
include inv ok

theorem unhold_settled (completed : unhold k = some k') : Settled k .unhold k' := by
  unfold unhold at completed
  cases held : k.held with
  | nil =>
    simp only [held] at completed
    obtain rfl := some.inj completed
    refine ⟨ok, fun _ => .inr, ⟨[], by simp [Call.rest, held]⟩, fun _ q head => ?_, nofun⟩
    simp [held] at head
  | cons rp rest =>
    simp only [held] at completed
    have once := held ▸ ok.once
    have system : rp < init := inv.system_of_task (inv.held rp (by simp [held]))
    let k₁ := State.modify { k with held := rest } rp fun entry => { entry with pIntHeld := false }
    have same (q : Slot) : (k₁.proc q).pIntBlocked = (k.proc q).pIntBlocked ∧
        (k₁.proc q).awaitsHardware = (k.proc q).awaitsHardware := by
      by_cases this : q = rp
      · subst this
        simp [k₁, Proc.awaitsHardware]
      · simp [k₁, this]
    have ok₁ : IntOk k₁ := by
      refine ⟨(List.nodup_cons.mp once).2, fun q => ?_, fun q blocked => ?_, fun q blocked => ?_⟩
      · by_cases this : q = rp
        · subst this
          simpa [k₁] using (List.nodup_cons.mp once).1
        · have before := ok.held q
          rw [held, List.mem_cons, or_iff_right this] at before
          simpa [k₁, this] using before
      · exact (same q).2.trans (ok.blocked q ((same q).1.symm.trans blocked))
      · exact ok.system q ((same q).1.symm.trans blocked)
    obtain ⟨ok', recorded, ⟨more, queue⟩, -, noted⟩ := interrupt_settled ok₁ system completed
    refine ⟨ok', fun q blocked => recorded q ((same q).1.trans blocked), ⟨more, ?_⟩,
      fun _ q head => ?_, nofun⟩
    · rw [queue, held]
      rfl
    · rw [held] at head
      obtain rfl : rp = q := some.inj head
      exact (noted rp false rfl).imp_right fun owed =>
        owed.resolve_left fun waits => Bool.false_ne_true waits.1

theorem sysCall_settled {function : SysFunction} {srcDest : Int} {mPtr : UInt32} {result : Result}
    (notIdle : k.procPtr ≠ idle) (completed : sysCall k function srcDest mPtr = some (k', result)) :
    Settled k (.sysCall function srcDest mPtr) k' := by
  rcases sysCall_interrupts inv notIdle completed with ⟨-, k₁, calm, rfl, sent⟩ | ⟨-, calm⟩
  · have kept (q : Slot) (other : q ≠ k.procPtr) :
        (k₁.clearBlocked k.procPtr).proc q = k₁.proc q := by
      simp [State.clearBlocked, other]
    have ok₁ := ok.calm calm
    refine ⟨⟨ok₁.once, fun q => ?_, fun q blocked => ?_, fun q blocked => ?_⟩, fun q blocked => ?_,
      ⟨[], ?_⟩, nofun, nofun⟩
    · by_cases same : q = k.procPtr
      · subst same
        simpa [State.clearBlocked] using ok₁.held k.procPtr
      · rw [kept q same]
        exact ok₁.held q
    · by_cases same : q = k.procPtr
      · subst same
        simp [State.clearBlocked] at blocked
      · rw [kept q same] at blocked ⊢
        exact ok₁.blocked q blocked
    · by_cases same : q = k.procPtr
      · subst same
        simp [State.clearBlocked] at blocked
      · rw [kept q same] at blocked
        exact ok₁.system q blocked
    · by_cases same : q = k.procPtr
      · exact .inl (same ▸ sent)
      · rw [kept q same, (calm.flags q).1]
        exact .inr blocked
    · rw [List.append_nil]
      exact calm.held
  · exact ok.settled calm rfl

theorem step_settled (contract : Contract k call) (completed : step k call = some k') :
    Settled k call k' := by
  have first : ∀ {after : Option (State × Result)}, after.map Prod.fst = some k' →
      ∃ result, after = some (k', result) := by
    intro after found
    obtain ⟨⟨_, result⟩, same, rfl⟩ := Option.map_eq_some_iff.mp found
    exact ⟨result, same⟩
  cases call with
  | sysCall function srcDest mPtr =>
    obtain ⟨result, completed⟩ := first completed
    exact sysCall_settled inv ok contract completed
  | interrupt p competing =>
    have task : k.priority p = .task := by
      simpa [Contract, State.istaskp, State.priority] using contract
    exact interrupt_settled ok (inv.system_of_task task) completed
  | unhold => exact unhold_settled inv ok completed
  | sched => exact ok.settled (sched_rescheduled completed).calm rfl
  | causeSig p sigNr => exact ok.settled (causeSig_calm completed) rfl
  | fork parent child => exact ok.settled (doFork_calm inv ok completed) rfl
  | newmap n map =>
    obtain ⟨result, completed⟩ := first completed
    exact ok.settled (doNewmap_calm completed) rfl
  | exec p traced => exact ok.settled (doExec_calm completed) rfl
  | xit parent p => exact ok.settled (doXit_calm completed) rfl
  | trace request p =>
    obtain ⟨result, completed⟩ := first completed
    exact ok.settled (doTrace_calm completed) rfl
  | kill p sigNr =>
    change doKill k p sigNr = some k' at completed
    obtain ⟨-, completed⟩ := ite_none_right_eq_some.mp completed
    exact ok.settled (causeSig_calm completed) rfl
  | endsig p =>
    obtain ⟨result, completed⟩ := first completed
    exact ok.settled (doEndsig_calm completed) rfl

end

end Steps

end Minix.Kernel
