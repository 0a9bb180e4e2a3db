/-
This file shows that message passing neither loses nor duplicates messages.

The events of `mini_send` and `mini_rec` are recorded in the history. The history of a run is
legal whatever the processes do; it is also clean when no process sends to itself and a fork
finds the caller queues of the parent and of the child empty and the parent not SENDING.
`do_fork` copies the whole entry, so that otherwise the child would be on no queue although it
is SENDING, or share its parent's queue, or replace a queue that was left behind in its slot.
-/

import Minix.Kernel.Deadlock

namespace Minix.Kernel

open LinkedList Rendezvous

/-- No process sends to itself, and a fork copies no blocked sender and overwrites none. -/
def KeepsSenders (k : State) : Call → Prop
  | .sysCall function srcDest mPtr => ¬ SelfSend k function srcDest mPtr
  | .fork parent child => (k.proc parent).pFlags.sending = false ∧
      (k.proc parent).pCallerq = none ∧ (k.proc child).pCallerq = none
  | _ => True

instance (k : State) : (call : Call) → Decidable (KeepsSenders k call)
  | .sysCall .. => inferInstanceAs (Decidable (¬ _))
  | .fork .. => inferInstanceAs (Decidable (_ ∧ _ ∧ _))
  | .interrupt .. | .unhold | .sched | .causeSig .. | .newmap .. | .exec .. | .xit .. | .trace ..
  | .kill .. | .endsig .. => .isTrue trivial

/-- The steps that keep the contract and every sender. -/
def Faithful (k : State) (call : Call) : Prop := Contract k call ∧ KeepsSenders k call

instance (k : State) (call : Call) : Decidable (Faithful k call) :=
  inferInstanceAs (Decidable (_ ∧ _))

variable {k k' : State} {call : Call}

theorem KeepsSenders.undivided (keeps : KeepsSenders k call) : Undivided .every k call := by
  cases call with
  | fork parent child => exact fun _ => keeps.2.1
  | _ => trivial

theorem clean_of_passive {event : Event} (passive : Passive event)
    (s : Rendezvous.State Slot UInt32) : Clean s event := by
  cases event with
  | blocked => cases passive
  | forked => cases passive
  | _ => trivial

/-- The invariant of all caller queues, and a history in which no sender is lost. -/
structure NoneLost (k : State) : Prop extends Invariant .every k where
  clean : Legal Clean k.history

theorem step_noneLost (before : NoneLost k) (faithful : Faithful k call)
    (completed : step k call = some k') : NoneLost k' := by
  obtain ⟨inv, clean⟩ := before
  obtain ⟨contract, keeps⟩ := faithful
  obtain ⟨inv', events, history, kinds⟩ := step_later inv contract keeps.undivided completed
  refine ⟨inv', ?_⟩
  have passive : (∀ event, CallEvent k call event → Passive event) → Legal Clean k'.history := by
    intro allPassive
    rw [history]
    exact clean.append fun event member => clean_of_passive (allPassive event (kinds event member))
  cases call with
  | sysCall function srcDest mPtr =>
    rw [history]
    refine clean.append fun event member s => ?_
    rcases kinds event member with quiet | ⟨dest, sends, rfl, may, rfl⟩
    · exact clean_of_passive quiet s
    · exact fun same => keeps ⟨sends, congrArg procNumber same, may⟩
  | fork parent child =>
    rw [doFork_history completed, legal_snoc]
    refine ⟨clean, ?_, ?_⟩
    · rw [← State.rendezvous, ← inv.offers, State.offer_eq_none]
      exact keeps.1
    · have chain := inv.chain child trivial
      rw [show k.callerq child = none from keeps.2.2] at chain
      exact List.head?_eq_none_iff.mp chain.head_eq.symm
  | xit parent p =>
    rw [history]
    refine clean.append fun event member s => ?_
    obtain rfl : event = .exited p := kinds event member
    trivial
  | interrupt | unhold | sched | causeSig | newmap | exec | trace | kill | endsig =>
    exact passive fun _ quiet => quiet

/-- A SENDING process is on the queue of its destination, once, and on no other. -/
theorem count_callers (inv : Invariant .every k) (clean : Legal Clean k.history) (p dest : Slot) :
    (k.rendezvous.waiting dest).count p =
      if (k.proc p).pFlags.sending = true ∧ (k.proc p).pSendto = dest then 1 else 0 := by
  have linked := inv.linked
  have offers : k.rendezvous.WaitsFor p dest ↔
      (k.proc p).pFlags.sending = true ∧ (k.proc p).pSendto = dest := by
    simp only [State.WaitsFor, ← inv.offers, State.offer_eq_some]
    constructor
    · rintro ⟨buffer, sending, sendto, -⟩
      exact ⟨sending, sendto⟩
    · rintro ⟨sending, sendto⟩
      exact ⟨_, sending, sendto, rfl⟩
  split
  case isTrue waits =>
    refine List.count_eq_one_of_mem (linked.nodup dest trivial) ?_
    exact (complete_of_legal clean p dest (offers.mpr waits)).1
  case isFalse idle =>
    refine List.count_eq_zero_of_not_mem fun member => idle ?_
    exact offers.mp (linked.offers dest p trivial member)

theorem State.Rescheduled.history (changed : k.Rescheduled k') : k'.history = k.history := by
  obtain ⟨s, rfl⟩ := changed
  rfl

theorem State.Relinked.history (changed : k.Relinked k') : k'.history = k.history := by
  obtain ⟨links, heads, rfl⟩ := changed
  rfl

theorem miniSend_event {caller : Slot} {n : Int} {mPtr : UInt32}
    (completed : miniSend k caller n mPtr = some (k', .ok)) :
    ∃ dest, n = procNumber dest ∧
      (k'.history = k.history ++ [.delivered caller dest mPtr (k.proc dest).pMessbuf] ∨
        k'.history = k.history ++ [.blocked caller dest mPtr]) := by
  rcases miniSend_cases completed with ⟨-, failed⟩ |
    ⟨dest, rfl, -, -, -, -, ⟨-, delivered⟩ | ⟨-, blocked⟩⟩
  · exact absurd rfl failed
  · exact ⟨dest, rfl, .inl (readyIfClear_rescheduled delivered).history⟩
  · refine ⟨dest, rfl, .inr ?_⟩
    obtain ⟨asleep, slept, blocked⟩ := Option.bind_eq_some_iff.mp blocked
    obtain ⟨queued, append, blocked⟩ := Option.bind_eq_some_iff.mp blocked
    obtain rfl := Option.some.inj blocked
    have kept : queued.history = k.history :=
      (appendCaller_relinked append).history.trans (unreadyIfClear_rescheduled slept).history
    rw [State.emit_history, kept]

theorem Reaches.noneLost {maps : Slot → MemMap} {sysMessage : UInt32} {calls : List Call}
    (reached : Reaches Faithful maps sysMessage calls k) : NoneLost k := by
  obtain ⟨start, started, run⟩ := reached
  obtain ⟨start', started', inv, empty⟩ := main_invariant .every maps sysMessage
  obtain rfl := Option.some.inj (started'.symm.trans started)
  have initial : NoneLost start' := ⟨inv, by rw [empty]; exact legal_nil⟩
  exact run.invariant initial fun k call k' before faithful completed =>
    step_noneLost before faithful completed

/-- Messages are neither lost nor duplicated. In turn: the caller queues hold each SENDING process
once, on its destination; an accepted send copies the message or blocks the sender; what a
blocked sender offers is taken by the next event about it, a receive by the destination or the
exit of the sender, and until then it is still on offer; what a receive takes was blocked by
its sender, and nothing has happened to the sender since; and a receive does not take a sender
while its filter accepts one that blocked on the same destination before. -/
theorem messages_delivered_once {maps : Slot → MemMap} {sysMessage : UInt32}
    {calls : List Call} (reached : Reaches Faithful maps sysMessage calls k) :
    (∃ callers : Slot → List Slot,
      (∀ dest, Chain k.sendlink (k.callerq dest) (callers dest)) ∧
      (∀ p dest, (callers dest).count p =
        if (k.proc p).pFlags.sending = true ∧ (k.proc p).pSendto = dest then 1 else 0) ∧
      ∀ p, (k.proc p).pFlags.sending = true → (k.proc p).pSendto ≠ p) ∧
    (∀ caller n mPtr k', miniSend k caller n mPtr = some (k', .ok) → ∃ dest, n = procNumber dest ∧
      (k'.history = k.history ++ [.delivered caller dest mPtr (k.proc dest).pMessbuf] ∨
        k'.history = k.history ++ [.blocked caller dest mPtr])) ∧
    (∀ front sender dest buffer back, k.history = front ++ .blocked sender dest buffer :: back →
      (∃ middle event rest, back = middle ++ event :: rest ∧
        (∀ other ∈ middle, ¬ other.Concerns sender) ∧
        ((∃ filter target, event = .received sender dest filter buffer target) ∨
          event = .exited sender)) ∨
      ((∀ other ∈ back, ¬ other.Concerns sender) ∧ (k.proc sender).pFlags.sending = true ∧
        (k.proc sender).pSendto = dest ∧ (k.proc sender).pMessbuf = buffer)) ∧
    (∀ front sender dest filter source target back,
      k.history = front ++ .received sender dest filter source target :: back →
        accepts filter sender = true ∧
        (∃ before middle, front = before ++ .blocked sender dest source :: middle ∧
          ∀ other ∈ middle, ¬ other.Concerns sender) ∧
        ∀ other, other ≠ sender → accepts filter other = true →
          ¬ BlockedBefore front dest other sender) := by
  obtain ⟨inv, clean⟩ := reached.noneLost
  have allowed := inv.legal
  have legal : Legal (fun s event => Allowed Scope.every.Covers accepts s event ∧ Clean s event)
      k.history := fun front event back split =>
    ⟨allowed front event back split, clean front event back split⟩
  refine ⟨⟨k.rendezvous.waiting, fun dest => inv.chain dest trivial, count_callers inv clean,
    fun p sending => ?_⟩,
    fun caller n mPtr k' => miniSend_event, ?_, ?_⟩
  · exact (complete_of_legal clean p _ ⟨_, by
      rw [← State.rendezvous, ← inv.offers]
      exact State.offer_eq_some.mpr ⟨sending, rfl, rfl⟩⟩).2
  · intro front sender dest buffer back split
    refine (taken_of_blocked allowed split).imp_right ?_
    rintro ⟨quiet, offer⟩
    refine ⟨quiet, ?_⟩
    rw [← State.rendezvous, ← inv.offers] at offer
    exact State.offer_eq_some.mp offer
  · intro front sender dest filter source target back split
    refine ⟨?_, blocked_of_taken legal split, fun other apart accepted => ?_⟩
    · exact List.find?_some (allowed _ _ _ split).1
    · exact not_overtaken legal split trivial apart accepted

/-- A task blocks sending to the next one, which then receives. -/
theorem messages_delivered_once_received :
    ∃ k, Reaches Faithful (fun _ => { stackLen := 1024 }) 0
        [.sysCall .send (-9) 0, .sysCall .receive any 64] k ∧
      k.history = [.blocked tty ⟨1, by decide⟩ 0, .received tty ⟨1, by decide⟩ any 0 64] ∧
      ∃ callers : Slot → List Slot,
        (∀ dest, Chain k.sendlink (k.callerq dest) (callers dest)) ∧
        (∀ p dest, (callers dest).count p =
          if (k.proc p).pFlags.sending = true ∧ (k.proc p).pSendto = dest then 1 else 0) ∧
        ∀ p, (k.proc p).pFlags.sending = true → (k.proc p).pSendto ≠ p := by
  have executed : ((main (fun _ => { stackLen := 1024 }) 0).bind fun start =>
      (Transition.execute step Faithful [.sysCall .send (-9) 0, .sysCall .receive any 64]
        start).map State.history) =
      some [.blocked tty ⟨1, by decide⟩ 0, .received tty ⟨1, by decide⟩ any 0 64] := by
    decide
  obtain ⟨start, started, executed⟩ := Option.bind_eq_some_iff.mp executed
  obtain ⟨k, executed, history⟩ := Option.map_eq_some_iff.mp executed
  have reached : Reaches Faithful (fun _ => { stackLen := 1024 }) 0
      [.sysCall .send (-9) 0, .sysCall .receive any 64] k := ⟨start, started, .of_execute executed⟩
  exact ⟨k, reached, history, (messages_delivered_once reached).1⟩

/-- The first task sends to itself: it is SENDING and linked in no other process's queue. -/
theorem self_send_queued :
    ∃ k, Reaches Contract (fun _ => { stackLen := 1024 }) 0 [.sysCall .send (-10) 0] k ∧
      (k.proc tty).pFlags.sending = true ∧ (k.proc tty).pSendto = tty ∧
      k.callerq tty = some tty ∧ ∀ other, other ≠ tty → k.callerq other = none := by
  have executed : ((main (fun _ => { stackLen := 1024 }) 0).bind fun start =>
      (Transition.execute step Contract [.sysCall .send (-10) 0] start).map fun k =>
        decide ((k.proc tty).pFlags.sending = true ∧ (k.proc tty).pSendto = tty ∧
          k.callerq tty = some tty ∧ ∀ other, other ≠ tty → k.callerq other = none)) =
      some true := by decide
  obtain ⟨start, started, executed⟩ := Option.bind_eq_some_iff.mp executed
  obtain ⟨k, executed, found⟩ := Option.map_eq_some_iff.mp executed
  exact ⟨k, ⟨start, started, .of_execute executed⟩, of_decide_eq_true found⟩

end Minix.Kernel
