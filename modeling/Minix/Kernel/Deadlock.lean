/-
This file is about the deadlock check of `mini_send`, a walk from the destination along
`p_sendto` for as long as the processes met are SENDING. It ends unless some processes wait
for each other in a circle.

`p_sendto` and the SENDING flags form a graph (`waitsFor`). Only `mini_send` and `do_fork` add
an edge to it; `mini_send` does so after its check, which compares the processes met with the
caller but not the destination itself. So a circle arises only when a process sends to itself,
or when a process forks into a slot that it waits for. No invariant of the queues is needed.
-/

import Minix.Kernel.Machine

namespace Minix.Kernel

open LinkedList
open Option (some.inj bind_eq_some_iff map_eq_some_iff ite_none_right_eq_some ite_none_left_eq_some)

variable {k k' : State} {p q caller dest : Slot} {change : Proc → Proc}

/-! ### What leaves the graph alone -/

theorem State.waitsFor_congr (flags : ∀ p, (k'.proc p).pFlags.sending = (k.proc p).pFlags.sending)
    (sendto : ∀ p, (k'.proc p).pSendto = (k.proc p).pSendto) : k'.waitsFor = k.waitsFor := by
  funext p
  simp only [State.waitsFor, flags, sendto]

theorem State.modify_waitsFor
    (flags : (change (k.proc p)).pFlags.sending = (k.proc p).pFlags.sending)
    (sendto : (change (k.proc p)).pSendto = (k.proc p).pSendto) :
    (k.modify p change).waitsFor = k.waitsFor := by
  refine State.waitsFor_congr (fun q => ?_) fun q => ?_
  · by_cases same : q = p
    · subst same
      simpa using flags
    · simp [same]
  · by_cases same : q = p
    · subst same
      simpa using sendto
    · simp [same]

theorem State.setFlags_waitsFor {change : Flags → Flags}
    (kept : ∀ flags, (change flags).sending = flags.sending) :
    (k.setFlags p change).waitsFor = k.waitsFor := State.modify_waitsFor (kept _) rfl

theorem State.waitsFor_of_proc (same : k'.proc = k.proc) : k'.waitsFor = k.waitsFor :=
  State.waitsFor_congr (fun p => by rw [same]) fun p => by rw [same]

@[simp] theorem State.emit_waitsFor (k : State) (events : List Event) :
    (k.emit events).waitsFor = k.waitsFor := rfl

theorem State.Rescheduled.waitsFor (changed : k.Rescheduled k') : k'.waitsFor = k.waitsFor := by
  obtain ⟨s, rfl⟩ := changed
  rfl

theorem State.Relinked.waitsFor (changed : k.Relinked k') : k'.waitsFor = k.waitsFor := by
  obtain ⟨links, heads, rfl⟩ := changed
  rfl

/-! ### What adds an edge -/

/-- No processes wait for each other in a circle. -/
def State.NoCircle (k : State) : Prop := Acyclic k.waitsFor

theorem State.NoCircle.congr (free : k.NoCircle) (same : k'.waitsFor = k.waitsFor) :
    k'.NoCircle := by
  rw [State.NoCircle, same]
  exact free

theorem State.NoCircle.clear (free : k.NoCircle)
    (stops : (change (k.proc p)).pFlags.sending = true →
      (k.proc p).pFlags.sending = true ∧ (change (k.proc p)).pSendto = (k.proc p).pSendto) :
    (k.modify p change).NoCircle := by
  refine Acyclic.fewer free fun a b => ?_
  by_cases same : a = p
  · subst same
    simp only [State.waitsFor, State.modify_proc, if_true]
    intro edge
    obtain ⟨sending, edge⟩ := ite_none_right_eq_some.mp edge
    obtain ⟨before, sendto⟩ := stops sending
    rw [if_pos before, ← sendto]
    exact edge
  · simp only [State.waitsFor, State.modify_proc, if_neg same]
    exact id

theorem State.NoCircle.send {dest : Slot} (free : k.NoCircle)
    (sendto : (change (k.proc p)).pSendto = dest)
    (apart : ¬ Relation.ReflTransGen (Link k.waitsFor) dest p) : (k.modify p change).NoCircle := by
  refine Acyclic.addEdge free p dest (fun a b => ?_) apart
  by_cases same : a = p
  · subst same
    simp only [State.waitsFor, State.modify_proc, if_true]
    intro edge
    obtain ⟨-, edge⟩ := ite_none_right_eq_some.mp edge
    obtain rfl := some.inj edge
    exact .inr ⟨trivial, sendto⟩
  · simp only [State.waitsFor, State.modify_proc, if_neg same]
    exact .inl

/-- The deadlock check is passed only if the destination does not wait for the caller. -/
theorem not_transGen_of_deadlock (free : deadlock k caller dest = some false) :
    ¬ Relation.TransGen (Link k.waitsFor) dest caller := by
  simp only [deadlock, map_eq_some_iff] at free
  obtain ⟨found, walk, nothing⟩ := free
  rw [Option.isSome_eq_false_iff, Option.isNone_iff_eq_none] at nothing
  exact not_transGen_of_scan (nothing ▸ walk)

section

variable (free : k.NoCircle) {mPtr : UInt32} {caller : Slot}
include free

theorem miniSend_noCircle {n : Int} {result : Result}
    (apart : k.maySend caller n mPtr = true → n ≠ procNumber caller)
    (completed : miniSend k caller n mPtr = some (k', result)) : k'.NoCircle := by
  rcases miniSend_cases completed with ⟨rfl, -⟩ |
    ⟨dest, rfl, -, may, -, unlocked, ⟨-, delivered⟩ | ⟨-, blocked⟩⟩
  · exact free
  · refine State.NoCircle.congr ?_ (readyIfClear_rescheduled delivered).waitsFor
    exact State.NoCircle.clear (free.congr (State.emit_waitsFor _ _)) fun sending => ⟨sending, rfl⟩
  · unfold blockSender at blocked
    obtain ⟨asleep, slept, blocked⟩ := bind_eq_some_iff.mp blocked
    obtain ⟨queued, append, blocked⟩ := bind_eq_some_iff.mp blocked
    obtain rfl := some.inj blocked
    have kept : asleep.waitsFor = k.waitsFor :=
      (unreadyIfClear_rescheduled slept).waitsFor.trans (State.modify_waitsFor rfl rfl)
    refine State.NoCircle.congr ?_ (State.emit_waitsFor _ _)
    refine State.NoCircle.congr ?_ (appendCaller_relinked append).waitsFor
    refine State.NoCircle.send (free.congr kept) rfl fun path => ?_
    rw [kept] at path
    rcases Relation.reflTransGen_iff_eq_or_transGen.mp path with same | path
    · exact apart may (congrArg procNumber same.symm)
    · exact not_transGen_of_deadlock unlocked path

theorem inform_noCircle (completed : inform k = some k') : k'.NoCircle := by
  unfold inform at completed
  split at completed
  · obtain rfl := some.inj completed
    exact free
  · rename_i rp _
    obtain ⟨⟨after, result⟩, sent, completed⟩ := bind_eq_some_iff.mp completed
    let k₀ : State := { k with
      sigProcs := k.sigProcs - 1
      ksigs := k.ksigs ++ [(rp, (k.proc rp).pPending)] }
    have sentFree : after.NoCircle := miniSend_noCircle (k := k₀) free (fun _ => by decide) sent
    obtain ⟨-, completed⟩ := ite_none_left_eq_some.mp completed
    obtain rfl := some.inj completed
    exact (sentFree.congr (State.modify_waitsFor rfl rfl)).congr
      (State.Rescheduled.refl _).pickProc.waitsFor

theorem causeSig_noCircle {sigNr : Nat} (completed : causeSig k p sigNr = some k') :
    k'.NoCircle := by
  unfold causeSig at completed
  split at completed
  · obtain rfl := some.inj completed
    exact free
  dsimp only at completed
  split at completed
  · obtain rfl := some.inj completed
    exact free.congr (State.modify_waitsFor rfl rfl)
  obtain ⟨asleep, slept, completed⟩ := bind_eq_some_iff.mp completed
  have asleepFree := (free.congr (State.modify_waitsFor rfl rfl)).congr
    (unreadyIfClear_rescheduled slept).waitsFor
  let flagged := asleep.setFlags p fun flags => { flags with pending := true, sigPending := true }
  have flaggedFree : flagged.NoCircle :=
    asleepFree.congr (State.setFlags_waitsFor fun _ => rfl)
  have pending : State.NoCircle { flagged with sigProcs := flagged.sigProcs + 1 } :=
    flaggedFree.congr (State.waitsFor_of_proc rfl)
  split at completed
  · obtain rfl := some.inj completed
    exact pending
  · exact inform_noCircle pending completed

theorem blockReceiver_noCircle {src : Int} (completed : blockReceiver k caller src mPtr = some k') :
    k'.NoCircle := by
  unfold blockReceiver at completed
  obtain ⟨asleep, slept, completed⟩ := bind_eq_some_iff.mp completed
  have blocked : (asleep.setFlags caller fun flags =>
      { flags with receiving := true }).NoCircle :=
    ((free.congr (State.modify_waitsFor rfl rfl)).congr
      (unreadyIfClear_rescheduled slept).waitsFor).congr (State.setFlags_waitsFor fun _ => rfl)
  dsimp only at completed
  split at completed
  · exact inform_noCircle blocked completed
  · obtain rfl := some.inj completed
    exact blocked

theorem miniRec_noCircle {src : Int} (completed : miniRec k caller src mPtr = some k') :
    k'.NoCircle := by
  unfold miniRec at completed
  split at completed
  · exact blockReceiver_noCircle free completed
  · split at completed
    · cases completed
    · refine State.NoCircle.congr ?_ (readyIfClear_rescheduled completed).waitsFor
      refine State.NoCircle.clear (free.congr ?_) fun sending => by cases sending
      exact (unlinkFrom_relinked _ _ _ _).waitsFor.trans (State.emit_waitsFor _ _)
    · split at completed
      · obtain rfl := some.inj completed
        exact (free.congr (State.emit_waitsFor _ _)).congr (State.modify_waitsFor rfl rfl)
      · exact blockReceiver_noCircle free completed

end

/-- The running process passes `mini_send` its own number, with arguments that are accepted. -/
def SelfSend (k : State) (function : SysFunction) (srcDest : Int) (mPtr : UInt32) : Prop :=
  function ≠ .receive ∧ srcDest = procNumber k.procPtr ∧
    k.maySend k.procPtr srcDest mPtr = true

instance (k : State) (function : SysFunction) (srcDest : Int) (mPtr : UInt32) :
    Decidable (SelfSend k function srcDest mPtr) := inferInstanceAs (Decidable (_ ∧ _ ∧ _))

theorem sysCall_noCircle {function : SysFunction} {srcDest : Int} {mPtr : UInt32}
    {result : Result} (free : k.NoCircle) (notSelf : ¬ SelfSend k function srcDest mPtr)
    (completed : sysCall k function srcDest mPtr = some (k', result)) : k'.NoCircle := by
  unfold sysCall at completed
  split at completed
  · obtain ⟨rfl, -⟩ := Prod.mk.inj (some.inj completed)
    exact free
  dsimp only at completed
  split at completed
  · obtain ⟨rfl, -⟩ := Prod.mk.inj (some.inj completed)
    exact free
  split at completed
  · obtain ⟨after, received, same⟩ := bind_eq_some_iff.mp completed
    obtain ⟨rfl, -⟩ := Prod.mk.inj (some.inj same)
    exact miniRec_noCircle free received
  case isFalse sends =>
    obtain ⟨⟨middle, sent⟩, send, completed⟩ := bind_eq_some_iff.mp completed
    have half : middle.NoCircle := miniSend_noCircle free
      (fun may same => notSelf ⟨sends, same, may⟩) send
    split at completed
    · obtain ⟨rfl, -⟩ := Prod.mk.inj (some.inj completed)
      exact half
    · obtain ⟨after, received, same⟩ := bind_eq_some_iff.mp completed
      obtain ⟨rfl, -⟩ := Prod.mk.inj (some.inj same)
      exact miniRec_noCircle half received

theorem interrupt_noCircle {competing : Bool} (free : k.NoCircle)
    (completed : interrupt k p competing = some k') : k'.NoCircle := by
  unfold interrupt at completed
  split at completed
  · split at completed
    · obtain rfl := some.inj completed
      exact free
    · obtain rfl := some.inj completed
      have noted : (k.modify p fun entry => { entry with pIntHeld := true }).NoCircle :=
        free.congr (State.modify_waitsFor rfl rfl)
      exact noted.congr (State.waitsFor_of_proc rfl)
  · split at completed
    · obtain rfl := some.inj completed
      exact free.congr (State.modify_waitsFor rfl rfl)
    · refine State.NoCircle.congr ?_ (ready_rescheduled completed).waitsFor
      exact (free.congr (State.emit_waitsFor _ _)).congr (State.modify_waitsFor rfl rfl)

theorem unhold_noCircle (free : k.NoCircle) (completed : unhold k = some k') : k'.NoCircle := by
  unfold unhold at completed
  split at completed
  · obtain rfl := some.inj completed
    exact free
  · refine interrupt_noCircle ?_ completed
    have rested : State.NoCircle { k with held := _ } := free.congr (State.waitsFor_of_proc rfl)
    exact rested.congr (State.modify_waitsFor rfl rfl)

/-! ### The handlers of the system task -/

section

variable (free : k.NoCircle) {result : Result}
include free

/-- A child that sends what its parent sends closes no circle unless the parent waits for it. -/
theorem doFork_noCircle {parent child : Slot} (apart : deadlock k child parent = some false)
    (completed : doFork k parent child = some k') :
    k'.NoCircle := by
  obtain ⟨-, completed⟩ := ite_none_right_eq_some.mp completed
  obtain rfl := some.inj completed
  refine State.NoCircle.congr ?_ (State.emit_waitsFor _ _)
  by_cases sending : (k.proc parent).pFlags.sending = true
  · refine State.NoCircle.send free rfl fun path => not_transGen_of_deadlock apart ?_
    exact Relation.TransGen.head' (by simp [Link, State.waitsFor, sending]) path
  · exact State.NoCircle.clear free fun still => absurd still sending

theorem doNewmap_noCircle {n : Int} {map : MemMap}
    (completed : doNewmap k n map = some (k', result)) : k'.NoCircle := by
  unfold doNewmap at completed
  split at completed
  · obtain ⟨rfl, -⟩ := Prod.mk.inj (some.inj completed)
    exact free
  · obtain ⟨after, awoken, same⟩ := bind_eq_some_iff.mp completed
    obtain ⟨rfl, -⟩ := Prod.mk.inj (some.inj same)
    have kept : ∀ {mapped : State} {busy : Bool} {rp : Slot},
        (if busy then readyIfClear mapped rp else some mapped) = some after →
          after.waitsFor = mapped.waitsFor := by
      intro mapped busy rp awoken
      split at awoken
      · exact (readyIfClear_rescheduled awoken).waitsFor
      · obtain rfl := some.inj awoken
        rfl
    refine State.NoCircle.congr ?_ (kept awoken)
    exact free.congr (State.modify_waitsFor rfl rfl)

theorem doExec_noCircle {traced : Bool} (completed : doExec k p traced = some k') :
    k'.NoCircle := by
  obtain ⟨-, completed⟩ := ite_none_left_eq_some.mp completed
  obtain ⟨signalled, signal, completed⟩ := bind_eq_some_iff.mp completed
  have signalledFree : signalled.NoCircle := by
    split at signal
    · exact causeSig_noCircle free signal
    · obtain rfl := some.inj signal
      exact free
  refine State.NoCircle.congr ?_ (readyIfClear_rescheduled completed).waitsFor
  exact signalledFree.congr (State.setFlags_waitsFor fun _ => rfl)

theorem doXit_noCircle {parent : Slot} (completed : doXit k parent p = some k') : k'.NoCircle := by
  obtain ⟨-, completed⟩ := ite_none_right_eq_some.mp completed
  obtain ⟨asleep, slept, completed⟩ := bind_eq_some_iff.mp completed
  obtain ⟨unlinked, unlink, completed⟩ := bind_eq_some_iff.mp completed
  obtain rfl := some.inj completed
  have kept : unlinked.waitsFor = asleep.waitsFor := by
    split at unlink
    · exact (unlinkSender_relinked unlink).waitsFor
    · obtain rfl := some.inj unlink
      rfl
  refine State.NoCircle.congr ?_ (State.emit_waitsFor _ _)
  have unlinkedFree : unlinked.NoCircle :=
    free.congr (kept.trans (unreadyIfClear_rescheduled slept).waitsFor)
  have counted : State.NoCircle { unlinked with sigProcs := _ } :=
    unlinkedFree.congr (State.waitsFor_of_proc rfl)
  refine State.NoCircle.clear counted ?_
  exact fun sending => by cases sending

theorem doTrace_noCircle {request : TraceRequest}
    (completed : doTrace k request p = some (k', result)) : k'.NoCircle := by
  unfold doTrace at completed
  split at completed
  · obtain ⟨rfl, -⟩ := Prod.mk.inj (some.inj completed)
    exact free
  · split at completed
    · obtain ⟨asleep, slept, same⟩ := bind_eq_some_iff.mp completed
      obtain ⟨rfl, -⟩ := Prod.mk.inj (some.inj same)
      exact (free.congr (unreadyIfClear_rescheduled slept).waitsFor).congr
        (State.setFlags_waitsFor fun _ => rfl)
    · obtain ⟨rfl, -⟩ := Prod.mk.inj (some.inj completed)
      exact free
    · obtain ⟨awake, awoken, same⟩ := bind_eq_some_iff.mp completed
      obtain ⟨rfl, -⟩ := Prod.mk.inj (some.inj same)
      refine State.NoCircle.congr ?_ (readyIfClear_rescheduled awoken).waitsFor
      exact free.congr (State.setFlags_waitsFor fun _ => rfl)

theorem doEndsig_noCircle (completed : doEndsig k p = some (k', result)) :
    k'.NoCircle := by
  unfold doEndsig at completed
  split at completed
  · obtain ⟨rfl, -⟩ := Prod.mk.inj (some.inj completed)
    exact free
  split at completed
  · cases completed
  split at completed
  · obtain ⟨rfl, -⟩ := Prod.mk.inj (some.inj completed)
    exact free
  dsimp only at completed
  split at completed
  · obtain ⟨rfl, -⟩ := Prod.mk.inj (some.inj completed)
    exact free.congr (State.modify_waitsFor rfl rfl)
  · obtain ⟨awake, awoken, same⟩ := bind_eq_some_iff.mp completed
    obtain ⟨rfl, -⟩ := Prod.mk.inj (some.inj same)
    refine State.NoCircle.congr ?_ (readyIfClear_rescheduled awoken).waitsFor
    exact (free.congr (State.modify_waitsFor rfl rfl)).congr
      (State.setFlags_waitsFor fun _ => rfl)

end

/-! ### Runs -/

/-- No process sends to itself, and no process forks into a slot that it waits for. The second
condition is what the deadlock check would say of a send from the child to the parent. -/
def NoSelfWait (k : State) : Call → Prop
  | .sysCall function srcDest mPtr => ¬ SelfSend k function srcDest mPtr
  | .fork parent child => deadlock k child parent = some false
  | _ => True

instance (k : State) : (call : Call) → Decidable (NoSelfWait k call)
  | .sysCall .. => inferInstanceAs (Decidable (¬ _))
  | .fork .. => inferInstanceAs (Decidable (_ = _))
  | .interrupt .. | .unhold | .sched | .causeSig .. | .newmap .. | .exec .. | .xit .. | .trace ..
  | .kill .. | .endsig .. => .isTrue trivial

theorem step_noCircle {call : Call} (free : k.NoCircle) (apart : NoSelfWait k call)
    (completed : step k call = some k') : k'.NoCircle := by
  have first : ∀ {after : Option (State × Result)}, after.map Prod.fst = some k' →
      ∃ result, after = some (k', result) := by
    intro after found
    obtain ⟨⟨_, result⟩, same, rfl⟩ := map_eq_some_iff.mp found
    exact ⟨result, same⟩
  cases call with
  | sysCall function srcDest mPtr =>
    obtain ⟨result, completed⟩ := first completed
    exact sysCall_noCircle free apart completed
  | interrupt task competing => exact interrupt_noCircle free completed
  | unhold => exact unhold_noCircle free completed
  | sched => exact free.congr (sched_rescheduled completed).waitsFor
  | causeSig p sigNr => exact causeSig_noCircle free completed
  | fork parent child => exact doFork_noCircle free apart completed
  | newmap n map =>
    obtain ⟨result, completed⟩ := first completed
    exact doNewmap_noCircle free completed
  | exec p traced => exact doExec_noCircle free completed
  | xit parent p => exact doXit_noCircle free completed
  | trace request p =>
    obtain ⟨result, completed⟩ := first completed
    exact doTrace_noCircle free completed
  | kill p sigNr =>
    change doKill k p sigNr = some k' at completed
    obtain ⟨-, completed⟩ := ite_none_right_eq_some.mp completed
    exact causeSig_noCircle free completed
  | endsig p =>
    obtain ⟨result, completed⟩ := first completed
    exact doEndsig_noCircle free completed

theorem main_noCircle {maps : Slot → MemMap} {sysMessage : UInt32}
    (started : main maps sysMessage = some k) : k.NoCircle := by
  obtain ⟨start, started', inv, empty⟩ := main_invariant .system maps sysMessage
  obtain rfl := some.inj (started.symm.trans started')
  have noEdge : ∀ p, k.waitsFor p = none := by
    intro p
    have offer := inv.offers p
    rw [State.rendezvous, empty] at offer
    simp [State.waitsFor, State.offer_eq_none.mp offer]
  intro p cycle
  obtain ⟨q, edge, -⟩ := Relation.TransGen.head'_iff.mp cycle
  rw [Link, noEdge] at edge
  cases edge

/-- The processes that send never form a circle, and every deadlock check ends. The check of
the model has as many steps as there are slots; when these do not suffice, no number does
(`deadlock_never_ends`). -/
theorem deadlock_check_ends {maps : Slot → MemMap} {sysMessage : UInt32} {calls : List Call}
    (reached : Reaches NoSelfWait maps sysMessage calls k) :
    Acyclic k.waitsFor ∧ ∀ caller dest, ∃ found, deadlock k caller dest = some found := by
  obtain ⟨start, started, run⟩ := reached
  have free : k.NoCircle := run.invariant (main_noCircle started)
    fun _ _ _ free apart completed => step_noCircle free apart completed
  refine ⟨free, fun caller dest => ?_⟩
  obtain ⟨found, walk⟩ := Option.isSome_iff_exists.mp
    (scan_isSome_of_acyclic free (· == caller) none (k.waitsFor dest))
  exact ⟨found.isSome, by rw [deadlock, walk, Option.map_some]⟩

theorem deadlock_never_ends (stuck : deadlock k caller dest = none) (fuel : Nat) :
    scan k.waitsFor (· == caller) fuel none (k.waitsFor dest) = none := by
  rw [deadlock, Option.map_eq_none_iff] at stuck
  exact scan_eq_none_of_card stuck fuel

/-- After a task has blocked sending to the next one. -/
theorem deadlock_check_ends_blocked :
    ∃ k, Reaches NoSelfWait (fun _ => { stackLen := 1024 }) 0 [.sysCall .send (-9) 0] k ∧
      k.waitsFor tty ≠ none ∧ Acyclic k.waitsFor ∧
      ∀ caller dest, ∃ found, deadlock k caller dest = some found := by
  have executed : ((main (fun _ => { stackLen := 1024 }) 0).bind fun start =>
      (Transition.execute step NoSelfWait [.sysCall .send (-9) 0] start).map fun k =>
        k.waitsFor tty) = some (some ⟨1, by decide⟩) := by decide
  obtain ⟨start, started, executed⟩ := bind_eq_some_iff.mp executed
  obtain ⟨k, executed, waits⟩ := map_eq_some_iff.mp executed
  have reached : Reaches NoSelfWait (fun _ => { stackLen := 1024 }) 0 [.sysCall .send (-9) 0] k :=
    ⟨start, started, .of_execute executed⟩
  exact ⟨k, reached, by simp [waits], deadlock_check_ends reached⟩

/-- The first task sends to itself: it then waits for itself, and the check of the next process
that sends to it never ends. -/
theorem self_send_stuck :
    ∃ k, Reaches Contract (fun _ => { stackLen := 1024 }) 0 [.sysCall .send (-10) 0] k ∧
      ¬ Acyclic k.waitsFor ∧ k.procPtr ≠ tty ∧
      ∀ fuel, scan k.waitsFor (· == k.procPtr) fuel none (k.waitsFor tty) = none := by
  have executed : ((main (fun _ => { stackLen := 1024 }) 0).bind fun start =>
      (Transition.execute step Contract [.sysCall .send (-10) 0] start).map fun k =>
        (k.waitsFor tty, k.procPtr, deadlock k k.procPtr tty)) =
      some (some tty, ⟨1, by decide⟩, none) := by decide
  obtain ⟨start, started, executed⟩ := bind_eq_some_iff.mp executed
  obtain ⟨k, executed, found⟩ := map_eq_some_iff.mp executed
  simp only [Prod.mk.injEq] at found
  obtain ⟨waits, runs, stuck⟩ := found
  refine ⟨k, ⟨start, started, .of_execute executed⟩, fun acyclic => ?_, ?_, ?_⟩
  · exact acyclic tty (.single waits)
  · rw [runs]
    decide
  · exact deadlock_never_ends stuck

end Minix.Kernel
