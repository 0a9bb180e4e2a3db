/-
This file shows which rounds of kernel calls can be repeated for ever: those that lead back to the
same state, but for what they add to the history. The history only records what message passing has
done, and does not influence what the kernel does.
-/

import Minix.Kernel.Machine
import Minix.Library.Endless

namespace Minix.Kernel

open LinkedList Transition
open Option (bind_some map_some)

/-! ### The history has no influence -/

/-- The same state with more events before its own. -/
def State.preceded (k : State) (earlier : List Event) : State :=
  { k with history := earlier ++ k.history }

section Preceded

variable (k : State) (earlier : List Event) (p caller dest sender : Slot)
    (mPtr : UInt32) (src : Int)

@[simp] theorem preceded_proc : (k.preceded earlier).proc = k.proc := rfl

@[simp] theorem preceded_procPtr : (k.preceded earlier).procPtr = k.procPtr := rfl

@[simp] theorem preceded_rdyHead : (k.preceded earlier).rdyHead = k.rdyHead := rfl

@[simp] theorem preceded_rdyTail : (k.preceded earlier).rdyTail = k.rdyTail := rfl

@[simp] theorem preceded_sigProcs : (k.preceded earlier).sigProcs = k.sigProcs := rfl

@[simp] theorem preceded_held : (k.preceded earlier).held = k.held := rfl

@[simp] theorem preceded_nextready : (k.preceded earlier).nextready = k.nextready := rfl

@[simp] theorem preceded_sendlink : (k.preceded earlier).sendlink = k.sendlink := rfl

@[simp] theorem preceded_callerq : (k.preceded earlier).callerq = k.callerq := rfl

@[simp] theorem preceded_modify (change : Proc → Proc) :
    (k.preceded earlier).modify p change = (k.modify p change).preceded earlier := rfl

@[simp] theorem preceded_setFlags (change : Flags → Flags) :
    (k.preceded earlier).setFlags p change = (k.setFlags p change).preceded earlier := rfl

@[simp] theorem preceded_setRdyHead (queue : Queue) (head : Option Slot) :
    (k.preceded earlier).setRdyHead queue head = (k.setRdyHead queue head).preceded earlier := rfl

@[simp] theorem preceded_setRdyTail (queue : Queue) (tail : Option Slot) :
    (k.preceded earlier).setRdyTail queue tail = (k.setRdyTail queue tail).preceded earlier := rfl

@[simp] theorem preceded_emit (events : List Event) :
    (k.preceded earlier).emit events = (k.emit events).preceded earlier := by
  simp [State.preceded, State.emit]

@[simp] theorem preceded_preceded (later : List Event) :
    (k.preceded later).preceded earlier = k.preceded (earlier ++ later) := by
  simp [State.preceded]

@[simp] theorem preceded_pickProc :
    pickProc (k.preceded earlier) = (pickProc k).preceded earlier := by
  simp only [pickProc, preceded_rdyHead]
  split
  · rfl
  split
  · rfl
  split <;> rfl

@[simp] theorem preceded_ready :
    ready (k.preceded earlier) p = (ready k p).map fun k' => k'.preceded earlier := by
  have atTail (queue : Queue) : readyAtTail (k.preceded earlier) queue p =
      (readyAtTail k queue p).map fun k' => k'.preceded earlier := by
    simp only [readyAtTail, preceded_rdyHead, preceded_rdyTail]
    cases k.rdyHead queue with
    | none =>
      by_cases isTask : queue = .task
      · simp only [isTask, if_true]
        rfl
      · simp only [isTask, if_false]
        rfl
    | some first =>
      cases k.rdyTail queue with
      | none => rfl
      | some last => rfl
  simp only [ready, preceded_proc]
  cases queueOf (k.proc p).pPriority with
  | user =>
    simp only [readyAtFront, preceded_rdyHead, map_some]
    by_cases empty : k.rdyHead .user = none
    · simp only [empty, reduceIte]
      rfl
    · simp only [empty, reduceIte]
      rfl
  | _ => exact atTail _

@[simp] theorem preceded_unready :
    unready (k.preceded earlier) p = (unready k p).map fun k' => k'.preceded earlier := by
  simp only [unready, preceded_proc, preceded_rdyHead, preceded_nextready, preceded_procPtr,
    preceded_rdyTail, preceded_setRdyHead, State.setNextready, preceded_modify,
    preceded_setRdyTail, preceded_pickProc]
  cases k.rdyHead (queueOf (k.proc p).pPriority) with
  | none => rfl
  | some xp =>
    dsimp only
    split
    · rw [map_some, apply_ite (State.preceded · earlier)]
    · cases scan k.nextready (· == p) tableSize (some xp) (k.nextready xp) with
      | none => rfl
      | some found =>
        rcases found with _ | ⟨_ | xp, _⟩
        · rfl
        · rfl
        · dsimp only
          by_cases last : k.rdyTail (queueOf (k.proc p).pPriority) = some p
          · simp only [last, reduceIte]
            rfl
          · simp only [last, reduceIte]
            rfl

@[simp] theorem preceded_unreadyIfClear :
    unreadyIfClear (k.preceded earlier) p =
      (unreadyIfClear k p).map fun k' => k'.preceded earlier := by
  simp only [unreadyIfClear, preceded_proc, preceded_unready]
  split <;> rfl

@[simp] theorem preceded_readyIfClear :
    readyIfClear (k.preceded earlier) p =
      (readyIfClear k p).map fun k' => k'.preceded earlier := by
  simp only [readyIfClear, preceded_proc, preceded_ready]
  split <;> rfl

@[simp] theorem preceded_deliver :
    deliver (k.preceded earlier) caller dest mPtr =
      (deliver k caller dest mPtr).map fun k' => k'.preceded earlier := by
  simp only [deliver, preceded_proc, preceded_emit, preceded_setFlags, preceded_readyIfClear]

@[simp] theorem preceded_appendCaller :
    appendCaller (k.preceded earlier) caller dest =
      (appendCaller k caller dest).map fun k' => k'.preceded earlier := by
  simp only [appendCaller, preceded_callerq, preceded_sendlink]
  cases k.callerq dest with
  | none => rfl
  | some first =>
    dsimp only
    cases scan k.sendlink (fun p => (k.sendlink p).isNone) tableSize none (some first) with
    | none => rfl
    | some last => cases last <;> rfl

@[simp] theorem preceded_blockSender :
    blockSender (k.preceded earlier) caller dest mPtr =
      (blockSender k caller dest mPtr).map fun k' => k'.preceded earlier := by
  simp only [blockSender, preceded_modify, preceded_unreadyIfClear, Option.bind_eq_bind]
  cases unreadyIfClear (k.modify caller fun entry => { entry with pMessbuf := mPtr }) caller with
  | none => rfl
  | some asleep =>
    simp only [map_some, bind_some, preceded_modify, preceded_appendCaller]
    cases appendCaller (asleep.modify caller fun entry =>
      { entry with pFlags := { entry.pFlags with sending := true }, pSendto := dest })
        caller dest with
    | none => rfl
    | some queued => simp only [map_some, bind_some, preceded_emit]

@[simp] theorem preceded_miniSend (n : Int) :
    miniSend (k.preceded earlier) caller n mPtr =
      (miniSend k caller n mPtr).map fun after => (after.1.preceded earlier, after.2) := by
  have deadlocked (dest : Slot) : deadlock (k.preceded earlier) caller dest =
      deadlock k caller dest := rfl
  have waiting (dest : Slot) : (k.preceded earlier).isWaitingFor dest caller =
      k.isWaitingFor dest caller := rfl
  simp only [miniSend, State.isuserp, State.isemptyp, preceded_proc, deadlocked, waiting,
    preceded_deliver, preceded_blockSender, Option.bind_eq_bind]
  split
  · rfl
  cases procAddr n with
  | none => rfl
  | some dest =>
    simp only [bind_some]
    split
    · rfl
    split
    · rfl
    cases deadlock k caller dest with
    | none => rfl
    | some locked =>
      simp only [bind_some]
      split
      · rfl
      split
      · cases deliver k caller dest mPtr <;> rfl
      · cases blockSender k caller dest mPtr <;> rfl

@[simp] theorem preceded_inform :
    inform (k.preceded earlier) = (inform k).map fun k' => k'.preceded earlier := by
  simp only [inform, preceded_proc]
  split
  · rfl
  case h_2 rp _ =>
    let k₁ : State := { k with
      sigProcs := k.sigProcs - 1
      ksigs := k.ksigs ++ [(rp, (k.proc rp).pPending)] }
    have sent := preceded_miniSend k₁ earlier hardware k.sysMessage (procNumber mm)
    simp only [Option.bind_eq_bind]
    refine (congrArg (Option.bind · _) sent).trans ?_
    change _ = ((miniSend k₁ hardware (procNumber mm) k.sysMessage).bind _).map _
    cases miniSend k₁ hardware (procNumber mm) k.sysMessage with
    | none => rfl
    | some after =>
      simp only [map_some, bind_some, preceded_modify, preceded_pickProc]
      split <;> rfl

@[simp] theorem preceded_takeSender (previous : Option Slot) :
    takeSender (k.preceded earlier) caller src mPtr previous sender =
      (takeSender k caller src mPtr previous sender).map fun k' => k'.preceded earlier := by
  have unlinked (k : State) : unlinkFrom (k.preceded earlier) caller previous sender =
      (unlinkFrom k caller previous sender).preceded earlier := by
    simp only [unlinkFrom, preceded_callerq, preceded_sendlink]
    by_cases head : k.callerq caller = some sender
    · simp only [head, reduceIte]
      rfl
    · simp only [head, reduceIte]
      cases previous <;> rfl
  simp only [takeSender, preceded_proc, preceded_emit, unlinked, preceded_setFlags,
    preceded_readyIfClear]

@[simp] theorem preceded_blockReceiver :
    blockReceiver (k.preceded earlier) caller src mPtr =
      (blockReceiver k caller src mPtr).map fun k' => k'.preceded earlier := by
  simp only [blockReceiver, preceded_modify, preceded_unreadyIfClear, Option.bind_eq_bind]
  cases unreadyIfClear (k.modify caller fun entry =>
    { entry with pGetfrom := src, pMessbuf := mPtr }) caller with
  | none => rfl
  | some asleep =>
    simp only [map_some, bind_some, preceded_setFlags, preceded_inform,
      preceded_sigProcs]
    split <;> rfl

@[simp] theorem preceded_miniRec :
    miniRec (k.preceded earlier) caller src mPtr =
      (miniRec k caller src mPtr).map fun k' => k'.preceded earlier := by
  simp only [miniRec, preceded_proc, preceded_sendlink, preceded_callerq, preceded_blockReceiver,
    preceded_takeSender, preceded_emit, preceded_modify]
  split
  · rfl
  cases scan k.sendlink (accepts src) tableSize none (k.callerq caller) with
  | none => rfl
  | some found =>
    cases found with
    | some found => rfl
    | none =>
      dsimp only
      split <;> rfl

@[simp] theorem preceded_sysCall (function : SysFunction) (srcDest : Int) :
    sysCall (k.preceded earlier) function srcDest mPtr =
      (sysCall k function srcDest mPtr).map fun after => (after.1.preceded earlier, after.2) := by
  simp only [sysCall, State.isuserp, preceded_proc, preceded_procPtr, preceded_miniSend,
    preceded_miniRec, Option.bind_eq_bind]
  split
  · rfl
  split
  · rfl
  split
  · cases miniRec k k.procPtr srcDest mPtr <;> rfl
  · cases miniSend k k.procPtr srcDest mPtr with
    | none => rfl
    | some after =>
      simp only [map_some, bind_some, preceded_miniRec]
      split
      · rfl
      · cases miniRec after.1 k.procPtr srcDest mPtr <;> rfl

@[simp] theorem preceded_interrupt (competing : Bool) :
    interrupt (k.preceded earlier) p competing =
      (interrupt k p competing).map fun k' => k'.preceded earlier := by
  simp only [interrupt, preceded_proc, preceded_emit, preceded_modify, preceded_ready]
  split
  · by_cases held : (k.proc p).pIntHeld = true
    · simp only [held, reduceIte]
      rfl
    · simp only [held]
      rfl
  · split <;> rfl

end Preceded

/-- Calls of message passing, and interrupts. -/
def Call.Passes : Call → Prop
  | .sysCall .. => True
  | .interrupt .. => True
  | _ => False

instance : DecidablePred Call.Passes
  | .sysCall .. => .isTrue trivial
  | .interrupt .. => .isTrue trivial
  | .unhold => .isFalse id
  | .sched => .isFalse id
  | .causeSig .. => .isFalse id
  | .fork .. => .isFalse id
  | .newmap .. => .isFalse id
  | .exec .. => .isFalse id
  | .xit .. => .isFalse id
  | .trace .. => .isFalse id
  | .kill .. => .isFalse id
  | .endsig .. => .isFalse id

/-- The guard under which what a state does does not depend on the history. -/
abbrev Passing (k : State) (call : Call) : Prop := Contract k call ∧ call.Passes

theorem preceded_step (k : State) (earlier : List Event) {call : Call} (passes : call.Passes) :
    step (k.preceded earlier) call = (step k call).map (·.preceded earlier) := by
  cases call with
  | sysCall function srcDest mPtr =>
    rw [step, step, preceded_sysCall, Option.map_map, Option.map_map]
    rfl
  | interrupt task competing => rw [step, step, preceded_interrupt]
  | _ => exact passes.elim

theorem preceded_mimics : Mimics step Passing fun k other => ∃ earlier,
    other = k.preceded earlier where
  allowed k other call preceded contract := by
    obtain ⟨earlier, rfl⟩ := preceded
    refine ⟨?_, contract.2⟩
    cases call <;> exact contract.1
  completed k other call after preceded contract completed := by
    obtain ⟨earlier, rfl⟩ := preceded
    refine ⟨after.preceded earlier, ?_, earlier, rfl⟩
    rw [preceded_step k earlier contract.2, completed]
    rfl

/-! ### Rounds -/

deriving instance DecidableEq for Proc

instance : Fintype Queue := ⟨{.task, .server, .user}, fun queue => by cases queue <;> decide⟩

/-- Everything but the history is the same. -/
def State.sameTable (k k' : State) : Bool :=
  decide (∀ p, k.proc p = k'.proc p) && decide (∀ queue, k.rdyHead queue = k'.rdyHead queue) &&
    decide (∀ queue, k.rdyTail queue = k'.rdyTail queue) && k.procPtr == k'.procPtr &&
    k.billPtr == k'.billPtr && k.held == k'.held && k.sigProcs == k'.sigProcs &&
    k.sysMessage == k'.sysMessage && k.ksigs == k'.ksigs

theorem eq_preceded_of_sameTable {k k' : State} (same : k.sameTable k' = true) :
    k = { k' with history := [] }.preceded k.history := by
  simp only [State.sameTable, Bool.and_eq_true, decide_eq_true_eq, beq_iff_eq] at same
  obtain ⟨⟨⟨⟨⟨⟨⟨⟨proc, rdyHead⟩, rdyTail⟩, procPtr⟩, billPtr⟩, held⟩, sigProcs⟩, sysMessage⟩,
    ksigs⟩ := same
  cases k
  cases k'
  obtain rfl := funext proc
  obtain rfl := funext rdyHead
  obtain rfl := funext rdyTail
  simp only at procPtr billPtr held sigProcs sysMessage ksigs
  subst procPtr billPtr held sigProcs sysMessage ksigs
  simp [State.preceded]

/-- A round of calls leads back to the same state, and all along it something is observed. -/
def repeatsFrom (calls : Nat → Call) (period : Nat) (observe : State → Nat → Bool) (k : State) :
    Bool :=
  let first : State := { k with history := [] }
  ((execute step Passing ((List.range period).map calls) first).any fun again =>
      again.sameTable k) &&
    (List.range period).all fun n =>
      (execute step Passing ((List.range n).map calls) first).all fun state => observe state n

theorem exists_repeating_round (maps : Slot → MemMap) (sysMessage : UInt32) (approach : List Call)
    (calls : Nat → Call) (period : Nat) (observe : State → Nat → Bool) (positive : 0 < period)
    (periodic : ∀ n, calls (n % period) = calls n)
    (blind : ∀ k earlier n, observe (k.preceded earlier) n = observe k (n % period))
    (checked : ((main maps sysMessage).bind (execute step Contract approach)).any
      (repeatsFrom calls period observe) = true) :
    ∃ k, Reaches Contract maps sysMessage approach k ∧
      ∃ states, Endless step Contract k calls states ∧ ∀ n, observe (states n) n = true := by
  obtain ⟨k, executed, found⟩ := (Option.any_eq_true _ _).mp checked
  rw [repeatsFrom, Bool.and_eq_true] at found
  obtain ⟨again, round, same⟩ := (Option.any_eq_true _ _).mp found.1
  have closes : ∀ other, (∃ earlier, other = again.preceded earlier) →
      ∃ earlier, other = State.preceded { k with history := [] } earlier := by
    rintro other ⟨earlier, rfl⟩
    rw [eq_preceded_of_sameTable same, preceded_preceded]
    exact ⟨_, rfl⟩
  have begins : k = State.preceded { k with history := [] } k.history := by
    simp [State.preceded]
  obtain ⟨states, endless, along⟩ :=
    exists_repeating preceded_mimics positive periodic ⟨_, begins⟩ round closes
  refine ⟨k, .of_execute executed, states, endless.weaken fun _ _ => And.left, fun n => ?_⟩
  obtain ⟨reference, reached, earlier, same⟩ := along n
  have observed := List.all_eq_true.mp found.2 (n % period)
    (List.mem_range.mpr (Nat.mod_lt n positive))
  rw [reached, Option.all_some] at observed
  rw [same, blind]
  exact observed

end Minix.Kernel
