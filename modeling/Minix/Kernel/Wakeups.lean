/-
This file follows the interrupts of a task over whole runs of the kernel: an interrupt is on the
held list or recorded until the task receives HARD_INT, and it is received in the end if `unhold`
goes on being called and the task goes on receiving messages when no other message comes first.

A task that calls RECEIVE(ANY) again and again, and each time finds a sender in its queue, never
receives the interrupt: `mini_rec` looks at the queue before `p_int_blocked`.
-/

import Minix.Kernel.Interrupts
import Minix.Kernel.Repeating

namespace Minix.Kernel

open LinkedList Transition

/-! ### Receiving when no message is queued -/

/-- The task calls RECEIVE(HARDWARE), or RECEIVE(ANY) while no process is queued to send to it. -/
def Call.OpenReceive (k : State) (task : Slot) : Call → Prop
  | .sysCall .receive srcDest _ => k.procPtr = task ∧
      (srcDest = procNumber hardware ∨ srcDest = any ∧ k.callerq task = none)
  | _ => False

section OpenReceive

variable {k k' : State} {task : Slot} {srcDest : Int} {mPtr : UInt32}

theorem Invariant.no_message (inv : Invariant .system k) (system : task < init)
    (opens : srcDest = procNumber hardware ∨ srcDest = any ∧ k.callerq task = none) :
    scan k.sendlink (accepts srcDest) tableSize none (k.callerq task) = some none := by
  rcases opens with rfl | ⟨-, empty⟩
  · rw [(inv.chain task system).scan_eq _ (inv.chain task system).length_le, Option.some.injEq,
      locate_eq_none]
    intro sender member
    have sends := (inv.sending system member).1
    have apart : sender ≠ hardware := by
      rintro rfl
      rw [(inv.entries hardware).quiet rfl] at sends
      cases sends
    refine Bool.eq_false_iff.mpr fun accepted => apart ?_
    exact accepts_procNumber.mp accepted
  · rw [empty]
    rfl

/-- A task that makes such a call takes the interrupt that is recorded for it. -/
theorem hardInt_of_openReceive {call : Call} (inv : Invariant .system k) (ok : IntOk k)
    (contract : Contract k call) (completed : step k call = some k')
    (recorded : (k.proc task).pIntBlocked = true)
    (opens : call.OpenReceive k task) : HardInt k k' task := by
  cases call with
  | sysCall function srcDest mPtr =>
    cases function with
    | receive =>
      obtain ⟨rfl, opens⟩ := opens
      have system := ok.system _ recorded
      have walk := inv.no_message system opens
      have accepted : isoksrcDest srcDest = true ∧ isrxhardware srcDest = true := by
        rcases opens with rfl | ⟨rfl, -⟩ <;> exact ⟨rfl, rfl⟩
      have flags := (inv.runs contract).flags
      have notUser : k.isuserp k.procPtr = false := by
        refine Bool.eq_false_iff.mpr fun user => ?_
        exact (inv.entries _).notSystem ((k.isuserp_iff _).mp user) system
      have takes : k.takesInterrupt k.procPtr srcDest = true := by
        rw [State.takesInterrupt, walk, flags, recorded, accepted.2]
        rfl
      have taken : k.sysCallTakes .receive srcDest mPtr = true := by
        rw [State.sysCallTakes, accepted.1, notUser]
        exact takes
      obtain ⟨⟨_, result⟩, called, rfl⟩ := Option.map_eq_some_iff.mp completed
      rcases sysCall_interrupts inv contract called with ⟨-, -, -, -, sent⟩ | ⟨leaves, -⟩
      · exact sent
      · rw [taken] at leaves
        cases leaves
    | _ => cases opens
  | _ => cases opens

end OpenReceive

/-! ### Runs -/

section Runs

variable {maps : Slot → MemMap} {sysMessage : UInt32} {k k' : State} {task : Slot}
  {calls : List Call}

/-- The kernel's invariant together with that of the interrupts. -/
structure InterruptInvariant (k : State) : Prop where
  table : Invariant .system k
  interrupts : IntOk k

theorem main_interruptInvariant (started : main maps sysMessage = some k) :
    InterruptInvariant k := by
  obtain ⟨k', started', inv, -⟩ := main_invariant .system maps sysMessage
  obtain rfl := Option.some.inj (started'.symm.trans started)
  obtain ⟨s, s', boots, -⟩ := main_boots maps sysMessage
  obtain rfl := Option.some.inj (boots.symm.trans started)
  have entry (p : Slot) : (((bootState maps sysMessage s).withSchedule s').proc p).pIntBlocked =
      false ∧ (((bootState maps sysMessage s).withSchedule s').proc p).pIntHeld = false := by
    have blocked : ((bootState maps sysMessage s).proc p).pIntBlocked = false := by
      rw [bootState_proc]
    have held : ((bootState maps sysMessage s).proc p).pIntHeld = false := by rw [bootState_proc]
    exact ⟨blocked, held⟩
  have noneHeld : (bootState maps sysMessage s).held = [] := rfl
  refine ⟨inv, by simp [noneHeld], fun p => by simp [noneHeld, entry], fun p blocked => ?_,
    fun p blocked => ?_⟩
  · rw [(entry p).1] at blocked
    cases blocked
  · rw [(entry p).1] at blocked
    cases blocked

theorem InterruptInvariant.step {call : Call} (inv : InterruptInvariant k)
    (contract : Contract k call) (completed : Kernel.step k call = some k') :
    InterruptInvariant k' ∧ Settled k call k' := by
  have settled := step_settled inv.table inv.interrupts contract completed
  have later := step_later inv.table contract (inv.table.undivided completed) completed
  exact ⟨⟨later.invariant, settled.ok⟩, settled⟩

theorem InterruptInvariant.run (inv : InterruptInvariant k)
    (run : Run Kernel.step Contract k calls k') : InterruptInvariant k' :=
  run.invariant inv fun _ _ _ inv contract completed => (inv.step contract completed).1

theorem Reaches.interruptInvariant (reached : Reaches Contract maps sysMessage calls k) :
    InterruptInvariant k := by
  obtain ⟨start, started, run⟩ := reached
  exact (main_interruptInvariant started).run run

/-- An interrupt that has not been received yet stays held or recorded in a step that does not send
HARD_INT. -/
theorem Settled.owed {call : Call} (settled : Settled k call k') (owed : k.Owed task) :
    HardInt k k' task ∨ k'.Owed task := by
  rcases owed with held | recorded
  · obtain ⟨more, queue⟩ := settled.queue
    by_cases rest : task ∈ call.rest k.held
    · exact .inr (.inl (queue ▸ List.mem_append_left more rest))
    · cases call with
      | unhold =>
        cases heldList : k.held with
        | nil =>
          rw [heldList] at held
          cases held
        | cons first others =>
          rw [heldList] at held
          have same : task = first := by
            rcases List.mem_cons.mp held with same | member
            · exact same
            · exact absurd (by rwa [Call.rest, heldList]) rest
          exact (settled.popped rfl task (by rw [heldList, same]; rfl)).imp_right .inr
      | _ => exact absurd held rest
  · exact (settled.recorded task recorded).imp_right .inr

/-- A step adds to the history. -/
theorem InterruptInvariant.grows {call : Call} (inv : InterruptInvariant k)
    (contract : Contract k call) (completed : Kernel.step k call = some k') :
    ∃ events, k'.history = k.history ++ events := by
  obtain ⟨-, events, grown, -⟩ :=
    step_later inv.table contract (inv.table.undivided completed) completed
  exact ⟨events, grown⟩

theorem InterruptInvariant.run_grows (inv : InterruptInvariant k)
    (run : Run Kernel.step Contract k calls k') :
    ∃ events, k'.history = k.history ++ events := by
  induction run with
  | nil => exact ⟨[], (List.append_nil _).symm⟩
  | snoc run contract completed inductionHypothesis =>
    obtain ⟨events, history⟩ := inductionHypothesis
    obtain ⟨more, grown⟩ := (inv.run run).grows contract completed
    exact ⟨events ++ more, by rw [grown, history, List.append_assoc]⟩

theorem owed_of_run (inv : InterruptInvariant k) (owed : k.Owed task)
    (run : Run step Contract k calls k') : HardInt k k' task ∨ k'.Owed task := by
  induction run with
  | nil => exact .inr owed
  | snoc run contract completed inductionHypothesis =>
    obtain ⟨events, grown⟩ := inv.run_grows run
    obtain ⟨more, grown'⟩ := (inv.run run).grows contract completed
    rcases inductionHypothesis with sent | owed
    · exact .inl (sent.later grown')
    · exact (((inv.run run).step contract completed).2.owed owed).imp_left (·.earlier grown)

end Runs

/-! ### Runs without end -/

section Endless

variable {start : State} {task : Slot} {calls : Nat → Call} {states : Nat → State} {n : Nat}

/-- What a system does that lets tasks have their interrupts: while one is held `unhold` is called
again, and a task for which one is recorded calls RECEIVE again, at a time when no message of
another process comes first. -/
structure Attentive (calls : Nat → Call) (states : Nat → State) (task : Slot) : Prop where
  unholds : ∀ n, (states n).held ≠ [] → ∃ m, n ≤ m ∧ calls m = .unhold
  receives : ∀ n, ((states n).proc task).pIntBlocked = true →
    ∃ m, n ≤ m ∧ (calls m).OpenReceive (states m) task

theorem InterruptInvariant.endless (inv : InterruptInvariant start)
    (endless : Endless Kernel.step Contract start calls states) (n : Nat) :
    InterruptInvariant (states n) :=
  inv.run (endless.run n)

theorem recorded_received (endless : Endless step Contract start calls states)
    (inv : InterruptInvariant start) (attentive : Attentive calls states task)
    (recorded : ((states n).proc task).pIntBlocked = true) :
    ∃ m, n ≤ m ∧ HardInt (states m) (states (m + 1)) task := by
  refine served_of_rank (fun n => ((states n).proc task).pIntBlocked = true)
    (fun n => (calls n).OpenReceive (states n) task) (fun _ => 0)
    (fun n waits => ?_) attentive.receives n recorded
  have inv := inv.endless endless n
  have contract := endless.allowed n
  by_cases sent : HardInt (states n) (states (n + 1)) task
  · exact .inl sent
  · refine .inr ⟨?_, le_rfl, fun opens => absurd ?_ sent⟩
    · have settled := (inv.step contract (endless.completed n)).2
      exact (settled.recorded task waits).resolve_left sent
    · exact hardInt_of_openReceive inv.table inv.interrupts contract (endless.completed n)
        waits opens

/-- A held interrupt moves to the front of the held list, until `unhold` sends or records it. -/
theorem held_received (endless : Endless step Contract start calls states)
    (inv : InterruptInvariant start) (attentive : Attentive calls states task)
    (held : task ∈ (states n).held) :
    ∃ m, n ≤ m ∧ HardInt (states m) (states (m + 1)) task := by
  have leaves : ∃ m, n ≤ m ∧ (HardInt (states m) (states (m + 1)) task ∨
      ((states (m + 1)).proc task).pIntBlocked = true) := by
    refine served_of_rank (fun n => task ∈ (states n).held)
      (fun n => calls n = .unhold) (fun n => (states n).held.idxOf task)
      (fun n waits => ?_) (fun n waits => ?_) n held
    · have settled :=
        ((inv.endless endless n).step (endless.allowed n) (endless.completed n)).2
      obtain ⟨more, queue⟩ := settled.queue
      rw [queue]
      by_cases helps : calls n = .unhold
      · rw [helps] at settled ⊢
        cases heldList : (states n).held with
        | nil =>
          rw [heldList] at waits
          cases waits
        | cons first others =>
          rw [heldList] at waits
          by_cases same : first = task
          · exact .inl (settled.popped rfl task (by rw [heldList, same]; rfl))
          · have member : task ∈ others :=
              (List.mem_cons.mp waits).resolve_left fun this => same this.symm
            have shorter : (others ++ more).idxOf task < (first :: others).idxOf task := by
              rw [List.idxOf_append_of_mem member, List.idxOf_cons_ne _ same]
              exact Nat.lt_succ_self _
            exact .inr ⟨List.mem_append_left _ member, shorter.le, fun _ => shorter⟩
      · have rest : (calls n).rest (states n).held = (states n).held := by
          cases this : calls n with
          | unhold => exact absurd this helps
          | _ => rfl
        rw [rest]
        refine .inr ⟨List.mem_append_left _ waits, ?_, fun this => absurd this helps⟩
        rw [List.idxOf_append_of_mem waits]
    · exact attentive.unholds n (List.ne_nil_of_mem waits)
  obtain ⟨m, later, sent | recorded⟩ := leaves
  · exact ⟨m, later, sent⟩
  · obtain ⟨m', later', sent⟩ := recorded_received endless inv attentive recorded
    exact ⟨m', later.trans ((Nat.le_succ m).trans later'), sent⟩

/-- Interrupts are not lost. In every state that a run reaches the held list holds each task once,
and when a task is interrupted, it receives HARD_INT, or the interrupt stays held or recorded. In a
run without end, it receives HARD_INT if the system is attentive to it. -/
theorem interrupts_not_lost {maps : Slot → MemMap} {sysMessage : UInt32} {labels : List Call}
    {k : State} (reached : Reaches Contract maps sysMessage labels k) :
    k.held.Nodup ∧
      (∀ task competing k₁ more k', Contract k (.interrupt task competing) →
        step k (.interrupt task competing) = some k₁ → Run step Contract k₁ more k' →
        HardInt k k' task ∨ k'.Owed task) ∧
      ∀ calls states, Endless step Contract k calls states →
        ∀ task, Attentive calls states task → ∀ n competing, calls n = .interrupt task competing →
          ∃ m, n ≤ m ∧ HardInt (states m) (states (m + 1)) task := by
  have inv := reached.interruptInvariant
  refine ⟨inv.interrupts.once, fun task competing k₁ more k' contract completed run => ?_,
    fun calls states endless task attentive n competing called => ?_⟩
  · obtain ⟨inv₁, settled⟩ := inv.step contract completed
    obtain ⟨_, first⟩ := inv.grows contract completed
    obtain ⟨_, later⟩ := inv₁.run_grows run
    rcases settled.noted task competing rfl with sent | ⟨-, held⟩ | recorded
    · exact .inl (sent.later later)
    · exact (owed_of_run inv₁ (.inl held) run).imp_left (·.earlier first)
    · exact (owed_of_run inv₁ (.inr recorded) run).imp_left (·.earlier first)
  · have settled :=
      ((inv.endless endless n).step (endless.allowed n) (endless.completed n)).2
    rcases settled.noted task competing called with sent | ⟨-, held⟩ | recorded
    · exact ⟨n, le_rfl, sent⟩
    · obtain ⟨m, later, sent⟩ := held_received endless inv attentive held
      exact ⟨m, (Nat.le_succ n).trans later, sent⟩
    · obtain ⟨m, later, sent⟩ := recorded_received endless inv attentive recorded
      exact ⟨m, (Nat.le_succ n).trans later, sent⟩

end Endless

/-! ### Tasks that receive for ever -/

/-- TTY is interrupted and calls RECEIVE(ANY), again and again. -/
def idleCall (n : Nat) : Call :=
  match n % 2 with
  | 0 => .interrupt tty false
  | _ => .sysCall .receive any 0

/-- Nothing is held, TTY runs, and no process sends to it. -/
def undisturbed (k : State) (_ : Nat) : Bool :=
  k.held.isEmpty && k.procPtr == tty && (k.callerq tty).isNone

/-- TTY receives the first interrupt. -/
theorem interrupts_not_lost_idle :
    ∃ k, Reaches Contract (fun _ => {}) 0 [] k ∧
      ∃ states, Endless step Contract k idleCall states ∧ Attentive idleCall states tty ∧
        ∃ m, 0 ≤ m ∧ HardInt (states m) (states (m + 1)) tty := by
  obtain ⟨k, reached, states, endless, quiet⟩ :=
    exists_repeating_round (fun _ => {}) 0 [] idleCall 2 undisturbed (by decide)
      (fun n => by simp [idleCall]) (fun _ _ _ => rfl) (by decide)
  have facts (n : Nat) : (states n).held = [] ∧ (states n).procPtr = tty ∧
      (states n).callerq tty = none := by
    have quiet := quiet n
    simp only [undisturbed, Bool.and_eq_true, List.isEmpty_iff, beq_iff_eq,
      Option.isNone_iff_eq_none] at quiet
    exact ⟨quiet.1.1, quiet.1.2, quiet.2⟩
  have attentive : Attentive idleCall states tty := by
    refine ⟨fun n nonempty => absurd (facts n).1 nonempty, fun n _ => ⟨2 * n + 1, by omega, ?_⟩⟩
    have odd : (2 * n + 1) % 2 = 1 := by omega
    have call : idleCall (2 * n + 1) = .sysCall .receive any 0 := by
      rw [idleCall, odd]
      rfl
    rw [call]
    exact ⟨(facts _).2.1, .inr ⟨rfl, (facts _).2.2⟩⟩
  exact ⟨k, reached, states, endless, attentive,
    (interrupts_not_lost reached).2.2 idleCall states endless tty attentive 0 false rfl⟩

/-- A task that answers TTY. -/
def answerer : Slot := ⟨1, by decide⟩

/-- A task that sends to TTY as soon as TTY has taken its last message. -/
def talker : Slot := ⟨2, by decide⟩

/-- TTY is interrupted and makes a call to the answerer. Until the answer comes the talker has sent
its message, which TTY then receives. -/
def busyCall (n : Nat) : Call :=
  match n % 6 with
  | 0 => .interrupt tty false
  | 1 => .sysCall .both (procNumber answerer) 0
  | 2 => .sysCall .send (procNumber tty) 0
  | 3 => .sysCall .send (procNumber tty) 0
  | _ => .sysCall .receive any 0

/-- The tasks wait for messages, MM wakes TTY up, which wakes up the talker; then a first round. -/
def busyStart : List Call :=
  List.replicate 8 (.sysCall .receive any 0) ++
    [.sysCall .send (procNumber tty) 0, .sysCall .send (procNumber talker) 0] ++
      (List.range 6).map busyCall

/-- The call adds no HARD_INT for TTY to the history, nothing is held, and in the last call of a
round TTY calls RECEIVE(ANY). -/
def passesOver (k : State) (n : Nat) : Bool :=
  (step k (busyCall n)).all (fun k' =>
      decide (k'.history.count (.notified tty) = k.history.count (.notified tty))) &&
    k.held.isEmpty && (n % 6 != 5 || k.procPtr == tty)

theorem passesOver_preceded (k : State) (earlier : List Event) (n : Nat) :
    passesOver (k.preceded earlier) n = passesOver k (n % 6) := by
  have same : busyCall n = busyCall (n % 6) := by simp [busyCall]
  have passes : (busyCall (n % 6)).Passes := by
    unfold busyCall
    split <;> trivial
  rw [passesOver, passesOver, same, preceded_step k earlier passes, Option.all_map]
  simp [State.preceded]

/-- A task that calls RECEIVE(ANY) again and again need not receive its interrupt. -/
theorem busy_task_misses_interrupt :
    ¬ ∀ (maps : Slot → MemMap) (sysMessage : UInt32) (labels : List Call) (k : State),
      Reaches Contract maps sysMessage labels k →
        ∀ (calls : Nat → Call) (states : Nat → State), Endless step Contract k calls states →
          ∀ task, (∀ n, (states n).held ≠ [] → ∃ m, n ≤ m ∧ calls m = .unhold) →
            (∀ n, ∃ m, n ≤ m ∧ (states m).procPtr = task ∧
              ∃ mPtr, calls m = .sysCall .receive any mPtr) →
            ∀ n competing, calls n = .interrupt task competing →
              ∃ m, n ≤ m ∧ HardInt (states m) (states (m + 1)) task := by
  intro claimed
  obtain ⟨k, reached, states, endless, missed⟩ :=
    exists_repeating_round (fun _ => { stackLen := 1024 }) 0 busyStart busyCall 6 passesOver
      (by decide) (fun n => by simp [busyCall])
      passesOver_preceded (by decide +kernel)
  have facts (n : Nat) : ¬ HardInt (states n) (states (n + 1)) tty ∧ (states n).held = [] ∧
      (n % 6 = 5 → (states n).procPtr = tty) := by
    have missed := missed n
    simp only [passesOver, Bool.and_eq_true, List.isEmpty_iff, Bool.or_eq_true, bne_iff_ne,
      beq_iff_eq] at missed
    refine ⟨?_, missed.1.2, fun last => missed.2.resolve_left (not_not.mpr last)⟩
    rintro ⟨events, grown, member⟩
    rw [endless.completed n, Option.all_some, decide_eq_true_eq, grown, List.count_append] at missed
    have := List.count_pos_iff.mpr member
    omega
  obtain ⟨m, -, sent⟩ := claimed _ _ _ k reached busyCall states endless tty
    (fun n nonempty => absurd (facts n).2.1 nonempty)
    (fun n => ⟨6 * n + 5, by omega, (facts _).2.2 (by omega), 0, by
      have last : (6 * n + 5) % 6 = 5 := by omega
      rw [busyCall, last]
      rfl⟩)
    0 false rfl
  exact (facts m).1 sent

end Minix.Kernel
