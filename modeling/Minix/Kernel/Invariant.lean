/-
This file states what holds of the process table between any two kernel entries.

`Invariant` has four parts. The ready queues hold exactly the processes that are runnable,
and the running process is at the head of one of them. Every entry of the table is
consistent in itself (`EntryOk`). The caller queues and what the SENDING processes offer are
what one gets by replaying the history, which is a legal history of message passing. Held
interrupts are for tasks. The scheduler lemmas of the previous file are restated for
`ReadyFor`, which forgets the order of the queues.
-/

import Minix.Kernel.System

namespace Minix.Kernel

open Function (update_of_ne update_self)
open LinkedList

/-! ### Frames -/

namespace State

variable (k : State) (p : Slot) (change : Proc → Proc) (s : Schedule) (events : List Event)

@[simp] theorem withSchedule_pFlags :
    ((k.withSchedule s).proc p).pFlags = (k.proc p).pFlags := rfl

@[simp] theorem withSchedule_pSendto :
    ((k.withSchedule s).proc p).pSendto = (k.proc p).pSendto := rfl

@[simp] theorem withSchedule_pGetfrom :
    ((k.withSchedule s).proc p).pGetfrom = (k.proc p).pGetfrom := rfl

@[simp] theorem withSchedule_pMessbuf :
    ((k.withSchedule s).proc p).pMessbuf = (k.proc p).pMessbuf := rfl

@[simp] theorem withSchedule_history : (k.withSchedule s).history = k.history := rfl

@[simp] theorem withSchedule_held : (k.withSchedule s).held = k.held := rfl

@[simp] theorem withSchedule_sendlink : (k.withSchedule s).sendlink = k.sendlink := rfl

@[simp] theorem withSchedule_callerq : (k.withSchedule s).callerq = k.callerq := rfl

@[simp] theorem withSchedule_priority : (k.withSchedule s).priority = k.priority := rfl

@[simp] theorem withSchedule_waitsFor : (k.withSchedule s).waitsFor = k.waitsFor := rfl

@[simp] theorem emit_proc : (k.emit events).proc = k.proc := rfl

@[simp] theorem emit_history : (k.emit events).history = k.history ++ events := rfl

@[simp] theorem emit_held : (k.emit events).held = k.held := rfl

@[simp] theorem emit_schedule : (k.emit events).schedule = k.schedule := rfl

@[simp] theorem emit_priority : (k.emit events).priority = k.priority := rfl

@[simp] theorem emit_sendlink : (k.emit events).sendlink = k.sendlink := rfl

@[simp] theorem emit_callerq : (k.emit events).callerq = k.callerq := rfl

@[simp] theorem modify_history : (k.modify p change).history = k.history := rfl

@[simp] theorem modify_held : (k.modify p change).held = k.held := rfl

@[simp] theorem modify_procPtr : (k.modify p change).procPtr = k.procPtr := rfl

theorem modify_modify (change' : Proc → Proc) :
    (k.modify p change).modify p change' = k.modify p fun entry => change' (change entry) := by
  simp [modify]

variable {k p change}

/-- A change that leaves the ready queue link alone commutes with rescheduling. -/
theorem modify_withSchedule {s : Schedule}
    (commutes : ∀ entry next, change { entry with pNextready := next } =
      { change entry with pNextready := next }) :
    (k.modify p change).withSchedule s = (k.withSchedule s).modify p change := by
  have entries : ((k.modify p change).withSchedule s).proc =
      ((k.withSchedule s).modify p change).proc := by
    funext q
    by_cases same : q = p
    · subst same
      simp only [withSchedule, modify_proc, if_true]
      exact (commutes _ _).symm
    · simp [withSchedule, same]
  simp only [withSchedule, modify] at entries ⊢
  rw [entries]

theorem modify_schedule
    (kept : (change (k.proc p)).pNextready = (k.proc p).pNextready) :
    (k.modify p change).schedule = k.schedule := by
  have column := k.modify_column p change Proc.pNextready kept
  simp only [schedule, Schedule.mk.injEq]
  exact ⟨column, rfl, rfl, rfl, rfl⟩

theorem modify_priority (kept : (change (k.proc p)).pPriority = (k.proc p).pPriority) :
    (k.modify p change).priority = k.priority :=
  k.modify_column p change Proc.pPriority kept

theorem modify_sendlink (kept : (change (k.proc p)).pSendlink = (k.proc p).pSendlink) :
    (k.modify p change).sendlink = k.sendlink :=
  k.modify_column p change Proc.pSendlink kept

theorem modify_callerq (kept : (change (k.proc p)).pCallerq = (k.proc p).pCallerq) :
    (k.modify p change).callerq = k.callerq :=
  k.modify_column p change Proc.pCallerq kept

end State

/-! ### Ready processes -/

/-- A process that should be on a ready queue. -/
def State.Runnable (k : State) (p : Slot) : Prop :=
  (k.proc p).pFlags.clear = true ∧ k.priority p ≠ .none ∧ p ≠ idle ∧ p ≠ hardware

/-- The ready queues hold exactly the given processes. -/
def State.ReadyFor (k : State) (runnable : Slot → Prop) : Prop :=
  ∃ queues, ReadyQueues k.schedule k.priority queues ∧
    ∀ p, (∃ queue, p ∈ queues queue) ↔ runnable p

/-- The running process is a task or a server. -/
def State.SystemRunning (k : State) : Prop := queueOf (k.priority k.procPtr) ≠ .user

section ReadyFor

variable {k k' : State} {p : Slot} {runnable runnable' : Slot → Prop}

section

variable (ready : k.ReadyFor runnable)
include ready

theorem State.ReadyFor.congr_on (rdyHead : k'.rdyHead = k.rdyHead)
    (rdyTail : k'.rdyTail = k.rdyTail) (procPtr : k'.procPtr = k.procPtr)
    (nextready : ∀ p, runnable p → k'.nextready p = k.nextready p)
    (priority : ∀ p, runnable p → k'.priority p = k.priority p)
    (same : ∀ p, runnable' p ↔ runnable p) : k'.ReadyFor runnable' := by
  obtain ⟨queues, represented, members⟩ := ready
  refine ⟨queues, ⟨fun queue => ?_, fun queue nonempty => ?_, fun queue p member => ?_, ?_⟩,
    fun p => (members p).trans (same p).symm⟩
  · rw [State.schedule_rdyHead, rdyHead]
    exact (represented.chain queue).congr fun p member => nextready p ((members p).mp ⟨_, member⟩)
  · rw [State.schedule_rdyTail, rdyTail]
    exact represented.tail queue nonempty
  · rw [priority p ((members p).mp ⟨_, member⟩)]
    exact represented.sorted queue p member
  · rw [State.schedule_procPtr, procPtr]
    exact represented.running

theorem State.ReadyFor.congr (schedule : k'.schedule = k.schedule)
    (priority : k'.priority = k.priority) (same : ∀ p, runnable' p ↔ runnable p) :
    k'.ReadyFor runnable' := by
  obtain ⟨queues, represented, members⟩ := ready
  refine ⟨queues, ?_, fun p => (members p).trans (same p).symm⟩
  rw [schedule, priority]
  exact represented

theorem State.ReadyFor.running (notIdle : k.procPtr ≠ idle) :
    runnable k.procPtr := by
  obtain ⟨queues, represented, members⟩ := ready
  rw [← members]
  rcases represented.running with taskHead | ⟨-, isIdle | ⟨queue, head⟩⟩
  · exact ⟨.task, List.mem_of_head? taskHead⟩
  · exact absurd isIdle notIdle
  · exact ⟨queue, List.mem_of_head? head⟩

end

section

variable (holds : k.ReadyFor runnable)
include holds

theorem State.ReadyFor.pickProc :
    ∃ s, Kernel.pickProc k = k.withSchedule s ∧ (k.withSchedule s).ReadyFor runnable := by
  obtain ⟨queues, represented, members⟩ := holds
  obtain ⟨s, result, after⟩ := pickProc_spec represented
  exact ⟨s, result, queues, after, members⟩

theorem State.ReadyFor.sched :
    ∃ s, Kernel.sched k = some (k.withSchedule s) ∧ (k.withSchedule s).ReadyFor runnable := by
  obtain ⟨queues, represented, members⟩ := holds
  obtain ⟨s, result, after⟩ := sched_spec represented
  refine ⟨s, result, _, after, fun p => (exists_congr fun queue => ?_).trans (members p)⟩
  by_cases same : queue = .user
  · subst same
    rw [update_self]
    cases queues .user with
    | nil => simp
    | cons head rest => simp [or_comm]
  · rw [update_of_ne same]

theorem State.ReadyFor.taskRunning (ready : runnable p) (task : k.priority p = .task) :
    k.SystemRunning := by
  obtain ⟨queues, represented, members⟩ := holds
  obtain ⟨queue, member⟩ := (members p).mpr ready
  have isTask := represented.sorted _ _ member
  rw [task] at isTask
  subst isTask
  rcases represented.running with taskHead | ⟨noTask, -⟩
  · have sorted := represented.sorted _ _ (List.mem_of_head? taskHead)
    simp only [State.schedule_procPtr] at sorted
    simp [State.SystemRunning, sorted]
  · simp [queueOf, noTask] at member

theorem State.ReadyFor.unready (p : Slot) :
    ∃ s, Kernel.unready k p = some (k.withSchedule s) ∧
      (k.withSchedule s).ReadyFor fun q => runnable q ∧ q ≠ p := by
  obtain ⟨queues, represented, members⟩ := holds
  obtain ⟨s, result, after⟩ := unready_spec represented p
  refine ⟨s, result, _, after, fun q => ?_⟩
  show _ ↔ runnable q ∧ q ≠ p
  rw [← members]
  have nodup := (represented.chain (queueOf (k.priority p))).nodup
  constructor
  · rintro ⟨queue, member⟩
    by_cases same : queue = queueOf (k.priority p)
    · subst same
      rw [update_self, nodup.mem_erase_iff] at member
      exact ⟨⟨_, member.2⟩, member.1⟩
    · rw [update_of_ne same] at member
      refine ⟨⟨_, member⟩, ?_⟩
      rintro rfl
      exact same (represented.sorted _ _ member).symm
  · rintro ⟨⟨queue, member⟩, apart⟩
    refine ⟨queue, ?_⟩
    by_cases same : queue = queueOf (k.priority p)
    · subst same
      rw [update_self, nodup.mem_erase_iff]
      exact ⟨apart, member⟩
    · rwa [update_of_ne same]

theorem State.ReadyFor.ready (absent : ¬ runnable p)
    (safe : queueOf (k.priority p) = .user → k.SystemRunning) :
    ∃ s, Kernel.ready k p = some (k.withSchedule s) ∧
      (k.withSchedule s).ReadyFor fun q => runnable q ∨ q = p := by
  obtain ⟨queues, represented, members⟩ := holds
  have fresh : ∀ queue, p ∉ queues queue := fun queue member =>
    absent ((members p).mp ⟨queue, member⟩)
  obtain ⟨s, result, after⟩ := ready_spec represented fresh fun isUser head =>
    safe isUser (represented.sorted _ _ (List.mem_of_head? head))
  refine ⟨s, result, _, after, fun q => ?_⟩
  show _ ↔ runnable q ∨ q = p
  rw [← members]
  constructor
  · rintro ⟨queue, member⟩
    by_cases same : queue = queueOf (k.priority p)
    · subst same
      rw [update_self, mem_enqueue] at member
      exact member.symm.imp_left fun member => ⟨_, member⟩
    · rw [update_of_ne same] at member
      exact .inl ⟨_, member⟩
  · rintro (⟨queue, member⟩ | rfl)
    · refine ⟨queue, ?_⟩
      by_cases same : queue = queueOf (k.priority p)
      · subst same
        rw [update_self, mem_enqueue]
        exact .inr member
      · rwa [update_of_ne same]
    · exact ⟨queueOf (k.priority q), by rw [update_self, mem_enqueue]; exact .inl rfl⟩

end

theorem State.ReadyFor.sleep (ready : k.ReadyFor k.Runnable) (p : Slot) :
    ∃ s, unreadyIfClear k p =
        some (k.withSchedule s) ∧
      (k.withSchedule s).ReadyFor fun q => k.Runnable q ∧ q ≠ p := by
  rw [unreadyIfClear]
  by_cases clear : (k.proc p).pFlags.clear
  · rw [if_pos clear]
    exact ready.unready p
  · rw [if_neg clear]
    refine ⟨k.schedule, rfl, ready.congr rfl rfl fun q => ⟨fun both => both.1, fun runs => ?_⟩⟩
    refine ⟨runs, ?_⟩
    rintro rfl
    exact clear runs.1

theorem State.ReadyFor.wake (ready : k.ReadyFor fun q => k.Runnable q ∧ q ≠ p)
    (live : k.priority p ≠ .none) (notIdle : p ≠ idle) (notHardware : p ≠ hardware)
    (safe : queueOf (k.priority p) = .user → k.SystemRunning) :
    ∃ s, readyIfClear k p =
        some (k.withSchedule s) ∧
      (k.withSchedule s).ReadyFor k.Runnable ∧
      (k.SystemRunning → (k.withSchedule s).SystemRunning) := by
  rw [readyIfClear]
  by_cases clear : (k.proc p).pFlags.clear
  · rw [if_pos clear]
    obtain ⟨s, result, after⟩ := ready.ready (fun both => both.2 rfl) safe
    refine ⟨s, result, after.congr rfl rfl fun q => ?_, fun system => ?_⟩
    · by_cases same : q = p
      · subst same
        simpa using ⟨clear, live, notIdle, notHardware⟩
      · simp [same]
    · rcases ready_procPtr result with kept | ⟨isTask, sorted⟩
      · simpa only [State.SystemRunning, kept, State.withSchedule_priority] using system
      · simp [State.SystemRunning, isTask, sorted]
  · rw [if_neg clear]
    refine ⟨k.schedule, rfl, ready.congr rfl rfl fun q => ⟨fun runs => ⟨runs, ?_⟩, And.left⟩, id⟩
    rintro rfl
    exact clear runs.1

end ReadyFor

/-! ### Caller queues -/

/-- The message that a SENDING process offers. -/
def State.offer (k : State) (p : Slot) : Option (Slot × UInt32) :=
  if (k.proc p).pFlags.sending then some ((k.proc p).pSendto, (k.proc p).pMessbuf) else none

/-- The queues and offers that the history leads to. -/
def State.rendezvous (k : State) : Rendezvous.State Slot UInt32 := Rendezvous.replay k.history

variable {p : Slot}

theorem State.offer_eq_none {k : State} :
    k.offer p = none ↔ (k.proc p).pFlags.sending = false := by
  simp [offer]

theorem State.offer_eq_some {k : State} {p dest : Slot} {buffer : UInt32} :
    k.offer p = some (dest, buffer) ↔ (k.proc p).pFlags.sending = true ∧
      (k.proc p).pSendto = dest ∧ (k.proc p).pMessbuf = buffer := by
  simp [offer]

/-! ### Table entries -/

/-- The priority of the slots that `main` fills. -/
def systemPriority (p : Slot) : Priority := if p = idle then .idle else bootPriority p

/-- What holds of one table entry. -/
structure EntryOk (p : Slot) (entry : Proc) : Prop where
  /-- Tasks and servers keep the slots that `main` gave them. -/
  fixed : p < init → entry.pPriority = systemPriority p
  others : ¬ p < init → entry.pPriority = .user ∨ entry.pPriority = .none
  /-- A process that sends and receives at once is in a `sendrec`. -/
  sendrec : entry.pFlags.sending = true → entry.pFlags.receiving = true →
    entry.pGetfrom = procNumber entry.pSendto
  userSends : entry.pPriority = .user → entry.pFlags.sending = true →
    entry.pSendto = mm ∨ entry.pSendto = fs
  system : p < init → entry.pFlags.noMap = false ∧ entry.pFlags.pending = false ∧
    entry.pFlags.sigPending = false ∧ entry.pFlags.pStop = false
  empty : entry.pPriority = .none → entry.pFlags = {}
  quiet : isidlehardware p = true → entry.pFlags = {}
  /-- PENDING says that there is a signal MM has not been told of. -/
  pending : entry.pFlags.pending = true ↔ entry.pPending.Nonempty
  told : entry.pPending.card ≤ entry.pPendcount
  /-- SIG_PENDING says that there is a signal MM has not finished. -/
  sigPending : entry.pFlags.sigPending = true ↔ entry.pPendcount ≠ 0

/-- `EntryOk` reads the priority, the flags, the partners and the signals. -/
theorem EntryOk.congr {entry entry' : Proc} (ok : EntryOk p entry)
    (priority : entry'.pPriority = entry.pPriority) (flags : entry'.pFlags = entry.pFlags)
    (getfrom : entry'.pGetfrom = entry.pGetfrom) (sendto : entry'.pSendto = entry.pSendto)
    (pending : entry'.pPending = entry.pPending)
    (pendcount : entry'.pPendcount = entry.pPendcount) : EntryOk p entry' := by
  constructor <;> simp only [priority, flags, getfrom, sendto, pending, pendcount]
  · exact ok.fixed
  · exact ok.others
  · exact ok.sendrec
  · exact ok.userSends
  · exact ok.system
  · exact ok.empty
  · exact ok.quiet
  · exact ok.pending
  · exact ok.told
  · exact ok.sigPending

theorem EntryOk.fewer {entry : Proc} (ok : EntryOk p entry) (flags : Flags)
    (pending : flags.pending = entry.pFlags.pending)
    (sigPending : flags.sigPending = entry.pFlags.sigPending)
    (sending : flags.sending = true → entry.pFlags.sending = true)
    (receiving : flags.receiving = true → entry.pFlags.receiving = true)
    (noMap : flags.noMap = true → entry.pFlags.noMap = true)
    (pStop : flags.pStop = true → entry.pFlags.pStop = true) :
    EntryOk p { entry with pFlags := flags } := by
  have cleared : entry.pFlags = {} → flags = {} := by
    intro clear
    rw [clear] at pending sigPending sending receiving noMap pStop
    cases flags
    simp_all
  refine ⟨ok.fixed, ok.others, fun sends receives => ok.sendrec (sending sends)
    (receiving receives), fun user sends => ok.userSends user (sending sends), fun system => ?_,
    fun empty => cleared (ok.empty empty), fun quiet => cleared (ok.quiet quiet), ?_, ok.told, ?_⟩
  · obtain ⟨noMapClear, pendingClear, sigPendingClear, pStopClear⟩ := ok.system system
    refine ⟨?_, pending.trans pendingClear, sigPending.trans sigPendingClear, ?_⟩
    · exact Bool.eq_false_iff.mpr fun set => by simp [noMap set] at noMapClear
    · exact Bool.eq_false_iff.mpr fun set => by simp [pStop set] at pStopClear
  · rw [pending]
    exact ok.pending
  · rw [sigPending]
    exact ok.sigPending

/-! ### The invariant -/

/-- Which caller queues the invariant describes: all of them, or only those of tasks and servers.
A fork may copy the queue of a user process, and two processes then share it. -/
inductive Scope
  | system
  | every

/-- The queue of this process is described. -/
def Scope.Covers : Scope → Slot → Prop
  | .system, p => p < init
  | .every, _ => True

theorem Scope.covers_server (scope : Scope) (server : p = mm ∨ p = fs) :
    scope.Covers p := by
  cases scope with
  | system =>
    show p < init
    rcases server with rfl | rfl <;> decide
  | every => exact trivial

/-- A process that sends to one whose queue is not described. -/
def State.Loose (scope : Scope) (k : State) (p : Slot) : Prop :=
  ∃ dest buffer, ¬ scope.Covers dest ∧ k.offer p = some (dest, buffer)

/-- What holds of the process table between two entries, apart from the schedule. The caller
queues and the SENDING flags are what the history leads to, and the history is legal. A queue
that is not described holds only processes that send to such queues. -/
structure TableOk (scope : Scope) (k : State) : Prop where
  entries : ∀ p, EntryOk p (k.proc p)
  chain : ∀ dest, scope.Covers dest →
    Chain k.sendlink (k.callerq dest) (k.rendezvous.waiting dest)
  looseHead : ∀ dest p, ¬ scope.Covers dest → k.callerq dest = some p → k.Loose scope p
  looseLink : ∀ p q, k.Loose scope p → k.sendlink p = some q → k.Loose scope q
  offers : ∀ p, k.offer p = k.rendezvous.offer p
  legal : Rendezvous.Legal (Rendezvous.Allowed scope.Covers accepts) k.history
  held : ∀ p ∈ k.held, k.priority p = .task

/-- What holds of the kernel between two entries. -/
structure Invariant (scope : Scope) (k : State) : Prop extends TableOk scope k where
  scheduled : k.ReadyFor k.Runnable

/-- A change of an entry that concerns neither the ready queues nor message passing. -/
structure Neutral (entry entry' : Proc) : Prop where
  nextready : entry'.pNextready = entry.pNextready := by rfl
  priority : entry'.pPriority = entry.pPriority := by rfl
  sendlink : entry'.pSendlink = entry.pSendlink := by rfl
  callerq : entry'.pCallerq = entry.pCallerq := by rfl
  sending : entry'.pFlags.sending = entry.pFlags.sending := by rfl
  sendto : entry'.pSendto = entry.pSendto := by rfl
  messbuf : entry.pFlags.sending = true → entry'.pMessbuf = entry.pMessbuf := by intro; rfl

section Changes

variable {scope : Scope} {k k' : State} {p : Slot} {change : Proc → Proc}

theorem TableOk.withSchedule (table : TableOk scope k) (s : Schedule) : TableOk scope
    (k.withSchedule s) where
  entries q := (table.entries q).congr rfl rfl rfl rfl rfl rfl
  chain := table.chain
  looseHead := table.looseHead
  looseLink := table.looseLink
  offers := table.offers
  legal := table.legal
  held := table.held

theorem State.modify_offer (neutral : Neutral (k.proc p) (change (k.proc p))) :
    (k.modify p change).offer = k.offer := by
  funext q
  by_cases same : q = p
  · subst same
    simp only [State.offer, State.modify_proc, if_true, neutral.sending, neutral.sendto]
    by_cases sending : (k.proc q).pFlags.sending = true
    · rw [neutral.messbuf sending]
    · simp [sending]
  · simp only [State.offer, State.modify_proc, if_neg same]

theorem State.loose_congr (same : k'.offer = k.offer) : k'.Loose scope = k.Loose scope := by
  funext p
  simp only [State.Loose, same]

theorem TableOk.modify (table : TableOk scope k)
    (neutral : Neutral (k.proc p) (change (k.proc p)))
    (ok : EntryOk p (change (k.proc p))) : TableOk scope (k.modify p change) where
  entries q := by
    by_cases same : q = p
    · subst same
      simpa using ok
    · simpa [same] using table.entries q
  chain dest covers := by
    rw [State.modify_sendlink neutral.sendlink, State.modify_callerq neutral.callerq]
    exact table.chain dest covers
  looseHead := by
    rw [State.loose_congr (State.modify_offer neutral), State.modify_callerq neutral.callerq]
    exact table.looseHead
  looseLink := by
    rw [State.loose_congr (State.modify_offer neutral), State.modify_sendlink neutral.sendlink]
    exact table.looseLink
  offers q := by
    rw [State.modify_offer neutral]
    exact table.offers q
  legal := table.legal
  held q member := by
    rw [State.modify_priority neutral.priority]
    exact table.held q member

theorem State.Runnable.modify_iff (neutral : Neutral (k.proc p) (change (k.proc p))) {q : Slot}
    (apart : q ≠ p) : (k.modify p change).Runnable q ↔ k.Runnable q := by
  simp only [State.Runnable, State.modify_priority neutral.priority, State.modify_proc,
    if_neg apart]

theorem Invariant.adjust (inv : Invariant scope k) (p : Slot) (change : Proc → Proc)
    (neutral : Neutral (k.proc p) (change (k.proc p)))
    (flags : (change (k.proc p)).pFlags.clear = (k.proc p).pFlags.clear)
    (ok : EntryOk p (change (k.proc p))) : Invariant scope (k.modify p change) where
  toTableOk := inv.toTableOk.modify neutral ok
  scheduled := by
    refine inv.scheduled.congr (State.modify_schedule neutral.nextready)
      (State.modify_priority neutral.priority) fun q => ?_
    by_cases same : q = p
    · subst same
      simp [State.Runnable, State.modify_priority neutral.priority, flags]
    · exact State.Runnable.modify_iff neutral same

/-- A process goes to sleep: `unready` if it is runnable, then a change that sets a flag. -/
theorem Invariant.sleep (inv : Invariant scope k) (p : Slot) :
    ∃ s, unreadyIfClear k p = some (k.withSchedule s) ∧
      ∀ change : Proc → Proc,
        Neutral ((k.withSchedule s).proc p) (change ((k.withSchedule s).proc p)) →
        (change ((k.withSchedule s).proc p)).pFlags.clear = false →
        EntryOk p (change ((k.withSchedule s).proc p)) →
        Invariant scope ((k.withSchedule s).modify p change) := by
  obtain ⟨s, result, asleep⟩ := inv.scheduled.sleep p
  refine ⟨s, result, fun change neutral blocked ok => ⟨?_, ?_⟩⟩
  · exact (inv.toTableOk.withSchedule s).modify neutral ok
  · refine asleep.congr (State.modify_schedule neutral.nextready)
      (State.modify_priority neutral.priority) fun q => ?_
    by_cases same : q = p
    · subst same
      simp only [State.Runnable, State.modify_proc, if_true, blocked]
      simp
    · rw [State.Runnable.modify_iff neutral same]
      simp [State.Runnable, same]

/-- A process that is not runnable has flags cleared and is made ready if none is left. -/
theorem Invariant.wake (inv : Invariant scope k) (p : Slot) (change : Proc → Proc)
    (notRunnable : ¬ k.Runnable p)
    (neutral : Neutral (k.proc p) (change (k.proc p))) (ok : EntryOk p (change (k.proc p)))
    (live : k.priority p ≠ .none) (notIdle : p ≠ idle) (notHardware : p ≠ hardware)
    (safe : queueOf (k.priority p) = .user → k.SystemRunning) :
    ∃ s, readyIfClear (k.modify p change) p = some ((k.modify p change).withSchedule s) ∧
      Invariant scope ((k.modify p change).withSchedule s) ∧
      (k.SystemRunning → ((k.modify p change).withSchedule s).SystemRunning) := by
  have priority := State.modify_priority neutral.priority
  have asleep : (k.modify p change).ReadyFor
      fun q => (k.modify p change).Runnable q ∧ q ≠ p := by
    refine inv.scheduled.congr (State.modify_schedule neutral.nextready) priority fun q => ?_
    by_cases same : q = p
    · subst same
      simpa using notRunnable
    · simp [State.Runnable.modify_iff neutral same, same]
  have system : (k.modify p change).SystemRunning ↔ k.SystemRunning := by
    simp only [State.SystemRunning, priority, State.modify_procPtr]
  obtain ⟨s, result, awake, kept⟩ := asleep.wake (by rwa [priority]) notIdle notHardware
    (by rwa [priority, system])
  exact ⟨s, result, ⟨(inv.toTableOk.modify neutral ok).withSchedule s, awake⟩,
    fun running => kept (system.mpr running)⟩

end Changes

end Minix.Kernel
