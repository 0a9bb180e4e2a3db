/-
This file models the scheduler of `kernel/proc.c`: `pick_proc`, `ready`, `unready` and
`sched`, on the pointers `rdy_head`, `rdy_tail` and `p_nextready`.

The three queues are represented by lists of slots. `ReadyQueues` says that the pointers are
these lists, that every process is on the queue of its priority and that the running process
is at the head of the queue that runs. One lemma per operation says which list it leaves.
Everything the scheduler writes is collected in a `Schedule`, so that a scheduler operation
is the replacement of the schedule and leaves all else alone.
-/

import Minix.Kernel.Proc

namespace Minix.Kernel

open Function (update update_of_ne update_self update_eq_self)
open Option (some.inj bind_eq_some_iff bind_some)
open LinkedList

/-- Number of table entries, the longest walk that a list of entries needs. -/
abbrev tableSize : Nat := Fintype.card Slot

namespace State

def setRdyHead (k : State) (queue : Queue) (head : Option Slot) : State :=
  { k with rdyHead := update k.rdyHead queue head }

def setRdyTail (k : State) (queue : Queue) (tail : Option Slot) : State :=
  { k with rdyTail := update k.rdyTail queue tail }

end State

/-! ### The operations -/

/-- Decide who to run now. -/
def pickProc (k : State) : State :=
  match k.rdyHead .task with
  | some rp => { k with procPtr := rp }
  | none =>
    match k.rdyHead .server with
    | some rp => { k with procPtr := rp }
    | none =>
      match k.rdyHead .user with
      | some rp => { k with procPtr := rp, billPtr := rp }
      | none => { k with procPtr := idle, billPtr := idle }

/-- The part of `ready` for tasks and servers: add `rp` to the tail of its queue. A fresh
task is run next. -/
def readyAtTail (k : State) (queue : Queue) (rp : Slot) : Option State := do
  let linked ← match k.rdyHead queue with
    | some _ => do
      let tail ← k.rdyTail queue
      some (k.setNextready tail (some rp))
    | none =>
      let k := k.setRdyHead queue (some rp)
      some (if queue = .task then { k with procPtr := rp } else k)
  some ((linked.setRdyTail queue (some rp)).setNextready rp none)

/-- The part of `ready` for all others: add `rp` to the front of the user queue. -/
def readyAtFront (k : State) (rp : Slot) : State :=
  let k := if k.rdyHead .user = none then k.setRdyTail .user (some rp) else k
  (k.setNextready rp (k.rdyHead .user)).setRdyHead .user (some rp)

/-- Add `rp` to one of the queues of runnable processes. -/
def ready (k : State) (rp : Slot) : Option State :=
  match queueOf (k.proc rp).pPriority with
  | .user => some (readyAtFront k rp)
  | queue => readyAtTail k queue rp

/-- A process has blocked. The three copies of the body in the source differ in the queue,
and in that removing the head of the task queue picks a process only if that head runs. -/
def unready (k : State) (rp : Slot) : Option State :=
  let queue := queueOf (k.proc rp).pPriority
  match k.rdyHead queue with
  | none => some k
  | some xp =>
    if xp = rp then
      let k' := k.setRdyHead queue (k.nextready xp)
      some (if queue = .task ∧ rp ≠ k.procPtr then k' else pickProc k')
    else
      match scan k.nextready (· == rp) tableSize (some xp) (k.nextready xp) with
      | some (some (some xp, _)) =>
        let k' := k.setNextready xp (k.nextready rp)
        some (if k.rdyTail queue = some rp then k'.setRdyTail queue (some xp) else k')
      | some _ => some k
      | none => none

/-- `if (rp->p_flags == 0) unready(rp)`. -/
def unreadyIfClear (k : State) (rp : Slot) : Option State :=
  if (k.proc rp).pFlags.clear then unready k rp else some k

/-- `if (rp->p_flags == 0) ready(rp)`. -/
def readyIfClear (k : State) (rp : Slot) : Option State :=
  if (k.proc rp).pFlags.clear then ready k rp else some k

/-- The current process has run too long: rotate the user queue. -/
def sched (k : State) : Option State :=
  match k.rdyHead .user with
  | none => some k
  | some head => do
    let tail ← k.rdyTail .user
    let k := k.setNextready tail (some head)
    let k := k.setRdyTail .user (some head)
    let k := k.setRdyHead .user (k.nextready head)
    some (pickProc (k.setNextready head none))

/-! ### The schedule -/

/-- All that the scheduler writes. -/
structure Schedule where
  nextready : Slot → Option Slot
  rdyHead : Queue → Option Slot
  rdyTail : Queue → Option Slot
  procPtr : Slot
  billPtr : Slot

namespace State

/-- The schedule of a kernel state. -/
def schedule (k : State) : Schedule :=
  ⟨k.nextready, k.rdyHead, k.rdyTail, k.procPtr, k.billPtr⟩

/-- Replace the schedule. -/
def withSchedule (k : State) (s : Schedule) : State :=
  { k with
    proc := fun p => { k.proc p with pNextready := s.nextready p }
    rdyHead := s.rdyHead
    rdyTail := s.rdyTail
    procPtr := s.procPtr
    billPtr := s.billPtr }

/-- The priorities, which say on which queue a process belongs. -/
def priority (k : State) (p : Slot) : Priority := (k.proc p).pPriority

section

variable (k : State)

@[simp] theorem schedule_nextready : k.schedule.nextready = k.nextready := rfl

@[simp] theorem schedule_rdyHead : k.schedule.rdyHead = k.rdyHead := rfl

@[simp] theorem schedule_rdyTail : k.schedule.rdyTail = k.rdyTail := rfl

@[simp] theorem schedule_procPtr : k.schedule.procPtr = k.procPtr := rfl

@[simp] theorem withSchedule_schedule : k.withSchedule k.schedule = k := rfl

@[simp] theorem schedule_withSchedule (s : Schedule) :
    (k.withSchedule s).schedule = s := rfl

@[simp] theorem withSchedule_withSchedule (s s' : Schedule) :
    (k.withSchedule s).withSchedule s' = k.withSchedule s' := rfl

theorem setNextready_eq (p : Slot) (next : Option Slot) :
    k.setNextready p next =
      k.withSchedule { k.schedule with nextready := update k.nextready p next } := by
  have entries : (k.setNextready p next).proc =
      fun q => { k.proc q with pNextready := update k.nextready p next q } := by
    funext q
    by_cases same : q = p
    · subst same
      simp [setNextready, modify]
    · simp [setNextready, modify, update_of_ne same, nextready]
  simp only [withSchedule, schedule, ← entries]
  rfl

end

end State

/-- Nothing but the schedule has changed. -/
def State.Rescheduled (k k' : State) : Prop := ∃ s, k' = k.withSchedule s

namespace State.Rescheduled

variable {k k' k'' : State}

theorem refl (k : State) : Rescheduled k k := ⟨k.schedule, rfl⟩

theorem trans (first : Rescheduled k k') (second : Rescheduled k' k'') : Rescheduled k k'' := by
  obtain ⟨s, rfl⟩ := first
  obtain ⟨s', rfl⟩ := second
  exact ⟨s', rfl⟩

section

variable (changed : Rescheduled k k')
include changed

theorem setNextready (p : Slot) (next : Option Slot) :
    Rescheduled k (k'.setNextready p next) :=
  changed.trans ⟨_, setNextready_eq _ _ _⟩

theorem setRdyHead (queue : Queue) (head : Option Slot) :
    Rescheduled k (k'.setRdyHead queue head) :=
  changed.trans ⟨{ k'.schedule with rdyHead := update k'.rdyHead queue head }, rfl⟩

theorem setRdyTail (queue : Queue) (tail : Option Slot) :
    Rescheduled k (k'.setRdyTail queue tail) :=
  changed.trans ⟨{ k'.schedule with rdyTail := update k'.rdyTail queue tail }, rfl⟩

theorem setProcPtr (p : Slot) :
    Rescheduled k { k' with procPtr := p } :=
  changed.trans ⟨{ k'.schedule with procPtr := p }, rfl⟩

end

end State.Rescheduled

/-! ### Queues as lists -/

/-- The running process is the head of the task queue while there is a ready task; otherwise
it is the head of one of the other queues, or `IDLE`. -/
def Running (procPtr : Slot) (queues : Queue → List Slot) : Prop :=
  (queues .task).head? = some procPtr ∨
    queues .task = [] ∧ (procPtr = idle ∨ ∃ queue, (queues queue).head? = some procPtr)

/-- The pointers of the schedule are the given queues. -/
structure ReadyQueues (s : Schedule) (priority : Slot → Priority) (queues : Queue → List Slot) :
    Prop where
  chain : ∀ queue, Chain s.nextready (s.rdyHead queue) (queues queue)
  tail : ∀ queue, queues queue ≠ [] → s.rdyTail queue = (queues queue).getLast?
  sorted : ∀ queue p, p ∈ queues queue → queueOf (priority p) = queue
  running : Running s.procPtr queues

theorem Running.congr {procPtr : Slot} {queues queues' : Queue → List Slot}
    (running : Running procPtr queues)
    (heads : ∀ queue, (queues' queue).head? = (queues queue).head?) : Running procPtr queues' := by
  simp only [Running, ← List.head?_eq_none_iff, heads] at running ⊢
  exact running

section Represented

variable {s : Schedule} {priority : Slot → Priority} {queues : Queue → List Slot}
  {queue other : Queue} {p : Slot}

theorem ReadyQueues.notMem_of_ne (represented : ReadyQueues s priority queues)
    (member : p ∈ queues queue) (apart : other ≠ queue) : p ∉ queues other := fun again =>
  apart ((represented.sorted _ _ again).symm.trans (represented.sorted _ _ member))

theorem ReadyQueues.sorted_update (represented : ReadyQueues s priority queues)
    {nodes : List Slot} (nodesSorted : ∀ r ∈ nodes, queueOf (priority r) = queue)
    (other : Queue) (r : Slot) (member : r ∈ update queues queue nodes other) :
    queueOf (priority r) = other := by
  by_cases same : other = queue
  · subst same
    rw [update_self] at member
    exact nodesSorted r member
  · rw [update_of_ne same] at member
    exact represented.sorted _ _ member

end Represented

/-- A process is at the head of the highest-priority non-empty queue, or it is `IDLE` and all
queues are empty. -/
def HighestHead (p : Slot) (queues : Queue → List Slot) : Prop :=
  ((queues .task).head? = some p) ∨
  (queues .task = [] ∧ (queues .server).head? = some p) ∨
  (queues .task = [] ∧ queues .server = [] ∧ (queues .user).head? = some p) ∨
  (queues .task = [] ∧ queues .server = [] ∧ queues .user = [] ∧ p = idle)

variable {queues : Queue → List Slot}

theorem HighestHead.running {p : Slot} (highest : HighestHead p queues) : Running p queues := by
  rcases highest with taskHead | ⟨noTask, serverHead⟩ | ⟨noTask, -, userHead⟩ |
    ⟨noTask, -, -, rfl⟩
  · exact .inl taskHead
  · exact .inr ⟨noTask, .inr ⟨.server, serverHead⟩⟩
  · exact .inr ⟨noTask, .inr ⟨.user, userHead⟩⟩
  · exact .inr ⟨noTask, .inl rfl⟩

theorem pickProc_eq (k : State) :
    pickProc k = { k with procPtr := (pickProc k).procPtr, billPtr := (pickProc k).billPtr } := by
  unfold pickProc
  split
  · rfl
  · split
    · rfl
    · split <;> rfl

theorem State.Rescheduled.pickProc {k k' : State} (changed : Rescheduled k k') :
    Rescheduled k (Kernel.pickProc k') := by
  rw [pickProc_eq]
  exact changed.trans ⟨{ k'.schedule with
    procPtr := (Kernel.pickProc k').procPtr, billPtr := (Kernel.pickProc k').billPtr }, rfl⟩

section Frames

variable {k k' : State} {p : Slot}

theorem readyAtTail_rescheduled {queue : Queue} (completed : readyAtTail k queue p = some k') :
    k.Rescheduled k' := by
  unfold readyAtTail at completed
  split at completed
  · obtain ⟨tail, -, completed⟩ := bind_eq_some_iff.mp completed
    obtain rfl := some.inj completed
    exact (((State.Rescheduled.refl k).setNextready _ _).setRdyTail _ _).setNextready _ _
  · obtain rfl := some.inj completed
    refine (State.Rescheduled.setRdyTail ?_ _ _).setNextready _ _
    split
    · exact ((State.Rescheduled.refl k).setRdyHead _ _).setProcPtr _
    · exact (State.Rescheduled.refl k).setRdyHead _ _

theorem ready_rescheduled (completed : ready k p = some k') : k.Rescheduled k' := by
  unfold ready at completed
  split at completed
  · obtain rfl := some.inj completed
    refine (State.Rescheduled.setNextready ?_ _ _).setRdyHead _ _
    split
    · exact (State.Rescheduled.refl k).setRdyTail _ _
    · exact .refl k
  · exact readyAtTail_rescheduled completed

theorem unready_rescheduled (completed : unready k p = some k') : k.Rescheduled k' := by
  unfold unready at completed
  dsimp only at completed
  split at completed
  · obtain rfl := some.inj completed
    exact .refl k
  split at completed
  · obtain rfl := some.inj completed
    have removed := (State.Rescheduled.refl k).setRdyHead (queueOf (k.proc p).pPriority)
    split
    · exact removed _
    · exact (removed _).pickProc
  split at completed
  · obtain rfl := some.inj completed
    split
    · exact ((State.Rescheduled.refl k).setNextready _ _).setRdyTail _ _
    · exact (State.Rescheduled.refl k).setNextready _ _
  · obtain rfl := some.inj completed
    exact .refl k
  · cases completed

theorem readyIfClear_rescheduled (completed : readyIfClear k p = some k') : k.Rescheduled k' := by
  unfold readyIfClear at completed
  split at completed
  · exact ready_rescheduled completed
  · obtain rfl := some.inj completed
    exact .refl k

theorem unreadyIfClear_rescheduled (completed : unreadyIfClear k p = some k') :
    k.Rescheduled k' := by
  unfold unreadyIfClear at completed
  split at completed
  · exact unready_rescheduled completed
  · obtain rfl := some.inj completed
    exact .refl k

theorem sched_rescheduled (completed : sched k = some k') : k.Rescheduled k' := by
  unfold sched at completed
  split at completed
  · obtain rfl := some.inj completed
    exact .refl k
  · obtain ⟨tail, -, completed⟩ := bind_eq_some_iff.mp completed
    obtain rfl := some.inj completed
    exact (((((State.Rescheduled.refl k).setNextready _ _).setRdyTail _ _).setRdyHead
      _ _).setNextready _ _).pickProc

end Frames

theorem pickProc_highestHead {k : State}
    (chains : ∀ queue, Chain k.nextready (k.rdyHead queue) (queues queue)) :
    HighestHead (pickProc k).procPtr queues := by
  have heads : ∀ queue, k.rdyHead queue = (queues queue).head? := fun queue =>
    (chains queue).head_eq
  have empty : ∀ queue, k.rdyHead queue = none → queues queue = [] := fun queue none => by
    rw [heads queue] at none
    exact List.head?_eq_none_iff.mp none
  unfold pickProc
  split
  case h_1 rp taskHead => exact .inl ((heads .task).symm.trans taskHead)
  case h_2 noTask =>
    split
    case h_1 rp serverHead =>
      exact .inr (.inl ⟨empty _ noTask, (heads .server).symm.trans serverHead⟩)
    case h_2 noServer =>
      split
      case h_1 rp userHead =>
        exact .inr (.inr (.inl ⟨empty _ noTask, empty _ noServer,
          (heads .user).symm.trans userHead⟩))
      case h_2 noUser =>
        exact .inr (.inr (.inr ⟨empty _ noTask, empty _ noServer, empty _ noUser, rfl⟩))

/-! ### What the operations do to the queues -/

/-- Where `ready` puts a process: in front of the user queue, at the end of the others. -/
def enqueue (queue : Queue) (p : Slot) (nodes : List Slot) : List Slot :=
  if queue = .user then p :: nodes else nodes ++ [p]

@[simp] theorem mem_enqueue {queue : Queue} {p other : Slot} {nodes : List Slot} :
    other ∈ enqueue queue p nodes ↔ other = p ∨ other ∈ nodes := by
  unfold enqueue
  split <;> simp [or_comm]

section Operations

variable {k : State} {p : Slot} {queues : Queue → List Slot} {queue : Queue}

section

variable (represented : ReadyQueues k.schedule k.priority queues)
include represented

section

variable (fresh : ∀ queue, p ∉ queues queue)
include fresh

/-- A task or a server is added at the end of its queue. -/
theorem readyAtTail_spec (notUser : queue ≠ .user) (sorted : queueOf (k.priority p) = queue) :
    ∃ s, readyAtTail k queue p = some (k.withSchedule s) ∧
      ReadyQueues s k.priority (update queues queue (queues queue ++ [p])) := by
  have nodesSorted : ∀ r ∈ queues queue ++ [p], queueOf (k.priority r) = queue := by
    intro r member
    rw [List.mem_append, List.mem_singleton] at member
    rcases member with member | same
    · exact represented.sorted _ _ member
    · rw [same, sorted]
  have sortedAfter := represented.sorted_update nodesSorted
  have head := (represented.chain queue).head_eq
  rcases List.eq_nil_or_concat (queues queue) with empty | ⟨front, last, split⟩
  · -- An empty queue: `rp` becomes its head, and a task becomes the running process.
    rw [empty] at head
    refine ⟨{ k.schedule with
        nextready := update k.nextready p none
        rdyHead := update k.rdyHead queue (some p)
        rdyTail := update k.rdyTail queue (some p)
        procPtr := if queue = .task then p else k.procPtr }, ?_, ?_, ?_, sortedAfter, ?_⟩
    · have none : k.rdyHead queue = none := head
      simp only [readyAtTail, none, Option.bind_eq_bind, bind_some, State.setNextready_eq]
      split <;> rfl
    · intro other
      by_cases same : other = queue
      · subst same
        simp only [update_self, empty, List.nil_append]
        exact chain_singleton _ _
      · simp only [update_of_ne same]
        exact (represented.chain other).update_of_notMem (fresh other) _
    · intro other nonempty
      by_cases same : other = queue
      · subst same
        simp [empty]
      · simp only [update_of_ne same] at nonempty ⊢
        exact represented.tail other nonempty
    · rcases represented.running with taskHead | ⟨noTask, runs⟩
      · have apart : Queue.task ≠ queue := by
          rintro rfl
          simp [empty] at taskHead
        refine .inl ?_
        rw [update_of_ne apart, if_neg (Ne.symm apart)]
        exact taskHead
      · by_cases task : queue = .task
        · subst task
          exact .inl (by simp [empty])
        · refine .inr ⟨by rwa [update_of_ne (Ne.symm task)], ?_⟩
          rw [if_neg task]
          refine runs.imp_right fun ⟨other, otherHead⟩ => ⟨other, ?_⟩
          have apart : other ≠ queue := by
            rintro rfl
            simp [empty] at otherHead
          rwa [update_of_ne apart]
  · -- A non-empty queue: `rp` is linked behind its tail.
    have tail : k.rdyTail queue = some last := by
      have := represented.tail queue (by simp [split])
      simpa [split] using this
    rw [List.concat_eq_append] at split
    refine ⟨{ k.schedule with
        nextready := update (update k.nextready last (some p)) p none
        rdyTail := update k.rdyTail queue (some p) }, ?_, ?_, ?_, sortedAfter, ?_⟩
    · have some_ : ∃ first, k.rdyHead queue = some first := by
        cases front <;> simp_all [State.schedule]
      obtain ⟨first, headIs⟩ := some_
      simp only [readyAtTail, headIs, tail, Option.bind_eq_bind, bind_some,
        State.setNextready_eq]
      rfl
    · intro other
      by_cases same : other = queue
      · subst same
        have chain := represented.chain other
        have new := fresh other
        rw [split] at chain new
        simpa [split] using chain.append new
      · simp only [update_of_ne same]
        have apart : last ∉ queues other := represented.notMem_of_ne (by simp [split]) same
        exact ((represented.chain other).update_of_notMem apart _).update_of_notMem
          (fresh other) _
    · intro other nonempty
      by_cases same : other = queue
      · subst same
        simp
      · simp only [update_of_ne same] at nonempty ⊢
        exact represented.tail other nonempty
    · refine represented.running.congr fun other => ?_
      by_cases same : other = queue
      · subst same
        rw [update_self, split]
        cases front <;> simp
      · rw [update_of_ne same]

theorem readyAtFront_spec (sorted : queueOf (k.priority p) = .user)
    (notRunning : (queues .user).head? ≠ some k.procPtr) :
    ∃ s, readyAtFront k p = k.withSchedule s ∧
      ReadyQueues s k.priority (update queues .user (p :: queues .user)) := by
  have head := (represented.chain .user).head_eq
  refine ⟨{ k.schedule with
      nextready := update k.nextready p (k.rdyHead .user)
      rdyHead := update k.rdyHead .user (some p)
      rdyTail := if k.rdyHead .user = none then update k.rdyTail .user (some p)
        else k.rdyTail }, ?_, ?_, ?_, ?_, ?_⟩
  · simp only [readyAtFront, State.setNextready_eq]
    split <;> rfl
  · intro other
    by_cases same : other = .user
    · subst same
      simp only [update_self]
      exact (represented.chain .user).push (fresh _)
    · simp only [update_of_ne same]
      exact (represented.chain other).update_of_notMem (fresh other) _
  · intro other nonempty
    by_cases same : other = .user
    · subst same
      cases rest : queues .user with
      | nil =>
        rw [rest] at head
        have none : k.rdyHead .user = none := head
        simp [none]
      | cons first others =>
        rw [rest] at head
        have first_ : k.rdyHead .user ≠ none := by
          have some_ : k.rdyHead .user = some first := head
          simp [some_]
        rw [if_neg first_, update_self, List.getLast?_cons_cons, ← rest]
        exact represented.tail .user (by simp [rest])
    · simp only [update_of_ne same] at nonempty ⊢
      split
      · rw [update_of_ne same]
        exact represented.tail other nonempty
      · exact represented.tail other nonempty
  · refine represented.sorted_update fun r member => ?_
    rcases List.mem_cons.mp member with rfl | member
    · exact sorted
    · exact represented.sorted _ _ member
  · have task : Queue.task ≠ .user := by decide
    rcases represented.running with taskHead | ⟨noTask, runs⟩
    · exact .inl (by rwa [update_of_ne task])
    · refine .inr ⟨by rwa [update_of_ne task], runs.imp_right ?_⟩
      rintro ⟨other, otherHead⟩
      have apart : other ≠ .user := fun same => notRunning (same ▸ otherHead)
      exact ⟨other, by rwa [update_of_ne apart]⟩

/-- `ready` enters a process that is on no queue in the queue of its priority. A user process
must not be put in front of a running one. -/
theorem ready_spec
    (notRunning : queueOf (k.priority p) = .user → (queues .user).head? ≠ some k.procPtr) :
    ∃ s, ready k p = some (k.withSchedule s) ∧
      ReadyQueues s k.priority (update queues (queueOf (k.priority p))
        (enqueue (queueOf (k.priority p)) p (queues (queueOf (k.priority p))))) := by
  unfold ready
  cases sorted : queueOf (k.priority p) with
  | user =>
    obtain ⟨s, result, after⟩ := readyAtFront_spec represented fresh sorted (notRunning sorted)
    refine ⟨s, ?_, by simpa [enqueue] using after⟩
    simp only [State.priority] at sorted
    simp [sorted, result]
  | task =>
    obtain ⟨s, result, after⟩ := readyAtTail_spec represented fresh (by decide) sorted
    refine ⟨s, ?_, by simpa [enqueue] using after⟩
    simp only [State.priority] at sorted
    simp [sorted, result]
  | server =>
    obtain ⟨s, result, after⟩ := readyAtTail_spec represented fresh (by decide) sorted
    refine ⟨s, ?_, by simpa [enqueue] using after⟩
    simp only [State.priority] at sorted
    simp [sorted, result]

end

theorem unready_head {rest : List Slot} (sorted : queueOf (k.priority p) = queue)
    (shape : queues queue = p :: rest) :
    ∃ s, unready k p = some (k.withSchedule s) ∧
      ReadyQueues s k.priority (update queues queue rest) := by
  have sorted' : queueOf (k.proc p).pPriority = queue := sorted
  have chain := represented.chain queue
  rw [shape] at chain
  obtain ⟨headIs, behind⟩ := chain
  have headIs' : k.rdyHead queue = some p := headIs
  -- A task at the head of its queue is the running process, so someone is picked always.
  have picks : ¬ (queue = .task ∧ p ≠ k.procPtr) := by
    rintro ⟨rfl, notRunning⟩
    rcases represented.running with taskHead | ⟨noTask, -⟩
    · exact notRunning (by simpa [shape] using taskHead)
    · simp [shape] at noTask
  have chains : ∀ other, Chain k.nextready
      ((k.setRdyHead queue (k.nextready p)).rdyHead other)
      (update queues queue rest other) := by
    intro other
    by_cases same : other = queue
    · subst same
      simpa [State.setRdyHead] using behind
    · simpa [State.setRdyHead, update_of_ne same] using represented.chain other
  refine ⟨⟨k.nextready, update k.rdyHead queue (k.nextready p), k.rdyTail,
      (pickProc (k.setRdyHead queue (k.nextready p))).procPtr,
      (pickProc (k.setRdyHead queue (k.nextready p))).billPtr⟩, ?_, chains, ?_, ?_,
    (pickProc_highestHead chains).running⟩
  · simp only [unready, sorted', headIs', if_true, if_neg picks]
    rw [pickProc_eq]
    rfl
  · intro other nonempty
    by_cases same : other = queue
    · subst same
      rw [update_self] at nonempty ⊢
      have tail := represented.tail other (by simp [shape])
      rwa [shape, List.getLast?_cons_of_ne_nil nonempty] at tail
    · rw [update_of_ne same] at nonempty ⊢
      exact represented.tail other nonempty
  · refine represented.sorted_update fun r member => ?_
    exact represented.sorted queue r (by simp [shape, member])

/-- Unlinking a process from inside its queue. -/
theorem unready_body {ahead back : List Slot} {xp : Slot} (sorted : queueOf (k.priority p) = queue)
    (shape : queues queue = ahead ++ xp :: p :: back) :
    ReadyQueues
      { k.schedule with
        nextready := update k.nextready xp (k.nextready p)
        rdyTail := if k.rdyTail queue = some p then
          update k.rdyTail queue (some xp) else k.rdyTail }
      k.priority (update queues queue (ahead ++ xp :: back)) := by
  have chain := represented.chain queue
  have tail := represented.tail queue (by simp [shape])
  have nodup := chain.nodup
  rw [shape] at chain tail nodup
  refine ⟨?_, ?_, ?_, ?_⟩
  · intro other
    by_cases same : other = queue
    · subst same
      simpa using chain.unlink
    · rw [update_of_ne same]
      exact (represented.chain other).update_of_notMem
        (represented.notMem_of_ne (by simp [shape]) same) _
  · intro other nonempty
    by_cases same : other = queue
    · subst same
      rw [update_self]
      rcases List.eq_nil_or_concat back with rfl | ⟨others, last, rfl⟩
      · have isTail : k.rdyTail other = some p := by simpa using tail
        simp [isTail]
      · have apart : last ≠ p := by
          rintro rfl
          simp [List.nodup_append] at nodup
        have isLast : k.rdyTail other = some last := by
          simpa [List.getLast?_cons] using tail
        have notTail : k.rdyTail other ≠ some p := by simpa [isLast] using apart
        rw [if_neg notTail]
        refine isLast.trans ?_
        simp [List.getLast?_cons]
    · rw [update_of_ne same] at nonempty ⊢
      have kept := represented.tail other nonempty
      by_cases isTail : k.rdyTail queue = some p
      · simpa [isTail, update_of_ne same] using kept
      · simpa [isTail] using kept
  · refine represented.sorted_update fun r member => ?_
    refine represented.sorted queue r ?_
    rw [shape]
    simp at member ⊢
    tauto
  · refine represented.running.congr fun other => ?_
    by_cases same : other = queue
    · subst same
      rw [update_self, shape]
      cases ahead <;> simp
    · rw [update_of_ne same]

end

theorem ready_procPtr {k' : State} (result : ready k p = some k') :
    k'.procPtr = k.procPtr ∨ k'.procPtr = p ∧ queueOf (k.priority p) = .task := by
  have tailCase : ∀ queue, readyAtTail k queue p = some k' →
      k'.procPtr = k.procPtr ∨ k'.procPtr = p ∧ queue = .task := by
    intro queue result
    unfold readyAtTail at result
    cases head : k.rdyHead queue with
    | none =>
      simp only [head, Option.bind_eq_bind, bind_some, Option.some.injEq] at result
      subst result
      by_cases task : queue = .task
      · exact .inr ⟨by simp only [task, if_true]; rfl, task⟩
      · exact .inl (by simp only [if_neg task]; rfl)
    | some first =>
      simp only [head, Option.bind_eq_bind, bind_eq_some_iff, Option.some.injEq] at result
      obtain ⟨tail, -, linked, rfl, rfl⟩ := result
      exact .inl rfl
  simp only [ready] at result
  simp only [State.priority]
  cases sorted : queueOf (k.proc p).pPriority with
  | user =>
    simp only [sorted, Option.some.injEq] at result
    subst result
    refine .inl ?_
    simp only [readyAtFront]
    split <;> rfl
  | task =>
    simp only [sorted] at result
    exact (tailCase _ result).imp_right fun both => ⟨both.1, rfl⟩
  | server =>
    simp only [sorted] at result
    exact (tailCase _ result).imp_right fun both => absurd both.2 (by decide)

/-- `unready` takes a process off the queue of its priority, whether or not it is on it. -/
theorem unready_spec (represented : ReadyQueues k.schedule k.priority queues) (p : Slot) :
    ∃ s, unready k p = some (k.withSchedule s) ∧
      ReadyQueues s k.priority (update queues (queueOf (k.priority p))
        ((queues (queueOf (k.priority p))).erase p)) := by
  obtain ⟨queue, sorted⟩ : ∃ queue, queueOf (k.priority p) = queue := ⟨_, rfl⟩
  have sorted' : queueOf (k.proc p).pPriority = queue := sorted
  have chain := represented.chain queue
  have nodup := chain.nodup
  rw [sorted]
  cases shape : queues queue with
  | nil =>
    rw [shape] at chain
    have none : k.rdyHead queue = none := chain
    refine ⟨k.schedule, ?_, ?_⟩
    · simp only [unready, sorted', none, State.withSchedule_schedule]
    · rw [List.erase_nil, ← shape, update_eq_self]
      exact represented
  | cons first rest =>
    rw [shape] at chain nodup
    obtain ⟨headIs, behind⟩ := chain
    have headIs' : k.rdyHead queue = some first := headIs
    by_cases same : first = p
    · subst same
      rw [List.erase_cons_head]
      exact unready_head represented sorted shape
    · -- Search the body of the queue.
      have short : rest.length ≤ tableSize := by
        have bound : (first :: rest).length ≤ tableSize :=
          (show Chain k.nextready (some first) (first :: rest) from ⟨rfl, behind⟩).length_le
        exact (Nat.le_succ _).trans bound
      have walk : scan k.nextready (· == p) tableSize (some first) (k.nextready first) =
          some (locate (· == p) (some first) rest) := behind.scan_eq _ short _
      simp only [unready, sorted', headIs', if_neg same, walk]
      cases hit : locate (· == p) (some first) rest with
      | none =>
        have absent : p ∉ first :: rest := by
          rw [locate_eq_none] at hit
          rw [List.mem_cons, not_or]
          exact ⟨fun eq => same eq.symm, fun member => by simpa using hit p member⟩
        refine ⟨k.schedule, rfl, ?_⟩
        rw [List.erase_of_not_mem absent, ← shape, update_eq_self]
        exact represented
      | some found =>
        obtain ⟨before, node⟩ := found
        obtain ⟨ahead, xp, back, split, rfl, isP⟩ := locate_behind hit
        obtain rfl : node = p := by simpa using isP
        rw [split] at nodup shape ⊢
        rw [List.append_cons] at nodup
        rw [List.append_cons, erase_middle nodup, ← List.append_cons]
        refine ⟨_, ?_, unready_body represented sorted shape⟩
        simp only [State.setNextready_eq]
        split <;> rfl

/-- Linking the tail of a queue to its head and advancing the head moves the first process to
the end. -/
theorem rotate_chain {next : Slot → Option Slot} {head tail : Slot} {rest : List Slot}
    (chain : Chain next (some head) (head :: rest)) (last : (head :: rest).getLast? = some tail) :
    Chain (update (update next tail (some head)) head none)
      (update next tail (some head) head) (rest ++ [head]) := by
  have nodup := chain.nodup
  rcases List.eq_nil_or_concat rest with rfl | ⟨front, other, rfl⟩
  · obtain rfl : head = tail := by simpa using last
    simp
  · rw [List.concat_eq_append] at chain nodup last ⊢
    obtain rfl : other = tail := by simpa [List.getLast?_cons] using last
    have apart : head ≠ other := by
      rintro rfl
      simp at nodup
    rw [update_of_ne apart]
    exact chain.2.append (List.nodup_cons.mp nodup).1

/-- `sched` moves the first user process to the end of the user queue and picks a process. -/
theorem sched_spec (represented : ReadyQueues k.schedule k.priority queues) :
    ∃ s, sched k = some (k.withSchedule s) ∧
      ReadyQueues s k.priority
        (update queues .user ((queues .user).drop 1 ++ (queues .user).take 1)) := by
  have chain := represented.chain .user
  cases shape : queues .user with
  | nil =>
    rw [shape] at chain
    have none : k.rdyHead .user = none := chain
    refine ⟨k.schedule, by simp [sched, none], ?_⟩
    rw [List.drop_nil, List.take_nil, List.append_nil, ← shape, update_eq_self]
    exact represented
  | cons head rest =>
    have last := represented.tail .user (by simp [shape])
    rw [shape] at chain last
    obtain ⟨tail, tailIs⟩ : ∃ tail, (head :: rest).getLast? = some tail :=
      ⟨_, List.getLast?_eq_some_getLast (by simp)⟩
    have headIs : k.rdyHead .user = some head := chain.1
    have tailIs' : k.rdyTail .user = some tail := last.trans tailIs
    have tailMem : tail ∈ queues .user := shape ▸ List.mem_of_getLast? tailIs
    have rotated := rotate_chain ⟨rfl, chain.2⟩ tailIs
    let links := update k.nextready tail (some head)
    let k' := k.withSchedule ⟨update links head none,
      update k.rdyHead .user (links head), update k.rdyTail .user (some head),
      k.procPtr, k.billPtr⟩
    have result : sched k = some (pickProc k') := by
      simp only [sched, headIs, tailIs', Option.bind_eq_bind, bind_some,
        State.setNextready_eq]
      rfl
    have chains : ∀ queue, Chain k'.nextready (k'.rdyHead queue)
        (update queues .user (rest ++ [head]) queue) := by
      intro queue
      by_cases same : queue = .user
      · subst same
        simp only [update_self, k', State.withSchedule]
        exact rotated
      · simp only [update_of_ne same, k', State.withSchedule]
        refine Chain.update_of_notMem (Chain.update_of_notMem (represented.chain queue) ?_ _) ?_ _
        · exact represented.notMem_of_ne tailMem same
        · exact represented.notMem_of_ne (by simp [shape]) same
    rw [List.drop_one, List.tail_cons, List.take_succ_cons, List.take_zero]
    refine ⟨⟨k'.nextready, k'.rdyHead, k'.rdyTail, (pickProc k').procPtr, (pickProc k').billPtr⟩,
      ?_, chains, ?_, ?_, (pickProc_highestHead chains).running⟩
    · rw [result, pickProc_eq]
      rfl
    · intro queue nonempty
      by_cases same : queue = .user
      · subst same
        simp [k', State.withSchedule]
      · simp only [update_of_ne same, k', State.withSchedule] at nonempty ⊢
        exact represented.tail queue nonempty
    · refine represented.sorted_update fun r member => ?_
      refine represented.sorted .user r ?_
      rw [shape]
      simpa [or_comm] using member

theorem pickProc_spec (represented : ReadyQueues k.schedule k.priority queues) :
    ∃ s, pickProc k = k.withSchedule s ∧ ReadyQueues s k.priority queues := by
  refine ⟨⟨k.nextready, k.rdyHead, k.rdyTail, (pickProc k).procPtr, (pickProc k).billPtr⟩, ?_,
    represented.chain, represented.tail, represented.sorted,
    (pickProc_highestHead represented.chain).running⟩
  rw [pickProc_eq]
  rfl

end Operations

end Minix.Kernel
