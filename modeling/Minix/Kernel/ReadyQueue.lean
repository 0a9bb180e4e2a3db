/-
This file states what the ready queues are for: in every state that a run of the kernel
reaches, they hold each process that may run exactly once, on the queue of its priority, and
no process that is blocked.

An entry of `proc[]` that no process uses has `p_flags` zero as well. It is on no queue, so
the statement is about the entries in use.
-/

import Minix.Kernel.Machine

namespace Minix.Kernel

open LinkedList
open Function (update update_eq_self update_idem update_self)

theorem ReadyQueues.count {s : Schedule} {priority : Slot → Priority}
    {queues : Queue → List Slot} (represented : ReadyQueues s priority queues) {p : Slot}
    {queue : Queue} (member : p ∈ queues queue) (other : Queue) :
    (queues other).count p = if other = queueOf (priority p) then 1 else 0 := by
  have sorted := represented.sorted _ _ member
  by_cases same : other = queue
  · subst same
    rw [if_pos sorted.symm]
    exact List.count_eq_one_of_mem (represented.chain other).nodup member
  · rw [if_neg (by rwa [sorted])]
    exact List.count_eq_zero_of_not_mem (represented.notMem_of_ne member same)

/-- The ready queues mirror the flags: a slot in use without flags is on the queue of its priority,
once, one with flags is on none, and a free slot has no flags and is on none. -/
structure MirrorFlags (k : State) (queues : Queue → List Slot) : Prop where
  chain : ∀ queue, Chain k.nextready (k.rdyHead queue) (queues queue)
  tail : ∀ queue, queues queue ≠ [] → k.rdyTail queue = (queues queue).getLast?
  ready : ∀ p, k.isemptyp p = false → p ≠ idle → p ≠ hardware → (k.proc p).pFlags.clear = true →
    ∀ queue, (queues queue).count p = if queue = queueOf (k.priority p) then 1 else 0
  busy : ∀ p, (k.proc p).pFlags.clear = false → ∀ queue, p ∉ queues queue
  free : ∀ p, k.isemptyp p = true → (k.proc p).pFlags = {} ∧ ∀ queue, p ∉ queues queue
  picked : HighestHead (pickProc k).procPtr queues

/-- In every state that is reached the queues are what the flags of the processes say. -/
theorem ready_queues_mirror_flags {maps : Slot → MemMap} {sysMessage : UInt32}
    {calls : List Call} {k : State} (reached : Reaches Contract maps sysMessage calls k) :
    ∃ queues, MirrorFlags k queues := by
  have inv := reached.invariant
  obtain ⟨queues, represented, members⟩ := inv.scheduled
  refine ⟨queues, represented.chain, represented.tail, fun p used notIdle notHardware clear => ?_,
    fun p busy queue member => ?_, fun p free => ?_, pickProc_highestHead represented.chain⟩
  · have live : k.priority p ≠ .none := by simpa [State.isemptyp, State.priority] using used
    obtain ⟨queue, member⟩ := (members p).mpr ⟨clear, live, notIdle, notHardware⟩
    exact represented.count member
  · have runs := (members p).mp ⟨queue, member⟩
    rw [runs.1] at busy
    cases busy
  · have unused := (k.isemptyp_iff p).mp free
    exact ⟨(inv.entries p).empty unused,
      fun queue member => ((members p).mp ⟨queue, member⟩).2.1 unused⟩

/-- After the first task has blocked to receive. -/
theorem ready_queues_mirror_flags_receive :
    ∃ k, Reaches Contract (fun _ => {}) 0 [.sysCall .receive any 0] k ∧
      ∃ queues, MirrorFlags k queues := by
  have executed : ((main (fun _ => {}) 0).bind
      (Transition.execute step Contract [.sysCall .receive any 0])).isSome = true := by
    decide
  obtain ⟨k, executed⟩ := Option.isSome_iff_exists.mp executed
  have reached := Reaches.of_execute executed
  exact ⟨k, reached, ready_queues_mirror_flags reached⟩

/-- A free slot has no flags, and is on no queue. -/
theorem free_slots_not_queued :
    ¬ ∀ (maps : Slot → MemMap) (sysMessage : UInt32) (calls : List Call) (k : State),
      Reaches Contract maps sysMessage calls k → ∃ queues : Queue → List Slot,
        (∀ queue, Chain k.nextready (k.rdyHead queue) (queues queue)) ∧
        ∀ p, p ≠ idle → p ≠ hardware → (k.proc p).pFlags.clear = true →
          (queues (queueOf (k.priority p))).count p = 1 := by
  intro claimed
  let free : Slot := ⟨41, by decide⟩
  obtain ⟨k, started, inv, -⟩ := main_invariant .system (fun _ => {}) 0
  have entry : (main (fun _ => {}) 0).map (fun k => (k.priority free, (k.proc free).pFlags)) =
      some (.none, {}) := by decide
  rw [started, Option.map_some, Option.some.injEq, Prod.mk.injEq] at entry
  obtain ⟨queues, chains, once⟩ := claimed _ _ [] k ⟨k, started, .nil⟩
  obtain ⟨queues', represented, members⟩ := inv.scheduled
  have member : free ∈ queues (queueOf (k.priority free)) :=
    List.one_le_count_iff.mp (once free (by decide) (by decide) (by rw [entry.2]; rfl)).ge
  rw [(chains _).unique (represented.chain _)] at member
  exact ((members free).mp ⟨_, member⟩).2.1 entry.1

/-! ### Time slices -/

section Slices

variable {k : State} {queues : Queue → List Slot} {s : Schedule}

/-- `sched` runs the head of the highest queue, unless it finds no user process. -/
theorem sched_highestHead (completed : sched k = some (k.withSchedule s))
    (user : k.rdyHead .user ≠ none) (after : ReadyQueues s k.priority queues) :
    HighestHead s.procPtr queues := by
  unfold sched at completed
  split at completed
  case h_1 none => exact absurd none user
  case h_2 head _ =>
    obtain ⟨tail, -, picked⟩ := Option.bind_eq_some_iff.mp completed
    dsimp only at picked
    generalize ((k.setNextready tail (some head)).setRdyTail .user (some head)) = linked at picked
    generalize ((linked.setRdyHead .user _).setNextready head none) = rotated at picked
    have same := congrArg State.schedule (Option.some.inj picked)
    rw [State.schedule_withSchedule, pickProc_eq] at same
    obtain rfl := same
    exact pickProc_highestHead (k := rotated) after.chain

/-- A time slice puts the first user process last. When no task and no server is ready, the next
one runs. -/
theorem slice (represented : ReadyQueues k.schedule k.priority queues) :
    ∃ s, sched k = some (k.withSchedule s) ∧
      ReadyQueues s k.priority (update queues .user ((queues .user).rotate 1)) ∧
      (queues .task = [] → queues .server = [] →
        s.procPtr = ((queues .user).rotate 1).head?.getD idle) := by
  obtain ⟨s, completed, after⟩ := sched_spec represented
  have turned : (queues .user).drop 1 ++ (queues .user).take 1 = (queues .user).rotate 1 := by
    cases queues .user <;> simp
  rw [turned] at after
  refine ⟨s, completed, after, fun noTask noServer => ?_⟩
  cases shape : queues .user with
  | nil =>
    -- no process is ready, and `sched` does not pick one
    rw [shape, List.rotate_nil] at after
    rcases after.running with task | ⟨-, isIdle | ⟨queue, head⟩⟩
    · simp [noTask] at task
    · exact isIdle
    · cases queue <;> simp [noTask, noServer] at head
  | cons first rest =>
    have head : k.rdyHead .user = some first := by
      have chain := (represented.chain .user).head_eq
      rwa [shape] at chain
    rw [← shape]
    rcases sched_highestHead completed (by rw [head]; exact Option.some_ne_none _) after with
      task | ⟨-, server⟩ | ⟨-, -, user⟩ | ⟨-, -, none, -⟩
    · simp [noTask] at task
    · simp [noServer] at server
    · rw [update_self] at user
      rw [user, Option.getD_some]
    · rw [update_self, List.rotate_eq_nil_iff, shape] at none
      cases none

end Slices

/-- In every state that a run reaches, the user processes take turns: time slices one after the other
rotate the user queue, each of them completes, and while no task and no server is ready the process
that runs in a slice is the next one of the queue, so that each has one turn in as many slices as
there are processes. -/
theorem round_robin {maps : Slot → MemMap} {sysMessage : UInt32} {calls : List Call} {k : State}
    (reached : Reaches Contract maps sysMessage calls k) :
    ∃ queues, ReadyQueues k.schedule k.priority queues ∧ (queues .user).Nodup ∧ ∀ slices, ∃ s,
      Reaches Contract maps sysMessage (calls ++ List.replicate slices .sched) (k.withSchedule s) ∧
      ReadyQueues s k.priority (update queues .user ((queues .user).rotate slices)) ∧
      (0 < slices → queues .task = [] → queues .server = [] →
        s.procPtr = (queues .user)[slices % (queues .user).length]?.getD idle) := by
  obtain ⟨queues, represented, -⟩ := reached.invariant.scheduled
  refine ⟨queues, represented, (represented.chain .user).nodup, fun slices => ?_⟩
  induction slices with
  | zero =>
    refine ⟨k.schedule, ?_, ?_, fun none => absurd none (Nat.lt_irrefl 0)⟩
    · rw [List.replicate_zero, List.append_nil]
      exact reached
    · rwa [List.rotate_zero, update_eq_self]
  | succ slices inductionHypothesis =>
    obtain ⟨s, ⟨start, started, run⟩, rotated, -⟩ := inductionHypothesis
    obtain ⟨s', completed, rotated', picked⟩ := @slice (k.withSchedule s) _ rotated
    simp only [update_self, List.rotate_rotate, update_idem] at rotated' picked
    refine ⟨s', ⟨start, started, ?_⟩, rotated', fun _ noTask noServer => ?_⟩
    · rw [List.replicate_succ', ← List.append_assoc]
      exact .snoc run trivial completed
    · rw [picked noTask noServer]
      by_cases none : queues .user = []
      · rw [none, List.rotate_nil]
        rfl
      · have some := List.length_pos_of_ne_nil none
        rw [← List.rotate_mod, List.head?_rotate (Nat.mod_lt _ some)]

/-- INIT has forked, and all tasks and servers wait. -/
def forked : List Call :=
  List.replicate 7 (.sysCall .receive any 0) ++ [.fork init ⟨13, by decide⟩, .newmap 3 {}] ++
    List.replicate 3 (.sysCall .receive any 0)

/-- After three slices, INIT runs; after an even number of them, its child does. -/
theorem round_robin_receive : ∃ k queues s, Reaches Contract (fun _ => {}) 0 forked k ∧
    queues .user = [⟨13, by decide⟩, init] ∧
    ReadyQueues s k.priority (update queues .user ((queues .user).rotate 3)) ∧
    s.procPtr = init := by
  have executed : ((main (fun _ => {}) 0).bind (Transition.execute step Contract forked)).any
      (fun k => (k.rdyHead .task).isNone && (k.rdyHead .server).isNone &&
        decide (Chain k.nextready (k.rdyHead .user) [⟨13, by decide⟩, init])) = true := by
    decide +kernel
  obtain ⟨k, executed, facts⟩ := (Option.any_eq_true _ _).mp executed
  simp only [Bool.and_eq_true, Option.isNone_iff_eq_none, decide_eq_true_eq] at facts
  obtain ⟨⟨noTask, noServer⟩, users⟩ := facts
  have reached := Reaches.of_execute executed
  obtain ⟨queues, represented, -, turns⟩ := round_robin reached
  obtain ⟨s, -, rotated, runs⟩ := turns 3
  have user := (represented.chain .user).unique users
  have empty {queue : Queue} (none : k.rdyHead queue = none) : queues queue = [] :=
    (represented.chain queue).unique none
  have turn := runs (by decide) (empty noTask) (empty noServer)
  rw [user] at turn
  exact ⟨k, queues, s, reached, user, rotated, turn⟩

end Minix.Kernel
