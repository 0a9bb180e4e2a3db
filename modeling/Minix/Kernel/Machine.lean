/-
This file assembles the kernel's invariant: it holds when `main` has started the system, and
every kernel entry keeps it as long as the code around the kernel keeps its `Contract`. The
invariant that describes all caller queues is kept only if no process forks while others are
blocked sending to it.
-/

import Minix.Kernel.Handlers

namespace Minix.Kernel

open LinkedList

/-! ### The start of the system -/

/-- The process table while `main` fills it: the slots in `filled` are set up. -/
def bootTable (maps : Slot → MemMap) (sysMessage : UInt32) (filled : List Slot) : State :=
  { sysMessage
    proc := fun p =>
      if p ∈ filled then { pPriority := bootPriority p, pMap := maps p } else {} }

/-- The system while it starts: the table is filled so far, and the processes set up are ready
to run but for `IDLE` and `HARDWARE`. -/
structure Starting (maps : Slot → MemMap) (sysMessage : UInt32) (filled : List Slot) (k : State) :
    Prop where
  table : ∃ s, k = (bootTable maps sysMessage filled).withSchedule s
  scheduled : k.ReadyFor fun p => p ∈ filled ∧ isidlehardware p = false

variable {maps : Slot → MemMap} {sysMessage : UInt32} {filled : List Slot} {k : State} {p : Slot}

theorem bootTable_modify (fresh : p ∉ filled) (s : Schedule) :
    ((bootTable maps sysMessage filled).withSchedule s).modify p
        (fun entry => { entry with pPriority := bootPriority p, pMap := maps p }) =
      (bootTable maps sysMessage (filled ++ [p])).withSchedule s := by
  have entries : (((bootTable maps sysMessage filled).withSchedule s).modify p
        (fun entry => { entry with pPriority := bootPriority p, pMap := maps p })).proc =
      ((bootTable maps sysMessage (filled ++ [p])).withSchedule s).proc := by
    funext q
    by_cases same : q = p
    · subst same
      simp [bootTable, State.withSchedule, fresh]
    · simp [bootTable, State.withSchedule, same]
  simp only [State.modify] at entries ⊢
  rw [entries]
  rfl

/-- The first task is ready, so that no user process runs while `main` sets up another one. -/
theorem bootProc_starting (starting : Starting maps sysMessage filled k) (fresh : p ∉ filled)
    (first : bootPriority p = .user → tty ∈ filled) :
    ∃ k', bootProc maps k p = some k' ∧ Starting maps sysMessage (filled ++ [p]) k' := by
  obtain ⟨⟨s, rfl⟩, scheduled⟩ := starting
  let k₁ := (bootTable maps sysMessage (filled ++ [p])).withSchedule s
  have asleep : k₁.ReadyFor fun q => q ∈ filled ∧ isidlehardware q = false := by
    refine scheduled.congr_on rfl rfl rfl (fun q _ => rfl) (fun q ready => ?_) fun q => Iff.rfl
    simp [k₁, State.priority, State.withSchedule, bootTable, ready.1]
  have prio : k₁.priority p = bootPriority p := by
    simp [k₁, State.priority, State.withSchedule, bootTable]
  have safe : queueOf (k₁.priority p) = .user → k₁.SystemRunning := by
    intro sorted
    rw [prio] at sorted
    have user : bootPriority p = .user := by
      revert sorted
      simp only [bootPriority]
      split
      · simp [queueOf]
      · split <;> simp [queueOf]
    refine asleep.taskRunning ⟨first user, by decide⟩ ?_
    have task : bootPriority tty = .task := rfl
    simp [k₁, State.priority, State.withSchedule, bootTable, first user, task]
  have cleared : ∀ s', ((bootTable maps sysMessage (filled ++ [p])).withSchedule s').setFlags p
      (fun _ => {}) = (bootTable maps sysMessage (filled ++ [p])).withSchedule s' := by
    intro s'
    have entry : { ((bootTable maps sysMessage (filled ++ [p])).withSchedule s').proc p with
        pFlags := {} } = ((bootTable maps sysMessage (filled ++ [p])).withSchedule s').proc p := by
      simp [State.withSchedule, bootTable]
    simp only [State.setFlags, State.modify, entry, Function.update_eq_self]
  cases kind : isidlehardware p with
  | true =>
    refine ⟨k₁, ?_, ⟨s, rfl⟩, asleep.congr rfl rfl fun q => ?_⟩
    · simp only [bootProc, bootTable_modify fresh, kind, if_true, Option.bind_eq_bind,
        Option.bind_some, cleared]
      rfl
    · by_cases same : q = p
      · subst same
        simp [kind]
      · simp [same]
  | false =>
    obtain ⟨s', result, awake⟩ := asleep.ready (fun ready => fresh ready.1) safe
    refine ⟨k₁.withSchedule s', ?_, ⟨s', rfl⟩, awake.congr rfl rfl fun q => ?_⟩
    · simp only [bootProc, bootTable_modify fresh, kind, Bool.false_eq_true, if_false,
        Option.bind_eq_bind]
      rw [show ready _ p = _ from result, Option.bind_some]
      exact congrArg some (cleared s')
    · by_cases same : q = p
      · subst same
        simp [kind]
      · simp [same]

theorem bootProcs_starting {slots : List Slot} (starting : Starting maps sysMessage filled k)
    (nodup : (filled ++ slots).Nodup) (first : tty ∈ filled) :
    ∃ k', slots.foldlM (bootProc maps) k = some k' ∧
      Starting maps sysMessage (filled ++ slots) k' := by
  induction slots generalizing filled k with
  | nil => exact ⟨k, rfl, by simpa using starting⟩
  | cons p slots inductionHypothesis =>
    have fresh : p ∉ filled := fun member =>
      (List.nodup_append.mp nodup).2.2 p member p (by simp) rfl
    rw [List.append_cons] at nodup ⊢
    obtain ⟨k₁, result, starting₁⟩ := bootProc_starting starting fresh fun _ => first
    obtain ⟨k', results, starting'⟩ :=
      inductionHypothesis starting₁ nodup (List.mem_append_left _ first)
    refine ⟨k', ?_, starting'⟩
    rw [List.foldlM_cons, result]
    exact results

/-- The slots that `main` sets up. -/
def bootSlots : List Slot := (List.finRange _).filter (· ≤ init)

theorem mem_bootSlots : p ∈ bootSlots ↔ p ≤ init := by simp [bootSlots]

theorem EntryOk.fresh {entry : Proc} (flags : entry.pFlags = {}) (pending : entry.pPending = ∅)
    (pendcount : entry.pPendcount = 0) (fixed : p < init → entry.pPriority = systemPriority p)
    (others : ¬ p < init → entry.pPriority = .user ∨ entry.pPriority = .none) :
    EntryOk p entry where
  fixed := fixed
  others := others
  sendrec sending := by simp [flags] at sending
  userSends _ sending := by simp [flags] at sending
  system _ := by simp [flags]
  empty _ := flags
  quiet _ := flags
  pending := by simp [flags, pending]
  told := by simp [pending]
  sigPending := by simp [flags, pendcount]

theorem bootSlots_starting (maps : Slot → MemMap) (sysMessage : UInt32) :
    ∃ k, bootSlots.foldlM (bootProc maps) ({ sysMessage := sysMessage } : State) = some k ∧
      Starting maps sysMessage bootSlots k := by
  have empty : Starting maps sysMessage [] ({ sysMessage := sysMessage } : State) := by
    refine ⟨⟨({ sysMessage := sysMessage } : State).schedule, rfl⟩, fun _ => [],
      ⟨fun _ => rfl, fun _ nonempty => absurd rfl nonempty, fun _ _ member => by simp at member,
        .inr ⟨rfl, .inl rfl⟩⟩, fun p => by simp⟩
  have slots : bootSlots = tty :: bootSlots.drop 1 := by decide
  obtain ⟨k₁, first, starting₁⟩ := bootProc_starting empty (List.not_mem_nil (a := tty))
    (fun user => absurd user (by decide))
  have nodup : ([] ++ [tty] ++ bootSlots.drop 1).Nodup := by decide
  obtain ⟨k₂, rest, starting₂⟩ := bootProcs_starting starting₁ nodup (by simp)
  refine ⟨k₂, ?_, ?_⟩
  · rw [slots, List.foldlM_cons, first]
    exact rest
  · rw [slots]
    exact starting₂

/-- The table when the slots are filled and `IDLE` has got its own priority. -/
def bootState (maps : Slot → MemMap) (sysMessage : UInt32) (s : Schedule) : State :=
  { (bootTable maps sysMessage bootSlots).withSchedule s with billPtr := idle }.modify idle
    fun entry => { entry with pPriority := .idle }

theorem bootState_proc (s : Schedule) (p : Slot) :
    (bootState maps sysMessage s).proc p =
      { ({} : Proc) with
        pPriority := if p = idle then .idle else if p ≤ init then bootPriority p else .none
        pMap := if p ≤ init then maps p else {}
        pNextready := s.nextready p } := by
  have idleFilled : idle ≤ init := by decide
  by_cases same : p = idle
  · subst same
    simp [bootState, State.withSchedule, bootTable, mem_bootSlots, idleFilled]
  · by_cases inTable : p ≤ init <;>
      simp [bootState, State.withSchedule, bootTable, mem_bootSlots, same, inTable]

theorem bootState_entries (s : Schedule) (p : Slot) :
    EntryOk p ((bootState maps sysMessage s).proc p) := by
  rw [bootState_proc]
  refine .fresh rfl rfl rfl (fun system => ?_) fun outside => ?_
  · simp [systemPriority, system.le]
  · have last : ∀ p, ¬ p < init → p ≤ init → p ≠ idle ∧ bootPriority p = .user := by decide
    have apart : p ≠ idle := by
      rintro rfl
      exact outside (by decide)
    by_cases inTable : p ≤ init
    · simp [apart, inTable, (last p outside inTable).2]
    · simp [apart, inTable]

/-- `main` ends with the filled table, and the processes in it are scheduled. -/
theorem main_boots (maps : Slot → MemMap) (sysMessage : UInt32) :
    ∃ s s', main maps sysMessage = some ((bootState maps sysMessage s).withSchedule s') ∧
      ((bootState maps sysMessage s).withSchedule s').ReadyFor
        (bootState maps sysMessage s).Runnable := by
  obtain ⟨k, filled, ⟨s, rfl⟩, scheduled⟩ := bootSlots_starting maps sysMessage
  have live : ∀ p, bootPriority p ≠ .none := by decide
  have runnable : (bootState maps sysMessage s).ReadyFor
      (bootState maps sysMessage s).Runnable := by
    refine scheduled.congr_on rfl rfl rfl (fun p _ => ?_) (fun p ready => ?_) fun p => ?_
    · rw [State.nextready, bootState_proc]
      rfl
    · have apart : p ≠ idle := by
        rintro rfl
        exact absurd ready.2 (by decide)
      have inTable := mem_bootSlots.mp ready.1
      rw [State.priority, bootState_proc]
      simp [State.priority, State.withSchedule, bootTable, apart, inTable, mem_bootSlots]
    · simp only [State.Runnable, State.priority, bootState_proc, mem_bootSlots, isidlehardware]
      by_cases same : p = idle
      · simp [same]
      · by_cases inTable : p ≤ init <;> simp [same, inTable, live, Flags.clear]
  obtain ⟨s', picked, after⟩ := runnable.pickProc
  refine ⟨s, s', ?_, after⟩
  rw [← picked, main, show (List.finRange _).filter (· ≤ init) = bootSlots from rfl, filled]
  rfl

theorem main_invariant (scope : Scope) (maps : Slot → MemMap) (sysMessage : UInt32) :
    ∃ k, main maps sysMessage = some k ∧ Invariant scope k ∧ k.history = [] := by
  obtain ⟨s, s', started, after⟩ := main_boots maps sysMessage
  have callerq : ∀ dest, (bootState maps sysMessage s).callerq dest = none := by
    intro dest
    rw [State.callerq, bootState_proc]
  have offer : ∀ p, (bootState maps sysMessage s).offer p = none := by
    intro p
    rw [State.offer, bootState_proc]
    rfl
  have table : TableOk scope (bootState maps sysMessage s) := by
    refine ⟨bootState_entries s, fun dest _ => callerq dest, fun dest p _ head => ?_,
      fun p q loose => ?_, offer, Rendezvous.legal_nil,
      fun p member => absurd member List.not_mem_nil⟩
    · rw [callerq] at head
      cases head
    · obtain ⟨dest, buffer, -, offers⟩ := loose
      rw [offer] at offers
      cases offers
  exact ⟨_, started, ⟨table.withSchedule s', after⟩, rfl⟩

/-! ### One step -/

/-- A process whose child's queue is described does not fork while others are blocked sending to
it: the child would share its caller queue. -/
def Undivided (scope : Scope) (k : State) : Call → Prop
  | .fork parent child => scope.Covers child → (k.proc parent).pCallerq = none
  | _ => True

/-- The events that a call may cause. -/
def CallEvent (k : State) : Call → Event → Prop
  | .sysCall function srcDest mPtr, event => SysCallEvent k function srcDest mPtr event
  | .fork parent child, event => event = .forked parent child
  | .xit _ p, event => event = .exited p
  | _, event => Passive event

/-- Every step keeps the invariant and causes only the events of its call. -/
theorem step_later {scope : Scope} {k k' : State} {call : Call} (inv : Invariant scope k)
    (contract : Contract k call) (undivided : Undivided scope k call)
    (completed : step k call = some k') : Later scope (CallEvent k call) k k' := by
  have first : ∀ {after : Option (State × Result)}, after.map Prod.fst = some k' →
      ∃ result, after = some (k', result) := by
    rintro after found
    obtain ⟨⟨_, result⟩, same, rfl⟩ := Option.map_eq_some_iff.mp found
    exact ⟨result, same⟩
  cases call with
  | sysCall function srcDest mPtr =>
    obtain ⟨result, completed⟩ := first completed
    exact sysCall_later inv contract completed
  | interrupt task competing =>
    exact interrupt_later inv (by simpa [Contract, State.istaskp, State.priority] using
      contract) completed
  | unhold => exact unhold_later inv completed
  | sched =>
    obtain ⟨s, result, after⟩ := inv.scheduled.sched
    obtain rfl := Option.some.inj (result.symm.trans completed)
    exact .of_history ⟨inv.toTableOk.withSchedule s, after⟩ rfl
  | causeSig p sigNr => exact (causeSig_later inv ((k.isuserp_iff p).mp contract) completed).1
  | fork parent child => exact doFork_later inv undivided completed
  | newmap n map =>
    obtain ⟨result, completed⟩ := first completed
    exact doNewmap_later inv contract completed
  | exec p traced => exact doExec_later inv contract.1 contract.2 completed
  | xit parent p => exact doXit_later inv completed
  | trace request p =>
    obtain ⟨result, completed⟩ := first completed
    exact doTrace_later inv contract.1 contract.2.1 contract.2.2 completed
  | kill p sigNr =>
    change doKill k p sigNr = some k' at completed
    obtain ⟨user, completed⟩ := Option.ite_none_right_eq_some.mp completed
    exact (causeSig_later inv ((k.isuserp_iff p).mp user) completed).1
  | endsig p =>
    obtain ⟨result, completed⟩ := first completed
    exact doEndsig_later inv contract.1 contract.2 completed

theorem Invariant.undivided {k k' : State} {call : Call} (inv : Invariant .system k)
    (completed : step k call = some k') : Undivided .system k call := by
  cases call with
  | fork parent child =>
    intro system
    change doFork k parent child = some k' at completed
    obtain ⟨permitted, completed⟩ := Option.ite_none_right_eq_some.mp completed
    rw [Bool.and_eq_true, State.isuserp_iff, State.isemptyp_iff] at permitted
    exact absurd system ((inv.entries child).notSystem_of_dead permitted.2)
  | _ => trivial

/-- The runs of the kernel from the start of the system. -/
def Reaches (guard : State → Call → Prop) (maps : Slot → MemMap) (sysMessage : UInt32)
    (calls : List Call) (k : State) : Prop :=
  ∃ start, main maps sysMessage = some start ∧ Transition.Run step guard start calls k

theorem Reaches.of_execute {guard : State → Call → Prop}
    [∀ k call, Decidable (guard k call)] {calls : List Call}
    (executed : (main maps sysMessage).bind (Transition.execute step guard calls) = some k) :
    Reaches guard maps sysMessage calls k := by
  obtain ⟨start, started, rest⟩ := Option.bind_eq_some_iff.mp executed
  exact ⟨start, started, .of_execute rest⟩

theorem Reaches.invariant {calls : List Call}
    (reached : Reaches Contract maps sysMessage calls k) : Invariant .system k := by
  obtain ⟨start, started, run⟩ := reached
  obtain ⟨start', started', initial, -⟩ := main_invariant .system maps sysMessage
  obtain rfl := Option.some.inj (started'.symm.trans started)
  refine run.invariant initial fun k call k' inv contract completed => ?_
  exact (step_later inv contract (inv.undivided completed) completed).invariant

end Minix.Kernel
