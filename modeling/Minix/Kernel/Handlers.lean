/-
This file shows that the handlers of the system task keep the kernel's invariant, under the
conditions of `Contract` and, for a fork, when no process is blocked sending to the parent.
-/

import Minix.Kernel.Receive

namespace Minix.Kernel

open Function (update update_of_ne update_self)
open Option (some.inj bind_eq_some_iff ite_none_right_eq_some ite_none_left_eq_some)
open LinkedList

variable {scope : Scope} {k k' : State} {p parent child : Slot}

/-! ### Fork and exit -/

/-- A forked child has its parent's entry but for signals and tracing, and it has no map yet. -/
theorem EntryOk.fork {entry : Proc} (ok : EntryOk parent entry) (user : entry.pPriority = .user)
    (free : ¬ child < init) :
    EntryOk child { entry with
      pFlags := { entry.pFlags with
        noMap := true, pending := false, sigPending := false, pStop := false }
      pPending := ∅
      pPendcount := 0 } where
  fixed system := absurd system free
  others _ := .inl user
  sendrec := ok.sendrec
  userSends := ok.userSends
  system system := absurd system free
  empty empty := absurd (user.symm.trans empty) (by decide)
  quiet quiet := by
    simp only [isidlehardware, Bool.or_eq_true, beq_iff_eq] at quiet
    rcases quiet with rfl | rfl
    · exact absurd (by decide) free
    · exact absurd (by decide) free
  pending := by simp
  told := by simp
  sigPending := by simp

theorem doFork_history (completed : doFork k parent child = some k') :
    k'.history = k.history ++ [.forked parent child] := by
  obtain ⟨-, completed⟩ := ite_none_right_eq_some.mp completed
  obtain rfl := some.inj completed
  rfl

/-- The child's queue, if it is described, must not be shared with the parent. -/
theorem doFork_later (inv : Invariant scope k)
    (noSender : scope.Covers child → (k.proc parent).pCallerq = none)
    (completed : doFork k parent child = some k') :
    Later scope (fun event => event = .forked parent child) k k' := by
  obtain ⟨permitted, completed⟩ := ite_none_right_eq_some.mp completed
  obtain rfl := some.inj completed
  rw [Bool.and_eq_true, State.isuserp_iff, State.isemptyp_iff] at permitted
  obtain ⟨user, dead⟩ := permitted
  have okParent := inv.entries parent
  have okChild := inv.entries child
  have free := okChild.notSystem_of_dead dead
  have clear : (k.proc child).pFlags = {} := okChild.empty dead
  have idle : k.rendezvous.offer child = none := by
    rw [← inv.offers, State.offer_eq_none, clear]
  have notLoose : ¬ k.Loose scope child := by
    intro loose
    have sending := loose.sending.1
    rw [clear] at sending
    cases sending
  have coversParent : scope.Covers child ↔ scope.Covers parent := by
    cases scope with
    | system => exact iff_of_false free (okParent.notSystem user)
    | every => exact Iff.rfl
  have empty : scope.Covers child → k.rendezvous.waiting parent = [] := by
    intro covers
    have chain := inv.chain parent (coversParent.mp covers)
    rw [show k.callerq parent = none from noSender covers] at chain
    exact List.head?_eq_none_iff.mp chain.head_eq.symm
  let copy : Proc → Proc := fun _ =>
    { k.proc parent with
      pFlags := { (k.proc parent).pFlags with
        noMap := true, pending := false, sigPending := false, pStop := false }
      pPending := ∅
      pPendcount := 0 }
  let event : Event := .forked parent child
  let k₁ := k.modify child copy
  have rendezvous : (k₁.emit [event]).rendezvous = k.rendezvous.apply event :=
    State.rendezvous_emit k₁ event
  have sendlink : (k₁.emit [event]).sendlink =
      update k.sendlink child (k.sendlink parent) :=
    k.modify_update child copy Proc.pSendlink
  have callerq : (k₁.emit [event]).callerq =
      update k.callerq child (k.callerq parent) :=
    k.modify_update child copy Proc.pCallerq
  have offer : (k₁.emit [event]).offer = update k.offer child (k.offer parent) :=
    k.modify_update child copy fun entry =>
      if entry.pFlags.sending then some (entry.pSendto, entry.pMessbuf) else none
  -- A child that sends what its parent sends does so to MM or FS.
  have loose : ∀ q, (k₁.emit [event]).Loose scope q ↔ k.Loose scope q := by
    intro q
    by_cases same : q = child
    · subst same
      refine iff_of_false ?_ notLoose
      rintro ⟨dest, buffer, outside, offers⟩
      rw [offer, update_self, State.offer_eq_some] at offers
      obtain ⟨sending, rfl, -⟩ := offers
      exact outside (scope.covers_server (okParent.userSends user sending))
    · simp [State.Loose, offer, same]
  refine ⟨⟨⟨fun q => ?_, fun dest covers => ?_, fun dest q outside head => ?_,
    fun q r isLoose link => ?_, fun q => ?_, ?_, fun q member => ?_⟩, ?_⟩, [event], rfl,
    by simp [event]⟩
  · by_cases same : q = child
    · subst same
      refine (okParent.fork user free).congr ?_ ?_ ?_ ?_ ?_ ?_ <;> simp
    · refine (inv.entries q).congr ?_ ?_ ?_ ?_ ?_ ?_ <;> simp [same]
  · rw [rendezvous, sendlink, callerq]
    by_cases same : dest = child
    · subst same
      rw [update_self, show k.callerq parent = none from noSender covers]
      simp only [event, Rendezvous.State.apply, update_self, empty covers]
      rfl
    · simp only [event, Rendezvous.State.apply, update_of_ne same]
      exact (inv.chain dest covers).update_of_notMem (inv.linked.notMem idle covers) _
  · rw [loose]
    rw [callerq] at head
    by_cases same : dest = child
    · subst same
      rw [update_self] at head
      exact inv.looseHead parent q (fun covers => outside (coversParent.mpr covers)) head
    · rw [update_of_ne same] at head
      exact inv.looseHead dest q outside head
  · rw [loose] at isLoose ⊢
    have apart : q ≠ child := by
      rintro rfl
      exact notLoose isLoose
    rw [sendlink, update_of_ne apart] at link
    exact inv.looseLink q r isLoose link
  · rw [rendezvous, offer]
    by_cases same : q = child
    · subst same
      simp [event, Rendezvous.State.apply, inv.offers]
    · simp [event, Rendezvous.State.apply, same, inv.offers]
  · exact Rendezvous.legal_snoc.mpr ⟨inv.legal, idle, empty⟩
  · have task := inv.held q member
    have apart : q ≠ child := by
      rintro rfl
      exact absurd (dead.symm.trans task) (by decide)
    simpa [State.priority, apart] using task
  · have others : ∀ q, k.Runnable q → q ≠ child := by
      rintro q runs rfl
      exact runs.2.1 dead
    refine inv.scheduled.congr_on rfl rfl rfl (fun q runs => ?_) (fun q runs => ?_) fun q => ?_
    · simp [State.nextready, others q runs]
    · simp [State.priority, others q runs]
    · by_cases same : q = child
      · subst same
        refine iff_of_false (State.not_runnable fun clear => ?_) fun runs => others q runs rfl
        have noMap := congrArg Flags.noMap clear
        simp at noMap
      · simp [State.Runnable, State.priority, same]

/-- The search of `do_xit`, made only for a SENDING process, takes the process off the caller
queues in any case. -/
theorem unlinkSender_if {rc : Slot} (table : TableOk scope k) (notLoose : ¬ k.Loose scope rc)
    (completed : (if (k.proc rc).pFlags.sending then unlinkSender rc (List.finRange _) k
      else some k) = some k') :
    ∃ links heads, k' = k.withLinks links heads ∧
      CallerQueues scope k' (fun dest => (k.rendezvous.waiting dest).erase rc)
        (k.Loose scope) := by
  split at completed
  case isTrue =>
    exact unlinkSender_spec table.callerQueues notLoose
      (fun dest _ outside => absurd (List.mem_finRange dest) outside) completed
  case isFalse sending =>
    obtain rfl := some.inj completed
    have idle : k.rendezvous.offer rc = none := by
      rw [← table.offers, State.offer_eq_none]
      simpa using sending
    exact ⟨k.sendlink, k.callerq, rfl, table.callerQueues.congr fun dest covers =>
      List.erase_of_not_mem (table.linked.notMem idle covers)⟩

theorem EntryOk.dead {entry : Proc} (free : ¬ p < init) :
    EntryOk p { entry with pPending := ∅, pPendcount := 0, pFlags := {}, pPriority := .none } where
  fixed system := absurd system free
  others _ := .inr rfl
  sendrec sending := by cases sending
  userSends user := by cases user
  system _ := by simp
  empty _ := rfl
  quiet _ := rfl
  pending := by simp
  told := by simp
  sigPending := by simp

/-- An exit keeps the invariant, wherever the process was waiting. -/
theorem doXit_later {rc : Slot} (inv : Invariant scope k)
    (completed : doXit k parent rc = some k') :
    Later scope (fun event => event = .exited rc) k k' := by
  obtain ⟨permitted, completed⟩ := ite_none_right_eq_some.mp completed
  rw [Bool.and_eq_true, State.isuserp_iff, State.isuserp_iff] at permitted
  have user := permitted.2
  have free := (inv.entries rc).notSystem user
  obtain ⟨s, result, asleep⟩ := inv.scheduled.sleep rc
  have notLoose := inv.notLoose user
  obtain ⟨asleep₁, slept, completed⟩ := bind_eq_some_iff.mp completed
  obtain rfl := some.inj (result.symm.trans slept)
  obtain ⟨unlinked, unlink, completed⟩ := bind_eq_some_iff.mp completed
  obtain rfl := some.inj completed
  obtain ⟨links, heads, rfl, after⟩ :=
    unlinkSender_if (inv.toTableOk.withSchedule s) notLoose unlink
  let event : Event := .exited rc
  let k₁ : State := (k.withSchedule s).withLinks links heads
  let k₂ : State := { k₁ with
    sigProcs := if (k₁.proc rc).pFlags.pending then k₁.sigProcs - 1 else k₁.sigProcs }
  let bury : Proc → Proc := fun entry =>
    { entry with pPending := ∅, pPendcount := 0, pFlags := {}, pPriority := .none }
  have rendezvous : ((k₂.modify rc bury).emit [event]).rendezvous = k.rendezvous.apply event :=
    State.rendezvous_emit (k₂.modify rc bury) event
  have others : ∀ q, (k.Runnable q ∧ q ≠ rc) → q ≠ rc := fun _ => And.right
  have sendlink : ((k₂.modify rc bury).emit [event]).sendlink = links :=
    State.modify_sendlink rfl
  have callerq : ((k₂.modify rc bury).emit [event]).callerq = heads :=
    State.modify_callerq rfl
  have offer : ((k₂.modify rc bury).emit [event]).offer = update k.offer rc none :=
    k₂.modify_update rc bury fun entry =>
      if entry.pFlags.sending then some (entry.pSendto, entry.pMessbuf) else none
  have loose : ∀ q, ((k₂.modify rc bury).emit [event]).Loose scope q ↔ k.Loose scope q := by
    intro q
    by_cases same : q = rc
    · subst same
      exact iff_of_false (by simp [State.Loose, offer]) notLoose
    · simp [State.Loose, offer, same]
  refine ⟨⟨⟨fun q => ?_, fun dest covers => ?_, fun dest q outside head => ?_,
    fun q r isLoose link => ?_, fun q => ?_, ?_, fun q member => ?_⟩, ?_⟩, [event], rfl,
    by simp [event]⟩
  · by_cases same : q = rc
    · subst same
      have dead : EntryOk q { k.proc q with
          pPending := ∅, pPendcount := 0, pFlags := {}, pPriority := .none } := .dead free
      refine dead.congr ?_ ?_ ?_ ?_ ?_ ?_ <;>
        simp [State.withLinks, State.withSchedule]
    · refine (inv.entries q).congr ?_ ?_ ?_ ?_ ?_ ?_ <;>
        simp [State.withLinks, State.withSchedule, same]
  · show Chain ((k₂.modify rc bury).emit [event]).sendlink
      (((k₂.modify rc bury).emit [event]).callerq dest)
      (((k₂.modify rc bury).emit [event]).rendezvous.waiting dest)
    rw [rendezvous, sendlink, callerq]
    exact after.chain dest covers
  · refine (loose q).mpr (after.looseHead dest q outside ?_)
    rw [State.withLinks_callerq, ← callerq]
    exact head
  · refine (loose r).mpr (after.looseLink q r ((loose q).mp isLoose) ?_)
    rw [State.withLinks_sendlink, ← sendlink]
    exact link
  · show ((k₂.modify rc bury).emit [event]).offer q =
      ((k₂.modify rc bury).emit [event]).rendezvous.offer q
    rw [rendezvous, offer]
    by_cases same : q = rc
    · subst same
      simp [event, Rendezvous.State.apply]
    · simp [event, Rendezvous.State.apply, same, inv.offers]
  · exact Rendezvous.legal_snoc.mpr ⟨inv.legal, trivial⟩
  · have task := inv.held q member
    have apart : q ≠ rc := by
      rintro rfl
      exact absurd (user.symm.trans task) (by decide)
    simpa [State.priority, apart, State.withLinks, State.withSchedule] using task
  · refine asleep.congr_on rfl rfl rfl (fun q runs => ?_) (fun q runs => ?_) fun q => ?_
    · simp [State.nextready, others q runs, State.withLinks]
    · simp [State.priority, others q runs, State.withLinks]
    · by_cases same : q = rc
      · subst same
        simp [State.Runnable, State.priority]
      · simp [State.Runnable, State.priority, same, State.withLinks, State.withSchedule]

/-! ### Handlers that deblock a process -/

section

variable (inv : Invariant scope k) (running : k.procPtr = systask) {result : Result}
include inv running

theorem Invariant.systemTask :
    k.Runnable systask ∧ k.priority systask = .task ∧ k.SystemRunning := by
  have runs := inv.runs (by rw [running]; decide)
  have task : k.priority systask = .task := (inv.entries systask).fixed (by decide)
  rw [running] at runs
  exact ⟨runs, task, inv.scheduled.taskRunning runs task⟩

theorem doNewmap_later {n : Int} {map : MemMap} (completed : doNewmap k n map = some (k', result)) :
    Later scope Passive k k' := by
  unfold doNewmap at completed
  cases found : procAddr n with
  | none =>
    simp only [found] at completed
    obtain ⟨rfl, -⟩ := Prod.mk.inj (some.inj completed)
    exact .refl inv
  | some rp =>
    simp only [found] at completed
    obtain ⟨k₁, mapped, same⟩ := bind_eq_some_iff.mp completed
    obtain ⟨rfl, -⟩ := Prod.mk.inj (some.inj same)
    let install : Proc → Proc := fun entry =>
      { entry with pMap := map, pFlags := { entry.pFlags with noMap := false } }
    have ok := inv.entries rp
    have ok' : EntryOk rp (install (k.proc rp)) :=
      (ok.fewer { (k.proc rp).pFlags with noMap := false } rfl rfl id id (by simp) id).congr
        rfl rfl rfl rfl rfl rfl
    split at mapped
    case isTrue blocked =>
      have busy : (k.proc rp).pFlags ≠ {} := by
        intro clear
        simp [clear, Flags.clear] at blocked
      obtain ⟨live, notIdle, notHardware⟩ := ok.live busy
      obtain ⟨s, woken, awake, -⟩ := inv.wake rp install (State.not_runnable busy) {} ok' live
        notIdle notHardware (fun _ => (inv.systemTask running).2.2)
      obtain rfl := some.inj (woken.symm.trans mapped)
      exact .of_history awake rfl
    case isFalse runnable =>
      obtain rfl := some.inj mapped
      have clear : (k.proc rp).pFlags.clear = true := by simpa using runnable
      refine .of_history (inv.adjust rp install {} ?_ ok') rfl
      simp only [install]
      rw [Flags.clear_iff.mp clear]

theorem doExec_later {traced : Bool} (receiving : (k.proc p).pFlags.receiving = true)
    (completed : doExec k p traced = some k') : Later scope Passive k k' := by
  obtain ⟨permitted, completed⟩ := ite_none_left_eq_some.mp completed
  have user : (k.proc p).pPriority = .user := by
    rw [← State.isuserp_iff]
    simpa using permitted
  obtain ⟨runs, task, system⟩ := inv.systemTask running
  obtain ⟨k₁, signalled, completed⟩ := bind_eq_some_iff.mp completed
  have apartMm : p ≠ mm := by
    rintro rfl
    exact (inv.entries mm).notSystem user (by decide)
  -- The signal of a traced process leaves the process waiting and the system task running.
  have after : Later scope Passive k k₁ ∧ SignalFrame k k₁ := by
    split at signalled
    case isTrue => exact causeSig_later inv user signalled
    case isFalse =>
      obtain rfl := some.inj signalled
      exact ⟨.refl inv, fun _ _ => rfl, fun _ _ => rfl, rfl⟩
  obtain ⟨later, frame⟩ := after
  have inv₁ := later.invariant
  have receiving₁ : (k₁.proc p).pFlags.receiving = true :=
    (frame.receiving p apartMm).trans receiving
  have runs₁ : k₁.Runnable systask := by
    simpa only [State.Runnable, frame.tasks systask task, frame.priority] using runs
  have system₁ : k₁.SystemRunning :=
    inv₁.scheduled.taskRunning runs₁ ((congrFun frame.priority systask).trans task)
  have busy := Flags.ne_of_receiving receiving₁
  have ok := inv₁.entries p
  obtain ⟨live, notIdle, notHardware⟩ := ok.live busy
  obtain ⟨s, woken, awake, -⟩ := inv₁.wake p
    (fun entry => { entry with pFlags := { entry.pFlags with receiving := false } })
    (State.not_runnable busy) {}
    (ok.fewer { (k₁.proc p).pFlags with receiving := false } rfl rfl id (by simp) id id)
    live notIdle notHardware (fun _ => system₁)
  obtain rfl := some.inj (woken.symm.trans completed)
  exact later.trans (.of_history awake rfl)

/-- `sys_trace` blocks, forks and ends nobody. -/
theorem doTrace_later {request : TraceRequest} (target : k.isuserp p = true ∨ k.isemptyp p = true)
    (stopped : request = .resume ∨ request = .step → k.isuserp p = true →
      (k.proc p).pFlags.pStop = true) (completed : doTrace k request p = some (k', result)) :
    Later scope Passive k k' := by
  unfold doTrace at completed
  split at completed
  case isTrue =>
    obtain ⟨rfl, -⟩ := Prod.mk.inj (some.inj completed)
    exact .refl inv
  case isFalse alive =>
    have isUser := target.resolve_right alive
    have user := (k.isuserp_iff p).mp isUser
    have ok := inv.entries p
    have notSystem := ok.notSystem user
    -- `T_RESUME` and `T_STEP` deblock the process.
    have resume : request = .resume ∨ request = .step → ∀ k₁,
        readyIfClear (k.setFlags p fun flags => { flags with pStop := false }) p = some k₁ →
        Later scope Passive k k₁ := by
      intro which k₁ resumed
      have stop := stopped which isUser
      have busy : (k.proc p).pFlags ≠ {} := by
        intro clear
        simp [clear] at stop
      obtain ⟨live, notIdle, notHardware⟩ := ok.live busy
      obtain ⟨s, woken, awake, -⟩ := inv.wake p
        (fun entry => { entry with pFlags := { entry.pFlags with pStop := false } })
        (State.not_runnable busy) {}
        (ok.fewer { (k.proc p).pFlags with pStop := false } rfl rfl id id id (by simp))
        live notIdle notHardware (fun _ => (inv.systemTask running).2.2)
      obtain rfl := some.inj (woken.symm.trans resumed)
      exact .of_history awake rfl
    cases request with
    | stop =>
      obtain ⟨k₁, slept, same⟩ := bind_eq_some_iff.mp completed
      obtain ⟨rfl, -⟩ := Prod.mk.inj (some.inj same)
      obtain ⟨s, result, sleeps⟩ := inv.sleep p
      obtain rfl := some.inj (result.symm.trans slept)
      refine .of_history (sleeps (fun entry =>
        { entry with pFlags := { entry.pFlags with pStop := true } }) {} ?_ ?_) rfl
      · refine Flags.clear_eq_false fun clear => ?_
        have stop := congrArg Flags.pStop clear
        simp at stop
      · have scheduled := (inv.toTableOk.withSchedule s).entries p
        exact { scheduled with
          system := fun system => absurd system notSystem
          empty := fun empty => absurd (user.symm.trans empty) (by decide)
          quiet := fun quiet => by
            simp only [isidlehardware, Bool.or_eq_true, beq_iff_eq] at quiet
            rcases quiet with rfl | rfl
            · exact absurd (by decide) notSystem
            · exact absurd (by decide) notSystem }
    | access =>
      obtain ⟨rfl, -⟩ := Prod.mk.inj (some.inj completed)
      exact .refl inv
    | resume =>
      obtain ⟨k₁, resumed, same⟩ := bind_eq_some_iff.mp completed
      obtain ⟨rfl, -⟩ := Prod.mk.inj (some.inj same)
      exact resume (.inl rfl) k₁ resumed
    | step =>
      obtain ⟨k₁, resumed, same⟩ := bind_eq_some_iff.mp completed
      obtain ⟨rfl, -⟩ := Prod.mk.inj (some.inj same)
      exact resume (.inr rfl) k₁ resumed

theorem Invariant.finish (user : k.priority p = .user) (none : (k.proc p).pPending = ∅)
    (last : (k.proc p).pPendcount = 1) :
    ∃ s, readyIfClear ((k.modify p fun entry =>
        { entry with pPendcount := entry.pPendcount - 1 }).setFlags p fun flags =>
          { flags with sigPending := false }) p =
      some ((k.modify p fun entry => { entry with
        pPendcount := entry.pPendcount - 1
        pFlags := { entry.pFlags with sigPending := false } }).withSchedule s) ∧
      Invariant scope ((k.modify p fun entry => { entry with
        pPendcount := entry.pPendcount - 1
        pFlags := { entry.pFlags with sigPending := false } }).withSchedule s) := by
  have ok := inv.entries p
  have busy := Flags.ne_of_sigPending (ok.sigPending.mpr (by omega))
  obtain ⟨live, notIdle, notHardware⟩ := ok.live busy
  let finish : Proc → Proc := fun entry =>
    { entry with
      pPendcount := entry.pPendcount - 1
      pFlags := { entry.pFlags with sigPending := false } }
  have ok' : EntryOk p (finish (k.proc p)) := { ok with
    told := by simp [finish, none]
    sigPending := by simp [finish, last]
    system := fun system => absurd system (ok.notSystem user)
    empty := fun empty => absurd empty live
    quiet := fun quiet => absurd (ok.quiet quiet) busy }
  obtain ⟨s, result, awake, -⟩ := inv.wake p finish (State.not_runnable busy) {} ok' live
    notIdle notHardware (fun _ => (inv.systemTask running).2.2)
  rw [State.setFlags, State.modify_modify]
  exact ⟨s, result, awake⟩

theorem doEndsig_later
    (unfinished : k.isuserp p = true → (k.proc p).pPending.card < (k.proc p).pPendcount)
    (completed : doEndsig k p = some (k', result)) : Later scope Passive k k' := by
  unfold doEndsig at completed
  split at completed
  case isTrue =>
    obtain ⟨rfl, -⟩ := Prod.mk.inj (some.inj completed)
    exact .refl inv
  obtain ⟨permitted, completed⟩ := ite_none_left_eq_some.mp completed
  have isUser : k.isuserp p = true := by simpa using permitted
  have user := (k.isuserp_iff p).mp isUser
  have more := unfinished isUser
  have ok := inv.entries p
  have signalled : (k.proc p).pFlags.sigPending = true := ok.sigPending.mpr (by omega)
  have busy := Flags.ne_of_sigPending signalled
  obtain ⟨live, notIdle, notHardware⟩ := ok.live busy
  split at completed
  case isTrue none => omega
  dsimp only at completed
  split at completed
  case isTrue others =>
    obtain ⟨rfl, -⟩ := Prod.mk.inj (some.inj completed)
    have left : (k.proc p).pPendcount - 1 ≠ 0 := by simpa using others
    refine .of_history (inv.adjust p (fun entry =>
      { entry with pPendcount := entry.pPendcount - 1 }) {} rfl { ok with
        told := Nat.le_sub_one_of_lt more
        sigPending := ?_ }) rfl
    exact iff_of_true signalled left
  case isFalse last =>
    obtain ⟨k₁, woken, same⟩ := bind_eq_some_iff.mp completed
    obtain ⟨rfl, -⟩ := Prod.mk.inj (some.inj same)
    have zero : (k.proc p).pPendcount - 1 = 0 := by simpa using last
    have noSignal : (k.proc p).pPending = ∅ := Finset.card_eq_zero.mp (by omega)
    obtain ⟨s, result, awake⟩ := inv.finish running user noSignal (by omega)
    obtain rfl := some.inj (result.symm.trans woken)
    exact .of_history awake rfl

/-- `do_endsig` completes for every slot that is not one of a task or server. -/
theorem doEndsig_completes (notSystem : ¬ p < init)
    (unfinished : k.isuserp p = true → (k.proc p).pPending.card < (k.proc p).pPendcount) :
    ∃ k' result, doEndsig k p = some (k', result) := by
  rcases (inv.entries p).others notSystem with user | dead
  · have isUser := (k.isuserp_iff p).mpr user
    have live : k.isemptyp p = false := by simp [State.isemptyp, user]
    have more := unfinished isUser
    have some : (k.proc p).pPendcount ≠ 0 := by omega
    unfold doEndsig
    simp only [live, isUser, Bool.false_eq_true, if_false, Bool.not_true, some]
    split
    case isTrue => exact ⟨_, _, rfl⟩
    case isFalse last =>
      have zero : (k.proc p).pPendcount - 1 = 0 := by simpa using last
      have noSignal : (k.proc p).pPending = ∅ := Finset.card_eq_zero.mp (by omega)
      obtain ⟨s, result, -⟩ := inv.finish running user noSignal (by omega)
      rw [result]
      exact ⟨_, _, rfl⟩
  · have isEmpty := (k.isemptyp_iff p).mpr dead
    unfold doEndsig
    rw [if_pos isEmpty]
    exact ⟨_, _, rfl⟩

end

end Minix.Kernel
