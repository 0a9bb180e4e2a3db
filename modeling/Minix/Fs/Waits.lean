/-
This file describes the processes that are suspended on pipes, as a table of what each of them
waits for, and proves what suspending, reviving and releasing do to it.

`Queue` is what the counters `susp_count` and `reviving` mean. Releasing processes changes
nothing but that some of them do not wait any more (`Woken`), and releasing enough of them
leaves none.
-/

import Minix.Fs.Open

namespace Minix.Fs

open Function (update update_of_ne update_self update_eq_self)

/-! ### What a process waits for -/

/-- A process waits to read from or write to a pipe, or for the other end of a FIFO to be
opened. -/
inductive Wait
  | transfer (rwFlag : RwFlag)
  | opening (bits : RwFlag)
  deriving DecidableEq

namespace State

/-- Some filp has the end of the pipe open. -/
def HasEnd (s : State) (rip : InodeNr) (bits : RwFlag) : Prop :=
  ∃ f, (s.filp f).filpCount ≠ 0 ∧ (s.filp f).filpIno = rip ∧ (s.filp f).filpMode bits = true

/-- The pipe that a process is suspended on, and what it waits for there. A process that is being
revived does not wait. -/
def waits (s : State) (p : Slot) : Option (InodeNr × Wait) :=
  let entry := s.fproc p
  if entry.fpSuspended && !entry.fpRevived then
    match entry.fpTask with
    | .xpipe => (entry.fpFilp entry.fpFd).map fun f =>
      ((s.filp f).filpIno, .transfer (if entry.fpCall = .write then .writing else .reading))
    | .xpopen => (entry.fpFilp entry.fpFd).map fun f =>
      ((s.filp f).filpIno,
        .opening (if (s.filp f).filpMode .writing then .writing else .reading))
    | .xlock | .device _ => none
  else none

/-- The processes that are being revived. -/
def revives (s : State) (p : Slot) : Option Unit :=
  if (s.fproc p).fpRevived then some () else none

end State

variable {s : State} {rip : InodeNr} {bits : RwFlag}

theorem findFilp_eq_some {f : FilpNr} (found : findFilp s rip bits = some f) :
    (s.filp f).filpCount ≠ 0 ∧ (s.filp f).filpIno = rip ∧ (s.filp f).filpMode bits = true := by
  simpa [and_assoc] using List.find?_some found

theorem findFilp_isSome :
    (findFilp s rip bits).isSome = true ↔ s.HasEnd rip bits := by
  simp [findFilp, State.HasEnd, List.find?_isSome, and_assoc]

theorem findFilp_isNone :
    (findFilp s rip bits).isNone = true ↔ ¬ s.HasEnd rip bits := by
  rw [← findFilp_isSome]
  cases findFilp s rip bits <;> simp

/-- What is saved of a suspended call fits what the process is suspended on. -/
structure Parked (s : State) (p : Slot) : Prop where
  revived : (s.fproc p).fpRevived = true →
    (s.fproc p).fpSuspended = true ∧ ((s.fproc p).fpTask = .xpipe ∨ (s.fproc p).fpTask = .xlock)
  pipe : (s.fproc p).fpSuspended = true → (s.fproc p).fpTask = .xpipe →
    0 < (s.fproc p).fpNbytes ∧ ∃ rwFlag : RwFlag, (s.fproc p).fpCall = rwFlag.call ∧
      ∃ f, (s.fproc p).fpFilp (s.fproc p).fpFd = some f ∧ (s.filp f).filpMode rwFlag = true ∧
        (s.inode (s.filp f).filpIno).iPipe = true
  popen : (s.fproc p).fpSuspended = true → (s.fproc p).fpTask = .xpopen →
    ((s.fproc p).fpCall = .open ∨ (s.fproc p).fpCall = .creat) ∧
      ∃ f, (s.fproc p).fpFilp (s.fproc p).fpFd = some f ∧ (s.inode (s.filp f).filpIno).iPipe = true
  lock : (s.fproc p).fpSuspended = true → (s.fproc p).fpTask = .xlock → (s.fproc p).fpCall = .fcntl
  device : (s.fproc p).fpSuspended = true → ∀ nr, (s.fproc p).fpTask = .device nr →
    ∀ f, (s.fproc p).fpFilp (s.fproc p).fpFd = some f →
      (s.inode (s.filp f).filpIno).iPipe = false

/-- The suspended calls are well formed, and the counters count them. A process that waits and
is interrupted stays counted. -/
structure Queue (s : State) : Prop where
  parked : ∀ p, Parked s p
  suspCount : s.suspCount = References.size s.waits + s.history.interrupted
  reviving : s.reviving = References.size s.revives

/-- The condition that a process waits for has not become true. -/
def Blocked (s : State) : InodeNr × Wait → Prop
  | (rip, .transfer .reading) => (s.inode rip).iSize = 0 ∧ s.HasEnd rip .writing
  | (rip, .transfer .writing) =>
    s.HasEnd rip .reading ∧ ∀ p, s.waits p ≠ some (rip, .transfer .reading)
  | (rip, .opening bits) => ¬ s.HasEnd rip bits.other

/-- No process waits in vain, but for those that wait for something in `except`. -/
def Waiting (except : InodeNr × Wait → Prop) (s : State) : Prop :=
  ∀ p wanted, s.waits p = some wanted → ¬ except wanted → Blocked s wanted

/-! ### Reading the table of waiting processes -/

section Entries

variable {s s' : State} {p : Slot} {ip : InodeNr} {callNr : CallNr} {wait : Wait}

/-- The calls in which a process may wait for something. -/
def Wait.Calls : Wait → CallNr → Prop
  | .transfer rwFlag, callNr => callNr = rwFlag.call
  | .opening _, callNr => callNr = .open ∨ callNr = .creat

theorem waits_pipe {f : FilpNr} {rwFlag : RwFlag} (suspended : (s.fproc p).fpSuspended = true)
    (revived : (s.fproc p).fpRevived = false) (task : (s.fproc p).fpTask = .xpipe)
    (refers : (s.fproc p).fpFilp (s.fproc p).fpFd = some f)
    (call : (s.fproc p).fpCall = rwFlag.call) :
    s.waits p = some ((s.filp f).filpIno, .transfer rwFlag) := by
  cases rwFlag <;> simp_all [State.waits, RwFlag.call]

theorem waits_popen {f : FilpNr} (suspended : (s.fproc p).fpSuspended = true)
    (revived : (s.fproc p).fpRevived = false) (task : (s.fproc p).fpTask = .xpopen)
    (refers : (s.fproc p).fpFilp (s.fproc p).fpFd = some f) :
    s.waits p = some ((s.filp f).filpIno,
      .opening (if (s.filp f).filpMode .writing then .writing else .reading)) := by
  simp [State.waits, suspended, revived, task, refers]

theorem waits_eq_none_of_not_suspended (suspended : (s.fproc p).fpSuspended = false) :
    s.waits p = none := by
  simp [State.waits, suspended]

theorem waits_eq_none_of_revived (revived : (s.fproc p).fpRevived = true) : s.waits p = none := by
  simp [State.waits, revived]

theorem waits_eq_some (waits : s.waits p = some (ip, wait)) :
    (s.fproc p).fpSuspended = true ∧ (s.fproc p).fpRevived = false ∧
      ((s.fproc p).fpTask = .xpipe ∨ (s.fproc p).fpTask = .xpopen) ∧
      ∃ f, (s.fproc p).fpFilp (s.fproc p).fpFd = some f ∧ (s.filp f).filpIno = ip := by
  obtain ⟨hanging, waits⟩ := Option.ite_none_right_eq_some.mp waits
  rw [Bool.and_eq_true, Bool.not_eq_true'] at hanging
  cases task : (s.fproc p).fpTask with
  | xpipe | xpopen =>
    rw [task] at waits
    obtain ⟨f, refers, same⟩ := Option.map_eq_some_iff.mp waits
    exact ⟨hanging.1, hanging.2, by simp, f, refers, congrArg Prod.fst same⟩
  | xlock | device =>
    rw [task] at waits
    cases waits

/-- What a process waits for depends on its entry, and on the inode and the mode of the filp that
its call is about. -/
theorem waits_congr (suspended : (s'.fproc p).fpSuspended = (s.fproc p).fpSuspended)
    (revived : (s'.fproc p).fpRevived = (s.fproc p).fpRevived)
    (task : (s'.fproc p).fpTask = (s.fproc p).fpTask)
    (call : (s'.fproc p).fpCall = (s.fproc p).fpCall)
    (refers : (s'.fproc p).fpFilp (s'.fproc p).fpFd = (s.fproc p).fpFilp (s.fproc p).fpFd)
    (same : ∀ f, (s.fproc p).fpFilp (s.fproc p).fpFd = some f →
      (s'.filp f).filpIno = (s.filp f).filpIno ∧ (s'.filp f).filpMode = (s.filp f).filpMode) :
    s'.waits p = s.waits p := by
  simp only [State.waits, suspended, revived, task, call, refers]
  split
  · cases found : (s.fproc p).fpFilp (s.fproc p).fpFd with
    | none => rfl
    | some f => simp [same f found]
  · rfl

theorem Parked.congr (parked : Parked s p)
    (suspended : (s'.fproc p).fpSuspended = (s.fproc p).fpSuspended)
    (revived : (s'.fproc p).fpRevived = (s.fproc p).fpRevived)
    (task : (s'.fproc p).fpTask = (s.fproc p).fpTask)
    (call : (s'.fproc p).fpCall = (s.fproc p).fpCall)
    (nbytes : (s'.fproc p).fpNbytes = (s.fproc p).fpNbytes)
    (refers : (s'.fproc p).fpFilp (s'.fproc p).fpFd = (s.fproc p).fpFilp (s.fproc p).fpFd)
    (same : ∀ f, (s.fproc p).fpFilp (s.fproc p).fpFd = some f →
      (s'.filp f).filpMode = (s.filp f).filpMode ∧
        (s'.inode (s'.filp f).filpIno).iPipe = (s.inode (s.filp f).filpIno).iPipe) :
    Parked s' p := by
  refine ⟨?_, ?_, ?_, ?_, ?_⟩ <;> simp only [suspended, revived, task, call, nbytes, refers]
  · exact parked.revived
  · intro hanging onPipe
    obtain ⟨some, rwFlag, saved, f, found, mode, isPipe⟩ := parked.pipe hanging onPipe
    obtain ⟨sameMode, samePipe⟩ := same f found
    exact ⟨some, rwFlag, saved, f, found, by rwa [sameMode], samePipe.trans isPipe⟩
  · intro hanging opening
    obtain ⟨saved, f, found, isPipe⟩ := parked.popen hanging opening
    exact ⟨saved, f, found, (same f found).2.trans isPipe⟩
  · exact parked.lock
  · exact fun hanging nr onTask f found =>
      (same f found).2.trans (parked.device hanging nr onTask f found)

theorem waits_of_hangsOn (parked : Parked s p) (pipe : (s.inode ip).iPipe = true)
    (notLock : callNr ≠ .fcntl) (hangs : hangsOn s ip callNr p = true) :
    ∃ wait : Wait, s.waits p = some (ip, wait) ∧ wait.Calls callNr := by
  simp only [hangsOn, Bool.and_eq_true, Bool.not_eq_true', beq_iff_eq, Option.any_eq_true] at hangs
  obtain ⟨⟨⟨suspended, revived⟩, call⟩, f, refers, rfl⟩ := hangs
  cases task : (s.fproc p).fpTask with
  | xpipe =>
    obtain ⟨-, rwFlag, saved, -⟩ := parked.pipe suspended task
    exact ⟨_, waits_pipe suspended revived task refers saved, call.symm.trans saved⟩
  | xpopen =>
    obtain ⟨saved, -⟩ := parked.popen suspended task
    exact ⟨_, waits_popen suspended revived task refers, by simpa [Wait.Calls, call] using saved⟩
  | xlock => exact absurd (call.symm.trans (parked.lock suspended task)) notLock
  | device nr =>
    rw [parked.device suspended nr task f refers] at pipe
    cases pipe

/-- A process that waits is found by `release` when it looks for the right call. -/
theorem hangsOn_of_waits (parked : Parked s p) (waits : s.waits p = some (ip, wait)) :
    ∃ callNr, wait.Calls callNr ∧ hangsOn s ip callNr p = true := by
  obtain ⟨suspended, revived, task | task, f, refers, rfl⟩ := waits_eq_some waits
  · obtain ⟨-, rwFlag, saved, -⟩ := parked.pipe suspended task
    rw [waits_pipe suspended revived task refers saved] at waits
    obtain rfl := congrArg Prod.snd (Option.some.inj waits)
    exact ⟨_, rfl, by simp [hangsOn, suspended, revived, refers, saved]⟩
  · obtain ⟨saved, -⟩ := parked.popen suspended task
    rw [waits_popen suspended revived task refers] at waits
    obtain rfl := congrArg Prod.snd (Option.some.inj waits)
    exact ⟨_, saved, by simp [hangsOn, suspended, revived, refers]⟩

end Entries

/-- A change that leaves alone what the suspended calls are about leaves the table of waiting
processes as it is. -/
theorem Queue.frame {s s' : State} (queue : Queue s)
    (suspended : ∀ p, (s'.fproc p).fpSuspended = (s.fproc p).fpSuspended)
    (revived : ∀ p, (s'.fproc p).fpRevived = (s.fproc p).fpRevived)
    (saved : ∀ p, (s.fproc p).fpSuspended = true → (s'.fproc p).fpTask = (s.fproc p).fpTask ∧
      (s'.fproc p).fpCall = (s.fproc p).fpCall ∧ (s'.fproc p).fpNbytes = (s.fproc p).fpNbytes ∧
      (s'.fproc p).fpFilp (s'.fproc p).fpFd = (s.fproc p).fpFilp (s.fproc p).fpFd ∧
      ∀ f, (s.fproc p).fpFilp (s.fproc p).fpFd = some f →
        (s'.filp f).filpIno = (s.filp f).filpIno ∧ (s'.filp f).filpMode = (s.filp f).filpMode ∧
          (s'.inode (s.filp f).filpIno).iPipe = (s.inode (s.filp f).filpIno).iPipe)
    (suspCount : s'.suspCount - s'.history.interrupted = s.suspCount - s.history.interrupted)
    (reviving : s'.reviving = s.reviving) : Queue s' ∧ s'.waits = s.waits := by
  have waits : s'.waits = s.waits := by
    funext p
    by_cases hangs : (s.fproc p).fpSuspended = true
    · obtain ⟨task, call, -, refers, same⟩ := saved p hangs
      exact waits_congr (suspended p) (revived p) task call refers fun f found =>
        ⟨(same f found).1, (same f found).2.1⟩
    · rw [Bool.not_eq_true] at hangs
      rw [waits_eq_none_of_not_suspended hangs,
        waits_eq_none_of_not_suspended ((suspended p).trans hangs)]
  have counted := queue.suspCount
  refine ⟨⟨fun p => ?_, ?_, ?_⟩, waits⟩
  · by_cases hangs : (s.fproc p).fpSuspended = true
    · obtain ⟨task, call, nbytes, refers, same⟩ := saved p hangs
      refine (queue.parked p).congr (suspended p) (revived p) task call nbytes refers
        fun f found => ?_
      rw [(same f found).1, (same f found).2.2]
      exact ⟨(same f found).2.1, rfl⟩
    · have idle : (s'.fproc p).fpSuspended ≠ true := by rwa [suspended]
      refine ⟨fun revives => ?_, fun still => absurd still idle, fun still => absurd still idle,
        fun still => absurd still idle, fun still => absurd still idle⟩
      rw [revived] at revives
      exact absurd ((queue.parked p).revived revives).1 hangs
  · rw [waits]
    omega
  · rw [reviving, queue.reviving]
    exact congrArg _ (References.size_congr fun p => by simp [State.revives, revived])

/-! ### Reviving -/

/-- Nothing has changed but that some processes do not wait any more. -/
structure Woken (s s' : State) : Prop where
  fpFilp : ∀ p, (s'.fproc p).fpFilp = (s.fproc p).fpFilp
  dir : ∀ p, (s'.fproc p).dir = (s.fproc p).dir
  superBlock : s'.superBlock = s.superBlock
  fpCumIoPartial : ∀ p, (s'.fproc p).fpCumIoPartial = (s.fproc p).fpCumIoPartial
  fpCall : ∀ p, (s'.fproc p).fpCall = (s.fproc p).fpCall
  fpBuffer : ∀ p, (s'.fproc p).fpBuffer = (s.fproc p).fpBuffer
  filp : s'.filp = s.filp
  inode : s'.inode = s.inode
  live : s'.live = s.live
  history : s'.history = s.history
  resting : ∀ p, (s.fproc p).fpSuspended = false → s'.fproc p = s.fproc p
  pipeCall : ∀ p, ((s'.fproc p).fpSuspended = true ∧ (s'.fproc p).fpTask = .xpipe) ↔
    ((s.fproc p).fpSuspended = true ∧ (s.fproc p).fpTask = .xpipe)
  waits : ∀ p, s'.waits p = s.waits p ∨ s'.waits p = none

namespace Woken

variable {s s' s'' : State}

theorem refl (s : State) : Woken s s :=
  ⟨fun _ => rfl, fun _ => rfl, rfl, fun _ => rfl, fun _ => rfl, fun _ => rfl, rfl, rfl, rfl, rfl,
    fun _ _ => rfl, fun _ => Iff.rfl, fun _ => .inl rfl⟩

theorem trans (first : Woken s s') (second : Woken s' s'') : Woken s s'' where
  fpFilp p := (second.fpFilp p).trans (first.fpFilp p)
  dir p := (second.dir p).trans (first.dir p)
  superBlock := second.superBlock.trans first.superBlock
  fpCumIoPartial p := (second.fpCumIoPartial p).trans (first.fpCumIoPartial p)
  fpCall p := (second.fpCall p).trans (first.fpCall p)
  fpBuffer p := (second.fpBuffer p).trans (first.fpBuffer p)
  filp := second.filp.trans first.filp
  inode := second.inode.trans first.inode
  live := second.live.trans first.live
  history := second.history.trans first.history
  resting p resting := by
    have same := first.resting p resting
    exact (second.resting p (by rwa [same])).trans same
  pipeCall p := (second.pipeCall p).trans (first.pipeCall p)
  waits p := by
    rcases second.waits p with same | none
    · rw [same]
      exact first.waits p
    · exact .inr none

section

variable (woken : Woken s s') {wanted : InodeNr × Wait}
include woken

theorem waits_eq_some {p : Slot} (waits : s'.waits p = some wanted) :
    s.waits p = some wanted := by
  rcases woken.waits p with same | none
  · rw [← same, waits]
  · rw [none] at waits
    cases waits

theorem hasEnd {rip : InodeNr} {bits : RwFlag} :
    s'.HasEnd rip bits ↔ s.HasEnd rip bits := by
  simp only [State.HasEnd, woken.filp]

theorem blocked (blocked : Blocked s wanted) :
    Blocked s' wanted := by
  obtain ⟨rip, ⟨_ | _⟩ | bits⟩ := wanted
  · exact ⟨by rw [woken.inode]; exact blocked.1, woken.hasEnd.mpr blocked.2⟩
  · exact ⟨woken.hasEnd.mpr blocked.1, fun p waits => blocked.2 p (woken.waits_eq_some waits)⟩
  · exact fun opened => blocked (woken.hasEnd.mp opened)

theorem waiting {except : InodeNr × Wait → Prop} (waiting : Waiting except s) :
    Waiting except s' :=
  fun p wanted waits covered =>
    woken.blocked (waiting p wanted (woken.waits_eq_some waits) covered)

end

end Woken

/-- What is left out of a table without those that wait for it is nothing. -/
theorem Waiting.close {except : InodeNr × Wait → Prop} (waiting : Waiting except s)
    (gone : ∀ p wanted, except wanted → s.waits p ≠ some wanted) : Waiting (fun _ => False) s :=
  fun p wanted waits _ => waiting p wanted waits fun covered => gone p wanted covered waits

/-! ### One process is revived -/

/-- What reviving makes of an entry. -/
def revivedEntry (entry : Fproc) : Fproc :=
  match entry.fpTask with
  | .xpipe | .xlock => { entry with fpRevived := true }
  | .xpopen | .device _ => { entry with fpSuspended := false }

section

variable (entry : Fproc)

@[simp] theorem revivedEntry_fpFilp :
    (revivedEntry entry).fpFilp = entry.fpFilp := by
  unfold revivedEntry
  split <;> rfl

@[simp] theorem revivedEntry_dir : (revivedEntry entry).dir = entry.dir := by
  unfold revivedEntry
  split <;> rfl

@[simp] theorem revivedEntry_fpCumIoPartial :
    (revivedEntry entry).fpCumIoPartial = entry.fpCumIoPartial := by
  unfold revivedEntry
  split <;> rfl

@[simp] theorem revivedEntry_fpBuffer :
    (revivedEntry entry).fpBuffer = entry.fpBuffer := by
  unfold revivedEntry
  split <;> rfl

@[simp] theorem revivedEntry_fpNbytes :
    (revivedEntry entry).fpNbytes = entry.fpNbytes := by
  unfold revivedEntry
  split <;> rfl

@[simp] theorem revivedEntry_fpTask :
    (revivedEntry entry).fpTask = entry.fpTask := by
  unfold revivedEntry
  split <;> rfl

@[simp] theorem revivedEntry_fpFd : (revivedEntry entry).fpFd = entry.fpFd := by
  unfold revivedEntry
  split <;> rfl

@[simp] theorem revivedEntry_fpCall :
    (revivedEntry entry).fpCall = entry.fpCall := by
  unfold revivedEntry
  split <;> rfl

end

/-- Whether a suspended process is not being revived yet. -/
def Hanging (s : State) (p : Slot) : Prop :=
  (s.fproc p).fpSuspended = true ∧ (s.fproc p).fpRevived = false

section Revive

variable {s : State} {p : Slot} {wanted : InodeNr × Wait}

theorem waits_eq_none_of_not_hanging (idle : ¬ Hanging s p) : s.waits p = none := by
  unfold State.waits
  refine if_neg fun hanging => idle ?_
  simpa [Hanging] using hanging

theorem revive_of_not_hanging (idle : ¬ Hanging s p) : revive s p = s := by
  unfold revive
  refine if_pos ?_
  by_contra hanging
  exact idle (by simpa [Hanging] using hanging)

theorem revive_fproc (hanging : Hanging s p) :
    (revive s p).fproc = update s.fproc p (revivedEntry (s.fproc p)) := by
  unfold revive
  dsimp only
  rw [hanging.1, hanging.2]
  cases task : (s.fproc p).fpTask <;> simp [revivedEntry, task]

theorem revive_frame (s : State) (p : Slot) :
    (revive s p).filp = s.filp ∧ (revive s p).inode = s.inode ∧ (revive s p).live = s.live ∧
      (revive s p).history = s.history ∧ (revive s p).suspCount = s.suspCount ∧
      (revive s p).superBlock = s.superBlock := by
  unfold revive
  dsimp only
  split
  · exact ⟨rfl, rfl, rfl, rfl, rfl, rfl⟩
  · cases (s.fproc p).fpTask <;> exact ⟨rfl, rfl, rfl, rfl, rfl, rfl⟩

theorem not_hanging_revivedEntry {entry : Fproc}
    (suspended : (revivedEntry entry).fpSuspended = true) :
    (revivedEntry entry).fpRevived = true := by
  unfold revivedEntry at suspended ⊢
  split at suspended
  · rfl
  · rfl
  · cases suspended
  · cases suspended

/-- A process that is revived does not wait any more; the others do as before. -/
theorem waits_revive (s : State) (p : Slot) : (revive s p).waits = update s.waits p none := by
  obtain ⟨filp, -⟩ := revive_frame s p
  funext q
  by_cases hanging : Hanging s p
  · have entries := revive_fproc hanging
    by_cases same : q = p
    · subst same
      rw [update_self]
      refine waits_eq_none_of_not_hanging fun still => ?_
      rw [Hanging, entries, update_self] at still
      have revived := not_hanging_revivedEntry still.1
      rw [still.2] at revived
      cases revived
    · rw [update_of_ne same]
      simp only [State.waits, entries, filp, update_of_ne same]
  · rw [revive_of_not_hanging hanging, ← waits_eq_none_of_not_hanging hanging,
      update_eq_self]

theorem revive_woken (s : State) (p : Slot) : Woken s (revive s p) := by
  by_cases hanging : Hanging s p
  · obtain ⟨filp, inode, live, history, -, superBlock⟩ := revive_frame s p
    have entries := revive_fproc hanging
    refine ⟨fun q => ?_, fun q => ?_, superBlock, fun q => ?_, fun q => ?_, fun q => ?_, filp,
      inode, live, history, fun q resting => ?_, fun q => ?_, fun q => ?_⟩
    · by_cases same : q = p <;> simp [entries, same]
    · by_cases same : q = p <;> simp [entries, same]
    · by_cases same : q = p <;> simp [entries, same]
    · by_cases same : q = p <;> simp [entries, same]
    · by_cases same : q = p <;> simp [entries, same]
    · have other : q ≠ p := by
        rintro rfl
        rw [hanging.1] at resting
        cases resting
      rw [entries, update_of_ne other]
    · by_cases same : q = p
      · subst same
        rw [entries, update_self, revivedEntry_fpTask]
        refine and_congr_left fun task => ?_
        simp [revivedEntry, task]
      · rw [entries, update_of_ne same]
    · rw [waits_revive]
      by_cases same : q = p <;> simp [same]
  · rw [revive_of_not_hanging hanging]
    exact .refl s

/-- `reviving` counts the processes that wait for a pipe or a lock and are revived. -/
theorem revive_reviving (reviving : s.reviving = References.size s.revives) :
    (revive s p).reviving = References.size (revive s p).revives := by
  by_cases hanging : Hanging s p
  · have entries := revive_fproc hanging
    have before : s.revives p = none := by simp [State.revives, hanging.2]
    have others : (revive s p).revives =
        update s.revives p (if (revivedEntry (s.fproc p)).fpRevived then some () else none) := by
      funext q
      by_cases same : q = p
      · subst same
        simp [State.revives, entries]
      · simp [State.revives, entries, same]
    have counter : (revive s p).reviving =
        s.reviving + if (revivedEntry (s.fproc p)).fpRevived then 1 else 0 := by
      cases task : (s.fproc p).fpTask <;>
        simp [revive, revivedEntry, hanging.1, hanging.2, task]
    rw [others, counter]
    cases (revivedEntry (s.fproc p)).fpRevived with
    | true =>
      rw [if_pos rfl, if_pos rfl, References.size_attach before, reviving]
      rfl
    | false =>
      rw [if_neg Bool.false_ne_true, if_neg Bool.false_ne_true, ← before, update_eq_self,
        reviving, Int.add_zero]
  · rwa [revive_of_not_hanging hanging]

theorem Parked.revive (parked : Parked s p) (q : Slot) : Parked (revive s q) p := by
  obtain ⟨filp, inode, -⟩ := revive_frame s q
  by_cases hanging : Hanging s q
  · have entries := revive_fproc hanging
    by_cases same : p = q
    · subst same
      refine ⟨fun revived => ?_, fun still task => ?_, fun still task => ?_, fun still task => ?_,
        fun still nr task => ?_⟩ <;>
      simp only [entries, filp, inode, update_self, revivedEntry_fpTask,
        revivedEntry_fpCall, revivedEntry_fpNbytes, revivedEntry_fpFilp, revivedEntry_fpFd] at *
      · unfold revivedEntry at revived ⊢
        cases task : (s.fproc p).fpTask <;> simp_all [Hanging]
      · exact parked.pipe hanging.1 task
      · exact parked.popen hanging.1 task
      · exact parked.lock hanging.1 task
      · exact parked.device hanging.1 nr task
    · have entry : (Fs.revive s q).fproc p = s.fproc p := by
        rw [entries, update_of_ne same]
      refine parked.congr ?_ ?_ ?_ ?_ ?_ ?_ fun f _ => ?_ <;>
        simp only [entry, filp, inode, and_self]
  · rwa [revive_of_not_hanging hanging]

theorem Queue.revive (queue : Queue s) (idle : s.waits p = none) : Queue (revive s p) := by
  obtain ⟨-, -, -, history, suspCount, -⟩ := revive_frame s p
  refine ⟨fun q => (queue.parked q).revive p, ?_, revive_reviving queue.reviving⟩
  rw [waits_revive, ← idle, update_eq_self, suspCount, history]
  exact queue.suspCount

/-! ### Releasing processes -/

/-- The body of the loop in `release`. -/
def wake (s : State) (rp : Slot) : State :=
  { Fs.revive s rp with suspCount := (Fs.revive s rp).suspCount - 1 }

theorem wake_woken (s : State) (p : Slot) : Woken s (wake s p) := by
  have woken := revive_woken s p
  exact ⟨woken.fpFilp, woken.dir, woken.superBlock, woken.fpCumIoPartial, woken.fpCall,
    woken.fpBuffer, woken.filp, woken.inode, woken.live, woken.history, woken.resting,
    woken.pipeCall, woken.waits⟩

theorem Queue.wake (queue : Queue s) (waits : s.waits p = some wanted) : Queue (wake s p) := by
  obtain ⟨-, -, -, history, suspCount, -⟩ := revive_frame s p
  refine ⟨fun q => ?_, ?_, revive_reviving queue.reviving⟩
  · obtain ⟨revived, pipe, popen, lock, device⟩ := (queue.parked q).revive p
    exact ⟨revived, pipe, popen, lock, device⟩
  · have smaller := @References.size_detach _ _ _ s.waits p _ (by rw [waits]; rfl)
    have table : (Fs.wake s p).waits = update s.waits p none := waits_revive s p
    have counted := queue.suspCount
    rw [table]
    change (Fs.revive s p).suspCount - 1 = _ + ((Fs.revive s p).history.interrupted : Int)
    rw [suspCount, history]
    omega

end Revive

section Release

variable {s : State} {ip : InodeNr} {callNr : CallNr} {count : Int} {p : Slot}

theorem Hanging.of_hangsOn (hangs : hangsOn s ip callNr p = true) : Hanging s p := by
  simp only [hangsOn, Bool.and_eq_true, Bool.not_eq_true'] at hangs
  exact hangs.1.1

theorem hangsOn_wake (hanging : Hanging s p) (q : Slot) :
    hangsOn (wake s p) ip callNr q = (hangsOn s ip callNr q && q != p) := by
  have entries : (wake s p).fproc = update s.fproc p (revivedEntry (s.fproc p)) :=
    revive_fproc hanging
  have filp : (wake s p).filp = s.filp := (revive_frame s p).1
  by_cases same : q = p
  · subst same
    rw [bne_self_eq_false, Bool.and_false]
    by_contra still
    have awake := Hanging.of_hangsOn (Bool.not_eq_false _ ▸ still)
    rw [Hanging, entries, update_self] at awake
    rw [not_hanging_revivedEntry awake.1] at awake
    exact Bool.noConfusion awake.2
  · simp only [hangsOn, entries, filp, update_of_ne same, bne_iff_ne.mpr
      same, Bool.and_true]

theorem releaseFrom_induction {P : State → Prop}
    (woken : ∀ s p, P s → hangsOn s ip callNr p = true → P (wake s p)) (slots : List Slot)
    (holds : P s) : P (releaseFrom ip callNr slots count s) := by
  induction slots generalizing s count with
  | nil => exact holds
  | cons rp slots inductionHypothesis =>
    rw [releaseFrom]
    split
    case isTrue hangs =>
      dsimp only
      split
      · exact woken s rp holds hangs
      · exact inductionHypothesis (woken s rp holds hangs)
    case isFalse => exact inductionHypothesis holds

/-- Whoever hangs on a pipe after the search did so before, for whatever call. -/
theorem releaseFrom_hangsOn (slots : List Slot) {other : CallNr}
    (still : hangsOn (releaseFrom ip callNr slots count s) ip other p = true) :
    hangsOn s ip other p = true := by
  have kept : ∀ s' q, (hangsOn s' ip other p = true → hangsOn s ip other p = true) →
      hangsOn s' ip callNr q = true → hangsOn (wake s' q) ip other p = true →
        hangsOn s ip other p = true := by
    intro s' q before hangs still
    rw [hangsOn_wake (.of_hangsOn hangs), Bool.and_eq_true] at still
    exact before still.1
  exact releaseFrom_induction kept slots id still

theorem releaseFrom_none {slots : List Slot} (nodup : slots.Nodup)
    (enough : ((slots.filter (hangsOn s ip callNr)).length : Int) ≤ count) (member : p ∈ slots) :
    hangsOn (releaseFrom ip callNr slots count s) ip callNr p = false := by
  induction slots generalizing s count with
  | nil => cases member
  | cons rp slots inductionHypothesis =>
    obtain ⟨fresh, nodup⟩ := List.nodup_cons.mp nodup
    rw [releaseFrom]
    split
    case isTrue hangs =>
      rw [List.filter_cons_of_pos hangs, List.length_cons] at enough
      have others : slots.filter (hangsOn (wake s rp) ip callNr) =
          slots.filter (hangsOn s ip callNr) := by
        refine List.filter_congr fun q inSlots => ?_
        have other : q ≠ rp := fun same => fresh (same ▸ inSlots)
        rw [hangsOn_wake (.of_hangsOn hangs), bne_iff_ne.mpr other, Bool.and_true]
      have awake : hangsOn (wake s rp) ip callNr rp = false := by
        rw [hangsOn_wake (.of_hangsOn hangs), bne_self_eq_false, Bool.and_false]
      split
      case isTrue last =>
        change hangsOn (wake s rp) ip callNr p = false
        rcases List.mem_cons.mp member with rfl | inSlots
        · exact awake
        · have empty : slots.filter (hangsOn s ip callNr) = [] :=
            List.length_eq_zero_iff.mp (by omega)
          rw [← others] at empty
          by_contra still
          exact List.filter_eq_nil_iff.mp empty p inSlots (Bool.not_eq_false _ ▸ still)
      case isFalse more =>
        change hangsOn (releaseFrom ip callNr slots (count - 1) (wake s rp)) ip callNr p = false
        rcases List.mem_cons.mp member with rfl | inSlots
        · by_contra still
          rw [releaseFrom_hangsOn slots (Bool.not_eq_false _ ▸ still)] at awake
          cases awake
        · exact inductionHypothesis nodup (by rw [others]; omega) inSlots
    case isFalse awake =>
      rw [List.filter_cons_of_neg awake] at enough
      rcases List.mem_cons.mp member with rfl | inSlots
      · by_contra still
        exact awake (releaseFrom_hangsOn slots (Bool.not_eq_false _ ▸ still))
      · exact inductionHypothesis nodup enough inSlots

section

variable (queue : Queue s) (pipe : (s.inode ip).iPipe = true)
include queue pipe

/-- What `release` does: it wakes processes that hang on the pipe, and all of them if `count` is
not less than the number of processes that wait. -/
theorem release_woken (notLock : callNr ≠ .fcntl) (count : Int) :
    Queue (release s ip callNr count) ∧ Woken s (release s ip callNr count) := by
  have kept : ∀ s' p, Queue s' ∧ Woken s s' → hangsOn s' ip callNr p = true →
      Queue (wake s' p) ∧ Woken s (wake s' p) := by
    rintro s' p ⟨queue', woken⟩ hangs
    have pipe' : (s'.inode ip).iPipe = true := by rwa [woken.inode]
    obtain ⟨wait, waits, -⟩ := waits_of_hangsOn (queue'.parked p) pipe' notLock hangs
    exact ⟨queue'.wake waits, woken.trans (wake_woken s' p)⟩
  exact releaseFrom_induction kept _ ⟨queue, .refl s⟩

theorem release_none (notLock : callNr ≠ .fcntl) (enough : (References.size s.waits : Int) ≤ count)
    (p : Slot) :
    hangsOn (release s ip callNr count) ip callNr p = false := by
  refine releaseFrom_none (List.nodup_finRange _) (le_trans ?_ enough) (List.mem_finRange p)
  have fewer : (Finset.univ.filter fun q => hangsOn s ip callNr q = true).card ≤
      References.size s.waits := by
    refine References.card_le_size fun q hangs => ?_
    obtain ⟨wait, waits, -⟩ := waits_of_hangsOn (queue.parked q) pipe notLock hangs
    rw [waits]
    rfl
  rw [← List.toFinset_card_of_nodup ((List.nodup_finRange _).filter _)]
  refine Int.ofNat_le.mpr (le_trans (Finset.card_le_card fun q member => ?_) fewer)
  simpa using member

/-- After the release of all readers, or of all writers, none of them waits. -/
theorem release_transfer (rwFlag : RwFlag) (enough : (References.size s.waits : Int) ≤ count)
    (p : Slot) :
    (release s ip rwFlag.call count).waits p ≠ some (ip, .transfer rwFlag) := by
  intro waits
  have notLock : rwFlag.call ≠ .fcntl := by cases rwFlag <;> simp [RwFlag.call]
  have after := (release_woken queue pipe notLock count).1
  obtain ⟨callNr, calls, hangs⟩ := hangsOn_of_waits (after.parked p) waits
  obtain rfl : callNr = rwFlag.call := calls
  rw [release_none queue pipe notLock enough] at hangs
  cases hangs

end

theorem Queue.size_le (queue : Queue s) : (References.size s.waits : Int) ≤ s.suspCount := by
  have counted := queue.suspCount
  omega

/-- The two releases of `pipe_open` leave no process that waits for the opening of the FIFO. -/
theorem release_opening (queue : Queue s) (pipe : (s.inode ip).iPipe = true) :
    let s₁ := release s ip .open s.suspCount
    let s₂ := release s₁ ip .creat s₁.suspCount
    (Queue s₂ ∧ Woken s s₂) ∧ ∀ p bits, s₂.waits p ≠ some (ip, .opening bits) := by
  intro s₁ s₂
  obtain ⟨queue₁, woken₁⟩ := @release_woken _ _ .open queue pipe (by simp) s.suspCount
  have pipe₁ : (s₁.inode ip).iPipe = true := by rwa [woken₁.inode]
  obtain ⟨queue₂, woken₂⟩ := @release_woken _ _ .creat queue₁ pipe₁ (by simp) s₁.suspCount
  refine ⟨⟨queue₂, woken₁.trans woken₂⟩, fun p bits waits => ?_⟩
  obtain ⟨callNr, calls, hangs⟩ := hangsOn_of_waits (queue₂.parked p) waits
  rcases calls with rfl | rfl
  · have noneOpen := @release_none _ _ .open _ queue pipe (by simp) queue.size_le p
    rw [releaseFrom_hangsOn _ hangs] at noneOpen
    cases noneOpen
  · have noneCreat := @release_none _ _ .creat _ queue₁ pipe₁ (by simp) queue₁.size_le p
    rw [hangs] at noneCreat
    cases noneCreat

theorem lockRevive_woken (queue : Queue s) : Queue (lockRevive s) ∧ Woken s (lockRevive s) := by
  refine List.foldlRecOn (motive := fun s' => Queue s' ∧ Woken s s') _ _ ⟨queue, .refl s⟩
    fun s' kept fptr _ => ?_
  split
  case isTrue locked =>
    rw [Bool.and_eq_true, decide_eq_true_iff] at locked
    have idle : s'.waits fptr = none := by simp [State.waits, locked.2]
    exact ⟨kept.1.revive idle, kept.2.trans (revive_woken s' fptr)⟩
  case isFalse => exact kept

end Release

/-! ### Suspending -/

section Suspend

variable {s : State} {p : Slot} {f : FilpNr} {fd : Fd} {buffer : Nat → UInt8} {nbytes : Nat}
  {task : Task} {fsCall : CallNr}

theorem suspend_fproc (s : State) (p : Slot) (task : Task) (fd : Fd) (fsCall : CallNr)
    (buffer : Nat → UInt8) (nbytes : Nat) :
    (suspend s p task fd fsCall buffer nbytes).fproc = update s.fproc p
      { s.fproc p with
        fpSuspended := true, fpFd := fd, fpCall := fsCall, fpTask := task, fpBuffer := buffer,
        fpNbytes := nbytes } := by
  unfold suspend
  split <;> rfl

theorem suspend_frame (s : State) (p : Slot) (task : Task) (fd : Fd) (fsCall : CallNr)
    (buffer : Nat → UInt8) (nbytes : Nat) :
    let s' := suspend s p task fd fsCall buffer nbytes
    s'.filp = s.filp ∧ s'.inode = s.inode ∧ s'.live = s.live ∧ s'.history = s.history ∧
      s'.reviving = s.reviving ∧ s'.superBlock = s.superBlock ∧
      s'.suspCount = s.suspCount + if task = .xpipe ∨ task = .xpopen then 1 else 0 := by
  unfold suspend
  split <;> simp

theorem waits_suspend (s : State) (p : Slot) (task : Task) (fd : Fd) (fsCall : CallNr)
    (buffer : Nat → UInt8) (nbytes : Nat) :
    (suspend s p task fd fsCall buffer nbytes).waits =
      update s.waits p ((suspend s p task fd fsCall buffer nbytes).waits p) := by
  obtain ⟨filp, -⟩ := suspend_frame s p task fd fsCall buffer nbytes
  have entries := suspend_fproc s p task fd fsCall buffer nbytes
  funext q
  by_cases same : q = p
  · subst same
    rw [update_self]
  · rw [update_of_ne same]
    simp only [State.waits, entries, filp, update_of_ne same]

/-- Suspending a process that can make a call keeps the counters right, if what is saved fits. -/
theorem Queue.suspend (queue : Queue s) (resting : (s.fproc p).fpSuspended = false)
    (parked : Parked (Fs.suspend s p task fd fsCall buffer nbytes) p)
    (counted : ((Fs.suspend s p task fd fsCall buffer nbytes).waits p).isSome =
      decide (task = .xpipe ∨ task = .xpopen)) :
    Queue (Fs.suspend s p task fd fsCall buffer nbytes) := by
  obtain ⟨filp, inode, -, history, reviving, -, suspCount⟩ :=
    suspend_frame s p task fd fsCall buffer nbytes
  have entries := suspend_fproc s p task fd fsCall buffer nbytes
  have others : ∀ {q}, q ≠ p →
      (Fs.suspend s p task fd fsCall buffer nbytes).fproc q = s.fproc q := by
    intro q other
    rw [entries, update_of_ne other]
  refine ⟨fun q => ?_, ?_, ?_⟩
  · by_cases same : q = p
    · exact same ▸ parked
    · refine (queue.parked q).congr ?_ ?_ ?_ ?_ ?_ ?_ fun g _ => ?_ <;>
        simp only [others same, filp, inode, and_self]
  · have before : s.waits p = none := waits_eq_none_of_not_suspended resting
    rw [suspCount, history, queue.suspCount, waits_suspend]
    by_cases pipe : task = .xpipe ∨ task = .xpopen
    · rw [decide_eq_true pipe] at counted
      obtain ⟨wanted, waits⟩ := Option.isSome_iff_exists.mp counted
      rw [waits, if_pos pipe, References.size_attach before]
      omega
    · rw [decide_eq_false pipe, Option.isSome_eq_false_iff, Option.isNone_iff_eq_none] at counted
      rw [counted, if_neg pipe, ← before, update_eq_self, Int.add_zero]
  · rw [reviving, queue.reviving]
    refine congrArg _ (References.size_congr fun q => ?_)
    by_cases same : q = p
    · subst same
      simp [State.revives, entries]
    · simp [State.revives, others same]

end Suspend

end Minix.Fs
