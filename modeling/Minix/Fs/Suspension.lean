/-
This file proves that reading from and writing to pipes keeps the invariant of the file system:
the descriptors are counted, the pipes are in order, the counters count, and no process waits
for something that is the case already.

`pipe_check` ends the call, suspends it or lets it go on (`Checked`). Each outcome wakes at most
processes that wait on the same pipe; what has to hold for the transfer is said with the outcome
that lets the call go on.
-/

import Minix.Fs.Main
import Minix.Fs.Transfer

namespace Minix.Fs

open Function (update update_of_ne update_self update_eq_self)

variable {strict : Prop} {f : FilpNr} {s : State} {fd : Fd}

/-! ### The invariant -/

/-- The tables are consistent. What a suspended write has not moved yet is what remains of the
buffer that the process gave to the call. -/
structure Sound (strict : Prop) (s : State) : Prop where
  ends : s.files.Ends strict
  queue : Queue s
  sources : ∀ p, (s.fproc p).fpSuspended = true ∧ (s.fproc p).fpTask = .xpipe →
    (s.fproc p).fpCall = .write →
      (s.fproc p).fpBuffer = fun i => s.history.source p (s.history.moved p + i)

/-- The tables are consistent, and if everybody is `strict` about the ends of FIFOs, no process
waits in vain. -/
structure Invariant (strict : Prop) (s : State) : Prop extends Sound strict s where
  waiting : strict → Waiting (fun _ => False) s

theorem Sound.opened (sound : Sound strict s) {q : Slot} (refers : (s.fproc q).fpFilp fd = some f) :
    (s.filp f).filpCount ≠ 0 :=
  sound.ends.refers_open (x := (q, fd)) refers

theorem Sound.held (sound : Sound strict s) {q : Slot} (refers : (s.fproc q).fpFilp fd = some f) :
    s.files.holds f = some (s.filp f).filpIno :=
  Files.holds_eq_some.mpr ⟨sound.opened refers, rfl⟩

/-- A process is in the same pipe call as before, if in any. -/
structure SameCall (q : Slot) (s s' : State) : Prop where
  fpCumIoPartial : (s'.fproc q).fpCumIoPartial = (s.fproc q).fpCumIoPartial
  pipeCall : ((s'.fproc q).fpSuspended = true ∧ (s'.fproc q).fpTask = .xpipe) ↔
    ((s.fproc q).fpSuspended = true ∧ (s.fproc q).fpTask = .xpipe)
  saved : (s.fproc q).fpSuspended = true ∧ (s.fproc q).fpTask = .xpipe →
    (s'.fproc q).fpCall = (s.fproc q).fpCall ∧ (s'.fproc q).fpBuffer = (s.fproc q).fpBuffer
  moved : s'.history.moved q = s.history.moved q

/-- While `p` makes a call, the calls of the others stay as they are. -/
structure Apart (p : Slot) (s s' : State) : Prop where
  live : s'.live = s.live
  others : ∀ q, q ≠ p → (s.fproc q).fpSuspended = false → s'.fproc q = s.fproc q
  calls : ∀ q, q ≠ p → SameCall q s s'
  source : s'.history.source = s.history.source
  replies : s'.history.replies = s.history.replies

/-- While `p` works on something else than pipes, all pipe calls stay as they are. -/
structure Undisturbed (p : Slot) (s s' : State) : Prop extends Apart p s s' where
  own : SameCall p s s'

section Calls

variable {p q : Slot} {s s' s'' : State}

theorem SameCall.refl (q : Slot) (s : State) : SameCall q s s :=
  ⟨rfl, Iff.rfl, fun _ => ⟨rfl, rfl⟩, rfl⟩

theorem SameCall.of_entry (entry : s'.fproc q = s.fproc q)
    (moved : s'.history.moved q = s.history.moved q) : SameCall q s s' := by
  refine ⟨?_, ?_, ?_, moved⟩ <;> rw [entry]
  exact fun _ => ⟨rfl, rfl⟩

theorem SameCall.trans (first : SameCall q s s') (second : SameCall q s' s'') :
    SameCall q s s'' where
  fpCumIoPartial := second.fpCumIoPartial.trans first.fpCumIoPartial
  pipeCall := second.pipeCall.trans first.pipeCall
  saved inCall := by
    obtain ⟨call, buffer⟩ := second.saved (first.pipeCall.mpr inCall)
    rw [call, buffer]
    exact first.saved inCall
  moved := second.moved.trans first.moved

theorem Apart.trans (first : Apart p s s') (second : Apart p s' s'') : Apart p s s'' where
  live := second.live.trans first.live
  others q other resting := by
    have same := first.others q other resting
    exact (second.others q other (by rwa [same])).trans same
  calls q other := (first.calls q other).trans (second.calls q other)
  source := second.source.trans first.source
  replies := second.replies.trans first.replies

theorem Apart.of_update {entry : Fproc} (fproc : s'.fproc = update s.fproc p entry)
    (live : s'.live = s.live) (source : s'.history.source = s.history.source)
    (moved : ∀ q, q ≠ p → s'.history.moved q = s.history.moved q)
    (replies : s'.history.replies = s.history.replies) : Apart p s s' := by
  have theirs : ∀ q, q ≠ p → s'.fproc q = s.fproc q := fun q other => by
    rw [fproc, update_of_ne other]
  exact ⟨live, fun q other _ => theirs q other,
    fun q other => .of_entry (theirs q other) (moved q other), source, replies⟩

theorem Apart.modifyFproc (s : State) (p : Slot) (change : Fproc → Fproc) :
    Apart p s (s.modifyFproc p change) :=
  .of_update rfl rfl rfl (fun _ _ => rfl) rfl

namespace Undisturbed

theorem refl (p : Slot) (s : State) : Undisturbed p s s :=
  ⟨⟨rfl, fun _ _ _ => rfl, fun q _ => .refl q s, rfl, rfl⟩, .refl p s⟩

theorem trans (first : Undisturbed p s s') (second : Undisturbed p s' s'') :
    Undisturbed p s s'' :=
  ⟨first.toApart.trans second.toApart, first.own.trans second.own⟩

theorem sameCall (undisturbed : Undisturbed p s s') (q : Slot) : SameCall q s s' := by
  by_cases same : q = p
  · rw [same]
    exact undisturbed.own
  · exact undisturbed.calls q same

theorem sources (undisturbed : Undisturbed p s s') (sound : Sound strict s) (q : Slot)
    (inCall : (s'.fproc q).fpSuspended = true ∧ (s'.fproc q).fpTask = .xpipe)
    (call : (s'.fproc q).fpCall = .write) :
    (s'.fproc q).fpBuffer = fun i => s'.history.source q (s'.history.moved q + i) := by
  obtain ⟨-, pipeCall, saved, moved⟩ := undisturbed.sameCall q
  have before := pipeCall.mp inCall
  obtain ⟨sameCall, sameBuffer⟩ := saved before
  rw [sameCall] at call
  rw [sameBuffer, undisturbed.source, moved]
  exact sound.sources q before call

/-- The work of a process that is not in a pipe call changes its entry, the files and nothing
else. -/
theorem of_update {entry : Fproc} (fproc : s'.fproc = update s.fproc p entry)
    (resting : ¬ ((s.fproc p).fpSuspended = true ∧ (s.fproc p).fpTask = .xpipe))
    (rests : ¬ (entry.fpSuspended = true ∧ entry.fpTask = .xpipe))
    (partial' : entry.fpCumIoPartial = (s.fproc p).fpCumIoPartial) (live : s'.live = s.live)
    (source : s'.history.source = s.history.source) (moved : s'.history.moved = s.history.moved)
    (replies : s'.history.replies = s.history.replies) : Undisturbed p s s' := by
  refine ⟨.of_update fproc live source (fun q _ => congrFun moved q) replies, ?_⟩
  refine ⟨?_, ?_, fun inCall => absurd inCall resting, congrFun moved p⟩ <;>
    rw [fproc, update_self]
  · exact partial'
  · exact iff_of_false rests resting

end Undisturbed

end Calls

section Woken

variable {s s' : State}

theorem Woken.files (woken : Woken s s') : s'.files = s.files := by
  have keeps : s'.keeps = s.keeps := by
    funext keeper
    cases keeper <;> simp only [State.keeps, woken.dir, woken.superBlock]
  simp only [State.files, keeps, woken.fpFilp, woken.filp, woken.inode, woken.history]

theorem Woken.sameCall (woken : Woken s s') (q : Slot) : SameCall q s s' :=
  ⟨woken.fpCumIoPartial q, woken.pipeCall q, fun _ => ⟨woken.fpCall q, woken.fpBuffer q⟩,
    by rw [woken.history]⟩

theorem Woken.undisturbed (woken : Woken s s') (p : Slot) : Undisturbed p s s' :=
  ⟨⟨woken.live, fun q _ resting => woken.resting q resting, fun q _ => woken.sameCall q,
    by rw [woken.history], by rw [woken.history]⟩, woken.sameCall p⟩

theorem Sound.woken (sound : Sound strict s) (woken : Woken s s') (queue : Queue s') :
    Sound strict s' :=
  ⟨by rw [woken.files]; exact sound.ends, queue, (woken.undisturbed 0).sources sound⟩

theorem Invariant.woken (inv : Invariant strict s) (woken : Woken s s') (queue : Queue s') :
    Invariant strict s' :=
  ⟨inv.toSound.woken woken queue, fun allowed => woken.waiting (inv.waiting allowed)⟩

end Woken

/-! ### Work on the files -/

section Frame

variable {s s' : State} {p : Slot} {entry : Fproc}

/-- With no more processes waiting the others wait for what they did, if whoever is concerned by
an end that has gone or come does not wait any more. -/
theorem Waiting.of_fewer (waiting : Waiting (fun _ => False) s)
    (fewer : ∀ q wanted, s'.waits q = some wanted → s.waits q = some wanted)
    (sizes : ∀ rip q, s'.waits q = some (rip, .transfer .reading) →
      (s'.inode rip).iSize = (s.inode rip).iSize)
    (closed : ∀ rip bits, s.HasEnd rip bits →
      s'.HasEnd rip bits ∨ ∀ q, s'.waits q ≠ some (rip, .transfer bits.other))
    (opened : ∀ rip bits, s'.HasEnd rip bits →
      s.HasEnd rip bits ∨ ∀ q, s'.waits q ≠ some (rip, .opening bits.other)) :
    Waiting (fun _ => False) s' := by
  intro q wanted waits _
  have before := waiting q wanted (fewer q wanted waits) id
  obtain ⟨rip, ⟨_ | _⟩ | bits⟩ := wanted
  · refine ⟨(sizes rip q waits).trans before.1, ?_⟩
    exact (closed rip .writing before.2).resolve_right fun none => none q waits
  · refine ⟨(closed rip .reading before.1).resolve_right fun none => none q waits,
      fun r reads => before.2 r (fewer r _ reads)⟩
  · intro opens
    rcases opened rip bits.other opens with already | none
    · exact before already
    · refine none q ?_
      cases bits <;> exact waits

theorem Sound.waits_held (sound : Sound strict s) {q : Slot} {rip : InodeNr} {wait : Wait}
    (waits : s.waits q = some (rip, wait)) :
    (s.fproc q).fpSuspended = true ∧ (s.inode rip).iPipe = true ∧
      ∃ f, (s.fproc q).fpFilp (s.fproc q).fpFd = some f ∧ s.files.holds f = some rip := by
  obtain ⟨suspended, -, task, f, refers, rfl⟩ := waits_eq_some waits
  have opened : (s.filp f).filpCount ≠ 0 := sound.ends.refers_open (x := (q, _)) refers
  refine ⟨suspended, ?_, f, refers, Files.holds_eq_some.mpr ⟨opened, rfl⟩⟩
  rcases task with task | task
  · obtain ⟨-, -, -, g, same, -, isPipe⟩ := (sound.queue.parked q).pipe suspended task
    rw [refers] at same
    rwa [Option.some.inj same]
  · obtain ⟨-, g, same, isPipe⟩ := (sound.queue.parked q).popen suspended task
    rw [refers] at same
    rwa [Option.some.inj same]

/-- The work of a process on something else than pipes keeps the invariant, if it keeps the
tables consistent and makes nobody wait. -/
theorem Invariant.of_fewer (inv : Invariant strict s) (undisturbed : Undisturbed p s s')
    (ends : s'.files.Ends strict) (queue : Queue s')
    (fewer : ∀ q wanted, s'.waits q = some wanted → s.waits q = some wanted)
    (sizes : strict → ∀ rip q, s'.waits q = some (rip, .transfer .reading) →
      (s'.inode rip).iSize = (s.inode rip).iSize)
    (closed : strict → ∀ rip bits, s.HasEnd rip bits →
      s'.HasEnd rip bits ∨ ∀ q, s'.waits q ≠ some (rip, .transfer bits.other))
    (opened : strict → ∀ rip bits, s'.HasEnd rip bits →
      s.HasEnd rip bits ∨ ∀ q, s'.waits q ≠ some (rip, .opening bits.other)) :
        Invariant strict s' :=
  ⟨⟨ends, queue, undisturbed.sources inv.toSound⟩,
    fun allowed => (inv.waiting allowed).of_fewer fewer (sizes allowed) (closed allowed)
      (opened allowed)⟩

/-- The table of waiting processes after the work of a process that is not suspended, if the filps
of the others are still for the same ends of pipes. -/
theorem Queue.work (queue : Queue s) (fproc : s'.fproc = update s.fproc p entry)
    (resting : (s.fproc p).fpSuspended = false) (rests : entry.fpSuspended = false)
    (calm : entry.fpRevived = (s.fproc p).fpRevived) (suspCount : s'.suspCount = s.suspCount)
    (reviving : s'.reviving = s.reviving)
    (interrupted : s'.history.interrupted = s.history.interrupted)
    (filps : ∀ q f, q ≠ p → (s.fproc q).fpFilp (s.fproc q).fpFd = some f →
      (s'.filp f).filpIno = (s.filp f).filpIno ∧ (s'.filp f).filpMode = (s.filp f).filpMode ∧
      (s'.inode (s.filp f).filpIno).iPipe = (s.inode (s.filp f).filpIno).iPipe) :
    Queue s' ∧ s'.waits = s.waits := by
  have mine : s'.fproc p = entry := by rw [fproc, update_self]
  have theirs : ∀ q, q ≠ p → s'.fproc q = s.fproc q := fun q other => by
    rw [fproc, update_of_ne other]
  have busy : ∀ q, (s.fproc q).fpSuspended = true → q ≠ p := by
    rintro q suspended rfl
    rw [resting] at suspended
    cases suspended
  refine queue.frame (fun q => ?_) (fun q => ?_) (fun q suspended => ?_) ?_ reviving
  · by_cases same : q = p
    · rw [same, mine, rests, resting]
    · rw [theirs q same]
  · by_cases same : q = p
    · rw [same, mine, calm]
    · rw [theirs q same]
  · rw [theirs q (busy q suspended)]
    exact ⟨rfl, rfl, rfl, rfl, fun f refers => filps q f (busy q suspended) refers⟩
  · rw [suspCount, interrupted]

theorem Queue.calm (queue : Queue s) (resting : (s.fproc p).fpSuspended = false) :
    (s.fproc p).fpRevived = false := by
  by_contra revives
  rw [Bool.not_eq_false] at revives
  have suspended := ((queue.parked p).revived revives).1
  rw [resting] at suspended
  cases suspended

theorem Invariant.frame (inv : Invariant strict s) (fproc : s'.fproc = update s.fproc p entry)
    (resting : (s.fproc p).fpSuspended = false) (rests : entry.fpSuspended = false)
    (calm : entry.fpRevived = (s.fproc p).fpRevived) (suspCount : s'.suspCount = s.suspCount)
    (reviving : s'.reviving = s.reviving)
    (interrupted : s'.history.interrupted = s.history.interrupted)
    (source : s'.history.source = s.history.source)
    (moved : ∀ q, q ≠ p → s'.history.moved q = s.history.moved q) (ends : s'.files.Ends strict)
    (filps : ∀ q f, q ≠ p → (s.fproc q).fpFilp (s.fproc q).fpFd = some f →
      (s'.filp f).filpIno = (s.filp f).filpIno ∧ (s'.filp f).filpMode = (s.filp f).filpMode ∧
      (s'.inode (s.filp f).filpIno).iPipe = (s.inode (s.filp f).filpIno).iPipe)
    (sizes : strict → ∀ rip q, s.waits q = some (rip, .transfer .reading) →
      (s'.inode rip).iSize = (s.inode rip).iSize)
    (closed : strict → ∀ rip bits, s.HasEnd rip bits →
      s'.HasEnd rip bits ∨ ∀ q, s.waits q ≠ some (rip, .transfer bits.other))
    (opened : strict → ∀ rip bits, s'.HasEnd rip bits →
      s.HasEnd rip bits ∨ ∀ q, s.waits q ≠ some (rip, .opening bits.other)) :
    Invariant strict s' ∧ s'.waits = s.waits := by
  obtain ⟨queue, waits⟩ := inv.queue.work fproc resting rests calm suspCount reviving interrupted
    filps
  refine ⟨⟨⟨ends, queue, fun q inCall call => ?_⟩, fun allowed => ?_⟩, waits⟩
  · have other : q ≠ p := by
      rintro rfl
      rw [fproc, update_self, rests] at inCall
      cases inCall.1
    rw [fproc, update_of_ne other] at inCall call ⊢
    rw [source, moved q other]
    exact inv.sources q inCall call
  · refine (inv.waiting allowed).of_fewer (fun q wanted waits' => ?_) ?_ ?_ ?_ <;> rw [waits] at *
    · exact waits'
    · exact sizes allowed
    · exact closed allowed
    · exact opened allowed

end Frame

/-! ### Suspending on a pipe -/

/-- A process calls `read` or `write` with a descriptor for that end of a pipe. -/
structure PipeCall (s : State) (p : Slot) (fd : Fd) (f : FilpNr) (rip : InodeNr) (rwFlag : RwFlag) :
    Prop where
  ready : (s.fproc p).fpSuspended = false
  refers : (s.fproc p).fpFilp fd = some f
  ino : (s.filp f).filpIno = rip
  mode : (s.filp f).filpMode rwFlag = true
  isPipe : (s.inode rip).iPipe = true

theorem PipeCall.opened {p : Slot} {rip : InodeNr} {rwFlag : RwFlag}
    (call : PipeCall s p fd f rip rwFlag) (ends : s.files.Ends strict) :
    s.files.Open f rip rwFlag :=
  ⟨Files.holds_eq_some.mpr ⟨ends.refers_open (x := (p, fd)) call.refers, call.ino⟩, call.mode⟩

section Suspend

variable {s : State} {p : Slot} {f : FilpNr} {fd : Fd} {rip : InodeNr} {rwFlag : RwFlag}
  {buffer : Nat → UInt8} {nbytes : Nat}

theorem suspend_files (s : State) (p : Slot) (task : Task) (fd : Fd) (fsCall : CallNr)
    (buffer : Nat → UInt8) (nbytes : Nat) :
    (suspend s p task fd fsCall buffer nbytes).files = s.files := by
  obtain ⟨filp, inode, -, history, -, superBlock, -⟩ :=
    suspend_frame s p task fd fsCall buffer nbytes
  have entries := suspend_fproc s p task fd fsCall buffer nbytes
  have keeps : (suspend s p task fd fsCall buffer nbytes).keeps = s.keeps := by
    funext keeper
    cases keeper with
    | dir q dir =>
      simp only [State.keeps, entries]
      by_cases same : q = p
      · subst same
        rw [update_self]
        cases dir <;> rfl
      · rw [update_of_ne same]
    | mounted | root | hand => simp only [State.keeps, superBlock]
  have refers : (suspend s p task fd fsCall buffer nbytes).files.refers = s.files.refers := by
    funext x
    simp only [State.files, entries]
    by_cases same : x.1 = p
    · rw [same, update_self]
    · rw [update_of_ne same]
  simp only [State.files] at refers ⊢
  rw [keeps, filp, inode, history, refers]

/-- Suspending leaves the tables consistent if the call that is saved fits and continues the
buffer of the process. -/
theorem Sound.suspend (sound : Sound strict s) {task : Task} {fsCall : CallNr}
    (queue : Queue (Fs.suspend s p task fd fsCall buffer nbytes))
    (source : task = .xpipe → fsCall = .write →
      buffer = fun i => s.history.source p (s.history.moved p + i)) :
    Sound strict (Fs.suspend s p task fd fsCall buffer nbytes) := by
  obtain ⟨-, -, -, history, -⟩ := suspend_frame s p task fd fsCall buffer nbytes
  have entries := suspend_fproc s p task fd fsCall buffer nbytes
  refine ⟨by rw [suspend_files]; exact sound.ends, queue, fun q inCall call => ?_⟩
  rw [history]
  rw [entries] at inCall call ⊢
  by_cases same : q = p
  · subst same
    rw [update_self] at inCall call ⊢
    exact source inCall.2 call
  · rw [update_of_ne same] at inCall call ⊢
    exact sound.sources q inCall call

/-- A process that is suspended on a pipe waits to read or to write there. -/
theorem suspend_pipe (sound : Sound strict s) (call : PipeCall s p fd f rip rwFlag)
    (some : 0 < nbytes)
    (source : rwFlag = .writing →
      buffer = fun i => s.history.source p (s.history.moved p + i)) :
    let s' := suspend s p .xpipe fd rwFlag.call buffer nbytes
    Sound strict s' ∧ s'.waits = update s.waits p (.some (rip, .transfer rwFlag)) := by
  intro s'
  obtain ⟨filp, inode, -⟩ := suspend_frame s p .xpipe fd rwFlag.call buffer nbytes
  have entry : s'.fproc p = { s.fproc p with
      fpSuspended := true, fpFd := fd, fpCall := rwFlag.call, fpTask := .xpipe,
      fpBuffer := buffer, fpNbytes := nbytes } := by
    rw [suspend_fproc, update_self]
  have calm := sound.queue.calm call.ready
  have waits : s'.waits p = .some (rip, .transfer rwFlag) := by
    have pipe : s'.waits p = .some ((s'.filp f).filpIno, .transfer rwFlag) := by
      apply waits_pipe <;> rw [entry]
      · exact calm
      · exact call.refers
    rw [pipe, filp, call.ino]
  have isPipe : (s.inode (s.filp f).filpIno).iPipe = true := by
    rw [call.ino]
    exact call.isPipe
  have parked : Parked s' p := by
    refine ⟨?_, ?_, ?_, ?_, ?_⟩ <;> rw [entry]
    · exact fun revives => absurd (calm.symm.trans revives) (by simp)
    · rw [filp, inode]
      exact fun _ _ => ⟨some, rwFlag, rfl, f, call.refers, call.mode, isPipe⟩
    · exact fun _ other => by cases other
    · exact fun _ other => by cases other
    · exact fun _ nr other => by cases other
  have queue := sound.queue.suspend call.ready parked (by rw [waits]; rfl)
  refine ⟨sound.suspend queue fun _ write => source ?_, ?_⟩
  · cases rwFlag
    · cases write
    · rfl
  · rw [← waits]
    exact waits_suspend s p .xpipe fd rwFlag.call buffer nbytes

theorem Apart.suspend (s : State) (p : Slot) (task : Task) (fd : Fd) (fsCall : CallNr)
    (buffer : Nat → UInt8) (nbytes : Nat) :
    Apart p s (Fs.suspend s p task fd fsCall buffer nbytes) := by
  obtain ⟨-, -, live, history, -⟩ := suspend_frame s p task fd fsCall buffer nbytes
  exact .of_update (suspend_fproc s p task fd fsCall buffer nbytes) live (by rw [history])
    (fun _ _ => by rw [history]) (by rw [history])

/-- The others wait for what they did, but for writers that a reader has joined. -/
theorem suspend_waiting {wanted : InodeNr × Wait} {s' : State} {except : InodeNr × Wait → Prop}
    (waiting : Waiting (fun _ => False) s) (files : s'.files = s.files)
    (waits : s'.waits = update s.waits p (some wanted))
      (blocked : except wanted ∨ Blocked s' wanted)
    (joined : ∀ rip, wanted = (rip, .transfer .reading) → except (rip, .transfer .writing)) :
    Waiting except s' := by
  have hasEnd : ∀ rip bits, s'.HasEnd rip bits ↔ s.HasEnd rip bits := by
    intro rip bits
    rw [Files.hasEnd_iff, Files.hasEnd_iff, files]
  have size : ∀ rip, (s'.inode rip).iSize = (s.inode rip).iSize := by
    intro rip
    exact congrArg (fun t : Files => (t.inode rip).iSize) files
  intro q other waits' covered
  rw [waits] at waits'
  by_cases same : q = p
  · subst same
    rw [update_self] at waits'
    obtain rfl := Option.some.inj waits'
    exact blocked.resolve_left covered
  · rw [update_of_ne same] at waits'
    have before := waiting q other waits' id
    obtain ⟨rip, ⟨_ | _⟩ | bits⟩ := other
    · exact ⟨(size rip).trans before.1, (hasEnd rip .writing).mpr before.2⟩
    · refine ⟨(hasEnd rip .reading).mpr before.1, fun r reads => ?_⟩
      rw [waits] at reads
      by_cases mine : r = p
      · subst mine
        rw [update_self] at reads
        exact covered (joined rip (Option.some.inj reads))
      · rw [update_of_ne mine] at reads
        exact before.2 r reads
    · exact fun opened => before ((hasEnd rip bits.other).mp opened)

/-- A process that is suspended on a lock or a task does not wait for a pipe. -/
theorem Invariant.suspend_other (inv : Invariant strict s)
    (resting : (s.fproc p).fpSuspended = false)
    {task : Task} {fsCall : CallNr} (noPipe : task ≠ .xpipe ∧ task ≠ .xpopen)
    (lock : task = .xlock → fsCall = .fcntl)
    (device : ∀ nr, task = .device nr → ∀ f, (s.fproc p).fpFilp fd = some f →
      (s.inode (s.filp f).filpIno).iPipe = false) :
    let s' := suspend s p task fd fsCall buffer nbytes
    Invariant strict s' ∧ s'.waits = s.waits := by
  intro s'
  obtain ⟨filp, inode, -⟩ := suspend_frame s p task fd fsCall buffer nbytes
  have entry : s'.fproc p = { s.fproc p with
      fpSuspended := true, fpFd := fd, fpCall := fsCall, fpTask := task,
      fpBuffer := buffer, fpNbytes := nbytes } := by
    rw [suspend_fproc, update_self]
  have calm := inv.queue.calm resting
  have none : s'.waits p = none := by
    cases task with
    | xpipe => exact absurd rfl noPipe.1
    | xpopen => exact absurd rfl noPipe.2
    | xlock | device => simp [State.waits, entry]
  have waits : s'.waits = s.waits := by
    have before : s.waits p = .none := waits_eq_none_of_not_suspended resting
    rw [waits_suspend, show (Fs.suspend s p task fd fsCall buffer nbytes).waits p = .none from none,
      ← before, update_eq_self]
  have parked : Parked s' p := by
    refine ⟨?_, ?_, ?_, ?_, ?_⟩ <;> rw [entry]
    · exact fun revives => absurd (calm.symm.trans revives) (by simp)
    · exact fun _ other => absurd other noPipe.1
    · exact fun _ other => absurd other noPipe.2
    · exact fun _ => lock
    · rw [filp, inode]
      exact fun _ => device
  have queue := inv.queue.suspend resting parked <| by
    rw [show (Fs.suspend s p task fd fsCall buffer nbytes).waits p = .none from none]
    simpa using noPipe
  have files : s'.files = s.files := suspend_files s p task fd fsCall buffer nbytes
  have hasEnd : ∀ rip bits, s'.HasEnd rip bits ↔ s.HasEnd rip bits := by
    intro rip bits
    rw [Files.hasEnd_iff, Files.hasEnd_iff, files]
  refine ⟨⟨inv.toSound.suspend queue fun other => absurd other noPipe.1,
    fun allowed => (inv.waiting allowed).of_fewer (fun q wanted waits' => by rwa [waits] at waits')
      (fun rip _ _ => ?_) (fun rip bits has => .inl ((hasEnd rip bits).mpr has))
      fun rip bits has => .inl ((hasEnd rip bits).mp has)⟩, waits⟩
  exact congrArg (fun t : Files => (t.inode rip).iSize) files

end Suspend

/-! ### Is a read or write feasible now? -/

/-- A write to the pipe is refused: nobody can read it, or there is no room for a write that may
not be suspended. -/
def RefusesWrite (s : State) (rip : InodeNr) (oflags : Flags) (bytes position : Nat) : Prop :=
  ¬ s.HasEnd rip .reading ∨
    (oflags.nonblock = true ∧ pipeSize < position + bytes ∧
      (bytes < pipeSize ∨ (pipeSize < bytes ∧ pipeSize ≤ position)))

/-- What `pipe_check` can come to: the call ends, it is suspended, or it goes on. -/
inductive Checked (strict : Prop) (s : State) (p : Slot) (fd : Fd) (rip : InodeNr) (rwFlag : RwFlag)
    (oflags : Flags) (buffer : Nat → UInt8) (bytes position : Nat) : State × Check → Prop
  | stop {s' : State} {result : Result} (inv : Invariant strict s') (woken : Woken s s')
      (ends : (rwFlag = .reading ∧ result = .ok 0) ∨ ∃ code, result = .error code ∧
        (rwFlag = .writing → RefusesWrite s rip oflags bytes position)) :
      Checked strict s p fd rip rwFlag oflags buffer bytes position (s', .stop result)
  | suspend {s' : State} (inv : Invariant strict s')
      (woken : Woken (suspend s p .xpipe fd rwFlag.call buffer bytes) s') :
      Checked strict s p fd rip rwFlag oflags buffer bytes position (s', .stop .suspend)
  | go {s' : State} {canwrite : Nat} (inv : Invariant strict s') (woken : Woken s s')
      (room : 0 < canwrite → canwrite < bytes)
      (reads : rwFlag = .reading → canwrite = 0 ∧ position < (s.inode rip).iSize)
      (writes : rwFlag = .writing →
        s.HasEnd rip .reading ∧
          (strict → ∀ q, s'.waits q ≠ some (rip, .transfer .reading))) :
      Checked strict s p fd rip rwFlag oflags buffer bytes position (s', .go canwrite)

section Check

variable {s : State} {p : Slot} {f : FilpNr} {fd : Fd} {rip : InodeNr} {rwFlag : RwFlag}
  {oflags : Flags} {buffer : Nat → UInt8} {bytes position : Nat}

section

variable (inv : Invariant strict s)
include inv

theorem release_readers (isPipe : (s.inode rip).iPipe = true) (rwFlag : RwFlag) {count : Int}
    (enough : (References.size s.waits : Int) ≤ count) :
    Invariant strict (release s rip rwFlag.call count) ∧ Woken s (release s rip rwFlag.call count) ∧
      ∀ q, (release s rip rwFlag.call count).waits q ≠ some (rip, .transfer rwFlag) := by
  have notLock : rwFlag.call ≠ .fcntl := by cases rwFlag <;> simp [RwFlag.call]
  obtain ⟨queue, woken⟩ := release_woken inv.queue isPipe notLock count
  exact ⟨inv.woken woken queue, woken, release_transfer inv.queue isPipe rwFlag enough⟩

/-- A reader that finds the pipe empty is suspended while there are writers, and lets those go
on that wait. -/
theorem pipeCheckRead_checked (call : PipeCall s p fd f rip .reading) (some : 0 < bytes)
    (start : position = (s.filp f).filpPos) :
    Checked strict s p fd rip .reading oflags buffer bytes position
      (pipeCheckRead s p rip oflags fd buffer bytes position) := by
  unfold pipeCheckRead
  split
  case isFalse more =>
    exact .go inv (.refl s) (fun some => absurd some (Nat.lt_irrefl 0))
      (fun _ => ⟨rfl, Nat.not_le.mp more⟩) fun other => by cases other
  case isTrue empty =>
    split
    case isFalse => exact .stop inv (.refl s) (.inl ⟨rfl, rfl⟩)
    case isTrue writer =>
      rw [findFilp_isSome] at writer
      cases nonblock : oflags.nonblock with
      | true =>
        simp only [if_true]
        refine .stop ?_ ?_ (.inr ⟨_, rfl, fun other => by cases other⟩) <;> split
        · exact (release_readers inv call.isPipe .writing inv.queue.size_le).1
        · exact inv
        · exact (release_readers inv call.isPipe .writing inv.queue.size_le).2.1
        · exact .refl s
      | false =>
        simp only [Bool.false_eq_true, if_false]
        have size (allowed : strict) : (s.inode rip).iSize = 0 := by
          have front := (inv.ends.pipes allowed rip call.isPipe).reader f (call.opened inv.ends)
          have below := front.carries.1
          have rewound := front.rewound
          simp only [State.files] at below rewound
          exact rewound (by omega)
        obtain ⟨sound, waits⟩ := @suspend_pipe _ _ _ _ _ _ _ buffer _ inv.toSound call some
          fun other => by cases other
        have files := suspend_files s p .xpipe fd (RwFlag.reading.call) buffer bytes
        -- all conditions hold but that writers wait although a reader does now
        have waiting (allowed : strict) : Waiting (fun wanted => wanted = (rip, .transfer .writing))
            (suspend s p .xpipe fd .read buffer bytes) := by
          refine suspend_waiting (inv.waiting allowed) files waits (.inr ⟨?_, ?_⟩)
            fun other same => ?_
          · exact (congrArg (fun t : Files => (t.inode rip).iSize) files).trans (size allowed)
          · rw [Files.hasEnd_iff] at writer ⊢
            rwa [show (suspend s p .xpipe fd .read buffer bytes).files = s.files from files]
          · rw [(Prod.mk.inj same).1]
        have waitsHere : ((suspend s p .xpipe fd .read buffer bytes).waits p).isSome = true := by
          rw [show (suspend s p .xpipe fd .read buffer bytes).waits = _ from waits,
            update_self]
          rfl
        have counted := sound.queue.suspCount
        have some := References.size_pos waitsHere
        rw [if_pos (by
          change 0 < (suspend s p .xpipe fd (RwFlag.reading.call) buffer bytes).suspCount
          rw [counted]
          simp only [RwFlag.call] at some ⊢
          omega)]
        have isPipe : ((suspend s p .xpipe fd .read buffer bytes).inode rip).iPipe = true :=
          (congrArg (fun t : Files => (t.inode rip).iPipe) files).trans call.isPipe
        obtain ⟨queue, woken⟩ := release_woken sound.queue isPipe
          (show CallNr.write ≠ .fcntl by simp)
          (suspend s p .xpipe fd .read buffer bytes).suspCount
        refine .suspend ⟨sound.woken woken queue, fun allowed =>
          (woken.waiting (waiting allowed)).close ?_⟩ woken
        rintro q wanted rfl
        exact release_transfer sound.queue isPipe .writing sound.queue.size_le q

theorem Invariant.no_readers (allowed : strict) (data : (s.inode rip).iSize ≠ 0) (q : Slot) :
    s.waits q ≠ some (rip, .transfer .reading) :=
  fun waits => data (inv.waiting allowed q _ waits id).1

/-- A writer is suspended while there is no room for it, unless it may write a part. Whenever
it may write, no reader waits. -/
theorem pipeCheckWrite_checked (call : PipeCall s p fd f rip .writing) (some : 0 < bytes)
    (start : strict → position = (s.inode rip).iSize)
    (source : buffer = fun i => s.history.source p (s.history.moved p + i)) :
    Checked strict s p fd rip .writing oflags buffer bytes position
      (pipeCheckWrite s p rip oflags fd buffer bytes position) := by
  have refused : ∀ {code}, RefusesWrite s rip oflags bytes position →
      Checked strict s p fd rip .writing oflags buffer bytes position (s, .stop (.error code)) :=
    fun refuses => .stop inv (.refl s) (.inr ⟨_, rfl, fun _ => refuses⟩)
  unfold pipeCheckWrite
  split
  case isTrue none => exact refused (.inl (findFilp_isNone.mp none))
  case isFalse found =>
    have reader : s.HasEnd rip .reading := by
      by_contra none
      exact found (findFilp_isNone.mpr none)
    obtain ⟨released, woken, readers⟩ := release_readers inv call.isPipe .reading inv.queue.size_le
    have go : ∀ {canwrite}, (0 < canwrite → canwrite < bytes) →
        Checked strict s p fd rip .writing oflags buffer bytes position
          (release s rip .read s.suspCount, .go canwrite) :=
      fun room => .go released woken room (fun other => by cases other) fun _ =>
        ⟨reader, fun _ => readers⟩
    split
    case isTrue full =>
      split
      case isTrue small => exact refused (.inr ⟨small.1, full, .inl small.2⟩)
      split
      case isTrue large =>
        split
        · exact go fun _ => by omega
        · exact refused (.inr ⟨large.1, full, .inr ⟨large.2, by omega⟩⟩)
      split
      · exact go fun _ => by omega
      case isFalse small large none =>
        -- the pipe is not empty, or else a part would fit
        have data (allowed : strict) : (s.inode rip).iSize ≠ 0 := by
          intro empty
          have room : 0 < pipeSize := by decide
          have begins := start allowed
          exact none ⟨by omega, by omega⟩
        obtain ⟨sound, waits⟩ := @suspend_pipe _ _ _ _ _ _ _ _ bytes inv.toSound call
          some fun _ => source
        have files := suspend_files s p .xpipe fd .write buffer bytes
        change (suspend s p .xpipe fd .write buffer bytes).waits = _ at waits
        refine .suspend ⟨sound, fun allowed => suspend_waiting (inv.waiting allowed) files waits
          (.inr ⟨?_, fun q reads => ?_⟩) fun other same => by cases same⟩ (.refl _)
        · rw [Files.hasEnd_iff] at reader ⊢
          rwa [files]
        · rw [waits] at reads
          by_cases same : q = p
          · subst same
            rw [update_self] at reads
            cases reads
          · rw [update_of_ne same] at reads
            exact inv.no_readers allowed (data allowed) q reads
    case isFalse fits =>
      split
      case isTrue empty => exact go fun room => absurd room (Nat.lt_irrefl 0)
      case isFalse data =>
        exact .go inv (.refl s) (fun room => absurd room (Nat.lt_irrefl 0))
          (fun other => by cases other) fun _ => ⟨reader, fun allowed =>
            inv.no_readers allowed (start allowed ▸ data)⟩

end

end Check

end Minix.Fs
