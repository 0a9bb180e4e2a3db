/-
This file proves that what is read from a pipe is a prefix of what was written to it, and that each
call on a pipe reports the bytes that it has moved.

A call that has moved a part of its bytes is not resumed with its count by every ending: a signal, a
failing copy or a pipe without readers ends it with an error, though the bytes are in the pipe
(`interrupted_write_miscounts`). In runs without such endings both hold.
-/

import Minix.Fs.Suspended

namespace Minix.Fs

open Function (update update_of_ne update_self)

/-! ### Exact answers -/

/-- An answer that tells how many bytes were moved; an error tells that there were none. -/
def Answer.Exact (answer : Answer) : Prop :=
  match answer.result with
  | .ok value => value = answer.moved
  | .error _ => answer.moved = 0
  | .suspend => False

/-- No call on a pipe is ended by an error after a part of its bytes has been moved: no copy fails
but the first of a call, no signal ends a call that has moved bytes, and when such a call is resumed
the pipe has a reader and takes the write. -/
def Whole (s : State) : Input → Prop
  | .message (.readWrite p _ fd _ _ io) =>
    onPipe s p fd = true → ∀ i, 0 < i → ¬ (io.copies i).Fails
  | .message (.unpause p) =>
    (s.fproc p).fpSuspended = true → (s.fproc p).fpTask = .xpipe → (s.fproc p).fpCumIoPartial = 0
  | .revived io _ => ∀ p s₁, getWork s = some (p, s₁) → (s₁.fproc p).fpTask = .xpipe →
    ∀ f, (s₁.fproc p).fpFilp (s₁.fproc p).fpFd = some f →
      Unbroken s₁ p f (s₁.fproc p).fpNbytes io.copies
  | _ => True

/-! ### What is saved is what was moved -/

/-- What is saved for each process is what its call has moved, and the answers were exact. -/
structure Counted (s : State) : Prop where
  tally : ∀ p, s.live p = true → Tally s p
  exact : ∀ answer ∈ s.history.answers, answer.Exact

section Counted

variable {strict : Prop} {s s' : State} {p q : Slot}

theorem Tally.same (tally : Tally s q) (same : SameCall q s s') : Tally s' q := by
  unfold Tally at tally ⊢
  rw [same.fpCumIoPartial, same.moved]
  by_cases inCall : (s.fproc q).fpSuspended = true ∧ (s.fproc q).fpTask = .xpipe
  · rw [if_pos inCall] at tally
    rwa [if_pos (same.pipeCall.mpr inCall), (same.saved inCall).1]
  · rw [if_neg inCall] at tally
    rwa [if_neg fun later => inCall (same.pipeCall.mp later)]

theorem Tally.resting (tally : Tally s p) (resting : (s.fproc p).fpSuspended = false) :
    (s.fproc p).fpCumIoPartial = 0 := by
  rwa [Tally, if_neg fun inCall => by rw [resting] at inCall; cases inCall.1] at tally

section

variable (counted : Counted s)
include counted

theorem Counted.same (same : ∀ q, SameCall q s s') (live : s'.live = s.live)
    (answers : s'.history.answers = s.history.answers) : Counted s' := by
  refine ⟨fun q exists' => ?_, ?_⟩
  · rw [live] at exists'
    exact (counted.tally q exists').same (same q)
  · rw [answers]
    exact counted.exact

theorem Counted.others (calls : ∀ q, q ≠ p → SameCall q s s')
    (live : ∀ q, q ≠ p → s'.live q = s.live q) (tally : s'.live p = true → Tally s' p)
    (answers : s'.history.answers = s.history.answers) : Counted s' := by
  refine ⟨fun q exists' => ?_, ?_⟩
  · by_cases mine : q = p
    · subst mine
      exact tally exists'
    · rw [live q mine] at exists'
      exact (counted.tally q exists').same (calls q mine)
  · rw [answers]
    exact counted.exact

theorem Counted.replyPipe {result : Result} (ends : result ≠ .suspend)
    (reports : Reports s p result) : Counted (replyPipe s p result) := by
  obtain ⟨fproc, live, moved, -⟩ := replyPipe_frame s p result
  refine ⟨fun q exists' => ?_, ?_⟩
  · rw [live] at exists'
    have before := counted.tally q exists'
    unfold Tally at before ⊢
    rwa [fproc, moved]
  · unfold Fs.replyPipe
    split
    case isFalse => exact counted.exact
    case isTrue =>
      intro answer member
      rcases List.mem_append.mp member with earlier | last
      · exact counted.exact answer earlier
      · obtain rfl := List.mem_singleton.mp last
        cases result with
        | ok | error => exact reports
        | suspend => exact absurd rfl ends

theorem Counted.begins {rwFlag : RwFlag} {buffer : Nat → UInt8} {fd nbytes : Int} {io : Io}
    (ready : Ready s p) (whole : onPipe s p fd = true → ∀ i, 0 < i → ¬ (io.copies i).Fails) :
    Unspoilt (startCall s p buffer) p rwFlag fd nbytes io := by
  have none : ((startCall s p buffer).fproc p).fpCumIoPartial = 0 :=
    (counted.tally p ready.1).resting ready.2
  have moved : (startCall s p buffer).history.moved p = 0 := by simp [startCall]
  refine ⟨⟨none.trans moved.symm, fun _ => moved⟩, fun _ => none, fun fd' f found isPipe => ?_⟩
  have piped : onPipe s p fd = true := by
    rw [onPipe_of_found (s := s) found]
    exact isPipe
  have fine : CopiesFine (startCall s p buffer) p io.copies :=
    ⟨whole piped, fun some => absurd none some⟩
  exact ⟨⟨fine, fun some => absurd none some⟩, fun some => absurd none some⟩

theorem Counted.resumes {rwFlag : RwFlag} {s₁ : State} {io : Io} {lock : Lock}
    (exists' : s.live p = true) (found : getWork s = some (p, s₁))
    (inCall : (s.fproc p).fpSuspended = true ∧ (s.fproc p).fpTask = .xpipe)
    (call : (s.fproc p).fpCall = rwFlag.call) (more : 0 < (s.fproc p).fpNbytes)
    (opened : ∃ f, (s.fproc p).fpFilp (s.fproc p).fpFd = some f ∧
      (s.filp f).filpMode rwFlag = true ∧ (s.inode (s.filp f).filpIno).iPipe = true)
    (whole : Whole s (.revived io lock)) :
    Unspoilt s₁ p rwFlag (s.fproc p).fpFd.val (s.fproc p).fpNbytes io := by
  have same := (getWork_eq_some found).2
  have entry : s₁.fproc p = { s.fproc p with fpSuspended := false, fpRevived := false } := by
    simp [same]
  have tally := counted.tally p exists'
  rw [Tally, if_pos inCall] at tally
  obtain ⟨f, refers, mode, isPipe⟩ := opened
  have unbroken := whole p s₁ found (by rw [entry]; exact inCall.2) f (by rw [entry]; exact refers)
  have filp : s₁.filp = s.filp := by rw [same]; rfl
  have inode : s₁.inode = s.inode := by rw [same]; rfl
  have history : s₁.history = s.history := by rw [same]; rfl
  have moved : (s₁.fproc p).fpCumIoPartial = s₁.history.moved p := by
    rw [entry, history]
    exact tally.1
  have refers₁ : (s₁.fproc p).fpFilp (s.fproc p).fpFd = some f := by rw [entry]; exact refers
  refine ⟨⟨moved, fun reading => ?_⟩, fun noPipe => ?_, fun fd g found' _ => ?_⟩
  · rw [history]
    refine tally.2 ?_
    rw [call, reading]
    rfl
  · have found' : getFilp s₁ p (s.fproc p).fpFd.val = some ((s.fproc p).fpFd, f) := by
      have few := (s.fproc p).fpFd.isLt
      simp only [getFilp, Int.toNat_natCast, Fin.eta, refers₁, Option.map_some]
      exact dif_pos ⟨by omega, by omega⟩
    rw [onPipe_of_found found', filp, inode, isPipe] at noPipe
    cases noPipe
  · obtain ⟨same', refers'⟩ := getFilp_eq_some found'
    obtain rfl : (s.fproc p).fpFd = fd := Fin.ext (by exact_mod_cast same')
    obtain rfl : f = g := Option.some.inj (refers₁.symm.trans refers')
    rw [entry] at unbroken
    refine ⟨by rwa [Int.toNat_natCast], fun _ => ⟨by exact_mod_cast more, ?_⟩⟩
    rwa [filp]

theorem Counted.getWork {s₁ : State} (found : Fs.getWork s = some (p, s₁))
    (none : (s₁.fproc p).fpCumIoPartial = 0) : Counted s₁ := by
  have same := (getWork_eq_some found).2
  refine ⟨fun q exists' => ?_, ?_⟩
  · by_cases mine : q = p
    · subst mine
      exact .of_resting (by simp [same]) none
    · have before := counted.tally q (by simpa [same] using exists')
      simpa [Tally, same, mine] using before
  · rw [same]
    exact counted.exact

end

/-- The messages that have to do with suspended calls, and with processes that come and go. -/
theorem serve_counts (kept : Kept strict s) (counted : Counted s) (calm : s.reviving = 0)
    {m : Message} (stirs : m.calm = false) (contract : Contract s (.message m))
    (disciplined : strict → Disciplined s (.message m)) (whole : Whole s (.message m)) :
    Counted (serve s m) := by
  obtain ⟨inv, vacant⟩ := kept
  cases m with
  | «open» p fsCall bits flags path =>
    obtain ⟨-, same, live, answers, -⟩ := serveOpen_keeps ⟨inv, vacant⟩ contract disciplined
    exact counted.same same live answers
  | readWrite p rwFlag fd buffer nbytes io =>
    have unspoilt := @Counted.begins _ _ counted rwFlag buffer _ nbytes _ contract whole
    have started := startCall_keeps inv contract.2 buffer
    obtain ⟨s₁, -, apart, tally, answered⟩ := @serveReadWrite_keeps _ _ p rwFlag fd buffer nbytes
        io started contract.2
      fun _ => by simp [startCall]
    have calls : ∀ q, q ≠ p → SameCall q s s₁ := fun q other => by
      obtain ⟨sum, pipeCall, saved, moved⟩ := apart.calls q other
      exact ⟨sum, pipeCall, saved, moved.trans (update_of_ne other _ _)⟩
    have told : Counted s₁ := counted.others calls (fun q _ => congrFun apart.live q)
      (fun _ => tally unspoilt) (congrArg (fun r => r.1) apart.replies)
    change Counted (serveReadWrite (startCall s p buffer) p rwFlag fd buffer nbytes io)
    obtain rest | ⟨result, rest, ends, reports⟩ := answered
    · exact rest ▸ told
    · exact rest ▸ told.replyPipe ends (reports unspoilt)
  | fork parent child =>
    obtain ⟨-, fproc, live, history⟩ := doFork_keeps inv vacant contract.2 contract.1.2
    have theirs : ∀ q, (serve s (.fork parent child)).fproc q =
        update s.fproc child (s.fproc parent) q := fun q => congrFun fproc q
    refine counted.others (p := child) (fun q other => ?_) (fun q other => ?_) (fun _ => ?_) ?_
    · exact .of_entry (by rw [theirs, update_of_ne other])
        (congrArg (fun h => h.moved q) history)
    · exact (update_of_ne other _ _).trans (congrFun live q)
    · have entry : (serve s (.fork parent child)).fproc child = s.fproc parent := by
        rw [theirs, update_self]
      refine .of_resting ?_ ?_ <;> rw [entry]
      · exact contract.1.2
      · exact (counted.tally parent contract.1.1).resting contract.1.2
    · exact congrArg History.answers history
  | exit p unlocked =>
    obtain ⟨-, apart, left⟩ := doExit_keeps (setLive_keeps inv p false) calm
      (show (setLive s p false).live p = false by simp [setLive]) unlocked
    have calls : ∀ q, q ≠ p → SameCall q s (serve s (.exit p unlocked)) := fun q other => by
      obtain ⟨sum, pipeCall, saved, moved⟩ := apart.calls q other
      exact ⟨sum, pipeCall, saved, moved⟩
    refine counted.others calls (fun q other => ?_) (fun exists' => ?_)
      (congrArg (fun r => r.1) apart.replies)
    · exact (congrFun apart.live q).trans (update_of_ne other _ _)
    · have dead : (serve s (.exit p unlocked)).live p = false :=
        (congrFun apart.live p).trans (update_self _ _ _)
      exact absurd (exists'.symm.trans dead) (by simp)
  | unpause p =>
    obtain ⟨fproc, -, ⟨-, -, live⟩, history⟩ := doUnpause_frame s p
    have theirs : ∀ q, (serve s (.unpause p)).fproc q =
        update s.fproc p { s.fproc p with fpSuspended := false } q := fun q =>
      congrFun fproc q
    have history' : (serve s (.unpause p)).history = _ := history
    have moved : (serve s (.unpause p)).history.moved = s.history.moved := by rw [history']
    have tally (exists' : s.live p = true) : (s.fproc p).fpCumIoPartial = 0 := by
      by_cases inCall : (s.fproc p).fpSuspended = true ∧ (s.fproc p).fpTask = .xpipe
      · exact whole inCall.1 inCall.2
      · have tally := counted.tally p exists'
        rwa [Tally, if_neg inCall] at tally
    refine ⟨fun q exists' => ?_, ?_⟩
    · rw [show (serve s (.unpause p)).live = s.live from live] at exists'
      by_cases mine : q = p
      · subst mine
        refine .of_resting ?_ ?_ <;> rw [theirs, update_self]
        exact tally exists'
      · exact (counted.tally q exists').same
          (.of_entry (by rw [theirs, update_of_ne mine]) (congrFun moved q))
    · rw [history']
      intro answer member
      rcases List.mem_append.mp member with earlier | last
      · exact counted.exact answer earlier
      · split at last
        case isFalse => cases last
        case isTrue interrupted =>
          obtain rfl := List.mem_singleton.mp last
          simp only [Bool.and_eq_true, beq_iff_eq] at interrupted
          obtain ⟨inCall, exists'⟩ := interrupted
          have count := counted.tally p exists'
          rw [Tally, if_pos inCall] at count
          exact count.1.symm.trans (whole inCall.1 inCall.2)
  | pipe | close | dupfd | dup2 | setfd | setfl | lock | ioctl | exec | revive | change | chdirMm
  | mount | umount => cases stirs

/-- The step lemma: every turn of the main loop counts right. -/
theorem step_counts (kept : Kept strict s) (counted : Counted s) {input : Input}
    (contract : Contract s input) (disciplined : strict → Disciplined s input)
    (whole : Whole s input) (stepped : step s input = some s') : Counted s' := by
  cases input with
  | message m =>
    simp only [step] at stepped
    obtain ⟨calm, rfl⟩ := Option.ite_some_none_eq_some.mp stepped
    cases quiet : m.calm with
    | true =>
      obtain ⟨-, p, undisturbed⟩ := serve_calm kept quiet contract disciplined
      exact counted.same undisturbed.sameCall undisturbed.live
        (congrArg (fun r => r.1) undisturbed.replies)
    | false => exact serve_counts kept counted calm quiet contract disciplined whole
  | revived io lock =>
    obtain ⟨⟨p, s₁⟩, found, resumed⟩ := Option.bind_eq_some_iff.mp stepped
    obtain ⟨exists', -⟩ := kept.vacant.getWork kept.inv found
    have inv := getWork_keeps kept.inv found
    have same := (getWork_eq_some found).2
    have resting : (s₁.fproc p).fpSuspended = false := by simp [same]
    obtain ⟨task, rfl⟩ | ⟨inCall, rwFlag, call, more, opened, rfl⟩ :=
      resume_eq_some kept.inv found resumed
    · have tally := counted.tally p exists'
      rw [Tally, if_neg fun inCall => by rw [task] at inCall; cases inCall.2] at tally
      have awake := counted.getWork found (by simpa [same] using tally)
      obtain ⟨-, undisturbed⟩ := doLock_keeps inv resting (s.fproc p).fpFd.val lock
      exact awake.same undisturbed.sameCall undisturbed.live
        (congrArg (fun r => r.1) undisturbed.replies)
    · have unspoilt := counted.resumes exists' found inCall call more opened whole
      obtain ⟨s₂, -, apart, tally, answered⟩ := @serveReadWrite_keeps _ _ p rwFlag
          ((s.fproc p).fpFd.val) ((s.fproc p).fpBuffer) ((s.fproc p).fpNbytes) io inv resting
            fun writing => by
          subst writing
          rw [same]
          exact kept.inv.sources p inCall call
      have calls : ∀ q, q ≠ p → SameCall q s s₂ := fun q other => by
        have entry : s₁.fproc q = s.fproc q := by simp [same, other]
        have awake : SameCall q s s₁ := .of_entry entry (by rw [same]; rfl)
        exact awake.trans (apart.calls q other)
      have told : Counted s₂ := counted.others calls
        (fun q _ => (congrFun apart.live q).trans (by rw [same]; rfl)) (fun _ => tally unspoilt)
        ((congrArg (fun r => r.1) apart.replies).trans (by rw [same]; rfl))
      obtain rest | ⟨result, rest, ends, reports⟩ := answered
      · exact rest ▸ told
      · exact rest ▸ told.replyPipe ends (reports unspoilt)

end Counted

/-! ### Runs -/

/-- What holds between two turns of the main loop if no call is ended after a part. -/
structure Streaming (s : State) : Prop extends Kept True s, Counted s

theorem fsInit_counts : Counted fsInit :=
  ⟨fun p _ => .of_resting (fsInit_fproc p).2.1 (fsInit_fproc p).2.2.2, fun _ none => by cases none⟩

theorem Files.PipeOk.isPrefix {t : Files} {rip : InodeNr} (pipe : t.PipeOk rip) :
    t.taken rip <+: t.written rip := by
  by_cases opened : ∃ f, t.Open f rip .reading
  · obtain ⟨f, opened⟩ := opened
    exact (pipe.reader f opened).carries.isPrefix
  · exact (pipe.saved fun f reads => opened ⟨f, reads⟩).carries.isPrefix

/-- If no error ends a call that has moved a part of its bytes, and FIFOs are opened one way only,
what is read from each pipe is a prefix of what was written to it, and every answer to a call on a
pipe reports the bytes that the call has moved. -/
theorem pipes_carry_streams {inputs : List Input} {s : State}
    (run : Reaches (fun s input => Contract s input ∧ Disciplined s input ∧ Whole s input) inputs
      s) :
    (∀ rip, (s.inode rip).iPipe = true → s.history.taken rip <+: s.history.written rip) ∧
      ∀ answer ∈ s.history.answers, answer.Exact := by
  have streaming : Streaming s :=
    Transition.Run.invariant ⟨fsInit_keeps, fsInit_counts⟩
      (fun s input _ ⟨kept, counted⟩ ⟨contract, disciplined, whole⟩ stepped =>
        ⟨step_keeps kept contract (fun _ => disciplined) stepped,
          step_counts kept counted contract (fun _ => disciplined) whole stepped⟩) run
  exact ⟨fun rip isPipe => (streaming.inv.ends.pipes trivial rip isPipe).isPrefix, streaming.exact⟩

/-- A process makes a pipe, writes three bytes to it and reads two of them. -/
def piped : List Input :=
  [.message (.pipe 2 0 (.ok 5)), .message (.readWrite 2 .writing 1 Nat.toUInt8 3 {}),
    .message (.readWrite 2 .reading 0 (fun _ => 0) 2 {})]

/-- Two of three bytes have been read. -/
theorem pipes_carry_streams_piped : ∃ s,
    Reaches (fun s input => Contract s input ∧ Disciplined s input ∧ Whole s input) piped s ∧
      (s.inode 5).iPipe = true ∧ s.history.taken 5 = [0, 1] ∧ s.history.written 5 = [0, 1, 2] ∧
      s.history.taken 5 <+: s.history.written 5 ∧
      s.history.answers = [⟨2, .ok 3, 3⟩, ⟨2, .ok 2, 2⟩] ∧
      ∀ answer ∈ s.history.answers, answer.Exact := by
  have executed : (Transition.execute step (fun s input => Contract s input ∧ Disciplined s input)
      piped fsInit).map (fun s => ((s.inode 5).iPipe, s.history.taken 5, s.history.written 5,
        s.history.answers)) =
        some (true, [0, 1], [0, 1, 2], [⟨2, .ok 3, 3⟩, ⟨2, .ok 2, 2⟩]) := by
    decide
  obtain ⟨s, executed, found⟩ := Option.map_eq_some_iff.mp executed
  simp only [Prod.mk.injEq] at found
  obtain ⟨isPipe, taken, written, answers⟩ := found
  have run : Reaches (fun s input => Contract s input ∧ Disciplined s input ∧ Whole s input) piped
      s := by
    refine (Transition.Run.of_execute executed).weaken fun s input member allowed =>
      ⟨allowed.1, allowed.2, ?_⟩
    simp only [piped, List.mem_cons, List.not_mem_nil, or_false] at member
    rcases member with rfl | rfl | rfl
    · trivial
    · exact fun _ _ _ => id
    · exact fun _ _ _ => id
  obtain ⟨carries, exact'⟩ := pipes_carry_streams run
  exact ⟨s, run, isPipe, taken, written, carries 5 isPipe, answers, exact'⟩

/-- A signal ends a write of which a part has been moved. When the pipe has been read the process
writes to it again. -/
def interrupted : List Input :=
  [.message (.pipe 2 0 (.ok 5)), .message (.fork 2 3),
    .message (.readWrite 3 .writing 1 (fun _ => 0) 8000 {}), .message (.unpause 3),
    .message (.readWrite 2 .reading 0 (fun _ => 0) 8000 {}),
    .message (.readWrite 3 .writing 1 (fun _ => 0) 10 {})]

/-- The first write reports no bytes though it has moved 7168, and the second reports 7178 though it
has moved 10. -/
theorem interrupted_write_miscounts : ¬ ∀ inputs s, Reaches Contract inputs s →
    (∀ rip, (s.inode rip).iPipe = true → s.history.taken rip <+: s.history.written rip) ∧
      ∀ answer ∈ s.history.answers, answer.Exact := by
  intro streams
  have executed : (Transition.execute step Contract interrupted fsInit).map (fun s =>
      s.history.answers) = some [⟨3, .error .eintr, 7168⟩, ⟨2, .ok 7168, 7168⟩,
        ⟨3, .ok 7178, 10⟩] := by
    decide +kernel
  obtain ⟨s, executed, answers⟩ := Option.map_eq_some_iff.mp executed
  have exact' := (streams interrupted s (.of_execute executed)).2 ⟨3, .ok 7178, 10⟩
    (by rw [answers]; simp)
  exact absurd exact' (by simp [Answer.Exact])

end Minix.Fs
