/-
This file proves that reading from and writing to pipes keeps the invariant of the file system,
and what a call reports: the number of bytes that it has moved, unless it is ended by an error.
-/

import Minix.Fs.Suspension

namespace Minix.Fs

open Function (update update_of_ne update_self update_eq_self)

variable {strict : Prop}

/-! ### Reports -/

/-- What a call reports at its end is the number of bytes that it has moved. -/
def Reports (s : State) (p : Slot) : Result → Prop
  | .ok value => value = s.history.moved p
  | .error _ => s.history.moved p = 0
  | .suspend => True

/-- What is saved for a process: the bytes that its suspended call on a pipe has moved. A read is
suspended before it moves any. -/
def Tally (s : State) (p : Slot) : Prop :=
  if (s.fproc p).fpSuspended = true ∧ (s.fproc p).fpTask = .xpipe then
    (s.fproc p).fpCumIoPartial = s.history.moved p ∧
      ((s.fproc p).fpCall = .read → s.history.moved p = 0)
  else (s.fproc p).fpCumIoPartial = 0

/-- What has been saved for the call that `p` begins or resumes. -/
def Resumes (s : State) (p : Slot) (rwFlag : RwFlag) : Prop :=
  (s.fproc p).fpCumIoPartial = s.history.moved p ∧ (rwFlag = .reading → s.history.moved p = 0)

/-- What a call to read or write comes to. If `fine`, it reports what it has moved. -/
structure Served (strict : Prop) (s s' : State) (p : Slot) (result : Result)
    (fine : Prop) : Prop where
  inv : Invariant strict s'
  apart : Apart p s s'
  resting : result ≠ .suspend → (s'.fproc p).fpSuspended = false
  told : fine → Reports s' p result ∧ Tally s' p

theorem Tally.of_resting {s : State} {p : Slot} (resting : (s.fproc p).fpSuspended = false)
    (none : (s.fproc p).fpCumIoPartial = 0) : Tally s p := by
  rw [Tally, if_neg fun inCall => by rw [resting] at inCall; cases inCall.1]
  exact none

/-! ### The transfer -/

section Finish

variable {s : State} {p : Slot} {f : FilpNr} {fd : Fd} {rip : InodeNr} {rwFlag : RwFlag}
  {oflags : Flags} {buffer : Nat → UInt8} {nbytes position canwrite : Nat} {copies : Nat → Copy}
  {t t' : Transfer} {n : Nat}

theorem finish_history (s : State) (p : Slot) (f : FilpNr) (rip : InodeNr) (rwFlag : RwFlag)
    (t : Transfer) :
    (finish s p f rip rwFlag t).history = noteTransfer s.history p rip rwFlag t.moved := by
  have seek : ∀ (s : State) (g : FilpNr) (at' : Nat), (s.seek g at').history = s.history :=
    fun _ _ _ => rfl
  unfold finish
  cases rwFlag with
  | writing =>
    dsimp only
    rw [seek]
    split <;> rfl
  | reading =>
    dsimp only
    split
    · rw [seek]
      split <;> rfl
    · rfl

theorem noteTransfer_frame (history : History) (p : Slot) (rip : InodeNr) (rwFlag : RwFlag)
    (moved : List UInt8) :
    let history' := noteTransfer history p rip rwFlag moved
    history'.source = history.source ∧ history'.replies = history.replies ∧
      history'.interrupted = history.interrupted ∧
      history'.moved = update history.moved p (history.moved p + moved.length) := by
  cases rwFlag <;> exact ⟨rfl, rfl, rfl, rfl⟩

theorem Moves.length (moves : Moves rwFlag t t' n) (start : t.moved = []) :
    t'.moved.length = n := by
  rw [moves.moved, start, List.nil_append]
  cases rwFlag <;> simp [Transfer.next]

section

variable (inv : Invariant strict s)
include inv

theorem Invariant.setPartial (resting : (s.fproc p).fpSuspended = false) (count : Nat) :
    let s' := s.modifyFproc p fun entry => { entry with fpCumIoPartial := count }
    Invariant strict s' ∧ s'.waits = s.waits := by
  intro s'
  have files : s'.files = s.files := by
    have keeps : s'.keeps = s.keeps := by
      funext keeper
      cases keeper with
      | dir q dir =>
        by_cases same : q = p
        · subst same
          cases dir <;> simp [s', State.keeps, Fproc.dir]
        · simp [s', State.keeps, same]
      | mounted | root | hand => rfl
    have refers : s'.files.refers = s.files.refers := by
      funext x
      by_cases same : x.1 = p
      · simp [s', State.files, same]
      · simp [s', State.files, same]
    simp only [State.files] at refers ⊢
    rw [keeps, refers]
    rfl
  exact inv.frame rfl resting resting rfl rfl rfl rfl rfl (fun _ _ => rfl) (files ▸ inv.ends)
    (fun _ _ _ _ => ⟨rfl, rfl, rfl⟩) (fun _ _ _ _ => rfl) (fun _ _ _ same => .inl same)
    fun _ _ _ same => .inl same

theorem Invariant.finish (call : PipeCall s p fd f rip rwFlag)
    (readers : strict → ∀ q, s.waits q ≠ some (rip, .transfer .reading))
    (moves : Moves rwFlag t t' n) (fresh : t.moved = [])
    (ends : (finish s p f rip rwFlag t').files.Ends strict) :
    let s' := Fs.finish s p f rip rwFlag t'
    Invariant strict s' ∧ s'.waits = s.waits ∧ Apart p s s' ∧
      s'.history.moved p = s.history.moved p + n ∧
      s'.history.source = s.history.source := by
  intro s'
  have shifted := finish_shifted s p f rip rwFlag t'
  obtain ⟨source, replies, interrupted, moved⟩ :=
    noteTransfer_frame s.history p rip rwFlag t'.moved
  rw [← finish_history s p f rip rwFlag t'] at source replies interrupted moved
  have others : ∀ q, q ≠ p → s'.history.moved q = s.history.moved q := fun q other => by
    rw [moved, update_of_ne other]
  have fproc : s'.fproc = update s.fproc p (s.fproc p) := by
    rw [update_eq_self]
    exact shifted.fproc
  have hasEnd : ∀ other bits, s'.HasEnd other bits ↔ s.HasEnd other bits := by
    intro other bits
    simp only [Files.hasEnd_iff, s', shifted.opens]
  obtain ⟨inv', waits⟩ := inv.frame fproc call.ready call.ready rfl shifted.suspCount
    shifted.reviving interrupted source others ends
    (fun _ g _ _ => by
      obtain ⟨-, ino, mode, -⟩ := shifted.filp g
      refine ⟨ino, mode, ?_⟩
      by_cases same : (s.filp g).filpIno = rip
      · rw [same, shifted.iPipe]
      · rw [shifted.inode _ same])
    (fun allowed other q waits => by
      have distinct : other ≠ rip := by
        rintro rfl
        exact readers allowed q waits
      rw [shifted.inode _ distinct])
    (fun _ other bits has => .inl ((hasEnd other bits).mpr has))
    fun _ other bits has => .inl ((hasEnd other bits).mp has)
  refine ⟨inv', waits, .of_update fproc shifted.live source others replies, ?_, source⟩
  rw [moved, update_self, moves.length fresh]

/-- A write that has moved a part of its bytes is suspended with the rest. -/
theorem Invariant.suspend_rest (call : PipeCall s p fd f rip .writing)
    (reader : s.HasEnd rip .reading)
    (readers : strict → ∀ q, s.waits q ≠ some (rip, .transfer .reading)) (some : 0 < nbytes)
    (source : buffer = fun i => s.history.source p (s.history.moved p + i)) :
    Invariant strict (suspend s p .xpipe fd .write buffer nbytes) := by
  obtain ⟨sound, waits⟩ := @suspend_pipe _ _ _ _ _ _ _ _ nbytes inv.toSound call
    some fun _ => source
  have files := suspend_files s p .xpipe fd .write buffer nbytes
  change (suspend s p .xpipe fd .write buffer nbytes).waits = _ at waits
  refine ⟨sound, fun allowed => suspend_waiting (inv.waiting allowed) files waits
    (.inr ⟨?_, fun q reads => ?_⟩) fun other same => by cases same⟩
  · rw [Files.hasEnd_iff] at reader ⊢
    rwa [files]
  · rw [waits] at reads
    by_cases same : q = p
    · subst same
      rw [update_self] at reads
      cases reads
    · rw [update_of_ne same] at reads
      exact readers allowed q reads

end

/-- Only the first copy of a transfer fails, and that only if the call has moved nothing yet. -/
def CopiesFine (s : State) (p : Slot) (copies : Nat → Copy) : Prop :=
  (∀ i, 0 < i → ¬ (copies i).Fails) ∧
    ((s.fproc p).fpCumIoPartial ≠ 0 → ¬ (copies 0).Fails)

/-- If the copies are fine, a transfer that ends with an error has moved nothing, and neither has
the call before. -/
theorem CopiesFine.error (fine : CopiesFine s p copies) {limit : Option Nat} {fSize fuel : Nat}
    {code : Errno} (clear : t.r = none)
    (error : (transfer rwFlag copies fSize fuel 0 limit t).r = some code)
    (moves : Moves rwFlag t (transfer rwFlag copies fSize fuel 0 limit t) n) :
    n = 0 ∧ (s.fproc p).fpCumIoPartial = 0 := by
  refine ⟨?_, ?_⟩
  · rcases @transfer_error rwFlag _ fSize fuel 0 limit t fine.1 with none | ⟨r, same⟩
    · rw [none, clear] at error
      cases error
    · have counted := moves.cumIo
      rw [same] at counted
      dsimp only at counted
      omega
  · by_contra some
    have good : ∀ i, 0 ≤ i → ¬ (copies i).Fails := by
      intro i _
      rcases Nat.eq_zero_or_pos i with rfl | late
      · exact fine.2 some
      · exact fine.1 i late
    rw [transfer_r good, clear] at error
    cases error

/-- The loop of chunks serves a transfer on a pipe. -/
theorem moveBytes_served (inv : Invariant strict s) (call : PipeCall s p fd f rip rwFlag)
    (start : strict → position = endPosition s f rip rwFlag)
    (source : rwFlag = .writing → buffer = fun i => s.history.source p (s.history.moved p + i))
    (room : 0 < canwrite → canwrite < nbytes)
    (reads : rwFlag = .reading → canwrite = 0 ∧ position < (s.inode rip).iSize)
    (writes : rwFlag = .writing →
      s.HasEnd rip .reading ∧ (strict → ∀ q, s.waits q ≠ some (rip, .transfer .reading))) :
    let out := moveBytes s p f rwFlag oflags fd buffer nbytes position canwrite copies
    Served strict s out.1 p out.2 (Resumes s p rwFlag ∧ CopiesFine s p copies) := by
  have readers (allowed : strict) : ∀ q, s.waits q ≠ some (rip, .transfer .reading) := by
    cases rwFlag with
    | reading => exact inv.no_readers allowed (Nat.ne_of_gt (Nat.zero_lt_of_lt (reads rfl).2))
    | writing => exact (writes rfl).2 allowed
  let limit := if 0 < canwrite then some canwrite else none
  let t : Transfer := { position, nbytes, buffer, cumIo := (s.fproc p).fpCumIoPartial
                        contents := (s.inode rip).contents }
  have fits : Fits limit t := by
    intro left same
    rcases Nat.eq_zero_or_pos canwrite with zero | some
    · simp [limit, zero] at same
    · obtain rfl : canwrite = left := by simpa [limit, some] using same
      exact Nat.le_of_lt (room some)
  obtain ⟨n, moves, within, roomy⟩ :=
    transfer_moves rwFlag copies (s.inode rip).iSize nbytes 0 fits
  let t' := transfer rwFlag copies (s.inode rip).iSize nbytes 0 limit t
  obtain ⟨inv', waits, apart, moved, sameSource⟩ := inv.finish call readers moves rfl <|
    finish_ends inv.ends call.isPipe (call.opened inv.ends) moves rfl rfl start within source
  have shifted := finish_shifted s p f rip rwFlag t'
  let s' := Fs.finish s p f rip rwFlag t'
  have entry : s'.fproc p = s.fproc p := congrFun shifted.fproc p
  have resting : (s'.fproc p).fpSuspended = false := by
    rw [entry]
    exact call.ready
  intro out
  have outcome : out = moveBytes s p f rwFlag oflags fd buffer nbytes position
    canwrite copies := rfl
  unfold moveBytes at outcome
  rewrite [call.ino] at outcome
  dsimp only at outcome
  split at outcome
  case h_1 code ends =>
    rw [outcome]
    refine ⟨inv', apart, fun _ => resting, fun told => ?_⟩
    obtain ⟨resumes, fine⟩ := told
    obtain ⟨none, zero⟩ := fine.error rfl ends moves
    have before := resumes.1
    rw [zero] at before
    refine ⟨?_, .of_resting resting (by rw [entry, zero])⟩
    change s'.history.moved p = 0
    rw [moved, none, ← before]
  case h_2 =>
    split at outcome <;> rw [outcome]
    case isTrue rest =>
      obtain ⟨part, -⟩ := rest
      have writing : rwFlag = .writing := by
        cases rwFlag with
        | reading => exact absurd part (Nat.not_lt.mpr (Nat.le_of_eq (reads rfl).1))
        | writing => rfl
      subst writing
      let s₂ := s'.modifyFproc p fun entry => { entry with fpCumIoPartial := t'.cumIo }
      obtain ⟨inv₂, waits₂⟩ := inv'.setPartial resting t'.cumIo
      have call₂ : PipeCall s₂ p fd f rip .writing := by
        obtain ⟨-, ino, mode, -⟩ := shifted.filp f
        refine ⟨?_, ?_, ino.trans call.ino, ?_, shifted.iPipe.trans call.isPipe⟩
        · simpa [s₂] using resting
        · simpa [s₂, entry] using call.refers
        · exact (congrFun mode RwFlag.writing).trans call.mode
      have reader : s₂.HasEnd rip .reading := by
        have before := (writes rfl).1
        rw [Files.hasEnd_iff] at before
        change s'.HasEnd rip .reading
        rw [Files.hasEnd_iff]
        simpa only [s', shifted.opens] using before
      have left : 0 < t'.nbytes := by
        have counted : t'.nbytes + n = nbytes := moves.nbytes
        have few := roomy canwrite (if_pos part)
        have enough := room part
        omega
      have bytes : t'.buffer = fun i => s₂.history.source p (s₂.history.moved p + i) := by
        rw [show t'.buffer = _ from moves.buffer]
        change (fun i => buffer (n + i)) = fun i => s'.history.source p (s'.history.moved p + i)
        rw [moved, sameSource, source rfl]
        funext i
        rw [Nat.add_assoc]
      have inv₃ := inv₂.suspend_rest call₂ reader
        (fun allowed q => by rw [waits₂, waits]; exact readers allowed q) left bytes
      have saved := suspend_fproc s₂ p .xpipe fd .write t'.buffer t'.nbytes
      obtain ⟨-, -, -, history, -⟩ := suspend_frame s₂ p .xpipe fd .write t'.buffer t'.nbytes
      refine ⟨inv₃, (apart.trans (.modifyFproc s' p _)).trans (.suspend s₂ p _ fd _ _ _),
        fun more => absurd rfl more, fun told => ⟨trivial, ?_⟩⟩
      have counted : t'.cumIo = s'.history.moved p := by
        rw [show t'.cumIo = _ from moves.cumIo, moved, ← told.1.1]
      change Tally (suspend s₂ p .xpipe fd .write t'.buffer t'.nbytes) p
      rw [Tally, saved, update_self, if_pos ⟨rfl, rfl⟩, history]
      refine ⟨?_, fun other => by cases other⟩
      simpa [s₂] using counted
    case isFalse =>
      obtain ⟨inv₂, -⟩ := inv'.setPartial resting 0
      have rests : ((s'.modifyFproc p fun entry => { entry with fpCumIoPartial := 0 }).fproc
          p).fpSuspended = false := by
        simpa using resting
      have apart₂ := Apart.modifyFproc s' p fun entry => { entry with fpCumIoPartial := 0 }
      refine ⟨inv₂, apart.trans apart₂, fun _ => rests, fun told => ⟨?_, ?_⟩⟩
      · change t'.cumIo = s'.history.moved p
        rw [show t'.cumIo = _ from moves.cumIo, moved, ← told.1.1]
      · exact .of_resting rests (by simp)

end Finish

/-! ### The call -/

section Call

variable {s : State} {p : Slot} {f : FilpNr} {fd : Fd} {rip : InodeNr} {rwFlag : RwFlag}
  {buffer : Nat → UInt8} {nbytes : Nat} {copies : Nat → Copy}

/-- No error ends a call on a pipe after a part of its bytes has been moved. -/
def Unbroken (s : State) (p : Slot) (f : FilpNr) (nbytes : Nat) (copies : Nat → Copy) : Prop :=
  CopiesFine s p copies ∧
    ((s.fproc p).fpCumIoPartial ≠ 0 →
      growsTooBig (s.inode (s.filp f).filpIno) (s.filp f).filpPos nbytes = false ∧
        ¬ RefusesWrite s (s.filp f).filpIno (s.filp f).filpFlags nbytes
          (startPosition s f .writing))

theorem startPosition_eq (inv : Invariant strict s) (allowed : strict)
    (call : PipeCall s p fd f rip rwFlag) :
    startPosition s f rwFlag = endPosition s f rip rwFlag := by
  cases rwFlag with
  | reading => simp [startPosition, endPosition]
  | writing =>
    simp only [startPosition, endPosition, true_and, call.ino]
    split
    case isTrue => rfl
    case isFalse seeks =>
      exact ((inv.ends.pipes allowed rip call.isPipe).back f
        (call.opened inv.ends)).resolve_left seeks

theorem Served.of_error {fine : Prop} (inv : Invariant strict s)
    (resting : (s.fproc p).fpSuspended = false) (code : Errno)
    (clear : fine → (s.fproc p).fpCumIoPartial = s.history.moved p ∧
      (s.fproc p).fpCumIoPartial = 0) : Served strict s s p (.error code) fine := by
  refine ⟨inv, ⟨rfl, fun _ _ _ => rfl, fun q _ => .refl q s, rfl, rfl⟩, fun _ => resting,
    fun good => ?_⟩
  obtain ⟨same, zero⟩ := clear good
  exact ⟨same.symm.trans zero, .of_resting resting zero⟩

theorem PipeCall.woken {s' : State} (call : PipeCall s p fd f rip rwFlag) (woken : Woken s s') :
    PipeCall s' p fd f rip rwFlag := by
  have entry := woken.resting p call.ready
  refine ⟨?_, ?_, ?_, ?_, ?_⟩ <;> simp only [entry, woken.filp, woken.inode]
  · exact call.ready
  · exact call.refers
  · exact call.ino
  · exact call.mode
  · exact call.isPipe

/-- What follows `pipe_check`: a call ends, hangs or moves its bytes. -/
theorem Checked.served {oflags : Flags} {position : Nat} {checked : State × Check}
    (outcome : Checked strict s p fd rip rwFlag oflags buffer nbytes position checked)
    (call : PipeCall s p fd f rip rwFlag) (flags : oflags = (s.filp f).filpFlags)
    (start : strict → position = endPosition s f rip rwFlag)
    (begins : rwFlag = .writing → position = startPosition s f .writing)
    (source : rwFlag = .writing → buffer = fun i => s.history.source p (s.history.moved p + i)) :
    let out := match checked with
      | (s, .stop result) => (s, result)
      | (s, .go canwrite) =>
        moveBytes s p f rwFlag oflags fd buffer nbytes position canwrite copies
    Served strict s out.1 p out.2 (Resumes s p rwFlag ∧ Unbroken s p f nbytes copies) := by
  cases outcome with
  | @stop s' result inv woken ends =>
    have entry := woken.resting p call.ready
    have resting : (s'.fproc p).fpSuspended = false := by
      rw [entry]
      exact call.ready
    refine ⟨inv, (woken.undisturbed p).toApart, fun _ => resting, fun ⟨resumes, _, unbroken⟩ => ?_⟩
    have nothing : s.history.moved p = 0 := by
      cases rwFlag with
      | reading => exact resumes.2 rfl
      | writing =>
        obtain ⟨other, -⟩ | ⟨code, -, refuses⟩ := ends
        · cases other
        · rw [← resumes.1]
          by_contra moved
          have accepted := (unbroken moved).2
          rw [call.ino, ← flags, ← begins rfl] at accepted
          exact accepted (refuses rfl)
    refine ⟨?_, .of_resting resting (by rw [entry, resumes.1, nothing])⟩
    obtain ⟨-, rfl⟩ | ⟨code, rfl, -⟩ := ends
    · change 0 = s'.history.moved p
      rw [woken.history, nothing]
    · change s'.history.moved p = 0
      rw [woken.history, nothing]
  | @suspend s' inv woken =>
    refine ⟨inv, (Apart.suspend s p _ fd _ _ _).trans (woken.undisturbed p).toApart,
      fun more => absurd rfl more, fun ⟨resumes, _⟩ => ⟨trivial, ?_⟩⟩
    have saved := suspend_fproc s p .xpipe fd rwFlag.call buffer nbytes
    obtain ⟨-, -, -, history, -⟩ := suspend_frame s p .xpipe fd rwFlag.call buffer nbytes
    have inCall := (woken.pipeCall p).mpr (by rw [saved, update_self]; exact ⟨rfl, rfl⟩)
    change Tally s' p
    rw [Tally, if_pos inCall, woken.fpCumIoPartial, woken.fpCall, woken.history, history, saved,
      update_self]
    refine ⟨resumes.1, fun read => resumes.2 ?_⟩
    cases rwFlag with
    | reading => rfl
    | writing => cases read
  | @go s' canwrite inv woken room reads writes =>
    have served := @moveBytes_served _ _ _ _ _ _ _ oflags _ _ _ _ copies inv (call.woken woken)
        (fun allowed => (start allowed).trans
          (by cases rwFlag <;> simp only [endPosition, woken.filp, woken.inode]))
        (by rwa [woken.history]) room (by rwa [woken.inode])
      fun writing => ⟨woken.hasEnd.mpr (writes writing).1, (writes writing).2⟩
    refine ⟨served.inv, (woken.undisturbed p).toApart.trans served.apart, served.resting,
      fun ⟨resumes, unbroken⟩ => served.told ⟨?_, ?_⟩⟩
    · rwa [Resumes, woken.fpCumIoPartial, woken.history]
    · rw [CopiesFine, woken.fpCumIoPartial]
      exact unbroken.1

theorem Invariant.setContents (inv : Invariant strict s)
    (resting : (s.fproc p).fpSuspended = false) (rip : InodeNr) {contents : Nat → UInt8}
    (same : strict → contents = (s.inode rip).contents) :
    Invariant strict (s.modifyInode rip fun entry => { entry with contents }) := by
  by_cases allowed : strict
  case pos =>
    have unchanged : (s.modifyInode rip fun entry => { entry with contents }) = s := by
      rw [same allowed]
      simp [State.modifyInode]
    rw [unchanged]
    exact inv
  have inodes : ∀ other,
      (update s.inode rip { s.inode rip with contents } other).iCount = (s.inode other).iCount ∧
      (update s.inode rip { s.inode rip with contents } other).iPipe = (s.inode other).iPipe := by
    intro other
    by_cases mine : other = rip
    · subst mine
      simp
    · simp [mine]
  have ends : (s.modifyInode rip fun entry => { entry with contents }).files.Ends strict :=
    inv.ends.adjust rip rfl rfl (fun _ => ⟨rfl, rfl, rfl, rfl⟩)
      (fun always => absurd always allowed) (fun other away => update_of_ne away _ _)
      (inodes rip).1 (inodes rip).2 (fun always => absurd always allowed)
      fun always => absurd always allowed
  have framed : Invariant strict (s.modifyInode rip fun entry => { entry with contents }) ∧
      (s.modifyInode rip fun entry => { entry with contents }).waits = s.waits :=
    inv.frame (update_eq_self p s.fproc).symm resting resting rfl rfl rfl rfl rfl
      (fun _ _ => rfl) ends (fun _ g _ _ => ⟨rfl, rfl, (inodes _).2⟩)
      (fun always => absurd always allowed) (fun always => absurd always allowed)
      fun always => absurd always allowed
  exact framed.1

/-- A transfer on a pipe is served, or its caller is suspended. -/
theorem readWritePipe_served (inv : Invariant strict s) (call : PipeCall s p fd f rip rwFlag)
    (some : 0 < nbytes)
    (source : rwFlag = .writing → buffer = fun i => s.history.source p (s.history.moved p + i)) :
    let out := readWritePipe s p f rwFlag fd buffer nbytes copies
    Served strict s out.1 p out.2 (Resumes s p rwFlag ∧ Unbroken s p f nbytes copies) := by
  have start := fun allowed => startPosition_eq inv allowed call
  unfold readWritePipe
  dsimp only
  rw [call.ino]
  split
  case isTrue big =>
    refine .of_error inv call.ready _ fun ⟨resumes, _, unbroken⟩ => ⟨resumes.1, ?_⟩
    by_contra moved
    have fits := (unbroken moved).1
    rw [call.ino, big.2] at fits
    cases fits
  case isFalse =>
    -- a strict write starts at the end of the data, so that no hole is left to be cleared
    obtain ⟨contents, same, kept⟩ : ∃ contents, (strict → contents = (s.inode rip).contents) ∧
        (if rwFlag = .writing ∧ (s.inode rip).iSize < startPosition s f rwFlag then
          s.modifyInode rip fun entry => { entry with contents := clearZone entry entry.iSize }
        else s) = s.modifyInode rip fun entry => { entry with contents } := by
      split
      case isTrue beyond =>
        refine ⟨_, fun allowed => ?_, rfl⟩
        obtain ⟨rfl, hole⟩ := beyond
        rw [start allowed] at hole
        exact absurd hole (Nat.lt_irrefl _)
      case isFalse => exact ⟨(s.inode rip).contents, fun _ => rfl, by simp [State.modifyInode]⟩
    rw [kept]
    let s₁ := s.modifyInode rip fun entry => { entry with contents }
    have inv₁ : Invariant strict s₁ := inv.setContents call.ready rip same
    have inodes : ∀ other, (s₁.inode other).iSize = (s.inode other).iSize ∧
        (s₁.inode other).iPipe = (s.inode other).iPipe ∧
        (s₁.inode other).sMaxSize = (s.inode other).sMaxSize := by
      intro other
      by_cases mine : other = rip
      · subst mine
        simp [s₁]
      · simp [s₁, mine]
    have call₁ : PipeCall s₁ p fd f rip rwFlag :=
      ⟨call.ready, call.refers, call.ino, call.mode, (inodes rip).2.1.trans call.isPipe⟩
    have begins : ∀ rwFlag, startPosition s₁ f rwFlag = startPosition s f rwFlag := by
      intro rwFlag
      simp only [startPosition, (inodes _).1]
      rfl
    have start₁ : strict → startPosition s f rwFlag = endPosition s₁ f rip rwFlag := by
      intro allowed
      rw [← startPosition_eq inv₁ allowed call₁, begins]
    have checked : Checked strict s₁ p fd rip rwFlag (s.filp f).filpFlags buffer nbytes
        (startPosition s f rwFlag) (pipeCheck s₁ p rip rwFlag (s.filp f).filpFlags fd buffer nbytes
          (startPosition s f rwFlag)) := by
      cases rwFlag with
      | reading => exact pipeCheckRead_checked inv₁ call₁ some (by simp [startPosition, s₁])
      | writing => exact pipeCheckWrite_checked inv₁ call₁ some start₁ (source rfl)
    have served := @Checked.served strict s₁ p f fd rip rwFlag buffer nbytes copies _ _ _ checked
      call₁ rfl start₁ (fun writing => by rw [writing, begins]) source
    have apart₁ : Apart p s s₁ :=
      .of_update (update_eq_self p s.fproc).symm rfl rfl (fun _ _ => rfl) rfl
    refine ⟨served.inv, apart₁.trans served.apart, served.resting,
      fun ⟨resumes, copies, unbroken⟩ =>
      served.told ⟨resumes, copies, fun moved => ?_⟩⟩
    obtain ⟨fits, accepted⟩ := unbroken moved
    rw [growsTooBig, ← (inodes _).2.2] at fits
    rw [← begins] at accepted
    exact ⟨fits, accepted⟩

theorem getFilp_eq_some {fild : Int} (found : getFilp s p fild = some (fd, f)) :
    fild = fd.val ∧ (s.fproc p).fpFilp fd = some f := by
  unfold getFilp at found
  split at found
  case isTrue valid =>
    obtain ⟨g, refers, same⟩ := Option.map_eq_some_iff.mp found
    obtain ⟨rfl, rfl⟩ := Prod.mk.inj same
    exact ⟨(Int.toNat_of_nonneg valid.1).symm, refers⟩
  case isFalse => cases found

theorem onPipe_of_found {fild : Int} (found : getFilp s p fild = some (fd, f)) :
    onPipe s p fild = (s.inode (s.filp f).filpIno).iPipe := by
  rw [onPipe, found]
  rfl

theorem readWrite_pipe (inv : Invariant strict s) (resting : (s.fproc p).fpSuspended = false)
    {fild nbytes : Int} {io : Io} (found : getFilp s p fild = some (fd, f))
    (isPipe : (s.inode (s.filp f).filpIno).iPipe = true)
    (source : rwFlag = .writing → buffer = fun i => s.history.source p (s.history.moved p + i)) :
    let out := readWrite s p rwFlag fild buffer nbytes io
    Served strict s out.1 p out.2 (Resumes s p rwFlag ∧ Unbroken s p f nbytes.toNat io.copies ∧
      ((s.fproc p).fpCumIoPartial ≠ 0 → 0 < nbytes ∧ (s.filp f).filpMode rwFlag = true)) := by
  unfold readWrite
  rw [found]
  dsimp only
  split
  case isTrue negative =>
    refine .of_error inv resting _ fun ⟨resumes, _, asked⟩ => ⟨resumes.1, ?_⟩
    by_contra moved
    exact absurd (asked moved).1 (by omega)
  split
  case isTrue closed =>
    refine .of_error inv resting _ fun ⟨resumes, _, asked⟩ => ⟨resumes.1, ?_⟩
    by_contra moved
    rw [(asked moved).2] at closed
    cases closed
  split
  case isTrue zero =>
    have kept := @Served.of_error _ _ _ (Resumes s p rwFlag ∧ Unbroken s p f
      nbytes.toNat io.copies ∧
        ((s.fproc p).fpCumIoPartial ≠ 0 → 0 < nbytes ∧ (s.filp f).filpMode rwFlag = true))
      inv resting .einval fun ⟨resumes, _, asked⟩ => ⟨resumes.1, by
        by_contra moved
        exact absurd (asked moved).1 (by omega)⟩
    exact ⟨kept.inv, kept.apart, fun _ => resting, fun fine =>
      ⟨(kept.told fine).1.symm, (kept.told fine).2⟩⟩
  case isFalse negative open' zero =>
    have mode : (s.filp f).filpMode rwFlag = true := by simpa using open'
    have call : PipeCall s p fd f _ rwFlag :=
      ⟨resting, (getFilp_eq_some found).2, rfl, mode, isPipe⟩
    have served := @readWritePipe_served _ _ _ _ _ _ _ _ nbytes.toNat io.copies inv call
        (by omega) source
    exact ⟨served.inv, served.apart, served.resting, fun fine => served.told ⟨fine.1, fine.2.1⟩⟩

/-- A call to read or write with a descriptor for another file, or with none. -/
theorem readWrite_file (inv : Invariant strict s) (resting : (s.fproc p).fpSuspended = false)
    {fild nbytes : Int} {io : Io} (noPipe : onPipe s p fild = false) :
    let s' := (readWrite s p rwFlag fild buffer nbytes io).1
    Invariant strict s' ∧ Apart p s s' ∧ ((s.fproc p).fpCumIoPartial = 0 → Tally s' p) := by
  have nothing : Invariant strict s ∧ Apart p s s ∧ ((s.fproc p).fpCumIoPartial = 0 → Tally s p) :=
    ⟨inv, (Undisturbed.refl p s).toApart, .of_resting resting⟩
  unfold readWrite
  split
  · exact nothing
  cases found : getFilp s p fild with
  | none => exact nothing
  | some entry =>
    obtain ⟨fd, f⟩ := entry
    rw [onPipe_of_found found] at noPipe
    dsimp only
    split
    · exact nothing
    split
    · exact nothing
    rw [if_neg (by rw [noPipe]; exact Bool.false_ne_true)]
    cases file : io.file with
    | suspended task =>
      obtain ⟨inv', -⟩ := @Invariant.suspend_other _ _ _ fd buffer nbytes.toNat inv resting
          (.device task) rwFlag.call (by simp) (fun lock => by cases lock)
        fun nr _ g refers => by
          rw [(getFilp_eq_some found).2] at refers
          rwa [← Option.some.inj refers]
      refine ⟨inv', .suspend s p _ fd _ _ _, fun zero => ?_⟩
      have saved := suspend_fproc s p (.device task) fd rwFlag.call buffer nbytes.toNat
      rw [Tally, saved, update_self, if_neg fun inCall => by cases inCall.2]
      exact zero
    | answer result =>
      cases result with
      | error code => exact nothing
      | ok count =>
        obtain ⟨inv', -⟩ := inv.setPartial resting 0
        have apart := Apart.modifyFproc s p fun entry => { entry with fpCumIoPartial := 0 }
        exact ⟨inv', apart, fun _ => .of_resting (by simpa using resting) (by simp)⟩

end Call

end Minix.Fs
