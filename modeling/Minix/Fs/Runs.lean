/-
This file proves that every step of the file system keeps the invariant, which therefore holds in
every state that a run reaches.

Most messages leave the calls on pipes alone, so that it is enough to know who sent them
(`serve_calm`). Opening a file, reading and writing, forking, exiting and interrupting a call are
looked at one by one.
-/

import Minix.Fs.Processes

namespace Minix.Fs

open Function (update update_of_ne update_self update_eq_self)

variable {strict : Prop}

/-! ### Notes -/

section Notes

variable {s : State} {p : Slot}

theorem Invariant.note (inv : Invariant strict s) (history : History)
    (streams : history.written = s.history.written ∧ history.taken = s.history.taken)
    (calls : history.source = s.history.source ∧ history.moved = s.history.moved)
    (interrupted : history.interrupted = s.history.interrupted) :
    Invariant strict { s with history } := by
  obtain ⟨written, taken⟩ := streams
  obtain ⟨source, moved⟩ := calls
  have files : ({ s with history } : State).files = s.files := by
    simp only [State.files, written, taken]
    rfl
  have queue : Queue { s with history } := by
    refine (@Queue.frame _ { s with history } inv.queue (fun _ => rfl) (fun _ => rfl)
      (fun _ _ => ⟨rfl, rfl, rfl, rfl, fun _ _ => ⟨rfl, rfl, rfl⟩⟩) ?_ rfl).1
    rw [interrupted]
  refine ⟨⟨files ▸ inv.ends, queue, fun q inCall call => ?_⟩, fun allowed => inv.waiting allowed⟩
  rw [source, moved]
  exact inv.sources q inCall call

theorem replyPipe_keeps (inv : Invariant strict s) (whom : Slot) (result : Result) :
    Invariant strict (replyPipe s whom result) := by
  unfold replyPipe
  split
  · exact inv.note _ ⟨rfl, rfl⟩ ⟨rfl, rfl⟩ rfl
  · exact inv

theorem replyPipe_frame (s : State) (whom : Slot) (result : Result) :
    (replyPipe s whom result).fproc = s.fproc ∧ (replyPipe s whom result).live = s.live ∧
      (replyPipe s whom result).history.moved = s.history.moved ∧
      (replyPipe s whom result).history.source = s.history.source := by
  unfold replyPipe
  split <;> exact ⟨rfl, rfl, rfl, rfl⟩

theorem startCall_keeps (inv : Invariant strict s) (resting : (s.fproc p).fpSuspended = false)
    (buffer : Nat → UInt8) : Invariant strict (startCall s p buffer) := by
  have queue : Queue (startCall s p buffer) :=
    (@Queue.frame _ (startCall s p buffer) inv.queue (fun _ => rfl) (fun _ => rfl)
      (fun _ _ => ⟨rfl, rfl, rfl, rfl, fun _ _ => ⟨rfl, rfl, rfl⟩⟩) rfl rfl).1
  refine ⟨⟨inv.ends, queue, fun q inCall call => ?_⟩, fun allowed => inv.waiting allowed⟩
  have other : q ≠ p := by
    rintro rfl
    rw [show (startCall s q buffer).fproc = s.fproc from rfl, resting] at inCall
    cases inCall.1
  have source : (startCall s p buffer).history.source q = s.history.source q :=
    update_of_ne other _ _
  have moved : (startCall s p buffer).history.moved q = s.history.moved q :=
    update_of_ne other _ _
  rw [source, moved]
  exact inv.sources q inCall call

end Notes

/-! ### Messages that leave the calls on pipes alone -/

/-- What holds between two turns of the main loop. -/
structure Kept (strict : Prop) (s : State) : Prop where
  inv : Invariant strict s
  vacant : Vacant s

/-- Opening a file, reading and writing, forking, exiting and interrupting a call have to do with
calls that may be suspended, or with processes that come and go. -/
def Message.calm : Message → Bool
  | .open .. | .readWrite .. | .fork .. | .exit .. | .unpause .. => false
  | _ => true

section Calm

variable {s s' : State} {p : Slot}

theorem Works.kept (works : Works strict p s s') (vacant : Vacant s) (ready : Ready s p) :
    Kept strict s' ∧ ∃ p, Undisturbed p s s' :=
  ⟨⟨works.inv, vacant.apart works.undisturbed.toApart ready.1⟩, p, works.undisturbed⟩

theorem serve_calm (kept : Kept strict s) {m : Message} (calm : m.calm = true)
    (contract : Contract s (.message m)) (disciplined : strict → Disciplined s (.message m)) :
    Kept strict (serve s m) ∧ ∃ p, Undisturbed p s (serve s m) := by
  obtain ⟨inv, vacant⟩ := kept
  cases m with
  | «open» | readWrite | fork | exit | unpause => cases calm
  | pipe p rootDev inode =>
    obtain ⟨ready, unused⟩ := contract
    refine (doPipe_works inv ready.2 rootDev inode ?_).kept vacant ready
    rintro rip rfl
    exact unused
  | close p fd unlocked => exact (doClose_works inv contract.2 fd unlocked).1.kept vacant contract
  | dupfd p fd addr => exact (doDupfd_works inv contract.2 fd addr).kept vacant contract
  | dup2 p fd fd₂ unlocked =>
    exact (doDup2_works inv contract.2 fd fd₂ unlocked).kept vacant contract
  | setfd p fd cloexec => exact (doSetfd_works inv contract.2 fd cloexec).kept vacant contract
  | setfl p fd flags =>
    exact (doSetfl_works inv contract.2 fd flags disciplined).kept vacant contract
  | lock p fd lock =>
    obtain ⟨inv', undisturbed⟩ := doLock_keeps inv contract.2 fd lock
    exact ⟨⟨inv', vacant.apart undisturbed.toApart contract.1⟩, p, undisturbed⟩
  | ioctl p fd file =>
    obtain ⟨inv', undisturbed⟩ := doIoctl_keeps inv contract.2 fd file
    exact ⟨⟨inv', vacant.apart undisturbed.toApart contract.1⟩, p, undisturbed⟩
  | exec p unlocked => exact (closeAll_works inv contract.2 unlocked _).1.kept vacant contract
  | revive p =>
    have inv' := revive_keeps inv contract
    have undisturbed := (revive_woken s p).undisturbed p
    refine ⟨⟨inv', ?_⟩, p, undisturbed⟩
    cases live : s.live p with
    | true => exact vacant.apart undisturbed.toApart live
    | false =>
      have idle : ¬ Hanging s p := fun hanging => by
        rw [Hanging, (vacant p live).1] at hanging
        cases hanging.1
      change Vacant (Fs.revive s p)
      rw [revive_of_not_hanging idle]
      exact vacant
  | change p dir path => exact (change_works inv contract.2 dir path).kept vacant contract
  | chdirMm p user => exact (doChdirMm_works inv contract.1.2 user).kept vacant contract.1
  | mount p dev mounted => exact (doMount_works inv contract.2 dev mounted).kept vacant contract
  | umount p dev => exact (unmount_works inv contract.2 dev).kept vacant contract

end Calm

/-! ### Opening files -/

section Open

variable {s s' : State} {p : Slot} {fsCall : CallNr} {bits : RwFlag → Bool} {flags : Flags}
  {path : Except Errno (Found × Opened)}

theorem pipeOpen_error {rip : InodeNr} {nonblock : Bool} {fd : Fd} {code : Errno}
    (failed : pipeOpen s p rip bits nonblock fd fsCall = (s', .error code)) :
    s' = s.modifyInode rip fun entry => { entry with iPipe := true } := by
  unfold pipeOpen at failed
  dsimp only at failed
  generalize (if bits .writing then RwFlag.reading else .writing) = other at failed
  split at failed
  · split at failed
    · exact (Prod.mk.inj failed).1.symm
    · cases (Prod.mk.inj failed).2
  · split at failed <;> cases (Prod.mk.inj failed).2

theorem openFails_fpFilp {fd : Fd} (free : (s.fproc p).fpFilp fd = none)
    {f : FilpNr} {rip : InodeNr} (claimed : s'.fproc = (s.setFd p fd (some f)).fproc) :
    ((openFails s' p fd f rip).fproc p).fpFilp = (s.fproc p).fpFilp := by
  have back : update (s.fproc p).fpFilp fd none = (s.fproc p).fpFilp := by
    rw [← free, update_eq_self]
  simp [openFails, unclaim, putInode_eq, State.setFd, claimed, back]

/-- An open call that reports an error leaves the descriptors of the caller as they were. -/
theorem commonOpen_error {code : Errno}
    (failed : (commonOpen s p fsCall bits flags path).2 = .error code) :
    ((commonOpen s p fsCall bits flags path).1.fproc p).fpFilp = (s.fproc p).fpFilp := by
  unfold commonOpen at failed ⊢
  cases found : getFd s p 0 bits with
  | error => rfl
  | ok out =>
    obtain ⟨s₁, fd, f⟩ := out
    obtain ⟨free, -, rfl⟩ := getFd_eq_ok found
    rw [found] at failed
    cases path with
    | error => rfl
    | ok out =>
      obtain ⟨⟨rip, dev⟩, opened⟩ := out
      have claimed : (fillFilp (claim (getInode (reserve s f bits) rip dev) p fd f) f rip
          flags).fproc = (s.setFd p fd (some f)).fproc := by
        simp [fillFilp, claim, State.setFd]
      cases opened with
      | plain => cases failed
      | refused => exact openFails_fpFilp free claimed
      | fifo =>
        dsimp only at failed ⊢
        generalize opening : pipeOpen _ p rip bits flags.nonblock fd fsCall = out at failed ⊢
        obtain ⟨s₂, ⟨_⟩ | ⟨error⟩ | _⟩ := out
        · cases failed
        · rw [pipeOpen_error opening]
          exact openFails_fpFilp free claimed
        · cases failed

/-- Opening a file leaves the calls on pipes alone, and the descriptors too if it fails. -/
theorem serveOpen_keeps (kept : Kept strict s)
    (contract : Contract s (.message (.open p fsCall bits flags path)))
    (disciplined : strict → Disciplined s (.message (.open p fsCall bits flags path))) :
    let s' := serveOpen (startOpen s p) p fsCall bits flags path
    Kept strict s' ∧ (∀ q, SameCall q s s') ∧ s'.live = s.live ∧
      s'.history.answers = s.history.answers ∧
      (s'.history.failedOpens = s.history.failedOpens ∨
        s'.history.failedOpens =
          s.history.failedOpens ++ [⟨p, (s.fproc p).fpFilp, (s.fproc p).fpFilp⟩]) := by
  have started : Invariant strict (startOpen s p) :=
    kept.inv.note _ ⟨rfl, rfl⟩ ⟨rfl, rfl⟩ rfl
  have vacant : Vacant (startOpen s p) := kept.vacant
  obtain ⟨inv, undisturbed⟩ := commonOpen_keeps started contract.1.2 path contract disciplined
  have failure : ∀ code, (commonOpen (startOpen s p) p fsCall bits flags path).2 = .error code →
      ((commonOpen (startOpen s p) p fsCall bits flags path).1.fproc p).fpFilp =
        (s.fproc p).fpFilp := fun code => commonOpen_error
  unfold serveOpen
  generalize commonOpen (startOpen s p) p fsCall bits flags path = out at inv undisturbed failure
  obtain ⟨s₁, result⟩ := out
  have vacant₁ : Vacant s₁ := vacant.apart undisturbed.toApart contract.1.1
  have calls : ∀ q, SameCall q s s₁ := fun q => by
    obtain ⟨sum, pipeCall, saved, moved⟩ := undisturbed.sameCall q
    exact ⟨sum, pipeCall, saved, moved⟩
  have replies := undisturbed.replies
  have answers : s₁.history.answers = s.history.answers := congrArg (fun r => r.1) replies
  have descriptors : s₁.history.descriptors = update s.history.descriptors p (s.fproc p).fpFilp :=
    congrArg (fun r => r.2.1) replies
  have fails : s₁.history.failedOpens = s.history.failedOpens := congrArg (fun r => r.2.2) replies
  have succeeds : Kept strict s₁ ∧ (∀ q, SameCall q s s₁) ∧ s₁.live = s.live ∧
      s₁.history.answers = s.history.answers ∧
      (s₁.history.failedOpens = s.history.failedOpens ∨ s₁.history.failedOpens =
        s.history.failedOpens ++ [⟨p, (s.fproc p).fpFilp, (s.fproc p).fpFilp⟩]) :=
    ⟨⟨inv, vacant₁⟩, calls, undisturbed.live, answers, .inl fails⟩
  cases result with
  | ok | suspend => exact succeeds
  | error code =>
    refine ⟨⟨inv.note _ ⟨rfl, rfl⟩ ⟨rfl, rfl⟩ rfl, vacant₁⟩, fun q => ?_, undisturbed.live, answers,
      .inr ?_⟩
    · obtain ⟨sum, pipeCall, saved, moved⟩ := calls q
      exact ⟨sum, pipeCall, saved, moved⟩
    · change s₁.history.failedOpens ++ [⟨p, s₁.history.descriptors p, (s₁.fproc p).fpFilp⟩] = _
      rw [fails, descriptors, update_self, failure code rfl]

end Open

/-! ### Reading and writing -/

section ReadWrite

variable {s : State} {p : Slot} {rwFlag : RwFlag} {fild : Int} {buffer : Nat → UInt8}
  {nbytes : Int} {io : Io}

/-- No error ends a call to read or write after a part of its bytes has been moved. -/
def Unspoilt (s : State) (p : Slot) (rwFlag : RwFlag) (fild nbytes : Int) (io : Io) : Prop :=
  Resumes s p rwFlag ∧ (onPipe s p fild = false → (s.fproc p).fpCumIoPartial = 0) ∧
    ∀ fd f, getFilp s p fild = some (fd, f) → (s.inode (s.filp f).filpIno).iPipe = true →
      Unbroken s p f nbytes.toNat io.copies ∧
        ((s.fproc p).fpCumIoPartial ≠ 0 → 0 < nbytes ∧ (s.filp f).filpMode rwFlag = true)

/-- What a call to read or write comes to, before it is answered and after. -/
theorem serveReadWrite_keeps (inv : Invariant strict s) (resting : (s.fproc p).fpSuspended = false)
    (source : rwFlag = .writing → buffer = fun i => s.history.source p (s.history.moved p + i)) :
    ∃ s₁, Invariant strict s₁ ∧ Apart p s s₁ ∧
      (Unspoilt s p rwFlag fild nbytes io → Tally s₁ p) ∧
      (serveReadWrite s p rwFlag fild buffer nbytes io = s₁ ∨
        ∃ result, serveReadWrite s p rwFlag fild buffer nbytes io = replyPipe s₁ p result ∧
          result ≠ .suspend ∧ (Unspoilt s p rwFlag fild nbytes io → Reports s₁ p result)) := by
  unfold serveReadWrite
  cases piped : onPipe s p fild with
  | false =>
    obtain ⟨inv', apart, tally⟩ := @readWrite_file _ _ _ rwFlag buffer inv resting _ nbytes io
        piped
    generalize readWrite s p rwFlag fild buffer nbytes io = out at inv' apart tally
    obtain ⟨s₁, result⟩ := out
    refine ⟨s₁, inv', apart, fun unspoilt => tally (unspoilt.2.1 piped), .inl ?_⟩
    cases result <;> rfl
  | true =>
    have piped' := piped
    rw [onPipe, Option.any_eq_true] at piped'
    obtain ⟨⟨fd, f⟩, found, isPipe⟩ := piped'
    have served := @readWrite_pipe _ _ _ _ _ rwFlag _ inv resting _ nbytes io found isPipe source
    generalize readWrite s p rwFlag fild buffer nbytes io = out at served
    obtain ⟨s₁, result⟩ := out
    have told (unspoilt : Unspoilt s p rwFlag fild nbytes io) : Reports s₁ p result ∧ Tally s₁ p :=
      served.told ⟨unspoilt.1, unspoilt.2.2 fd f found isPipe⟩
    refine ⟨s₁, served.inv, served.apart, fun unspoilt => (told unspoilt).2, ?_⟩
    cases result with
    | suspend => exact .inl rfl
    | ok value => exact .inr ⟨.ok value, rfl, by simp, fun unspoilt => (told unspoilt).1⟩
    | error code => exact .inr ⟨.error code, rfl, by simp, fun unspoilt => (told unspoilt).1⟩

end ReadWrite

/-! ### Every step -/

section Step

variable {s s' s₁ : State} {p : Slot}

theorem Kept.answered (vacant : Vacant s) (exists' : s.live p = true) (inv : Invariant strict s₁)
    (apart : Apart p s s₁) (answered : s' = s₁ ∨ ∃ result, s' = replyPipe s₁ p result) :
    Kept strict s' := by
  have vacant₁ := vacant.apart apart exists'
  rcases answered with rfl | ⟨result, rfl⟩
  · exact ⟨inv, vacant₁⟩
  · refine ⟨replyPipe_keeps inv p result, fun q dead => ?_⟩
    obtain ⟨fproc, live, -⟩ := replyPipe_frame s₁ p result
    rw [live] at dead
    rw [fproc]
    exact vacant₁ q dead

theorem setLive_keeps (inv : Invariant strict s) (p : Slot) (live : Bool) :
    Invariant strict (setLive s p live) := by
  have queue : Queue (setLive s p live) :=
    (@Queue.frame _ (setLive s p live) inv.queue (fun _ => rfl) (fun _ => rfl)
      (fun _ _ => ⟨rfl, rfl, rfl, rfl, fun _ _ => ⟨rfl, rfl, rfl⟩⟩) rfl rfl).1
  exact ⟨⟨inv.ends, queue, inv.sources⟩, fun allowed => inv.waiting allowed⟩

/-- A message that is served keeps the invariant. -/
theorem serve_keeps (kept : Kept strict s) (calm : s.reviving = 0) {m : Message}
    (contract : Contract s (.message m)) (disciplined : strict → Disciplined s (.message m)) :
    Kept strict (serve s m) := by
  cases quiet : m.calm with
  | true => exact (serve_calm kept quiet contract disciplined).1
  | false =>
    obtain ⟨inv, vacant⟩ := kept
    cases m with
    | «open» p fsCall bits flags path => exact
        (serveOpen_keeps ⟨inv, vacant⟩ contract disciplined).1
    | readWrite p rwFlag fd buffer nbytes io =>
      have started := startCall_keeps inv contract.2 buffer
      obtain ⟨s₁, inv₁, apart, -, answered⟩ := @serveReadWrite_keeps _ _ p rwFlag fd buffer nbytes
          io started contract.2
        fun _ => by simp [startCall]
      refine Kept.answered (s := startCall s p buffer) vacant contract.1 inv₁ apart
        (answered.imp_right fun ⟨result, same, _⟩ => ⟨result, same⟩)
    | fork parent child =>
      obtain ⟨inv', fproc, live, -⟩ := doFork_keeps inv vacant contract.2 contract.1.2
      refine ⟨setLive_keeps inv' child true, fun q dead => ?_⟩
      change update (doFork s parent child).live child true q = false at dead
      have other : q ≠ child := by
        rintro rfl
        rw [update_self] at dead
        cases dead
      rw [update_of_ne other, live] at dead
      change ((doFork s parent child).fproc q).fpSuspended = false ∧ _
      rw [show (serve s (.fork parent child)).fproc = _ from fproc, update_of_ne other,
        fproc, update_of_ne other]
      exact vacant q dead
    | exit p unlocked =>
      obtain ⟨inv', apart, left⟩ := doExit_keeps (setLive_keeps inv p false) calm
        (show (setLive s p false).live p = false by simp [setLive]) unlocked
      refine ⟨inv', fun q dead => ?_⟩
      change (doExit (setLive s p false) p unlocked).live q = false at dead
      rw [apart.live] at dead
      by_cases same : q = p
      · subst same
        exact left
      · have before : s.live q = false := by simpa [setLive, same] using dead
        have idle := vacant q before
        have entry := apart.others q same idle.1
        change ((doExit (setLive s p false) p unlocked).fproc q).fpSuspended = false ∧
          ((doExit (setLive s p false) p unlocked).fproc q).fpFilp = _ ∧
          ((doExit (setLive s p false) p unlocked).fproc q).dir = _
        rw [entry]
        exact idle
    | unpause p =>
      refine ⟨doUnpause_keeps inv calm p, fun q dead => ?_⟩
      obtain ⟨fproc, -, ⟨-, -, live⟩, -⟩ := doUnpause_frame s p
      change (doUnpause (noteInterrupt s p) p).live q = false at dead
      rw [live] at dead
      obtain ⟨resting, filps, dirs⟩ := vacant q dead
      change ((doUnpause (noteInterrupt s p) p).fproc q).fpSuspended = false ∧
        ((doUnpause (noteInterrupt s p) p).fproc q).fpFilp = _ ∧
        ((doUnpause (noteInterrupt s p) p).fproc q).dir = _
      rw [fproc]
      by_cases same : q = p
      · subst same
        rw [update_self]
        refine ⟨rfl, filps, ?_⟩
        rw [← dirs]
        funext dir
        cases dir <;> rfl
      · rw [update_of_ne same]
        exact ⟨resting, filps, dirs⟩
    | pipe | close | dupfd | dup2 | setfd | setfl | lock | ioctl | exec | revive | change | chdirMm
    | mount | umount => cases quiet

/-- A process that is revived makes its call again: a lock request, or a call on a pipe with what
was saved. -/
theorem resume_eq_some (inv : Invariant strict s) {io : Io} {lock : Lock}
    (found : getWork s = some (p, s₁)) (resumed : resume s₁ p io lock = some s') :
    ((s.fproc p).fpTask = .xlock ∧ s' = (doLock s₁ p (s.fproc p).fpFd.val lock).1) ∨
      ((s.fproc p).fpSuspended = true ∧ (s.fproc p).fpTask = .xpipe) ∧
        ∃ rwFlag : RwFlag, (s.fproc p).fpCall = rwFlag.call ∧ 0 < (s.fproc p).fpNbytes ∧
          (∃ f, (s.fproc p).fpFilp (s.fproc p).fpFd = some f ∧ (s.filp f).filpMode rwFlag = true ∧
            (s.inode (s.filp f).filpIno).iPipe = true) ∧
          s' = serveReadWrite s₁ p rwFlag (s.fproc p).fpFd.val (s.fproc p).fpBuffer
            (s.fproc p).fpNbytes io := by
  obtain ⟨revived, same⟩ := getWork_eq_some found
  have entry : s₁.fproc p = { s.fproc p with fpSuspended := false, fpRevived := false } := by
    rw [same]
    simp
  unfold resume at resumed
  rw [entry] at resumed
  dsimp only at resumed
  rcases inv.revived_call revived with ⟨task, call⟩ | ⟨inCall, rwFlag, call, some, found⟩
  · rw [call] at resumed
    exact .inl ⟨task, (Option.some.inj resumed).symm⟩
  · refine .inr ⟨inCall, rwFlag, call, some, found, ?_⟩
    rw [call] at resumed
    cases rwFlag <;> exact (Option.some.inj resumed).symm

/-- A process that is revived exists, and the slots without a process are left alone. -/
theorem Vacant.getWork (vacant : Vacant s) (inv : Invariant strict s)
    (found : Fs.getWork s = some (p, s₁)) : s.live p = true ∧ Vacant s₁ := by
  obtain ⟨revived, rfl⟩ := getWork_eq_some found
  have live : s.live p = true := by
    by_contra dead
    have resting := (vacant p (Bool.not_eq_true _ ▸ dead)).1
    rw [((inv.queue.parked p).revived revived).1] at resting
    cases resting
  refine ⟨live, fun q dead => ?_⟩
  have other : q ≠ p := by
    rintro rfl
    exact absurd (live.symm.trans dead) (by simp)
  have entry : (s.modifyFproc p fun entry =>
      { entry with fpSuspended := false, fpRevived := false }).fproc q = s.fproc q := by
    simp [other]
  change ((s.modifyFproc p fun entry =>
      { entry with fpSuspended := false, fpRevived := false }).fproc q).fpSuspended = false ∧
    ((s.modifyFproc p fun entry =>
      { entry with fpSuspended := false, fpRevived := false }).fproc q).fpFilp = _ ∧
    ((s.modifyFproc p fun entry =>
      { entry with fpSuspended := false, fpRevived := false }).fproc q).dir = _
  rw [entry]
  exact vacant q dead

/-- The step lemma: every turn of the main loop keeps the invariant. -/
theorem step_keeps (kept : Kept strict s) {input : Input} (contract : Contract s input)
    (disciplined : strict → Disciplined s input) (stepped : step s input = some s') :
    Kept strict s' := by
  cases input with
  | message m =>
    simp only [step] at stepped
    obtain ⟨calm, rfl⟩ := Option.ite_some_none_eq_some.mp stepped
    exact serve_keeps kept calm contract disciplined
  | revived io lock =>
    obtain ⟨⟨p, s₁⟩, found, resumed⟩ := Option.bind_eq_some_iff.mp stepped
    obtain ⟨live, vacant⟩ := kept.vacant.getWork kept.inv found
    have inv := getWork_keeps kept.inv found
    have same := (getWork_eq_some found).2
    have resting : (s₁.fproc p).fpSuspended = false := by simp [same]
    have exists' : s₁.live p = true := by simpa [same] using live
    obtain ⟨-, rfl⟩ | ⟨inCall, rwFlag, call, -, -, rfl⟩ := resume_eq_some kept.inv found resumed
    · obtain ⟨inv', undisturbed⟩ := doLock_keeps inv resting (s.fproc p).fpFd.val lock
      exact ⟨inv', vacant.apart undisturbed.toApart exists'⟩
    · obtain ⟨s₂, inv₂, apart, -, answered⟩ := @serveReadWrite_keeps _ _ p rwFlag
        ((s.fproc p).fpFd.val) ((s.fproc p).fpBuffer) ((s.fproc p).fpNbytes) io inv resting
          fun writing => by
          subst writing
          rw [same]
          exact kept.inv.sources p inCall call
      exact Kept.answered vacant exists' inv₂ apart
        (answered.imp_right fun ⟨result, same, _⟩ => ⟨result, same⟩)

end Step

/-! ### Runs -/

theorem fsInit_fproc (p : Slot) : (fsInit.fproc p).fpFilp = (fun _ => none) ∧
    (fsInit.fproc p).fpSuspended = false ∧ (fsInit.fproc p).fpRevived = false ∧
    (fsInit.fproc p).fpCumIoPartial = 0 := by
  simp only [fsInit]
  split <;> exact ⟨rfl, rfl, rfl, rfl⟩

theorem fsInit_keeps : Kept strict fsInit := by
  have waits : fsInit.waits = fun _ => none := by
    funext p
    exact waits_eq_none_of_not_suspended (fsInit_fproc p).2.1
  have noPipe : ∀ rip, (fsInit.inode rip).iPipe = false := by
    intro rip
    simp only [fsInit]
    split <;> rfl
  have ends : fsInit.files.Ends strict := by
    refine ⟨fun f => ?_, ?_, fun rip isPipe => ?_, fun _ rip isPipe => ?_⟩
    · exact (References.count_eq_zero.mpr fun x => by
        simp [State.files, (fsInit_fproc x.1).1]).symm
    · decide +kernel
    all_goals exact absurd ((noPipe rip).symm.trans isPipe) (by simp)
  have queue : Queue fsInit := by
    refine ⟨fun p => ?_, ?_, ?_⟩
    · obtain ⟨-, resting, calm, -⟩ := fsInit_fproc p
      exact ⟨fun revived => absurd (calm.symm.trans revived) (by simp),
        fun suspended => absurd (resting.symm.trans suspended) (by simp),
        fun suspended => absurd (resting.symm.trans suspended) (by simp),
        fun suspended => absurd (resting.symm.trans suspended) (by simp),
        fun suspended => absurd (resting.symm.trans suspended) (by simp)⟩
    · rw [waits, References.size_eq_zero fun _ => rfl]
      rfl
    · rw [References.size_eq_zero fun p => by simp [State.revives, (fsInit_fproc p).2.2.1]]
      rfl
  refine ⟨⟨⟨ends, queue, fun p inCall => ?_⟩, fun _ p wanted waits' => ?_⟩, fun p dead => ?_⟩
  · exact absurd ((fsInit_fproc p).2.1.symm.trans inCall.1) (by simp)
  · rw [waits] at waits'
    cases waits'
  · have above : ¬ p.val ≤ initProcNr := of_decide_eq_false dead
    have late : ¬ (p.val = 0 ∨ p.val = initProcNr) := by omega
    simp only [fsInit, if_neg late]
    refine ⟨trivial, trivial, ?_⟩
    funext dir
    cases dir <;> rfl

/-- The invariant holds in every state that a run reaches. Nobody waits in vain if FIFOs are opened
one way only. -/
theorem Reaches.kept {guard : State → Input → Prop} {inputs : List Input} {s : State}
    (contract : ∀ s input, guard s input → Contract s input)
    (disciplined : strict → ∀ s input, guard s input → Disciplined s input)
    (run : Reaches guard inputs s) : Kept strict s :=
  Transition.Run.invariant fsInit_keeps (fun s input _ kept allowed stepped =>
    step_keeps kept (contract s input allowed)
      (fun strictly => disciplined strictly s input allowed) stepped) run

end Minix.Fs
