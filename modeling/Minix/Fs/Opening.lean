/-
This file proves that `pipe` and `open` keep the invariant of the file system.

An inode that is not in use is loaded first (`takeIn`), and a filp slot is filled in for it
(`openSlot`). A FIFO that is opened either waits for its other end, or lets those go on that wait
for this one; in both cases an end that is open already is shared.
-/

import Minix.Fs.Descriptors

namespace Minix.Fs

open Function (update update_of_ne update_self update_eq_self update_comm)

variable {strict : Prop}

attribute [ext] State

/-! ### Waiting for the other end -/

section Suspend

variable {s : State} {p : Slot} {fd : Fd} {f : FilpNr} {bits : RwFlag}

theorem Sound.opener_hasEnd (sound : Sound strict s) (allowed : strict) {q : Slot} {rip : InodeNr}
    (waits : s.waits q = some (rip, .opening bits)) : s.HasEnd rip bits := by
  obtain ⟨-, isPipe, f, refers, held⟩ := sound.waits_held waits
  obtain ⟨suspended, revived, task, -⟩ := waits_eq_some waits
  have popen : (s.fproc q).fpTask = .xpopen := by
    rcases task with task | task
    · obtain ⟨-, rwFlag, saved, -⟩ := (sound.queue.parked q).pipe suspended task
      rw [waits_pipe suspended revived task refers saved] at waits
      cases waits
    · exact task
  rw [waits_popen suspended revived popen refers] at waits
  obtain ⟨ino, mode⟩ := Prod.mk.inj (Option.some.inj waits)
  have oneEnd := (sound.ends.pipes allowed rip isPipe).oneEnd f held
  change (s.filp f).filpMode .writing = !(s.filp f).filpMode .reading at oneEnd
  refine ⟨f, sound.opened refers, ino, ?_⟩
  cases writes : (s.filp f).filpMode .writing with
  | true =>
    rw [writes] at mode
    cases mode
    exact writes
  | false =>
    rw [writes] at mode oneEnd
    cases mode
    simpa using oneEnd.symm

/-- A process that has opened one end of a FIFO is suspended until somebody opens the other. -/
theorem Invariant.suspend_opening (inv : Invariant strict s)
    (resting : (s.fproc p).fpSuspended = false)
    (refers : (s.fproc p).fpFilp fd = some f)
    (isPipe : (s.inode (s.filp f).filpIno).iPipe = true)
    (mode : strict → (s.filp f).filpMode bits = true)
    {fsCall : CallNr} (opens : fsCall = .open ∨ fsCall = .creat)
    (alone : strict → ¬ s.HasEnd (s.filp f).filpIno bits.other) (buffer : Nat → UInt8)
      (nbytes : Nat) :
    Invariant strict (suspend s p .xpopen fd fsCall buffer nbytes) := by
  let s' := suspend s p .xpopen fd fsCall buffer nbytes
  obtain ⟨filp, inode, -⟩ := suspend_frame s p .xpopen fd fsCall buffer nbytes
  have entry : s'.fproc p = { s.fproc p with
      fpSuspended := true, fpFd := fd, fpCall := fsCall, fpTask := .xpopen,
      fpBuffer := buffer, fpNbytes := nbytes } := by
    rw [suspend_fproc, update_self]
  have calm := inv.queue.calm resting
  let chosen : RwFlag := if (s.filp f).filpMode .writing then .writing else .reading
  have same (allowed : strict) : chosen = bits := by
    have oneEnd := (inv.ends.pipes allowed _ isPipe).oneEnd f (inv.held refers)
    change (s.filp f).filpMode .writing = !(s.filp f).filpMode .reading at oneEnd
    have has := mode allowed
    cases bits with
    | reading =>
      rw [has] at oneEnd
      simp [chosen, oneEnd]
    | writing => simp [chosen, has]
  have waits : s'.waits p = some ((s.filp f).filpIno, .opening chosen) := by
    have opening : s'.waits p = some ((s'.filp f).filpIno,
        .opening (if (s'.filp f).filpMode .writing then .writing else .reading)) := by
      apply waits_popen <;> rw [entry]
      · exact calm
      · exact refers
    rw [opening, filp]
  have parked : Parked s' p := by
    refine ⟨?_, ?_, ?_, ?_, ?_⟩ <;> rw [entry]
    · exact fun revives => absurd (calm.symm.trans revives) (by simp)
    · exact fun _ other => by cases other
    · rw [filp, inode]
      exact fun _ _ => ⟨opens, f, refers, isPipe⟩
    · exact fun _ other => by cases other
    · exact fun _ nr other => by cases other
  have queue := inv.queue.suspend resting parked (by rw [waits]; rfl)
  have files : s'.files = s.files := suspend_files s p .xpopen fd fsCall buffer nbytes
  have table : s'.waits = update s.waits p (some ((s.filp f).filpIno, .opening chosen)) := by
    rw [← waits]
    exact waits_suspend s p .xpopen fd fsCall buffer nbytes
  have blocked (allowed : strict) : Blocked s' ((s.filp f).filpIno, .opening chosen) := by
    change ¬ s'.HasEnd (s.filp f).filpIno chosen.other
    rw [same allowed, Files.hasEnd_iff, files, ← Files.hasEnd_iff]
    exact alone allowed
  have sound := inv.toSound.suspend queue fun other => nomatch other
  exact ⟨sound, fun allowed => suspend_waiting (inv.waiting allowed) files table
    (.inr (blocked allowed)) fun rip same => by cases same⟩

end Suspend

/-! ### Inodes that are not in use -/

section TakeIn

variable {s : State} {p : Slot} {rip : InodeNr} {dev : Nat}

/-- A slot of the inode table that is not in use, filled in but for the use count. -/
def cleared (s : State) (rip : InodeNr) (dev : Nat) : State :=
  (loadInode s rip dev false).modifyInode rip fun entry => { entry with iCount := 0 }

/-- The inode is in the table, though the call does not use it yet. -/
def takeIn (s : State) (rip : InodeNr) (dev : Nat) : State :=
  if (s.inode rip).iCount = 0 then cleared s rip dev else s

theorem getInode_eq (s : State) (rip : InodeNr) (dev : Nat) :
    getInode s rip dev = dupInode (takeIn s rip dev) rip := by
  unfold getInode takeIn
  split
  · simp [cleared, dupInode, loadInode, State.modifyInode]
  · rfl

theorem cleared_works (inv : Invariant strict s) (resting : (s.fproc p).fpSuspended = false)
    (unused : (s.inode rip).iCount = 0) (dev : Nat) :
    Works strict p s (cleared s rip dev) ∧ (cleared s rip dev).waits = s.waits := by
  have away : ∀ {g other}, s.files.holds g = some other →
      (cleared s rip dev).inode other = s.inode other := by
    intro g other held
    have distinct : other ≠ rip := by
      rintro rfl
      exact inv.ends.holds_used held unused
    simp [cleared, loadInode, distinct]
  refine Works.of_update (cleared s rip dev) inv (update_eq_self p s.fproc).symm resting
    resting rfl rfl ⟨rfl, rfl, rfl⟩ ⟨_, _, rfl⟩ ?_ (fun q g _ refers => ?_)
    (fun _ _ _ _ has => .inl has) fun _ _ _ _ has => .inl has
  · have files : (cleared s rip dev).files = { s.files with
        inode := update s.inode rip { s.inode rip with
          iPipe := false, iSize := 0, iCount := 0, readPos := 0, writePos := 0, iDev := dev }
        written := update s.history.written rip []
        taken := update s.history.taken rip [] } := by
      have loaded : (loadInode s rip dev false).files = { s.files with
          inode := (loadInode s rip dev false).inode
          written := update s.history.written rip []
          taken := update s.history.taken rip [] } := rfl
      rw [cleared, modifyInode_files, loaded]
      simp [loadInode]
    rw [files]
    exact inv.ends.load unused rfl rfl [] []
  · rw [away (inv.held refers)]
    exact ⟨rfl, rfl, rfl, rfl⟩

theorem takeIn_works (inv : Invariant strict s)
    (resting : (s.fproc p).fpSuspended = false) (rip : InodeNr)
    (dev : Nat) : Works strict p s (takeIn s rip dev) ∧ (takeIn s rip dev).waits = s.waits := by
  unfold takeIn
  split
  case isTrue unused => exact cleared_works inv resting unused dev
  case isFalse => exact ⟨.refl inv resting, rfl⟩

section

variable (s rip dev)

@[simp] theorem takeIn_fproc :
    (takeIn s rip dev).fproc = s.fproc := by
  unfold takeIn
  split <;> rfl

@[simp] theorem takeIn_filp :
    (takeIn s rip dev).filp = s.filp := by
  unfold takeIn
  split <;> rfl

theorem takeIn_iCount :
    ((takeIn s rip dev).inode rip).iCount = (s.inode rip).iCount := by
  unfold takeIn
  split
  case isTrue unused => simp [cleared, unused]
  case isFalse => rfl

end

theorem takeIn_of_used (used : (s.inode rip).iCount ≠ 0) (dev : Nat) : takeIn s rip dev = s :=
  if_neg used

theorem takeIn_pipeOk (ends : s.files.Ends strict) (allowed : strict)
    (isPipe : (s.inode rip).iCount = 0 ∨ (s.inode rip).iPipe = true) (dev : Nat) :
    (takeIn s rip dev).files.PipeOk rip := by
  unfold takeIn
  split
  case isTrue unused =>
    refine .fresh ?_ ?_ ?_ ?_ ?_
    · have users := ends.users rip
      rw [show (s.files.inode rip).iCount = 0 from unused] at users
      change References.count s.files.holds rip = 0
      omega
    all_goals simp [cleared, loadInode, State.files]
  case isFalse used => exact ends.pipes allowed rip (isPipe.resolve_left used)

end TakeIn

/-! ### A new filp -/

section OpenSlot

variable {s : State} {p : Slot} {fd : Fd} {f : FilpNr} {entry : Filp} {inode : Inode}

/-- Fill a filp slot in, with a descriptor that refers to it and one more use of the inode. -/
def openSlot (s : State) (p : Slot) (fd : Fd) (f : FilpNr) (entry : Filp) (inode : Inode) :
    State :=
  ((s.setFd p fd (some f)).modifyFilp f fun _ => entry).modifyInode entry.filpIno fun _ => inode

/-- What the end of a pipe that is opened has to be like. -/
structure NewEnd (s : State) (entry : Filp) (inode : Inode) : Prop where
  ok : s.files.PipeOk entry.filpIno
  oneEnd : entry.filpMode .writing = !entry.filpMode .reading
  sole : ∀ bits, entry.filpMode bits = true → ¬ s.HasEnd entry.filpIno bits
  back : entry.filpMode .writing = true → entry.filpFlags.append = true ∨
    entry.filpPos = inode.iSize
  front : entry.filpMode .reading = true → entry.filpPos = inode.readPos
  iSize : inode.iSize = (s.inode entry.filpIno).iSize
  contents : inode.contents = (s.inode entry.filpIno).contents
  readPos : inode.readPos = (s.inode entry.filpIno).readPos

theorem openSlot_ends (ends : s.files.Ends strict) (free : (s.fproc p).fpFilp fd = none)
    (closed : (s.filp f).filpCount = 0) (one : entry.filpCount = 1)
    (counts : inode.iCount = (s.inode entry.filpIno).iCount + 1)
    (pipe : strict → inode.iPipe = true → NewEnd s entry inode) :
    (openSlot s p fd f entry inode).files.Ends strict := by
  have files : (openSlot s p fd f entry inode).files = { s.files with
      refers := update s.files.refers (p, fd) (some f)
      filp := update s.files.filp f entry
      inode := update s.files.inode entry.filpIno inode } := by
    rw [openSlot, modifyInode_files, modifyFilp_files, setFd_files]
  rw [files]
  refine ends.attach (x := (p, fd)) free closed one counts fun allowed isPipe => ?_
  obtain ⟨ok, oneEnd, sole, back, front, iSize, contents, readPos⟩ := pipe allowed isPipe
  refine ⟨ok, oneEnd, fun g bits mode opened => ?_, back, front, iSize, contents, readPos⟩
  exact sole bits mode (Files.hasEnd_iff.mpr ⟨g, opened⟩)

theorem openSlot_works (inv : Invariant strict s) (resting : (s.fproc p).fpSuspended = false)
    (free : (s.fproc p).fpFilp fd = none) (closed : (s.filp f).filpCount = 0)
    (one : entry.filpCount = 1) (counts : inode.iCount = (s.inode entry.filpIno).iCount + 1)
    (pipe : strict → inode.iPipe = true → NewEnd s entry inode)
    (same : (s.inode entry.filpIno).iCount ≠ 0 →
      inode.iPipe = (s.inode entry.filpIno).iPipe ∧ inode.iSize = (s.inode entry.filpIno).iSize)
    (alone : strict → ∀ bits, entry.filpMode bits = true → (s.inode entry.filpIno).iPipe = true →
      ∀ q, s.waits q ≠ some (entry.filpIno, .opening bits.other)) :
    Works strict p s (openSlot s p fd f entry inode) ∧
      (openSlot s p fd f entry inode).waits = s.waits := by
  have away : ∀ {g}, g ≠ f → (openSlot s p fd f entry inode).filp g = s.filp g := by
    intro g other
    simp [openSlot, State.setFd, other]
  have fresh : (openSlot s p fd f entry inode).filp f = entry := by simp [openSlot]
  have distinct : ∀ {g}, (s.filp g).filpCount ≠ 0 → g ≠ f := by
    rintro g opened rfl
    exact opened closed
  refine Works.of_update (openSlot s p fd f entry inode) inv rfl resting resting rfl rfl
    ⟨rfl, rfl, rfl⟩ ⟨_, _, rfl⟩ (openSlot_ends inv.ends free closed one counts pipe)
    (fun q g _ refers => ?_) (fun _ rip bits _ has => .inl ?_) fun allowed rip bits isPipe has => ?_
  · rw [away (distinct (inv.opened refers))]
    refine ⟨rfl, rfl, ?_⟩
    by_cases shared : (s.filp g).filpIno = entry.filpIno
    · rw [shared]
      have used : (s.inode entry.filpIno).iCount ≠ 0 :=
        shared ▸ inv.ends.holds_used (inv.held refers)
      simpa [openSlot] using same used
    · simp [openSlot, State.setFd, shared]
  · obtain ⟨g, opened, ino, mode⟩ := has
    exact ⟨g, by rw [away (distinct opened)]; exact ⟨opened, ino, mode⟩⟩
  · obtain ⟨g, opened, ino, mode⟩ := has
    by_cases mine : g = f
    · subst mine
      rw [fresh] at ino mode
      subst ino
      exact .inr (alone allowed bits mode isPipe)
    · rw [away mine] at opened ino mode
      exact .inl ⟨g, opened, ino, mode⟩

end OpenSlot

/-! ### Pipes -/

section Pipe

variable {s : State} {p : Slot} {fd : Fd} {f : FilpNr}

theorem unclaim_claim (free : (s.fproc p).fpFilp fd = none) :
    unclaim (claim s p fd f) p fd f =
      s.modifyFilp f fun entry => { entry with filpCount := 0 } := by
  have same : update (s.fproc p).fpFilp fd none = (s.fproc p).fpFilp := by
    rw [← free, update_eq_self]
  ext1 <;> simp [unclaim, claim, State.setFd, State.modifyFproc, State.modifyFilp, same]

/-- A filp for one end of a new pipe. -/
def pipeEnd (rip : InodeNr) (bits : RwFlag) : Filp :=
  { filpMode := endMode bits, filpCount := 1, filpIno := rip }

/-- The inode of a new pipe. -/
def pipeInode (s : State) (rip : InodeNr) (dev iCount : Nat) : Inode :=
  { s.inode rip with iPipe := true, iSize := 0, iCount, readPos := 0, writePos := 0, iDev := dev }

/-- Both ends of a new pipe. -/
def openPipe (s : State) (p : Slot) (fd₀ fd₁ : Fd) (f₀ f₁ : FilpNr) (rip : InodeNr) (dev : Nat) :
    State :=
  openSlot (openSlot (cleared s rip dev) p fd₀ f₀ (pipeEnd rip .reading) (pipeInode s rip dev 1))
    p fd₁ f₁ (pipeEnd rip .writing) (pipeInode s rip dev 2)

/-- Two descriptors of a new pipe are opened. -/
theorem openPipe_works {fd₀ fd₁ : Fd} {f₀ f₁ : FilpNr} {rip : InodeNr} (inv : Invariant strict s)
    (resting : (s.fproc p).fpSuspended = false) (free₀ : (s.fproc p).fpFilp fd₀ = none)
    (free₁ : (s.fproc p).fpFilp fd₁ = none) (fds : fd₁ ≠ fd₀) (closed₀ : (s.filp f₀).filpCount = 0)
    (closed₁ : (s.filp f₁).filpCount = 0) (filps : f₁ ≠ f₀) (unused : (s.inode rip).iCount = 0)
    (dev : Nat) : Works strict p s (openPipe s p fd₀ fd₁ f₀ f₁ rip dev) := by
  have noEnd : ∀ g, (s.filp g).filpCount ≠ 0 → (s.filp g).filpIno ≠ rip := fun g opened ino =>
    inv.ends.holds_used (Files.holds_eq_some.mpr ⟨opened, ino⟩) unused
  obtain ⟨works, waits⟩ := cleared_works inv resting unused dev
  have loaded : (cleared s rip dev).inode rip = { s.inode rip with
      iPipe := false, iSize := 0, iCount := 0, readPos := 0, writePos := 0, iDev := dev } := by
    simp [cleared, loadInode]
  have ok (allowed : strict) : (cleared s rip dev).files.PipeOk rip := by
    have ok := takeIn_pipeOk inv.ends allowed (.inl unused) dev
    rwa [takeIn, if_pos unused] at ok
  have read (allowed : strict) : NewEnd (cleared s rip dev) (pipeEnd rip .reading)
    (pipeInode s rip dev 1) := by
    refine ⟨ok allowed, rfl, fun bits _ has => ?_, fun mode => ?_, fun _ => rfl, ?_, ?_, ?_⟩
    · obtain ⟨g, opened, ino, -⟩ := has
      exact noEnd g opened ino
    · cases mode
    all_goals
      rw [show (pipeEnd rip .reading).filpIno = rip from rfl, loaded]
      rfl
  obtain ⟨works₁, waits₁⟩ := openSlot_works works.inv works.resting free₀ closed₀ rfl
    (by rw [show (pipeEnd rip .reading).filpIno = rip from rfl, loaded]; rfl)
    (fun allowed _ => read allowed)
    (fun used => absurd (congrArg Inode.iCount loaded) used)
    fun _ bits _ isPipe => absurd ((congrArg Inode.iPipe loaded).symm.trans isPipe) (by simp)
  let s₁ := openSlot (cleared s rip dev) p fd₀ f₀ (pipeEnd rip .reading) (pipeInode s rip dev 1)
  have loaded₁ : s₁.inode rip = pipeInode s rip dev 1 := by simp [s₁, openSlot, pipeEnd]
  have free₁' : (s₁.fproc p).fpFilp fd₁ = none := by
    simpa [s₁, openSlot, State.setFd, cleared, loadInode, fds] using free₁
  have filp₁ : ∀ {g}, g ≠ f₀ → s₁.filp g = s.filp g := by
    intro g other
    simp [s₁, openSlot, State.setFd, cleared, loadInode, other]
  have write (allowed : strict) : NewEnd s₁ (pipeEnd rip .writing) (pipeInode s rip dev 2) := by
    refine ⟨works₁.inv.ends.pipes allowed rip ?_, rfl, fun bits mode has => ?_, fun _ => .inr rfl,
      fun mode => ?_, ?_, ?_, ?_⟩
    · exact congrArg Inode.iPipe loaded₁
    · obtain ⟨g, opened, ino, reads⟩ := has
      by_cases mine : g = f₀
      · subst mine
        rw [show s₁.filp g = pipeEnd rip .reading by simp [s₁, openSlot]] at reads
        cases bits
        · cases mode
        · cases reads
      · rw [filp₁ mine] at opened ino
        exact noEnd g opened ino
    · cases mode
    all_goals
      rw [show (pipeEnd rip .writing).filpIno = rip from rfl, loaded₁]
      rfl
  refine (works.trans works₁).trans (openSlot_works works₁.inv works₁.resting free₁' ?_ rfl ?_
    (fun allowed _ => write allowed) (fun _ => ?_) fun _ bits _ _ q waits₂ => ?_).1
  · rw [show s₁.filp f₁ = s.filp f₁ from filp₁ filps]
    exact closed₁
  · rw [show (pipeEnd rip .writing).filpIno = rip from rfl]
    change _ = (s₁.inode rip).iCount + 1
    rw [loaded₁]
    rfl
  · change _ = (s₁.inode rip).iPipe ∧ _ = (s₁.inode rip).iSize
    rw [loaded₁]
    exact ⟨rfl, rfl⟩
  · rw [waits₁, waits] at waits₂
    obtain ⟨-, -, g, refers, held⟩ := inv.waits_held waits₂
    exact inv.ends.holds_used held unused

/-- `pipe` makes two descriptors, or fails and gives up what it has claimed. -/
theorem doPipe_works (inv : Invariant strict s) (resting : (s.fproc p).fpSuspended = false)
    (rootDev : Nat) (inode : Except Errno InodeNr)
    (unused : ∀ rip, inode = .ok rip → (s.inode rip).iCount = 0) :
    Works strict p s (doPipe s p rootDev inode).1 := by
  unfold doPipe
  cases first : getFd s p 0 (endMode .reading) with
  | error code => exact .refl inv resting
  | ok out =>
    obtain ⟨s₁, fd₀, f₀⟩ := out
    obtain ⟨free₀, closed₀, rfl⟩ := getFd_eq_ok first
    have works₁ := reserve_works (p := p) inv resting closed₀ (endMode .reading)
    have filp₀ := reserve_filp_self closed₀ (endMode .reading)
    have unused₁ : ∀ rip, inode = .ok rip →
        ((reserve s f₀ (endMode .reading)).inode rip).iCount = 0 := unused
    change ((reserve s f₀ (endMode .reading)).fproc p).fpFilp fd₀ = none at free₀
    generalize reserve s f₀ (endMode .reading) = s₁ at *
    dsimp only
    cases second : getFd (claim s₁ p fd₀ f₀) p 0 (endMode .writing) with
    | error code =>
      dsimp only
      rw [unclaim_claim free₀]
      exact works₁.trans (.scribble works₁.inv works₁.resting (by rw [filp₀]) rfl)
    | ok out =>
      obtain ⟨s₂, fd₁, f₁⟩ := out
      obtain ⟨free₁, closed₁, rfl⟩ := getFd_eq_ok second
      obtain ⟨fds, free₁⟩ : fd₁ ≠ fd₀ ∧ (s₁.fproc p).fpFilp fd₁ = none := by
        by_cases same : fd₁ = fd₀
        · simp [claim, State.setFd, same] at free₁
        · exact ⟨same, by simpa [claim, State.setFd, same] using free₁⟩
      obtain ⟨filps, closed₁⟩ : f₁ ≠ f₀ ∧ (s₁.filp f₁).filpCount = 0 := by
        by_cases same : f₁ = f₀
        · simp [claim, same] at closed₁
        · exact ⟨same, by simpa [claim, State.setFd, same] using closed₁⟩
      have works₂ := works₁.trans <|
        reserve_works works₁.inv works₁.resting closed₁ (endMode .writing)
      -- the two claims do not get in each other's way
      have swap : reserve (claim s₁ p fd₀ f₀) f₁ (endMode .writing) =
          claim (reserve s₁ f₁ (endMode .writing)) p fd₀ f₀ := by
        ext1 <;> simp [reserve, claim, State.setFd, State.modifyFproc, State.modifyFilp, filps,
          filps.symm, update_comm filps]
      have filp₁ := reserve_filp_self closed₁ (endMode .writing)
      rw [← reserve_filp_of_ne filps.symm (endMode .writing)] at filp₀
      have unused₂ : ∀ rip, inode = .ok rip →
          ((reserve s₁ f₁ (endMode .writing)).inode rip).iCount = 0 := unused₁
      change ((reserve s₁ f₁ (endMode .writing)).fproc p).fpFilp fd₀ = none at free₀
      change ((reserve s₁ f₁ (endMode .writing)).fproc p).fpFilp fd₁ = none at free₁
      rw [swap]
      generalize reserve s₁ f₁ (endMode .writing) = s₂ at *
      cases inode with
      | error code =>
        have back : unclaim (unclaim (claim (claim s₂ p fd₀ f₀) p fd₁ f₁) p fd₀ f₀) p fd₁ f₁ =
            (s₂.modifyFilp f₀ fun entry => { entry with filpCount := 0 }).modifyFilp f₁ fun entry =>
              { entry with filpCount := 0 } := by
          have descriptors : update (update (update (update (s₂.fproc p).fpFilp fd₀ (some f₀)) fd₁
              (some f₁)) fd₀ none) fd₁ none = (s₂.fproc p).fpFilp := by
            funext fd
            by_cases same₁ : fd = fd₁
            · simp [same₁, free₁]
            · by_cases same₀ : fd = fd₀
              · simp [same₀, free₀, fds.symm]
              · simp [same₁, same₀]
          ext1
          · simp [unclaim, claim, State.setFd, descriptors]
          · funext f
            by_cases same₁ : f = f₁
            · simp [unclaim, claim, State.setFd, same₁, filps]
            · by_cases same₀ : f = f₀
              · simp [unclaim, claim, State.setFd, same₀, filps.symm]
              · simp [unclaim, claim, State.setFd, same₁, same₀]
          all_goals rfl
        dsimp only
        rw [back]
        have cleared := @Works.scribble _ _ p _ works₂.inv works₂.resting (by rw [filp₀])
            (fun entry => { entry with filpCount := 0 }) rfl
        refine (works₂.trans cleared).trans (.scribble cleared.inv cleared.resting ?_ rfl)
        rw [State.modifyFilp_filp, update_of_ne filps, filp₁]
      | ok rip =>
        have both : fillFilp (dupInode (fillFilp (loadInode (claim (claim s₂ p fd₀ f₀) p fd₁ f₁)
              rip rootDev true) f₀ rip {}) rip) f₁ rip {} =
            openPipe s₂ p fd₀ fd₁ f₀ f₁ rip rootDev := by
          ext1
          · simp [openPipe, openSlot, cleared, fillFilp, dupInode, loadInode, claim, State.setFd]
          · funext f
            by_cases same₁ : f = f₁
            · simp [openPipe, openSlot, pipeEnd, cleared, fillFilp, dupInode, loadInode, claim,
                State.setFd, same₁, filps, filp₁]
            · by_cases same₀ : f = f₀
              · simp [openPipe, openSlot, pipeEnd, cleared, fillFilp, dupInode, loadInode, claim,
                  State.setFd, same₀, filps.symm, filp₀]
              · simp [openPipe, openSlot, pipeEnd, cleared, fillFilp, dupInode, loadInode, claim,
                  State.setFd, same₁, same₀]
          · simp [openPipe, openSlot, pipeEnd, pipeInode, cleared, fillFilp, dupInode, loadInode,
              claim, State.setFd]
          all_goals rfl
        dsimp only
        rw [both]
        exact works₂.trans (openPipe_works works₂.inv works₂.resting free₀ free₁ fds
          (by rw [filp₀]) (by rw [filp₁]) filps (unused₂ rip rfl) rootDev)

end Pipe

/-! ### FIFOs -/

section Fifo

variable {s s' : State} {p : Slot} {fd : Fd} {f : FilpNr} {rip : InodeNr} {bits : RwFlag → Bool}
  {flags : Flags}

theorem findFilp_congr (same : ∀ g, s'.filp g = s.filp g ∨
      (s'.filp g).filpCount = 0 ∧ (s.filp g).filpCount = 0) (end' : RwFlag) :
    findFilp s' rip end' = findFilp s rip end' := by
  unfold findFilp
  congr 1
  funext g
  rcases same g with equal | ⟨closed', closed⟩
  · rw [equal]
  · rw [closed', closed]
    rfl

/-- An end of a FIFO has a slot, which may be given up for one that is shared. -/
def claimEnd (s : State) (p : Slot) (fd : Fd) (f : FilpNr) (rip : InodeNr) (bits : RwFlag → Bool)
    (flags : Flags) : State :=
  openSlot s p fd f { filpMode := bits, filpFlags := flags, filpCount := 1, filpIno := rip }
    { s.inode rip with iPipe := true, iCount := (s.inode rip).iCount + 1 }

theorem shareFilp_some (closed : (s.filp f).filpCount = 0) {other : FilpNr}
    (isPipe : (s.inode rip).iPipe = true) (found : findFilp s rip (fifoEnd bits) = some other) :
    shareFilp (claimEnd s p fd f rip bits flags) p fd f rip bits flags =
      ((s.modifyFilp f fun _ => { filpMode := bits, filpFlags := flags, filpIno := rip }).modifyFilp
        other fun entry => { entry with
          filpCount := entry.filpCount + 1, filpFlags := flags }).setFd p fd (some other) := by
  obtain ⟨opened, ino, -⟩ := findFilp_eq_some found
  have distinct : other ≠ f := by
    rintro rfl
    exact opened closed
  unfold shareFilp
  dsimp only
  rw [findFilp_congr (s := s) fun g => ?_, found]
  · dsimp only
    ext1
    · simp [claimEnd, openSlot, State.setFd]
    · funext g
      by_cases same : g = other
      · simp [claimEnd, openSlot, State.setFd, same, distinct, ino]
      · by_cases mine : g = f
        · simp [claimEnd, openSlot, State.setFd, mine, distinct.symm]
        · simp [claimEnd, openSlot, State.setFd, same, mine]
    · funext i
      by_cases same : i = rip
      · simp [claimEnd, openSlot, State.setFd, same, ← isPipe]
      · simp [claimEnd, openSlot, State.setFd, same]
    all_goals rfl
  · by_cases mine : g = f
    · right
      simp [claimEnd, mine, closed]
    · left
      simp [claimEnd, openSlot, State.setFd, mine]

theorem shareFilp_none (closed : (s.filp f).filpCount = 0)
    (found : findFilp s rip (fifoEnd bits) = none) :
    shareFilp (claimEnd s p fd f rip bits flags) p fd f rip bits flags =
      openSlot s p fd f
        { filpMode := bits, filpFlags := flags, filpCount := 1, filpIno := rip
          filpPos := if bits .reading then (s.inode rip).readPos else (s.inode rip).writePos }
        { s.inode rip with iPipe := true, iCount := (s.inode rip).iCount + 1 } := by
  unfold shareFilp
  dsimp only
  rw [findFilp_congr (s := s) fun g => ?_, found]
  · dsimp only
    ext1
    · simp [claimEnd, openSlot, State.setFd]
    · funext g
      by_cases mine : g = f
      · simp [claimEnd, openSlot, State.setFd, mine]
      · simp [claimEnd, openSlot, State.setFd, mine]
    all_goals simp [claimEnd, openSlot, State.setFd]
  · by_cases mine : g = f
    · right
      simp [claimEnd, mine, closed]
    · left
      simp [claimEnd, openSlot, State.setFd, mine]

/-- The only end that the mode of a FIFO has is the one that it is looked up by. -/
theorem eq_fifoEnd (oneEnd : bits .writing = !bits .reading) {end' : RwFlag}
    (mode : bits end' = true) : end' = fifoEnd bits := by
  unfold fifoEnd
  cases end' with
  | reading => rw [if_pos mode]
  | writing =>
    rw [mode] at oneEnd
    rw [if_neg (by simp_all)]

theorem fifoEnd_mode (oneEnd : bits .writing = !bits .reading) : bits (fifoEnd bits) = true := by
  unfold fifoEnd
  split
  case isTrue reads => exact reads
  case isFalse writes => simp_all

/-- The files are in order when the opened end of a FIFO is shared, or has its position. -/
theorem shareFilp_ends (ends : s.files.Ends strict) (free : (s.fproc p).fpFilp fd = none)
    (closed : (s.filp f).filpCount = 0) (ok : strict → s.files.PipeOk rip)
    (isPipe : (s.inode rip).iCount ≠ 0 → (s.inode rip).iPipe = true)
    (oneEnd : strict → bits .writing = !bits .reading) (append : flags.append = true) :
    (shareFilp (claimEnd s p fd f rip bits flags) p fd f rip bits flags).files.Ends strict := by
  cases found : findFilp s rip (fifoEnd bits) with
  | some other =>
    obtain ⟨opened, ino, -⟩ := findFilp_eq_some found
    have distinct : other ≠ f := by
      rintro rfl
      exact opened closed
    have used := ends.holds_used (Files.holds_eq_some.mpr ⟨opened, ino⟩)
    rw [shareFilp_some closed (isPipe used) found, setFd_files, modifyFilp_files]
    refine Files.Ends.share (x := (p, fd)) (ends.scribble closed rfl) free ?_
      fun _ _ _ _ => .inl append
    change ((s.modifyFilp f fun _ => _).filp other).filpCount ≠ 0
    rwa [State.modifyFilp_filp, update_of_ne distinct]
  | none =>
    have sole : ¬ s.HasEnd rip (fifoEnd bits) := findFilp_isNone.mp (by rw [found]; rfl)
    rw [shareFilp_none closed found]
    refine openSlot_ends ends free closed rfl rfl fun allowed _ =>
      ⟨ok allowed, oneEnd allowed, fun end' mode has => ?_,
      fun _ => .inl append, fun reads => ?_, rfl, rfl, rfl⟩
    · exact sole (eq_fifoEnd (oneEnd allowed) mode ▸ has)
    · change (if bits .reading then (s.inode rip).readPos else (s.inode rip).writePos) = _
      rw [if_pos reads]

/-- Opening an end of a FIFO adds that end alone. -/
theorem shareFilp_hasEnd (closed : (s.filp f).filpCount = 0)
    (isPipe : (s.inode rip).iCount ≠ 0 → (s.inode rip).iPipe = true) (ends : s.files.Ends strict)
    (oneEnd : bits .writing = !bits .reading) (other : InodeNr) (end' : RwFlag) :
    (shareFilp (claimEnd s p fd f rip bits flags) p fd f rip bits flags).HasEnd other end' ↔
      s.HasEnd other end' ∨ (other = rip ∧ bits end' = true) := by
  cases found : findFilp s rip (fifoEnd bits) with
  | some shared =>
    obtain ⟨opened, ino, mode⟩ := findFilp_eq_some found
    have distinct : shared ≠ f := by
      rintro rfl
      exact opened closed
    have used := ends.holds_used (Files.holds_eq_some.mpr ⟨opened, ino⟩)
    rw [shareFilp_some closed (isPipe used) found]
    refine ⟨fun has => .inl ?_, fun has => ?_⟩
    · obtain ⟨g, open', ino', mode'⟩ := has
      refine ⟨g, ?_⟩
      by_cases same : g = shared
      · simpa [State.setFd, same, distinct, opened] using And.intro ino' mode'
      · by_cases mine : g = f
        · simp [State.setFd, mine, distinct.symm] at open'
        · simpa [State.setFd, same, mine] using And.intro open' (And.intro ino' mode')
    · have already : s.HasEnd other end' := by
        rcases has with has | ⟨rfl, mode'⟩
        · exact has
        · exact ⟨shared, opened, ino, eq_fifoEnd oneEnd mode' ▸ mode⟩
      obtain ⟨g, open', ino', mode'⟩ := already
      refine ⟨g, ?_⟩
      by_cases same : g = shared
      · subst same
        simpa [State.setFd, distinct] using And.intro ino' mode'
      · have mine : g ≠ f := by
          rintro rfl
          exact open' closed
        simpa [State.setFd, same, mine] using And.intro open' (And.intro ino' mode')
  | none =>
    rw [shareFilp_none closed found]
    refine ⟨fun has => ?_, fun has => ?_⟩
    · obtain ⟨g, open', ino', mode'⟩ := has
      by_cases mine : g = f
      · subst mine
        rw [openSlot, State.modifyInode_filp, State.modifyFilp_filp,
          update_self] at ino' mode'
        exact .inr ⟨ino'.symm, mode'⟩
      · refine .inl ⟨g, ?_⟩
        simpa [openSlot, State.setFd, mine] using And.intro open' (And.intro ino' mode')
    · rcases has with ⟨g, open', ino', mode'⟩ | ⟨rfl, mode'⟩
      · have mine : g ≠ f := by
          rintro rfl
          exact open' closed
        refine ⟨g, ?_⟩
        simpa [openSlot, State.setFd, mine] using And.intro open' (And.intro ino' mode')
      · exact ⟨f, by simpa [openSlot] using mode'⟩

theorem shareFilp_files_congr (filp : s'.filp = s.filp) (files : s'.files = s.files) :
    (shareFilp s' p fd f rip bits flags).files = (shareFilp s p fd f rip bits flags).files := by
  have inode : s'.inode = s.inode := congrArg Files.inode files
  unfold shareFilp
  dsimp only
  rw [findFilp_congr (s := s.modifyFilp f fun entry => { entry with filpCount := 0 })
    fun g => .inl (by rw [State.modifyFilp_filp, State.modifyFilp_filp, filp])]
  split
  · simp only [modifyInode_files, modifyFilp_files, setFd_files, files, State.setFd_filp,
      State.setFd_inode, State.modifyFilp_filp, State.modifyFilp_inode, filp, inode]
  · simp only [modifyFilp_files, files, State.modifyFilp_filp, State.modifyFilp_inode, filp, inode]

theorem shareFilp_frame (s : State) (p : Slot) (fd : Fd) (f : FilpNr) (rip : InodeNr)
    (bits : RwFlag → Bool) (flags : Flags) :
    let s' := shareFilp s p fd f rip bits flags
    (∃ filps, s'.fproc = update s.fproc p { s.fproc p with fpFilp := filps }) ∧
      s'.suspCount = s.suspCount ∧ s'.reviving = s.reviving ∧ s'.live = s.live ∧
      s'.history = s.history ∧
      (∀ g, g ≠ f → (s.filp g).filpCount ≠ 0 → (s'.filp g).filpIno = (s.filp g).filpIno ∧
        (s'.filp g).filpMode = (s.filp g).filpMode) ∧
      ∀ i, (s'.inode i).iPipe = (s.inode i).iPipe ∧ (s'.inode i).iSize = (s.inode i).iSize := by
  unfold shareFilp
  dsimp only
  split
  case h_1 other found =>
    obtain ⟨opened, ino, -⟩ := findFilp_eq_some found
    have distinct : other ≠ f := by
      rintro rfl
      simp at opened
    rw [State.modifyFilp_filp, update_of_ne distinct] at ino
    refine ⟨⟨_, rfl⟩, rfl, rfl, rfl, rfl, fun g mine _ => ?_, fun i => ?_⟩
    · by_cases same : g = other
      · simp [State.setFd, same, distinct, ino]
      · simp [State.setFd, same, mine]
    · by_cases same : i = rip <;> simp [State.setFd, same]
  case h_2 =>
    refine ⟨⟨(s.fproc p).fpFilp, ?_⟩, rfl, rfl, rfl, rfl, fun g mine _ => ?_, fun i => ⟨rfl, rfl⟩⟩
    · exact (update_eq_self p s.fproc).symm
    · simp [mine]

/-- An end of a FIFO can be opened. -/
structure CanOpen (strict : Prop) (s : State) (p : Slot) (fd : Fd) (f : FilpNr) (rip : InodeNr)
    (bits : RwFlag → Bool) (flags : Flags) : Prop where
  inv : Invariant strict s
  resting : (s.fproc p).fpSuspended = false
  free : (s.fproc p).fpFilp fd = none
  closed : (s.filp f).filpCount = 0
  ok : strict → s.files.PipeOk rip
  isPipe : (s.inode rip).iCount ≠ 0 → (s.inode rip).iPipe = true
  oneEnd : strict → bits .writing = !bits .reading
  append : flags.append = true

namespace CanOpen

section

variable (can : CanOpen strict s p fd f rip bits flags)
include can

theorem claimed :
    let s' := claimEnd s p fd f rip bits flags
    (Queue s' ∧ s'.waits = s.waits) ∧ Undisturbed p s s' := by
  have inv := can.inv
  have rests : ¬ ((s.fproc p).fpSuspended = true ∧ (s.fproc p).fpTask = .xpipe) := fun inCall => by
    rw [can.resting] at inCall
    cases inCall.1
  refine ⟨inv.queue.work (p := p) rfl can.resting can.resting rfl rfl rfl rfl
    fun q g _ refers => ?_, .of_update rfl rests rests rfl rfl rfl rfl rfl⟩
  have mine : g ≠ f := by
    rintro rfl
    exact inv.opened refers can.closed
  refine ⟨?_, ?_, ?_⟩
  · simp [claimEnd, openSlot, mine]
  · simp [claimEnd, openSlot, mine]
  · by_cases same : (s.filp g).filpIno = rip
    · have used := inv.ends.holds_used (inv.held refers)
      rw [same] at used ⊢
      simpa [claimEnd, openSlot] using (can.isPipe used).symm
    · simp [claimEnd, openSlot, same]

/-- Once nobody waits for this end any more, the process may share it or have its own filp. -/
theorem shared {s₂ : State} (woken : Woken (claimEnd s p fd f rip bits flags) s₂) (queue : Queue s₂)
    (alone : strict → ∀ q, s₂.waits q ≠ some (rip, .opening (fifoEnd bits).other)) :
    Works strict p s (shareFilp s₂ p fd f rip bits flags) := by
  have inv := can.inv
  obtain ⟨⟨-, waits₁⟩, undisturbed₁⟩ := can.claimed
  let s₁ := claimEnd s p fd f rip bits flags
  have resting₁ : (s₁.fproc p).fpSuspended = false := by
    simpa [s₁, claimEnd, openSlot, State.setFd] using can.resting
  have resting₂ : (s₂.fproc p).fpSuspended = false := by rwa [woken.resting p resting₁]
  obtain ⟨⟨filps, fproc⟩, suspCount, reviving, live, history, filp, inode⟩ :=
    shareFilp_frame s₂ p fd f rip bits flags
  have open₂ : ∀ g, g ≠ f → (s.filp g).filpCount ≠ 0 → (s₂.filp g).filpCount ≠ 0 := by
    intro g mine opened
    rw [woken.filp]
    simpa [claimEnd, openSlot, mine] using opened
  have theirs : ∀ q, q ≠ p → (s₂.fproc q).fpFilp = (s.fproc q).fpFilp := by
    intro q other
    rw [woken.fpFilp]
    simp [claimEnd, openSlot, State.setFd, other]
  obtain ⟨queue₃, waits₃⟩ := @Queue.work _ (shareFilp s₂ p fd f rip bits flags) _ _ queue fproc
      resting₂ resting₂ rfl suspCount reviving (by rw [history]) fun q g other refers => by
      rw [theirs q other] at refers
      have opened := inv.opened refers
      have mine : g ≠ f := by
        rintro rfl
        exact opened can.closed
      obtain ⟨ino, mode⟩ := filp g mine (open₂ g mine opened)
      exact ⟨ino, mode, (inode _).1⟩
  have files := @shareFilp_files_congr _ _ p fd f rip bits flags woken.filp woken.files
  have hasEnd (allowed : strict) : ∀ other end',
    (shareFilp s₂ p fd f rip bits flags).HasEnd other end' ↔
      s.HasEnd other end' ∨ (other = rip ∧ bits end' = true) := by
    intro other end'
    rw [Files.hasEnd_iff, files, ← Files.hasEnd_iff]
    exact shareFilp_hasEnd can.closed can.isPipe inv.ends (can.oneEnd allowed) other end'
  have rests₂ : ¬ ((s₂.fproc p).fpSuspended = true ∧ (s₂.fproc p).fpTask = .xpipe) :=
    fun inCall => by
      rw [resting₂] at inCall
      cases inCall.1
  have undisturbed := (undisturbed₁.trans (woken.undisturbed p)).trans <|
    @Undisturbed.of_update _ _ (shareFilp s₂ p fd f rip bits flags) _ fproc rests₂ rests₂ rfl live
        (by rw [history]) (by rw [history]) (by rw [history])
  refine ⟨inv.of_fewer undisturbed ?_ queue₃ (fun q wanted waits => ?_)
    (fun _ i q waits => ?_)
    (fun allowed other end' has => .inl ((hasEnd allowed other end').mpr (.inl has)))
    fun allowed other end' has => ?_,
    undisturbed, ?_⟩
  · rw [files]
    exact shareFilp_ends inv.ends can.free can.closed can.ok can.isPipe can.oneEnd can.append
  · rw [waits₃] at waits
    rw [← waits₁]
    exact woken.waits_eq_some waits
  · rw [(inode i).2, woken.inode]
    by_cases same : i = rip <;> simp [claimEnd, openSlot, same]
  · rcases (hasEnd allowed other end').mp has with already | ⟨rfl, mode⟩
    · exact .inl already
    · right
      rw [waits₃, eq_fifoEnd (can.oneEnd allowed) mode]
      exact alone allowed
  · rw [fproc, update_self]
    exact resting₂

theorem refers :
    let s' := shareFilp (claimEnd s p fd f rip bits flags) p fd f rip bits flags
    ∃ g, (s'.fproc p).fpFilp fd = some g ∧ (s'.filp g).filpIno = rip ∧
      (strict → (s'.filp g).filpMode (fifoEnd bits) = true) ∧ (s'.inode rip).iPipe = true := by
  intro s'
  have isPipe : (s'.inode rip).iPipe = true := by
    rw [((shareFilp_frame _ p fd f rip bits flags).2.2.2.2.2.2 rip).1]
    simp [claimEnd, openSlot]
  cases found : findFilp s rip (fifoEnd bits) with
  | some other =>
    obtain ⟨opened, ino, mode⟩ := findFilp_eq_some found
    have distinct : other ≠ f := by
      rintro rfl
      exact opened can.closed
    have used := can.inv.ends.holds_used (Files.holds_eq_some.mpr ⟨opened, ino⟩)
    refine ⟨other, ?_, ?_, ?_, isPipe⟩ <;>
      simp only [s', shareFilp_some can.closed (can.isPipe used) found]
    · simp [State.setFd]
    · simpa [distinct] using ino
    · simp [distinct, mode]
  | none =>
    refine ⟨f, ?_, ?_, ?_, isPipe⟩ <;> simp only [s', shareFilp_none can.closed found]
    · simp [openSlot, State.setFd]
    · simp [openSlot]
    · simpa [openSlot] using fun allowed => fifoEnd_mode (can.oneEnd allowed)

theorem claimed_hasEnd (allowed : strict) :
    (claimEnd s p fd f rip bits flags).HasEnd rip (fifoEnd bits).other ↔
      s.HasEnd rip (fifoEnd bits).other := by
  have noOther : bits (fifoEnd bits).other = false := by
    have mine := fifoEnd_mode (can.oneEnd allowed)
    have oneEnd := can.oneEnd allowed
    cases end' : fifoEnd bits <;> simp_all [RwFlag.other]
  refine exists_congr fun g => ?_
  by_cases same : g = f
  · subst same
    simp [claimEnd, openSlot, noOther, can.closed]
  · simp [claimEnd, openSlot, State.setFd, same]

end

end CanOpen

theorem shareFilp_suspend (s : State) (p : Slot) (fd : Fd) (f : FilpNr) (rip : InodeNr)
    (bits : RwFlag → Bool) (flags : Flags) (fsCall : CallNr) (buffer : Nat → UInt8)
    (nbytes : Nat) :
    shareFilp (suspend s p .xpopen fd fsCall buffer nbytes) p fd f rip bits flags =
      suspend (shareFilp s p fd f rip bits flags) p .xpopen fd fsCall buffer nbytes := by
  have search : findFilp ((suspend s p .xpopen fd fsCall buffer nbytes).modifyFilp f fun entry =>
      { entry with filpCount := 0 }) rip (fifoEnd bits) =
      findFilp (s.modifyFilp f fun entry => { entry with filpCount := 0 }) rip (fifoEnd bits) := rfl
  unfold shareFilp
  dsimp only
  rw [search]
  cases findFilp (s.modifyFilp f fun entry => { entry with filpCount := 0 }) rip (fifoEnd bits) with
  | some other =>
    ext1 <;> simp [suspend, State.setFd, State.modifyFproc, State.modifyFilp, State.modifyInode]
  | none => rfl

/-- What the opening of a FIFO comes to: it waits for the other end, or lets those go on that wait
for this one, or nobody has to wait. -/
theorem CanOpen.keeps (can : CanOpen strict s p fd f rip bits flags) {fsCall : CallNr}
    (opens : fsCall = .open ∨ fsCall = .creat) {s₁ : State}
    (marked : s₁.modifyInode rip (fun entry => { entry with iPipe := true }) =
      claimEnd s p fd f rip bits flags) (nonblock : Bool) :
    let out := pipeOpen s₁ p rip bits nonblock fd fsCall
    (∃ code, out = (claimEnd s p fd f rip bits flags, .error code)) ∨
      (∀ code, out.2 ≠ .error code) ∧ Invariant strict (shareFilp out.1 p fd f rip bits flags) ∧
        Undisturbed p s (shareFilp out.1 p fd f rip bits flags) := by
  have otherEnd (allowed : strict) :
      (if bits .writing then RwFlag.reading else .writing) = (fifoEnd bits).other := by
    have oneEnd := can.oneEnd allowed
    unfold fifoEnd
    cases reads : bits .reading <;> simp_all [RwFlag.other]
  obtain ⟨⟨queue, waits⟩, -⟩ := can.claimed
  unfold pipeOpen
  dsimp only
  rw [marked]
  generalize (if bits .writing then RwFlag.reading else .writing) = other at otherEnd
  split
  case isTrue closed =>
    have alone (allowed : strict) : ¬ s.HasEnd rip (fifoEnd bits).other := by
      have none := findFilp_isNone.mp closed
      rwa [otherEnd allowed, can.claimed_hasEnd allowed] at none
    have nobody (allowed : strict) : ∀ q, (claimEnd s p fd f rip bits flags).waits q ≠
        some (rip, .opening (fifoEnd bits).other) := by
      intro q waits'
      rw [waits] at waits'
      exact alone allowed (can.inv.opener_hasEnd allowed waits')
    have works := can.shared (.refl _) queue nobody
    split
    case isTrue =>
      cases bits .writing with
      | true => exact .inl ⟨_, rfl⟩
      | false => exact .inr ⟨fun _ error => (nomatch error), works.inv, works.undisturbed⟩
    case isFalse =>
      refine .inr ⟨fun _ error => (nomatch error), ?_⟩
      rw [shareFilp_suspend]
      obtain ⟨g, refers, ino, mode, isPipe⟩ := can.refers
      refine ⟨works.inv.suspend_opening works.resting refers (ino.symm ▸ isPipe) mode opens
        (fun allowed => ?_) _ _,
        works.undisturbed.trans (suspend_undisturbed works.resting (by simp) _ _ _ _)⟩
      rw [ino, shareFilp_hasEnd can.closed can.isPipe can.inv.ends (can.oneEnd allowed)]
      rintro (opened | ⟨-, both⟩)
      · exact alone allowed opened
      · have mine := fifoEnd_mode (can.oneEnd allowed)
        have oneEnd := can.oneEnd allowed
        cases end' : fifoEnd bits <;> simp_all [RwFlag.other]
  case isFalse =>
    split
    case isTrue some =>
      have isPipe : ((claimEnd s p fd f rip bits flags).inode rip).iPipe = true := by
        simp [claimEnd, openSlot]
      obtain ⟨⟨queue', woken⟩, none⟩ := release_opening queue isPipe
      have works := can.shared woken queue' fun _ q => none q _
      exact .inr ⟨fun _ error => (nomatch error), works.inv, works.undisturbed⟩
    case isFalse none =>
      have nobody : ∀ q, (claimEnd s p fd f rip bits flags).waits q ≠
          some (rip, .opening (fifoEnd bits).other) := by
        intro q waits'
        have counted := queue.size_le
        have one := References.size_pos (Option.isSome_iff_exists.mpr ⟨_, waits'⟩)
        omega
      have works := can.shared (.refl _) queue fun _ => nobody
      exact .inr ⟨fun _ error => (nomatch error), works.inv, works.undisturbed⟩

end Fifo

/-! ### The call -/

section Open

variable {s : State} {p : Slot} {fd : Fd} {f : FilpNr} {rip : InodeNr} {bits : RwFlag → Bool}
  {flags : Flags}

theorem takeIn_fresh (unused : (s.inode rip).iCount = 0) (dev : Nat) :
    let entry := (takeIn s rip dev).inode rip
    entry.iPipe = false ∧ entry.iSize = 0 ∧ entry.readPos = 0 ∧ entry.writePos = 0 := by
  rw [takeIn, if_pos unused]
  simp [cleared, loadInode]

/-- An inode that a call has had in use is as before when it is given back. -/
theorem putEntry_back {entry : Inode} {iPipe : Bool}
    (used : entry.iCount ≠ 0 → entry.iPipe = iPipe)
    (unused : entry.iCount = 0 → entry.iPipe = false ∧ entry.iSize = 0 ∧ entry.readPos = 0 ∧
      entry.writePos = 0) :
    putEntry { entry with iPipe, iCount := entry.iCount + 1 } = entry := by
  by_cases zero : entry.iCount = 0
  · obtain ⟨noPipe, iSize, readPos, writePos⟩ := unused zero
    cases entry
    cases iPipe <;> simp_all [putEntry]
  · rw [putEntry_of_used (by simpa using zero), ← used zero]
    rfl

theorem openFails_openSlot {entry : Filp} {inode : Inode} (ino : entry.filpIno = rip)
    (free : (s.fproc p).fpFilp fd = none) (back : putEntry inode = s.inode rip) :
    openFails (openSlot s p fd f entry inode) p fd f rip =
      s.modifyFilp f fun _ => { entry with filpCount := 0 } := by
  have descriptors : update (s.fproc p).fpFilp fd none = (s.fproc p).fpFilp := by
    rw [← free, update_eq_self]
  subst ino
  rw [openFails, putInode_eq]
  ext1 <;> simp [unclaim, openSlot, State.setFd, State.modifyFproc, State.modifyFilp,
    State.modifyInode, descriptors, back]

theorem fillFilp_claim {ino : InodeNr}
    (filp : s.filp f = { filpMode := bits, filpIno := ino }) :
    fillFilp (claim (dupInode s rip) p fd f) f rip flags =
      openSlot s p fd f { filpMode := bits, filpFlags := flags, filpCount := 1, filpIno := rip }
        { s.inode rip with iCount := (s.inode rip).iCount + 1 } := by
  ext1 <;> simp [fillFilp, claim, dupInode, openSlot, State.setFd, State.modifyFproc,
    State.modifyFilp, State.modifyInode, filp]

/-- An open keeps the invariant, whatever it finds. -/
theorem commonOpen_keeps (inv : Invariant strict s) (resting : (s.fproc p).fpSuspended = false)
    {fsCall : CallNr} (path : Except Errno (Found × Opened))
    (contract : Contract s (.message (.open p fsCall bits flags path)))
    (disciplined : strict → Disciplined s (.message (.open p fsCall bits flags path))) :
    Invariant strict (commonOpen s p fsCall bits flags path).1 ∧
      Undisturbed p s (commonOpen s p fsCall bits flags path).1 := by
  obtain ⟨-, opens, contract⟩ := contract
  unfold commonOpen
  cases found : getFd s p 0 bits with
  | error code => exact ⟨inv, .refl p s⟩
  | ok out =>
    obtain ⟨s₁, fd, f⟩ := out
    obtain ⟨free, closed, rfl⟩ := getFd_eq_ok found
    rw [← reserve_fproc s f bits] at free
    have reserved := reserve_works (p := p) inv resting closed bits
    cases path with
    | error code => exact ⟨reserved.inv, reserved.undisturbed⟩
    | ok out =>
      obtain ⟨⟨rip, dev⟩, opened⟩ := out
      obtain ⟨admitted, -⟩ := takeIn_works (p := p) reserved.inv reserved.resting rip dev
      have works := reserved.trans admitted
      have filp := reserve_filp_self closed bits
      rw [← takeIn_filp (reserve s f bits) rip dev] at filp
      have count := takeIn_iCount (reserve s f bits) rip dev
      have used := fun used => congrFun (congrArg State.inode
        (@takeIn_of_used (reserve s f bits) rip used dev)) rip
      have fresh := fun unused => @takeIn_fresh (reserve s f bits) rip unused dev
      have isPipe := fun allowed piped => @takeIn_pipeOk _ _ rip reserved.inv.ends allowed piped dev
      rw [← takeIn_fproc (reserve s f bits) rip dev] at free
      rw [reserve_inode] at count used fresh isPipe
      dsimp only
      rw [getInode_eq]
      generalize takeIn (reserve s f bits) rip dev = s₀ at *
      have closed₀ : (s₀.filp f).filpCount = 0 := by rw [filp]
      rw [fillFilp_claim filp]
      cases opened with
      | plain =>
        have noPipe : (s₀.inode rip).iPipe = false := by
          by_cases unused : (s.inode rip).iCount = 0
          · exact (fresh unused).1
          · rw [used unused]
            exact contract
        have opened := @openSlot_works _ _ _ _ _
            { filpMode := bits, filpFlags := flags
              filpCount := 1, filpIno := rip }
            { s₀.inode rip with iCount := (s₀.inode rip).iCount + 1 } admitted.inv
            admitted.resting free closed₀ rfl rfl
            (fun _ isPipe => absurd (noPipe.symm.trans isPipe) (by simp)) (fun _ => ⟨rfl, rfl⟩)
          fun _ _ _ isPipe => absurd (noPipe.symm.trans isPipe) (by simp)
        exact ⟨opened.1.inv, (works.trans opened.1).undisturbed⟩
      | refused code =>
        have back := @openFails_openSlot _ p _ f rip
            { filpMode := bits, filpFlags := flags, filpCount := 1, filpIno := rip }
            { s₀.inode rip with iCount := (s₀.inode rip).iCount + 1 } rfl free
            (putEntry_back (fun _ => rfl) fun unused => fresh (count.symm.trans unused))
        rw [back]
        have scribbled := @Works.scribble _ _ p _ admitted.inv admitted.resting closed₀
            (fun _ => { filpMode := bits, filpFlags := flags, filpIno := rip }) rfl
        exact ⟨scribbled.inv, (works.trans scribbled).undisturbed⟩
      | fifo =>
        have oneEnd (allowed : strict) : bits .writing = !bits .reading := by
          have distinct : bits .reading ≠ bits .writing := disciplined allowed
          cases reads : bits .reading <;> cases writes : bits .writing <;> simp_all
        have can : CanOpen strict s₀ p fd f rip bits { flags with append := true } := by
          refine ⟨admitted.inv, admitted.resting, free, closed₀,
            fun allowed => isPipe allowed contract, fun inUse => ?_, oneEnd, rfl⟩
          rw [count] at inUse
          rw [used inUse]
          exact contract.resolve_left inUse
        have marked : ((openSlot s₀ p fd f
              { filpMode := bits, filpFlags := flags, filpCount := 1, filpIno := rip }
              { s₀.inode rip with iCount := (s₀.inode rip).iCount + 1 }).modifyFilp f fun entry =>
                { entry with filpFlags := { flags with append := true } }).modifyInode rip
              (fun entry => { entry with iPipe := true }) =
            claimEnd s₀ p fd f rip bits { flags with append := true } := by
          ext1 <;> simp [claimEnd, openSlot, State.setFd, State.modifyFproc, State.modifyFilp,
            State.modifyInode]
        have opening := can.keeps opens marked flags.nonblock
        generalize pipeOpen _ p rip bits flags.nonblock fd fsCall = out at opening ⊢
        rcases opening with ⟨code, rfl⟩ | ⟨noError, inv', undisturbed⟩
        · have back := @openFails_openSlot _ p _ f rip
            { filpMode := bits, filpFlags := { flags with append := true }
              filpCount := 1, filpIno := rip }
            { s₀.inode rip with iPipe := true, iCount := (s₀.inode rip).iCount + 1 } rfl
            free (putEntry_back (fun used => can.isPipe used)
              fun unused => fresh (count.symm.trans unused))
          dsimp only
          rw [claimEnd, back]
          have scribbled := @Works.scribble _ _ p _ admitted.inv admitted.resting closed₀
            (fun _ => { filpMode := bits, filpFlags := { flags with append := true }
                        filpIno := rip }) rfl
          exact ⟨scribbled.inv, (works.trans scribbled).undisturbed⟩
        · obtain ⟨s₂, result⟩ := out
          have kept := And.intro inv' (works.undisturbed.trans undisturbed)
          cases result with
          | error code => exact absurd rfl (noError code)
          | ok | suspend => exact kept

end Open

end Minix.Fs
