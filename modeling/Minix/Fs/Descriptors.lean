/-
This file proves that the calls that make, share and give up descriptors keep the invariant of
the file system.

Such a call works on the files in a few ways only: it fills a free filp slot in, lets a
descriptor refer to a filp, or takes one away. Where a call takes several of these steps and the
tables are not consistent in between, they are compared before and after.
-/

import Minix.Fs.ReadWrite

namespace Minix.Fs

open Function (update update_of_ne update_self update_eq_self)

variable {strict : Prop}

/-! ### Work on descriptors -/

/-- A process that is not suspended has worked on something else than pipes. -/
structure Works (strict : Prop) (p : Slot) (s s' : State) : Prop where
  inv : Invariant strict s'
  undisturbed : Undisturbed p s s'
  resting : (s'.fproc p).fpSuspended = false

section Works

variable {s s' s'' : State} {p : Slot} {entry : Fproc}

theorem Works.refl (inv : Invariant strict s) (resting : (s.fproc p).fpSuspended = false) :
    Works strict p s s :=
  ⟨inv, .refl p s, resting⟩

theorem Works.trans (first : Works strict p s s') (second : Works strict p s' s'') :
    Works strict p s s'' :=
  ⟨second.inv, first.undisturbed.trans second.undisturbed, second.resting⟩

theorem Woken.works (woken : Woken s s') (inv : Invariant strict s) (queue : Queue s')
    (resting : (s.fproc p).fpSuspended = false) : Works strict p s s' :=
  ⟨inv.woken woken queue, woken.undisturbed p, by rwa [woken.resting p resting]⟩

theorem Works.of_update (s' : State) (inv : Invariant strict s)
    (fproc : s'.fproc = update s.fproc p entry)
    (resting : (s.fproc p).fpSuspended = false) (rests : entry.fpSuspended = false)
    (calm : entry.fpRevived = (s.fproc p).fpRevived)
    (sum : entry.fpCumIoPartial = (s.fproc p).fpCumIoPartial)
    (counters : s'.suspCount = s.suspCount ∧ s'.reviving = s.reviving ∧ s'.live = s.live)
    (history : ∃ written taken, s'.history = { s.history with written, taken })
    (ends : s'.files.Ends strict)
    (others : ∀ q f, q ≠ p → (s.fproc q).fpFilp (s.fproc q).fpFd = some f →
      (s'.filp f).filpIno = (s.filp f).filpIno ∧ (s'.filp f).filpMode = (s.filp f).filpMode ∧
      (s'.inode (s.filp f).filpIno).iPipe = (s.inode (s.filp f).filpIno).iPipe ∧
      (s'.inode (s.filp f).filpIno).iSize = (s.inode (s.filp f).filpIno).iSize)
    (closed : strict → ∀ rip bits, (s.inode rip).iPipe = true → s.HasEnd rip bits →
      s'.HasEnd rip bits ∨ ∀ q, s.waits q ≠ some (rip, .transfer bits.other))
    (opened : strict → ∀ rip bits, (s.inode rip).iPipe = true → s'.HasEnd rip bits →
      s.HasEnd rip bits ∨ ∀ q, s.waits q ≠ some (rip, .opening bits.other)) :
    Works strict p s s' ∧ s'.waits = s.waits := by
  obtain ⟨suspCount, reviving, live⟩ := counters
  obtain ⟨written, taken, history⟩ := history
  have pipe : ∀ {rip wait}, (¬ (s.inode rip).iPipe = true) → ∀ q, s.waits q ≠ some (rip, wait) :=
    fun noPipe q waits => noPipe (inv.waits_held waits).2.1
  obtain ⟨inv', waits⟩ := inv.frame fproc resting rests calm suspCount reviving
    (by rw [history]) (by rw [history]) (fun _ _ => by rw [history]) ends
    (fun q f other refers => by
      obtain ⟨ino, mode, iPipe, -⟩ := others q f other refers
      exact ⟨ino, mode, iPipe⟩)
    (fun _ rip q waits => by
      obtain ⟨suspended, -, f, refers, holds⟩ := inv.waits_held waits
      have other : q ≠ p := by
        rintro rfl
        rw [resting] at suspended
        cases suspended
      obtain ⟨-, -, -, iSize⟩ := others q f other refers
      have ino : (s.filp f).filpIno = rip := (Files.holds_eq_some.mp holds).2
      rwa [ino] at iSize)
    (fun allowed rip bits has => by
      by_cases isPipe : (s.inode rip).iPipe = true
      · exact closed allowed rip bits isPipe has
      · exact .inr (pipe isPipe))
    fun allowed rip bits has => by
      by_cases isPipe : (s.inode rip).iPipe = true
      · exact opened allowed rip bits isPipe has
      · exact .inr (pipe isPipe)
  have mine : s'.fproc p = entry := by rw [fproc, update_self]
  refine ⟨⟨inv', ?_, by rwa [mine]⟩, waits⟩
  refine .of_update fproc (fun inCall => ?_) (fun inCall => ?_) sum live ?_ ?_ ?_ <;>
    try simp only [history, History.replies]
  · rw [resting] at inCall
    cases inCall.1
  · rw [rests] at inCall
    cases inCall.1

end Works

/-! ### The files after a change -/

section Files

variable (s : State) (p : Slot) (fd : Fd) (f : FilpNr) (target : Option FilpNr) (rip : InodeNr)
  (changeFilp : Filp → Filp) (changeInode : Inode → Inode)

theorem setFd_files : (s.setFd p fd target).files =
    { s.files with refers := update s.files.refers (p, fd) target } := by
  have refers : (s.setFd p fd target).files.refers = update s.files.refers (p, fd) target := by
    funext ⟨q, fd'⟩
    by_cases same : q = p
    · subst same
      by_cases same' : fd' = fd <;> simp [State.setFd, State.files, same']
    · simp [State.setFd, State.files, same]
  have keeps : (s.setFd p fd target).keeps = s.keeps := by
    funext keeper
    cases keeper with
    | dir q dir =>
      by_cases same : q = p
      · subst same
        cases dir <;> simp [State.setFd, State.keeps, Fproc.dir]
      · simp [State.setFd, State.keeps, same]
    | mounted | root | hand => rfl
  rw [← refers]
  simp only [State.files, keeps]
  rfl

theorem modifyFproc_files {change : Fproc → Fproc}
    (same : (change (s.fproc p)).fpFilp = (s.fproc p).fpFilp)
    (sameDir : (change (s.fproc p)).dir = (s.fproc p).dir) :
    (s.modifyFproc p change).files = s.files := by
  have refers : (s.modifyFproc p change).files.refers = s.files.refers := by
    funext ⟨q, fd⟩
    by_cases mine : q = p
    · subst mine
      simp [State.files, same]
    · simp [State.files, mine]
  have keeps : (s.modifyFproc p change).keeps = s.keeps := by
    funext keeper
    cases keeper with
    | dir q dir =>
      by_cases mine : q = p
      · subst mine
        simp [State.keeps, sameDir]
      · simp [State.keeps, mine]
    | mounted | root | hand => rfl
  simp only [State.files] at refers ⊢
  rw [keeps, refers]
  rfl

theorem modifyFilp_files : (s.modifyFilp f changeFilp).files =
    { s.files with filp := update s.files.filp f (changeFilp (s.filp f)) } := rfl

theorem modifyInode_files : (s.modifyInode rip changeInode).files =
    { s.files with inode := update s.files.inode rip (changeInode (s.inode rip)) } := rfl

end Files

/-! ### Filling slots in -/

section Slots

variable {s s' : State} {p : Slot} {fd : Fd} {f : FilpNr} {rip : InodeNr}

theorem Works.scribble (inv : Invariant strict s) (resting : (s.fproc p).fpSuspended = false)
    (closed : (s.filp f).filpCount = 0) {change : Filp → Filp}
    (stays : (change (s.filp f)).filpCount = 0) : Works strict p s (s.modifyFilp f change) := by
  have away : ∀ {g}, (s.filp g).filpCount ≠ 0 → (s.modifyFilp f change).filp g = s.filp g := by
    intro g opened
    have other : g ≠ f := by
      rintro rfl
      exact opened closed
    rw [State.modifyFilp_filp, update_of_ne other]
  refine (Works.of_update (s.modifyFilp f change) inv (update_eq_self p s.fproc).symm
    resting resting rfl rfl ⟨rfl, rfl, rfl⟩ ⟨_, _, rfl⟩ ?_ (fun q g _ refers => ?_)
    (fun _ rip bits _ has => .inl ?_) fun _ rip bits _ has => .inl ?_).1
  · rw [modifyFilp_files]
    exact inv.ends.scribble closed stays
  · rw [away (inv.ends.refers_open (x := (q, _)) refers)]
    exact ⟨rfl, rfl, rfl, rfl⟩
  · obtain ⟨g, opened, ino, mode⟩ := has
    exact ⟨g, by rw [away opened]; exact ⟨opened, ino, mode⟩⟩
  · obtain ⟨g, opened, ino, mode⟩ := has
    by_cases same : g = f
    · subst same
      rw [State.modifyFilp_filp, update_self] at opened
      exact absurd stays opened
    · rw [State.modifyFilp_filp, update_of_ne same] at opened ino mode
      exact ⟨g, opened, ino, mode⟩

/-- The slot that `get_fd` has found, with the mode filled in. -/
def reserve (s : State) (f : FilpNr) (bits : RwFlag → Bool) : State :=
  s.modifyFilp f fun entry => { entry with filpMode := bits, filpPos := 0, filpFlags := {} }

@[simp] theorem reserve_fproc (s : State) (f : FilpNr) (bits : RwFlag → Bool) :
    (reserve s f bits).fproc = s.fproc := rfl

theorem reserve_inode (s : State) (f : FilpNr) (bits : RwFlag → Bool) :
    (reserve s f bits).inode = s.inode := rfl

theorem reserve_filp_self (closed : (s.filp f).filpCount = 0) (bits : RwFlag → Bool) :
    (reserve s f bits).filp f = { filpMode := bits, filpIno := (s.filp f).filpIno } := by
  rw [reserve, State.modifyFilp_filp, update_self, closed]

theorem reserve_filp_of_ne {g : FilpNr} (other : g ≠ f) (bits : RwFlag → Bool) :
    (reserve s f bits).filp g = s.filp g := by
  rw [reserve, State.modifyFilp_filp, update_of_ne other]

theorem reserve_works (inv : Invariant strict s) (resting : (s.fproc p).fpSuspended = false)
    (closed : (s.filp f).filpCount = 0) (bits : RwFlag → Bool) : Works strict p s
      (reserve s f bits) :=
  .scribble inv resting closed closed

theorem getFd_eq_ok {start : Nat} {bits : RwFlag → Bool}
    (found : getFd s p start bits = .ok (s', fd, f)) :
    (s.fproc p).fpFilp fd = none ∧ (s.filp f).filpCount = 0 ∧ s' = reserve s f bits := by
  unfold getFd at found
  split at found
  case h_1 => cases found
  case h_2 k free =>
    split at found
    case h_1 => cases found
    case h_2 g unused =>
      obtain ⟨rfl, rfl, rfl⟩ : _ ∧ k = fd ∧ g = f := by simpa using found
      have free := List.find?_some free
      have unused := List.find?_some unused
      simp only [Bool.and_eq_true, Option.isNone_iff_eq_none, beq_iff_eq] at free unused
      exact ⟨free.2, unused, rfl⟩

theorem Works.shareFd (inv : Invariant strict s) (resting : (s.fproc p).fpSuspended = false)
    (free : (s.fproc p).fpFilp fd = none) (opened : (s.filp f).filpCount ≠ 0) :
    Works strict p s (shareFd s p fd f) := by
  have same : ∀ g, ((Fs.shareFd s p fd f).filp g).filpIno = (s.filp g).filpIno ∧
      ((Fs.shareFd s p fd f).filp g).filpMode = (s.filp g).filpMode ∧
      (((Fs.shareFd s p fd f).filp g).filpCount ≠ 0 ↔ (s.filp g).filpCount ≠ 0) := by
    intro g
    by_cases same : g = f
    · subst same
      simpa [Fs.shareFd, State.setFd] using opened
    · simp [Fs.shareFd, State.setFd, same]
  have hasEnd : ∀ rip bits, (Fs.shareFd s p fd f).HasEnd rip bits ↔ s.HasEnd rip bits := by
    intro rip bits
    refine exists_congr fun g => ?_
    obtain ⟨ino, mode, count⟩ := same g
    rw [ino, mode, count]
  refine (Works.of_update (Fs.shareFd s p fd f) inv rfl resting resting rfl rfl ⟨rfl, rfl, rfl⟩
    ⟨_, _, rfl⟩ ?_ (fun q g _ _ => ⟨(same g).1, (same g).2.1, rfl, rfl⟩)
    (fun _ rip bits _ has => .inl ((hasEnd rip bits).mpr has))
    fun _ rip bits _ has => .inl ((hasEnd rip bits).mp has)).1
  rw [Fs.shareFd, setFd_files, modifyFilp_files]
  exact inv.ends.share (x := (p, fd)) free opened fun _ _ _ appends => .inl appends

end Slots

/-! ### Giving a descriptor up -/

section Close

variable {s s' : State} {p : Slot} {fd : Fd} {f : FilpNr} {rip : InodeNr}

/-- What `put_inode` makes of the inode. -/
def putEntry (entry : Inode) : Inode :=
  let entry := { entry with iCount := entry.iCount - 1 }
  if entry.iCount = 0 then
    if entry.iPipe then { entry with iSize := 0, readPos := 0, writePos := 0, iPipe := false }
    else entry
  else entry

theorem putInode_eq (s : State) (rip : InodeNr) : putInode s rip = s.modifyInode rip putEntry := rfl

@[simp] theorem putEntry_iCount (entry : Inode) : (putEntry entry).iCount = entry.iCount - 1 := by
  unfold putEntry
  dsimp only
  split
  · split <;> rfl
  · rfl

theorem putEntry_of_used {entry : Inode} (used : entry.iCount - 1 ≠ 0) :
    putEntry entry = { entry with iCount := entry.iCount - 1 } :=
  if_neg used

theorem putEntry_iPipe {entry : Inode} (isPipe : (putEntry entry).iPipe = true) :
    entry.iCount - 1 ≠ 0 := by
  intro unused
  unfold putEntry at isPipe
  rw [if_pos unused] at isPipe
  split at isPipe
  · cases isPipe
  · contradiction

/-- The inode with the position of a filp that is given up. -/
def savedEntry (filp : Filp) (entry : Inode) : Inode :=
  if entry.iPipe && decide (1 < entry.iCount) then
    if filp.filpMode .reading && !filp.filpMode .writing then
      { entry with readPos := filp.filpPos }
    else { entry with writePos := filp.filpPos }
  else entry

theorem savePosition_eq (s : State) (f : FilpNr) (rip : InodeNr) :
    savePosition s f rip = s.modifyInode rip (savedEntry (s.filp f)) := by
  unfold savePosition
  split
  case isTrue shared => simp only [State.modifyInode, savedEntry, if_pos shared]
  case isFalse sole =>
    simp only [State.modifyInode, savedEntry, if_neg sole, update_eq_self]

/-- Only the positions change, and that of a reader is saved while others use the pipe. -/
theorem savedEntry_spec (filp : Filp) (entry : Inode) :
    (savedEntry filp entry).iPipe = entry.iPipe ∧ (savedEntry filp entry).iCount = entry.iCount ∧
      (savedEntry filp entry).iSize = entry.iSize ∧
      (savedEntry filp entry).contents = entry.contents ∧
      (entry.iPipe = true → 1 < entry.iCount → (savedEntry filp entry).readPos =
        if filp.filpMode .reading && !filp.filpMode .writing then filp.filpPos
        else entry.readPos) := by
  unfold savedEntry
  split
  case isTrue =>
    split
    · exact ⟨rfl, rfl, rfl, rfl, fun _ _ => rfl⟩
    · exact ⟨rfl, rfl, rfl, rfl, fun _ _ => rfl⟩
  case isFalse sole =>
    rw [Bool.and_eq_true, decide_eq_true_iff] at sole
    exact ⟨rfl, rfl, rfl, rfl, fun isPipe shared => absurd ⟨isPipe, shared⟩ sole⟩

/-- What the last close of a filp makes of the inode. -/
def lastEntry (filp : Filp) (entry : Inode) : Inode := putEntry (savedEntry filp entry)

theorem putInode_savePosition (s : State) (f : FilpNr) (rip : InodeNr) :
    putInode (savePosition s f rip) rip = s.modifyInode rip (lastEntry (s.filp f)) := by
  rw [savePosition_eq, putInode_eq]
  simp [State.modifyInode, lastEntry]

theorem lastEntry_iCount (filp : Filp) (entry : Inode) :
    (lastEntry filp entry).iCount = entry.iCount - 1 := by
  rw [lastEntry, putEntry_iCount, (savedEntry_spec filp entry).2.1]

theorem lastEntry_of_used (filp : Filp) {entry : Inode} (used : entry.iCount - 1 ≠ 0) :
    (lastEntry filp entry).iPipe = entry.iPipe ∧ (lastEntry filp entry).iSize = entry.iSize ∧
      (lastEntry filp entry).contents = entry.contents ∧
      (entry.iPipe = true → (lastEntry filp entry).readPos =
        if filp.filpMode .reading && !filp.filpMode .writing then filp.filpPos
        else entry.readPos) := by
  obtain ⟨iPipe, iCount, iSize, contents, readPos⟩ := savedEntry_spec filp entry
  rw [lastEntry, putEntry_of_used (by rwa [iCount])]
  exact ⟨iPipe, iSize, contents, fun isPipe => readPos isPipe (by omega)⟩

theorem lastEntry_iPipe {filp : Filp} {entry : Inode}
    (isPipe : (lastEntry filp entry).iPipe = true) : entry.iCount - 1 ≠ 0 := by
  have used := putEntry_iPipe isPipe
  rwa [(savedEntry_spec filp entry).2.1] at used

/-- The part of `do_close` that gives the descriptor up. -/
def giveUp (s : State) (p : Slot) (fd : Fd) (f : FilpNr) : State :=
  let rip := (s.filp f).filpIno
  let s := s.modifyFilp f fun entry => { entry with filpCount := entry.filpCount - 1 }
  let s := if (s.filp f).filpCount = 0 then putInode (savePosition s f rip) rip else s
  (s.setFd p fd none).modifyFproc p fun entry =>
    { entry with fpCloexec := update entry.fpCloexec fd false }

section

variable (s p fd f)

theorem giveUp_fproc :
    (giveUp s p fd f).fproc = update s.fproc p { s.fproc p with
      fpFilp := update (s.fproc p).fpFilp fd none
      fpCloexec := update (s.fproc p).fpCloexec fd false } := by
  unfold giveUp
  dsimp only
  split <;> simp [State.setFd, putInode_savePosition]

theorem giveUp_filp :
    (giveUp s p fd f).filp =
      update s.filp f { s.filp f with filpCount := (s.filp f).filpCount - 1 } := by
  unfold giveUp
  dsimp only
  split <;> simp [State.setFd, putInode_savePosition]

theorem giveUp_frame :
    (giveUp s p fd f).suspCount = s.suspCount ∧ (giveUp s p fd f).reviving = s.reviving ∧
      (giveUp s p fd f).live = s.live ∧ (giveUp s p fd f).history = s.history := by
  unfold giveUp
  dsimp only
  split <;> simp [State.setFd, putInode_savePosition]

theorem giveUp_inode :
    (giveUp s p fd f).inode =
      if (s.filp f).filpCount - 1 = 0 then
        update s.inode (s.filp f).filpIno
          (lastEntry { s.filp f with filpCount := (s.filp f).filpCount - 1 }
            (s.inode (s.filp f).filpIno))
      else s.inode := by
  unfold giveUp
  dsimp only
  rw [State.modifyFilp_filp, update_self]
  split <;> simp [State.setFd, putInode_savePosition]

theorem giveUp_files :
    (giveUp s p fd f).files =
      { s.files with
        refers := update s.files.refers (p, fd) none
        filp := (giveUp s p fd f).filp
        inode := (giveUp s p fd f).inode } := by
  unfold giveUp
  dsimp only
  rw [modifyFproc_files _ _ rfl rfl, setFd_files]
  split
  · rw [putInode_savePosition]
    rfl
  · rfl

end

theorem giveUp_ends (ends : s.files.Ends strict) (refers : (s.fproc p).fpFilp fd = some f) :
    (giveUp s p fd f).files.Ends strict := by
  have opened : (s.filp f).filpCount ≠ 0 := ends.refers_open (x := (p, fd)) refers
  rw [giveUp_files, giveUp_filp, giveUp_inode]
  split
  case isTrue last =>
    have held : s.files.holds f = some (s.filp f).filpIno := Files.holds_eq_some.mpr ⟨opened, rfl⟩
    have used : (s.inode (s.filp f).filpIno).iCount ≠ 0 := ends.holds_used held
    refine ends.detach_last (x := (p, fd)) refers held
      (show (s.filp f).filpCount = 1 by omega) last ?_ (fun isPipe => ?_) fun allowed isPipe => ?_
    · rw [lastEntry_iCount]
      exact Nat.sub_add_cancel (Nat.pos_of_ne_zero used)
    · rw [lastEntry_iCount]
      exact lastEntry_iPipe isPipe
    · have shared := lastEntry_iPipe isPipe
      obtain ⟨iPipe, iSize, contents, readPos⟩ := lastEntry_of_used
        { s.filp f with filpCount := (s.filp f).filpCount - 1 } shared
      rw [iPipe] at isPipe
      refine ⟨isPipe, iSize, contents, (readPos isPipe).trans ?_⟩
      have oneEnd := (ends.pipes allowed _ isPipe).oneEnd f held
      change (s.filp f).filpMode .writing = !(s.filp f).filpMode .reading at oneEnd
      rw [oneEnd, Bool.not_not, Bool.and_self]
      rfl
  case isFalse more => exact ends.detach (x := (p, fd)) refers more

/-- Giving a descriptor up, when nobody waits for what its end of a pipe does. -/
theorem giveUp_works (inv : Invariant strict s) (resting : (s.fproc p).fpSuspended = false)
    (refers : (s.fproc p).fpFilp fd = some f)
    (alone : strict → ∀ bits, (s.inode (s.filp f).filpIno).iPipe = true →
      (s.filp f).filpMode bits = true →
        ∀ q, s.waits q ≠ some ((s.filp f).filpIno, .transfer bits.other)) :
    Works strict p s (giveUp s p fd f) := by
  have ends := giveUp_ends inv.ends refers
  have filp := giveUp_filp s p fd f
  have same : ∀ g, ((giveUp s p fd f).filp g).filpIno = (s.filp g).filpIno ∧
      ((giveUp s p fd f).filp g).filpMode = (s.filp g).filpMode := by
    intro g
    rw [filp]
    by_cases same : g = f
    · subst same
      rw [update_self]
      exact ⟨rfl, rfl⟩
    · rw [update_of_ne same]
      exact ⟨rfl, rfl⟩
  obtain ⟨suspCount, reviving, live, history⟩ := giveUp_frame s p fd f
  refine (Works.of_update (giveUp s p fd f) inv (giveUp_fproc s p fd f) resting resting rfl rfl
    ⟨suspCount, reviving, live⟩ ⟨_, _, history⟩ ends (fun q g other found => ?_)
    (fun allowed rip bits isPipe has => ?_) fun _ rip bits _ has => .inl ?_).1
  · -- the inode stays in use, since another process refers to it
    obtain ⟨ino, mode⟩ := same g
    refine ⟨ino, mode, ?_⟩
    have theirs : (giveUp s p fd f).files.refers (q, (s.fproc q).fpFd) = some g := by
      change ((giveUp s p fd f).fproc q).fpFilp (s.fproc q).fpFd = some g
      rwa [giveUp_fproc, update_of_ne other]
    have used := ends.holds_used (Files.holds_eq_some.mpr ⟨ends.refers_open theirs, ino⟩)
    change ((giveUp s p fd f).inode (s.filp g).filpIno).iCount ≠ 0 at used
    rw [giveUp_inode] at used ⊢
    split
    case isTrue last =>
      by_cases shared : (s.filp g).filpIno = (s.filp f).filpIno
      · rw [if_pos last, shared, update_self, lastEntry_iCount] at used
        rw [shared, update_self]
        obtain ⟨iPipe, iSize, -⟩ := lastEntry_of_used _ used
        exact ⟨iPipe, iSize⟩
      · rw [update_of_ne shared]
        exact ⟨rfl, rfl⟩
    case isFalse => exact ⟨rfl, rfl⟩
  · obtain ⟨g, opened, rfl, mode⟩ := has
    by_cases stays : ((giveUp s p fd f).filp g).filpCount = 0
    · right
      rw [filp] at stays
      by_cases mine : g = f
      · subst mine
        exact alone allowed bits isPipe mode
      · rw [update_of_ne mine] at stays
        exact absurd stays opened
    · left
      exact ⟨g, stays, (same g).1, by rwa [(same g).2]⟩
  · obtain ⟨g, opened, ino, mode⟩ := has
    rw [(same g).1] at ino
    rw [(same g).2] at mode
    refine ⟨g, fun closed => opened ?_, ino, mode⟩
    rw [filp]
    by_cases mine : g = f
    · subst mine
      rw [update_self, closed]
    · rwa [update_of_ne mine]

/-- Before an end of a pipe is given up, those that wait at the other end are released. -/
theorem release_other (inv : Invariant strict s) (opened : (s.filp f).filpCount ≠ 0)
    (isPipe : (s.inode (s.filp f).filpIno).iPipe = true) :
    let s' := release s (s.filp f).filpIno
      (if (s.filp f).filpMode .reading then .write else .read) nrProcs
    Queue s' ∧ Woken s s' ∧ (strict → ∀ bits, (s.filp f).filpMode bits = true →
      ∀ q, s'.waits q ≠ some ((s.filp f).filpIno, .transfer bits.other)) := by
  have enough : (References.size s.waits : Int) ≤ nrProcs :=
    Int.ofNat_le.mpr (References.size_le_card.trans_eq (Fintype.card_fin nrProcs))
  have oneEnd (allowed : strict) : (s.filp f).filpMode .writing = !(s.filp f).filpMode .reading :=
    (inv.ends.pipes allowed _ isPipe).oneEnd f (Files.holds_eq_some.mpr ⟨opened, rfl⟩)
  have freed : ∀ rwFlag : RwFlag,
      Queue (release s (s.filp f).filpIno rwFlag.call nrProcs) ∧
        Woken s (release s (s.filp f).filpIno rwFlag.call nrProcs) ∧
        ∀ q, (release s (s.filp f).filpIno rwFlag.call nrProcs).waits q ≠
          some ((s.filp f).filpIno, .transfer rwFlag) := by
    intro rwFlag
    have notLock : rwFlag.call ≠ .fcntl := by cases rwFlag <;> simp [RwFlag.call]
    obtain ⟨queue, woken⟩ := release_woken inv.queue isPipe notLock nrProcs
    exact ⟨queue, woken, release_transfer inv.queue isPipe rwFlag enough⟩
  cases reads : (s.filp f).filpMode .reading with
  | true =>
    obtain ⟨queue, woken, none⟩ := freed .writing
    refine ⟨queue, woken, fun allowed bits mode => ?_⟩
    cases bits with
    | reading => exact none
    | writing =>
      rw [oneEnd allowed, reads] at mode
      cases mode
  | false =>
    obtain ⟨queue, woken, none⟩ := freed .reading
    refine ⟨queue, woken, fun _ bits mode => ?_⟩
    cases bits with
    | reading =>
      rw [reads] at mode
      cases mode
    | writing => exact none

/-- The descriptors of a process after it has closed one. -/
def closedFds (s : State) (p : Slot) (fild : Int) : Fd → Option FilpNr :=
  match getFilp s p fild with
  | none => (s.fproc p).fpFilp
  | some (fd, _) => update (s.fproc p).fpFilp fd none

theorem getFilp_fd (s : State) (p : Slot) (fd : Fd) :
    getFilp s p fd.val = ((s.fproc p).fpFilp fd).map fun f => (fd, f) := by
  have valid : (0 : Int) ≤ fd.val ∧ (fd.val : Int) < openMax :=
    ⟨Int.natCast_nonneg _, Int.ofNat_lt.mpr fd.isLt⟩
  rw [getFilp, dif_pos valid]
  rfl

theorem closedFds_fd {fild : Int} {fd : Fd} (valid : fild = fd.val) (s : State) (p : Slot) :
    closedFds s p fild = update (s.fproc p).fpFilp fd none := by
  rw [closedFds, valid, getFilp_fd]
  cases found : (s.fproc p).fpFilp fd with
  | none =>
    change (s.fproc p).fpFilp = _
    rw [← found, update_eq_self]
  | some f => rfl

theorem doClose_works (inv : Invariant strict s) (resting : (s.fproc p).fpSuspended = false)
    (fild : Int) (unlocked : Bool) :
    let s' := (doClose s p fild unlocked).1
    Works strict p s s' ∧ ∃ cloexec, s'.fproc p =
      { s.fproc p with fpFilp := closedFds s p fild, fpCloexec := cloexec } := by
  unfold doClose closedFds
  cases found : getFilp s p fild with
  | none => exact ⟨.refl inv resting, _, rfl⟩
  | some entry =>
    obtain ⟨fd, f⟩ := entry
    have refers := (getFilp_eq_some found).2
    have opened : (s.filp f).filpCount ≠ 0 := inv.ends.refers_open (x := (p, fd)) refers
    obtain ⟨s₁, released, queue, woken, alone⟩ : ∃ s₁, s₁ =
        (if (s.inode (s.filp f).filpIno).iPipe then
          release s (s.filp f).filpIno (if (s.filp f).filpMode .reading then .write else .read)
            nrProcs
        else s) ∧ Queue s₁ ∧ Woken s s₁ ∧
        (strict → ∀ bits, (s.inode (s.filp f).filpIno).iPipe = true →
          (s.filp f).filpMode bits = true →
            ∀ q, s₁.waits q ≠ some ((s.filp f).filpIno, .transfer bits.other)) := by
      refine ⟨_, rfl, ?_⟩
      split
      case isTrue isPipe =>
        obtain ⟨queue, woken, alone⟩ := release_other inv opened isPipe
        exact ⟨queue, woken, fun allowed bits _ => alone allowed bits⟩
      case isFalse noPipe => exact ⟨inv.queue, .refl s, fun _ _ isPipe => absurd isPipe noPipe⟩
    dsimp only
    rw [← released]
    have ino : (s.filp f).filpIno = (s₁.filp f).filpIno := by rw [woken.filp]
    have entry := woken.resting p resting
    have resting₁ : (s₁.fproc p).fpSuspended = false := by rwa [entry]
    have gaveUp : Works strict p s₁ (giveUp s₁ p fd f) := by
      refine giveUp_works (inv.woken woken queue) resting₁ (by rwa [entry]) ?_
      rw [woken.filp, woken.inode]
      exact alone
    have mine : (giveUp s₁ p fd f).fproc p = { s.fproc p with
        fpFilp := update (s.fproc p).fpFilp fd none
        fpCloexec := update (s.fproc p).fpCloexec fd false } := by
      rw [giveUp_fproc, update_self, entry]
    have sofar : Works strict p s (giveUp s₁ p fd f) :=
      (woken.works inv queue resting).trans gaveUp
    rw [ino]
    change Works strict p s (if unlocked then lockRevive (giveUp s₁ p fd f) else giveUp s₁ p fd f) ∧
      ∃ cloexec, (if unlocked then lockRevive (giveUp s₁ p fd f) else giveUp s₁ p fd f).fproc p = _
    split
    · obtain ⟨queue', woken'⟩ := lockRevive_woken sofar.inv.queue
      refine ⟨sofar.trans (woken'.works sofar.inv queue' sofar.resting),
        update (s.fproc p).fpCloexec fd false, ?_⟩
      rw [woken'.resting p sofar.resting, mine]
    · exact ⟨sofar, update (s.fproc p).fpCloexec fd false, mine⟩

/-- Closing many descriptors, and what it leaves in the entry of the process. -/
theorem closeAll_works (inv : Invariant strict s) (resting : (s.fproc p).fpSuspended = false)
    (unlocked : Fd → Bool) (fds : List Fd) :
    let s' := closeAll s p unlocked fds
    Works strict p s s' ∧ (s'.fproc p).dir = (s.fproc p).dir ∧
      ∀ fd, (s'.fproc p).fpFilp fd = if fd ∈ fds then none else (s.fproc p).fpFilp fd := by
  induction fds generalizing s with
  | nil => exact ⟨.refl inv resting, rfl, fun fd => by simp [closeAll]⟩
  | cons fd fds inductionHypothesis =>
    obtain ⟨works, cloexec, entry⟩ := doClose_works inv resting fd.val (unlocked fd)
    obtain ⟨rest, dir, filps⟩ := inductionHypothesis works.inv works.resting
    refine ⟨works.trans rest, dir.trans ?_, fun other => (filps other).trans ?_⟩
    · rw [entry]
      funext d
      cases d <;> rfl
    · rw [entry]
      rw [closedFds_fd rfl]
      by_cases same : other = fd
      · subst same
        simp
      · simp [same]

end Close

/-! ### Sharing descriptors and setting flags -/

section Share

variable {s : State} {p : Slot} {fd : Fd} {f : FilpNr}

section

variable (inv : Invariant strict s) (resting : (s.fproc p).fpSuspended = false)
include inv resting

theorem doDupfd_works (fild addr : Int) : Works strict p s (doDupfd s p fild addr).1 := by
  unfold doDupfd
  cases found : getFilp s p fild with
  | none => exact .refl inv resting
  | some entry =>
    obtain ⟨rfd, f⟩ := entry
    have opened : (s.filp f).filpCount ≠ 0 :=
      inv.ends.refers_open (x := (p, rfd)) (getFilp_eq_some found).2
    dsimp only
    split
    · exact .refl inv resting
    split
    · exact .refl inv resting
    case h_2 s' newFd g free =>
      obtain ⟨unused, closed, rfl⟩ := getFd_eq_ok free
      have reserved := reserve_works (p := p) inv resting closed fun _ => false
      refine reserved.trans (.shareFd reserved.inv resting unused ?_)
      have other : f ≠ g := by
        rintro rfl
        exact opened closed
      rwa [reserve_filp_of_ne other]

theorem doDup2_works (fild fild₂ : Int) (unlocked : Bool) :
    Works strict p s (doDup2 s p fild fild₂ unlocked).1 := by
  unfold doDup2
  cases found : getFilp s p fild with
  | none => exact .refl inv resting
  | some entry =>
    obtain ⟨rfd, f⟩ := entry
    dsimp only
    split
    case isFalse => exact .refl inv resting
    case isTrue valid =>
      split
      case isTrue => exact .refl inv resting
      case isFalse distinct =>
        obtain ⟨works, cloexec, entry⟩ := doClose_works inv resting fild₂ unlocked
        have filps : ((doClose s p fild₂ unlocked).1.fproc p).fpFilp =
            update (s.fproc p).fpFilp ⟨fild₂.toNat, by omega⟩ none := by
          rw [entry]
          exact closedFds_fd (Int.toNat_of_nonneg valid.1).symm s p
        refine works.trans (.shareFd works.inv works.resting ?_ ?_)
        · rw [filps, update_self]
        · refine works.inv.ends.refers_open (x := (p, rfd)) ?_
          change ((doClose s p fild₂ unlocked).1.fproc p).fpFilp rfd = some f
          rw [filps, update_of_ne distinct]
          exact (getFilp_eq_some found).2

theorem doSetfd_works (fild : Int) (cloexec : Bool) :
    Works strict p s (doSetfd s p fild cloexec).1 := by
  unfold doSetfd
  cases found : getFilp s p fild with
  | none => exact .refl inv resting
  | some entry =>
    refine (Works.of_update (s.modifyFproc p fun entry =>
      { entry with fpCloexec := update entry.fpCloexec _ cloexec }) inv rfl resting resting rfl rfl
        ⟨rfl, rfl, rfl⟩ ⟨_, _, rfl⟩ ?_
      (fun _ _ _ _ => ⟨rfl, rfl, rfl, rfl⟩) (fun _ _ _ _ has => .inl has)
      fun _ _ _ _ has => .inl has).1
    rw [modifyFproc_files _ _ rfl rfl]
    exact inv.ends

theorem doSetfl_works (fild : Int) (flags : Flags)
    (disciplined : strict → Disciplined s (.message (.setfl p fild flags))) :
    Works strict p s (doSetfl s p fild flags).1 := by
  unfold doSetfl
  cases found : getFilp s p fild with
  | none => exact .refl inv resting
  | some entry =>
    obtain ⟨fd, f⟩ := entry
    have same : ∀ g, ((s.modifyFilp f fun entry => { entry with filpFlags := flags }).filp
        g).filpCount = (s.filp g).filpCount ∧
      ((s.modifyFilp f fun entry => { entry with filpFlags := flags }).filp g).filpIno =
        (s.filp g).filpIno ∧
      ((s.modifyFilp f fun entry => { entry with filpFlags := flags }).filp g).filpMode =
        (s.filp g).filpMode := by
      intro g
      by_cases same : g = f
      · subst same
        simp
      · simp [same]
    have hasEnd : ∀ rip bits, (s.modifyFilp f fun entry =>
        { entry with filpFlags := flags }).HasEnd rip bits ↔ s.HasEnd rip bits := by
      intro rip bits
      refine exists_congr fun g => ?_
      obtain ⟨count, ino, mode⟩ := same g
      rw [count, ino, mode]
    refine (Works.of_update (s.modifyFilp f fun entry => { entry with filpFlags := flags }) inv
      (update_eq_self p s.fproc).symm resting resting rfl rfl ⟨rfl, rfl, rfl⟩ ⟨_, _, rfl⟩
      (inv.ends.setFlags ?_) (fun q g _ _ => ⟨(same g).2.1, (same g).2.2, rfl, rfl⟩)
      (fun _ rip bits _ has => .inl ((hasEnd rip bits).mpr has))
      fun _ rip bits _ has => .inl ((hasEnd rip bits).mp has)).1
    rintro allowed rip ⟨held, mode⟩ isPipe
    obtain ⟨-, rfl⟩ := Files.holds_eq_some.mp held
    have appends := disciplined allowed
    simp only [Disciplined, found] at appends
    exact appends isPipe mode

end

/-- A process that is suspended on a lock or a task does not disturb the calls on pipes. -/
theorem suspend_undisturbed (resting : (s.fproc p).fpSuspended = false) {task : Task}
    (noPipe : task ≠ .xpipe) (fd : Fd) (fsCall : CallNr) (buffer : Nat → UInt8) (nbytes : Nat) :
    Undisturbed p s (suspend s p task fd fsCall buffer nbytes) := by
  obtain ⟨-, -, live, history, -⟩ := suspend_frame s p task fd fsCall buffer nbytes
  refine .of_update (suspend_fproc s p task fd fsCall buffer nbytes) (fun inCall => ?_)
    (fun inCall => noPipe inCall.2) rfl live (by rw [history]) (by rw [history]) (by rw [history])
  rw [resting] at inCall
  cases inCall.1

theorem doLock_keeps (inv : Invariant strict s) (resting : (s.fproc p).fpSuspended = false)
    (fild : Int) (lock : Lock) :
    Invariant strict (doLock s p fild lock).1 ∧ Undisturbed p s (doLock s p fild lock).1 := by
  unfold doLock
  cases found : getFilp s p fild with
  | none => exact ⟨inv, .refl p s⟩
  | some entry =>
    cases lock with
    | suspended =>
      exact ⟨(inv.suspend_other resting (by simp) (fun _ => rfl) fun nr other => by cases other).1,
        suspend_undisturbed resting (by simp) _ _ _ _⟩
    | answer result unlocked =>
      cases unlocked with
      | false => exact ⟨inv, .refl p s⟩
      | true =>
        obtain ⟨queue, woken⟩ := lockRevive_woken inv.queue
        exact ⟨inv.woken woken queue, woken.undisturbed p⟩

theorem doIoctl_keeps (inv : Invariant strict s) (resting : (s.fproc p).fpSuspended = false)
    (fild : Int) (file : FileIo) :
    Invariant strict (doIoctl s p fild file).1 ∧ Undisturbed p s (doIoctl s p fild file).1 := by
  unfold doIoctl
  cases found : getFilp s p fild with
  | none => exact ⟨inv, .refl p s⟩
  | some entry =>
    obtain ⟨fd, f⟩ := entry
    dsimp only
    split
    case isTrue => exact ⟨inv, .refl p s⟩
    case isFalse noPipe =>
      cases file with
      | suspended task =>
        refine ⟨(inv.suspend_other resting (by simp) (fun lock => by cases lock)
          fun nr _ g refers => ?_).1, suspend_undisturbed resting (by simp) _ _ _ _⟩
        rw [(getFilp_eq_some found).2] at refers
        rw [← Option.some.inj refers]
        simpa using noPipe
      | answer result => cases result <;> exact ⟨inv, .refl p s⟩

end Share

end Minix.Fs
