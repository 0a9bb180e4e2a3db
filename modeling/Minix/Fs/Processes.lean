/-
This file proves that forking, exiting and ending the suspension of a process keep the invariant
of the file system.

Slots of processes that do not exist refer to nothing (`Vacant`), so that a child can inherit what
its parent has open, and a process that exits leaves such a slot.
-/

import Minix.Fs.Directories

namespace Minix.Fs

open Function (update update_of_ne update_self update_eq_self)

variable {strict : Prop}

/-! ### Ending a suspension -/

section Stop

variable {s : State} {p : Slot}

/-- A process is not suspended any more, and nothing else has changed in the tables. -/
theorem Invariant.stop (s' : State) (inv : Invariant strict s)
    (fproc : s'.fproc = update s.fproc p
      { s.fproc p with fpSuspended := false, fpRevived := false })
    (tables : s'.filp = s.filp ∧ s'.inode = s.inode ∧ s'.superBlock = s.superBlock)
    (history : s'.history.written = s.history.written ∧ s'.history.taken = s.history.taken ∧
      s'.history.source = s.history.source ∧ s'.history.moved = s.history.moved)
    (suspCount : s'.suspCount - s'.history.interrupted =
      s.suspCount - s.history.interrupted - if (s.waits p).isSome then 1 else 0)
    (reviving : s'.reviving = s.reviving - if (s.fproc p).fpRevived then 1 else 0) :
    Invariant strict s' ∧ s'.waits = update s.waits p none := by
  obtain ⟨filp, inode, superBlock⟩ := tables
  obtain ⟨written, taken, source, moved⟩ := history
  have mine : s'.fproc p = { s.fproc p with fpSuspended := false, fpRevived := false } := by
    rw [fproc, update_self]
  have theirs : ∀ {q}, q ≠ p → s'.fproc q = s.fproc q := fun other => by
    rw [fproc, update_of_ne other]
  have files : s'.files = s.files := by
    rw [← @modifyFproc_files s p
        (fun entry => { entry with fpSuspended := false, fpRevived := false }) rfl rfl]
    simp only [State.files, keeps_congr (s := s.modifyFproc p fun entry =>
      { entry with fpSuspended := false, fpRevived := false }) fproc superBlock, fproc, filp, inode,
      written, taken]
    rfl
  have waits : s'.waits = update s.waits p none := by
    funext q
    by_cases same : q = p
    · subst same
      rw [update_self]
      exact waits_eq_none_of_not_suspended (by rw [mine])
    · rw [update_of_ne same]
      simp only [State.waits, theirs same, filp]
  have revives : s'.revives = update s.revives p none := by
    funext q
    by_cases same : q = p
    · subst same
      rw [update_self, State.revives, mine]
      rfl
    · rw [update_of_ne same]
      simp only [State.revives, theirs same]
  have queue : Queue s' := by
    refine ⟨fun q => ?_, ?_, ?_⟩
    · by_cases same : q = p
      · subst same
        have rests : (s'.fproc q).fpSuspended ≠ true := by simp [mine]
        exact ⟨fun revived => absurd revived (by simp [mine]), fun still => absurd still rests,
          fun still => absurd still rests, fun still => absurd still rests,
          fun still => absurd still rests⟩
      · refine (inv.queue.parked q).congr ?_ ?_ ?_ ?_ ?_ ?_ fun g _ => ?_ <;>
          simp only [theirs same, filp, inode, and_self]
    · have counted := inv.queue.suspCount
      rw [waits]
      cases waited : s.waits p with
      | none =>
        rw [waited] at suspCount
        rw [← waited, update_eq_self]
        simp only [Option.isSome_none, Bool.false_eq_true, if_false] at suspCount
        omega
      | some wanted =>
        have smaller := @References.size_detach _ _ _ s.waits p _ (by simp [waited])
        rw [waited] at suspCount
        simp only [Option.isSome_some, if_true] at suspCount
        omega
    · have counted := inv.queue.reviving
      rw [revives]
      cases revived : (s.fproc p).fpRevived with
      | false =>
        have before : s.revives p = none := by simp [State.revives, revived]
        rw [revived] at reviving
        rw [← before, update_eq_self, reviving]
        simpa using counted
      | true =>
        have smaller := @References.size_detach _ _ _ s.revives p _
          (by simp [State.revives, revived])
        rw [revived] at reviving
        simp only [if_true] at reviving
        omega
  have hasEnd : ∀ rip bits, s'.HasEnd rip bits ↔ s.HasEnd rip bits := by
    intro rip bits
    simp only [State.HasEnd, filp]
  refine ⟨⟨⟨by rw [files]; exact inv.ends, queue, fun q inCall call => ?_⟩, fun allowed => ?_⟩,
    waits⟩
  · have other : q ≠ p := by
      rintro rfl
      rw [mine] at inCall
      cases inCall.1
    rw [theirs other] at inCall call ⊢
    rw [source, moved]
    exact inv.sources q inCall call
  · refine (inv.waiting allowed).of_fewer (fun q wanted waits' => ?_) (fun rip q _ => by rw [inode])
      (fun rip bits has => .inl ((hasEnd rip bits).mpr has))
      fun rip bits has => .inl ((hasEnd rip bits).mp has)
    rw [waits] at waits'
    by_cases same : q = p
    · subst same
      rw [update_self] at waits'
      cases waits'
    · rwa [update_of_ne same] at waits'

theorem waits_isSome (queue : Queue s) (p : Slot) : (s.waits p).isSome =
    ((s.fproc p).fpSuspended && !(s.fproc p).fpRevived &&
      ((s.fproc p).fpTask == .xpipe || (s.fproc p).fpTask == .xpopen)) := by
  unfold State.waits
  dsimp only
  split
  case isTrue hanging =>
    rw [hanging, Bool.true_and]
    rw [Bool.and_eq_true] at hanging
    cases task : (s.fproc p).fpTask with
    | xpipe =>
      obtain ⟨-, -, -, f, refers, -⟩ := (queue.parked p).pipe hanging.1 task
      simp [refers]
    | xpopen =>
      obtain ⟨-, f, refers, -⟩ := (queue.parked p).popen hanging.1 task
      simp [refers]
    | xlock => rfl
    | device nr => rfl
  case isFalse idle =>
    rw [Bool.not_eq_true] at idle
    rw [idle]
    rfl

theorem Queue.none_revived (queue : Queue s) (calm : s.reviving = 0) (p : Slot) :
    (s.fproc p).fpRevived = false := by
  by_contra revived
  rw [Bool.not_eq_false] at revived
  have counted := queue.reviving
  have one := @References.size_pos _ _ _ s.revives p (by simp [State.revives, revived])
  omega

end Stop

/-! ### Interrupted calls -/

section Unpause

variable {s : State} {p : Slot}

/-- What `do_unpause` changes: a process that is suspended goes on, and is told that its call was
interrupted. -/
theorem doUnpause_frame (s : State) (p : Slot) :
    let s' := doUnpause (noteInterrupt s p) p
    s'.fproc = update s.fproc p { s.fproc p with fpSuspended := false } ∧
      (s'.filp = s.filp ∧ s'.inode = s.inode ∧ s'.superBlock = s.superBlock) ∧
      (s'.suspCount = s.suspCount ∧ s'.reviving = s.reviving ∧ s'.live = s.live) ∧
      s'.history = { s.history with
        interrupted := s.history.interrupted +
          if (s.fproc p).fpSuspended && !(s.fproc p).fpRevived &&
            ((s.fproc p).fpTask == .xpipe || (s.fproc p).fpTask == .xpopen) then 1 else 0
        answers := s.history.answers ++
          if (s.fproc p).fpSuspended && (s.fproc p).fpTask == .xpipe && s.live p then
            [⟨p, .error .eintr, s.history.moved p⟩] else []
        failedOpens := s.history.failedOpens ++
          if opening s p then [⟨p, s.history.descriptors p, (s.fproc p).fpFilp⟩] else [] } := by
  cases suspended : (s.fproc p).fpSuspended with
  | false =>
    have same : ({ s.fproc p with fpSuspended := false } : Fproc) = s.fproc p := by
      rw [← suspended]
    simp [doUnpause, noteInterrupt, opening, suspended, same]
  | true =>
    cases task : (s.fproc p).fpTask <;> cases revived : (s.fproc p).fpRevived <;>
      cases live : s.live p <;>
      simp [doUnpause, noteInterrupt, noteFailure, opening, replyPipe, suspended,
        task, revived, live]

theorem doUnpause_keeps (inv : Invariant strict s) (calm : s.reviving = 0) (p : Slot) :
    Invariant strict (doUnpause (noteInterrupt s p) p) := by
  obtain ⟨fproc, tables, ⟨suspCount, reviving, -⟩, history⟩ := doUnpause_frame s p
  have revived := inv.queue.none_revived calm p
  have entry : ({ s.fproc p with fpSuspended := false } : Fproc) =
      { s.fproc p with fpSuspended := false, fpRevived := false } := by rw [← revived]
  refine (inv.stop _ (fproc.trans (by rw [entry])) tables ?_ ?_ ?_).1
  · rw [history]
    exact ⟨rfl, rfl, rfl, rfl⟩
  · rw [suspCount, history, waits_isSome inv.queue p]
    dsimp only
    split <;> omega
  · rw [reviving, revived]
    simp

end Unpause

/-! ### Revived processes -/

section Revived

variable {s s₁ : State} {p : Slot}

theorem getWork_eq_some (found : getWork s = some (p, s₁)) :
    (s.fproc p).fpRevived = true ∧
      s₁ = { s.modifyFproc p fun entry =>
          { entry with fpSuspended := false, fpRevived := false } with
        reviving := s.reviving - 1 } := by
  obtain ⟨-, found⟩ := Option.ite_none_left_eq_some.mp found
  obtain ⟨q, search, same⟩ := Option.map_eq_some_iff.mp found
  obtain ⟨rfl, rfl⟩ := Prod.mk.inj same
  exact ⟨by simpa using List.find?_some search, rfl⟩

section

variable (inv : Invariant strict s)
include inv

theorem getWork_keeps (found : getWork s = some (p, s₁)) :
    Invariant strict s₁ := by
  obtain ⟨revived, rfl⟩ := getWork_eq_some found
  refine (inv.stop { s.modifyFproc p fun entry =>
      { entry with fpSuspended := false, fpRevived := false } with reviving := s.reviving - 1 }
    rfl ⟨rfl, rfl, rfl⟩ ⟨rfl, rfl, rfl, rfl⟩ ?_ ?_).1
  · rw [waits_eq_none_of_revived revived]
    simp
  · rw [revived]
    simp

/-- What a process that is revived was suspended in: a call on a pipe, or a lock request. -/
theorem Invariant.revived_call (revived : (s.fproc p).fpRevived = true) :
    ((s.fproc p).fpTask = .xlock ∧ (s.fproc p).fpCall = .fcntl) ∨
      ((s.fproc p).fpSuspended = true ∧ (s.fproc p).fpTask = .xpipe) ∧
        ∃ rwFlag : RwFlag, (s.fproc p).fpCall = rwFlag.call ∧ 0 < (s.fproc p).fpNbytes ∧
          ∃ f, (s.fproc p).fpFilp (s.fproc p).fpFd = some f ∧ (s.filp f).filpMode rwFlag = true ∧
            (s.inode (s.filp f).filpIno).iPipe = true := by
  obtain ⟨suspended, task | task⟩ := (inv.queue.parked p).revived revived
  · obtain ⟨some, rwFlag, call, f, found⟩ := (inv.queue.parked p).pipe suspended task
    exact .inr ⟨⟨suspended, task⟩, rwFlag, call, some, f, found⟩
  · exact .inl ⟨task, (inv.queue.parked p).lock suspended task⟩

theorem revive_keeps (contract : Contract s (.message (.revive p))) :
    Invariant strict (Fs.revive s p) := by
  have idle : s.waits p = none := by
    by_contra waited
    obtain ⟨wanted, waits⟩ := Option.ne_none_iff_exists'.mp waited
    obtain ⟨suspended, -, task | task, -⟩ := waits_eq_some waits
    · exact (contract suspended).1 task
    · exact (contract suspended).2.1 task
  exact inv.woken (revive_woken s p) (inv.queue.revive idle)

end

end Revived

/-! ### Slots without a process -/

/-- The slots of processes that do not exist refer to nothing. -/
def Vacant (s : State) : Prop :=
  ∀ p, s.live p = false → (s.fproc p).fpSuspended = false ∧
    (s.fproc p).fpFilp = (fun _ => none) ∧ (s.fproc p).dir = fun _ => none

theorem Vacant.apart {s s' : State} {p : Slot} (vacant : Vacant s) (apart : Apart p s s')
    (exists' : s.live p = true) : Vacant s' := by
  intro q dead
  rw [apart.live] at dead
  have other : q ≠ p := by
    rintro rfl
    rw [exists'] at dead
    cases dead
  obtain ⟨resting, filps, dirs⟩ := vacant q dead
  rw [apart.others q other resting]
  exact ⟨resting, filps, dirs⟩

/-! ### Exiting -/

section Exit

variable {s : State} {p : Slot}

/-- The first part of `do_exit`: a process that is suspended is so no more. -/
def leave (s : State) (p : Slot) : State :=
  let entry := s.fproc p
  if entry.fpSuspended then
    let s := if entry.fpTask = .xpipe ∨ entry.fpTask = .xpopen then
        { s with suspCount := s.suspCount - 1 }
      else s
    (doUnpause s p).modifyFproc p fun entry => { entry with fpSuspended := false }
  else s

theorem doExit_eq (s : State) (p : Slot) (unlocked : Fd → Bool) :
    doExit s p unlocked = putDirs (closeAll (leave s p) p unlocked (List.finRange openMax)) p :=
  rfl

theorem leave_eq (dead : s.live p = false) : leave s p =
    { s.modifyFproc p fun entry => { entry with fpSuspended := false } with
      suspCount := s.suspCount -
        if (s.fproc p).fpSuspended && ((s.fproc p).fpTask == .xpipe ||
          (s.fproc p).fpTask == .xpopen)
        then 1 else 0 } := by
  cases suspended : (s.fproc p).fpSuspended with
  | false =>
    have same : ({ s.fproc p with fpSuspended := false } : Fproc) = s.fproc p := by
      rw [← suspended]
    simp [leave, suspended, State.modifyFproc, same]
  | true =>
    cases task : (s.fproc p).fpTask <;>
      simp [leave, doUnpause, replyPipe, suspended, task, dead, State.modifyFproc]

theorem leave_keeps (inv : Invariant strict s) (calm : s.reviving = 0) (dead : s.live p = false) :
    Invariant strict (leave s p) ∧ ((leave s p).fproc p).fpSuspended = false := by
  have revived := inv.queue.none_revived calm p
  have entry : ({ s.fproc p with fpSuspended := false } : Fproc) =
      { s.fproc p with fpSuspended := false, fpRevived := false } := by rw [← revived]
  have left := leave_eq dead
  refine ⟨(inv.stop (p := p) (leave s p) ?_ ?_ ?_ ?_ ?_).1, by simp [left]⟩ <;> rw [left]
  · exact congrArg (update s.fproc p) entry
  · exact ⟨rfl, rfl, rfl⟩
  · exact ⟨rfl, rfl, rfl, rfl⟩
  · rw [waits_isSome inv.queue p, revived, Bool.not_false, Bool.and_true]
    dsimp only
    rw [State.modifyFproc_history]
    omega
  · simp [revived]

/-- A process that exits leaves its slot vacant, and the others as they were. -/
theorem doExit_keeps (inv : Invariant strict s) (calm : s.reviving = 0) (dead : s.live p = false)
    (unlocked : Fd → Bool) :
    let s' := doExit s p unlocked
    Invariant strict s' ∧ Apart p s s' ∧ (s'.fproc p).fpSuspended = false ∧
      (s'.fproc p).fpFilp = (fun _ => none) ∧ (s'.fproc p).dir = fun _ => none := by
  obtain ⟨left, resting⟩ := leave_keeps inv calm dead
  have apart : Apart p s (leave s p) := by
    rw [leave_eq dead]
    exact .of_update rfl rfl rfl (fun _ _ => rfl) rfl
  obtain ⟨closed, -, filps⟩ := closeAll_works left resting unlocked (List.finRange openMax)
  obtain ⟨put, dirs, sameFilps⟩ := putDirs_works closed.inv closed.resting
  rw [doExit_eq]
  refine ⟨put.inv, (apart.trans closed.undisturbed.toApart).trans put.undisturbed.toApart,
    put.resting, ?_, dirs⟩
  rw [sameFilps]
  funext fd
  rw [filps, if_pos (List.mem_finRange fd)]

end Exit

/-! ### Forking -/

section Fork

variable {s : State} {filps : Fd → Option FilpNr} {fds : List Fd} {filp : FilpNr → Filp}

/-- For each of the given descriptors, one more descriptor refers to its filp. -/
def inherit (filps : Fd → Option FilpNr) (fds : List Fd) (filp : FilpNr → Filp) : FilpNr → Filp :=
  fds.foldl (fun filp fd =>
    match filps fd with
    | some f => update filp f { filp f with filpCount := (filp f).filpCount + 1 }
    | none => filp) filp

theorem inherit_eq (filps : Fd → Option FilpNr) (fds : List Fd) (filp : FilpNr → Filp)
    (f : FilpNr) : ∃ more, inherit filps fds filp f =
      { filp f with filpCount := (filp f).filpCount + more } ∧
        ((∀ fd, filps fd ≠ some f) → more = 0) := by
  induction fds generalizing filp with
  | nil => exact ⟨0, rfl, fun _ => rfl⟩
  | cons fd fds inductionHypothesis =>
    cases found : filps fd with
    | none =>
      obtain ⟨more, same, none⟩ := inductionHypothesis filp
      refine ⟨more, Eq.trans ?_ same, none⟩
      simp [inherit, found]
    | some g =>
      obtain ⟨more, same, none⟩ := inductionHypothesis
        (update filp g { filp g with filpCount := (filp g).filpCount + 1 })
      have step : inherit filps (fd :: fds) filp =
          inherit filps fds (update filp g
            { filp g with filpCount := (filp g).filpCount + 1 }) := by
        simp [inherit, found]
      rw [step, same]
      by_cases mine : f = g
      · subst mine
        refine ⟨1 + more, ?_, fun absent => absurd found (absent fd)⟩
        rw [update_self, Nat.add_assoc]
      · rw [update_of_ne mine]
        exact ⟨more, rfl, none⟩

/-- A fork gives the child a reference to each open file of the parent. -/
theorem Files.Ends.inherit {t : Files} {child : Slot} (ends : t.Ends strict) (nodup : fds.Nodup)
    (free : ∀ fd, fd ∈ fds → t.refers (child, fd) = none)
    (opened : ∀ fd f, filps fd = some f → (t.filp f).filpCount ≠ 0) :
    Files.Ends strict { t with
      refers := fun x => if x.1 = child ∧ x.2 ∈ fds then filps x.2 else t.refers x
      filp := Fs.inherit filps fds t.filp } := by
  induction fds generalizing t with
  | nil => simpa [Fs.inherit] using ends
  | cons fd fds inductionHypothesis =>
    obtain ⟨fresh, nodup⟩ := List.nodup_cons.mp nodup
    cases found : filps fd with
    | none =>
      have rest := inductionHypothesis ends nodup (fun other member => free other (.tail fd member))
        opened
      have same : (fun x : Slot × Fd => if x.1 = child ∧ x.2 ∈ fd :: fds then filps x.2
          else t.refers x) = fun x => if x.1 = child ∧ x.2 ∈ fds then filps x.2 else
            t.refers x := by
        funext ⟨q, other⟩
        by_cases mine : q = child ∧ other = fd
        · obtain ⟨rfl, rfl⟩ := mine
          simp [fresh, found, free other (.head fds)]
        · have elsewhere : (q = child ∧ other ∈ fd :: fds) ↔ (q = child ∧ other ∈ fds) := by
            simp only [List.mem_cons]
            tauto
          simp only [elsewhere]
      rw [same, show Fs.inherit filps (fd :: fds) t.filp = Fs.inherit filps fds t.filp by
        simp [Fs.inherit, found]]
      exact rest
    | some f =>
      have shared := @Files.Ends.share _ _ _ _ ends (free fd (.head fds)) (opened fd f found)
          ((t.filp f).filpFlags) fun _ _ _ appends => .inl appends
      have rest := inductionHypothesis shared nodup (fun other member => ?_)
        fun other g refers => ?_
      · have same : (fun x : Slot × Fd => if x.1 = child ∧ x.2 ∈ fd :: fds then filps x.2
            else t.refers x) = fun x => if x.1 = child ∧ x.2 ∈ fds then filps x.2
              else update t.refers (child, fd) (some f) x := by
          funext ⟨q, other⟩
          by_cases mine : q = child ∧ other = fd
          · obtain ⟨rfl, rfl⟩ := mine
            simp [fresh, found]
          · have elsewhere : (q = child ∧ other ∈ fd :: fds) ↔ (q = child ∧ other ∈ fds) := by
              simp only [List.mem_cons]
              tauto
            have distinct : (q, other) ≠ (child, fd) := by
              rintro ⟨⟩
              exact mine ⟨rfl, rfl⟩
            simp only [elsewhere, update_of_ne distinct]
        rw [same, show Fs.inherit filps (fd :: fds) t.filp = Fs.inherit filps fds (update t.filp f
          { t.filp f with filpCount := (t.filp f).filpCount + 1 }) by simp [Fs.inherit, found]]
        exact rest
      · have distinct : (child, other) ≠ (child, fd) := by
          rintro ⟨⟩
          exact fresh member
        exact (update_of_ne distinct _ _).trans (free other (.tail fd member))
      · by_cases same : g = f
        · subst same
          simp
        · simpa [same] using opened other g refers

variable {parent child : Slot}

theorem doFork_eq (s : State) (parent child : Slot) : doFork s parent child =
    dupInode? (dupInode? { s.modifyFproc child fun _ => s.fproc parent with
      filp := inherit (s.fproc parent).fpFilp (List.finRange openMax) s.filp }
      (s.fproc parent).fpRootdir) (s.fproc parent).fpWorkdir := by
  have shared : ∀ (fds : List Fd) (s₁ : State), s₁.fproc child = s.fproc parent →
      fds.foldl (countFd child) s₁ =
        { s₁ with filp := inherit (s.fproc parent).fpFilp fds s₁.filp } := by
    intro fds
    induction fds with
    | nil => exact fun _ _ => rfl
    | cons fd fds inductionHypothesis =>
      intro s₁ entry
      rw [List.foldl_cons, countFd, entry]
      cases found : (s.fproc parent).fpFilp fd with
      | none =>
        dsimp only
        rw [inductionHypothesis s₁ entry]
        simp [inherit, found]
      | some f =>
        dsimp only
        rw [inductionHypothesis (s₁.modifyFilp f _) entry]
        simp [inherit, found, State.modifyFilp]
  have entry : (s.modifyFproc child fun _ => s.fproc parent).fproc child = s.fproc parent := by simp
  unfold doFork
  dsimp only
  rw [shared _ _ entry]
  rw [entry]
  rfl

theorem dupInode?_ends {keeps : Keeper → Option InodeNr} {keeper : Keeper}
    (ends : Files.Ends strict { s.files with keeps }) (free : keeps keeper = none)
    (target : Option InodeNr) : Files.Ends strict
      { (dupInode? s target).files with keeps := update keeps keeper target } := by
  cases target with
  | some rip => exact ends.keep free rip
  | none =>
    have same : update keeps keeper none = keeps := by rw [← free, update_eq_self]
    rw [same]
    exact ends

theorem dupInode?_frame (s : State) (target : Option InodeNr) :
    let s' := dupInode? s target
    s'.filp = s.filp ∧ s'.suspCount = s.suspCount ∧ s'.reviving = s.reviving ∧ s'.live = s.live ∧
      s'.history = s.history ∧ ∀ i, (s'.inode i).iPipe = (s.inode i).iPipe ∧
        (s'.inode i).iSize = (s.inode i).iSize := by
  cases target with
  | none => exact ⟨rfl, rfl, rfl, rfl, rfl, fun _ => ⟨rfl, rfl⟩⟩
  | some rip =>
    refine ⟨rfl, rfl, rfl, rfl, rfl, fun i => ?_⟩
    by_cases same : i = rip <;> simp [dupInode?, dupInode, same]

/-- The child shares what its parent has open. -/
theorem doFork_keeps (inv : Invariant strict s) (vacant : Vacant s) (dead : s.live child = false)
    (resting : (s.fproc parent).fpSuspended = false) :
    let s' := doFork s parent child
    Invariant strict s' ∧ s'.fproc = update s.fproc child (s.fproc parent) ∧ s'.live = s.live ∧
      s'.history = s.history := by
  obtain ⟨idle, noFds, noDirs⟩ := vacant child dead
  let s₁ : State := { s.modifyFproc child fun _ => s.fproc parent with
    filp := inherit (s.fproc parent).fpFilp (List.finRange openMax) s.filp }
  let s₂ := dupInode? s₁ (s.fproc parent).fpRootdir
  let s₃ := dupInode? s₂ (s.fproc parent).fpWorkdir
  rw [doFork_eq s parent child]
  change Invariant strict s₃ ∧ s₃.fproc = _ ∧ s₃.live = s.live ∧ s₃.history = s.history
  obtain ⟨filp₂, suspCount₂, reviving₂, live₂, history₂, inode₂⟩ :=
    dupInode?_frame s₁ (s.fproc parent).fpRootdir
  obtain ⟨filp₃, suspCount₃, reviving₃, live₃, history₃, inode₃⟩ :=
    dupInode?_frame s₂ (s.fproc parent).fpWorkdir
  have fproc : s₃.fproc = update s.fproc child (s.fproc parent) := by
    rw [show s₃.fproc = s₂.fproc from dupInode?_fproc _ _,
      show s₂.fproc = s₁.fproc from dupInode?_fproc _ _]
    rfl
  have opened : ∀ fd f, (s.fproc parent).fpFilp fd = some f → (s.filp f).filpCount ≠ 0 :=
    fun fd f refers => inv.opened refers
  have filp : ∀ g, (s₃.filp g).filpIno = (s.filp g).filpIno ∧
      (s₃.filp g).filpMode = (s.filp g).filpMode ∧
      ((s₃.filp g).filpCount ≠ 0 ↔ (s.filp g).filpCount ≠ 0) := by
    intro g
    obtain ⟨more, same, none⟩ :=
      inherit_eq (s.fproc parent).fpFilp (List.finRange openMax) s.filp g
    rw [show s₃.filp = s₂.filp from filp₃, show s₂.filp = s₁.filp from filp₂]
    rw [show s₁.filp g = _ from same]
    refine ⟨rfl, rfl, fun used closed => ?_, fun used => ?_⟩
    · have nobody := none fun fd refers => opened fd g refers closed
      dsimp only at used
      omega
    · dsimp only
      omega
  have ends : s₃.files.Ends strict := by
    have shared := @Files.Ends.inherit _ ((s.fproc parent).fpFilp) _ _ child inv.ends
        (List.nodup_finRange openMax) (fun fd _ => congrFun noFds fd) opened
    have first : Files.Ends strict { s₁.files with keeps := s.keeps } := by
      have refers : s₁.files.refers = fun x => if x.1 = child ∧ x.2 ∈ List.finRange openMax then
          (s.fproc parent).fpFilp x.2 else s.files.refers x := by
        funext ⟨q, fd⟩
        by_cases same : q = child
        · simp [s₁, State.files, same]
        · simp [s₁, State.files, same]
      have files : ({ s₁.files with keeps := s.keeps } : Files) = { s.files with
          refers := fun x => if x.1 = child ∧ x.2 ∈ List.finRange openMax then
            (s.fproc parent).fpFilp x.2 else s.files.refers x
          filp := inherit (s.fproc parent).fpFilp (List.finRange openMax) s.filp } := by
        rw [← refers]
        rfl
      rw [files]
      exact shared
    have second := @dupInode?_ends _ _ _ (.dir child .root) first (congrFun noDirs .root)
        ((s.fproc parent).fpRootdir)
    have third := @dupInode?_ends _ _ _ (.dir child .work) second
        ((update_of_ne (by simp) _ _).trans (congrFun noDirs .work))
        ((s.fproc parent).fpWorkdir)
    have keeps : s₃.keeps = update (update s.keeps (.dir child .root) (s.fproc parent).fpRootdir)
        (.dir child .work) (s.fproc parent).fpWorkdir := by
      rw [keeps_dupInode?, keeps_dupInode?]
      funext keeper
      cases keeper with
      | dir q dir =>
        by_cases same : q = child
        · subst same
          cases dir <;> simp [s₁, State.keeps, Fproc.dir]
        · simp [s₁, State.keeps, same]
      | mounted | root | hand => rfl
    rw [← keeps] at third
    exact third
  have hasEnd : ∀ rip bits, s₃.HasEnd rip bits ↔ s.HasEnd rip bits := by
    intro rip bits
    refine exists_congr fun g => ?_
    obtain ⟨ino, mode, count⟩ := filp g
    rw [ino, mode, count]
  have inodes : ∀ i, (s₃.inode i).iPipe = (s.inode i).iPipe ∧
      (s₃.inode i).iSize = (s.inode i).iSize := fun i =>
    ⟨(inode₃ i).1.trans (inode₂ i).1, (inode₃ i).2.trans (inode₂ i).2⟩
  have history : s₃.history = s.history := history₃.trans history₂
  refine ⟨(inv.frame fproc idle resting ?_ (suspCount₃.trans suspCount₂)
    (reviving₃.trans reviving₂) (by rw [history]) (by rw [history]) (fun _ _ => by rw [history])
    ends (fun q g _ _ => ⟨(filp g).1, (filp g).2.1, (inodes _).1⟩) (fun _ rip q _ => (inodes rip).2)
    (fun _ rip bits has => .inl ((hasEnd rip bits).mpr has))
    fun _ rip bits has => .inl ((hasEnd rip bits).mp has)).1, fproc, live₃.trans live₂, history⟩
  rw [inv.queue.calm resting, inv.queue.calm idle]

end Fork

end Minix.Fs
