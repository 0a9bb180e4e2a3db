/-
This file proves that the calls that change directories and mount file systems keep the
invariant of the file system.

Such a call gets and puts inodes one after the other. While it does, what keeps an inode in use
is not yet, or not any more, what the tables say; so it is kept beside them (`Handles`), and
compared with the tables in the end.
-/

import Minix.Fs.Opening

namespace Minix.Fs

open Function (update update_of_ne update_self update_eq_self update_idem)

variable {strict : Prop}

/-! ### Getting and putting inodes -/

/-- From `s` to `s'` a call of `p` has worked on inodes and directories, and `keeps` says what
is kept in use besides the open files. -/
structure Handles (strict : Prop) (p : Slot) (s s' : State)
    (keeps : Keeper → Option InodeNr) : Prop where
  ends : Files.Ends strict { s'.files with keeps }
  filp : s'.filp = s.filp
  entry : ∃ entry, s'.fproc = update s.fproc p entry ∧ entry.fpFilp = (s.fproc p).fpFilp ∧
    entry.fpSuspended = (s.fproc p).fpSuspended ∧ entry.fpRevived = (s.fproc p).fpRevived ∧
    entry.fpCumIoPartial = (s.fproc p).fpCumIoPartial
  counters : s'.suspCount = s.suspCount ∧ s'.reviving = s.reviving ∧ s'.live = s.live
  history : ∃ written taken, s'.history = { s.history with written, taken }
  inodes : ∀ f i, s.files.holds f = some i → (s'.inode i).iPipe = (s.inode i).iPipe ∧
    (s'.inode i).iSize = (s.inode i).iSize

namespace Handles

variable {p : Slot} {s s' s'' : State} {keeps : Keeper → Option InodeNr} {keeper : Keeper}
  {rip : InodeNr}

theorem refl (inv : Invariant strict s) (p : Slot) : Handles strict p s s s.keeps :=
  ⟨inv.ends, rfl, ⟨s.fproc p, (update_eq_self p s.fproc).symm, rfl, rfl, rfl, rfl⟩,
    ⟨rfl, rfl, rfl⟩, ⟨_, _, rfl⟩, fun _ _ _ => ⟨rfl, rfl⟩⟩

theorem works (handles : Handles strict p s s' s'.keeps) (inv : Invariant strict s)
    (resting : (s.fproc p).fpSuspended = false) : Works strict p s s' := by
  obtain ⟨ends, filp, ⟨entry, fproc, -, suspended, revived, sum⟩, counters, history, inodes⟩ :=
    handles
  have hasEnd : ∀ rip bits, s'.HasEnd rip bits ↔ s.HasEnd rip bits := by
    intro rip bits
    simp only [State.HasEnd, filp]
  refine (Works.of_update s' inv fproc resting (suspended.trans resting) revived sum counters
    history ends (fun q f _ refers => ?_) (fun _ rip bits _ has => .inl ((hasEnd rip bits).mpr has))
    fun _ rip bits _ has => .inl ((hasEnd rip bits).mp has)).1
  rw [filp]
  exact ⟨rfl, rfl, inodes f _ (inv.held refers)⟩

section

variable (handles : Handles strict p s s' keeps)
include handles

theorem congr (filp : s''.filp = s'.filp) (inode : s''.inode = s'.inode) {change : Fproc → Fproc}
    (fproc : s''.fproc = update s'.fproc p (change (s'.fproc p)))
    (same : ∀ entry, (change entry).fpFilp = entry.fpFilp ∧
      (change entry).fpSuspended = entry.fpSuspended ∧
      (change entry).fpRevived = entry.fpRevived ∧
      (change entry).fpCumIoPartial = entry.fpCumIoPartial)
    (counters : s''.suspCount = s'.suspCount ∧ s''.reviving = s'.reviving ∧ s''.live = s'.live)
    (history : s''.history = s'.history) : Handles strict p s s'' keeps := by
  obtain ⟨ends, filp', ⟨entry, fproc', filps, suspended, revived, sum⟩, counters',
    history', inodes⟩ :=
    handles
  obtain ⟨filps', suspended', revived', sum'⟩ := same entry
  have entries : s''.fproc = update s.fproc p (change entry) := by
    rw [fproc, fproc', update_self, update_idem]
  refine ⟨?_, filp.trans filp', ⟨change entry, entries, filps'.trans filps,
    suspended'.trans suspended, revived'.trans revived, sum'.trans sum⟩, ?_, ?_, ?_⟩
  · have refers : s''.files.refers = s'.files.refers := by
      funext ⟨q, fd⟩
      change (s''.fproc q).fpFilp fd = (s'.fproc q).fpFilp fd
      rw [entries, fproc']
      by_cases mine : q = p
      · subst mine
        rw [update_self, update_self, filps']
      · rw [update_of_ne mine, update_of_ne mine]
    have files : ({ s''.files with keeps } : Files) = { s'.files with keeps } := by
      simp only [State.files] at refers ⊢
      rw [refers, filp, inode, history]
    rw [files]
    exact ends
  · exact ⟨counters.1.trans counters'.1, counters.2.1.trans counters'.2.1,
      counters.2.2.trans counters'.2.2⟩
  · rw [history]
    exact history'
  · rw [inode]
    exact inodes

theorem dup (free : keeps keeper = none) (rip : InodeNr) :
    Handles strict p s (dupInode s' rip) (update keeps keeper (some rip)) := by
  obtain ⟨ends, filp, entry, counters, history, inodes⟩ := handles
  refine ⟨ends.keep free rip, filp, entry, counters, history, fun f i held => ?_⟩
  by_cases same : i = rip
  · subst same
    simpa [dupInode] using inodes f i held
  · simpa [dupInode, same] using inodes f i held

theorem dup? (free : keeps keeper = none) (target : Option InodeNr) :
    Handles strict p s (dupInode? s' target) (update keeps keeper target) := by
  cases target with
  | some rip => exact handles.dup free rip
  | none =>
    have same : update keeps keeper none = keeps := by rw [← free, update_eq_self]
    rw [same]
    exact handles

theorem put (kept : keeps keeper = some rip) :
    Handles strict p s (putInode s' rip) (update keeps keeper none) := by
  obtain ⟨ends, filp, entry, counters, history, inodes⟩ := handles
  have used : (s'.inode rip).iCount ≠ 0 := by
    have users := ends.users rip
    have one := References.count_ne_zero.mpr ⟨keeper, kept⟩
    change (s'.inode rip).iCount = _ + References.count keeps rip at users
    omega
  have ends' : Files.Ends strict
      { (putInode s' rip).files with keeps := update keeps keeper none } := by
    refine @Files.Ends.drop _ _ _ ends _ kept (putEntry (s'.inode rip)) ?_ (fun isPipe => ?_)
      fun isPipe => ?_
    · rw [putEntry_iCount]
      exact Nat.sub_add_cancel (Nat.pos_of_ne_zero used)
    · rw [putEntry_iCount]
      exact putEntry_iPipe isPipe
    · have shared := putEntry_iPipe isPipe
      rw [putEntry_of_used shared] at isPipe ⊢
      exact ⟨isPipe, rfl, rfl, rfl⟩
  refine ⟨ends', filp, entry, counters, history, fun f i held => ?_⟩
  by_cases same : i = rip
  · subst same
    -- a filp refers to the inode, which therefore stays in use
    have shared : (putEntry (s'.inode i)).iCount ≠ 0 := by
      have held' : Files.holds { (putInode s' i).files with keeps := update keeps keeper none } f =
          some i := (congrFun (Files.holds_congr (t := s.files) filp) f).trans held
      simpa [putInode_eq, State.files] using ends'.holds_used held'
    rw [putEntry_iCount] at shared
    simpa [putInode_eq, putEntry_of_used shared] using inodes f i held
  · simpa [putInode_eq, same] using inodes f i held

theorem put? (keeper : Keeper) :
    Handles strict p s (putInode? s' (keeps keeper)) (update keeps keeper none) := by
  cases kept : keeps keeper with
  | some rip => exact handles.put kept
  | none =>
    have same : update keeps keeper none = keeps := by rw [← kept, update_eq_self]
    rw [same]
    exact handles

theorem get (free : keeps keeper = none) (rip : InodeNr) (dev : Nat) :
    Handles strict p s (getInode s' rip dev) (update keeps keeper (some rip)) := by
  rw [getInode_eq]
  refine dup ?_ free rip
  unfold takeIn
  split
  case isFalse => exact handles
  case isTrue unused =>
    obtain ⟨ends, filp, entry, counters, ⟨written, taken, history⟩, inodes⟩ := handles
    refine ⟨?_, filp, entry, counters, ?_, fun f i held => ?_⟩
    · have files : ({ (cleared s' rip dev).files with keeps } : Files) =
          { s'.files with
            keeps
            inode := update s'.inode rip { s'.inode rip with
              iPipe := false, iSize := 0, iCount := 0, readPos := 0, writePos := 0, iDev := dev }
            written := update s'.history.written rip []
            taken := update s'.history.taken rip [] } := by
        simp [cleared, loadInode, State.files]
      rw [files]
      exact ends.load unused rfl rfl [] []
    · refine ⟨update s'.history.written rip [], update s'.history.taken rip [], ?_⟩
      have loaded : (cleared s' rip dev).history = { s'.history with
          written := update s'.history.written rip []
          taken := update s'.history.taken rip [] } := rfl
      rw [loaded, history]
    · have distinct : i ≠ rip := by
        rintro rfl
        have held' : Files.holds { s'.files with keeps } f = some i :=
          (congrFun (Files.holds_congr (t := s.files) filp) f).trans held
        exact ends.holds_used held' unused
      simpa [cleared, loadInode, distinct] using inodes f i held

theorem pass {giver taker : Keeper} {target : Option InodeNr} (kept : keeps giver = target)
    (free : keeps taker = none) (distinct : giver ≠ taker) :
    Handles strict p s s' (update (update keeps giver none) taker target) :=
  { handles with ends := handles.ends.pass kept free distinct }

end

end Handles

/-! ### What the tables say -/

section Tables

variable (s : State) (p : Slot) (dir : Dir) (rip : InodeNr) (target : Option InodeNr) (dev : Nat)

@[simp] theorem getInode_fproc : (getInode s rip dev).fproc = s.fproc := by
  unfold getInode
  split <;> rfl

@[simp] theorem getInode_superBlock : (getInode s rip dev).superBlock = s.superBlock := by
  unfold getInode
  split <;> rfl

@[simp] theorem putInode?_fproc : (putInode? s target).fproc = s.fproc := by
  cases target <;> rfl

@[simp] theorem putInode?_superBlock : (putInode? s target).superBlock = s.superBlock := by
  cases target <;> rfl

@[simp] theorem dupInode?_fproc : (dupInode? s target).fproc = s.fproc := by
  cases target <;> rfl

@[simp] theorem dupInode?_superBlock : (dupInode? s target).superBlock = s.superBlock := by
  cases target <;> rfl

theorem setDir_dir (entry : Fproc) :
    (entry.setDir target dir).dir = update entry.dir dir target := by
  funext other
  cases dir <;> cases other <;> rfl

theorem setDir_frame (entry : Fproc) :
    (entry.setDir target dir).fpFilp = entry.fpFilp ∧
      (entry.setDir target dir).fpSuspended = entry.fpSuspended ∧
      (entry.setDir target dir).fpRevived = entry.fpRevived ∧
      (entry.setDir target dir).fpCumIoPartial = entry.fpCumIoPartial := by
  cases dir <;> exact ⟨rfl, rfl, rfl, rfl⟩

theorem keeps_congr {s s' : State} (fproc : s'.fproc = s.fproc)
    (superBlock : s'.superBlock = s.superBlock) : s'.keeps = s.keeps := by
  funext keeper
  cases keeper <;> simp only [State.keeps, fproc, superBlock]

@[simp] theorem keeps_getInode : (getInode s rip dev).keeps = s.keeps :=
  keeps_congr (getInode_fproc s rip dev) (getInode_superBlock s rip dev)

@[simp] theorem keeps_putInode : (putInode s rip).keeps = s.keeps := keeps_congr rfl rfl

@[simp] theorem keeps_putInode? : (putInode? s target).keeps = s.keeps :=
  keeps_congr (putInode?_fproc s target) (putInode?_superBlock s target)

@[simp] theorem keeps_dupInode? : (dupInode? s target).keeps = s.keeps :=
  keeps_congr (dupInode?_fproc s target) (dupInode?_superBlock s target)

theorem keeps_setDir : (s.modifyFproc p fun entry => entry.setDir target dir).keeps =
    update s.keeps (.dir p dir) target := by
  funext keeper
  cases keeper with
  | dir q other =>
    by_cases same : q = p
    · subst same
      by_cases same' : other = dir
      · subst same'
        simp [State.keeps, setDir_dir]
      · simp [State.keeps, setDir_dir, same']
    · simp [State.keeps, same]
  | mounted | root | hand =>
    rw [update_of_ne (by simp)]
    rfl

theorem keeps_setSuper (sp : SuperNr) (entry : SuperBlock) : (s.setSuper sp entry).keeps =
    update (update s.keeps (.mounted sp) (if entry.sDev.isSome then entry.sImount else none))
      (.root sp) (if entry.sDev.isSome then entry.sIsup else none) := by
  funext keeper
  cases keeper with
  | dir | hand => simp [State.keeps, State.setSuper]
  | mounted other =>
    by_cases same : other = sp
    · subst same
      simp [State.keeps, State.setSuper]
    · simp [State.keeps, State.setSuper, same]
  | root other =>
    by_cases same : other = sp
    · subst same
      simp [State.keeps, State.setSuper]
    · simp [State.keeps, State.setSuper, same]

end Tables

/-! ### Directories -/

section Dirs

variable {s s' : State} {p : Slot}

theorem Handles.done {keeps : Keeper → Option InodeNr} (handles : Handles strict p s s' keeps)
    (same : keeps = s'.keeps) (inv : Invariant strict s)
      (resting : (s.fproc p).fpSuspended = false) :
    Works strict p s s' :=
  (same ▸ handles : Handles strict p s s' s'.keeps).works inv resting

theorem Handles.setDir {keeps : Keeper → Option InodeNr} (handles : Handles strict p s s' keeps)
    (dir : Dir) (target : Option InodeNr) :
    Handles strict p s (s'.modifyFproc p fun entry => entry.setDir target dir) keeps :=
  handles.congr rfl rfl rfl (setDir_frame dir target) ⟨rfl, rfl, rfl⟩ rfl

section

variable (inv : Invariant strict s) (resting : (s.fproc p).fpSuspended = false)
include inv resting

theorem change_works (dir : Dir) (path : Except Errno (Found × Option Errno)) :
    Works strict p s (change s p dir path).1 := by
  unfold change
  cases path with
  | error code => exact .refl inv resting
  | ok out =>
    obtain ⟨⟨rip, dev⟩, refused⟩ := out
    have got := @Handles.get _ _ _ _ _ (.hand 0) (Handles.refl inv p) rfl rip dev
    cases refused with
    | some code =>
      refine (@Handles.put _ _ _ _ _ (.hand 0) _ got (by simp)).done ?_ inv resting
      rw [update_idem, keeps_putInode, keeps_getInode]
      exact update_eq_self (Keeper.hand 0) s.keeps
    | none =>
      have put := got.put? (.dir p dir)
      rw [update_of_ne (by simp), show s.keeps (.dir p dir) =
        ((getInode s rip dev).fproc p).dir dir by rw [getInode_fproc]; rfl] at put
      have passed := (@Handles.pass _ _ _ _ _ put (.hand 0) (.dir p dir) (some rip)
        (by simp) (by simp) (by simp)).setDir dir (some rip)
      refine passed.done ?_ inv resting
      rw [keeps_setDir, keeps_putInode?, keeps_getInode]
      funext keeper
      by_cases mine : keeper = .dir p dir
      · subst mine
        simp
      · by_cases hand : keeper = .hand 0
        · subst hand
          simp [State.keeps]
        · simp [mine, hand]

theorem adoptDir_works (user : Slot) (dir : Dir) : Works strict p s (adoptDir s p user dir) := by
  unfold adoptDir
  have put := ((Handles.refl inv p).put? (.dir p dir)).setDir dir
    (((putInode? s ((s.fproc p).dir dir)).fproc user).dir dir)
  refine (@Handles.dup? _ _ _ _ _ (.dir p dir) put (by simp) _).done ?_ inv resting
  rw [update_idem, keeps_dupInode?, keeps_setDir, keeps_putInode?]

theorem doChdirMm_works (user : Slot) : Works strict p s (doChdirMm s p user) := by
  have first := adoptDir_works inv resting user .root
  exact first.trans (adoptDir_works first.inv first.resting user .work)

theorem putDirs_works :
    Works strict p s (putDirs s p) ∧ ((putDirs s p).fproc p).dir = (fun _ => none) ∧
      ((putDirs s p).fproc p).fpFilp = (s.fproc p).fpFilp := by
  have put := (((Handles.refl inv p).put? (.dir p .root)).put? (.dir p .work)).setDir .root none
  rw [update_of_ne (by simp)] at put
  have same : putDirs s p =
      ((putInode? (putInode? s ((s.fproc p).dir .root)) ((s.fproc p).dir .work)).modifyFproc p
        fun entry => entry.setDir none .root).modifyFproc p fun entry => entry.setDir
          none .work := by
    simp [putDirs, State.modifyFproc, Fproc.dir, Fproc.setDir]
  rw [same]
  refine ⟨(put.setDir .work none).done ?_ inv resting, ?_, ?_⟩
  · rw [keeps_setDir, keeps_setDir, keeps_putInode?, keeps_putInode?]
  · funext dir
    cases dir <;> simp [Fproc.dir, Fproc.setDir]
  · simp [Fproc.setDir]

end

end Dirs

/-! ### File systems -/

section Mount

variable {s s' : State} {p : Slot} {keeps : Keeper → Option InodeNr} {sp : SuperNr}
  {rip : InodeNr}

theorem Handles.setSuper (handles : Handles strict p s s' keeps) (sp : SuperNr)
    (entry : SuperBlock) :
    Handles strict p s (s'.setSuper sp entry) keeps :=
  @Handles.congr _ _ _ _ _ _ handles rfl rfl id ((update_eq_self p s'.fproc).symm)
      (fun _ => ⟨rfl, rfl, rfl, rfl⟩) ⟨rfl, rfl, rfl⟩ rfl

theorem keeps_setSuper_free (free : (s.superBlock sp).sDev = none) (dev : Option Nat) :
    (s.setSuper sp { sDev := dev }).keeps = s.keeps := by
  have none : s.keeps (.mounted sp) = none ∧ s.keeps (.root sp) = none := by
    simp [State.keeps, free]
  rw [keeps_setSuper]
  simp only [ite_self]
  rw [← none.1, update_eq_self, none.1, ← none.2, update_eq_self]

section

variable (inv : Invariant strict s) (resting : (s.fproc p).fpSuspended = false)
include inv resting

/-- The file to be mounted on is in hand, and is given up or kept in the super block. -/
theorem mountOn_works (handles : Handles strict p s s' (update s'.keeps (.hand 0) (some rip)))
    (empty : (s'.superBlock sp).sImount = none ∧ (s'.superBlock sp).sIsup = none) (dev : Nat)
    (rootIp : Except Errno (InodeNr × Option Errno)) :
    Works strict p s (mountOn s' sp dev rip rootIp).1 := by
  have free : s'.keeps (.mounted sp) = none ∧ s'.keeps (.root sp) = none := by
    simp [State.keeps, empty]
  have given : Works strict p s (putInode s' rip) := by
    refine (@Handles.put _ _ _ _ _ (.hand 0) _ handles (by simp)).done ?_ inv resting
    rw [update_idem, keeps_putInode]
    exact update_eq_self (Keeper.hand 0) s'.keeps
  unfold mountOn
  split
  · exact given
  cases rootIp with
  | error code => exact given
  | ok out =>
    obtain ⟨rootIp, misfit⟩ := out
    have got := @Handles.get _ _ _ _ _ (.hand 1) handles (by simp [State.keeps]) rootIp dev
    cases misfit with
    | some code =>
      refine (@Handles.put _ _ _ _ _ (.hand 1) _
          (@Handles.put _ _ _ _ _ (.hand 0) _ got (by simp)) (by simp)).done ?_
        inv resting
      rw [keeps_putInode, keeps_putInode, keeps_getInode]
      funext keeper
      cases keeper with
      | dir | mounted | root => simp
      | hand nr =>
        have both : nr = 0 ∨ nr = 1 := by omega
        rcases both with rfl | rfl <;> simp [State.keeps]
    | none =>
      have first := @Handles.pass _ _ _ _ _ got (.hand 0) (.mounted sp) (some rip)
        (by simp) (by simp [free]) (by simp)
      have second := @Handles.pass _ _ _ _ _ first (.hand 1) (.root sp) (some rootIp)
        (by simp) (by simp [free]) (by simp)
      refine (second.setSuper sp _).done ?_ inv resting
      rw [keeps_setSuper, keeps_getInode]
      funext keeper
      cases keeper with
      | dir => simp
      | mounted other => by_cases same : other = sp <;> simp [same]
      | root other => by_cases same : other = sp <;> simp [same]
      | hand nr =>
        have both : nr = 0 ∨ nr = 1 := by omega
        rcases both with rfl | rfl <;> simp [State.keeps]

theorem doMount_works (dev : Nat) (mounted : Mounted) :
    Works strict p s (doMount s dev mounted).1 := by
  unfold doMount
  split
  · exact .refl inv resting
  split
  case h_1 => exact .refl inv resting
  case h_2 sp found =>
    have free : (s.superBlock sp).sDev = none := by simpa using List.find?_some found
    have taken : ∀ dev, Handles strict p s (s.setSuper sp { sDev := dev })
        (s.setSuper sp { sDev := dev }).keeps := fun dev => by
      rw [keeps_setSuper_free free]
      exact (Handles.refl inv p).setSuper sp _
    have got : ∀ (rip : InodeNr) fileDev,
        Handles strict p s (getInode (s.setSuper sp { sDev := some dev }) rip fileDev)
          (update (getInode (s.setSuper sp { sDev := some dev }) rip fileDev).keeps (.hand 0)
            (some rip)) := fun rip fileDev => by
      rw [keeps_getInode]
      exact (taken (some dev)).get rfl rip fileDev
    have empty : ∀ (rip : InodeNr) fileDev,
        let entry := (getInode (s.setSuper sp { sDev := some dev }) rip fileDev).superBlock sp
        entry.sImount = none ∧ entry.sIsup = none := fun rip fileDev => by
      simp [State.setSuper]
    cases mounted with
    | noDevice => exact .refl inv resting
    | noSuper code => exact (taken none).works inv resting
    | noFile code => exact (taken none).works inv resting
    | special file =>
      refine (@Handles.put _ _ _ _ _ (.hand 0) _ (got file.rip file.dev)
        (by simp)).done ?_ inv resting
      rw [update_idem, keeps_putInode]
      exact update_eq_self (Keeper.hand 0) _
    | noRoot file code =>
      exact mountOn_works inv resting (got file.rip file.dev) (empty file.rip file.dev) dev _
    | root file rootIp misfit =>
      exact mountOn_works inv resting (got file.rip file.dev) (empty file.rip file.dev) dev _

theorem unmount_works (dev : Nat) :
    Works strict p s (unmount s dev).1 := by
  unfold unmount
  dsimp only
  split
  · exact .refl inv resting
  split
  case h_1 => exact .refl inv resting
  case h_2 sp found =>
    have used : (s.superBlock sp).sDev = some dev := by simpa using List.find?_some found
    have kept : s.keeps (.mounted sp) = (s.superBlock sp).sImount ∧
        s.keeps (.root sp) = (s.superBlock sp).sIsup := by
      simp [State.keeps, used]
    have put := ((Handles.refl inv p).put? (.mounted sp)).put? (.root sp)
    rw [update_of_ne (by simp), kept.1, kept.2] at put
    refine (put.setSuper sp _).done ?_ inv resting
    rw [keeps_setSuper, keeps_putInode?, keeps_putInode?]
    rfl

end

end Mount

end Minix.Fs
