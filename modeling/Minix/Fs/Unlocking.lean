/-
This file proves when a request for a lock is atomic: if it fails, the table of locks is as before,
and if it releases bytes, the processes that wait for a lock on the file are revived.

A request to unlock a region changes one lock after the other. When a lock has to be split in two
and the table is full, it returns `ENOLCK` at once, with the locks before that one changed and
nobody revived.
-/

import Minix.Fs.Locking
import Minix.Fs.Waits

namespace Minix.Fs

open Function (update update_of_ne update_self)
open Option (some.inj)

/-! ### The locks in a region -/

/-- The locks of some slots that have a byte in the region, in the order of the slots. -/
def LockTable.overlapping (t : LockTable) (ino : InodeNr) (first last : Off)
    (slots : List LockNr) : List FileLock :=
  slots.filterMap fun flp => (t.fileLock flp).filter fun lock => lock.overlaps ino first last

/-- How many slots more are in use when the region has been cleared of a lock. -/
def FileLock.cost (lock : FileLock) (first last : Off) : Int :=
  if first ≤ lock.lockFirst ∧ lock.lockLast ≤ last then -1
  else if first ≤ lock.lockFirst ∨ lock.lockLast ≤ last then 0
  else 1

/-- The locks can be cleared one after the other: when one has to be split, not all slots are in
use. -/
def SplitsFit (first last : Off) : List FileLock → Int → Prop
  | [], _ => True
  | lock :: locks, used =>
    ¬ (lock.cost first last = 1 ∧ used = 8) ∧ SplitsFit first last locks (used + lock.cost first last)

instance (first last : Off) (locks : List FileLock) (used : Int) :
    Decidable (SplitsFit first last locks used) := by
  induction locks generalizing used with
  | nil => exact .isTrue trivial
  | cons lock locks inductionHypothesis =>
    exact @instDecidableAnd _ _ _ (inductionHypothesis _)

/-- The first of the locks has to be split, and all slots are in use. -/
def FirstStuck (first last : Off) (locks : List FileLock) (used : Int) : Prop :=
  ∃ lock rest, locks = lock :: rest ∧ lock.cost first last = 1 ∧ used = 8

section Clear

variable {t t' : LockTable} {flp slot : LockNr} {lock other : FileLock} {pid : Nat} {ino : InodeNr}
  {req : LockReq} {first last : Off} {slots : List LockNr}

theorem clearPart_eq_none : clearPart t flp lock first last = none ↔
    lock.cost first last = 1 ∧ t.nrLocks = 8 := by
  unfold clearPart FileLock.cost
  by_cases whole : first ≤ lock.lockFirst ∧ lock.lockLast ≤ last
  · rw [if_pos whole, if_pos whole]
    exact iff_of_false (Option.some_ne_none _) fun wrong => absurd wrong.1 (by decide)
  rw [if_neg whole, if_neg whole]
  by_cases left : first ≤ lock.lockFirst
  · rw [if_pos left, if_pos (.inl left)]
    exact iff_of_false (Option.some_ne_none _) fun wrong => absurd wrong.1 (by decide)
  rw [if_neg left]
  by_cases right : lock.lockLast ≤ last
  · rw [if_pos right, if_pos (.inr right)]
    exact iff_of_false (Option.some_ne_none _) fun wrong => absurd wrong.1 (by decide)
  rw [if_neg right, if_neg (not_or.mpr ⟨left, right⟩)]
  by_cases full : t.nrLocks = 8
  · rw [if_pos full]
    exact iff_of_true rfl ⟨rfl, full⟩
  rw [if_neg full]
  refine iff_of_false ?_ fun wrong => full wrong.2
  split <;> exact Option.some_ne_none _

/-- What the clearing of one lock leaves. -/
structure Clears (ino : InodeNr) (first last : Off) (flp : LockNr) (t t' : LockTable) : Prop where
  shrinks : ∀ {slot other}, t'.fileLock slot = some other → other.overlaps ino first last = true →
    slot ≠ flp ∧ t.fileLock slot = some other
  keeps : ∀ {slot other}, slot ≠ flp → t.fileLock slot = some other →
    t'.fileLock slot = some other

theorem Clears.replace {new : Option FileLock} (same : t'.fileLock = (t.set flp new).fileLock)
    (away : ∀ other ∈ new, other.overlaps ino first last = false) :
    Clears ino first last flp t t' := by
  refine ⟨fun {slot other} found overlaps => ?_, fun {slot other} apart found => ?_⟩
  · rw [same] at found
    by_cases here : slot = flp
    · subst here
      have member : new = some other := by
        rw [← found]
        exact (update_self slot new t.fileLock).symm
      rw [away other member] at overlaps
      cases overlaps
    · exact ⟨here, (update_of_ne here _ _).symm.trans found⟩
  · rw [same]
    exact (update_of_ne apart _ _).trans found

/-- What the clearing of a part does to one slot, and what it costs. -/
theorem clearPart_clears (counted : t.Counted)
    (overlaps : lock.overlaps ino first last = true)
    (cleared : clearPart t flp lock first last = some t') :
    Clears ino first last flp t t' ∧ t'.nrLocks = t.nrLocks + lock.cost first last := by
  obtain ⟨mine, low, high⟩ := overlaps_iff.mp overlaps
  have above (other : FileLock) (starts : last < other.lockFirst) :
      other.overlaps ino first last = false := by
    refine Bool.eq_false_iff.mpr fun wrong => ?_
    have := (overlaps_iff.mp wrong).2.1
    bv_omega
  have below (other : FileLock) (ends : other.lockLast < first) :
      other.overlaps ino first last = false := by
    refine Bool.eq_false_iff.mpr fun wrong => ?_
    have := (overlaps_iff.mp wrong).2.2
    bv_omega
  unfold clearPart at cleared
  unfold FileLock.cost
  split at cleared
  case isTrue whole =>
    obtain rfl := some.inj cleared
    rw [if_pos whole]
    refine ⟨.replace rfl ?_, rfl⟩
    rintro other ⟨⟩
  case isFalse part =>
  rw [if_neg part]
  split at cleared
  case isTrue left =>
    obtain rfl := some.inj cleared
    rw [if_pos (.inl left)]
    refine ⟨.replace rfl ?_, (Int.add_zero _).symm⟩
    rintro other ⟨⟩
    refine above _ ?_
    change last < last + 1
    bv_omega
  case isFalse inner =>
  split at cleared
  case isTrue right =>
    obtain rfl := some.inj cleared
    rw [if_pos (.inr right)]
    refine ⟨.replace rfl ?_, (Int.add_zero _).symm⟩
    rintro other ⟨⟩
    refine below _ ?_
    change first - 1 < first
    bv_omega
  case isFalse beyond =>
  split at cleared
  case isTrue => cases cleared
  case isFalse room =>
  rw [if_neg (not_or.mpr ⟨inner, beyond⟩)]
  obtain ⟨flp₂, search, free⟩ := counted.free room
  rw [search] at cleared
  obtain rfl := some.inj cleared
  refine ⟨⟨fun {slot other} found' overlaps' => ?_, fun {slot other} apart found' => ?_⟩, rfl⟩
  · have lower : Clears ino first last flp (t.set flp₂ (some { lock with lockFirst := last + 1 }))
        ((t.set flp₂ (some { lock with lockFirst := last + 1 })).set flp
          (some { lock with lockLast := first - 1 })) := by
      refine .replace rfl ?_
      rintro other ⟨⟩
      refine below _ ?_
      change first - 1 < first
      bv_omega
    have upper : Clears ino first last flp₂ t
        (t.set flp₂ (some { lock with lockFirst := last + 1 })) := by
      refine .replace rfl ?_
      rintro other ⟨⟩
      refine above _ ?_
      change last < last + 1
      bv_omega
    obtain ⟨apart, before⟩ := lower.shrinks found' overlaps'
    exact ⟨apart, (upper.shrinks before overlaps').2⟩
  · have other₂ : slot ≠ flp₂ := by
      rintro rfl
      rw [free] at found'
      cases found'
    exact (update_of_ne apart _ _).trans ((update_of_ne other₂ _ _).trans found')

theorem Clears.overlapping (clears : Clears ino first last flp t t') (away : flp ∉ slots) :
    t'.overlapping ino first last slots = t.overlapping ino first last slots := by
  unfold LockTable.overlapping
  refine List.filterMap_congr fun slot member => ?_
  have apart : slot ≠ flp := fun same => away (same ▸ member)
  refine Option.ext fun other => ?_
  rw [Option.filter_eq_some_iff, Option.filter_eq_some_iff]
  constructor
  · rintro ⟨found, overlaps⟩
    exact ⟨(clears.shrinks found overlaps).2, overlaps⟩
  · rintro ⟨found, overlaps⟩
    exact ⟨clears.keeps apart found, overlaps⟩

/-! ### The loop -/

theorem scanLocks_shrinks {scan : LockScan} (counted : scan.table.Counted)
    (found : (scanLocks pid ino req none first last slots scan).table.fileLock slot = some other)
    (overlaps : other.overlaps ino first last = true) : scan.table.fileLock slot = some other := by
  induction slots generalizing scan with
  | nil => exact found
  | cons flp slots inductionHypothesis =>
    rw [scanLocks] at found
    split at found
    · exact @inductionHypothesis { scan with empty := scan.empty.or (some flp) } counted found
    case _ lock here =>
    split at found
    · exact inductionHypothesis counted found
    case isFalse reached =>
    dsimp only at found
    split at found
    · exact found
    case _ table part =>
    have reached : lock.overlaps ino first last = true := by simpa using reached
    have after : table.Counted :=
      (clearPart_cleared counted here reached part).counted
    have before := @inductionHypothesis { scan with table, unlocking := true } after found
    exact ((clearPart_clears counted reached part).1.shrinks before overlaps).2

/-- A slot without a lock on the region is passed over. -/
theorem scanLocks_skip {scan : LockScan}
    (apart : ∀ lock ∈ scan.table.fileLock flp, lock.overlaps ino first last = false) :
    ∃ empty, scanLocks pid ino req none first last (flp :: slots) scan =
      scanLocks pid ino req none first last slots { scan with empty } := by
  rw [scanLocks]
  cases here : scan.table.fileLock flp with
  | none => exact ⟨_, rfl⟩
  | some lock =>
    refine ⟨scan.empty, if_pos ?_⟩
    rw [apart lock here]
    rfl

theorem overlapping_skip
    (apart : ∀ lock ∈ t.fileLock flp, lock.overlaps ino first last = false) :
    t.overlapping ino first last (flp :: slots) = t.overlapping ino first last slots :=
  List.filterMap_cons_none (Option.filter_eq_none_iff.mpr fun lock here =>
    Bool.eq_false_iff.mp (apart lock here))

/-- A request to unlock clears its region if there are slots for the splits. If not, it returns,
and has changed the table unless the first lock is the one that has to be split. -/
theorem scanLocks_unlock {scan : LockScan} (distinct : slots.Nodup)
    (counted : scan.table.Counted) :
    (SplitsFit first last (scan.table.overlapping ino first last slots) scan.table.nrLocks →
      ∃ scan', scanLocks pid ino req none first last slots scan = .ends scan' ∧
        scan'.unlocking =
          (scan.unlocking || !(scan.table.overlapping ino first last slots).isEmpty) ∧
        ∀ slot ∈ slots, ∀ lock ∈ scan'.table.fileLock slot,
          lock.overlaps ino first last = false) ∧
    (¬ SplitsFit first last (scan.table.overlapping ino first last slots) scan.table.nrLocks →
      ∃ t', scanLocks pid ino req none first last slots scan =
          .returns t' (.answer (.error (.other 37)) false) ∧
        (t' = scan.table ↔ FirstStuck first last
          (scan.table.overlapping ino first last slots) scan.table.nrLocks)) := by
  induction slots generalizing scan with
  | nil =>
    refine ⟨fun _ => ⟨scan, rfl, (Bool.or_false _).symm, fun _ none => by cases none⟩,
      fun wrong => absurd trivial wrong⟩
  | cons flp slots inductionHypothesis =>
    obtain ⟨away, distinct'⟩ := List.nodup_cons.mp distinct
    by_cases apart : ∀ lock ∈ scan.table.fileLock flp, lock.overlaps ino first last = false
    case pos =>
      obtain ⟨empty, skips⟩ := @scanLocks_skip flp pid ino req first last slots scan apart
      rw [skips, overlapping_skip apart]
      obtain ⟨fits, stuck⟩ := @inductionHypothesis { scan with empty } distinct' counted
      refine ⟨fun fit => ?_, stuck⟩
      obtain ⟨scan', ends, unlocking, clear⟩ := fits fit
      refine ⟨scan', ends, unlocking, fun slot member lock found => ?_⟩
      obtain rfl | later := List.mem_cons.mp member
      · refine Bool.eq_false_iff.mpr fun overlaps => ?_
        have before := @scanLocks_shrinks slot lock pid ino req first last slots
          { scan with empty } counted (by rw [ends]; exact found) overlaps
        exact absurd overlaps (Bool.eq_false_iff.mp (apart lock before))
      · exact clear slot later lock found
    case neg =>
    obtain ⟨lock, here, reached⟩ : ∃ lock, scan.table.fileLock flp = some lock ∧
        lock.overlaps ino first last = true := by simpa using apart
    rw [scanLocks, here]
    dsimp only
    have locks : scan.table.overlapping ino first last (flp :: slots) =
        lock :: scan.table.overlapping ino first last slots := by
      unfold LockTable.overlapping
      rw [List.filterMap_cons_some (by rw [here, Option.filter_some, if_pos reached])]
    rw [locks, if_neg (by simpa using reached)]
    cases part : clearPart scan.table flp lock first last with
    | none =>
      have full := clearPart_eq_none.mp part
      refine ⟨fun fit => absurd full fit.1, fun _ => ⟨scan.table, rfl, iff_of_true rfl ?_⟩⟩
      exact ⟨lock, _, rfl, full⟩
    | some table =>
      dsimp only
      have room : ¬ (lock.cost first last = 1 ∧ scan.table.nrLocks = 8) := fun full => by
        rw [clearPart_eq_none.mpr full] at part
        cases part
      have after : table.Counted := (clearPart_cleared counted here reached part).counted
      obtain ⟨clears, used⟩ := clearPart_clears counted reached part
      have rest := clears.overlapping away
      obtain ⟨fits, stuck⟩ := @inductionHypothesis
        { scan with table, unlocking := true } distinct' after
      rw [rest, used] at fits stuck
      have left {slot : LockNr} {lock' : FileLock}
          (found : (scanLocks pid ino req none first last slots
            { scan with table, unlocking := true }).table.fileLock slot = some lock')
          (overlaps : lock'.overlaps ino first last = true) : slot ≠ flp :=
        (clears.shrinks (@scanLocks_shrinks slot lock' pid ino req first last slots
          { scan with table, unlocking := true } after found overlaps) overlaps).1
      refine ⟨fun fit => ?_, fun unfit => ?_⟩
      · obtain ⟨scan', ends, unlocking, clear⟩ := fits fit.2
        refine ⟨scan', ends, unlocking.trans (by simp), fun slot member lock' found => ?_⟩
        obtain rfl | later := List.mem_cons.mp member
        · refine Bool.eq_false_iff.mpr fun overlaps => left ?_ overlaps rfl
          rw [ends]
          exact found
        · exact clear slot later lock' found
      · obtain ⟨t', returns, -⟩ := stuck fun fit => unfit ⟨room, fit⟩
        refine ⟨t', returns, iff_of_false (fun same => ?_) ?_⟩
        · subst same
          refine left ?_ reached rfl
          rw [returns]
          exact here
        · rintro ⟨lock', rest', same, full⟩
          obtain ⟨rfl, -⟩ := List.cons.inj same
          exact room full

end Clear

/-! ### Regions that are not empty -/

/-- Each lock has a byte. -/
def LockTable.Formed (t : LockTable) : Prop :=
  ∀ flp, ∀ lock ∈ t.fileLock flp, lock.lockFirst ≤ lock.lockLast

section Formed

variable {t t' : LockTable} {flp : LockNr} {lock : FileLock} {pid : Nat} {ino : InodeNr}
  {req : LockReq} {first last : Off} {slots : List LockNr} {call : LockCall}

theorem LockTable.Formed.set (formed : t.Formed) {new : Option FileLock}
    (fits : ∀ lock ∈ new, lock.lockFirst ≤ lock.lockLast) : (t.set flp new).Formed := by
  intro slot lock found
  by_cases same : slot = flp
  · subst same
    have here : update t.fileLock slot new slot = some lock := found
    rw [update_self] at here
    exact fits lock here
  · exact formed slot lock ((update_of_ne same _ _).symm.trans found)

theorem clearPart_formed (formed : t.Formed) (fits : lock.lockFirst ≤ lock.lockLast)
    (overlaps : lock.overlaps ino first last = true)
    (cleared : clearPart t flp lock first last = some t') : t'.Formed := by
  obtain ⟨-, low, high⟩ := overlaps_iff.mp overlaps
  have upper (beyond : ¬ lock.lockLast ≤ last) :
      ∀ other ∈ some { lock with lockFirst := last + 1 }, other.lockFirst ≤ other.lockLast := by
    rintro other ⟨⟩
    change last + 1 ≤ lock.lockLast
    bv_omega
  have lower (inner : ¬ first ≤ lock.lockFirst) :
      ∀ other ∈ some { lock with lockLast := first - 1 }, other.lockFirst ≤ other.lockLast := by
    rintro other ⟨⟩
    change lock.lockFirst ≤ first - 1
    bv_omega
  unfold clearPart at cleared
  split at cleared
  case isTrue =>
    obtain rfl := some.inj cleared
    refine @LockTable.Formed.set t flp formed none ?_
    rintro other ⟨⟩
  case isFalse part =>
  split at cleared
  case isTrue left =>
    obtain rfl := some.inj cleared
    exact formed.set (upper fun right => part ⟨left, right⟩)
  case isFalse inner =>
  split at cleared
  case isTrue =>
    obtain rfl := some.inj cleared
    exact formed.set (lower inner)
  case isFalse beyond =>
  split at cleared
  case isTrue => cases cleared
  case isFalse =>
  split at cleared
  · obtain rfl := some.inj cleared
    exact formed
  · obtain rfl := some.inj cleared
    exact (formed.set (upper beyond)).set (lower inner)

theorem scanLocks_formed {scan : LockScan} (formed : scan.table.Formed) :
    (scanLocks pid ino req none first last slots scan).table.Formed := by
  induction slots generalizing scan with
  | nil => exact formed
  | cons flp slots inductionHypothesis =>
    rw [scanLocks]
    split
    · exact @inductionHypothesis { scan with empty := scan.empty.or (some flp) } formed
    case _ lock found =>
    split
    · exact inductionHypothesis formed
    case isFalse reached =>
    dsimp only
    split
    · exact formed
    case _ table part =>
    refine @inductionHypothesis { scan with table, unlocking := true } ?_
    exact clearPart_formed formed (formed flp lock found) (by simpa using reached) part

theorem lockRegion_le {f : LockFile} {want : Flock}
    (region : lockRegion f want = some (first, last)) : first ≤ last := by
  unfold lockRegion at region
  obtain ⟨base, -, rest⟩ := Option.bind_eq_some_iff.mp region
  split at rest
  · cases rest
  split at rest
  · cases rest
  dsimp only at rest
  generalize (if want.lLen = 0 then maxFilePos else base + want.lStart + want.lLen - 1) = ends
    at rest
  split at rest
  · cases rest
  case isFalse ordered =>
    obtain ⟨rfl, rfl⟩ := Prod.mk.inj (some.inj rest)
    exact BitVec.not_lt.mp ordered

section

variable (formed : t.Formed)
include formed

theorem lockOp_formed (pid : Nat) (f : LockFile) (req : LockReq) (flock : Option Flock)
    (copied : Except Errno Nat) :
    (lockOp t pid f req flock copied).1.Formed := by
  unfold lockOp
  cases flock with
  | none => exact formed
  | some want =>
  dsimp only
  cases checks : lockChecks f req want with
  | error => exact formed
  | ok ltype =>
  cases region : lockRegion f want with
  | none => exact formed
  | some bytes =>
  obtain ⟨first, last⟩ := bytes
  have ordered := lockRegion_le region
  dsimp only
  cases ltype with
  | none =>
    have cleared := @scanLocks_formed pid f.ino req first last (List.finRange 8) { table := t } formed
    generalize scanLocks pid f.ino req none first last _ _ = out at cleared ⊢
    cases out with
    | returns => exact cleared
    | ends scan =>
      dsimp only
      split <;> exact cleared
  | some ltype =>
    obtain ⟨same, -⟩ := @scanLocks_agrees pid f.ino req ltype first last (List.finRange 8)
      { table := t } fun _ none => by cases none
    generalize scanLocks pid f.ino req (some ltype) first last _ _ = out at same ⊢
    cases out with
    | returns table result =>
      obtain rfl : table = t := same
      exact formed
    | ends scan =>
      obtain rfl : scan.table = t := same
      dsimp only
      split
      · exact formed
      · cases scan.empty with
        | none => exact formed
        | some empty =>
          refine @LockTable.Formed.set scan.table empty formed (some _) ?_
          rintro lock ⟨⟩
          exact ordered

theorem releaseLock_formed (flp : LockNr) :
    (releaseLock ino pid t flp).Formed := by
  unfold releaseLock
  split
  · exact formed
  · split
    · refine @LockTable.Formed.set t flp formed none ?_
      rintro other ⟨⟩
    · exact formed

theorem closeLocks_formed : (closeLocks t ino pid).Formed := by
  unfold closeLocks
  split
  · exact formed
  · exact List.foldlRecOn _ _ formed fun _ kept flp _ => releaseLock_formed kept flp

theorem step_formed (stepped : lockStep t call = some t') : t'.Formed := by
  cases call with
  | fcntl pid f req flock copied =>
    obtain rfl := some.inj stepped
    exact lockOp_formed formed pid f req flock copied
  | close pid ino =>
    obtain rfl := some.inj stepped
    exact closeLocks_formed formed
  | exit pid files =>
    obtain rfl := some.inj stepped
    exact List.foldlRecOn _ _ formed fun _ kept _ _ => closeLocks_formed kept

end

theorem Locks.formed {guard : LockTable → LockCall → Prop} {calls : List LockCall}
    (run : Locks guard {} calls t) : t.Formed :=
  Transition.Run.invariant (fun _ _ none => by cases none)
    (fun _ _ _ formed _ stepped => step_formed formed stepped) run

end Formed

/-! ### Reviving -/

/-- The process waits for a lock on the file, and is not being revived yet. -/
def WaitsForLock (s : State) (q : Slot) (ino : InodeNr) : Prop :=
  Hanging s q ∧ (s.fproc q).fpTask = .xlock ∧
    ∃ f, (s.fproc q).fpFilp (s.fproc q).fpFd = some f ∧ (s.filp f).filpIno = ino

section Revive

variable {s : State} {q : Slot} {ino : InodeNr}

theorem reviveAll_away {slots : List Slot} (away : q ∉ slots) :
    (slots.foldl (fun s fptr =>
      if (s.fproc fptr).fpSuspended && decide ((s.fproc fptr).fpTask = .xlock) then revive s fptr
      else s) s).fproc q = s.fproc q := by
  induction slots generalizing s with
  | nil => rfl
  | cons fptr slots inductionHypothesis =>
    have other : q ≠ fptr := List.ne_of_not_mem_cons away
    have rest := List.not_mem_of_not_mem_cons away
    rw [List.foldl_cons, inductionHypothesis rest]
    split
    · by_cases hanging : Hanging s fptr
      · rw [revive_fproc hanging, update_of_ne other]
      · rw [revive_of_not_hanging hanging]
    · rfl

theorem reviveAll_revives {slots : List Slot} (distinct : slots.Nodup) (member : q ∈ slots)
    (hanging : Hanging s q) (task : (s.fproc q).fpTask = .xlock) :
    ((slots.foldl (fun s fptr =>
      if (s.fproc fptr).fpSuspended && decide ((s.fproc fptr).fpTask = .xlock) then revive s fptr
      else s) s).fproc q).fpRevived = true := by
  induction slots generalizing s with
  | nil => cases member
  | cons fptr slots inductionHypothesis =>
    obtain ⟨away, distinct'⟩ := List.nodup_cons.mp distinct
    rw [List.foldl_cons]
    by_cases here : q = fptr
    · subst here
      rw [if_pos (by rw [hanging.1, task]; rfl), reviveAll_away away, revive_fproc hanging,
        update_self]
      unfold revivedEntry
      rw [task]
    · have later := (List.mem_cons.mp member).resolve_left here
      have same : (if (s.fproc fptr).fpSuspended && decide ((s.fproc fptr).fpTask = .xlock)
          then revive s fptr else s).fproc q = s.fproc q := by
        split
        · by_cases other : Hanging s fptr
          · rw [revive_fproc other, update_of_ne here]
          · rw [revive_of_not_hanging other]
        · rfl
      refine inductionHypothesis distinct' later ?_ ?_
      · unfold Hanging
        rw [same]
        exact hanging
      · rw [same]
        exact task

/-- All processes that wait for a lock are revived, but for those up to init. -/
theorem lockRevive_revives_iff (waits : WaitsForLock s q ino) :
    ((lockRevive s).fproc q).fpRevived = true ↔ initProcNr < q.val := by
  unfold lockRevive
  constructor
  · intro revived
    by_contra early
    rw [reviveAll_away fun member => early ?_, waits.1.2] at revived
    · cases revived
    · simpa using (List.mem_filter.mp member).2
  · intro late
    refine reviveAll_revives ((List.nodup_finRange nrProcs).filter _) ?_ waits.1 waits.2.1
    exact List.mem_filter.mpr ⟨List.mem_finRange q, by simpa using late⟩

end Revive

/-! ### Requests -/

/-- The file system performs a request for a lock that concerns a file: the state and the table that
it leaves, and what the caller gets. -/
def lockRequest (s : State) (t : LockTable) (fp : Slot) (fild : Int) (pid : Nat) (f : LockFile)
    (req : LockReq) (flock : Option Flock) (copied : Except Errno Nat) :
    State × LockTable × Result :=
  let out := lockOp t pid f req flock copied
  let (s', r) := doLock s fp fild out.2.1
  (s', out.1, r)

/-- A request that fails has left the table, and one that releases bytes has revived those that wait
for a lock on the file. -/
structure Atomic (s s' : State) (t t' : LockTable) (ino : InodeNr) (r : Result) : Prop where
  unchanged : ∀ code, r = .error code → t' = t
  revives : (∃ pid ltype byte, Holds t pid ino ltype byte ∧ ¬ Holds t' pid ino ltype byte) →
    ∀ q, WaitsForLock s q ino → (s'.fproc q).fpRevived = true

/-- The locks of a file that have a byte in a region. -/
def LockTable.inRegion (t : LockTable) (f : LockFile) (first last : Off) : List FileLock :=
  t.overlapping f.ino first last (List.finRange 8)

/-- A request to unlock a region finds slots for all splits, or is stuck at once; and if it releases
locks, init does not wait for one. -/
def UnlockSafe (s : State) (t : LockTable) (f : LockFile) (req : LockReq) (flock : Option Flock) :
    Prop :=
  ∀ want first last, flock = some want → lockChecks f req want = .ok none →
    lockRegion f want = some (first, last) →
    SplitsFit first last (t.inRegion f first last) t.nrLocks ∧
        (t.inRegion f first last ≠ [] → ∀ q, WaitsForLock s q f.ino → initProcNr < q.val) ∨
      FirstStuck first last (t.inRegion f first last) t.nrLocks

section Request

variable {s s' : State} {t t' : LockTable} {fp : Slot} {fild : Int} {pid : Nat} {f : LockFile}
  {req : LockReq} {first last : Off} {r : Result} {want : Flock}

theorem Atomic.of_same (ino : InodeNr) : Atomic s s' t t ino r :=
  ⟨fun _ _ => rfl, fun ⟨_, _, _, holds, gone⟩ => absurd holds gone⟩

theorem FirstStuck.unfit {locks : List FileLock} {used : Int}
    (stuck : FirstStuck first last locks used) : ¬ SplitsFit first last locks used := by
  obtain ⟨lock, rest, rfl, full⟩ := stuck
  exact fun fit => fit.1 full

theorem lockChecks_unlock (checks : lockChecks f req want = .ok none) :
    req ≠ .getlk := by
  rintro rfl
  unfold lockChecks at checks
  rw [lockChecks_none checks] at checks
  cases checks

/-- When the region has been cleared, those that wait are revived as they should be if none of them
is init. -/
theorem cleared_atomic_iff (formed : t.Formed) (region : first ≤ last)
    (cleared : Cleared f.ino first last t t')
    (clear : ∀ slot, ∀ lock ∈ t'.fileLock slot, lock.overlaps f.ino first last = false) :
    Atomic s (if (!(t.inRegion f first last).isEmpty) = true then lockRevive s else s) t t' f.ino
        (.ok 0) ↔
      (t.inRegion f first last ≠ [] → ∀ q, WaitsForLock s q f.ino → initProcNr < q.val) := by
  -- nobody holds a byte of the region any more
  have free {pid ltype byte} (low : first ≤ byte) (high : byte ≤ last) :
      ¬ Holds t' pid f.ino ltype byte := by
    rintro ⟨slot, lock, found, -, file, -, from', to'⟩
    have away := clear slot lock found
    rw [overlaps_iff.mpr ⟨file, BitVec.le_trans from' high, BitVec.le_trans low to'⟩] at away
    cases away
  have member (lock : FileLock) : lock ∈ t.inRegion f first last ↔
      ∃ slot, t.fileLock slot = some lock ∧ lock.overlaps f.ino first last = true := by
    unfold LockTable.inRegion LockTable.overlapping
    simp only [List.mem_filterMap, List.mem_finRange, true_and, Option.filter_eq_some_iff]
  cases locks : t.inRegion f first last with
  | nil =>
    refine iff_of_true ⟨fun _ wrong => Result.noConfusion wrong, ?_⟩ fun some => absurd rfl some
    rintro ⟨pid, ltype, byte, holds, gone⟩
    exfalso
    refine gone (cleared.keeps holds fun _ => ?_)
    by_contra inside
    obtain ⟨slot, lock, found, -, file, -, low, high⟩ := holds
    have overlaps : lock.overlaps f.ino first last = true := by
      refine overlaps_iff.mpr ⟨file, ?_, ?_⟩ <;> bv_omega
    have present := (member lock).mpr ⟨slot, found, overlaps⟩
    rw [locks] at present
    cases present
  | cons lock rest =>
    obtain ⟨slot, found, overlaps⟩ := (member lock).mp (locks ▸ List.mem_cons_self)
    obtain ⟨file, low, high⟩ := overlaps_iff.mp overlaps
    have ordered := formed slot lock found
    rw [if_pos (show (!(lock :: rest).isEmpty) = true from rfl)]
    constructor
    · intro atomic _ q waits
      refine (lockRevive_revives_iff waits).mp (atomic.revives ?_ q waits)
      by_cases before : lock.lockFirst ≤ first
      · exact ⟨lock.lockPid, lock.lockType, first, ⟨slot, lock, found, rfl, file, rfl, before, high⟩,
          free (BitVec.le_refl _) region⟩
      · refine ⟨lock.lockPid, lock.lockType, lock.lockFirst,
          ⟨slot, lock, found, rfl, file, rfl, BitVec.le_refl _, ordered⟩, free ?_ low⟩
        bv_omega
    · intro late
      exact ⟨fun _ wrong => Result.noConfusion wrong, fun _ q waits =>
        (lockRevive_revives_iff waits).mpr (late (List.cons_ne_nil _ _) q waits)⟩

theorem unlock_atomic_iff {fd : Fd} {g : FilpNr} (counted : t.Counted) (formed : t.Formed)
    (found : getFilp s fp fild = some (fd, g)) (checks : lockChecks f req want = .ok none)
    (region : lockRegion f want = some (first, last)) (copied : Except Errno Nat) :
    Atomic s (lockRequest s t fp fild pid f req (some want) copied).1 t
        (lockRequest s t fp fild pid f req (some want) copied).2.1 f.ino
        (lockRequest s t fp fild pid f req (some want) copied).2.2 ↔
      SplitsFit first last (t.inRegion f first last) t.nrLocks ∧
          (t.inRegion f first last ≠ [] → ∀ q, WaitsForLock s q f.ino → initProcNr < q.val) ∨
        FirstStuck first last (t.inRegion f first last) t.nrLocks := by
  obtain ⟨fits, stuck⟩ := @scanLocks_unlock pid f.ino req first last (List.finRange 8)
    { table := t } (List.nodup_finRange 8) counted
  have cleared := @scanLocks_cleared t pid f.ino req first last (List.finRange 8) { table := t }
    (.refl counted)
  have set := lockChecks_unlock checks
  unfold lockRequest lockOp
  dsimp only
  rw [checks]
  rw [region]
  dsimp only
  change SplitsFit first last (t.inRegion f first last) t.nrLocks → _ at fits
  change ¬ SplitsFit first last (t.inRegion f first last) t.nrLocks → _ at stuck
  by_cases fit : SplitsFit first last (t.inRegion f first last) t.nrLocks
  · obtain ⟨scan, ends, unlocking, clear⟩ := fits fit
    rw [ends] at cleared ⊢
    dsimp only
    rw [if_neg set]
    unfold doLock
    rw [found, unlocking, Bool.false_or]
    refine (cleared_atomic_iff formed (lockRegion_le region) cleared fun slot =>
      clear slot (List.mem_finRange slot)).trans ⟨fun late => .inl ⟨fit, late⟩, ?_⟩
    rintro (⟨-, late⟩ | stuck)
    · exact late
    · exact absurd fit stuck.unfit
  · obtain ⟨t', returns, same⟩ := stuck fit
    rw [returns]
    unfold doLock
    rw [found]
    constructor
    · intro atomic
      exact .inr (same.mp (atomic.unchanged _ rfl))
    · rintro (⟨fit', -⟩ | first)
      · exact absurd fit' fit
      · rw [same.mpr first]
        exact .of_same f.ino

theorem set_atomic {fd : Fd} {g : FilpNr} {ltype : LockType}
    (found : getFilp s fp fild = some (fd, g)) (checks : lockChecks f req want = .ok (some ltype))
    (copied : Except Errno Nat) :
    Atomic s (lockRequest s t fp fild pid f req (some want) copied).1 t
      (lockRequest s t fp fild pid f req (some want) copied).2.1 f.ino
      (lockRequest s t fp fild pid f req (some want) copied).2.2 := by
  unfold lockRequest lockOp
  dsimp only
  rw [checks]
  cases region : lockRegion f want with
  | none => exact .of_same f.ino
  | some bytes =>
  obtain ⟨first, last⟩ := bytes
  dsimp only
  obtain ⟨same, agree⟩ := @scanLocks_agrees pid f.ino req ltype first last (List.finRange 8)
    { table := t } fun _ none => by cases none
  generalize scanLocks pid f.ino req (some ltype) first last _ _ = out at same agree ⊢
  cases out with
  | returns table result =>
    obtain rfl : table = t := same
    exact .of_same f.ino
  | ends scan =>
    obtain ⟨free, -⟩ := agree scan rfl
    obtain rfl : scan.table = t := same
    dsimp only
    split
    · exact .of_same f.ino
    · cases empty : scan.empty with
      | none => exact .of_same f.ino
      | some slot =>
        -- a lock is added in a free slot, and the others stay
        unfold doLock
        rw [found]
        refine ⟨fun _ wrong => Result.noConfusion wrong, ?_⟩
        rintro ⟨who, kind, byte, holds, gone⟩
        exfalso
        obtain kept | ⟨lock, taken, -⟩ := @Holds.set scan.table slot _ _ _ _ holds
          (some ⟨ltype, pid, f.ino, first, last⟩)
        · exact gone kept
        · rw [free slot empty] at taken
          cases taken

end Request

/-- A request for a lock is atomic, on every table that calls produce, exactly when an unlock finds
slots for all splits, or is stuck at its first lock, and init does not wait for a lock that it
releases. -/
theorem lock_atomic_iff {calls : List LockCall} {s : State} {t : LockTable} {fp : Slot} {fild : Int}
    {fd : Fd} {g : FilpNr} (run : Locks (fun _ _ => True) {} calls t)
    (found : getFilp s fp fild = some (fd, g)) (pid : Nat) (f : LockFile) (req : LockReq)
    (flock : Option Flock) (copied : Except Errno Nat) :
    Atomic s (lockRequest s t fp fild pid f req flock copied).1 t
        (lockRequest s t fp fild pid f req flock copied).2.1 f.ino
        (lockRequest s t fp fild pid f req flock copied).2.2 ↔
      UnlockSafe s t f req flock := by
  have counted := (run.steady steady_start).counted
  cases flock with
  | none => exact iff_of_true (.of_same f.ino) fun _ _ _ wrong => by cases wrong
  | some want =>
  cases checks : lockChecks f req want with
  | error code =>
    refine iff_of_true ?_ fun want' _ _ same ok => ?_
    · unfold lockRequest lockOp
      dsimp only
      rw [checks]
      exact .of_same f.ino
    · obtain rfl := some.inj same
      rw [checks] at ok
      cases ok
  | ok ltype =>
  cases ltype with
  | some ltype =>
    refine iff_of_true (set_atomic found checks copied) fun want' _ _ same ok => ?_
    obtain rfl := some.inj same
    rw [checks] at ok
    cases ok
  | none =>
  cases region : lockRegion f want with
  | none =>
    refine iff_of_true ?_ fun want' _ _ same _ within => ?_
    · unfold lockRequest lockOp
      dsimp only
      rw [checks]
      rw [region]
      exact .of_same f.ino
    · obtain rfl := some.inj same
      rw [region] at within
      cases within
  | some bytes =>
    obtain ⟨first, last⟩ := bytes
    refine (unlock_atomic_iff counted run.formed found checks region copied).trans
      ⟨fun safe want' first' last' same _ within => ?_, fun safe => safe want first last rfl checks
        region⟩
    obtain rfl := some.inj same
    obtain ⟨rfl, rfl⟩ := Prod.mk.inj (some.inj (region.symm.trans within))
    exact safe

/-- Process 3 has the file open, and process 4 waits for a lock on it. -/
def lockedFile : State where
  fproc p :=
    if p = 3 then { fpFilp := fun fd => if fd = 0 then some 0 else none }
    else if p = 4 then
      { fpFilp := fun fd => if fd = 0 then some 0 else none, fpSuspended := true, fpTask := .xlock }
    else {}
  filp _ := { filpCount := 2, filpIno := 5 }

/-- The request to unlock the bytes from 5 to 7. -/
def unlockFive : Flock := { lType := .unlck, lWhence := .set, lStart := 5, lLen := 3 }

/-- Unlocking a part of a lock in a table with room. -/
theorem split_lock_atomic : ∃ t, Locks (fun _ _ => True) {} [ask 11 (.lock .read) 0 21] t ∧
    Atomic lockedFile (lockRequest lockedFile t 3 0 11 { ino := 5 } .setlk unlockFive (.ok 0)).1 t
      (lockRequest lockedFile t 3 0 11 { ino := 5 } .setlk unlockFive (.ok 0)).2.1 5
      (lockRequest lockedFile t 3 0 11 { ino := 5 } .setlk unlockFive (.ok 0)).2.2 := by
  have executed : (Transition.execute lockStep (fun _ _ => True) [ask 11 (.lock .read) 0 21]
      {}).map (fun t => decide (SplitsFit 5 7 (t.inRegion { ino := 5 } 5 7) t.nrLocks)) =
        some true := by
    decide
  obtain ⟨t, executed, fits⟩ := Option.map_eq_some_iff.mp executed
  have run := Transition.Run.of_execute executed
  have found : getFilp lockedFile 3 0 = some (0, 0) := by decide
  refine ⟨t, run, (lock_atomic_iff run found 11 { ino := 5 } .setlk unlockFive (.ok 0)).mpr ?_⟩
  intro want first last same _ region
  obtain rfl := some.inj same
  have known : lockRegion { ino := 5 } unlockFive = some (5, 7) := by decide
  obtain ⟨rfl, rfl⟩ := Prod.mk.inj (some.inj (known.symm.trans region))
  refine .inl ⟨of_decide_eq_true fits, fun _ q waits => ?_⟩
  by_contra early
  have resting : (lockedFile.fproc q).fpSuspended = false := by
    have other : q ≠ 4 := by
      rintro rfl
      exact early (by decide)
    unfold lockedFile
    dsimp only
    split
    · rfl
    · rfl
  rw [waits.1.1] at resting
  cases resting

/-- Eight locks, the first of which ends in the region, and the second contains it. -/
def fullTable : List LockCall :=
  [ask 11 (.lock .read) 0 7, ask 12 (.lock .read) 0 21, ask 13 (.lock .read) 100 1,
    ask 13 (.lock .read) 102 1, ask 13 (.lock .read) 104 1, ask 13 (.lock .read) 106 1,
    ask 13 (.lock .read) 108 1, ask 13 (.lock .read) 110 1]

/-- The request fails with `ENOLCK`, but the first lock has lost two bytes, and nobody is revived. -/
theorem failed_unlock_trims : ∃ t, Locks (fun _ _ => True) {} fullTable t ∧
    (lockRequest lockedFile t 3 0 11 { ino := 5 } .setlk unlockFive (.ok 0)).2.2 =
      .error (.other 37) ∧
    t.fileLock 0 = some ⟨.read, 11, 5, 0, 6⟩ ∧
    (lockRequest lockedFile t 3 0 11 { ino := 5 } .setlk unlockFive (.ok 0)).2.1.fileLock 0 =
      some ⟨.read, 11, 5, 0, 4⟩ ∧
    (lockedFile.fproc 4).fpTask = .xlock ∧
    ((lockRequest lockedFile t 3 0 11 { ino := 5 } .setlk unlockFive (.ok 0)).1.fproc
      4).fpRevived = false := by
  have executed : (Transition.execute lockStep (fun _ _ => True) fullTable {}).map (fun t =>
      ((lockRequest lockedFile t 3 0 11 { ino := 5 } .setlk unlockFive (.ok 0)).2.2, t.fileLock 0,
        (lockRequest lockedFile t 3 0 11 { ino := 5 } .setlk unlockFive (.ok 0)).2.1.fileLock 0,
        (lockedFile.fproc 4).fpTask,
        ((lockRequest lockedFile t 3 0 11 { ino := 5 } .setlk unlockFive (.ok 0)).1.fproc
          4).fpRevived)) =
      some (Result.error (.other 37), some ⟨.read, 11, 5, 0, 6⟩, some ⟨.read, 11, 5, 0, 4⟩, .xlock,
        false) := by
    decide
  obtain ⟨t, executed, found⟩ := Option.map_eq_some_iff.mp executed
  simp only [Prod.mk.injEq] at found
  exact ⟨t, .of_execute executed, found⟩

end Minix.Fs
