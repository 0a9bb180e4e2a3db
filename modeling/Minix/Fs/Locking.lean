/-
This file proves that two processes never hold locks on the same byte of which one is a write lock,
and that a lock stays where it is as long as its owner keeps it and nobody else unlocks its bytes.

A request to unlock a region clears whatever lock lies in it, whoever holds it
(`foreign_unlock_clears`); in runs without such requests only the owner gives a lock up.
-/

import Minix.Fs.Lock

namespace Minix.Fs

open Function (update update_self)
open Option (some.inj map_eq_some_iff)

/-! ### Who holds what -/

/-- A process holds a lock of the given type on a byte of a file. -/
def Holds (t : LockTable) (pid : Nat) (ino : InodeNr) (ltype : LockType) (byte : Off) : Prop :=
  ∃ flp lock, t.fileLock flp = some lock ∧ lock.lockPid = pid ∧ lock.lockInode = ino ∧
    lock.lockType = ltype ∧ lock.lockFirst ≤ byte ∧ byte ≤ lock.lockLast

/-- Two processes that have locked the same byte share it for reading. -/
def Exclusive (t : LockTable) : Prop :=
  ∀ pid other ino mine theirs byte, pid ≠ other → Holds t pid ino mine byte →
    Holds t other ino theirs byte → mine = .read ∧ theirs = .read

/-- `nr_locks` counts the slots in use. -/
def LockTable.Counted (t : LockTable) : Prop := t.nrLocks = References.size t.fileLock

/-- A call by which a process gives up a byte of a file that it has locked. -/
def GivesUp (pid : Nat) (ino : InodeNr) (byte : Off) : LockCall → Prop
  | .fcntl who f _ (some flock) _ => who = pid ∧ f.ino = ino ∧ flock.lType = .unlck ∧
    ∃ first last, lockRegion f flock = some (first, last) ∧ first ≤ byte ∧ byte ≤ last
  | .fcntl _ _ _ none _ => False
  | .close who file => who = pid ∧ file = ino
  | .exit who _ => who = pid

/-- No process unlocks a region that overlaps a lock of another process. -/
def OwnUnlocks (t : LockTable) : LockCall → Prop
  | .fcntl pid f _ (some flock) _ => flock.lType = .unlck →
    match lockRegion f flock with
    | some (first, last) => ∀ flp, ∀ lock ∈ t.fileLock flp, lock.overlaps f.ino first last = true →
      lock.lockPid = pid
    | none => True
  | _ => True

/-! ### Slots -/

section Slots

variable {t t' : LockTable} {flp : LockNr} {lock : FileLock} {pid : Nat} {ino : InodeNr}
  {ltype : LockType} {byte first last : Off}

theorem overlaps_iff : lock.overlaps ino first last = true ↔
    lock.lockInode = ino ∧ lock.lockFirst ≤ last ∧ first ≤ lock.lockLast := by
  simp [FileLock.overlaps, and_assoc]

theorem holds_set {new : Option FileLock} (holds : Holds (t.set flp new) pid ino ltype byte) :
    Holds t pid ino ltype byte ∨ ∃ lock ∈ new, lock.lockPid = pid ∧ lock.lockInode = ino ∧
      lock.lockType = ltype ∧ lock.lockFirst ≤ byte ∧ byte ≤ lock.lockLast := by
  obtain ⟨slot, lock, found, rest⟩ := holds
  by_cases same : slot = flp
  · subst same
    exact .inr ⟨lock, by simpa [LockTable.set] using found, rest⟩
  · exact .inl ⟨slot, lock, by simpa [LockTable.set, same] using found, rest⟩

/-- What is held is held in another slot than the one that changes, or in that one. -/
theorem Holds.set (holds : Holds t pid ino ltype byte) (new : Option FileLock) :
    Holds (t.set flp new) pid ino ltype byte ∨ ∃ lock, t.fileLock flp = some lock ∧
      lock.lockPid = pid ∧ lock.lockInode = ino ∧ lock.lockType = ltype ∧
      lock.lockFirst ≤ byte ∧ byte ≤ lock.lockLast := by
  obtain ⟨slot, lock, found, rest⟩ := holds
  by_cases same : slot = flp
  · subst same
    exact .inr ⟨lock, found, rest⟩
  · exact .inl ⟨slot, lock, by simpa [LockTable.set, same] using found, rest⟩

theorem holds_new : lock.lockFirst ≤ byte → byte ≤ lock.lockLast →
    Holds (t.set flp (some lock)) lock.lockPid lock.lockInode lock.lockType byte :=
  fun low high => ⟨flp, lock, update_self _ _ _, rfl, rfl, rfl, low, high⟩

section

variable (counted : t.Counted)
include counted

theorem LockTable.Counted.set_none (found : t.fileLock flp = some lock) :
    LockTable.Counted { t.set flp none with nrLocks := t.nrLocks - 1 } := by
  have fewer := @References.size_detach _ _ _ t.fileLock flp _ (by simp [found])
  change t.nrLocks - 1 = ((References.size (update t.fileLock flp none) : Nat) : Int)
  rw [show t.nrLocks = _ from counted]
  omega

theorem LockTable.Counted.replace (found : t.fileLock flp = some lock) (other : FileLock) :
    (t.set flp (some other)).Counted := by
  have same : References.size (update t.fileLock flp (some other)) = References.size t.fileLock :=
    References.size_congr fun slot => by
      by_cases mine : slot = flp
      · subst mine
        simp [found]
      · simp [mine]
  change t.nrLocks = ((References.size (update t.fileLock flp (some other)) : Nat) : Int)
  rw [same]
  exact counted

theorem LockTable.Counted.set_some (free : t.fileLock flp = none) (lock : FileLock) :
    LockTable.Counted { t.set flp (some lock) with nrLocks := t.nrLocks + 1 } := by
  have more := References.size_attach free lock
  change t.nrLocks + 1 = ((References.size (update t.fileLock flp (some lock)) : Nat) : Int)
  rw [show t.nrLocks = _ from counted, more]
  rfl

theorem LockTable.Counted.free (room : t.nrLocks ≠ 8) :
    ∃ flp, (List.finRange 8).find? (fun flp => (t.fileLock flp).isNone) = some flp ∧
      t.fileLock flp = none := by
  cases search : (List.finRange 8).find? fun flp => (t.fileLock flp).isNone with
  | some flp => exact ⟨flp, rfl, by simpa using List.find?_some search⟩
  | none =>
    have full : ∀ flp, (t.fileLock flp).isSome = true := fun flp => by
      have taken := List.find?_eq_none.mp search flp (List.mem_finRange flp)
      cases found : t.fileLock flp with
      | some => rfl
      | none => simp [found] at taken
    have size : References.size t.fileLock = 8 := by
      simp [References.size, full]
    rw [LockTable.Counted, size] at counted
    exact absurd counted room

end

end Slots

/-! ### Clearing a region -/

/-- Nobody gets a lock, and only bytes of the region are given up. -/
structure Cleared (ino : InodeNr) (first last : Off) (t t' : LockTable) : Prop where
  counted : t'.Counted
  fewer : ∀ {pid file ltype byte}, Holds t' pid file ltype byte → Holds t pid file ltype byte
  keeps : ∀ {pid file ltype byte}, Holds t pid file ltype byte →
    (file = ino → byte < first ∨ last < byte) → Holds t' pid file ltype byte

section Clear

variable {t t' t'' : LockTable} {flp : LockNr} {lock : FileLock} {pid : Nat} {ino : InodeNr}
  {req : LockReq} {first last : Off}

theorem Cleared.refl (counted : t.Counted) : Cleared ino first last t t :=
  ⟨counted, id, fun holds _ => holds⟩

theorem Cleared.trans (before : Cleared ino first last t t')
    (after : Cleared ino first last t' t'') : Cleared ino first last t t'' :=
  ⟨after.counted, fun holds => before.fewer (after.fewer holds),
    fun holds away => after.keeps (before.keeps holds away) away⟩

/-- A slot whose lock shrinks to the bytes on one side of the region, or vanishes. -/
theorem Cleared.shrink (found : t.fileLock flp = some lock) (mine : lock.lockInode = ino)
    {new : Option FileLock}
    (sub : ∀ other ∈ new, other.lockPid = lock.lockPid ∧ other.lockInode = lock.lockInode ∧
      other.lockType = lock.lockType ∧ lock.lockFirst ≤ other.lockFirst ∧
      other.lockLast ≤ lock.lockLast)
    (rest : ∀ byte, lock.lockFirst ≤ byte → byte ≤ lock.lockLast → byte < first ∨ last < byte →
      ∃ other ∈ new, other.lockFirst ≤ byte ∧ byte ≤ other.lockLast)
    (counted : (LockTable.Counted t')) (same : t'.fileLock = (t.set flp new).fileLock) :
    Cleared ino first last t t' := by
  have moved : ∀ {pid file ltype byte}, Holds t' pid file ltype byte ↔
      Holds (t.set flp new) pid file ltype byte := by
    intro pid file ltype byte
    rw [Holds, Holds, same]
  refine ⟨counted, fun holds => ?_, fun holds away => ?_⟩
  · rcases holds_set (moved.mp holds) with old | ⟨other, member, who, file, ltype, low, high⟩
    · exact old
    · obtain ⟨pid', ino', type', narrow, narrow'⟩ := sub other member
      exact ⟨flp, lock, found, pid'.symm.trans who, ino'.symm.trans file, type'.symm.trans ltype,
        BitVec.le_trans narrow low, BitVec.le_trans high narrow'⟩
  · refine moved.mpr ?_
    rcases @Holds.set t flp _ _ _ _ holds new with kept | ⟨old, found', who, file, ltype, low, high⟩
    · exact kept
    · obtain rfl : lock = old := some.inj (found.symm.trans found')
      obtain ⟨other, member, low', high'⟩ := rest _ low high (away (file.symm.trans mine))
      obtain ⟨pid', ino', type', -⟩ := sub other member
      obtain rfl : new = some other := member
      rw [← who, ← file, ← ltype, ← pid', ← ino', ← type']
      exact holds_new low' high'

/-- The part of a lock in the region is cleared, and the rest of it stays. -/
theorem clearPart_cleared (counted : t.Counted) (found : t.fileLock flp = some lock)
    (overlaps : lock.overlaps ino first last = true)
    (cleared : clearPart t flp lock first last = some t') : Cleared ino first last t t' := by
  obtain ⟨mine, low, high⟩ := overlaps_iff.mp overlaps
  unfold clearPart at cleared
  split at cleared
  case isTrue whole =>
    obtain rfl := some.inj cleared
    refine @Cleared.shrink _ _ _ _ _ _ _ found mine none (fun _ none => by cases none)
        (fun byte from' to' away => ?_) (counted.set_none found) rfl
    exfalso
    obtain ⟨left, right⟩ := whole
    bv_omega
  case isFalse part =>
  split at cleared
  case isTrue left =>
    obtain rfl := some.inj cleared
    refine @Cleared.shrink _ _ _ _ _ _ _ found mine (some { lock with lockFirst := last + 1 }) ?_
        (fun byte from' to' away => ⟨_, rfl, ?_, to'⟩) (counted.replace found _) rfl
    · rintro other ⟨⟩
      refine ⟨rfl, rfl, rfl, ?_, BitVec.le_refl _⟩
      change lock.lockFirst ≤ last + 1
      bv_omega
    · change last + 1 ≤ byte
      bv_omega
  case isFalse inner =>
  split at cleared
  case isTrue right =>
    obtain rfl := some.inj cleared
    refine @Cleared.shrink _ _ _ _ _ _ _ found mine (some { lock with lockLast := first - 1 }) ?_
        (fun byte from' to' away => ⟨_, rfl, from', ?_⟩) (counted.replace found _) rfl
    · rintro other ⟨⟩
      refine ⟨rfl, rfl, rfl, BitVec.le_refl _, ?_⟩
      change first - 1 ≤ lock.lockLast
      bv_omega
    · change byte ≤ first - 1
      bv_omega
  case isFalse beyond =>
  split at cleared
  case isTrue => cases cleared
  case isFalse room =>
  -- the lock is split in two: the upper part goes to a free slot
  obtain ⟨flp₂, search, free⟩ := counted.free room
  rw [search] at cleared
  obtain rfl := some.inj cleared
  have distinct : flp ≠ flp₂ := by
    rintro rfl
    rw [found] at free
    cases free
  let upper : FileLock := { lock with lockFirst := last + 1 }
  let lower : FileLock := { lock with lockLast := first - 1 }
  let t₁ : LockTable := { t.set flp₂ (some upper) with nrLocks := t.nrLocks + 1 }
  have counted₁ : t₁.Counted := counted.set_some free upper
  have found₁ : t₁.fileLock flp = some lock := by simpa [t₁, LockTable.set, distinct] using found
  have atLower : (t₁.set flp (some lower)).fileLock flp = some lower := update_self _ _ _
  have atUpper : (t₁.set flp (some lower)).fileLock flp₂ = some upper := by
    simp [t₁, LockTable.set, distinct.symm]
  change Cleared ino first last t (t₁.set flp (some lower))
  refine ⟨counted₁.replace found₁ lower, fun holds => ?_, fun holds away => ?_⟩
  · rcases holds_set holds with old | ⟨_, ⟨⟩, who, file, ltype, low', high'⟩
    · rcases @holds_set t flp₂ _ _ _ _ _ old with old | ⟨_, ⟨⟩, who, file, ltype, low', high'⟩
      · exact old
      · refine ⟨flp, lock, found, who, file, ltype, ?_, high'⟩
        change last + 1 ≤ _ at low'
        bv_omega
    · refine ⟨flp, lock, found, who, file, ltype, low', ?_⟩
      change _ ≤ first - 1 at high'
      bv_omega
  · obtain ⟨slot, old, found', who, file, ltype, low', high'⟩ := holds
    by_cases same : slot = flp
    · subst same
      obtain rfl : lock = old := some.inj (found.symm.trans found')
      rcases away (file.symm.trans mine) with below | above
      · refine ⟨slot, lower, atLower, who, file, ltype, low', ?_⟩
        change _ ≤ first - 1
        bv_omega
      · refine ⟨flp₂, upper, atUpper, who, file, ltype, ?_, high'⟩
        change last + 1 ≤ _
        bv_omega
    · have other : slot ≠ flp₂ := by
        rintro rfl
        rw [free] at found'
        cases found'
      refine ⟨slot, old, ?_, who, file, ltype, low', high'⟩
      simpa [t₁, LockTable.set, same, other] using found'

/-- The table that the loop leaves. -/
def Scanned.table : Scanned → LockTable
  | .returns t _ => t
  | .ends scan => scan.table

theorem scanLocks_cleared (slots : List LockNr) {scan : LockScan}
    (cleared : Cleared ino first last t scan.table) :
    Cleared ino first last t (scanLocks pid ino req none first last slots scan).table := by
  induction slots generalizing scan with
  | nil => exact cleared
  | cons flp slots inductionHypothesis =>
    rw [scanLocks]
    split
    · exact inductionHypothesis cleared
    case _ lock found =>
    split
    · exact inductionHypothesis cleared
    case isFalse overlaps =>
    dsimp only
    split
    · exact cleared
    case _ t' part =>
    refine inductionHypothesis (cleared.trans ?_)
    exact clearPart_cleared cleared.counted found (by simpa using overlaps) part

end Clear

/-! ### Setting a lock -/

section Set

variable {t : LockTable} {pid : Nat} {ino : InodeNr} {req : LockReq} {ltype : LockType}
  {first last : Off}

/-- A lock of another process that may stand beside a new one. -/
def FileLock.agrees (lock : FileLock) (pid : Nat) (ino : InodeNr) (ltype : LockType)
    (first last : Off) : Prop :=
  lock.overlaps ino first last = true → (ltype = .read ∧ lock.lockType = .read) ∨ lock.lockPid = pid

/-- A request to set a lock changes nothing before the end of the loop. It gets there only if all
locks agree with the new one, or, with `F_GETLK`, when it has found one that does not. -/
theorem scanLocks_agrees (slots : List LockNr) {scan : LockScan}
    (free : ∀ flp ∈ scan.empty, scan.table.fileLock flp = none) :
    (scanLocks pid ino req (some ltype) first last slots scan).table = scan.table ∧
      ∀ scan', scanLocks pid ino req (some ltype) first last slots scan = .ends scan' →
        (∀ flp ∈ scan'.empty, scan.table.fileLock flp = none) ∧
          (req ≠ .getlk → ∀ flp ∈ slots, ∀ lock ∈ scan.table.fileLock flp,
            lock.agrees pid ino ltype first last) := by
  induction slots generalizing scan with
  | nil =>
    refine ⟨rfl, fun scan' ends => ?_⟩
    obtain rfl : scan = scan' := by simpa [scanLocks] using ends
    exact ⟨free, fun _ _ none => by cases none⟩
  | cons flp slots inductionHypothesis =>
    rw [scanLocks]
    split
    case _ none =>
      obtain ⟨same, agree⟩ := @inductionHypothesis
        { scan with empty := scan.empty.or (some flp) } fun slot member => by
          cases empty : scan.empty with
          | none => simp_all
          | some => simp_all
      refine ⟨same, fun scan' ends => ?_⟩
      obtain ⟨free', others⟩ := agree scan' ends
      refine ⟨free', fun set slot member lock found => ?_⟩
      rcases List.mem_cons.mp member with rfl | later
      · rw [none] at found
        cases found
      · exact others set slot later lock found
    case _ lock found =>
    have skip : lock.agrees pid ino ltype first last →
        (scanLocks pid ino req (some ltype) first last slots scan).table = scan.table ∧
          ∀ scan', scanLocks pid ino req (some ltype) first last slots scan = .ends scan' →
            (∀ flp ∈ scan'.empty, scan.table.fileLock flp = none) ∧
              (req ≠ .getlk → ∀ slot ∈ flp :: slots, ∀ lock ∈ scan.table.fileLock slot,
                lock.agrees pid ino ltype first last) := by
      intro agrees
      obtain ⟨same, agree⟩ := inductionHypothesis free
      refine ⟨same, fun scan' ends => ?_⟩
      obtain ⟨free', others⟩ := agree scan' ends
      refine ⟨free', fun set slot member other found' => ?_⟩
      rcases List.mem_cons.mp member with rfl | later
      · obtain rfl : lock = other := some.inj (found.symm.trans found')
        exact agrees
      · exact others set slot later other found'
    split
    case isTrue apart =>
      exact skip fun overlaps => by simp [overlaps] at apart
    case isFalse =>
    dsimp only
    split
    case isTrue agrees => exact skip fun _ => agrees
    case isFalse =>
    cases req with
    | getlk =>
      refine ⟨rfl, fun scan' ends => ?_⟩
      obtain rfl := Scanned.ends.inj ends
      exact ⟨free, fun set => absurd rfl set⟩
    | setlk | setlkw => exact ⟨rfl, fun _ ends => by cases ends⟩

theorem Exclusive.add (exclusive : Exclusive t) {empty : LockNr}
    (agree : ∀ flp, ∀ lock ∈ t.fileLock flp, lock.agrees pid ino ltype first last) :
    Exclusive (t.set empty (some ⟨ltype, pid, ino, first, last⟩)) := by
  -- two processes cannot both hold the byte by the new lock
  have shared : ∀ {other file theirs byte}, Holds t other file theirs byte → pid ≠ other →
      file = ino → first ≤ byte → byte ≤ last → ltype = .read ∧ theirs = .read := by
    intro other file theirs byte ⟨flp, lock, found, who, where', kind, low, high⟩ distinct same
      first' last'
    have overlaps : lock.overlaps ino first last = true :=
      overlaps_iff.mpr ⟨where'.trans same, BitVec.le_trans low last', BitVec.le_trans first' high⟩
    rcases agree flp lock found overlaps with ⟨mine, read⟩ | own
    · exact ⟨mine, kind.symm.trans read⟩
    · exact absurd (own.symm.trans who) distinct
  intro p q file mine theirs byte distinct holds holds'
  rcases holds_set holds with old | ⟨_, ⟨⟩, rfl, rfl, rfl, low, high⟩
  · rcases holds_set holds' with old' | ⟨_, ⟨⟩, rfl, rfl, rfl, low, high⟩
    · exact exclusive p q file mine theirs byte distinct old old'
    · exact (shared old distinct.symm rfl low high).symm
  · rcases holds_set holds' with old' | ⟨_, ⟨⟩, who, -⟩
    · exact shared old' distinct rfl low high
    · exact absurd who distinct

end Set

/-! ### The calls -/

section Calls

variable {t t' t'' : LockTable} {pid who : Nat} {ino : InodeNr}

theorem lockChecks_none {f : LockFile} {req : LockReq} {want : Flock}
    (checks : lockChecks f req want = .ok none) : want.lType = .unlck := by
  unfold lockChecks at checks
  split at checks
  case h_1 => cases checks
  case h_2 unlocks => exact unlocks
  case h_3 =>
    dsimp only at checks
    repeat' split at checks
    all_goals simp at checks

/-- What `lock_op` can do to the table: nothing, clear a region, or add a lock that agrees with all
others. -/
theorem lockOp_cases (counted : t.Counted) (pid : Nat) (f : LockFile) (req : LockReq)
    (flock : Option Flock) (copied : Except Errno Nat) :
    let t' := (lockOp t pid f req flock copied).1
    t' = t ∨
      (∃ want first last, flock = some want ∧ want.lType = .unlck ∧
        lockRegion f want = some (first, last) ∧ Cleared f.ino first last t t') ∨
      ∃ ltype first last empty, t.fileLock empty = none ∧
        (∀ flp, ∀ lock ∈ t.fileLock flp, lock.agrees pid f.ino ltype first last) ∧
        t' = { t.set empty (some ⟨ltype, pid, f.ino, first, last⟩) with
          nrLocks := t.nrLocks + 1 } := by
  unfold lockOp
  cases flock with
  | none => exact .inl rfl
  | some want =>
  dsimp only
  cases checks : lockChecks f req want with
  | error => exact .inl rfl
  | ok ltype =>
  cases region : lockRegion f want with
  | none => exact .inl rfl
  | some bytes =>
  obtain ⟨first, last⟩ := bytes
  dsimp only
  cases ltype with
  | none =>
    have unlocks : want.lType = .unlck := lockChecks_none checks
    have cleared := @scanLocks_cleared _ pid _ req _ _ (List.finRange 8) { table := t }
        (@Cleared.refl _ f.ino first last counted)
    refine .inr (.inl ⟨want, first, last, rfl, unlocks, region, ?_⟩)
    generalize scanLocks pid f.ino req none first last _ _ = out at cleared ⊢
    cases out with
    | returns => exact cleared
    | ends scan =>
      dsimp only
      split <;> exact cleared
  | some ltype =>
    obtain ⟨same, agree⟩ := @scanLocks_agrees pid f.ino req ltype first last (List.finRange 8)
        { table := t }
      fun _ none => by cases none
    generalize scanLocks pid f.ino req (some ltype) first last _ _ = out at same agree ⊢
    cases out with
    | returns => exact .inl same
    | ends scan =>
      obtain ⟨free, agrees⟩ := agree scan rfl
      obtain rfl : scan.table = t := same
      dsimp only
      split
      · exact .inl rfl
      case isFalse set =>
      cases empty : scan.empty with
      | none => exact .inl rfl
      | some empty' =>
        exact .inr (.inr ⟨ltype, first, last, empty', free empty' empty,
          fun flp => agrees set flp (List.mem_finRange flp), rfl⟩)

/-- A process gives up what it has locked of a file, and nothing else changes hands. -/
structure Released (ino : InodeNr) (who : Nat) (t t' : LockTable) : Prop where
  counted : t'.Counted
  fewer : ∀ {pid file ltype byte}, Holds t' pid file ltype byte → Holds t pid file ltype byte
  keeps : ∀ {pid file ltype byte}, Holds t pid file ltype byte → (file = ino → pid ≠ who) →
    Holds t' pid file ltype byte

theorem Released.trans (before : Released ino who t t') (after : Released ino who t' t'') :
    Released ino who t t'' :=
  ⟨after.counted, fun holds => before.fewer (after.fewer holds),
    fun holds away => after.keeps (before.keeps holds away) away⟩

theorem releaseLock_released (counted : t.Counted) (flp : LockNr) :
    Released ino who t (releaseLock ino who t flp) := by
  have same : Released ino who t t := ⟨counted, id, fun holds _ => holds⟩
  unfold releaseLock
  cases found : t.fileLock flp with
  | none => exact same
  | some lock =>
  dsimp only
  split
  case isFalse => exact same
  case isTrue mine =>
  refine ⟨counted.set_none found, fun holds => ?_, fun holds away => ?_⟩
  · rcases @holds_set t flp _ _ _ _ none holds with old | ⟨_, none, -⟩
    · exact old
    · cases none
  · rcases @Holds.set t flp _ _ _ _ holds none with kept | ⟨old, found', owner, file, -⟩
    · exact kept
    · obtain rfl : lock = old := some.inj (found.symm.trans found')
      exact absurd (owner.symm.trans mine.2) (away (file.symm.trans mine.1))

theorem closeLocks_released (counted : t.Counted) (ino : InodeNr) (who : Nat) :
    Released ino who t (closeLocks t ino who) := by
  have all : ∀ slots : List LockNr, ∀ {t : LockTable}, t.Counted →
      Released ino who t (slots.foldl (releaseLock ino who) t) := by
    intro slots
    induction slots with
    | nil => exact fun counted => ⟨counted, id, fun holds _ => holds⟩
    | cons flp slots inductionHypothesis =>
      intro t counted
      have first := @releaseLock_released _ who ino counted flp
      exact first.trans (inductionHypothesis first.counted)
  unfold closeLocks
  split
  · exact ⟨counted, id, fun holds _ => holds⟩
  · exact all _ counted

theorem exit_released (counted : t.Counted) (files : List InodeNr) (who : Nat) :
    let t' := files.foldl (fun t ino => closeLocks t ino who) t
    t'.Counted ∧
      (∀ {pid file ltype byte}, Holds t' pid file ltype byte → Holds t pid file ltype byte) ∧
      ∀ {pid file ltype byte}, Holds t pid file ltype byte → pid ≠ who →
        Holds t' pid file ltype byte := by
  induction files generalizing t with
  | nil => exact ⟨counted, id, fun holds _ => holds⟩
  | cons ino files inductionHypothesis =>
    obtain ⟨counted', fewer, keeps⟩ := closeLocks_released counted ino who
    obtain ⟨counted'', fewer', keeps'⟩ := inductionHypothesis counted'
    exact ⟨counted'', fun holds => fewer (fewer' holds),
      fun holds other => keeps' (keeps holds fun _ => other) other⟩

end Calls

/-! ### Every step -/

/-- The invariant: the slots in use are counted, and locks exclude each other. -/
structure Steady (t : LockTable) : Prop where
  counted : t.Counted
  exclusive : Exclusive t

section Step

variable {t t' : LockTable} {call : LockCall}

theorem Exclusive.fewer (exclusive : Exclusive t)
    (fewer : ∀ {pid file ltype byte}, Holds t' pid file ltype byte →
      Holds t pid file ltype byte) : Exclusive t' :=
  fun pid other ino mine theirs byte distinct holds holds' =>
    exclusive pid other ino mine theirs byte distinct (fewer holds) (fewer holds')

theorem step_steady (steady : Steady t) (stepped : lockStep t call = some t') : Steady t' := by
  obtain ⟨counted, exclusive⟩ := steady
  cases call with
  | fcntl pid f req flock copied =>
    obtain rfl := some.inj stepped
    obtain same | ⟨want, first, last, -, -, -, cleared⟩ |
      ⟨ltype, first, last, empty, free, agree, same⟩ := lockOp_cases counted pid f req flock copied
    · rw [same]
      exact ⟨counted, exclusive⟩
    · exact ⟨cleared.counted, exclusive.fewer cleared.fewer⟩
    · rw [same]
      exact ⟨counted.set_some free _, exclusive.add agree⟩
  | close pid ino =>
    obtain rfl := some.inj stepped
    have released := closeLocks_released counted ino pid
    exact ⟨released.counted, exclusive.fewer released.fewer⟩
  | exit pid files =>
    obtain rfl := some.inj stepped
    obtain ⟨counted', fewer, -⟩ := exit_released counted files pid
    exact ⟨counted', exclusive.fewer fewer⟩

/-- A byte stays locked if its owner does not give it up and nobody else unlocks it. -/
theorem step_holds (counted : t.Counted) (own : OwnUnlocks t call)
    (stepped : lockStep t call = some t') {pid : Nat} {ino : InodeNr} {ltype : LockType}
    {byte : Off} (holds : Holds t pid ino ltype byte) (keeps : ¬ GivesUp pid ino byte call) :
    Holds t' pid ino ltype byte := by
  cases call with
  | fcntl who f req flock copied =>
    obtain rfl := some.inj stepped
    obtain same | ⟨want, first, last, rfl, unlocks, region, cleared⟩ |
      ⟨kind, first, last, empty, free, -, same⟩ := lockOp_cases counted who f req flock copied
    · rw [same]
      exact holds
    · refine cleared.keeps holds fun same => ?_
      subst same
      by_contra inside
      have low : first ≤ byte := by bv_omega
      have high : byte ≤ last := by bv_omega
      obtain ⟨flp, lock, found, owner, file, -, low', high'⟩ := holds
      have mine := own unlocks
      rw [region] at mine
      have same := mine flp lock found
        (overlaps_iff.mpr ⟨file, BitVec.le_trans low' high, BitVec.le_trans low high'⟩)
      exact keeps ⟨same.symm.trans owner, rfl, unlocks, first, last, region, low, high⟩
    · rw [same]
      rcases @Holds.set t empty _ _ _ _ holds (some ⟨kind, who, f.ino, first, last⟩) with
        kept | ⟨lock, found, -⟩
      · exact kept
      · rw [free] at found
        cases found
  | close who file =>
    obtain rfl := some.inj stepped
    exact (closeLocks_released counted file who).keeps holds fun same mine =>
      keeps ⟨mine.symm, same.symm⟩
  | exit who files =>
    obtain rfl := some.inj stepped
    exact (exit_released counted files who).2.2 holds fun mine => keeps mine.symm

end Step

/-! ### Runs -/

/-- The runs of the lock table. -/
def Locks (guard : LockTable → LockCall → Prop) (t : LockTable) (calls : List LockCall)
    (t' : LockTable) : Prop :=
  Transition.Run lockStep guard t calls t'

theorem steady_start : Steady {} :=
  ⟨by simp [LockTable.Counted, References.size_eq_zero],
    fun _ _ _ _ _ _ _ ⟨_, _, found, _⟩ => by cases found⟩

theorem Locks.steady {guard : LockTable → LockCall → Prop} {t t' : LockTable}
    {calls : List LockCall} (steady : Steady t) (run : Locks guard t calls t') : Steady t' :=
  Transition.Run.invariant steady (fun _ _ _ steady _ stepped => step_steady steady stepped) run

/-- In every run two processes that have locked the same byte share it for reading. In what follows,
as long as no process unlocks bytes that another has locked, a byte stays locked until its owner
unlocks it, closes the file or exits. -/
theorem locks_exclude_and_last {calls later : List LockCall} {t t' : LockTable}
    (run : Locks (fun _ _ => True) {} calls t) (after : Locks OwnUnlocks t later t') :
    Exclusive t' ∧ ∀ pid ino ltype byte, Holds t pid ino ltype byte →
      (∀ call ∈ later, ¬ GivesUp pid ino byte call) → Holds t' pid ino ltype byte := by
  have steady := run.steady steady_start
  refine ⟨(after.steady steady).exclusive, fun pid ino ltype byte holds keeps => ?_⟩
  induction after with
  | nil => exact holds
  | snoc before own stepped inductionHypothesis =>
    have kept := inductionHypothesis fun call member =>
      keeps call (List.mem_append_left _ member)
    exact step_holds (Locks.steady steady before).counted own stepped kept
      (keeps _ (List.mem_append_right _ (List.mem_singleton_self _)))

instance (t : LockTable) (call : LockCall) : Decidable (OwnUnlocks t call) := by
  unfold OwnUnlocks
  split
  · refine @instDecidableForall _ _ _ ?_
    split <;> infer_instance
  · infer_instance

/-- A request for the bytes from `start` on. -/
def ask (pid : Nat) (lType : FlockType) (start len : Off) : LockCall :=
  .fcntl pid { ino := 5 } .setlkw
    (some { lType, lWhence := .set, lStart := start, lLen := len }) (.ok 0)

/-- Two processes lock bytes of a file, and then each unlocks some of its own. -/
theorem locks_exclude_and_last_own : ∃ t t',
    Locks (fun _ _ => True) {} [ask 11 (.lock .write) 0 10, ask 12 (.lock .read) 5 10,
      ask 12 (.lock .read) 20 10] t ∧
    Locks OwnUnlocks t [ask 11 .unlck 0 5, ask 12 .unlck 22 1] t' ∧
    Exclusive t' ∧ Holds t 11 5 .write 7 ∧ Holds t' 11 5 .write 7 := by
  have executed : (Transition.execute lockStep (fun _ _ => True) [ask 11 (.lock .write) 0 10,
      ask 12 (.lock .read) 5 10, ask 12 (.lock .read) 20 10] {}).map (fun t =>
        (t.fileLock 0, (Transition.execute lockStep OwnUnlocks [ask 11 .unlck 0 5,
          ask 12 .unlck 22 1] t).isSome)) = some (some ⟨.write, 11, 5, 0, 9⟩, true) := by
    decide
  obtain ⟨t, executed, found⟩ := map_eq_some_iff.mp executed
  obtain ⟨locked, goes⟩ := Prod.mk.inj found
  obtain ⟨t', executed'⟩ := Option.isSome_iff_exists.mp goes
  have run := Transition.Run.of_execute executed
  have after := Transition.Run.of_execute executed'
  have holds : Holds t 11 5 .write 7 := ⟨0, _, locked, rfl, rfl, rfl, by decide, by decide⟩
  obtain ⟨exclusive, last⟩ := locks_exclude_and_last run after
  refine ⟨t, t', run, after, exclusive, holds, last 11 5 .write 7 holds ?_⟩
  intro call member gives
  rcases List.mem_pair.mp member with rfl | rfl
  · obtain ⟨-, -, -, first, last, region, low, high⟩ := gives
    obtain ⟨rfl, rfl⟩ : 0 = first ∧ 4 = last := by
      have known : lockRegion { ino := 5 } ⟨.unlck, .set, 0, 5, 0⟩ = some (0, 4) := by decide
      exact Prod.mk.inj (some.inj (known.symm.trans region))
    exact absurd high (by decide)
  · exact absurd gives.1 (by decide)

/-- A process locks bytes of a file, and another one unlocks them. -/
theorem foreign_unlock_clears : ¬ ∀ calls later t t', Locks (fun _ _ => True) {} calls t →
    Locks (fun _ _ => True) t later t' → Exclusive t' ∧ ∀ pid ino ltype byte,
      Holds t pid ino ltype byte → (∀ call ∈ later, ¬ GivesUp pid ino byte call) →
        Holds t' pid ino ltype byte := by
  intro last
  have executed : (Transition.execute lockStep (fun _ _ => True) [ask 11 (.lock .write) 0 10]
      {}).map (fun t => (t.fileLock 0, (Transition.execute lockStep (fun _ _ => True)
        [ask 12 .unlck 0 10] t).map fun t' => (List.finRange 8).map t'.fileLock)) =
      some (some ⟨.write, 11, 5, 0, 9⟩, some (List.replicate 8 none)) := by
    decide
  obtain ⟨t, executed, found⟩ := map_eq_some_iff.mp executed
  obtain ⟨locked, goes⟩ := Prod.mk.inj found
  obtain ⟨t', executed', cleared⟩ := map_eq_some_iff.mp goes
  obtain ⟨flp, lock, found, -⟩ := (last _ _ t t' (.of_execute executed)
    (.of_execute executed')).2 11 5 .write 7 ⟨0, _, locked, rfl, rfl, rfl, by decide, by decide⟩
      fun call member gives => by
        obtain rfl := List.mem_singleton.mp member
        exact absurd gives.1 (by decide)
  have none : t'.fileLock flp = none :=
    List.eq_of_mem_replicate (cleared ▸ List.mem_map_of_mem (List.mem_finRange flp))
  rw [none] at found
  cases found

end Minix.Fs
