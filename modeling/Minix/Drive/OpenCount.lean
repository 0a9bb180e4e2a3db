/-
This file proves when the count of the open partitions of a drive is right.

The count goes up for the first open only, but down for every close (`count_wraps`); the other disk
drivers count every open. As long as a drive is opened only while none of its partitions is open, the
count is right, and the partition table is read when it should be.
-/

import Minix.Drive.Containment
import Minix.Drive.Winchester
import Minix.Library.Transition

namespace Minix.Drive

open Function (update_of_ne update_self)
open Option (some.inj map_eq_some_iff)
open Transition (Run)

/-! ### The right order -/

/-- FS closes no partition of a drive that it has not opened. -/
def Issued (s : Drives) : Action → Prop
  | .doClose device => ∀ dv ∈ hardDisk maxDrives device, s.closes (driveOf dv) < s.opens (driveOf dv)
  | _ => True

/-- A drive is opened only while none of its partitions is open. -/
def Alone (s : Drives) : Action → Prop
  | .doOpen device _ _ =>
    ∀ dv ∈ hardDisk maxDrives device, s.opens (driveOf dv) = s.closes (driveOf dv)
  | _ => True

/-- The count of a drive is the number of opens less the number of closes. -/
def CountRight (s : Drives) (drive : Nat) : Prop :=
  (s.wini drive).openCt.toNat + s.closes drive = s.opens drive

/-- A step reads the partition table of a drive exactly if it opens the first partition, and changes
no geometry of a drive that has an open partition. -/
structure StepRight (drive : Nat) (s s' : Drives) : Prop where
  first : s'.parted drive = s.parted drive + 1 ↔
    s.opens drive = s.closes drive ∧ s'.opens drive = s.opens drive + 1
  once : s'.parted drive = s.parted drive ∨ s'.parted drive = s.parted drive + 1
  geometry : s.closes drive < s.opens drive →
    ∀ dv, driveOf dv = drive → s'.devices dv = s.devices dv

/-- The drives before any of them has been opened. -/
def booted (wini : Nat → UInt8) (devices : Nat → Device) : Drives where
  wini drive := ⟨wini drive, 0⟩
  devices := devices
  opens _ := 0
  closes _ := 0
  parted _ := 0

/-! ### The devices that `partition` leaves alone -/

section Keeps

variable {driver : Driver} {disk : Sectors} {parent : Device} {base limit : UInt32} {s : Parts}
  {style : Style} {inner : Int → Device → PartEntry → Parts → Parts} {known : Int → Nat → Prop}
  {other : Nat}

/-- What is done with a partition leaves a device alone. -/
def InnerKeeps (known : Int → Nat → Prop) (other : Nat)
    (inner : Int → Device → PartEntry → Parts → Parts) : Prop :=
  ∀ base limit pe device dv s, known device dv → s.devices dv = partDevice base limit pe →
    s.running = false →
    (inner device (partDevice base limit pe) { pe with lowsec := (shrink base limit pe).1 } s).devices
      other = s.devices other

theorem partLoop_keeps (keeps : InnerKeeps known other inner) (table : List PartEntry) (device : Int)
    (dv : Nat) (places : ∀ k < table.length, known (device + (k : Nat)) (dv + k) ∧ dv + k ≠ other)
    (running : s.running = false) :
    (partLoop inner parent base limit table device dv s).devices other = s.devices other := by
  induction table generalizing device dv s with
  | nil => rfl
  | cons pe rest inductionHypothesis =>
    obtain ⟨here, apart⟩ := places 0 (Nat.succ_pos _)
    rw [Nat.cast_zero, add_zero] at here
    have kept := (keeps base limit pe device dv (s.set parent dv (partDevice base limit pe)) here
      (update_self ..) running).trans (update_of_ne apart.symm _ _)
    unfold partLoop
    dsimp only
    split
    case isTrue more => exact kept
    case isFalse done =>
      refine (inductionHypothesis (device + 1) (dv + 1) (fun k less => ?_)
        (Bool.eq_false_iff.mpr done)).trans kept
      have next := places (k + 1) (Nat.succ_lt_succ less)
      rw [Nat.cast_add, Nat.cast_one] at next
      rw [add_assoc, add_comm 1, add_assoc, add_comm 1 k]
      exact next

theorem length_getPartTable {devices : Nat → Device} {device : Int} {offset : UInt32}
    {table : List PartEntry} (found : getPartTable driver disk devices device offset = some table) :
    table.length = 4 := by
  obtain ⟨tmpBuf, -, valid⟩ := Option.bind_eq_some_iff.mp found
  exact length_partTable valid

theorem partitionWith_keeps (keeps : InnerKeeps known other inner) {device : Int}
    (running : s.running = false) (places : ∀ first ∈ driver (firstPart device style), ∀ k < 4,
      known (firstPart device style + (k : Nat)) (first + k) ∧ first + k ≠ other) :
    (partitionWith driver disk style inner device s).devices other = s.devices other := by
  unfold partitionWith
  split
  case h_1 none => rfl
  case h_2 dv here =>
    dsimp only
    split
    case isTrue empty => rfl
    case isFalse some =>
      split
      case h_1 missing => rfl
      case h_2 table found =>
        have length := length_inOrder style table
        rw [length_getPartTable found] at length
        split
        case h_1 none => rfl
        case h_2 first there =>
          exact partLoop_keeps keeps _ _ _ (fun k less => places first there k (length ▸ less))
            running

theorem hardDisk_sub (drive : Fin maxDrives) (par : Fin 4) {k : Nat} (few : k < 4) :
    hardDisk maxDrives (firstSub (partDev drive par) + (k : Nat)) =
      some (128 + (drive * 4 + par) * 4 + k) := by
  have less := drive.isLt
  have small := par.isLt
  rw [firstSub_partDev]
  unfold hardDisk minorD0p0s0 devPerDrive
  unfold maxDrives at less ⊢
  rw [if_neg (by omega), if_pos (by omega)]
  refine congrArg some ?_
  omega

/-- What is done with a primary partition leaves the devices of the other drives alone. -/
theorem innerParts_keeps (fuel : Nat) (drive : Fin maxDrives) (apart : driveOf other ≠ drive) :
    InnerKeeps (IsPart drive) other (innerParts fuel (hardDisk maxDrives) disk) := by
  rintro base limit pe device dv s ⟨par, rfl, rfl⟩ part running
  have sub (k : Nat) (few : k < 4) : 128 + (drive * 4 + par) * 4 + k ≠ other := by
    rintro rfl
    have small := par.isLt
    unfold driveOf maxDrives at apart
    split_ifs at apart <;> omega
  unfold innerParts
  dsimp only
  have subs : (if pe.sysind = minixPart then partitionWith (hardDisk maxDrives) disk .sub
      (fun _ _ _ s => s) (partDev drive par) s else s).devices other = s.devices other := by
    split
    case isTrue minix =>
      refine @partitionWith_keeps _ _ _ _ _ (fun _ _ => True) _ (fun _ _ _ _ _ _ _ _ _ => rfl) _
        running fun first there k few => ⟨trivial, ?_⟩
      have place := hardDisk_sub drive par (Nat.succ_pos 3)
      rw [Nat.cast_zero, add_zero] at place
      obtain rfl := some.inj (place.symm.trans there)
      exact sub k few
    case isFalse other => rfl
  split
  case isTrue ext =>
    have other : pe.sysind ≠ minixPart := by
      intro same
      rw [same] at ext
      revert ext
      decide
    rw [if_neg other]
    have rounds := @extpartition_rounds (hardDisk maxDrives) disk (partDevice base limit pe)
      (partDevice base limit pe) (shrink base limit pe).1 (partDev drive par) s (fun _ _ => True)
      (room_hardDisk drive par) _ (hardDisk_partDev drive par) fuel part running
    refine rounds.devices _ fun k few there => sub k few ?_
    exact some.inj ((hardDisk_sub drive par few).symm.trans there)
  case isFalse plain => exact subs

theorem partition_keeps (fuel : Nat) (drive : Fin maxDrives) (apart : driveOf other ≠ drive)
    (running : s.running = false) :
    (partition fuel (hardDisk maxDrives) disk (wholeDrive drive) .primary s).devices other =
      s.devices other := by
  have first : hardDisk maxDrives (firstPart (wholeDrive drive) .primary) =
      some (partDev drive 0).toNat := hardDisk_partDev drive 0
  refine partitionWith_keeps (innerParts_keeps fuel drive apart) running fun dv there k few => ?_
  rw [first] at there
  obtain rfl := some.inj there
  have less := drive.isLt
  refine ⟨⟨⟨k, few⟩, rfl, ?_⟩, ?_⟩
  · unfold firstPart partDev wholeDrive devPerDrive
    dsimp only
    omega
  · rintro rfl
    unfold maxDrives at less
    unfold driveOf partDev devPerDrive maxDrives at apart
    split_ifs at apart <;> omega

end Keeps

/-! ### Opens and closes -/

section Requests

variable {drive : Nat} {s middle s' : Drives} {reply : Reply} {answers : Answers}

/-- A request for a drive leaves the other drives alone. -/
structure OnlyDrive (drive : Nat) (s s' : Drives) : Prop where
  opens : s'.opens = s.opens
  closes : s'.closes = s.closes
  counts : ∀ other, other ≠ drive → (s'.wini other).openCt = (s.wini other).openCt
  parteds : ∀ other, other ≠ drive → s'.parted other = s.parted other
  devices : ∀ dv, driveOf dv ≠ drive → s'.devices dv = s.devices dv

theorem OnlyDrive.refl : OnlyDrive drive s s :=
  ⟨rfl, rfl, fun _ _ => rfl, fun _ _ => rfl, fun _ _ => rfl⟩

theorem OnlyDrive.trans (first : OnlyDrive drive s middle) (second : OnlyDrive drive middle s') :
    OnlyDrive drive s s' where
  opens := second.opens.trans first.opens
  closes := second.closes.trans first.closes
  counts other apart := (second.counts other apart).trans (first.counts other apart)
  parteds other apart := (second.parteds other apart).trans (first.parteds other apart)
  devices dv apart := (second.devices dv apart).trans (first.devices dv apart)

theorem onlyDrive_setCount (count : UInt32) : OnlyDrive drive s (s.setCount drive count) :=
  ⟨rfl, rfl, fun _ apart => congrArg _ (update_of_ne apart _ _), fun _ _ => rfl,
    fun _ _ => rfl⟩

/-- What leaves the counts of a drive alone as well. -/
structure Uncounted (drive : Nat) (s s' : Drives) : Prop extends OnlyDrive drive s s' where
  count : (s'.wini drive).openCt = (s.wini drive).openCt
  parted : s'.parted drive = s.parted drive

theorem Uncounted.refl : Uncounted drive s s := ⟨.refl, rfl, rfl⟩

theorem Uncounted.trans (first : Uncounted drive s middle) (second : Uncounted drive middle s') :
    Uncounted drive s s' :=
  ⟨first.toOnlyDrive.trans second.toOnlyDrive, second.count.trans first.count,
    second.parted.trans first.parted⟩

theorem uncounted_setState (state : UInt8) : Uncounted drive s (s.setState drive state) := by
  refine ⟨⟨rfl, rfl, fun _ apart => ?_, fun _ _ => rfl, fun _ _ => rfl⟩, ?_, rfl⟩
  · exact congrArg Wini.openCt (update_of_ne apart _ _)
  · unfold Drives.setState
    dsimp only
    rw [update_self]

section

variable (less : drive < maxDrives)
include less

theorem driveOf_wholeDrive : driveOf (wholeDrive drive).toNat = drive := by
  unfold maxDrives at less
  unfold driveOf wholeDrive devPerDrive maxDrives
  rw [if_pos (by omega)]
  omega

theorem uncounted_setSize (size : UInt64) :
    Uncounted drive s (s.setSize drive size) := by
  refine ⟨⟨rfl, rfl, fun _ _ => rfl, fun _ _ => rfl, fun dv apart => ?_⟩, rfl, rfl⟩
  refine update_of_ne (fun same => apart ?_) _ _
  rw [same, driveOf_wholeDrive less]

theorem uncounted_wIdentify (identified : Identified) :
    Uncounted drive s (wIdentify drive identified s).2 := by
  cases identified with
  | nothing => exact .refl
  | unspecified size => exact uncounted_setSize less _
  | drive kind size => exact (uncounted_setSize less _).trans (uncounted_setState _)

end

/-- What an open does: the first successful one is counted, and reads the partition table. -/
structure Opened (drive : Nat) (s : Drives) (reply : Reply) (s' : Drives) : Prop
    extends OnlyDrive drive s s' where
  count : (s'.wini drive).openCt =
    if reply = .ok ∧ (s.wini drive).openCt = 0 then 1 else (s.wini drive).openCt
  parted : s'.parted drive =
    if reply = .ok ∧ (s.wini drive).openCt = 0 then s.parted drive + 1 else s.parted drive

theorem Uncounted.opened (uncounted : Uncounted drive s s')
    (later : reply = .ok → (s.wini drive).openCt ≠ 0) : Opened drive s reply s' := by
  have none : ¬(reply = .ok ∧ (s.wini drive).openCt = 0) := fun ⟨ok, zero⟩ => later ok zero
  refine ⟨uncounted.toOnlyDrive, ?_, ?_⟩
  · rw [if_neg none, uncounted.count]
  · rw [if_neg none, uncounted.parted]

theorem Uncounted.thenOpened (uncounted : Uncounted drive s middle)
    (opened : Opened drive middle reply s') : Opened drive s reply s' := by
  refine ⟨uncounted.toOnlyDrive.trans opened.toOnlyDrive, ?_, ?_⟩
  · rw [opened.count, uncounted.count]
  · rw [opened.parted, uncounted.count, uncounted.parted]

theorem wPartition_opened (less : drive < maxDrives) (first : (s.wini drive).openCt = 0)
    (done : wPartition drive answers s = some s') :
    Opened drive s .ok s' := by
  unfold wPartition at done
  dsimp only at done
  split at done
  case isTrue more => cases done
  case isFalse ended =>
    obtain rfl := some.inj done
    refine ⟨?_, ?_, ?_⟩
    · refine OnlyDrive.trans ?_ (onlyDrive_setCount _)
      refine ⟨rfl, rfl, fun _ _ => rfl, fun _ apart => update_of_ne apart _ _, ?_⟩
      exact fun dv apart => partition_keeps answers.fuel ⟨drive, less⟩ apart rfl
    · rw [if_pos ⟨rfl, first⟩]
      refine (congrArg Wini.openCt (update_self ..)).trans ?_
      rw [first]
      rfl
    · rw [if_pos ⟨rfl, first⟩]
      exact update_self ..

theorem wFirstOpen_opened (less : drive < maxDrives) {write : Bool}
    (done : wFirstOpen drive write answers s = some (reply, s')) : Opened drive s reply s' := by
  unfold wFirstOpen at done
  split at done
  case isTrue first =>
    split at done
    case isTrue packets =>
      split at done
      case isTrue writing =>
        cases done
        exact Uncounted.refl.opened fun wrong => by cases wrong
      case isFalse reading =>
        obtain ⟨_, parted, same⟩ := map_eq_some_iff.mp done
        cases same
        have sized : Uncounted drive s (atapiOpen drive s) := uncounted_setSize less _
        exact sized.thenOpened (wPartition_opened less (sized.count.trans first) parted)
    case isFalse disk =>
      obtain ⟨_, parted, same⟩ := map_eq_some_iff.mp done
      cases same
      exact wPartition_opened less first parted
  case isFalse later =>
    cases done
    exact Uncounted.refl.opened fun _ => later

theorem driveOf_lt {device : Int} {dv : Nat} (found : hardDisk maxDrives device = some dv) :
    driveOf dv < maxDrives := by
  unfold hardDisk minorD0p0s0 devPerDrive maxDrives at found
  unfold driveOf maxDrives
  split_ifs at found ⊢ <;> simp only [Option.some.injEq] at found <;> omega

theorem wDoOpen_opened {device : Int} {dv : Nat} (found : hardDisk maxDrives device = some dv)
    {write : Bool} (done : wDoOpen device write answers s = some (reply, s')) :
    Opened (driveOf dv) s reply s' := by
  have less := driveOf_lt found
  unfold wDoOpen at done
  rw [found] at done
  dsimp only at done
  split at done
  case isTrue unknown =>
    have identified := uncounted_wIdentify (s := s) less answers.identified
    split at done
    case h_1 middle failed =>
      cases done
      rw [failed] at identified
      exact (identified.trans (uncounted_setState 0)).opened fun wrong => by cases wrong
    case h_2 middle worked =>
      rw [worked] at identified
      exact identified.thenOpened (wFirstOpen_opened less done)
  case isFalse known => exact wFirstOpen_opened less done

end Requests

/-! ### Runs -/

section Runs

variable {drive : Nat} {s s' : Drives} {action : Action} {device : Int}

theorem counted_of_ne {count : Nat → Nat} {dv : Nat} {reply : Reply}
    (found : hardDisk maxDrives device = some dv) (apart : drive ≠ driveOf dv) :
    counted count device reply drive = count drive := by
  unfold counted
  rw [found]
  split
  · exact update_of_ne apart _ _
  · rfl

theorem counted_self {count : Nat → Nat} {dv : Nat} {reply : Reply}
    (found : hardDisk maxDrives device = some dv) :
    counted count device reply (driveOf dv) =
      if reply = .ok then count (driveOf dv) + 1 else count (driveOf dv) := by
  unfold counted
  rw [found]
  split
  · exact (update_self ..).trans (if_pos rfl).symm
  case h_2 wrong => exact (if_neg wrong).symm

/-- A step is right for a drive, and keeps its count right. -/
def Keeps (drive : Nat) (s s' : Drives) : Prop :=
  CountRight s drive → CountRight s' drive ∧ StepRight drive s s'

theorem keeps_of_same (count : (s'.wini drive).openCt = (s.wini drive).openCt)
    (opens : s'.opens drive = s.opens drive) (closes : s'.closes drive = s.closes drive)
    (parted : s'.parted drive = s.parted drive)
    (devices : ∀ dv, driveOf dv = drive → s'.devices dv = s.devices dv) : Keeps drive s s' := by
  intro right
  refine ⟨?_, by omega, .inl parted, fun _ => devices⟩
  unfold CountRight
  rw [count, closes, opens]
  exact right

theorem open_keeps {write : Bool} {answers : Answers}
    (alone : Alone s (.doOpen device write answers))
    (done : step s (.doOpen device write answers) = some s') (other : Nat) : Keeps other s s' := by
  obtain ⟨⟨reply, middle⟩, opened, rfl⟩ := map_eq_some_iff.mp done
  cases found : hardDisk maxDrives device with
  | none =>
    unfold wDoOpen at opened
    rw [found] at opened
    cases opened
    exact keeps_of_same rfl rfl rfl rfl fun _ _ => rfl
  | some dv =>
    have spec := wDoOpen_opened found opened
    by_cases apart : other = driveOf dv
    case neg =>
      refine keeps_of_same (spec.counts other apart) ?_ (congrFun spec.closes other)
        (spec.parteds other apart) fun dv' here => spec.devices dv' (here ▸ apart)
      exact (counted_of_ne found apart).trans (congrFun spec.opens other)
    case pos =>
      subst apart
      intro right
      have none := alone dv found
      have zero : (s.wini (driveOf dv)).openCt = 0 := by
        refine UInt32.toNat_inj.mp ?_
        unfold CountRight at right
        rw [UInt32.toNat_zero]
        omega
      have count := spec.count
      have parted := spec.parted
      have opens : counted middle.opens device reply (driveOf dv) = _ := counted_self found
      have closes := congrFun spec.closes (driveOf dv)
      rw [congrFun spec.opens] at opens
      simp only [zero, and_true] at count parted
      split at opens
      case isTrue ok =>
        rw [if_pos ok] at count parted
        refine ⟨?_, ?_, .inr parted, fun some => by omega⟩
        · unfold CountRight
          dsimp only
          rw [count, opens, closes, none, UInt32.toNat_one, Nat.add_comm]
        · exact iff_of_true parted ⟨none, opens⟩
      case isFalse failed =>
        rw [if_neg failed] at count parted
        refine ⟨?_, ?_, .inl parted, fun some => by omega⟩
        · unfold CountRight
          dsimp only
          rw [count, opens, closes, none, UInt32.toNat_zero, Nat.zero_add]
        · dsimp only
          omega

theorem close_keeps (issued : Issued s (.doClose device))
    (done : step s (.doClose device) = some s') (other : Nat) : Keeps other s s' := by
  have closed : some { (wDoClose device s).2 with
      closes := counted (wDoClose device s).2.closes device (wDoClose device s).1 } = some s' := done
  cases found : hardDisk maxDrives device with
  | none =>
    have nothing : wDoClose device s = (.enxio, s) := by rw [wDoClose, found]
    rw [nothing] at closed
    obtain rfl := some.inj closed
    exact keeps_of_same rfl rfl rfl rfl fun _ _ => rfl
  | some dv =>
    have less : wDoClose device s =
        (.ok, s.setCount (driveOf dv) ((s.wini (driveOf dv)).openCt - 1)) := by rw [wDoClose, found]
    rw [less] at closed
    obtain rfl := some.inj closed
    by_cases apart : other = driveOf dv
    case neg =>
      refine keeps_of_same ?_ rfl ?_ rfl fun _ _ => rfl
      · exact congrArg Wini.openCt (update_of_ne apart _ _)
      · dsimp only
        exact counted_of_ne found apart
    case pos =>
      subst apart
      intro right
      have open' := issued dv found
      have closes : counted s.closes device .ok (driveOf dv) = s.closes (driveOf dv) + 1 :=
        (counted_self found).trans (if_pos rfl)
      refine ⟨?_, ?_, .inl rfl, fun _ _ _ => rfl⟩
      · unfold CountRight Drives.setCount at *
        dsimp only at closes ⊢
        rw [update_self, closes]
        have one : (1 : UInt32).toNat = 1 := rfl
        rw [UInt32.toNat_sub_of_le _ _ (UInt32.le_iff_toNat_le.mpr (by omega)), one]
        omega
      · unfold Drives.setCount
        dsimp only
        omega

theorem step_keeps (issued : Issued s action) (alone : Alone s action)
    (done : step s action = some s') (other : Nat) : Keeps other s s' := by
  cases action with
  | doOpen device write answers => exact open_keeps alone done other
  | doClose device => exact close_keeps issued done other
  | bits state =>
    obtain rfl := some.inj done
    exact keeps_of_same rfl rfl rfl rfl fun _ _ => rfl

/-- In every run in which a drive is opened only while none of its partitions is open, the count of a
drive is the number of its opens less that of its closes, and every step is right. -/
theorem open_count_right {wini : Nat → UInt8} {devices : Nat → Device} {actions : List Action}
    (run : Run step (fun s action => Issued s action ∧ Alone s action) (booted wini devices) actions
      s) :
    (∀ drive, CountRight s drive) ∧ ∀ action s', Issued s action → Alone s action →
      step s action = some s' → ∀ drive, StepRight drive s s' := by
  have right : ∀ drive, CountRight s drive := by
    refine @Run.invariant _ _ _ _ _ _ _ (fun s => ∀ drive, CountRight s drive) ?_ ?_ run
    · intro drive
      rfl
    intro state label after right allowed done drive
    exact (step_keeps allowed.1 allowed.2 done drive (right drive)).1
  exact ⟨right, fun action s' issued alone done drive =>
    (step_keeps issued alone done drive (right drive)).2⟩

/-- A drive of a hundred sectors without a partition table. -/
def unreadable : Answers := ⟨.drive 0x04 100, fun _ => none, 1⟩

/-- Two partitions are opened and closed one after the other, and the first one again. -/
def inTurn : List Action :=
  [.doOpen 1 false unreadable, .doClose 1, .doOpen 2 false unreadable, .doClose 2,
    .doOpen 1 false unreadable]

theorem inTurn_run : ∃ s, Run step (fun s action => Issued s action ∧ Alone s action)
    (booted (fun _ => 0) fun _ => ⟨0, 0⟩) inTurn s ∧ Issued s (.doClose 1) := by
  refine ⟨_, .snoc (.snoc (.snoc (.snoc (.snoc .nil ⟨trivial, ?_⟩ rfl) ⟨?_, trivial⟩ rfl)
    ⟨trivial, ?_⟩ rfl) ⟨?_, trivial⟩ rfl) ⟨trivial, ?_⟩ rfl, ?_⟩ <;>
  · intro dv found
    obtain rfl := some.inj found
    decide

/-- The counts are right, and so is the close that follows. -/
theorem open_count_right_once :
    ∃ s s', Run step Issued (booted (fun _ => 0) fun _ => ⟨0, 0⟩) inTurn s ∧
      step s (.doClose 1) = some s' ∧ ∀ drive, CountRight s drive ∧ StepRight drive s s' := by
  obtain ⟨s, run, issued⟩ := inTurn_run
  obtain ⟨right, steps⟩ := open_count_right run
  exact ⟨s, _, run.weaken fun _ _ _ => And.left, rfl, fun drive =>
    ⟨right drive, steps _ _ issued trivial rfl drive⟩⟩

/-- Two partitions are open at once, and both are closed. -/
theorem count_wraps :
    ¬∀ actions s, Run step Issued (booted (fun _ => 0) fun _ => ⟨0, 0⟩) actions s →
      ∀ drive, CountRight s drive := by
  intro right
  have run := right [.doOpen 1 false unreadable, .doOpen 2 false unreadable, .doClose 1, .doClose 2] _
    (.snoc (.snoc (.snoc (.snoc .nil trivial rfl) trivial rfl) ?_ rfl) ?_ rfl) 0
  · have wrong : 4294967295 + 2 = 2 := run
    exact absurd wrong (by decide)
  · intro dv found
    obtain rfl := some.inj found
    exact Nat.zero_lt_two
  · intro dv found
    obtain rfl := some.inj found
    exact Nat.one_lt_two

end Runs

end Minix.Drive
