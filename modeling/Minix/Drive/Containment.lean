/-
This file proves when the devices that `partition` sets up lie inside the devices that they are parts
of, and that no sector of the one is outside the other then.

Partitions and subpartitions are shrunk to fit. A logical partition is not: where it starts is added
up modulo `2 ^ 32` from three sector numbers on the disk, and its size is taken as it is
(`logical_partition_outside`).
-/

import Minix.Drive.Chain

namespace Minix.Drive

open Library (walk Visits)

/-! ### Containment -/

/-- A sector of the disk belongs to a device. -/
def Device.Holds (dv : Device) (sector : Nat) : Prop :=
  dv.base.toNat ≤ 512 * sector ∧ 512 * (sector + 1) ≤ dv.base.toNat + dv.size.toNat

/-- A device that is not empty lies within the device that it is a part of, and so does every sector
that a request for it can touch. -/
def Contained (parent device : Device) : Prop :=
  device.size ≠ 0 →
    (parent.base.toNat ≤ device.base.toNat ∧
      device.base.toNat + device.size.toNat ≤ parent.base.toNat + parent.size.toNat) ∧
    ∀ sector, device.Holds sector → parent.Holds sector

/-- The entry of a logical partition in the table at an offset: it is empty, or it ends within the
sectors of the extended partition. -/
def EntryFits (count offset : UInt32) (pe : PartEntry) : Prop :=
  pe.size = 0 ∨ (offset + pe.lowsec).toNat + pe.size.toNat ≤ count.toNat

/-- How many sectors an entry of a table leaves for a partition. -/
def partCount (base limit : UInt32) (pe : PartEntry) : UInt32 :=
  (shrink base limit pe).2 - (shrink base limit pe).1

/-- The entries that get a device fit, in the tables of an extended partition that are looked at in
some number of rounds. -/
def LogicalsFit (fuel : Nat) (disk : Sectors) (base limit : UInt32) (pe : PartEntry) : Prop :=
  extPart pe.sysind → ∀ place, Visits (nextTable disk (partDevice base limit pe)) .first fuel place →
    ∀ pe' ∈ placed disk (partDevice base limit pe) place,
      EntryFits (partCount base limit pe) place.offset pe'

/-- The chain of an extended partition comes to its end. -/
def ChainEnds (fuel : Nat) (disk : Sectors) (base limit : UInt32) (pe : PartEntry) : Prop :=
  extPart pe.sysind → walk (nextTable disk (partDevice base limit pe)) .first fuel = none

/-- The entries of a table fit, up to the first one whose chain has not come to its end. -/
def AllFit (fits ends : PartEntry → Prop) : List PartEntry → Prop
  | [] => True
  | pe :: rest => fits pe ∧ (ends pe → AllFit fits ends rest)

/-! ### Geometry -/

section Geometry

variable {base limit : UInt32} {pe : PartEntry} {parent : Device}

theorem toNat_mul64u (i : UInt32) : (mul64u i).toNat = 512 * i.toNat := by
  have small := i.toNat_lt
  unfold mul64u
  rw [UInt64.toNat_mul, UInt32.toNat_toUInt64, show (512 : UInt64).toNat = 512 from rfl]
  omega

theorem toNat_div64u (i : UInt64) : (div64u i).toNat = i.toNat / 512 % 2 ^ 32 := by
  unfold div64u
  rw [UInt64.toNat_toUInt32, UInt64.toNat_div]
  rfl

theorem div64u_mul64u (i : UInt32) : div64u (mul64u i) = i := by
  have small := i.toNat_lt
  refine UInt32.toNat_inj.mp ?_
  rw [toNat_div64u, toNat_mul64u]
  omega

section

variable (base limit pe)

/-- A partition starts behind the start of the device, and unless it is empty it ends before the end
of the device. -/
theorem shrink_inside :
    base.toNat ≤ (shrink base limit pe).1.toNat ∧
      (shrink base limit pe).1.toNat ≤ (shrink base limit pe).2.toNat ∧
      ((shrink base limit pe).1.toNat < (shrink base limit pe).2.toNat →
        (shrink base limit pe).2.toNat ≤ limit.toNat) := by
  unfold shrink
  simp only [gt_iff_lt, UInt32.lt_iff_toNat_lt]
  split_ifs <;> omega

theorem toNat_partCount :
    (partCount base limit pe).toNat =
      (shrink base limit pe).2.toNat - (shrink base limit pe).1.toNat :=
  UInt32.toNat_sub_of_le _ _ (UInt32.le_iff_toNat_le.mpr (shrink_inside base limit pe).2.1)

theorem partDevice_eq :
    partDevice base limit pe =
      ⟨mul64u (shrink base limit pe).1, mul64u (partCount base limit pe)⟩ := rfl

end

theorem Contained.of_bounds {parent device : Device}
    (bounds : device.size ≠ 0 → parent.base.toNat ≤ device.base.toNat ∧
      device.base.toNat + device.size.toNat ≤ parent.base.toNat + parent.size.toNat) :
    Contained parent device := by
  intro some
  obtain ⟨lower, upper⟩ := bounds some
  exact ⟨⟨lower, upper⟩, fun sector ⟨first, last⟩ => ⟨lower.trans first, last.trans upper⟩⟩

theorem size_ne_zero {device : Device} (some : device.size ≠ 0) : 0 < device.size.toNat :=
  Nat.pos_of_ne_zero fun zero => some (UInt64.toNat_inj.mp zero)

/-- What is shrunk to fit a device that starts with a sector lies within it. -/
theorem partDevice_contained {start : UInt32} (aligned : parent.base = mul64u start)
    (pe : PartEntry) : Contained parent
      (partDevice (div64u parent.base) (div64u parent.base + div64u parent.size) pe) := by
  refine .of_bounds fun some => ?_
  have nonempty := size_ne_zero some
  rw [aligned, div64u_mul64u] at nonempty ⊢
  obtain ⟨lower, ordered, upper⟩ := shrink_inside start (start + div64u parent.size) pe
  have count := toNat_partCount start (start + div64u parent.size) pe
  rw [UInt32.toNat_add, toNat_div64u] at upper
  simp only [partDevice_eq, toNat_mul64u] at nonempty ⊢
  omega

/-- A logical partition lies within its extended partition exactly if its entry fits. -/
theorem logical_contained_iff (base limit offset : UInt32) (pe pe' : PartEntry) :
    Contained (partDevice base limit pe) (logical ((shrink base limit pe).1 + offset) pe') ↔
      EntryFits (partCount base limit pe) offset pe' := by
  have count := toNat_partCount base limit pe
  obtain ⟨-, ordered, -⟩ := shrink_inside base limit pe
  have small := (shrink base limit pe).2.toNat_lt
  have less := (offset + pe'.lowsec).toNat_lt
  have start : ((shrink base limit pe).1 + offset + pe'.lowsec).toNat =
      ((shrink base limit pe).1.toNat + (offset + pe'.lowsec).toNat) % 2 ^ 32 := by
    rw [UInt32.add_assoc, UInt32.toNat_add]
  unfold EntryFits
  rcases eq_or_ne pe'.size 0 with empty | some
  · refine iff_of_true (fun wrong => absurd ?_ wrong) (.inl empty)
    rw [logical, empty]
    rfl
  · have nonempty : 0 < pe'.size.toNat :=
      Nat.pos_of_ne_zero fun zero => some (UInt32.toNat_inj.mp zero)
    have nonempty' : (logical ((shrink base limit pe).1 + offset) pe').size ≠ 0 := by
      intro zero
      have none := congrArg UInt64.toNat zero
      rw [logical, toNat_mul64u, UInt64.toNat_zero] at none
      omega
    rw [or_iff_right some]
    constructor
    · intro contained
      obtain ⟨⟨lower, upper⟩, -⟩ := contained nonempty'
      simp only [partDevice_eq, logical, toNat_mul64u, start] at lower upper
      omega
    · intro fits
      refine .of_bounds fun _ => ?_
      simp only [partDevice_eq, logical, toNat_mul64u, start]
      omega

end Geometry

/-! ### The loop over the partitions -/

section Loop

variable {driver : Driver} {disk : Sectors} {parent : Device} {base limit : UInt32} {s : Parts}
  {inner : Int → Device → PartEntry → Parts → Parts} {good : Device → Device → Prop}
  {fits ends : PartEntry → Prop} {known : Int → Nat → Prop}

/-- What is done with a partition after it has been set up, in terms of its entry. -/
def InnerRight (known : Int → Nat → Prop) (base limit : UInt32) (good : Device → Device → Prop)
    (fits ends : PartEntry → Prop) (inner : Int → Device → PartEntry → Parts → Parts) : Prop :=
  ∀ pe device dv s, known device dv → s.devices dv = partDevice base limit pe →
    s.running = false →
    ((inner device (partDevice base limit pe) { pe with lowsec := (shrink base limit pe).1 } s).All
      good ↔ s.All good ∧ fits pe) ∧
    ((inner device (partDevice base limit pe) { pe with lowsec := (shrink base limit pe).1 } s).running =
      false ↔ ends pe)

theorem partLoop_iff (right : InnerRight known base limit good fits ends inner)
    (shrunk : ∀ pe, good parent (partDevice base limit pe)) (table : List PartEntry) (device : Int)
    (dv : Nat) (places : ∀ k < table.length, known (device + (k : Nat)) (dv + k))
    (running : s.running = false) :
    (partLoop inner parent base limit table device dv s).All good ↔
      s.All good ∧ AllFit fits ends table := by
  induction table generalizing device dv s with
  | nil => exact (and_iff_left trivial).symm
  | cons pe rest inductionHypothesis =>
    have here : known device dv := by
      have first := places 0 (Nat.succ_pos _)
      rwa [Nat.cast_zero, add_zero] at first
    obtain ⟨all, ended⟩ := right pe device dv (s.set parent dv (partDevice base limit pe)) here
      (Function.update_self ..) running
    rw [Parts.all_set, and_iff_right (shrunk pe)] at all
    unfold partLoop AllFit
    dsimp only
    split
    case isTrue more =>
      rw [all]
      refine and_congr_right fun _ => (and_iff_left fun ends => ?_).symm
      rw [ended.mpr ends] at more
      cases more
    case isFalse done =>
      have ends := ended.mp (Bool.eq_false_iff.mpr done)
      rw [inductionHypothesis (device + 1) (dv + 1) ?_ (Bool.eq_false_iff.mpr done), all, and_assoc,
        imp_iff_right ends]
      intro k less
      have next := places (k + 1) (Nat.succ_lt_succ less)
      rw [Nat.cast_add, Nat.cast_one] at next
      rw [add_assoc, add_comm 1, add_assoc, add_comm 1 k]
      exact next

theorem allFit_true (table : List PartEntry) : AllFit (fun _ => True) (fun _ => True) table := by
  induction table with
  | nil => trivial
  | cons pe rest inductionHypothesis => exact ⟨trivial, fun _ => inductionHypothesis⟩

theorem partLoop_running (table : List PartEntry) (device : Int) (dv : Nat)
    (running : s.running = false) :
    (partLoop (fun _ _ _ s => s) parent base limit table device dv s).running = false := by
  induction table generalizing device dv s with
  | nil => exact running
  | cons pe rest inductionHypothesis =>
    have still : (s.set parent dv (partDevice base limit pe)).running = false := running
    unfold partLoop
    rw [if_neg (Bool.eq_false_iff.mp still)]
    exact inductionHypothesis _ _ still

end Loop

/-! ### Tables of partitions -/

theorem length_sortFrom (pe0 : PartEntry) (rest : List PartEntry) :
    (sortFrom pe0 rest).length = rest.length + 1 := by
  induction rest generalizing pe0 with
  | nil => rfl
  | cons pe1 rest inductionHypothesis =>
    unfold sortFrom
    split <;> rw [List.length_cons, inductionHypothesis, List.length_cons]

theorem length_sortRound (table : List PartEntry) : (sortRound table).length = table.length := by
  cases table with
  | nil => rfl
  | cons pe0 rest => exact length_sortFrom pe0 rest

theorem length_sort (table : List PartEntry) : (sort table).length = table.length := by
  unfold sort
  simp only [Function.iterate_succ_apply, Function.iterate_zero_apply, length_sortRound]

theorem length_partTable {tmpBuf : Disk.Block} {table : List PartEntry}
    (valid : partTable tmpBuf = some table) : table.length = 4 := by
  obtain ⟨-, valid⟩ := Option.ite_none_left_eq_some.mp valid
  cases valid
  rfl

theorem length_tableAt {disk : Sectors} {ext : Device} {offset : UInt32} {table : List PartEntry}
    (found : tableAt disk ext offset = some table) : table.length = 4 := by
  obtain ⟨tmpBuf, -, valid⟩ := Option.bind_eq_some_iff.mp found
  exact length_partTable valid

/-- The table as `partition` goes through it. -/
def inOrder (style : Style) (table : List PartEntry) : List PartEntry :=
  if style = .primary then sort table else table

theorem length_inOrder (style : Style) (table : List PartEntry) :
    (inOrder style table).length = table.length := by
  unfold inOrder
  split
  · exact length_sort table
  · rfl

/-! ### One table -/

section Table

variable {driver : Driver} {disk : Sectors} {device : Int} {dv : Nat} {start : UInt32} {s : Parts}
  {style : Style} {inner : Int → Device → PartEntry → Parts → Parts} {fits ends : PartEntry → Prop}
  {known : Int → Nat → Prop}

theorem partitionWith_iff (here : driver device = some dv)
    (aligned : (s.devices dv).base = mul64u start) (running : s.running = false)
    (right : InnerRight known (div64u (s.devices dv).base)
      (div64u (s.devices dv).base + div64u (s.devices dv).size) Contained fits ends inner)
    (places : ∀ first ∈ driver (firstPart device style), ∀ k < 4,
      known (firstPart device style + (k : Nat)) (first + k)) :
    (partitionWith driver disk style inner device s).All Contained ↔
      s.All Contained ∧ ((s.devices dv).size ≠ 0 → ∀ table ∈ tableAt disk (s.devices dv) 0,
        driver (firstPart device style) ≠ none → AllFit fits ends (inOrder style table)) := by
  have table : getPartTable driver disk s.devices device 0 = tableAt disk (s.devices dv) 0 := by
    rw [getPartTable, tableSector, here]
    rfl
  unfold partitionWith
  rw [here]
  dsimp only
  rw [table]
  split
  case isTrue empty => exact (and_iff_left fun some => absurd empty some).symm
  case isFalse some =>
    rw [imp_iff_right some]
    cases found : tableAt disk (s.devices dv) 0 with
    | none =>
      refine (and_iff_left fun _ wrong => ?_).symm
      cases wrong
    | some entries =>
      have length := length_inOrder style entries
      rw [length_tableAt found] at length
      simp only [Option.mem_some_iff, forall_eq']
      cases first : driver (firstPart device style) with
      | none => exact (and_iff_left fun wrong => absurd rfl wrong).symm
      | some dv' =>
        rw [imp_iff_right (Option.some_ne_none dv')]
        refine partLoop_iff right (partDevice_contained aligned) _ _ _ (fun k less => ?_) running
        exact places dv' first k (length ▸ less)

theorem partitionWith_running (device : Int) (running : s.running = false) :
    (partitionWith driver disk style (fun _ _ _ s => s) device s).running = false := by
  unfold partitionWith
  split
  case h_1 none => exact running
  case h_2 dv here =>
    dsimp only
    split
    case isTrue empty => exact running
    case isFalse some =>
      split
      case h_1 missing => exact running
      case h_2 table found =>
        split
        case h_1 none => exact running
        case h_2 first found => exact partLoop_running _ _ _ running

theorem partitionWith_contained (aligned : ∀ dv ∈ driver device, ∃ start,
      (s.devices dv).base = mul64u start) (running : s.running = false) :
    (partitionWith driver disk style (fun _ _ _ s => s) device s).All Contained ↔
      s.All Contained := by
  cases here : driver device with
  | none =>
    unfold partitionWith
    rw [here]
  | some dv =>
    obtain ⟨start, base⟩ := aligned dv here
    rw [@partitionWith_iff _ _ _ _ _ _ _ _ (fun _ => True) (fun _ => True) (fun _ _ => True) here
      base running
      (fun _ _ _ _ _ _ running => ⟨(and_iff_left trivial).symm, iff_of_true running trivial⟩)
      (fun _ _ _ _ => trivial)]
    exact and_iff_left fun _ table _ _ => allFit_true _

end Table

/-! ### Hard disks -/

section HardDisk

variable {drives : Nat} {disk : Sectors} {base limit : UInt32}

/-- The device numbers of the partitions of a drive, and where their devices are. -/
def IsPart (drive : Nat) (device : Int) (dv : Nat) : Prop :=
  ∃ par : Fin 4, device = partDev drive par ∧ dv = device.toNat

/-- What is done with a primary partition is right if its logical partitions fit. -/
theorem innerParts_right (fuel : Nat) (drive : Fin drives) :
    InnerRight (IsPart drive) base limit Contained (LogicalsFit fuel disk base limit)
      (ChainEnds fuel disk base limit) (innerParts fuel (hardDisk drives) disk) := by
  rintro pe device dv s ⟨par, rfl, rfl⟩ part running
  have here := hardDisk_partDev drive par
  unfold innerParts LogicalsFit ChainEnds
  by_cases ext : extPart pe.sysind
  · have other : pe.sysind ≠ minixPart := by
      intro same
      rw [same] at ext
      revert ext
      decide
    have rounds := @extpartition_rounds (hardDisk drives) disk (partDevice base limit pe)
      (partDevice base limit pe) (shrink base limit pe).1 (partDev drive par) s Contained
      (room_hardDisk drive par) _ here fuel part running
    rw [if_neg other, if_pos ext, imp_iff_right ext, imp_iff_right ext, rounds.setups,
      rounds.running]
    refine ⟨and_congr_right fun _ => ?_, Option.isSome_eq_false_iff.trans Option.isNone_iff_eq_none⟩
    simp only [logical_contained_iff]
  · rw [if_neg ext]
    simp only [ext, false_implies, and_true, iff_true, Bool.false_eq_true]
    split
    case isTrue minix =>
      refine ⟨partitionWith_contained (fun dv known => ?_) running,
        partitionWith_running _ running⟩
      rw [here] at known
      obtain rfl := Option.some.inj known
      rw [part]
      exact ⟨_, rfl⟩
    case isFalse other => exact ⟨Iff.rfl, running⟩

end HardDisk

/-! ### Drives -/

/-- The devices of a driver before `partition`: each of them starts with a sector. -/
def unpartitioned (starts : Nat → UInt32) (sizes : Nat → UInt64) : Parts where
  devices dv := ⟨mul64u (starts dv), sizes dv⟩

/-- The non-empty logical partitions that are found on a drive fit within their extended
partitions. -/
def PrimaryFits (fuel : Nat) (disk : Sectors) (drive : Device) : Prop :=
  let base := div64u drive.base
  let limit := base + div64u drive.size
  drive.size ≠ 0 → ∀ table ∈ tableAt disk drive 0,
    AllFit (LogicalsFit fuel disk base limit) (ChainEnds fuel disk base limit) (sort table)

theorem hardDisk_wholeDrive {drives : Nat} (drive : Fin drives) :
    hardDisk drives (wholeDrive drive) = some (wholeDrive drive).toNat := by
  have less := drive.isLt
  unfold hardDisk wholeDrive devPerDrive
  rw [if_pos (by omega)]

/-- The devices that are set up for a hard disk drive are contained in their parents exactly if its
logical partitions fit; those of a diskette and of a single partition always are. -/
theorem partition_contained_iff (starts : Nat → UInt32) (sizes : Nat → UInt64) (fuel : Nat)
    (disk : Sectors) :
    (∀ (drives : Nat) (drive : Fin drives),
      (partition fuel (hardDisk drives) disk (wholeDrive drive) .primary
        (unpartitioned starts sizes)).All Contained ↔
          PrimaryFits fuel disk
            ((unpartitioned starts sizes).devices (wholeDrive drive).toNat)) ∧
    ∀ (driver : Driver) (device : Int) (style : Style), style ≠ .primary →
      (partition fuel driver disk device style (unpartitioned starts sizes)).All Contained := by
  have nothing : (unpartitioned starts sizes).All Contained :=
    fun set member => absurd member List.not_mem_nil
  refine ⟨fun drives drive => ?_, fun driver device style secondary => ?_⟩
  · have first : hardDisk drives (firstPart (wholeDrive drive) .primary) =
        some (partDev drive 0).toNat := hardDisk_partDev drive 0
    change (partitionWith _ disk .primary _ _ _).All Contained ↔ _
    rw [partitionWith_iff (hardDisk_wholeDrive drive) rfl rfl (innerParts_right fuel drive),
      and_iff_right nothing]
    · refine imp_congr_right fun _ => forall₂_congr fun table _ => ?_
      exact imp_iff_right (by rw [first]; exact Option.some_ne_none _)
    · intro dv known k less
      rw [first] at known
      obtain rfl := Option.some.inj known
      refine ⟨⟨k, less⟩, rfl, ?_⟩
      unfold firstPart partDev wholeDrive devPerDrive
      dsimp only
      omega
  · have plain : partition fuel driver disk device style (unpartitioned starts sizes) =
        partitionWith driver disk style (fun _ _ _ s => s) device (unpartitioned starts sizes) := by
      cases style with
      | floppy => rfl
      | primary => exact absurd rfl secondary
      | sub => rfl
    rw [plain, partitionWith_contained (fun dv _ => ⟨_, rfl⟩) rfl]
    exact nothing

/-- A drive of a hundred sectors. The extended partition has ten of them; the table in its first
sector has a logical partition of two hundred. -/
def longLogical : Sectors := fun sector =>
  if sector = 0 then some (oneEntry 0x05 1 10)
  else if sector = 1 then some (oneEntry 0x06 1 200)
  else none

/-- The logical partition reaches beyond the extended one. -/
theorem logical_partition_outside :
    ¬∀ (fuel : Nat) (disk : Sectors), (partition fuel (hardDisk 1) disk (wholeDrive 0) .primary
      (unpartitioned (fun _ => 0) (fun _ => 51200))).All Contained := by
  intro contained
  have logicalPart := contained 1 longLogical ⟨⟨512, 5120⟩, 128, ⟨1024, 102400⟩⟩ (by decide)
  obtain ⟨⟨-, inside⟩, -⟩ := logicalPart (by decide)
  revert inside
  decide

end Minix.Drive
