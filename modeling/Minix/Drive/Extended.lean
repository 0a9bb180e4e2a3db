/-
This file proves when the walk over the tables of an extended partition ends, and when each table is
read from the sector that its link names.

Four logical partitions end the walk, and so does a table without a link. Tables that only have links
use nothing up, and the links may then come back to a table (`links_without_end`). Where a table is
read is counted in bytes modulo `2 ^ 32`, which a link beyond four gigabytes wraps around.
-/

import Minix.Drive.Containment

namespace Minix.Drive

open Library (walk Visits Ends Cycles ends_iff)

/-- `extpartition` for a partition of a hard disk drive that has just been set up. -/
def walkExtended (fuel : Nat) {drives : Nat} (drive : Fin drives) (par : Fin 4) (disk : Sectors)
    (devices : Nat → Device) (base limit : UInt32) (pe : PartEntry) : Parts :=
  let ext := partDevice base limit pe
  extpartition fuel (hardDisk drives) disk ext (partDev drive par) (shrink base limit pe).1
    { devices := Function.update devices (partDev drive par).toNat ext }

/-- A link is not so far away that its position wraps around, or the position where it wraps to is
not read. -/
def LinkRight (ext : Device) (offset : UInt32) : Prop :=
  offset.toNat < 2 ^ 23 ∨ cv64ul ext.size ≤ offset <<< 9

section Walking

variable {base limit : UInt32} {pe : PartEntry} {offset sector : UInt32}

theorem toNat_shiftSector (offset : UInt32) :
    (offset <<< 9).toNat = 512 * (offset.toNat % 2 ^ 23) := by
  rw [UInt32.toNat_shiftLeft, show (9 : UInt32).toNat % 32 = 9 from rfl, Nat.shiftLeft_eq]
  omega

theorem toNat_cv64ul_le (i : UInt64) : (cv64ul i).toNat ≤ i.toNat := by
  unfold cv64ul
  split
  case isTrue small =>
    rw [UInt64.toNat_toUInt32]
    exact Nat.mod_le _ _
  case isFalse large =>
    have most : (0xffffffff : UInt32).toNat = 2 ^ 32 - 1 := rfl
    omega

theorem toNat_sectorAt (read : sectorAt (partDevice base limit pe) (offset <<< 9) = some sector) :
    sector.toNat = (shrink base limit pe).1.toNat + offset.toNat % 2 ^ 23 := by
  unfold sectorAt at read
  split at read
  · cases read
  case isFalse inside =>
    obtain rfl := Option.some.inj read
    have less := UInt32.not_le.mp inside
    rw [UInt32.lt_iff_toNat_lt, toNat_shiftSector] at less
    have within := less.trans_le (toNat_cv64ul_le _)
    obtain ⟨-, ordered, -⟩ := shrink_inside base limit pe
    have upper := (shrink base limit pe).2.toNat_lt
    have count := toNat_partCount base limit pe
    rw [partDevice_eq] at within ⊢
    rw [toNat_mul64u] at within
    rw [toNat_div64u, UInt64.toNat_add, toNat_mul64u, UInt32.toNat_toUInt64, toNat_shiftSector]
    omega

/-- A table that is read is read from the sector that its link names, if the link is right. -/
theorem read_right_iff : (∀ sector, sectorAt (partDevice base limit pe) (offset <<< 9) = some sector →
      sector.toNat = (shrink base limit pe).1.toNat + offset.toNat) ↔
    LinkRight (partDevice base limit pe) offset := by
  unfold LinkRight
  constructor
  · intro named
    by_cases outside : cv64ul (partDevice base limit pe).size ≤ offset <<< 9
    · exact .inr outside
    · have read : sectorAt (partDevice base limit pe) (offset <<< 9) = some _ := if_neg outside
      have same := (toNat_sectorAt read).symm.trans (named _ read)
      refine .inl ?_
      omega
  · rintro (near | outside) sector read
    · rw [toNat_sectorAt read, Nat.mod_eq_of_lt near]
    · unfold sectorAt at read
      rw [if_pos outside] at read
      cases read

end Walking

section Whole

variable {drives : Nat} (drive : Fin drives) (par : Fin 4) (disk : Sectors) (devices : Nat → Device)
  (base limit : UInt32) (pe : PartEntry)

theorem walkExtended_rounds (fuel : Nat) :
    Rounds (hardDisk drives) disk (partDevice base limit pe) (partDevice base limit pe)
      (firstSub (partDev drive par)) (shrink base limit pe).1 (fun _ _ => True) .first fuel
      { devices := Function.update devices (partDev drive par).toNat (partDevice base limit pe) }
      (walkExtended fuel drive par disk devices base limit pe) :=
  extpartition_rounds (room_hardDisk drive par) (hardDisk_partDev drive par) fuel
    (Function.update_self ..) rfl

theorem walkExtended_ends :
    (∃ fuel, (walkExtended fuel drive par disk devices base limit pe).running = false) ↔
      Ends (nextTable disk (partDevice base limit pe)) .first := by
  refine exists_congr fun fuel => ?_
  rw [(walkExtended_rounds drive par disk devices base limit pe fuel).running]
  exact Option.isSome_eq_false_iff.trans Option.isNone_iff_eq_none

theorem walkExtended_reads (fuel : Nat) (read : UInt32 × UInt32) :
    read ∈ (walkExtended fuel drive par disk devices base limit pe).reads ↔
      ∃ place, Visits (nextTable disk (partDevice base limit pe)) .first fuel place ∧
        read.1 = place.offset ∧
        sectorAt (partDevice base limit pe) (place.offset <<< 9) = some read.2 :=
  ((walkExtended_rounds drive par disk devices base limit pe fuel).reads read).trans
    (or_iff_right List.not_mem_nil)

/-- The walk over an extended partition ends, and reads each table from the sector that its link
names, exactly if no table is come to again with as many logical partitions found, and no link that
is followed wraps around to a sector that is read. -/
theorem extpartition_walk_iff :
    ((∃ fuel, (walkExtended fuel drive par disk devices base limit pe).running = false) ∧
      ∀ fuel, ∀ read ∈ (walkExtended fuel drive par disk devices base limit pe).reads,
        read.2.toNat = (shrink base limit pe).1.toNat + read.1.toNat) ↔
    ¬Cycles (nextTable disk (partDevice base limit pe)) .first ∧
      ∀ fuel place, Visits (nextTable disk (partDevice base limit pe)) .first fuel place →
        LinkRight (partDevice base limit pe) place.offset := by
  rw [walkExtended_ends, ends_iff]
  refine and_congr_right fun _ => forall_congr' fun fuel => ?_
  simp only [walkExtended_reads, ← read_right_iff]
  constructor
  · intro named place visits sector read
    exact named (place.offset, sector) ⟨place, visits, rfl, read⟩
  · rintro named ⟨offset, sector⟩ ⟨place, visits, rfl, read⟩
    exact named place visits sector read

/-- A disk on which every sector has a table with a single link, to the ninth sector. -/
def selfLink : Sectors := fun _ => some (oneEntry 0x05 8 0)

/-- A table that links to itself is read for ever. -/
theorem links_without_end :
    ¬∃ fuel, (walkExtended fuel (0 : Fin 1) 0 selfLink (fun _ => ⟨0, 0⟩) 0 100 ⟨0x05, 1, 99⟩).running =
      false := by
  rw [walkExtended_ends]
  have cycles : Cycles (nextTable selfLink (partDevice 0 100 ⟨0x05, 1, 99⟩)) .first :=
    ⟨1, 2, ⟨8, 0⟩, Nat.lt_succ_self 1, by decide, by decide⟩
  exact cycles.not_ends

end Whole

end Minix.Drive
