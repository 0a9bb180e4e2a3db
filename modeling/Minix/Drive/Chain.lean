/-
This file describes the chain of the tables of an extended partition, apart from what is done with
them: where the next table is, and which logical partitions get a device.

`extLoop` is then one round for each table of the chain (`extLoop_rounds`). Four logical partitions
take up the devices that there are; after that the chain is not followed any more.
-/

import Minix.Drive.Partition
import Minix.Library.Walk
import Mathlib.Data.Finite.Prod

namespace Minix.Drive

open Library (walk walk_succ Visits visits_succ not_visits_zero)

/-! ### Tables -/

/-- The entries that name logical partitions. -/
def logicals (table : List PartEntry) : List PartEntry :=
  table.filter fun pe => !extPart pe.sysind && pe.sysind ≠ noPart

/-- The last entry that names another table. -/
def link (nextoffset : UInt32) : List PartEntry → UInt32
  | [] => nextoffset
  | pe :: rest => link (if extPart pe.sysind then pe.lowsec else nextoffset) rest

/-- The table that is found at an offset of an extended partition. -/
def tableAt (disk : Sectors) (ext : Device) (offset : UInt32) : Option (List PartEntry) :=
  ((sectorAt ext (offset <<< 9)).bind disk).bind partTable

/-- A sector with a table of a single entry. -/
def oneEntry (sysind lowsec size : UInt8) : Disk.Block := fun i =>
  if i = 510 then 0x55
  else if i = 511 then 0xaa
  else if i = 0x1be + 4 then sysind
  else if i = 0x1be + 8 then lowsec
  else if i = 0x1be + 12 then size
  else 0

/-- A table of the chain: its offset, and how many logical partitions have been found before it. -/
structure Place where
  offset : UInt32
  found : Fin 4
deriving DecidableEq

/-- The first table. -/
def Place.first : Place := ⟨0, 0⟩

/-- The table that is looked at after this one, if there is one. -/
def nextTable (disk : Sectors) (ext : Device) (place : Place) : Option Place :=
  (tableAt disk ext place.offset).bind fun table =>
    let found := place.found + (logicals (sort table)).length
    let nextoffset := link 0 (sort table)
    if more : found < 4 ∧ nextoffset ≠ 0 then some ⟨nextoffset, ⟨found, more.1⟩⟩ else none

/-- The entries of a table that get a device. -/
def placed (disk : Sectors) (ext : Device) (place : Place) : List PartEntry :=
  match tableAt disk ext place.offset with
  | none => []
  | some table => (logicals (sort table)).take (4 - place.found)

instance : Finite Place :=
  Finite.of_injective (fun place => (place.offset.toFin, place.found)) fun one two same => by
    obtain ⟨offset, found⟩ := Prod.mk.inj same
    cases one
    cases two
    exact congrArg₂ Place.mk (UInt32.toFin_inj.mp offset) found

/-! ### The loops -/

/-- Every device that has been set up is good for the device that it is a part of. -/
def Parts.All (good : Device → Device → Prop) (s : Parts) : Prop :=
  ∀ set ∈ s.setups, good set.parent set.device

/-- A logical partition of a table. -/
def logical (start : UInt32) (pe : PartEntry) : Device := ⟨mul64u (start + pe.lowsec), mul64u pe.size⟩

/-- The devices for the logical partitions, which start at a multiple of four, and the device of the
extended partition. -/
structure Room (driver : Driver) (extdev sub : Int) : Prop where
  aligned : sub % 4 = 0
  room : ∀ k < 4, ∃ dv, driver (sub + (k : Nat)) = some dv ∧ driver extdev ≠ some dv

section Loops

variable {driver : Driver} {disk : Sectors} {parent ext : Device} {start extbase : UInt32}
  {extdev sub : Int} {s : Parts} {good : Device → Device → Prop} {pe : PartEntry}

/-- A device other than those for the logical partitions. -/
def Outside (driver : Driver) (sub : Int) (dv : Nat) : Prop :=
  ∀ k < 4, driver (sub + (k : Nat)) ≠ some dv

/-- What a loop changes: the devices are good if those are that it has set up, and they are all that
have been changed. -/
structure Changes (driver : Driver) (sub : Int) (good : Device → Device → Prop) (added : Prop)
    (s s' : Parts) : Prop where
  setups : s'.All good ↔ s.All good ∧ added
  devices : ∀ dv, Outside driver sub dv → s'.devices dv = s.devices dv

theorem Room.outside {dv : Nat} (room : Room driver extdev sub) (here : driver extdev = some dv) :
    Outside driver sub dv := by
  intro k few there
  obtain ⟨dv', placed, apart⟩ := room.room k few
  exact apart (by rw [here, ← there, placed])

theorem Parts.all_set {dv : Nat} {device : Device} :
    (s.set parent dv device).All good ↔ good parent device ∧ s.All good :=
  List.forall_mem_cons

theorem logicals_cons_of_ext {rest : List PartEntry} (ext : extPart pe.sysind) :
    logicals (pe :: rest) = logicals rest := by
  refine List.filter_cons_of_neg ?_
  rw [ext]
  exact Bool.false_ne_true

theorem logicals_cons_of_none {rest : List PartEntry} (none : pe.sysind = noPart) :
    logicals (pe :: rest) = logicals rest := by
  refine List.filter_cons_of_neg ?_
  rw [none, decide_eq_false (not_not.mpr rfl), Bool.and_false]
  exact Bool.false_ne_true

theorem logicals_cons {rest : List PartEntry} (ext : ¬extPart pe.sysind) (some : pe.sysind ≠ noPart) :
    logicals (pe :: rest) = pe :: logicals rest := by
  refine List.filter_cons_of_pos ?_
  rw [Bool.eq_false_iff.mpr ext, decide_eq_true some]
  rfl

/-- The loop over the entries sets up the logical partitions as far as there are devices. -/
theorem extEntries_eq (room : Room driver extdev sub) (table : List PartEntry) {found : Nat}
    (less : found < 4) (nextoffset : UInt32) (s : Parts) :
    ∃ s', Changes driver sub good
        (∀ pe ∈ (logicals table).take (4 - found), good parent (logical start pe)) s s' ∧
      s'.reads = s.reads ∧ s'.running = s.running ∧
      extEntries driver parent start table (sub + found) nextoffset s =
        (s', if found + (logicals table).length < 4 then
          some (link nextoffset table, sub + (found + (logicals table).length : Nat)) else none) := by
  induction table generalizing found nextoffset s with
  | nil =>
    refine ⟨s, ⟨?_, fun _ _ => rfl⟩, rfl, rfl, ?_⟩
    · change _ ↔ _ ∧ ∀ pe ∈ ([] : List PartEntry).take _, _
      rw [List.take_nil]
      exact (and_iff_left fun _ member => absurd member List.not_mem_nil).symm
    · have none : logicals [] = [] := rfl
      rw [none, List.length_nil, Nat.add_zero, if_pos less]
      rfl
  | cons pe rest inductionHypothesis =>
    unfold extEntries
    split
    case isTrue ext =>
      rw [logicals_cons_of_ext ext, link, if_pos ext]
      exact inductionHypothesis less pe.lowsec s
    split
    case isTrue ext none =>
      rw [logicals_cons_of_none none, link, if_neg ext]
      exact inductionHypothesis less nextoffset s
    case isFalse ext some =>
      obtain ⟨dv, here, -⟩ := room.room found less
      rw [logicals_cons ext some, link, if_neg ext, List.length_cons, here]
      dsimp only
      have kept : ∀ other, Outside driver sub other →
          (s.set parent dv (logical start pe)).devices other = s.devices other :=
        fun other outside => Function.update_of_ne
          (fun same => outside found less (by rw [here, same])) _ _
      have aligned := room.aligned
      split
      case isTrue out =>
        have last : found = 3 := by omega
        subst last
        refine ⟨s.set parent dv (logical start pe), ⟨?_, kept⟩, rfl, rfl, ?_⟩
        · rw [Parts.all_set, and_comm]
          refine and_congr_right fun _ => ?_
          change _ ↔ ∀ pe' ∈ [pe], _
          rw [List.forall_mem_singleton]
        · rw [if_neg (by omega)]
          rfl
      case isFalse more =>
        obtain ⟨s', changes, reads, running, rest'⟩ := inductionHypothesis
          (show found + 1 < 4 by omega) nextoffset (s.set parent dv (logical start pe))
        refine ⟨s', ⟨?_, fun other there => (changes.devices other there).trans (kept other there)⟩,
          reads, running, ?_⟩
        · have front : 4 - found = (4 - (found + 1)) + 1 := by omega
          rw [changes.setups, Parts.all_set, front, List.take_succ_cons, List.forall_mem_cons]
          tauto
        · rw [Nat.cast_add, Nat.cast_one, ← add_assoc] at rest'
          rw [show found + ((logicals rest).length + 1) = found + 1 + (logicals rest).length by omega]
          exact rest'

/-- What the rounds of the loop over the chain change. -/
structure Rounds (driver : Driver) (disk : Sectors) (parent ext : Device) (sub : Int)
    (extbase : UInt32) (good : Device → Device → Prop) (place : Place) (n : Nat) (s s' : Parts) : Prop
    extends Changes driver sub good (∀ at', Visits (nextTable disk ext) place n at' →
      ∀ pe ∈ placed disk ext at', good parent (logical (extbase + at'.offset) pe)) s s' where
  reads : ∀ read, read ∈ s'.reads ↔ read ∈ s.reads ∨ ∃ at', Visits (nextTable disk ext) place n at' ∧
    read.1 = at'.offset ∧ sectorAt ext (at'.offset <<< 9) = some read.2
  running : s'.running = (walk (nextTable disk ext) place n).isSome

/-- One round: the table is looked for, and its logical partitions are set up. -/
structure Round (driver : Driver) (disk : Sectors) (parent ext : Device) (sub : Int)
    (extbase : UInt32) (good : Device → Device → Prop) (place : Place) (s s' : Parts) : Prop
    extends Changes driver sub good
      (∀ pe ∈ placed disk ext place, good parent (logical (extbase + place.offset) pe)) s s' where
  reads : s'.reads = (sectorAt ext (place.offset <<< 9)).toList.map (place.offset, ·) ++ s.reads
  running : s'.running = s.running

theorem Round.mem_reads {place : Place} {s' : Parts} {read : UInt32 × UInt32}
    (round : Round driver disk parent ext sub extbase good place s s') :
    read ∈ s'.reads ↔ read ∈ s.reads ∨
      read.1 = place.offset ∧ sectorAt ext (place.offset <<< 9) = some read.2 := by
  rw [round.reads, List.mem_append, or_comm, List.mem_map]
  refine or_congr_right ⟨?_, fun ⟨offset, sector⟩ => ?_⟩
  · rintro ⟨sector, found, rfl⟩
    exact ⟨rfl, Option.mem_toList.mp found⟩
  · exact ⟨read.2, Option.mem_toList.mpr sector, Prod.ext offset.symm rfl⟩

theorem Round.last {place : Place} {s' : Parts} {n : Nat}
    (round : Round driver disk parent ext sub extbase good place s s')
    (last : nextTable disk ext place = none) (running : s.running = false) :
    Rounds driver disk parent ext sub extbase good place (n + 1) s s' := by
  have only (at' : Place) : Visits (nextTable disk ext) place (n + 1) at' ↔ at' = place := by
    rw [visits_succ, last]
    refine or_iff_left ?_
    rintro ⟨second, wrong, -⟩
    cases wrong
  refine ⟨⟨?_, round.devices⟩, fun read => ?_, ?_⟩
  · simp only [only, forall_eq]
    exact round.setups
  · simp only [only, exists_eq_left]
    exact round.mem_reads
  · rw [walk_succ, last, round.running, running]
    rfl

theorem Round.rounds {place second : Place} {middle s' : Parts} {n : Nat}
    (round : Round driver disk parent ext sub extbase good place s middle)
    (next : nextTable disk ext place = some second)
    (rounds : Rounds driver disk parent ext sub extbase good second n middle s') :
    Rounds driver disk parent ext sub extbase good place (n + 1) s s' := by
  have visits (at' : Place) : Visits (nextTable disk ext) place (n + 1) at' ↔
      at' = place ∨ Visits (nextTable disk ext) second n at' := by
    rw [visits_succ, next]
    simp only [Option.mem_some_iff, exists_eq_left']
  refine ⟨⟨?_, fun dv there => (rounds.devices dv there).trans (round.devices dv there)⟩,
    fun read => ?_, ?_⟩
  · simp only [visits, forall_eq_or_imp]
    rw [rounds.setups, round.setups, and_assoc]
  · simp only [visits, or_and_right, exists_or, exists_eq_left]
    rw [rounds.reads, round.mem_reads, or_assoc]
  · rw [rounds.running, walk_succ, next]
    rfl

/-- The loop of `extpartition` follows the chain of tables. -/
theorem extLoop_rounds (room : Room driver extdev sub) {dv : Nat} (here : driver extdev = some dv)
    (n : Nat) (place : Place) (s : Parts) (device : s.devices dv = ext) (running : s.running = false) :
    Rounds driver disk parent ext sub extbase good place n s
      (extLoop driver disk parent extdev extbase n place.offset (sub + place.found) s) := by
  induction n generalizing place s with
  | zero =>
    refine ⟨⟨?_, fun _ _ => rfl⟩, fun read => ?_, rfl⟩
    · exact (and_iff_left fun _ visits => absurd visits not_visits_zero).symm
    · refine (or_iff_left ?_).symm
      rintro ⟨_, visits, -⟩
      exact not_visits_zero visits
  | succ n inductionHypothesis =>
    have sector : tableSector driver s.devices extdev place.offset =
        sectorAt ext (place.offset <<< 9) := by
      rw [tableSector, here, Option.bind_some, device]
    have table : getPartTable driver disk s.devices extdev place.offset =
        tableAt disk ext place.offset := by
      rw [getPartTable, sector, tableAt]
    unfold extLoop
    rw [table, sector]
    cases found : tableAt disk ext place.offset with
    | none =>
      have none : placed disk ext place = [] := by rw [placed, found]
      refine Round.last ⟨⟨?_, fun _ _ => rfl⟩, rfl, rfl⟩ (by rw [nextTable, found]; rfl) running
      rw [none]
      exact (and_iff_left fun _ member => absurd member List.not_mem_nil).symm
    | some entries =>
      obtain ⟨s', changes, reads, running', result⟩ := @extEntries_eq driver parent
        (extbase + place.offset) extdev sub good room (sort entries) place.found place.found.isLt 0
        { s with reads := (sectorAt ext (place.offset <<< 9)).toList.map (place.offset, ·) ++ s.reads }
      have all : placed disk ext place =
          (logicals (sort entries)).take (4 - place.found) := by rw [placed, found]
      have round : Round driver disk parent ext sub extbase good place s s' :=
        ⟨⟨all ▸ changes.setups, changes.devices⟩, reads, running'⟩
      dsimp only
      rw [result]
      split_ifs with more
      · dsimp only
        split
        case isTrue zero =>
          refine round.last ?_ running
          rw [nextTable, found]
          exact dif_neg fun both => both.2 zero
        case isFalse some =>
          have next : nextTable disk ext place = Option.some ⟨link 0 (sort entries),
              ⟨place.found + (logicals (sort entries)).length, more⟩⟩ := by
            rw [nextTable, found]
            exact dif_pos ⟨more, some⟩
          refine round.rounds next ?_
          exact inductionHypothesis ⟨link 0 (sort entries), ⟨_, more⟩⟩ s'
            ((round.devices dv (room.outside here)).trans device) (round.running.trans running)
      · refine round.last ?_ running
        rw [nextTable, found]
        exact dif_neg fun both => more both.1

theorem extpartition_rounds (room : Room driver extdev (firstSub extdev)) {dv : Nat}
    (here : driver extdev = some dv) (fuel : Nat) (device : s.devices dv = ext)
    (running : s.running = false) :
    Rounds driver disk parent ext (firstSub extdev) extbase good .first fuel s
      (extpartition fuel driver disk parent extdev extbase s) := by
  have rounds := @extLoop_rounds driver disk parent ext extbase extdev (firstSub extdev) good room dv
    here fuel .first s device running
  have none : firstSub extdev + ((Place.first.found : Nat) : Int) = firstSub extdev := add_zero _
  rw [none] at rounds
  exact rounds

end Loops

/-! ### Hard disks -/

/-- The device numbers of the partitions of a drive. -/
def partDev (drive : Nat) (par : Fin 4) : Int := drive * devPerDrive + 1 + par

theorem firstSub_partDev (drive : Nat) (par : Fin 4) :
    firstSub (partDev drive par) = 128 + (drive * 4 + par) * 4 := by
  have less := par.isLt
  unfold firstSub partDev minorD0p0s0 devPerDrive
  omega

theorem hardDisk_partDev {drives : Nat} (drive : Fin drives) (par : Fin 4) :
    hardDisk drives (partDev drive par) = some (partDev drive par).toNat := by
  have less := drive.isLt
  have small := par.isLt
  unfold hardDisk partDev devPerDrive
  rw [if_pos (by omega)]

/-- A hard disk drive has room for four logical partitions in each partition. -/
theorem room_hardDisk {drives : Nat} (drive : Fin drives) (par : Fin 4) :
    Room (hardDisk drives) (partDev drive par) (firstSub (partDev drive par)) := by
  have less := drive.isLt
  have small := par.isLt
  constructor
  case aligned =>
    rw [firstSub_partDev]
    omega
  case room =>
    intro k few
    refine ⟨(firstSub (partDev drive par) + (k : Nat)).toNat, ?_, ?_⟩
    · rw [firstSub_partDev]
      unfold hardDisk minorD0p0s0 devPerDrive
      split_ifs
      · rfl
      · rfl
      · omega
    · rw [hardDisk_partDev, firstSub_partDev]
      intro same
      have equal := Option.some.inj same
      unfold partDev devPerDrive at equal
      omega

end Minix.Drive
