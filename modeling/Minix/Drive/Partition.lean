/-
This file models how the disk drivers find the partitions of a disk (`kernel/drvlib.c`): `partition`
and `extpartition` with `get_part_table` and `sort`.

A driver says where it keeps the `struct device` of a minor device; the four devices of a partition
table lie next to each other. What the disk answers is a function of the sector, without a value if
the sector cannot be read. Each device that is set up is recorded with the device it is a part of,
and each sector that `extpartition` reads with the offset it was asked for. The chain of extended
partitions may have no end, so `fuel` bounds its rounds.
-/

import Minix.Disk.Image

namespace Minix.Drive

open Disk (Block)

/-! ### Devices -/

/-- `struct device`: where a device starts and how large it is, in bytes. -/
structure Device where
  base : UInt64
  size : UInt64
deriving DecidableEq

/-- `cv64ul` -/
def cv64ul (i : UInt64) : UInt32 := if i.toNat < 2 ^ 32 then i.toUInt32 else 0xffffffff

/-- `div64u` by `SECTOR_SIZE`. -/
def div64u (i : UInt64) : UInt32 := (i / 512).toUInt32

/-- `mul64u` by `SECTOR_SIZE`. -/
def mul64u (i : UInt32) : UInt64 := i.toUInt64 * 512

/-- The sector that is read from a device at a position, unless that is at the end of the device. -/
def sectorAt (dv : Device) (position : UInt32) : Option UInt32 :=
  if cv64ul dv.size ≤ position then none else some (div64u (dv.base + position.toUInt64))

/-! ### Partition tables -/

/-- `struct part_entry` -/
structure PartEntry where
  sysind : UInt8
  lowsec : UInt32
  size : UInt32
deriving DecidableEq

/-- `NO_PART` -/
def noPart : UInt8 := 0x00

/-- `MINIX_PART` -/
def minixPart : UInt8 := 0x81

/-- `ext_part` -/
def extPart (sysind : UInt8) : Bool := sysind = 0x05 || sysind = 0x0f

/-- An entry of the table at `PART_TABLE_OFF`. -/
def partEntry (tmpBuf : Block) (i : Nat) : PartEntry where
  sysind := tmpBuf (0x1be + 16 * i + 4)
  lowsec := tmpBuf.long (0x1be + 16 * i + 8)
  size := tmpBuf.long (0x1be + 16 * i + 12)

/-- The `NR_PARTITIONS` entries of a valid table. -/
def partTable (tmpBuf : Block) : Option (List PartEntry) :=
  if tmpBuf 510 ≠ 0x55 ∨ tmpBuf 511 ≠ 0xaa then none
  else some [partEntry tmpBuf 0, partEntry tmpBuf 1, partEntry tmpBuf 2, partEntry tmpBuf 3]

/-- The rest of a round of `sort`, after `pe0` has been reached. -/
def sortFrom (pe0 : PartEntry) : List PartEntry → List PartEntry
  | [] => [pe0]
  | pe1 :: rest =>
    if pe0.sysind = noPart ∨ pe0.lowsec > pe1.lowsec ∧ pe1.sysind ≠ noPart then
      pe1 :: sortFrom pe0 rest
    else pe0 :: sortFrom pe1 rest

/-- One round of `sort`. -/
def sortRound : List PartEntry → List PartEntry
  | [] => []
  | pe0 :: rest => sortFrom pe0 rest

def sort (table : List PartEntry) : List PartEntry := sortRound^[4] table

/-! ### The drivers -/

/-- A driver: where it keeps the device that `dr_prepare` gives for a minor number. -/
abbrev Driver := Int → Option Nat

/-- `DEV_PER_DRIVE` -/
def devPerDrive : Int := 5

/-- The device number of a whole drive. -/
def wholeDrive (drive : Nat) : Int := drive * devPerDrive

/-- `MINOR_d0p0s0` -/
def minorD0p0s0 : Int := 128

/-- The hard disk drivers: five devices for each drive, and sixteen subpartitions. -/
def hardDisk (drives : Nat) : Driver := fun device =>
  if 0 ≤ device ∧ device < drives * devPerDrive then some device.toNat
  else if 0 ≤ device - minorD0p0s0 ∧ device - minorD0p0s0 < drives * 16 then some device.toNat
  else none

/-- What a disk gives for a sector. -/
abbrev Sectors := UInt32 → Option Block

/-- A device that has been set up, and the device that it is a part of. -/
structure Setup where
  parent : Device
  dv : Nat
  device : Device
deriving DecidableEq

/-- The devices of a driver, and what has been done. -/
structure Parts where
  devices : Nat → Device
  setups : List Setup := []
  reads : List (UInt32 × UInt32) := []
  /-- The rounds of `extpartition` were not enough. -/
  running : Bool := false

def Parts.set (s : Parts) (parent : Device) (dv : Nat) (device : Device) : Parts :=
  { s with
    devices := Function.update s.devices dv device
    setups := ⟨parent, dv, device⟩ :: s.setups }

/-- The sector at which `get_part_table` looks for a table. -/
def tableSector (driver : Driver) (devices : Nat → Device) (device : Int) (offset : UInt32) :
    Option UInt32 :=
  (driver device).bind fun dv => sectorAt (devices dv) (offset <<< 9)

def getPartTable (driver : Driver) (disk : Sectors) (devices : Nat → Device) (device : Int)
    (offset : UInt32) : Option (List PartEntry) :=
  ((tableSector driver devices device offset).bind disk).bind partTable

/-! ### Extended partitions -/

/-- The first subpartition of a partition. -/
def firstSub (device : Int) : Int :=
  minorD0p0s0 + (device / devPerDrive * 4 + (device % devPerDrive - 1)) * 4

/-- The loop over the entries of one table. The result is `nextoffset` and `subdev`, unless the
function returns. -/
def extEntries (driver : Driver) (parent : Device) (start : UInt32) :
    List PartEntry → (subdev : Int) → (nextoffset : UInt32) → Parts → Parts × Option (UInt32 × Int)
  | [], subdev, nextoffset, s => (s, some (nextoffset, subdev))
  | pe :: rest, subdev, nextoffset, s =>
    if extPart pe.sysind then extEntries driver parent start rest subdev pe.lowsec s
    else if pe.sysind = noPart then extEntries driver parent start rest subdev nextoffset s
    else
      match driver subdev with
      | none => (s, none)
      | some dv =>
        let s := s.set parent dv ⟨mul64u (start + pe.lowsec), mul64u pe.size⟩
        if (subdev + 1) % 4 = 0 then (s, none) -- out of devices
        else extEntries driver parent start rest (subdev + 1) nextoffset s

/-- The loop over the chain of tables. -/
def extLoop (driver : Driver) (disk : Sectors) (parent : Device) (extdev : Int) (extbase : UInt32) :
    Nat → (offset : UInt32) → (subdev : Int) → Parts → Parts
  | 0, _, _, s => { s with running := true }
  | fuel + 1, offset, subdev, s =>
    let table := getPartTable driver disk s.devices extdev offset
    let read := (tableSector driver s.devices extdev offset).toList.map (offset, ·)
    let s := { s with reads := read ++ s.reads }
    match table with
    | none => s
    | some table =>
      match extEntries driver parent (extbase + offset) (sort table) subdev 0 s with
      | (s, none) => s
      | (s, some (nextoffset, subdev)) =>
        if nextoffset = 0 then s
        else extLoop driver disk parent extdev extbase fuel nextoffset subdev s

def extpartition (fuel : Nat) (driver : Driver) (disk : Sectors) (parent : Device) (extdev : Int)
    (extbase : UInt32) (s : Parts) : Parts :=
  extLoop driver disk parent extdev extbase fuel 0 (firstSub extdev) s

/-! ### Partitions -/

/-- `P_FLOPPY`, `P_PRIMARY` and `P_SUB`. -/
inductive Style
  | floppy | primary | sub
deriving DecidableEq

/-- The device number of the first partition. -/
def firstPart (device : Int) : Style → Int
  | .floppy => device + 112
  | .primary => device + 1
  | .sub => firstSub device

/-- The geometry of a partition, shrunk to fit within the device: `pe->lowsec` and `part_limit`. -/
def shrink (base limit : UInt32) (pe : PartEntry) : UInt32 × UInt32 :=
  let partLimit := pe.lowsec + pe.size
  let partLimit := if partLimit < pe.lowsec then limit else partLimit
  let partLimit := if partLimit > limit then limit else partLimit
  let lowsec := if pe.lowsec < base then base else pe.lowsec
  (lowsec, if partLimit < lowsec then lowsec else partLimit)

/-- The device that an entry of the table is turned into. -/
def partDevice (base limit : UInt32) (pe : PartEntry) : Device :=
  let (lowsec, partLimit) := shrink base limit pe
  ⟨mul64u lowsec, mul64u (partLimit - lowsec)⟩

/-- The loop over the partitions; `inner` is what is done with a primary partition. -/
def partLoop (inner : Int → Device → PartEntry → Parts → Parts) (parent : Device)
    (base limit : UInt32) : List PartEntry → (device : Int) → (dv : Nat) → Parts → Parts
  | [], _, _, s => s
  | pe :: rest, device, dv, s =>
    let part := partDevice base limit pe
    let pe := { pe with lowsec := (shrink base limit pe).1 }
    let s := inner device part pe (s.set parent dv part)
    if s.running then s else partLoop inner parent base limit rest (device + 1) (dv + 1) s

/-- `partition`, apart from what is done with a primary partition. -/
def partitionWith (driver : Driver) (disk : Sectors) (style : Style)
    (inner : Int → Device → PartEntry → Parts → Parts) (device : Int) (s : Parts) : Parts :=
  match driver device with
  | none => s
  | some dv =>
    let parent := s.devices dv
    if parent.size = 0 then s
    else
      let base := div64u parent.base
      let limit := base + div64u parent.size
      match getPartTable driver disk s.devices device 0 with
      | none => s
      | some table =>
        let table := if style = .primary then sort table else table
        let device := firstPart device style
        match driver device with
        | none => s
        | some dv => partLoop inner parent base limit table device dv s

/-- What is done with a primary partition: its subpartitions, or its logical partitions. -/
def innerParts (fuel : Nat) (driver : Driver) (disk : Sectors) (device : Int) (part : Device)
    (pe : PartEntry) (s : Parts) : Parts :=
  let s := if pe.sysind = minixPart then partitionWith driver disk .sub (fun _ _ _ s => s) device s
    else s
  if extPart pe.sysind then extpartition fuel driver disk part device pe.lowsec s else s

def partition (fuel : Nat) (driver : Driver) (disk : Sectors) (device : Int) (style : Style)
    (s : Parts) : Parts :=
  match style with
  | .primary => partitionWith driver disk .primary (innerParts fuel driver disk) device s
  | style => partitionWith driver disk style (fun _ _ _ s => s) device s

end Minix.Drive
