/-
This file models how the AT disk driver opens and closes the partitions of its drives
(`kernel/at_wini.c`).

What a drive answers when it is opened is given with the request, and the rounds that `partition` may
take. Commands, timeouts and resets set and clear bits of `state` at other times too; that is an
action of its own. How often the partitions of a drive have been opened and closed, and how often
`partition` was called for it, is counted beside the code.
-/

import Minix.Drive.Partition

namespace Minix.Drive

open Function (update)

/-- `MAX_DRIVES` -/
def maxDrives : Nat := 4

/-- `INITIALIZED` -/
def initialized : UInt8 := 0x01

/-- `ATAPI` -/
def atapi : UInt8 := 0x08

/-- `struct wini`, without the devices. -/
structure Wini where
  state : UInt8
  openCt : UInt32

/-- The drives, and what has been done with them. -/
structure Drives where
  wini : Nat → Wini
  devices : Nat → Device
  opens : Nat → Nat
  closes : Nat → Nat
  parted : Nat → Nat

def Drives.setState (s : Drives) (drive : Nat) (state : UInt8) : Drives :=
  { s with wini := update s.wini drive { s.wini drive with state } }

def Drives.setCount (s : Drives) (drive : Nat) (openCt : UInt32) : Drives :=
  { s with wini := update s.wini drive { s.wini drive with openCt } }

def Drives.setSize (s : Drives) (drive : Nat) (size : UInt64) : Drives :=
  let dv := (wholeDrive drive).toNat
  { s with devices := update s.devices dv { s.devices dv with size } }

/-- The drive that `w_prepare` selects for a device that it finds: `part` or `subpart` of a drive. -/
def driveOf (dv : Nat) : Nat := if dv < maxDrives * 5 then dv / 5 else (dv - 128) / 16

/-- What `w_identify` finds. -/
inductive Identified
  /-- No answer, and no BIOS parameters. -/
  | nothing
  /-- The drive does not take its parameters. -/
  | unspecified (size : UInt32)
  /-- A drive, with the bit for its kind: `SMART`, `ATAPI` or none. -/
  | drive (kind : UInt8) (size : UInt32)

/-- What an open gets from the drive. -/
structure Answers where
  identified : Identified
  disk : Sectors
  fuel : Nat

/-- `w_identify`; true if it returns `OK`. -/
def wIdentify (drive : Nat) (identified : Identified) (s : Drives) : Bool × Drives :=
  match identified with
  | .nothing => (false, s)
  | .unspecified size => (false, s.setSize drive (mul64u size))
  | .drive kind size =>
    (true, (s.setSize drive (mul64u size)).setState drive (kind ||| initialized))

/-- `atapi_open` -/
def atapiOpen (drive : Nat) (s : Drives) : Drives := s.setSize drive (800 * 1024 * 1024)

inductive Reply
  | ok | enxio | eacces
deriving DecidableEq

/-- `partition` for a whole drive, and the count after it. -/
def wPartition (drive : Nat) (answers : Answers) (s : Drives) : Option Drives :=
  let parts := partition answers.fuel (hardDisk maxDrives) answers.disk (wholeDrive drive) .primary
    { devices := s.devices }
  if parts.running then none
  else
    let s := { s with
      devices := parts.devices
      parted := update s.parted drive (s.parted drive + 1) }
    some (s.setCount drive ((s.wini drive).openCt + 1))

/-- `w_do_open` after the drive has been identified. -/
def wFirstOpen (drive : Nat) (write : Bool) (answers : Answers) (s : Drives) :
    Option (Reply × Drives) :=
  if (s.wini drive).openCt = 0 then
    if (s.wini drive).state &&& atapi ≠ 0 then
      if write then some (.eacces, s)
      else (wPartition drive answers (atapiOpen drive s)).map (.ok, ·)
    else (wPartition drive answers s).map (.ok, ·)
  else some (.ok, s)

/-- `w_do_open`; it has no result while `partition` has not come to its end. -/
def wDoOpen (device : Int) (write : Bool) (answers : Answers) (s : Drives) :
    Option (Reply × Drives) :=
  match hardDisk maxDrives device with
  | none => some (.enxio, s)
  | some dv =>
    let drive := driveOf dv
    if (s.wini drive).state = 0 then
      match wIdentify drive answers.identified s with
      | (false, s) => some (.enxio, s.setState drive 0)
      | (true, s) => wFirstOpen drive write answers s
    else wFirstOpen drive write answers s

/-- `w_do_close` -/
def wDoClose (device : Int) (s : Drives) : Reply × Drives :=
  match hardDisk maxDrives device with
  | none => (.enxio, s)
  | some dv =>
    let drive := driveOf dv
    (.ok, s.setCount drive ((s.wini drive).openCt - 1))

/-- Count a request that was successful. -/
def counted (count : Nat → Nat) (device : Int) : Reply → Nat → Nat
  | .ok =>
    match hardDisk maxDrives device with
    | none => count
    | some dv => update count (driveOf dv) (count (driveOf dv) + 1)
  | _ => count

/-- What happens to the driver. -/
inductive Action
  | doOpen (device : Int) (write : Bool) (answers : Answers)
  | doClose (device : Int)
  /-- The bits of `state` are set and cleared. -/
  | bits (state : Nat → UInt8)

def step (s : Drives) : Action → Option Drives
  | .doOpen device write answers => (wDoOpen device write answers s).map fun (reply, s) =>
      { s with opens := counted s.opens device reply }
  | .doClose device =>
    let (reply, s) := wDoClose device s
    some { s with closes := counted s.closes device reply }
  | .bits state => some { s with wini := fun drive => { s.wini drive with state := state drive } }

end Minix.Drive
