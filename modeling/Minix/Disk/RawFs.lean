/-
This file models how the boot monitor reads a file system (`boot/rawfs.c`): `r_super`, `r_stat` and
`r_vir2abs`. `r_readdir` and `r_lookup` use the inode and the cached indirect blocks through these
functions only.
-/

import Minix.Disk.ReadMap
import Minix.Library.Transition

namespace Minix.Disk

/-- The static variables of `rawfs.c`. `dirbuf` and the position in a directory are left out. -/
structure RawFs where
  super : SuperBlock := Block.superBlock fun _ => 0
  nrDzones : UInt32 := 0
  nrIndirects : UInt32 := 0
  inodesPerBlock : UInt32 := 0
  curfil : Inode := {}
  indir : Block := fun _ => 0
  dindir : Block := fun _ => 0
  aIndir : UInt32 := 0
  aDindir : UInt32 := 0

namespace RawFs

/-- `zone_shift`. -/
def zoneShift (s : RawFs) : UInt32 := promote s.super.logZoneSize

/-- Initialize variables, return the size of the file system in blocks, zero on error. -/
def rSuper (dev : Device) (s : RawFs) : RawFs × UInt32 :=
  let s := { s with super := (dev superBlockNr).superBlock }
  let known (s : RawFs) (version : Version) : RawFs :=
    { s with
      nrDzones := version.nrDzones
      nrIndirects := version.indirects
      inodesPerBlock := version.inodesPerBlock }
  if s.super.magic = superV2 then (known s .v2, s.super.zones <<< s.zoneShift)
  else if s.super.magic = superMagic then (known s .v1, s.super.nzones.toUInt32 <<< s.zoneShift)
  else (s, 0)

/-- Return information about a file and remember it. -/
def rStat (dev : Device) (s : RawFs) (inum : UInt16) : RawFs :=
  let block := superBlockNr + 1 + promote s.super.imapBlocks + promote s.super.zmapBlocks
  let inoBlock := (inum.toUInt32 - 1) / s.inodesPerBlock
  let inoOffset := ((inum.toUInt32 - 1) % s.inodesPerBlock).toUInt16
  let scratch := dev (block + inoBlock)
  let curfil : Inode :=
    if s.super.magic = superV2 then
      let dip := scratch.v2Ino inoOffset.toNat
      { mode := dip.mode, nlinks := dip.nlinks, uid := dip.uid, gid := dip.gid.toUInt8
        size := dip.size, atime := dip.atime, mtime := dip.mtime, ctime := dip.ctime
        zone := dip.zone, num := inum }
    else
      let dip := scratch.v1Ino inoOffset.toNat
      { mode := dip.mode, nlinks := dip.nlinks.toUInt16, uid := dip.uid, gid := dip.gid
        size := dip.size, atime := dip.mtime, mtime := dip.mtime, ctime := dip.mtime
        zone := fun i => (dip.zone i).toUInt32, num := inum }
  { s with curfil, aIndir := 0, aDindir := 0 }

/-- An entry of a buffered indirect block. -/
def entry (s : RawFs) (b : Block) (index : UInt32) : Option UInt32 :=
  if s.super.magic = superV2 then b.v2Ind index else (b.v1Ind index).map UInt16.toUInt32

/-- Fetch the indirect block `z` unless it is the one in the buffer. -/
def fetchIndir (dev : Device) (s : RawFs) (z : UInt32) : RawFs :=
  if s.aIndir = z then s else { s with indir := dev z, aIndir := z }

/-- Fetch the double indirect block `z` unless it is the one in the buffer. -/
def fetchDindir (dev : Device) (s : RawFs) (z : UInt32) : RawFs :=
  if s.aDindir = z then s else { s with dindir := dev z, aDindir := z }

/-- The part of `r_vir2abs` after the indirect zone is known: `zone` is an index in it. -/
def singleIndirect (dev : Device) (s : RawFs) (indZone zone zoneIndex : UInt32) :
    Option (RawFs × UInt32) :=
  if indZone = 0 then some (s, 0)
  else do
    let s := s.fetchIndir dev (indZone <<< s.zoneShift)
    let zone ← s.entry s.indir zone
    some (s, zone <<< s.zoneShift + zoneIndex)

/-- Translate a block number in a file to an absolute disk block number. The result is 0 for a
hole and -1 past the end of the file. -/
def rVir2abs (dev : Device) (s : RawFs) (virblk : UInt32) : Option (RawFs × UInt32) :=
  if s.curfil.size ≤ virblk * 1024 then some (s, -1)
  else
    let b := virblk
    let zone := b >>> s.zoneShift
    let zoneIndex := b - zone <<< s.zoneShift
    if zone < s.nrDzones then
      some (s, s.curfil.zone zone.toNat <<< s.zoneShift + zoneIndex)
    else
      let zone := zone - s.nrDzones
      if zone < s.nrIndirects then
        s.singleIndirect dev (s.curfil.zone s.nrDzones.toNat) zone zoneIndex
      else
        let indZone := s.curfil.zone (s.nrDzones.toNat + 1)
        if indZone = 0 then some (s, 0)
        else do
          let s := s.fetchDindir dev (indZone <<< s.zoneShift)
          let zone := zone - s.nrIndirects
          let indZone ← s.entry s.dindir (zone / s.nrIndirects)
          s.singleIndirect dev indZone (zone % s.nrIndirects) zoneIndex

end RawFs

/-! ### Calls -/

/-- The calls of the boot monitor, its boot and install programs. -/
inductive RawCall
  | super
  | stat (inum : UInt16)
  | vir2abs (virblk : UInt32)
deriving DecidableEq

/-- The callers look at files only after `r_super` has recognized the file system. -/
def RawFs.Recognized (s : RawFs) : Prop := s.super.magic = superV2 ∨ s.super.magic = superMagic

instance (s : RawFs) : Decidable s.Recognized := by unfold RawFs.Recognized; infer_instance

def RawContract (s : RawFs) : RawCall → Prop
  | .super => True
  | .stat inum => s.Recognized ∧ inum ≠ 0
  | .vir2abs _ => s.Recognized

instance (s : RawFs) (call : RawCall) : Decidable (RawContract s call) := by
  cases call <;> unfold RawContract <;> infer_instance

def rawStep (dev : Device) (s : RawFs) : RawCall → Option RawFs
  | .super => some (s.rSuper dev).1
  | .stat inum => some (s.rStat dev inum)
  | .vir2abs virblk => (s.rVir2abs dev virblk).map Prod.fst

/-- The states that sequences of calls lead to. -/
abbrev RawReaches (dev : Device) (calls : List RawCall) (s : RawFs) : Prop :=
  Transition.Run (rawStep dev) RawContract {} calls s

end Minix.Disk
