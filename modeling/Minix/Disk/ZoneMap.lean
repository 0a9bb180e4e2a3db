/-
This file models how a zone is entered in the map of a file: `write_map`, `wr_indir`, `clear_zone`,
`zero_block` and `new_block` (`fs/write.c`).

The blocks that hold the bit maps are kept apart from the other blocks of the device. The cache
gives their contents, and a block that is changed in the cache is changed. A result that is `none`
is a panic of the server or an index outside an indirect block.
-/

import Minix.Disk.Bitmap

namespace Minix.Disk

open Function (update)

/-! ### Words in blocks -/

/-- Store a 16-bit word at an offset. -/
def Block.setWord (b : Block) (offset : Nat) (w : UInt16) : Block := fun i =>
  if i = offset then w.toUInt8 else if i = offset + 1 then (w >>> 8).toUInt8 else b i

/-- Store a 32-bit word at an offset. -/
def Block.setLong (b : Block) (offset : Nat) (x : UInt32) : Block :=
  (b.setWord offset x.toUInt16).setWord (offset + 2) (x >>> 16).toUInt16

/-- `b_v1_ind[index] = w`. -/
def Block.setV1Ind (b : Block) (index : UInt32) (w : UInt16) : Option Block :=
  if index < Version.v1.indirects then some (b.setWord (2 * index.toNat) w) else none

/-- `b_v2_ind[index] = x`. -/
def Block.setV2Ind (b : Block) (index : UInt32) (x : UInt32) : Option Block :=
  if index < Version.v2.indirects then some (b.setLong (4 * index.toNat) x) else none

/-- Given a pointer to an indirect block, write one entry. -/
def wrIndir (sp : Super) (bp : Block) (index zone : UInt32) : Option Block :=
  match sp.version with
  | .v1 => bp.setV1Ind index (conv2 sp.native zone.toUInt16)
  | .v2 => bp.setV2Ind index (conv4 sp.native zone)

/-- The contents of a block that `zero_block` has zeroed. -/
def zeroBlock : Block := fun _ => 0

/-! ### Volumes -/

/-- A mounted file system with the contents of its blocks. -/
structure Volume where
  fs : Mounted
  dev : Device

def Volume.setBlock (v : Volume) (b : UInt32) (bp : Block) : Volume :=
  { v with dev := update v.dev b bp }

def Inode.setZone (rip : Inode) (i : Nat) (z : UInt32) : Inode :=
  { rip with zone := update rip.zone i z }

/-- `ENOSPC` -/
def enospc : Int := -28

/-- `EFBIG` -/
def efbig : Int := -27

/-- The relative zone that a position is in. -/
def Super.zoneOf (sp : Super) (position : UInt32) : UInt32 := (position / 1024) >>> sp.scale

/-- `alloc_zone` on a volume. -/
def Volume.allocZone (v : Volume) (near : UInt32) : Option (Volume × UInt32) :=
  (Disk.allocZone v.fs near).map fun (fs, z) => ({ v with fs := fs }, z)

/-- The end of `write_map`: `z1` is the zone of the indirect block, and `excess` an index in it. -/
def enterZone (v : Volume) (z1 excess newZone : UInt32) (newInd : Bool) : Option Volume :=
  let b := z1 <<< v.fs.sp.scale
  let bp := if newInd then zeroBlock else v.dev b
  (wrIndir v.fs.sp bp excess newZone).map (v.setBlock b)

/-- `write_map` below the double indirect block, whose zone is `z`. -/
def writeDouble (v : Volume) (rip : Inode) (z indEx excess newZone : UInt32) (newDbl : Bool) :
    Option (Volume × Inode × Int) :=
  let b := z <<< v.fs.sp.scale
  let bp := if newDbl then zeroBlock else v.dev b
  (rdIndir v.fs.sp bp indEx).bind fun z1 =>
    if z1 = 0 then
      (v.allocZone (rip.zone 0)).bind fun (v, z1) =>
        (wrIndir v.fs.sp bp indEx z1).bind fun bp =>
          let v := v.setBlock b bp
          if z1 = 0 then some (v, rip, enospc)
          else (enterZone v z1 excess newZone true).map fun v => (v, rip, 0)
    else (enterZone (v.setBlock b bp) z1 excess newZone false).map fun v => (v, rip, 0)

/-- Write a new zone into an inode. -/
def writeMap (v : Volume) (rip : Inode) (position newZone : UInt32) :
    Option (Volume × Inode × Int) :=
  let sp := v.fs.sp
  let zone := sp.zoneOf position
  let zones := sp.version.nrDzones
  let nrIndirects := sp.version.indirects
  if zone < zones then some (v, rip.setZone zone.toNat newZone, 0)
  else
    let excess := zone - zones
    if excess < nrIndirects then
      let z1 := rip.zone zones.toNat
      if z1 = 0 then
        (v.allocZone (rip.zone 0)).bind fun (v, z1) =>
          let rip := rip.setZone zones.toNat z1
          if z1 = 0 then some (v, rip, enospc)
          else (enterZone v z1 excess newZone true).map fun v => (v, rip, 0)
      else (enterZone v z1 excess newZone false).map fun v => (v, rip, 0)
    else
      let indEx := (excess - nrIndirects) / nrIndirects
      let excess := (excess - nrIndirects) % nrIndirects
      let z := rip.zone (zones.toNat + 1)
      if z = 0 then
        -- Create the double indirect block.
        (v.allocZone (rip.zone 0)).bind fun (v, z) =>
          if z = 0 then some (v, rip, enospc)
          else
            let rip := rip.setZone (zones.toNat + 1) z
            if nrIndirects ≤ indEx then some (v, rip, efbig)
            else writeDouble v rip z indEx excess newZone true
      else if nrIndirects ≤ indEx then some (v, rip, efbig)
      else writeDouble v rip z indEx excess newZone false

/-! ### New blocks -/

/-- Zero a zone, possibly starting in the middle; `flag` if called by `new_block`. -/
def clearZone (v : Volume) (rip : Inode) (pos : UInt32) (flag : Bool) : Option Volume :=
  let sp := v.fs.sp
  if sp.scale = 0 then some v
  else
    let zoneSize : UInt32 := 1024 <<< sp.scale
    let pos := if flag then pos / zoneSize * zoneSize else pos
    let next := pos + 1023
    -- If 'pos' is in the last block of a zone, do not clear the zone.
    if next / zoneSize ≠ pos / zoneSize then some v
    else
      (readMap v.dev sp rip next).map fun blo =>
        if blo = 0 then v
        else
          let bhi := ((blo >>> sp.scale + 1) <<< sp.scale) - 1
          { v with dev := fun b => if blo ≤ b ∧ b ≤ bhi then zeroBlock else v.dev b }

/-- Acquire a new block, whose number is returned; an error is `err_code`. -/
def newBlock (v : Volume) (rip : Inode) (position : UInt32) :
    Option (Volume × Inode × Except Int UInt32) :=
  let sp := v.fs.sp
  (readMap v.dev sp rip position).bind fun b =>
    if b = 0 then
      -- Choose first zone if possible.
      let near := if rip.zone 0 = 0 then sp.disk.firstdatazone.toUInt32 else rip.zone 0
      (v.allocZone near).bind fun (v, z) =>
        if z = 0 then some (v, rip, .error enospc)
        else
          (writeMap v rip position z).bind fun (v, rip, r) =>
            if r ≠ 0 then (freeZone v.fs z).map fun fs => ({ v with fs := fs }, rip, .error r)
            else
              -- If we are not writing at EOF, clear the zone, just to be safe.
              (if position ≠ rip.size then clearZone v rip position true else some v).map fun v =>
                let zoneSize : UInt32 := 1024 <<< sp.scale
                let b := z <<< sp.scale + position % zoneSize / 1024
                (v.setBlock b zeroBlock, rip, .ok b)
    else some (v.setBlock b zeroBlock, rip, .ok b)

end Minix.Disk
