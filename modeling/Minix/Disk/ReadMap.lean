/-
This file models how the file server finds the blocks of a file: `read_super` (`fs/super.c`), the
reading half of `rw_inode` (`fs/inode.c`), and `read_map` and `rd_indir` (`fs/read.c`).

The buffer cache gives the contents of the disk. The `long` variables of `read_map` hold quotients
of a 32-bit position, which are the same as unsigned words. A result that is `none` is a panic of
the server or an index outside an indirect block.
-/

import Minix.Disk.Image

namespace Minix.Disk

/-! ### Byte order -/

/-- Possibly swap a 16-bit word between 8086 and 68000 byte order. -/
def conv2 (norm : Bool) (w : UInt16) : UInt16 :=
  if norm then w else w <<< 8 ||| w >>> 8

/-- Possibly swap a 32-bit word between 8086 and 68000 byte order. -/
def conv4 (norm : Bool) (x : UInt32) : UInt32 :=
  if norm then x
  else (conv2 false x.toUInt16).toUInt32 <<< 16 ||| (conv2 false (x >>> 16).toUInt16).toUInt32

@[simp] theorem conv2_native (w : UInt16) : conv2 true w = w := rfl

@[simp] theorem conv4_native (x : UInt32) : conv4 true x = x := rfl

/-! ### Super blocks -/

/-- A `struct super_block` in memory: what is on the disk, and what is derived from the magic
number. -/
structure Super where
  disk : SuperBlock
  version : Version
  native : Bool
deriving DecidableEq

/-- `s_inodes_per_block`. -/
def Super.inodesPerBlock (sp : Super) : UInt32 := sp.version.inodesPerBlock

/-- `s_log_zone_size`, promoted. -/
def Super.scale (sp : Super) : UInt32 := promote sp.disk.logZoneSize

/-- The version and the byte order that a magic number stands for. -/
def readMagic (magic : UInt16) : Option (Version × Bool) :=
  if magic = superMagic ∨ magic = conv2 false superMagic then some (.v1, magic = superMagic)
  else if magic = superV2 ∨ magic = conv2 false superV2 then some (.v2, magic = superV2)
  else none

/-- The fields of a super block in the byte order of the machine, with the number of zones of a V1
file system moved to `s_zones`. -/
def SuperBlock.convert (sp : SuperBlock) (version : Version) (native : Bool) : SuperBlock :=
  let nzones := conv2 native sp.nzones
  { ninodes := conv2 native sp.ninodes
    nzones
    imapBlocks := conv2 native sp.imapBlocks
    zmapBlocks := conv2 native sp.zmapBlocks
    firstdatazone := conv2 native sp.firstdatazone
    logZoneSize := conv2 native sp.logZoneSize
    maxSize := conv4 native sp.maxSize
    magic := sp.magic
    zones := match version with
      | .v1 => nzones.toUInt32
      | .v2 => conv4 native sp.zones }

/-- Read a super block, and make a few basic checks to see if it looks reasonable; `none` is
`EINVAL`. -/
def readSuper (dev : Device) : Option Super := do
  let sp := (dev superBlockNr).superBlock
  let (version, native) ← readMagic sp.magic
  let disk := sp.convert version native
  if disk.imapBlocks.toInt16 < 1 ∨ disk.zmapBlocks.toInt16 < 1 ∨ disk.ninodes < 1 ∨
      disk.zones < 1 ∨ 4 < promote disk.logZoneSize then none
  else some ⟨disk, version, native⟩

theorem readSuper_eq_some {dev : Device} {sp : Super} (mounted : readSuper dev = some sp) :
    readMagic (dev superBlockNr).superBlock.magic = some (sp.version, sp.native) ∧
      sp.disk = (dev superBlockNr).superBlock.convert sp.version sp.native ∧ sp.scale ≤ 4 := by
  obtain ⟨⟨version, native⟩, magic, checked⟩ := Option.bind_eq_some_iff.mp mounted
  obtain ⟨reasonable, checked⟩ := Option.ite_none_left_eq_some.mp checked
  obtain rfl := Option.some.inj checked
  simp only [not_or] at reasonable
  exact ⟨magic, rfl, UInt32.not_lt.mp reasonable.2.2.2.2⟩

/-! ### Inodes -/

/-- The fields of `struct inode` that are read from the disk. A `gid_t` is a `char`. -/
structure Inode where
  mode : UInt16 := 0
  nlinks : UInt16 := 0
  uid : UInt16 := 0
  gid : UInt8 := 0
  size : UInt32 := 0
  atime : UInt32 := 0
  mtime : UInt32 := 0
  ctime : UInt32 := 0
  zone : Nat → UInt32 := fun _ => 0
  num : UInt16 := 0

/-- Copy a V1 inode from the disk. -/
def oldIcopy (num : UInt16) (dip : D1Inode) (norm : Bool) : Inode :=
  let mtime := conv4 norm dip.mtime
  { mode := conv2 norm dip.mode
    uid := conv2 norm dip.uid
    size := conv4 norm dip.size
    mtime, atime := mtime, ctime := mtime
    nlinks := dip.nlinks.toUInt16
    gid := dip.gid
    zone := fun i => (conv2 norm (dip.zone i)).toUInt32
    num }

/-- Copy a V2 inode from the disk. -/
def newIcopy (num : UInt16) (dip : D2Inode) (norm : Bool) : Inode where
  mode := conv2 norm dip.mode
  uid := conv2 norm dip.uid
  nlinks := conv2 norm dip.nlinks
  gid := (conv2 norm dip.gid).toUInt8
  size := conv4 norm dip.size
  atime := conv4 norm dip.atime
  ctime := conv4 norm dip.ctime
  mtime := conv4 norm dip.mtime
  zone i := conv4 norm (dip.zone i)
  num := num

/-- `rw_inode(rip, READING)`. -/
def rwInode (dev : Device) (sp : Super) (num : UInt16) : Inode :=
  let offset := promote sp.disk.imapBlocks + promote sp.disk.zmapBlocks + 2
  let b := (num.toUInt32 - 1) / sp.inodesPerBlock + offset
  let bp := dev b
  match sp.version with
  | .v1 =>
    oldIcopy num (bp.v1Ino ((num.toUInt32 - 1) % Version.v1.inodesPerBlock).toNat) sp.native
  | .v2 =>
    newIcopy num (bp.v2Ino ((num.toUInt32 - 1) % Version.v2.inodesPerBlock).toNat) sp.native

/-! ### Zones -/

/-- Given a pointer to an indirect block, read one entry. -/
def rdIndir (sp : Super) (bp : Block) (index : UInt32) : Option UInt32 :=
  let entry := match sp.version with
    | .v1 => (bp.v1Ind index).map fun zone => (conv2 sp.native zone).toUInt32
    | .v2 => (bp.v2Ind index).map (conv4 sp.native)
  entry.filter fun zone =>
    !(zone != 0 && (zone < sp.disk.firstdatazone.toUInt32 || sp.disk.zones ≤ zone))

/-- The part of `read_map` after the single indirect block is known: `z` is its zone and `excess`
an index in it. -/
def mapIndirect (dev : Device) (sp : Super) (z excess boff : UInt32) : Option UInt32 :=
  if z = 0 then some 0
  else do
    let z ← rdIndir sp (dev (z <<< sp.scale)) excess
    if z = 0 then some 0 else some (z <<< sp.scale + boff)

/-- Given an inode and a position within the file, locate the block in which that position is to
be found; 0 is `NO_BLOCK`. -/
def readMap (dev : Device) (sp : Super) (rip : Inode) (position : UInt32) : Option UInt32 :=
  let blockPos := position / 1024
  let zone := blockPos >>> sp.scale
  let boff := blockPos - zone <<< sp.scale
  let dzones := sp.version.nrDzones
  let nrIndirects := sp.version.indirects
  if zone < dzones then
    let z := rip.zone zone.toNat
    if z = 0 then some 0 else some (z <<< sp.scale + boff)
  else
    let excess := zone - dzones
    if excess < nrIndirects then mapIndirect dev sp (rip.zone dzones.toNat) excess boff
    else
      let z := rip.zone (dzones.toNat + 1)
      if z = 0 then some 0
      else do
        let excess := excess - nrIndirects
        let z ← rdIndir sp (dev (z <<< sp.scale)) (excess / nrIndirects)
        mapIndirect dev sp z (excess % nrIndirects) boff

end Minix.Disk
