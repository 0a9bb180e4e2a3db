/-
This file describes file-system images as they lie on a disk: the super block (`fs/super.h`), the
inodes of versions 1 and 2 (`fs/type.h`) and the indirect blocks (`fs/buf.h`).

A disk gives the bytes of each block. Words are read in the byte order of the machine, low byte
first. An index past the end of an indirect block is outside the buffer the code reads, and gives
no zone number.
-/

import Mathlib.Data.UInt

namespace Minix.Disk

/-! ### Blocks -/

/-- The bytes of a block. -/
abbrev Block := Nat → UInt8

/-- A device, or an image of one. -/
abbrev Device := UInt32 → Block

/-- The 16-bit word at an offset. -/
def Block.word (b : Block) (offset : Nat) : UInt16 :=
  (b offset).toUInt16 ||| (b (offset + 1)).toUInt16 <<< 8

/-- The 32-bit word at an offset. -/
def Block.long (b : Block) (offset : Nat) : UInt32 :=
  (b.word offset).toUInt32 ||| (b.word (offset + 2)).toUInt32 <<< 16

/-- The promotion of a `short`. -/
def promote (w : UInt16) : UInt32 := w.toInt16.toInt32.toUInt32

/-! ### Versions -/

inductive Version
  | v1
  | v2
deriving DecidableEq

namespace Version

/-- `V1_NR_DZONES` and `V2_NR_DZONES`. -/
def nrDzones : Version → UInt32
  | v1 => 7
  | v2 => 7

/-- `V1_INDIRECTS` and `V2_INDIRECTS`. -/
def indirects : Version → UInt32
  | v1 => 512
  | v2 => 256

/-- `V1_INODES_PER_BLOCK` and `V2_INODES_PER_BLOCK`. -/
def inodesPerBlock : Version → UInt32
  | v1 => 32
  | v2 => 16

end Version

/-- `SUPER_MAGIC`, which `boot/rawfs.c` calls `SUPER_V1`. -/
def superMagic : UInt16 := 0x137f

/-- `SUPER_V2`. -/
def superV2 : UInt16 := 0x2468

/-- `SUPER_BLOCK`. -/
def superBlockNr : UInt32 := 1

/-! ### What is on the disk -/

/-- The part of `struct super_block` that is on the disk. -/
structure SuperBlock where
  ninodes : UInt16
  nzones : UInt16
  imapBlocks : UInt16
  zmapBlocks : UInt16
  firstdatazone : UInt16
  logZoneSize : UInt16
  maxSize : UInt32
  magic : UInt16
  zones : UInt32
deriving DecidableEq

def Block.superBlock (b : Block) : SuperBlock where
  ninodes := b.word 0
  nzones := b.word 2
  imapBlocks := b.word 4
  zmapBlocks := b.word 6
  firstdatazone := b.word 8
  logZoneSize := b.word 10
  maxSize := b.long 12
  magic := b.word 16
  zones := b.long 20

/-- `d1_inode`. -/
structure D1Inode where
  mode : UInt16
  uid : UInt16
  size : UInt32
  mtime : UInt32
  gid : UInt8
  nlinks : UInt8
  zone : Nat → UInt16

/-- `b_v1_ino[n]`. -/
def Block.v1Ino (b : Block) (n : Nat) : D1Inode where
  mode := b.word (32 * n)
  uid := b.word (32 * n + 2)
  size := b.long (32 * n + 4)
  mtime := b.long (32 * n + 8)
  gid := b (32 * n + 12)
  nlinks := b (32 * n + 13)
  zone i := b.word (32 * n + 14 + 2 * i)

/-- `d2_inode`. -/
structure D2Inode where
  mode : UInt16
  nlinks : UInt16
  uid : UInt16
  gid : UInt16
  size : UInt32
  atime : UInt32
  mtime : UInt32
  ctime : UInt32
  zone : Nat → UInt32

/-- `b_v2_ino[n]`. -/
def Block.v2Ino (b : Block) (n : Nat) : D2Inode where
  mode := b.word (64 * n)
  nlinks := b.word (64 * n + 2)
  uid := b.word (64 * n + 4)
  gid := b.word (64 * n + 6)
  size := b.long (64 * n + 8)
  atime := b.long (64 * n + 12)
  mtime := b.long (64 * n + 16)
  ctime := b.long (64 * n + 20)
  zone i := b.long (64 * n + 24 + 4 * i)

/-- `b_v1_ind[index]`. -/
def Block.v1Ind (b : Block) (index : UInt32) : Option UInt16 :=
  if index < Version.v1.indirects then some (b.word (2 * index.toNat)) else none

/-- `b_v2_ind[index]`. -/
def Block.v2Ind (b : Block) (index : UInt32) : Option UInt32 :=
  if index < Version.v2.indirects then some (b.long (4 * index.toNat)) else none

end Minix.Disk
