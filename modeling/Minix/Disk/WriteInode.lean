/-
This file models the writing half of `rw_inode` (`fs/inode.c`) with `old_icopy`, `new_icopy` and
`update_times`, which fills in the times that were marked for update.

The fields of the inode on the disk are assigned one by one, in the order of the source. The clock
gives the current time. A block that is changed in the cache is changed; it is marked for writing
unless the file system is read-only.
-/

import Minix.Disk.Mapping
import Minix.Library.Cells

namespace Minix.Disk

open Function (update update_of_ne update_self update_eq_self)
open Library

/-! ### Variables in blocks -/

def byteCell (offset : Nat) : Cell UInt8 UInt8 where
  start := offset
  size := 1
  get b := b offset
  put b c := update b offset c
  get_put b c := update_self offset c b
  put_get b := update_eq_self offset b
  get_congr _ _ same := same offset le_rfl (Nat.lt_succ_self offset)
  put_frame b c i apart := update_of_ne (by omega) c b

theorem setWord_word (b : Block) (offset : Nat) : b.setWord offset (b.word offset) = b := by
  have low (x y : UInt8) : (x.toUInt16 ||| y.toUInt16 <<< 8).toUInt8 = x := by
    refine UInt8.toBitVec_inj.mp (BitVec.eq_of_getLsbD_eq fun i small => ?_)
    simp only [UInt16.toBitVec_toUInt8, UInt16.toBitVec_or, UInt16.toBitVec_shiftLeft,
      UInt8.toBitVec_toUInt16, BitVec.getLsbD_or, BitVec.getLsbD_setWidth]
    simp
    grind
  have high (x y : UInt8) : ((x.toUInt16 ||| y.toUInt16 <<< 8) >>> 8).toUInt8 = y := by
    refine UInt8.toBitVec_inj.mp (BitVec.eq_of_getLsbD_eq fun i small => ?_)
    simp only [UInt16.toBitVec_toUInt8, UInt16.toBitVec_shiftRight, UInt16.toBitVec_or,
      UInt16.toBitVec_shiftLeft, UInt8.toBitVec_toUInt16, BitVec.getLsbD_setWidth]
    simp
    grind
  funext i
  unfold Block.setWord Block.word
  rw [low, high]
  split
  case isTrue first => rw [first]
  case isFalse =>
    split
    case isTrue second => rw [second]
    case isFalse => rfl

theorem setLong_long (b : Block) (offset : Nat) : b.setLong offset (b.long offset) = b := by
  unfold Block.setLong Block.long
  rw [UInt32.or_comm, low_word, high_word, setWord_word, setWord_word]

def wordCell (offset : Nat) : Cell UInt8 UInt16 where
  start := offset
  size := 2
  get b := Block.word b offset
  put b w := Block.setWord b offset w
  get_put _ w := word_setWord w
  put_get b := setWord_word b offset
  get_congr b b' same := by
    unfold Block.word
    rw [same offset (by omega) (by omega), same (offset + 1) (by omega) (by omega)]
  put_frame b w i apart := by
    unfold Block.setWord
    rw [if_neg (by omega), if_neg (by omega)]

def longCell (offset : Nat) : Cell UInt8 UInt32 where
  start := offset
  size := 4
  get b := Block.long b offset
  put b x := Block.setLong b offset x
  get_put _ x := long_setLong x
  put_get b := setLong_long b offset
  get_congr b b' same := by
    unfold Block.long Block.word
    rw [same offset (by omega) (by omega), same (offset + 1) (by omega) (by omega),
      same (offset + 2) (by omega) (by omega), same (offset + 2 + 1) (by omega) (by omega)]
  put_frame b x i apart := by
    unfold Block.setLong Block.setWord
    rw [if_neg (by omega), if_neg (by omega), if_neg (by omega), if_neg (by omega)]

/-! ### Writing -/

/-- `V1_NR_TZONES` and `V2_NR_TZONES`. -/
def Version.nrTzones : Version → Nat
  | v1 => 9
  | v2 => 10

/-- The promotion of a `char`. -/
def promoteChar (c : UInt8) : UInt16 := c.toInt8.toInt16.toUInt16

/-- Copy an inode to a V1 disk; `dip` is where the disk inode begins in its block. -/
def oldIcopyWriting (rip : Inode) (dip : Nat) (norm : Bool) : List (Assignment UInt8) :=
  [⟨wordCell dip, conv2 norm rip.mode⟩,
    ⟨wordCell (dip + 2), conv2 norm rip.uid⟩,
    ⟨longCell (dip + 4), conv4 norm rip.size⟩,
    ⟨longCell (dip + 8), conv4 norm rip.mtime⟩,
    ⟨byteCell (dip + 13), rip.nlinks.toUInt8⟩,
    ⟨byteCell (dip + 12), rip.gid⟩] ++
  (List.range Version.v1.nrTzones).map fun i =>
    ⟨wordCell (dip + 14 + 2 * i), conv2 norm (rip.zone i).toUInt16⟩

/-- Copy an inode to a V2 disk. -/
def newIcopyWriting (rip : Inode) (dip : Nat) (norm : Bool) : List (Assignment UInt8) :=
  [⟨wordCell dip, conv2 norm rip.mode⟩,
    ⟨wordCell (dip + 4), conv2 norm rip.uid⟩,
    ⟨wordCell (dip + 2), conv2 norm rip.nlinks⟩,
    ⟨wordCell (dip + 6), conv2 norm (promoteChar rip.gid)⟩,
    ⟨longCell (dip + 8), conv4 norm rip.size⟩,
    ⟨longCell (dip + 12), conv4 norm rip.atime⟩,
    ⟨longCell (dip + 20), conv4 norm rip.ctime⟩,
    ⟨longCell (dip + 16), conv4 norm rip.mtime⟩] ++
  (List.range Version.v2.nrTzones).map fun i =>
    ⟨longCell (dip + 24 + 4 * i), conv4 norm (rip.zone i)⟩

/-- The bits of `i_update`: the times that have to be filled in. -/
structure Update where
  atime : Bool := false
  ctime : Bool := false
  mtime : Bool := false
deriving DecidableEq

/-- What `rw_inode` uses of an entry of the inode table. -/
structure InodeSlot where
  node : Inode
  update : Update := {}
  dirt : Bool := false

/-- Fill in the times that are marked for update. -/
def updateTimes (rdOnly : Bool) (curTime : UInt32) (rip : InodeSlot) : InodeSlot :=
  if rdOnly then rip -- no updates for read-only file systems
  else
    { rip with
      node :=
        { rip.node with
          atime := if rip.update.atime then curTime else rip.node.atime
          ctime := if rip.update.ctime then curTime else rip.node.ctime
          mtime := if rip.update.mtime then curTime else rip.node.mtime }
      update := {} }

/-- The block where an inode resides. -/
def Super.inodeBlock (sp : Super) (num : UInt16) : UInt32 :=
  (num.toUInt32 - 1) / sp.inodesPerBlock + (promote sp.disk.imapBlocks +
    promote sp.disk.zmapBlocks + 2)

/-- Where the disk inode begins in its block. -/
def Super.inodeOffset (sp : Super) (num : UInt16) : Nat :=
  match sp.version with
  | .v1 => 32 * ((num.toUInt32 - 1) % Version.v1.inodesPerBlock).toNat
  | .v2 => 64 * ((num.toUInt32 - 1) % Version.v2.inodesPerBlock).toNat

def Super.icopyWriting (sp : Super) (rip : Inode) : List (Assignment UInt8) :=
  match sp.version with
  | .v1 => oldIcopyWriting rip (sp.inodeOffset rip.num) sp.native
  | .v2 => newIcopyWriting rip (sp.inodeOffset rip.num) sp.native

/-- What `rw_inode` leaves: the blocks, the entry of the inode table, and whether the block was
marked for writing. -/
structure InodeWritten where
  dev : Device
  rip : InodeSlot
  dirt : Bool

/-- `rw_inode(rip, WRITING)` -/
def rwInodeWriting (dev : Device) (sp : Super) (rdOnly : Bool) (curTime : UInt32)
    (rip : InodeSlot) : InodeWritten :=
  let rip := if rip.update = {} then rip else updateTimes rdOnly curTime rip
  let b := sp.inodeBlock rip.node.num
  { dev := update dev b (assign (dev b) (sp.icopyWriting rip.node))
    rip := { rip with dirt := false }
    dirt := !rdOnly }

end Minix.Disk
