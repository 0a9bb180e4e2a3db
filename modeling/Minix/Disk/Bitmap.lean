/-
This file models the bit maps of a file system: `alloc_bit` and `free_bit` (`fs/super.c`) and the
functions that allocate and free zones and inodes through them, `alloc_zone` and `free_zone`
(`fs/cache.c`), `alloc_inode` and `free_inode` (`fs/inode.c`).

The blocks of a device are what the cache gives for them: a block has `BITMAP_CHUNKS` = 512 chunks
of `BITCHUNK_BITS` = 16 bits, which makes `BITS_PER_BLOCK` = 8192 bits. Whether `get_inode` finds a free slot in the inode table is part of the request. A result that is
`none` is a panic of the server.
-/

import Minix.Disk.ReadMap

namespace Minix.Disk

open Function (update)

/-! ### The maps -/

/-- The `b_bitmap` of every block of a device. -/
abbrev Chunks := Nat → Nat → UInt16

/-- `IMAP` and `ZMAP`. -/
inductive BitMap
  | imap
  | zmap
deriving DecidableEq

/-- `NO_BIT`, returned by `alloc_bit` to signal failure. -/
abbrev noBit : Nat := 0

/-- A mounted file system: what is in its slot of the super block table, and the chunks of its
device. -/
structure Mounted where
  sp : Super
  rdOnly : Bool := false
  /-- Inodes below this bit number are in use. -/
  isearch : Nat := 0
  /-- All zones below this bit number are in use. -/
  zsearch : Nat := 0
  chunks : Chunks

/-- `z - (sp->s_firstdatazone - 1)`: the bit that stands for a zone. -/
def Super.zoneBit (sp : Super) (z : UInt32) : Nat :=
  (z - (sp.disk.firstdatazone.toUInt32 - 1)).toNat

/-- `start_block`: the first bit block. -/
def Super.startBlock (sp : Super) : BitMap → Nat
  | .imap => (superBlockNr + 1).toNat
  | .zmap => (superBlockNr + 1 + promote sp.disk.imapBlocks).toNat

/-- `map_bits`: how many bits are there in the bit map? -/
def Super.mapBits (sp : Super) : BitMap → Nat
  | .imap => sp.disk.ninodes.toNat + 1
  | .zmap => sp.zoneBit sp.disk.zones

/-- `bit_blocks`: how many blocks are there in the bit map? -/
def Super.bitBlocks (sp : Super) : BitMap → Nat
  | .imap => (promote sp.disk.imapBlocks).toNat
  | .zmap => (promote sp.disk.zmapBlocks).toNat

/-- The chunk a bit of a map is in, in the byte order of the machine. -/
def Super.chunk (sp : Super) (map : BitMap) (chunks : Chunks) (b : Nat) : UInt16 :=
  conv2 sp.native (chunks (sp.startBlock map + b / 8192) (b % 8192 / 16))

/-- A bit of a map. -/
def Super.bit (sp : Super) (map : BitMap) (chunks : Chunks) (b : Nat) : Bool :=
  (sp.chunk map chunks b).toBitVec.getLsbD (b % 16)

/-! ### Searching -/

/-- `for (i = 0; (k & (1 << i)) != 0; ++i) {}`, from `i` on. -/
def scanBits (k : UInt16) : Nat → Nat → Nat
  | 0, i => i
  | fuel + 1, i => if k.toBitVec.getLsbD i then scanBits k fuel (i + 1) else i

/-- The loop over the words in a block, from `word` on: the number of the bit found. -/
def scanWords (native : Bool) (mapBits block : Nat) (bitmap : Nat → UInt16) : Nat → Nat → Option Nat
  | 0, _ => none
  | words + 1, word =>
    -- Does this word contain a free bit?
    if bitmap word = 0xffff then scanWords native mapBits block bitmap words (word + 1)
    else
      let i := scanBits (conv2 native (bitmap word)) 16 0
      -- Don't allocate bits beyond the end of the map.
      if mapBits ≤ block * 8192 + word * 16 + i then none else some (block * 8192 + word * 16 + i)

attribute [grind =] scanWords

/-- The loop over the blocks of a map, `bcount` times. -/
def scanBlocks (native : Bool) (mapBits bitBlocks : Nat) (blocks : Chunks) :
    Nat → Nat → Nat → Option Nat
  | 0, _, _ => none
  | bcount + 1, block, word =>
    match scanWords native mapBits block (blocks block) (512 - word) word with
    | some b => some b
    | none =>
      -- The last block is followed by the first.
      scanBlocks native mapBits bitBlocks blocks bcount
        (if bitBlocks ≤ block + 1 then 0 else block + 1) 0

/-! ### Allocating and freeing bits -/

/-- Store the chunk that a bit of a map is in, given in the byte order of the machine. -/
def Super.storeChunk (sp : Super) (map : BitMap) (chunks : Chunks) (b : Nat) (k : UInt16) :
    Chunks :=
  let block := sp.startBlock map + b / 8192
  update chunks block (update (chunks block) (b % 8192 / 16) (conv2 sp.native k))

/-- `1 << bit`, for the place of a bit in its chunk. -/
def mask (b : Nat) : UInt16 := .ofBitVec (1#16 <<< (b % 16))

/-- `alloc_bit`: the number of the bit allocated, and the chunks. -/
def allocBit (fs : Mounted) (map : BitMap) (origin : Nat) : Option (Nat × Chunks) :=
  if fs.rdOnly then none
  else
    let start := if fs.sp.mapBits map ≤ origin then 0 else origin -- for robustness
    match scanBlocks fs.sp.native (fs.sp.mapBits map) (fs.sp.bitBlocks map)
        (fun block => fs.chunks (fs.sp.startBlock map + block)) (fs.sp.bitBlocks map + 1)
        (start / 8192) (start % 8192 / 16) with
    | some b =>
      some (b, fs.sp.storeChunk map fs.chunks b (fs.sp.chunk map fs.chunks b ||| mask b))
    | none => some (noBit, fs.chunks)

/-- `free_bit`, which panics when the bit is not in use. -/
def freeBit (fs : Mounted) (map : BitMap) (bitReturned : Nat) : Option Chunks :=
  if fs.rdOnly then none
  else if fs.sp.bit map fs.chunks bitReturned then
    some (fs.sp.storeChunk map fs.chunks bitReturned
      (fs.sp.chunk map fs.chunks bitReturned &&& ~~~mask bitReturned))
  else none

/-! ### Allocating and freeing zones and inodes -/

/-- `alloc_zone`: allocate a new zone near `z`; 0 is `NO_ZONE`. -/
def allocZone (fs : Mounted) (z : UInt32) : Option (Mounted × UInt32) := do
  let first := fs.sp.disk.firstdatazone.toUInt32
  let (b, chunks) ← allocBit fs .zmap (if z = first then fs.zsearch else fs.sp.zoneBit z)
  if b = noBit then return ({ fs with chunks }, 0)
  return ({ fs with chunks, zsearch := if z = first then b else fs.zsearch },
    first - 1 + .ofNat b)

/-- `free_zone`. -/
def freeZone (fs : Mounted) (numb : UInt32) : Option Mounted := do
  if numb < fs.sp.disk.firstdatazone.toUInt32 ∨ fs.sp.disk.zones ≤ numb then return fs
  let bit := fs.sp.zoneBit numb
  let chunks ← freeBit fs .zmap bit
  return { fs with chunks, zsearch := if bit < fs.zsearch then bit else fs.zsearch }

/-- `alloc_inode`: the number of the inode allocated. `slot` says whether `get_inode` finds a free
slot for it. -/
def allocInode (fs : Mounted) (slot : Bool) : Option (Mounted × Option Nat) := do
  if fs.rdOnly then return (fs, none)
  let (b, chunks) ← allocBit fs .imap fs.isearch
  if b = noBit then return ({ fs with chunks }, none)
  let fs := { fs with chunks, isearch := b } -- next time start here
  if slot then return (fs, some b)
  -- No inode table slots available. Free the inode just allocated.
  let chunks ← freeBit fs .imap b
  return ({ fs with chunks }, none)

/-- `free_inode`. -/
def freeInode (fs : Mounted) (inumb : UInt16) : Option Mounted := do
  if inumb = 0 ∨ fs.sp.disk.ninodes < inumb then return fs
  let b := inumb.toNat
  let chunks ← freeBit fs .imap b
  return { fs with chunks, isearch := if b < fs.isearch then b else fs.isearch }

/-- The calls that change the bit maps. -/
inductive MapCall
  | allocInode (slot : Bool)
  | freeInode (inumb : UInt16)
  | allocZone (z : UInt32)
  | freeZone (numb : UInt32)

/-- One call on a mounted file system. -/
def Mounted.step (fs : Mounted) : MapCall → Option Mounted
  | .allocInode slot => (allocInode fs slot).map Prod.fst
  | .freeInode inumb => freeInode fs inumb
  | .allocZone z => (allocZone fs z).map Prod.fst
  | .freeZone numb => freeZone fs numb

end Minix.Disk
