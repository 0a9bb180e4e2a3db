/-
This file models the buffer cache of the file server (`fs/cache.c`, `fs/buf.h`, `buf_pool` in
`fs/main.c` and `rahead` in `fs/read.c`) with its pointers: the LRU chain, which is linked in both
directions, and the hash chains.

The fields of the buffers are tables indexed by the number of the buffer. What the devices and the
second level cache answer is not known; the answers come one after the other from a sequence, and
the pool counts how many it has used. A block of a device is known by its number. A result that is
`none` is a panic, a null pointer, or a loop that has not ended within the fuel.
-/

import Minix.Library.LinkedList
import Mathlib.Data.UInt

namespace Minix.Cache

open Function (update)

/-! ### The pool -/

/-- A buffer; there are `NR_BUFS` of them. -/
abbrev BufNr := Fin 80

/-- A hash chain; there are `NR_BUF_HASH` of them. -/
abbrev HashNr := Fin 128

/-- `dev_t`; `NO_DEV` is 0. -/
abbrev Dev := UInt16

/-- `block_t`. -/
abbrev BlockNr := UInt32

/-- `block & HASH_MASK`. -/
def hashOf (block : BlockNr) : HashNr := Fin.ofNat 128 block.toNat

/-- `BLOCK_SIZE`. -/
def blockSize : Nat := 1024

/-- `NR_IOREQS`. -/
def nrIoreqs : Nat := 64

/-- `END_OF_FILE`. -/
def endOfFile : Int := -104

/-- An answer to a request for I/O: the result, and for each part of the request the bytes that
are left to transfer and what an incomplete transfer leaves at its destination. The second level
cache answers with a block, or has none. -/
structure Answer (Data : Type) where
  r : Int := 0
  left : Nat → Nat := fun _ => 0
  garbage : Nat → Option Data := fun _ => none
  second : Option Data := none

/-- `buf[]` with `buf_hash[]`, `front`, `rear`, `bufs_in_use` and `rdwt_err`, and the devices. -/
structure Pool (Data : Type) where
  data : BufNr → Data
  next : BufNr → Option BufNr
  prev : BufNr → Option BufNr
  hash : BufNr → Option BufNr
  blocknr : BufNr → BlockNr
  dev : BufNr → Dev
  dirt : BufNr → Bool
  /-- A `char`. -/
  count : BufNr → Int8
  bufHash : HashNr → Option BufNr
  front : Option BufNr
  rear : Option BufNr
  bufsInUse : Int
  rdwtErr : Int
  /-- The blocks of the devices. -/
  disk : Dev → BlockNr → Data
  /-- How many answers have been used. -/
  asked : Nat

variable {Data : Type}

/-- `bp + 1`, except for the last buffer. -/
def following (bp : BufNr) : Option BufNr :=
  if last : bp.val + 1 < 80 then some ⟨bp.val + 1, last⟩ else none

/-- `bp - 1`, except for the first buffer. -/
def preceding (bp : BufNr) : Option BufNr :=
  if bp.val = 0 then none else some ⟨bp.val - 1, by omega⟩

/-- `buf_pool`: the buffers are linked in the order of their numbers. -/
def bufPool (data : BufNr → Data) (disk : Dev → BlockNr → Data) : Pool Data where
  data := data
  disk := disk
  next := following
  prev := preceding
  hash := following
  blocknr _ := 0
  dev _ := 0
  dirt _ := false
  count _ := 0
  bufHash h := if h = 0 then some 0 else none
  front := some 0
  rear := some 79
  bufsInUse := 0
  rdwtErr := 0
  asked := 0

/-! ### The LRU chain -/

/-- `rm_lru`: remove a block from its LRU chain. -/
def rmLru (c : Pool Data) (bp : BufNr) : Pool Data :=
  let c := { c with bufsInUse := c.bufsInUse + 1 }
  let nextPtr := c.next bp
  let prevPtr := c.prev bp
  let c := match prevPtr with
    | some p => { c with next := update c.next p nextPtr }
    | none => { c with front := nextPtr }
  match nextPtr with
  | some q => { c with prev := update c.prev q prevPtr }
  | none => { c with rear := prevPtr }

/-- The block is put on the front of the LRU chain. -/
def putFront (c : Pool Data) (bp : BufNr) : Pool Data :=
  let c := { c with prev := update c.prev bp none, next := update c.next bp c.front }
  match c.front with
  | none => { c with rear := some bp, front := some bp }
  | some f => { c with prev := update c.prev f (some bp), front := some bp }

/-- The block is put on the rear of the LRU chain. -/
def putRear (c : Pool Data) (bp : BufNr) : Pool Data :=
  let c := { c with prev := update c.prev bp c.rear, next := update c.next bp none }
  match c.rear with
  | none => { c with front := some bp, rear := some bp }
  | some l => { c with next := update c.next l (some bp), rear := some bp }

/-! ### Input and output -/

/-- What a request transfers leaves the destination complete, or as the device has left it. -/
def Answer.transfer (a : Answer Data) (i : Nat) (complete old : Data) : Data :=
  if a.left i = 0 then complete else (a.garbage i).getD old

/-- `READING` or `WRITING`. -/
inductive RwFlag
  | reading
  | writing
  deriving DecidableEq, Repr

/-- `rw_block`: read or write a disk block. -/
def rwBlock (io : Nat → Answer Data) (c : Pool Data) (bp : BufNr) (rwFlag : RwFlag) : Pool Data :=
  let dev := c.dev bp
  if dev = 0 then { c with dirt := update c.dirt bp false }
  else
    let a := io c.asked
    let c := { c with asked := c.asked + 1 }
    let block := c.blocknr bp
    let complete := a.r = blockSize
    let c := match rwFlag with
      | .reading =>
        let data := if complete then c.disk dev block else (a.garbage 0).getD (c.data bp)
        { c with data := update c.data bp data }
      | .writing =>
        let data := if complete then c.data bp else (a.garbage 0).getD (c.disk dev block)
        { c with disk := update c.disk dev (update (c.disk dev) block data) }
    let c := if complete then c else
      { c with
        dev := update c.dev bp 0 -- invalidate block
        -- Report read errors to interested parties.
        rdwtErr := match rwFlag with
          | .reading => if 0 ≤ a.r then endOfFile else a.r
          | .writing => c.rdwtErr }
    { c with dirt := update c.dirt bp false }

/-- Put a block back on the LRU chain, on the front if it is not likely to be needed again. -/
def putBack (c : Pool Data) (bp : BufNr) (oneShot : Bool) : Pool Data :=
  let c := { c with bufsInUse := c.bufsInUse - 1 }
  if oneShot then putFront c bp else putRear c bp

/-- `put_block`: return a block to the list of available blocks. The type of the block says
whether it goes to the front and whether it is written immediately. -/
def putBlock (io : Nat → Answer Data) (c : Pool Data) (bp : BufNr) (oneShot writeImmed : Bool) :
    Pool Data :=
  let c := { c with count := update c.count bp (c.count bp - 1) }
  if c.count bp ≠ 0 then c -- block is still in use
  else
    let c := putBack c bp oneShot
    if writeImmed ∧ c.dirt bp ∧ c.dev bp ≠ 0 then rwBlock io c bp .writing else c

/-- `put_block` with `PARTIAL_DATA_BLOCK` or `FULL_DATA_BLOCK`. -/
def putDataBlock (io : Nat → Answer Data) (c : Pool Data) (bp : BufNr) : Pool Data :=
  putBlock io c bp false false

/-! ### Scattered transfers -/

/-- `do gap = 3 * gap + 1; while (gap <= bufqsize)`, from the first value on. -/
def widenGap (bufqsize : Nat) : Nat → Nat → Nat
  | 0, gap => gap
  | fuel + 1, gap => if gap ≤ bufqsize then widenGap bufqsize fuel (3 * gap + 1) else gap

/-- The inner loop of the sort: the element at `i + gap` sinks in steps of `gap`. -/
def sink (blocknr : BufNr → BlockNr) (gap : Nat) : Nat → Nat → List BufNr → List BufNr
  | 0, _, q => q
  | fuel + 1, i, q =>
    match q[i]?, q[i + gap]? with
    | some low, some high =>
      if blocknr high < blocknr low then
        let q := q.swap i (i + gap)
        if gap ≤ i then sink blocknr gap fuel (i - gap) q else q
      else q
    | _, _ => q

/-- One pass of the sort: `for (j = gap; j < bufqsize; j++)`, from `j` on. -/
def sortPass (blocknr : BufNr → BlockNr) (gap : Nat) : Nat → Nat → List BufNr → List BufNr
  | 0, _, q => q
  | passes + 1, j, q =>
    sortPass blocknr gap passes (j + 1) (sink blocknr gap q.length (j - gap) q)

/-- `while (gap != 1)`: the passes, each with a third of the gap before. -/
def sortGaps (blocknr : BufNr → BlockNr) : Nat → Nat → List BufNr → Option (List BufNr)
  | 0, _, _ => none
  | fuel + 1, gap, q =>
    if gap = 1 then some q
    else sortGaps blocknr fuel (gap / 3) (sortPass blocknr (gap / 3) (q.length - gap / 3) (gap / 3) q)

/-- (Shell) sort buffers on `b_blocknr`. The fuel is enough for every loop that ends. -/
def shellSort (blocknr : BufNr → BlockNr) (bufq : List BufNr) : Option (List BufNr) :=
  let gap := widenGap bufq.length bufq.length 4
  sortGaps blocknr gap gap bufq

/-- The buffers at the head of the queue that make up one request: consecutive blocks, `NR_IOREQS`
of them at most. -/
def adjacent (blocknr : BufNr → BlockNr) (block : BlockNr) : Nat → List BufNr → List BufNr
  | 0, _ => []
  | _, [] => []
  | reqs + 1, bp :: bufq =>
    if blocknr bp = block then bp :: adjacent blocknr (block + 1) reqs bufq else []

/-- What the device does for request number `i`. -/
def deviceBlock (a : Answer Data) (dev : Dev) (rwFlag : RwFlag) (i : Nat) (c : Pool Data)
    (bp : BufNr) : Pool Data :=
  let block := c.blocknr bp
  match rwFlag with
  | .reading => { c with data := update c.data bp (a.transfer i (c.disk dev block) (c.data bp)) }
  | .writing =>
    let data := a.transfer i (c.data bp) (c.disk dev block)
    { c with disk := update c.disk dev (update (c.disk dev) block data) }

/-- What the device does for the requests from number `i` on. -/
def deviceIo (a : Answer Data) (dev : Dev) (rwFlag : RwFlag) : Nat → List BufNr → Pool Data →
    Pool Data
  | _, [], c => c
  | i, bp :: reqs, c => deviceIo a dev rwFlag (i + 1) reqs (deviceBlock a dev rwFlag i c bp)

/-- A block was transferred: a block read is validated and released, a block written is clean. -/
def harvestBlock (io : Nat → Answer Data) (dev : Dev) (rwFlag : RwFlag) (c : Pool Data)
    (bp : BufNr) : Pool Data :=
  match rwFlag with
  | .reading => putDataBlock io { c with dev := update c.dev bp dev } bp
  | .writing => { c with dirt := update c.dirt bp false }

/-- Harvest the results, from request `i` on: the number of requests done. -/
def harvest (io : Nat → Answer Data) (a : Answer Data) (dev : Dev) (rwFlag : RwFlag) :
    Nat → List BufNr → Pool Data → Nat × Pool Data
  | i, [], c => (i, c)
  | i, bp :: reqs, c =>
    if a.left i ≠ 0 then
      -- Transfer failed. An error? Do we care?
      (i, if a.r ≠ 0 ∧ i = 0 then { c with dev := update c.dev bp 0 } else c)
    else harvest io a dev rwFlag (i + 1) reqs (harvestBlock io dev rwFlag c bp)

attribute [grind =] harvest

/-- The loop that does I/O for the queue; a read makes a single request. -/
def ioLoop (io : Nat → Answer Data) (dev : Dev) (rwFlag : RwFlag) :
    Nat → List BufNr → Pool Data → Option (Pool Data)
  | _, [], c => some c
  | 0, _ :: _, _ => none
  | fuel + 1, bp :: rest, c =>
    let bufq := bp :: rest
    let reqs := adjacent c.blocknr (c.blocknr bp) nrIoreqs bufq
    let a := io c.asked
    let c := { c with asked := c.asked + 1 }
    let (i, c) := harvest io a dev rwFlag 0 reqs (deviceIo a dev rwFlag 0 reqs c)
    match rwFlag with
    | .reading => some ((bufq.drop i).foldl (putDataBlock io) c)
    | .writing => ioLoop io dev rwFlag fuel (bufq.drop i) c

/-- `rw_scattered`: read or write scattered data from a device. -/
def rwScattered (io : Nat → Answer Data) (fuel : Nat) (c : Pool Data) (dev : Dev)
    (bufq : List BufNr) (rwFlag : RwFlag) : Option (Pool Data) := do
  let sorted ← shellSort c.blocknr bufq
  ioLoop io dev rwFlag fuel sorted c

/-- `flushall`: flush all dirty blocks for one device. -/
def flushall (io : Nat → Answer Data) (fuel : Nat) (c : Pool Data) (dev : Dev) :
    Option (Pool Data) :=
  rwScattered io fuel c dev ((List.finRange 80).filter fun bp => c.dirt bp && c.dev bp == dev)
    .writing

/-- `invalidate`: remove all the blocks of a device from the cache. -/
def invalidate (c : Pool Data) (device : Dev) : Pool Data :=
  { c with dev := fun bp => if c.dev bp = device then 0 else c.dev bp }

/-! ### Getting blocks -/

/-- The third parameter of `get_block`. -/
inductive Search
  | normal
  | noRead
  | prefetch
  deriving DecidableEq, Repr

/-- Remove a block from its hash chain. -/
def unhash (c : Pool Data) (bp : BufNr) : Option (Pool Data) := do
  let b := hashOf (c.blocknr bp)
  match ← LinkedList.scan c.hash (· == bp) 80 none (c.bufHash b) with
  | some (none, _) => some { c with bufHash := update c.bufHash b (c.hash bp) }
  | some (some previous, _) => some { c with hash := update c.hash previous (c.hash bp) }
  -- The block is not on the chain; the first pointer of an empty chain is followed all the same.
  | none => (c.bufHash b).map fun _ => c

/-- Fill in a block's parameters and add it to the hash chain where it goes. -/
def rename (c : Pool Data) (bp : BufNr) (dev : Dev) (block : BlockNr) : Pool Data :=
  let b := hashOf block
  { c with
    dev := update c.dev bp dev
    blocknr := update c.blocknr bp block
    count := update c.count bp (c.count bp + 1)
    hash := update c.hash bp (c.bufHash b)
    bufHash := update c.bufHash b (some bp) }

/-- Go get the requested block: from the second level cache, or from the disk unless searching or
prefetching. -/
def fetch (io : Nat → Answer Data) (c : Pool Data) (bp : BufNr) (onlySearch : Search) :
    Pool Data :=
  if c.dev bp = 0 then c
  else
    let second := if onlySearch = .noRead then none else (io c.asked).second
    let c := { c with asked := c.asked + 1 }
    match second, onlySearch with
    | some data, _ => { c with data := update c.data bp data }
    | none, .prefetch => { c with dev := update c.dev bp 0 }
    | none, .normal => rwBlock io c bp .reading
    | none, .noRead => c

/-- The search of a hash chain for a block. -/
def findBlock (c : Pool Data) (dev : Dev) (block : BlockNr) :
    Option (Option (Option BufNr × BufNr)) :=
  LinkedList.scan c.hash (fun bp => c.blocknr bp == block && c.dev bp == dev) 80 none
    (c.bufHash (hashOf block))

/-- Record that a block that was found is in use. -/
def use (c : Pool Data) (bp : BufNr) : Pool Data :=
  let c := if c.count bp = 0 then rmLru c bp else c
  { c with count := update c.count bp (c.count bp + 1) }

/-- If the block taken is dirty, make it clean by writing it to the disk. Avoid hysteresis by
flushing all other dirty blocks for the same device. -/
def cleanTaken (io : Nat → Answer Data) (fuel : Nat) (c : Pool Data) (bp : BufNr) :
    Option (Pool Data) :=
  if c.dev bp ≠ 0 ∧ c.dirt bp then flushall io fuel c (c.dev bp) else some c

/-- Take the oldest block, `front`, and make it hold another block. -/
def replaceFront (io : Nat → Answer Data) (fuel : Nat) (c : Pool Data) (dev : Dev)
    (block : BlockNr) (onlySearch : Search) : Option (BufNr × Pool Data) := do
  let bp ← c.front
  let c ← unhash (rmLru c bp) bp
  let c ← cleanTaken io fuel c bp
  return (bp, fetch io (rename c bp dev block) bp onlySearch)

/-- `get_block`. -/
def getBlock (io : Nat → Answer Data) (fuel : Nat) (c : Pool Data) (dev : Dev) (block : BlockNr)
    (onlySearch : Search) : Option (BufNr × Pool Data) := do
  if dev = 0 then replaceFront io fuel c dev block onlySearch
  else
    match ← findBlock c dev block with
    | some (_, bp) => return (bp, use c bp)
    | none => replaceFront io fuel c dev block onlySearch

/-! ### Reading ahead -/

/-- The fields of an inode that `rahead` looks at. -/
structure AheadInode where
  blockSpec : Bool
  /-- `i_zone[0]` of a block special file, else `i_dev`. -/
  dev : Dev
  size : UInt32
  /-- `i_seek` is `NO_SEEK`. -/
  noSeek : Bool
  ndzones : UInt32
  /-- `s_log_zone_size`. -/
  scale : UInt32

/-- How many blocks to read. -/
def blocksAhead (rip : AheadInode) (position bytesAhead : UInt32) : UInt32 :=
  let fragment := position % 1024
  let position := position - fragment
  let wanted := (bytesAhead + fragment + 1024 - 1) / 1024
  let left := if rip.blockSpec ∧ rip.size = 0 then (64 : UInt32)
    else (rip.size - position + 1024 - 1) / 1024
  -- Go for the first indirect block if we are in its neighborhood.
  let ind1Pos := rip.ndzones * (1024 <<< rip.scale)
  let near : UInt32 :=
    if ¬ rip.blockSpec ∧ position ≤ ind1Pos ∧ ind1Pos < rip.size then 1 else 0
  let wanted := min (wanted + near) 64
  let wanted := if wanted < 32 ∧ rip.noSeek then 32 else wanted
  -- Can't go past end of file.
  min wanted (left + near)

/-- Acquire block buffers: `bp` holds `block` and has not been queued yet. -/
def acquire (io : Nat → Answer Data) (flushFuel : Nat) (dev : Dev) :
    Nat → UInt32 → BlockNr → BufNr → List BufNr → Pool Data → Option (List BufNr × Pool Data)
  | 0, _, _, _, _, _ => none
  | fuel + 1, ahead, block, bp, readQ, c =>
    let readQ := readQ ++ [bp]
    let ahead := ahead - 1
    if ahead = 0 then some (readQ, c)
    -- Don't trash the cache, leave 4 free.
    else if 76 ≤ c.bufsInUse then some (readQ, c)
    else do
      let (bp, c) ← getBlock io flushFuel c dev (block + 1) .prefetch
      -- Oops, block already in the cache, get out.
      if c.dev bp ≠ 0 then return (readQ, putDataBlock io c bp)
      else acquire io flushFuel dev fuel ahead (block + 1) bp readQ c

/-- `rahead`: fetch a block from the cache or the device. -/
def rahead (io : Nat → Answer Data) (fuel : Nat) (c : Pool Data) (rip : AheadInode)
    (baseblock : BlockNr) (position bytesAhead : UInt32) : Option (BufNr × Pool Data) := do
  let (bp, c) ← getBlock io fuel c rip.dev baseblock .prefetch
  if c.dev bp ≠ 0 then return (bp, c)
  else
    let (readQ, c) ←
      acquire io fuel rip.dev fuel (blocksAhead rip position bytesAhead) baseblock bp [] c
    let c ← rwScattered io fuel c rip.dev readQ .reading
    getBlock io fuel c rip.dev baseblock .normal

end Minix.Cache
