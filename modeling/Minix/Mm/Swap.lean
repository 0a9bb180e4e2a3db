/-
This file models how MM hands out memory (`mm/alloc.c`): `alloc_mem`, which swaps processes out when
no hole is large enough, and `swap_on`.

The contents of memory and of the swap file are left out, and so is what the kernel is told. A
result that is `none` is a panic, a read or write through a pointer that points nowhere, or a loop
without end.
-/

import Minix.Kernel.Proc
import Minix.Library.Extents
import Minix.Mm.Holes

namespace Minix.Mm

open Function (update)
open LinkedList Kernel
open Extents (Extent)

/-- `NO_MEM` -/
def noMem : Nat := 0

/-- `LOW_USER` -/
def lowUser : Fin nrProcs := ⟨2, by decide⟩

namespace Memory

/-- A slot of `mproc`. The bits of `mp_flags` have a field each. -/
structure Mproc where
  seg : SegMap := {}
  ino : Nat := 0
  dev : Nat := 0
  ctime : Nat := 0
  inUse : Bool := false
  waiting : Bool := false
  zombie : Bool := false
  paused : Bool := false
  separate : Bool := false
  traced : Bool := false
  stopped : Bool := false
  sigsuspended : Bool := false
  reply : Bool := false
  onswap : Bool := false
  swapin : Bool := false
deriving DecidableEq

namespace Mproc

/-- The clicks of the data segment, the gap and the stack, which are swapped together. -/
def size (rmp : Mproc) : Nat :=
  Word.sub 32 (Word.add 32 rmp.seg.stack.vir rmp.seg.stack.len) rmp.seg.data.vir

/-- The memory of the data segment, the gap and the stack. -/
def image (rmp : Mproc) : Extent := { base := rmp.seg.data.phys, len := rmp.size }

/-- The process may be swapped out. -/
def candidate (rmp : Mproc) : Bool :=
  (rmp.paused || rmp.waiting || rmp.sigsuspended) && !(rmp.traced || rmp.reply || rmp.onswap)

/-- The data segment and the stack are somewhere else. -/
def moved (rmp : Mproc) (base : Nat) : Mproc :=
  { rmp with
    seg := { rmp.seg with
      data := { rmp.seg.data with phys := base }
      stack := { rmp.seg.stack with
        phys := Word.add 32 base (Word.sub 32 rmp.seg.stack.vir rmp.seg.data.vir) } } }

end Mproc

end Memory

/-- The variables of `mm/alloc.c` and the process table. `mp_swapq` is the successor of `inQueue`,
and `swapFd` says that the swap file is open. -/
structure Memory where
  holes : HoleTable (2 * nrProcs)
  mproc : Fin nrProcs → Memory.Mproc := fun _ => {}
  swapFd : Bool := false
  swapBase : Nat := 0
  swapMaxsize : Nat := 0
  inQueue : Links (Fin nrProcs) := { head := none, next := fun _ => none }
  outswap : Fin nrProcs := lowUser
  /-- The blocks that `swap_out` has moved, with where they went. It only records; no operation
  reads it. -/
  moves : List (Extent × Extent) := []

namespace Memory

/-- `++rmp`, which goes from the end of the table to the first user process. -/
def nextUser (rmp : Fin nrProcs) : Fin nrProcs :=
  if h : rmp.val + 1 < nrProcs then ⟨rmp.val + 1, h⟩ else lowUser

/-- A process goes to a hole in the swap area. -/
def sendOut (k : Memory) (rmp : Fin nrProcs) (holes : HoleTable (2 * nrProcs)) (newBase : Nat) :
    Option Memory :=
  (holes.freeMem (k.mproc rmp).seg.data.phys (k.mproc rmp).size).map fun holes =>
    { k with
      holes
      mproc := update k.mproc rmp { (k.mproc rmp).moved newBase with onswap := true }
      outswap := rmp
      moves := k.moves ++
        [((k.mproc rmp).image, { base := newBase, len := (k.mproc rmp).size })] }

/-- The loop of `swap_out`, from the process before the next one. `some none` is `FALSE`. -/
def swapOutFrom (k : Memory) : Nat → Fin nrProcs → Option (Option Memory)
  | 0, _ => none
  | fuel + 1, rmp =>
    let rmp := nextUser rmp
    let again := if rmp = k.outswap then some none else k.swapOutFrom fuel rmp
    if (k.mproc rmp).candidate then
      (k.holes.swapFit k.swapBase (k.mproc rmp).size).bind fun found =>
        match found with
        | none => again
        | some (holes, newBase) => (k.sendOut rmp holes newBase).map some
    else again

/-- `swap_out` -/
def swapOut (k : Memory) : Option (Option Memory) := k.swapOutFrom nrProcs k.outswap

/-- The loop of `alloc_mem`. -/
def allocLoop (clicks : Nat) : Nat → Memory → Option (Memory × Nat)
  | 0, _ => none
  | fuel + 1, k =>
    (k.holes.firstFit k.swapBase clicks).bind fun found =>
      match found with
      | some (holes, base) => some ({ k with holes }, base)
      | none =>
        k.swapOut.bind fun swapped =>
          match swapped with
          | none => some (k, noMem)
          | some k => allocLoop clicks fuel k

/-- `alloc_mem`. Each turn of the loop but the last swaps one process out. -/
def allocMem (k : Memory) (clicks : Nat) : Option (Memory × Nat) :=
  allocLoop clicks (nrProcs + 1) k

/-- `free_mem` -/
def freeMem (k : Memory) (base clicks : Nat) : Option Memory :=
  (k.holes.freeMem base clicks).map fun holes => { k with holes }

/-- One more chunk of memory, with its base and size, in `mem_init`. -/
def addChunk (k : Memory) (chunk : Nat × Nat) : Option Memory :=
  (k.freeMem chunk.1 chunk.2).map fun k =>
    if k.swapBase < Word.add 32 chunk.1 chunk.2 then
      { k with swapBase := Word.add 32 chunk.1 chunk.2 }
    else k

/-- `mem_init`, for the chunks that the kernel names. -/
def memInit (chunks : List (Nat × Nat)) : Option Memory :=
  (chunks.foldlM addChunk { holes := .empty _ }).map fun k =>
    let swapBase := Word.add 32 k.swapBase 1
    { k with swapBase, swapMaxsize := Word.sub 32 0 swapBase }

/-- What a call that fails returns. -/
inductive Error
  | ebusy
  | enomem
  | noFile
deriving DecidableEq

/-- `swap_on`. Whether the file can be opened is an input; the size is in bytes. -/
def swapOn (k : Memory) (opens : Bool) (size : Nat) : Option (Memory × Except Error Unit) :=
  if k.swapFd then some (k, .error .ebusy)
  else if opens = false then some (k, .error .noFile)
  else
    let size := min (size / clickSize) k.swapMaxsize
    let k := { k with swapFd := true }
    (if 0 < size then k.freeMem k.swapBase size else some k).map fun k => (k, .ok ())

/-- The user processes, in the order of the table. -/
def users : List (Fin nrProcs) := (List.finRange nrProcs).drop lowUser.val

end Memory

end Minix.Mm
