/-
This file models the heap allocator of the C library (`lib/ansi/malloc.c`) for 32-bit integers and
pointers: `grow`, `malloc`, `realloc` and `free`, without the assertions that `DEBUG` turns on.

Addresses and sizes are numbers below `2 ^ 32`, and sums wrap. The memory is given by words, since
the allocator uses multiples of `PTRSIZE` only; a byte of a block is part of its word. The outcome
of `_sbrk` and `_brk` is an input. A result that is `none` is a search that does not end.
-/

import Minix.Library.Cursor
import Minix.Library.Transition

namespace Minix.Malloc

open LinkedList

/-! ### Arithmetic -/

/-- `PTRSIZE`. -/
def ptrSize : Nat := 4

/-- `BRKSIZE`. -/
def brkSize : Nat := 4096

/-- The sum of two words. -/
def add (x y : Nat) : Nat := (x + y) % 2 ^ 32

/-- The difference of two words. -/
def sub (x y : Nat) : Nat := (x + (2 ^ 32 - y)) % 2 ^ 32

/-- `Align(x,a)`, for a power of two. -/
def align (x a : Nat) : Nat := add x (a - 1) / a * a

/-- A pointer that may be null. -/
def ptr (p : Nat) : Option Nat := if p = 0 then none else some p

/-! ### The heap -/

/-- The memory, and the static variables `_bottom`, `_top` and `_empty`. -/
structure Heap where
  mem : Nat → Nat := fun _ => 0
  bottom : Nat := 0
  top : Nat := 0
  empty : Nat := 0

namespace Heap

/-- `NextSlot(p)`. -/
def nextSlot (s : Heap) (p : Nat) : Nat := s.mem (p - ptrSize)

def setNextSlot (s : Heap) (p next : Nat) : Heap :=
  { s with mem := Function.update s.mem (p - ptrSize) next }

/-- `NextFree(p)`. -/
def nextFree (s : Heap) (p : Nat) : Nat := s.mem p

def setNextFree (s : Heap) (p next : Nat) : Heap := { s with mem := Function.update s.mem p next }

/-- The list of free slots. -/
def frees (s : Heap) : Links Nat where
  head := ptr s.empty
  next p := ptr (s.nextFree p)

/-- Let the slot before, or `_empty` if there is none, point to a free slot. -/
def link (s : Heap) (prev : Option Nat) (p : Nat) : Heap :=
  match prev with
  | none => { s with empty := p }
  | some prev => s.setNextFree prev p

/-- What the slot before, or `_empty`, points to. -/
def linked (s : Heap) (prev : Option Nat) : Nat :=
  match prev with
  | none => s.empty
  | some prev => s.nextFree prev

/-- A walk over more free slots than there are words never ends. -/
def walkFuel : Nat := 2 ^ 32 + 1

/-- Merge a free slot with the next one if that is free. -/
def mergeFree (s : Heap) (p next : Nat) : Heap :=
  if s.nextSlot p = next then
    let s := s.setNextSlot p (s.nextSlot next)
    s.setNextFree p (s.nextFree next)
  else s

def free (s : Heap) (p : Nat) : Option Heap :=
  if p = 0 then some s
  else do
    let prev ← s.frees.seek (fun next => decide (p < next)) walkFuel none
    let next := s.linked prev
    let s := s.setNextFree p next
    let s := s.link prev p
    let s := if next = 0 then s else s.mergeFree p next
    some (match prev with
      | none => s
      | some prev => s.mergeFree prev p)

end Heap

/-- What `_sbrk` and `_brk` do during a call. -/
structure Brk where
  sbrk : Option Nat
  brk : Bool

namespace Heap

/-- `grow` returns the heap with a larger last slot; the inner result is `none` if the memory
cannot be had. -/
def grow (s : Heap) (env : Brk) (len : Nat) : Option (Option Heap) :=
  let p := align (add s.top len) brkSize
  if add s.top len < s.top ∨ p < s.top then some none
  else if env.brk = false then some none
  else do
    let s := s.setNextSlot s.top p
    let s := s.setNextSlot p 0
    let s ← s.free s.top
    some (some { s with top := p })

/-- The first call makes a heap with no slots but the top. -/
def start (s : Heap) (env : Brk) : Option Heap :=
  if s.bottom ≠ 0 then some s
  else
    env.sbrk.map fun p =>
      let p := add (align p ptrSize) ptrSize
      { s with top := p, bottom := p }.setNextSlot p 0

/-- A free slot that is not too small. -/
def fits (s : Heap) (len p : Nat) : Bool :=
  !(decide (s.nextSlot p < add p len) || decide (add p len ≤ p))

/-- Split a free slot that is too big. -/
def splitFree (s : Heap) (p len : Nat) : Heap :=
  let next := s.nextSlot p
  let new := add p len
  if add new ptrSize < next then
    let s := s.setNextSlot new next
    let s := s.setNextSlot p new
    let s := s.setNextFree new (s.nextFree p)
    s.setNextFree p new
  else s

/-- The tries of `malloc`; the result is 0 for `NULL`. -/
def mallocTries (env : Brk) (size : Nat) : Nat → Heap → Option (Heap × Nat)
  | 0, s => some (s, 0)
  | tries + 1, s =>
    let len := add (align size ptrSize) ptrSize
    if len < 2 * ptrSize then some (s, 0)
    else
      match s.start env with
      | none => some (s, 0)
      | some s => do
        let prev ← s.frees.seek (s.fits len) walkFuel none
        let p := s.linked prev
        if p ≠ 0 then
          let s := s.splitFree p len
          some (s.link prev (s.nextFree p), p)
        else
          match ← s.grow env len with
          | none => some (s, 0)
          | some s => mallocTries env size tries s

def malloc (s : Heap) (env : Brk) (size : Nat) : Option (Heap × Nat) :=
  if size = 0 then some (s, 0) else mallocTries env size 2 s

/-- `memcpy(new, old, n)` for `n` bytes of whole words. -/
def memcpy (s : Heap) (new old n : Nat) : Heap :=
  { s with mem := fun p => if new ≤ p ∧ p < new + n then s.mem (old + (p - new)) else s.mem p }

/-- Extend a slot if there is any free space just behind it. -/
def extend (s : Heap) (old : Nat) : Option Heap := do
  let next := s.nextSlot old
  let prev ← s.frees.seek (fun p => decide (next ≤ p)) walkFuel none
  let p := s.linked prev
  if p ≠ 0 ∧ p = next then
    let s := s.setNextSlot old (s.nextSlot p)
    some (s.link prev (s.nextFree p))
  else some s

def realloc (s : Heap) (env : Brk) (old size : Nat) : Option (Heap × Nat) :=
  if old = 0 then s.malloc env size
  else if size = 0 then (s.free old).map fun s => (s, 0)
  else do
    let len := add (align size ptrSize) ptrSize
    let n := sub (s.nextSlot old) old
    let s ← s.extend old
    let next := s.nextSlot old
    let new := add old len
    if new ≤ next ∧ old ≤ new then
      if add new ptrSize < next then
        let s := s.setNextSlot new next
        let s := s.setNextSlot old new
        let s ← s.free new
        some (s, old)
      else some (s, old)
    else
      let (s, new) ← s.malloc env size
      if new = 0 then some (s, 0)
      else do
        let s ← (s.memcpy new old n).free old
        some (s, new)

end Heap

end Minix.Malloc
