/-
This file models the hole table of MM (`mm/alloc.c`): the list of the holes in memory, sorted by
address, and the list of the table slots that hold no hole.

Both lists run through `h_next`. Addresses and lengths are words that count clicks. A result that
is `none` is a panic, or a write through a pointer that points nowhere.
-/

import Minix.Library.Cursor
import Minix.Library.Numerals

namespace Minix.Mm

open Function (update)
open LinkedList

/-- `hole`, `hole_head` (the head of `links`) and `free_slots`. -/
structure HoleTable (n : Nat) where
  links : Links (Fin n)
  base : Fin n → Nat
  len : Fin n → Nat
  freeSlots : Option (Fin n)

namespace HoleTable

variable {n : Nat}

/-- `del_slot` -/
def delSlot (t : HoleTable n) (prev : Option (Fin n)) (hp : Fin n) : Option (HoleTable n) :=
  (if t.links.head = some hp then some (t.links.remove none hp)
    else prev.map fun prev => t.links.remove (some prev) hp).map fun links =>
    { t with
      links := { links with next := update links.next hp t.freeSlots }
      freeSlots := some hp }

/-- A hole gets the memory of its successor, whose slot is given back. -/
def absorb (t : HoleTable n) (hp nextPtr : Fin n) : Option (HoleTable n) :=
  delSlot { t with len := update t.len hp (Word.add 32 (t.len hp) (t.len nextPtr)) } (some hp)
    nextPtr

/-- The second half of `merge`. -/
def mergeLast (t : HoleTable n) (hp : Fin n) : Option (HoleTable n) :=
  match t.links.next hp with
  | none => some t
  | some nextPtr =>
    if Word.add 32 (t.base hp) (t.len hp) = t.base nextPtr then t.absorb hp nextPtr else some t

/-- `merge` -/
def merge (t : HoleTable n) (hp : Fin n) : Option (HoleTable n) :=
  match t.links.next hp with
  | none => some t
  | some nextPtr =>
    if Word.add 32 (t.base hp) (t.len hp) = t.base nextPtr then
      (t.absorb hp nextPtr).bind fun t => t.mergeLast hp
    else t.mergeLast nextPtr

/-- `free_mem`. The test for the front of the list is the first one of the loop behind it. -/
def freeMem (t : HoleTable n) (base clicks : Nat) : Option (HoleTable n) :=
  if clicks = 0 then some t
  else
    t.freeSlots.bind fun newPtr =>
      let t := { t with
        base := update t.base newPtr base
        len := update t.len newPtr clicks
        freeSlots := t.links.next newPtr }
      (t.links.seek (fun hp => base ≤ t.base hp) (n + 1) none).bind fun prev =>
        merge { t with links := t.links.insert prev newPtr } (prev.getD newPtr)

/-- A piece is bitten off at the start of a hole, which is deleted if it is used up. -/
def bite (t : HoleTable n) (prev : Option (Fin n)) (hp : Fin n) (clicks : Nat) :
    Option (HoleTable n) :=
  let t := { t with
    base := update t.base hp (Word.add 32 (t.base hp) clicks)
    len := update t.len hp (Word.sub 32 (t.len hp) clicks) }
  if t.len hp = 0 then t.delSlot prev hp else some t

/-- A walk along the list to the first hole where it stops; that hole is used if it suits. The
address of the piece is that of the hole. -/
def takeAt (t : HoleTable n) (stop suits : Fin n → Bool) (clicks : Nat) :
    Option (Option (HoleTable n × Nat)) :=
  (t.links.seek stop (n + 1) none).bind fun prev =>
    match t.links.read prev with
    | none => some none
    | some hp =>
      if suits hp then (t.bite prev hp clicks).map fun t' => some (t', t.base hp) else some none

/-- The search of `alloc_mem`, which ends at the swap area. -/
def firstFit (t : HoleTable n) (swapBase clicks : Nat) : Option (Option (HoleTable n × Nat)) :=
  t.takeAt (fun hp => !(t.base hp < swapBase) || clicks ≤ t.len hp) (fun hp => t.base hp < swapBase)
    clicks

/-- The search of `swap_out`, for a hole in the swap area. -/
def swapFit (t : HoleTable n) (swapBase size : Nat) : Option (Option (HoleTable n × Nat)) :=
  t.takeAt (fun hp => swapBase ≤ t.base hp && size ≤ t.len hp) (fun _ => true) size

/-- The table when all slots are free, as `mem_init` links them. -/
def empty (n : Nat) : HoleTable n where
  links :=
    { head := none
      next := fun hp => if h : hp.val + 1 < n then some ⟨hp.val + 1, h⟩ else none }
  base := fun _ => 0
  len := fun _ => 0
  freeSlots := if h : 0 < n then some ⟨0, h⟩ else none

end HoleTable

end Minix.Mm
