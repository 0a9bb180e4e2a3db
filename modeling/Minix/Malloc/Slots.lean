/-
This file describes a heap by its slots: where they are, which of them are live and how many bytes
a live one must hold. `Laid` says that the pointers in the memory match. Each edit of the allocator,
such as splitting a slot or merging two, is one lemma about `Laid`.

The allocator writes to the words that link the slots and to the first words of free slots. `away`
says that none of them belongs to a live block.
-/

import Minix.Library.Successor
import Minix.Malloc.Malloc

namespace Minix.Malloc

open Function (update update_of_ne update_self)
open LinkedList Successor

/-! ### Writes to the memory -/

section Memory

variable {s : Heap} {p q v : Nat}

theorem ptr_eq_some : ptr p = some q ↔ p = q ∧ q ≠ 0 := by
  unfold ptr
  split
  · simp only [reduceCtorEq, false_iff]
    omega
  · simp only [Option.some.injEq]
    omega

theorem ptr_of_ne (used : p ≠ 0) : ptr p = some p := if_neg used

theorem nextSlot_setNextSlot_self : (s.setNextSlot p v).nextSlot p = v :=
  update_self _ _ _

theorem nextSlot_setNextSlot_of_ne (low : 8 ≤ p) (low' : 8 ≤ q) (other : q ≠ p) :
    (s.setNextSlot p v).nextSlot q = s.nextSlot q :=
  update_of_ne (by simp only [ptrSize]; omega) _ _

theorem nextFree_setNextSlot (low : 8 ≤ p) (apart : q + 4 ≠ p) :
    (s.setNextSlot p v).nextFree q = s.nextFree q :=
  update_of_ne (by simp only [ptrSize]; omega) _ _

theorem nextFree_setNextFree_self : (s.setNextFree p v).nextFree p = v :=
  update_self _ _ _

theorem nextFree_setNextFree_of_ne (other : q ≠ p) :
    (s.setNextFree p v).nextFree q = s.nextFree q :=
  update_of_ne other _ _

theorem nextSlot_setNextFree (low : 8 ≤ q) (apart : p + 4 ≠ q) :
    (s.setNextFree p v).nextSlot q = s.nextSlot q :=
  update_of_ne (by simp only [ptrSize]; omega) _ _

theorem nextSlot_link {prev : Option Nat} (low : 8 ≤ q) (apart : ∀ p ∈ prev, p + 4 ≠ q) :
    (s.link prev v).nextSlot q = s.nextSlot q := by
  cases prev with
  | none => rfl
  | some p => exact nextSlot_setNextFree low (apart p rfl)

/-- The list of all slots. -/
def Heap.slots (s : Heap) : Links Nat where
  head := ptr s.bottom
  next p := ptr (s.nextSlot p)

theorem frees_read (prev : Option Nat) : s.frees.read prev = ptr (s.linked prev) := by
  cases prev <;> rfl

theorem frees_link (prev : Option Nat) :
    (s.link prev v).frees = s.frees.write prev (ptr v) := by
  cases prev with
  | none => rfl
  | some p =>
    refine congrArg (Links.mk _) (funext fun q => ?_)
    by_cases same : q = p
    · subst same
      rw [update_self]
      exact congrArg ptr nextFree_setNextFree_self
    · rw [update_of_ne same]
      exact congrArg ptr (nextFree_setNextFree_of_ne same)

theorem frees_setNextFree : (s.setNextFree p v).frees = s.frees.write (some p) (ptr v) :=
  frees_link (some p)

theorem slots_link_head (prev : Option Nat) : (s.link prev v).slots.head = s.slots.head := by
  cases prev <;> rfl

end Memory

/-! ### Heaps -/

/-- A slot that is on the free list: one before the top that is not live. -/
def Free (top : Nat) (live : Nat → Option Nat) (slot : Nat → Prop) (p : Nat) : Prop :=
  slot p ∧ p ≠ top ∧ live p = none

/-- The heap has the given slots, the last of which is the top. The live ones hold the given
numbers of bytes; the others are on the free list. -/
structure Laid (s : Heap) (top : Nat) (live : Nat → Option Nat) (slot : Nat → Prop) : Prop where
  slot_top : slot top
  le_top : ∀ p, slot p → p ≤ top
  spaced : ∀ p q, slot p → slot q → p < q → p + 8 ≤ q
  aligned : ∀ p, slot p → p % 4 = 0 ∧ 8 ≤ p
  below : top < 2 ^ 32
  room : ∀ p, slot p → p ≠ top → top ≤ 2 ^ 32 - brkSize
  slots : Ascends slot s.slots
  free : Ascends (Free top live slot) s.frees
  fits : ∀ p size, live p = some size → slot p ∧ p ≠ top ∧ p + size + 4 ≤ s.nextSlot p

namespace Laid

variable {s s' : Heap} {top p q next new size : Nat} {live live' : Nat → Option Nat}
  {slot : Nat → Prop} {prev : Option Nat}

section

variable (laid : Laid s top live slot)
include laid

theorem nextSlot_top : s.nextSlot top = 0 := by
  have follows : Follows slot top (ptr (s.nextSlot top)) := laid.slots.next top laid.slot_top
  by_contra used
  rw [ptr_of_ne used] at follows
  exact absurd follows.2.1 (Nat.not_lt.mpr (laid.le_top _ follows.1))

theorem behind (member : slot p) (notTop : p ≠ top) :
    slot (s.nextSlot p) ∧ p + 8 ≤ s.nextSlot p ∧ s.nextSlot p ≠ 0 ∧
      ∀ r, slot r → p < r → s.nextSlot p ≤ r := by
  have follows : Follows slot p (ptr (s.nextSlot p)) := laid.slots.next p member
  have under : p < top := Nat.lt_of_le_of_ne (laid.le_top p member) notTop
  by_cases zero : s.nextSlot p = 0
  · rw [zero] at follows
    exact absurd under (Nat.not_lt.mpr (follows top laid.slot_top))
  · rw [ptr_of_ne zero] at follows
    exact ⟨follows.1, laid.spaced p _ member follows.1 follows.2.1, zero, follows.2.2⟩

/-- A slot lies before a live block, is the slot of the block, or ends before it. -/
theorem away (lives : live q = some size) {offset : Nat} (inside : offset < size)
    (member : slot p) :
    q + offset + 4 < p ∨ p = q ∨ p < q ∧ p ≠ top ∧ s.nextSlot p ≤ q := by
  obtain ⟨member', notTop, fits⟩ := laid.fits q size lives
  rcases Nat.lt_trichotomy p q with before | same | after
  · have notTop' : p ≠ top := fun same => by
      have := laid.le_top q member'
      omega
    exact .inr (.inr ⟨before, notTop', (laid.behind member notTop').2.2.2 q member' before⟩)
  · exact .inr (.inl same)
  · have := (laid.behind member' notTop).2.2.2 p member after
    exact .inl (by omega)

theorem free_lt (free : Free top live slot p) : p < 2 ^ 32 :=
  Nat.lt_of_le_of_lt (laid.le_top p free.1) laid.below

theorem walk (stop : Nat → Bool) :
    ∃ prev, s.frees.seek stop Heap.walkFuel none = some prev ∧
      (∀ q ∈ prev, Free top live slot q) ∧
      (∀ r, Free top live slot r → r ≤ prev.getD 0 → stop r = false) ∧
      ∀ q ∈ ptr (s.linked prev), stop q = true := by
  obtain ⟨prev, found, valid, passed, stopped⟩ :=
    laid.free.seek stop (fun p free => laid.free_lt free) (by decide) (Nat.le_succ (2 ^ 32))
  exact ⟨prev, found, valid, passed, frees_read prev ▸ stopped⟩

theorem linked (valid : ∀ q ∈ prev, Free top live slot q) :
    Follows (Free top live slot) (prev.getD 0) (ptr (s.linked prev)) :=
  frees_read prev ▸ laid.free.read valid

theorem apart (member : slot p) (member' : slot q) : p + 4 ≠ q := by
  intro same
  have := laid.spaced p q member member' (by omega)
  omega

theorem congr (head : s'.slots.head = s.slots.head)
    (nextSlot : ∀ p, slot p → s'.nextSlot p = s.nextSlot p)
    (free : Ascends (Free top live' slot) s'.frees)
    (fits : ∀ p size, live' p = some size → slot p ∧ p ≠ top ∧ p + size + 4 ≤ s.nextSlot p) :
    Laid s' top live' slot where
  slot_top := laid.slot_top
  le_top := laid.le_top
  spaced := laid.spaced
  aligned := laid.aligned
  below := laid.below
  room := laid.room
  slots := laid.slots.congr (fun _ => Iff.rfl) head fun p member =>
    congrArg ptr (nextSlot p member)
  free := free
  fits p size lives := by
    obtain ⟨member, notTop, enough⟩ := fits p size lives
    exact ⟨member, notTop, by rwa [nextSlot p member]⟩

theorem take (valid : ∀ q ∈ prev, Free top live slot q) (found : s.linked prev = p) (used : p ≠ 0)
    (enough : p + size + 4 ≤ s.nextSlot p) :
    Laid (s.link prev (s.nextFree p)) top (update live p (some size)) slot := by
  have read : s.frees.read prev = some p := by rw [frees_read, found, ptr_of_ne used]
  have free : Free top live slot p := by
    have follows := laid.linked valid
    rw [found, ptr_of_ne used] at follows
    exact follows.1
  refine laid.congr (slots_link_head prev) (fun q member => ?_) ?_ fun q size' lives => ?_
  · exact nextSlot_link (laid.aligned q member).2 fun p' here =>
      laid.apart (valid p' here).1 member
  · rw [frees_link]
    refine (laid.free.remove valid read).congr (fun q => ?_) rfl fun _ _ => rfl
    rw [Free, Free]
    by_cases same : q = p
    · simp [same]
    · simp [same]
  · by_cases same : q = p
    · subst same
      rw [update_self] at lives
      obtain rfl := Option.some.inj lives
      exact ⟨free.1, free.2.1, enough⟩
    · rw [update_of_ne same] at lives
      exact laid.fits q size' lives

theorem release (lives : live p = some size) (valid : ∀ q ∈ prev, Free top live slot q)
    (above : prev.getD 0 < p) (below : ∀ next ∈ ptr (s.linked prev), p < next) :
    Laid ((s.setNextFree p (s.linked prev)).link prev p) top (update live p none)
      slot := by
  obtain ⟨member, notTop, -⟩ := laid.fits p size lives
  refine laid.congr (slots_link_head prev) (fun q member' => ?_) ?_ fun q size' lives' => ?_
  · rw [nextSlot_link (laid.aligned q member').2 fun p' here =>
      laid.apart (valid p' here).1 member']
    exact nextSlot_setNextFree (laid.aligned q member').2 (laid.apart member member')
  · have used : p ≠ 0 := by omega
    rw [← frees_read] at below
    rw [show ((s.setNextFree p (s.linked prev)).link prev p).frees = s.frees.insert prev p by
      rw [frees_link, frees_setNextFree, ← frees_read, ptr_of_ne used]
      rfl]
    refine (laid.free.insert valid above below).congr (fun q => ?_) rfl fun _ _ => rfl
    rw [Free, Free]
    by_cases same : q = p
    · simp [same, member, notTop]
    · simp [same]
  · have other : q ≠ p := fun same => by simp [same] at lives'
    rw [update_of_ne other] at lives'
    exact laid.fits q size' lives'

end

/-! ### Splitting and merging -/

section

variable (laid : Laid s top live slot) (member : slot p) (notTop : p ≠ top)
include laid member notTop

theorem gap (above : p + 8 ≤ new) (below : new + 8 ≤ s.nextSlot p) (member' : slot q) :
    q + 8 ≤ new ∨ new + 8 ≤ q := by
  rcases Nat.lt_or_ge p q with after | before
  · have := (laid.behind member notTop).2.2.2 q member' after
    exact .inr (by omega)
  · exact .inl (by omega)

/-- Cutting a slot in two keeps the heap laid out. -/
theorem divide (above : p + 8 ≤ new) (below : new + 8 ≤ s.nextSlot p) (aligned : new % 4 = 0)
    (head : s'.slots.head = s.slots.head) (first : s'.nextSlot p = new)
    (second : s'.nextSlot new = s.nextSlot p)
    (others : ∀ q, slot q → q ≠ p → s'.nextSlot q = s.nextSlot q)
    (free : Ascends (Free top live' fun q => slot q ∨ q = new) s'.frees)
    (fits : ∀ q size, live' q = some size →
      (slot q ∨ q = new) ∧ q ≠ top ∧ q + size + 4 ≤ s'.nextSlot q) :
    Laid s' top live' fun q => slot q ∨ q = new where
  slot_top := .inl laid.slot_top
  le_top q member' := by
    rcases member' with member' | rfl
    · exact laid.le_top q member'
    · have := laid.le_top _ (laid.behind member notTop).1
      omega
  spaced q q' member₁ member₂ less := by
    rcases member₁ with member₁ | rfl
    · rcases member₂ with member₂ | rfl
      · exact laid.spaced q q' member₁ member₂ less
      · rcases laid.gap member notTop above below member₁ with near | near <;> omega
    · rcases member₂ with member₂ | rfl
      · rcases laid.gap member notTop above below member₂ with near | near <;> omega
      · omega
  aligned q member' := by
    rcases member' with member' | rfl
    · exact laid.aligned q member'
    · exact ⟨aligned, by omega⟩
  below := laid.below
  room q _ _ := laid.room p member notTop
  slots := by
    have used := (laid.behind member notTop).2.2.1
    have read : s.slots.read (some p) = some (s.nextSlot p) := ptr_of_ne used
    have apart : new ≠ p := by omega
    refine (@Ascends.insert slot s.slots (some p) laid.slots
      (fun q same => Option.some.inj same ▸ member) new (by simp only [Option.getD_some]; omega)
      (fun next found => ?_)).congr (fun _ => Iff.rfl) head fun q member' => ?_
    · rw [read] at found
      obtain rfl := Option.some.inj found
      omega
    · change ptr (s'.nextSlot q) = _
      by_cases isFirst : q = p
      · subst isFirst
        rw [first, ptr_of_ne (by omega), Links.insert_next_cursor]
      · have away : some p ≠ some q := fun same => isFirst (Option.some.inj same).symm
        rcases member' with member' | rfl
        · have other : q ≠ new := fun same => by
            rcases laid.gap member notTop above below member' with near | near <;> omega
          rw [others q member' isFirst, Links.insert_next_of_ne away other]
          rfl
        · rw [second, Links.insert_next_self away]
          rfl
  free := free
  fits := fits

theorem unite (nextTop : s.nextSlot p ≠ top) (head : s'.slots.head = s.slots.head)
    (first : s'.nextSlot p = s.nextSlot (s.nextSlot p))
    (others : ∀ q, slot q → q ≠ p → s'.nextSlot q = s.nextSlot q)
    (free : Ascends (Free top live' fun q => slot q ∧ q ≠ s.nextSlot p) s'.frees)
    (fits : ∀ q size, live' q = some size →
      (slot q ∧ q ≠ s.nextSlot p) ∧ q ≠ top ∧ q + size + 4 ≤ s'.nextSlot q) :
    Laid s' top live' fun q => slot q ∧ q ≠ s.nextSlot p where
  slot_top := ⟨laid.slot_top, Ne.symm nextTop⟩
  le_top q member' := laid.le_top q member'.1
  spaced q q' member₁ member₂ := laid.spaced q q' member₁.1 member₂.1
  aligned q member' := laid.aligned q member'.1
  below := laid.below
  room q member' := laid.room q member'.1
  slots := by
    have used := (laid.behind member notTop).2.2.1
    refine (@Ascends.remove slot s.slots (some p) laid.slots
      (fun q same => Option.some.inj same ▸ member) _ (ptr_of_ne used)).congr
      (fun _ => Iff.rfl) head fun q member' => ?_
    change ptr (s'.nextSlot q) = _
    by_cases isFirst : q = p
    · subst isFirst
      rw [first, Links.remove_next_cursor]
      rfl
    · rw [others q member'.1 isFirst,
        Links.remove_next_of_ne fun same => isFirst (Option.some.inj same).symm]
      rfl
  free := free
  fits := fits

end

end Laid

end Minix.Malloc
