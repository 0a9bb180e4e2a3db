/-
This file models how the data segment and the stack of a process grow (`mm/break.c`): `do_brk`,
`adjust` and `size_ok`. The two segments take their clicks from the gap between them. Sizes are
words, which the source turns into signed ones where it subtracts.

A call that succeeds leaves the stack where it ends and a margin below it; a call that fails leaves
the map as it was. A process whose stack is part of its data segment is let through without a look.
-/

import Minix.Mm.Swap

namespace Minix.Mm

open Kernel (MemSeg SegMap clickSize)
open Memory (Error)

/-! ### The calls -/

/-- A word as a `long`. -/
def long (word : Int) : Int := Int.bmod word (2 ^ 32)

/-- `SAFETY_BYTES` -/
def safetyBytes : Nat := 384 * 4

/-- `SAFETY_CLICKS` -/
def safetyClicks : Nat := (safetyBytes + clickSize - 1) / clickSize

/-- `size_ok`. The file type and the sizes of text and stack only count on the 8086. -/
def sizeOk (dc dvir sVir : Nat) : Bool := !decide (sVir < Word.add 32 dvir dc)

/-- The stack takes `delta` clicks from the gap, if that is more than none. -/
def growStack (stack : MemSeg) (delta : Int) : MemSeg :=
  if 0 < delta then
    { vir := Word.sub 32 stack.vir delta.toNat
      phys := Word.sub 32 stack.phys delta.toNat
      len := Word.add 32 stack.len delta.toNat }
  else stack

/-- The stack gives them back. -/
def restoreStack (stack : MemSeg) (delta : Int) : MemSeg :=
  if 0 < delta then
    { vir := Word.add 32 stack.vir delta.toNat
      phys := Word.add 32 stack.phys delta.toNat
      len := Word.sub 32 stack.len delta.toNat }
  else stack

/-- What a call leaves behind: the map, the map that the kernel is told, and the answer. -/
structure Adjusted where
  seg : SegMap
  newmap : Option SegMap := none
  result : Except Error Unit

/-- `adjust` -/
def adjust (seg : SegMap) (dataClicks sp : Nat) : Adjusted :=
  let dp := seg.data
  let stack := seg.stack
  if stack.len = 0 then { seg, result := .ok () }
  else
    let baseOfStack := Word.add 32 stack.vir stack.len
    let spClick := sp / clickSize
    if baseOfStack ≤ spClick then { seg, result := .error .enomem }
    else
      let delta := long (stack.vir - spClick)
      let lower := if 0 < delta then spClick else stack.vir
      let gapBase := Word.add 32 (Word.add 32 dp.vir dataClicks) safetyClicks
      if lower < gapBase then { seg, result := .error .enomem }
      else
        let newStack := growStack stack delta
        let new := { seg with data := { dp with len := dataClicks }, stack := newStack }
        if sizeOk dataClicks dp.vir newStack.vir then
          { seg := new
            newmap := if dataClicks ≠ dp.len ∨ 0 < delta then some new else none
            result := .ok () }
        else
          { seg := { new with data := dp, stack := restoreStack newStack delta }
            result := .error .enomem }

/-- The clicks up to an address, rounded up. -/
def clicksTo (addr : Nat) : Nat := (long (long addr + clickSize - 1) / clickSize % 2 ^ 32).toNat

/-- `do_brk`, with the stack pointer that the kernel names. The first result is `reply_ptr`, where
`none` is -1. -/
def doBrk (seg : SegMap) (addr sp : UInt32) : Option UInt32 × Adjusted :=
  let newClicks := clicksTo addr.toNat
  if newClicks < seg.data.vir then (none, { seg, result := .error .enomem })
  else
    let done := adjust seg (Word.sub 32 newClicks seg.data.vir) sp.toNat
    (if done.result.isOk then some addr else none, done)

/-! ### What they keep -/

section Keeps

variable {seg : SegMap} {dataClicks sp spClick : Nat} {stack : MemSeg}

/-- A call that succeeds leaves the data segment and its margin below the stack, and the stack where
it ended, as far behind the data segment in memory as in the address space. A call that fails
changes nothing. -/
structure Adjusted.Keeps (done : Adjusted) (seg : SegMap) : Prop where
  margin : done.result = .ok () → seg.stack.len ≠ 0 →
    done.seg.data.vir + done.seg.data.len + safetyClicks ≤ done.seg.stack.vir
  stackEnd : done.result = .ok () →
    done.seg.stack.vir + done.seg.stack.len = seg.stack.vir + seg.stack.len
  layout : done.result = .ok () → done.seg.Layout
  bare : done.result = .ok () → seg.stack.len = 0 → done.seg = seg
  kernel : done.newmap = none ∨ done.newmap = some done.seg ∧ done.result = .ok ()
  fails : done.result ≠ .ok () → done.seg = seg ∧ done.newmap = none

theorem keeps_enomem : Adjusted.Keeps { seg, result := .error .enomem } seg where
  margin := nofun
  stackEnd := nofun
  layout := nofun
  bare := nofun
  kernel := .inl rfl
  fails _ := ⟨rfl, rfl⟩

theorem long_sub {x y : Nat} (xSmall : x ≤ 2 ^ 22) (ySmall : y ≤ 2 ^ 22) :
    long ((x : Int) - y) = x - y :=
  Int.bmod_eq_of_le (by omega) (by omega)

theorem restoreStack_growStack {delta : Int} (vir : stack.vir < 2 ^ 32) (phys : stack.phys < 2 ^ 32)
    (len : stack.len < 2 ^ 32) (small : delta ≤ 2 ^ 32) :
    restoreStack (growStack stack delta) delta = stack := by
  by_cases grows : 0 < delta
  · rw [restoreStack, growStack, if_pos grows, if_pos grows, Word.add_sub_cancel vir (by omega),
      Word.add_sub_cancel phys (by omega), Word.sub_add_cancel len (by omega)]
  · rw [restoreStack, growStack, if_neg grows, if_neg grows]

theorem growStack_eq (grows : spClick < stack.vir) (fits : stack.vir + stack.len ≤ 2 ^ 22) :
    growStack stack (stack.vir - spClick) =
      { vir := spClick
        phys := Word.sub 32 stack.phys (stack.vir - spClick)
        len := stack.len + (stack.vir - spClick) } := by
  have delta : ((stack.vir : Int) - spClick).toNat = stack.vir - spClick := by omega
  rw [growStack, if_pos (by omega), delta, Word.sub_of_le (Nat.sub_le _ _) (by omega),
    Word.add_of_lt (by omega), Nat.sub_sub_self grows.le]

theorem growStack_of_le (stays : stack.vir ≤ spClick) :
    growStack stack (stack.vir - spClick) = stack := by
  rw [growStack, if_neg (by omega)]

theorem growStack_vir (fits : stack.vir + stack.len ≤ 2 ^ 22) :
    (growStack stack (stack.vir - spClick)).vir = min spClick stack.vir := by
  rcases lt_or_ge spClick stack.vir with grows | stays
  · rw [growStack_eq grows fits, min_eq_left grows.le]
  · rw [growStack_of_le stays, min_eq_right stays]

theorem growStack_spec (layout : seg.Layout) (above : seg.data.vir ≤ min spClick seg.stack.vir) :
    ∃ new, growStack seg.stack (seg.stack.vir - spClick) = new ∧
      new.vir = min spClick seg.stack.vir ∧
      new.vir + new.len = seg.stack.vir + seg.stack.len ∧
      new.phys + new.len = seg.stack.phys + seg.stack.len ∧
      new.phys + seg.data.vir = seg.data.phys + new.vir := by
  obtain ⟨apart, level, virFits, physFits, -, -⟩ := layout
  rcases lt_or_ge spClick seg.stack.vir with grows | stays
  · rw [min_eq_left grows.le] at above ⊢
    refine ⟨_, growStack_eq grows virFits, rfl, ?_⟩
    dsimp only
    rw [Word.sub_of_le (by omega) (by omega)]
    omega
  · rw [min_eq_right stays]
    exact ⟨_, growStack_of_le stays, rfl, rfl, rfl, level⟩

theorem margin_of_sizeOk {top newVir : Nat} (small : top < 2 ^ 32) (newFits : newVir ≤ 2 ^ 22)
    (apart : ¬newVir < Word.add 32 top safetyClicks) (ok : top ≤ newVir) :
    top + safetyClicks ≤ newVir := by
  have clicks : safetyClicks = 2 := rfl
  rw [clicks] at apart ⊢
  rw [Word.add_of_lt (by omega)] at apart
  exact not_lt.mp apart

theorem adjust_keeps (layout : seg.Layout) (fits : seg.data.vir + dataClicks < 2 ^ 32) :
    (adjust seg dataClicks sp).Keeps seg := by
  obtain ⟨apart, level, virFits, physFits, textVirFits, textPhysFits⟩ := id layout
  rw [adjust]
  by_cases bare : seg.stack.len = 0
  · rw [if_pos bare]
    exact ⟨fun _ long => absurd bare long, fun _ => rfl, fun _ => layout, fun _ _ => rfl, .inl rfl,
      fun fails => absurd rfl fails⟩
  · rw [if_neg bare, Word.add_of_lt (by omega)]
    by_cases high : seg.stack.vir + seg.stack.len ≤ sp / clickSize
    · rw [if_pos high]
      exact keeps_enomem
    · rw [if_neg high, long_sub (by omega) (by omega), Word.add_of_lt fits]
      generalize sp / clickSize = spClick at high ⊢
      have lower : (if 0 < (seg.stack.vir : Int) - spClick then spClick else seg.stack.vir) =
          min spClick seg.stack.vir := by
        rw [min_def]
        split <;> split <;> omega
      dsimp only
      rw [lower]
      by_cases collide : min spClick seg.stack.vir <
          Word.add 32 (seg.data.vir + dataClicks) safetyClicks
      · rw [if_pos collide]
        exact keeps_enomem
      · rw [if_neg collide]
        by_cases ok : sizeOk dataClicks seg.data.vir
            (growStack seg.stack (seg.stack.vir - spClick)).vir = true
        · rw [if_pos ok]
          rw [sizeOk, growStack_vir virFits, Word.add_of_lt fits] at ok
          have top : seg.data.vir + dataClicks ≤ min spClick seg.stack.vir := by simpa using ok
          have margin := margin_of_sizeOk fits (by omega) collide top
          obtain ⟨new, grown, vir, stackEnd, physEnd, newLevel⟩ :=
            growStack_spec layout (le_trans (Nat.le_add_right _ _) top)
          rw [grown]
          rw [← vir] at margin
          refine ⟨fun _ _ => margin, fun _ => stackEnd, fun _ => ?_,
            fun _ stays => absurd stays bare, ?_, fun fails => absurd rfl fails⟩
          · exact ⟨le_trans (Nat.le_add_right _ _) margin, newLevel, stackEnd.le.trans virFits,
              physEnd.le.trans physFits, textVirFits, textPhysFits⟩
          · dsimp only
            split
            · exact .inr ⟨rfl, rfl⟩
            · exact .inl rfl
        · rw [if_neg ok]
          have restored := @restoreStack_growStack seg.stack (seg.stack.vir - spClick) (by omega)
            (by omega) (by omega) (by omega)
          rw [restored]
          exact keeps_enomem

theorem clicksTo_lt {addr : Nat} : clicksTo addr < 2 ^ 32 := by
  rw [clicksTo]
  omega

theorem doBrk_keeps (layout : seg.Layout) (addr sp : UInt32) :
    (doBrk seg addr sp).2.Keeps seg := by
  rw [doBrk]
  by_cases low : clicksTo addr.toNat < seg.data.vir
  · rw [if_pos low]
    exact keeps_enomem
  · have small := @clicksTo_lt addr.toNat
    rw [if_neg low, Word.sub_of_le (not_lt.mp low) small]
    exact adjust_keeps layout (by omega)

/-- `do_brk` keeps the layout for every address and stack pointer, and so does `adjust` for every
data segment that ends in the address space. -/
theorem brk_keeps_layout (layout : seg.Layout) :
    (∀ addr sp : UInt32, (doBrk seg addr sp).2.Keeps seg) ∧
      ∀ dataClicks sp : Nat, seg.data.vir + dataClicks < 2 ^ 32 →
        (adjust seg dataClicks sp).Keeps seg :=
  ⟨doBrk_keeps layout, fun _ _ => adjust_keeps layout⟩

end Keeps

/-- A process with 10 clicks of data, a gap of 10 and 5 clicks of stack. -/
def gapped : SegMap where
  data := { vir := 0, phys := 1000, len := 10 }
  stack := { vir := 20, phys := 1020, len := 5 }

/-- Two more clicks of data, and three of stack. -/
theorem brk_keeps_layout_gapped :
    ((doBrk gapped 12000 18000).2.Keeps gapped ∧ (adjust gapped 10 25000).Keeps gapped) ∧
      (doBrk gapped 12000 18000).2.seg =
        { data := { vir := 0, phys := 1000, len := 12 }
          stack := { vir := 17, phys := 1017, len := 8 } } :=
  have keeps := @brk_keeps_layout gapped
    ⟨by decide, by decide, by decide, by decide, by decide, by decide⟩
  ⟨⟨keeps.1 12000 18000, keeps.2 10 25000 (by decide)⟩, by decide⟩

/-- A process with its stack in the data segment may ask for anything, and nothing is looked at. -/
theorem brk_of_bare_stack :
    ∃ seg : SegMap, seg.Layout ∧ (doBrk seg 1000000 4000).2.result.isOk = true ∧
      (doBrk seg 1000000 4000).2.seg = seg ∧
      seg.stack.vir < seg.data.vir + seg.data.len + safetyClicks :=
  ⟨{ data := { vir := 0, phys := 100, len := 10 }, stack := { vir := 10, phys := 110, len := 0 } },
    ⟨by decide, by decide, by decide, by decide, by decide, by decide⟩, by decide, by decide,
    by decide⟩

end Minix.Mm
