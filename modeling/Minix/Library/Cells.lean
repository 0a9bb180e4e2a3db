/-
This file develops the variables of a record that lies in memory: what is stored in each is read
back, as long as they do not overlap, and storing what is there already changes nothing.
-/

import Mathlib.Data.List.Pairwise
import Mathlib.Order.Basic

namespace Minix.Library

variable {Byte : Type*} {α β : Type}

/-- A variable that lies in memory. It is read from its own bytes only, and storing a value leaves
the other bytes. -/
structure Cell (Byte : Type*) (α : Type) where
  start : Nat
  size : Nat
  get : (Nat → Byte) → α
  put : (Nat → Byte) → α → Nat → Byte
  get_put : ∀ memory value, get (put memory value) = value
  put_get : ∀ memory, put memory (get memory) = memory
  get_congr : ∀ memory other : Nat → Byte,
    (∀ i, start ≤ i → i < start + size → memory i = other i) → get memory = get other
  put_frame : ∀ memory value i, i < start ∨ start + size ≤ i → put memory value i = memory i

/-- The variables do not overlap. -/
def Cell.Apart (c : Cell Byte α) (d : Cell Byte β) : Prop :=
  c.start + c.size ≤ d.start ∨ d.start + d.size ≤ c.start

theorem Cell.get_put_apart {c : Cell Byte α} {d : Cell Byte β} (apart : c.Apart d)
    (memory : Nat → Byte) (value : β) : c.get (d.put memory value) = c.get memory := by
  refine c.get_congr _ _ fun i above below => d.put_frame memory value i ?_
  cases apart with
  | inl before => exact .inl (Nat.lt_of_lt_of_le below before)
  | inr behind => exact .inr (Nat.le_trans behind above)

/-- A value that is stored in a variable. -/
structure Assignment (Byte : Type*) where
  {type : Type}
  cell : Cell Byte type
  value : type

/-- The variables of the two assignments do not overlap. -/
def Assignment.Apart (a b : Assignment Byte) : Prop := a.cell.Apart b.cell

def Assignment.store (memory : Nat → Byte) (a : Assignment Byte) : Nat → Byte :=
  a.cell.put memory a.value

/-- Carry out the assignments, one after the other. -/
def assign (memory : Nat → Byte) (assignments : List (Assignment Byte)) : Nat → Byte :=
  assignments.foldl Assignment.store memory

section Assign

variable {assignments : List (Assignment Byte)} {memory : Nat → Byte} {a : Assignment Byte}

theorem get_assign_apart {c : Cell Byte α} (apart : ∀ a ∈ assignments, c.Apart a.cell) :
    c.get (assign memory assignments) = c.get memory := by
  induction assignments generalizing memory with
  | nil => rfl
  | cons a assignments inductionHypothesis =>
    have rest : c.get (assign (a.store memory) assignments) = c.get (a.store memory) :=
      inductionHypothesis fun b member => apart b (List.mem_cons_of_mem a member)
    exact rest.trans (Cell.get_put_apart (apart a List.mem_cons_self) memory a.value)

theorem get_assign (apart : assignments.Pairwise Assignment.Apart) (member : a ∈ assignments) :
    a.cell.get (assign memory assignments) = a.value := by
  induction assignments generalizing memory with
  | nil => cases member
  | cons b assignments inductionHypothesis =>
    obtain ⟨first, others⟩ := List.pairwise_cons.mp apart
    obtain rfl | later := List.mem_cons.mp member
    · have kept : a.cell.get (assign (a.store memory) assignments) = a.cell.get (a.store memory) :=
        get_assign_apart first
      exact kept.trans (a.cell.get_put memory a.value)
    · exact inductionHypothesis others later

theorem assign_same (same : ∀ a ∈ assignments, a.value = a.cell.get memory) :
    assign memory assignments = memory := by
  induction assignments with
  | nil => rfl
  | cons a assignments inductionHypothesis =>
    have first : a.store memory = memory := by
      unfold Assignment.store
      rw [same a List.mem_cons_self, a.cell.put_get]
    change assign (a.store memory) assignments = memory
    rw [first]
    exact inductionHypothesis fun b member => same b (List.mem_cons_of_mem a member)

/-- If the assignments to separate variables change nothing, then the variables had the values. -/
theorem same_of_assign (apart : assignments.Pairwise Assignment.Apart)
    (unchanged : assign memory assignments = memory) (member : a ∈ assignments) :
    a.value = a.cell.get memory := by
  have set : a.cell.get (assign memory assignments) = a.value := get_assign apart member
  rw [unchanged] at set
  exact set.symm

end Assign

end Minix.Library
