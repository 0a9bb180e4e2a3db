/-
This file develops ring buffers: an array of cells, a place where the oldest element is, and a
count. Places go up, and the first place follows the last.

A cell is written ahead of the elements, and is counted later. So the elements stay what they are as
long as only cells ahead of them are written, and as many of those as the buffer has left.
-/

import Mathlib.Logic.Function.Basic
import Mathlib.Data.List.Range
import Mathlib.Algebra.Order.Group.Nat

namespace Ring

open Function (update update_of_ne update_self)

variable {α : Type*} {size place start count more used : Nat} {buffer buffer₁ buffer' : Nat → α}

/-- The place after a place. -/
def next (size place : Nat) : Nat := if place + 1 = size then 0 else place + 1

theorem next_eq (inside : place < size) : next size place = (place + 1) % size := by
  unfold next
  split
  · rename_i last
    rw [last, Nat.mod_self]
  · exact (Nat.mod_eq_of_lt (by omega)).symm

theorem next_lt (inside : place < size) : next size place < size := by
  rw [next_eq inside]
  exact Nat.mod_lt _ (by omega)

/-! ### The elements -/

/-- The elements of a buffer, the oldest first. -/
def contents (size : Nat) (buffer : Nat → α) (start count : Nat) : List α :=
  (List.range count).map fun offset => buffer ((start + offset) % size)

@[simp] theorem length_contents : (contents size buffer start count).length = count := by
  simp [contents]

@[simp] theorem contents_mod :
    contents size buffer (start % size) count = contents size buffer start count := by
  simp [contents, Nat.mod_add_mod]

theorem contents_succ : contents size buffer start (count + 1) =
    buffer (start % size) :: contents size buffer (start + 1) count := by
  simp only [contents, List.range_succ_eq_map, List.map_cons, List.map_map, Nat.add_zero]
  refine congrArg (_ :: ·) (List.map_congr_left fun offset _ => ?_)
  exact congrArg (fun place => buffer (place % size)) (by omega)

theorem contents_add : contents size buffer start (count + more) =
    contents size buffer start count ++ contents size buffer (start + count) more := by
  simp only [contents, List.range_add, List.map_append, List.map_map]
  refine congrArg (_ ++ ·) (List.map_congr_left fun offset _ => ?_)
  exact congrArg (fun place => buffer (place % size)) (Nat.add_assoc start count offset).symm

/-- The oldest element is at the start, and without it the elements start at the next place. -/
theorem contents_pop (inside : start < size) : contents size buffer start (count + 1) =
    buffer start :: contents size buffer (next size start) count := by
  rw [contents_succ, Nat.mod_eq_of_lt inside, next_eq inside, contents_mod]

/-! ### Writing ahead of the elements -/

/-- At most the first `used` cells from a place on have been written. -/
def Ahead (size place used : Nat) (buffer buffer' : Nat → α) : Prop :=
  ∀ offset, used ≤ offset → offset < size →
    buffer' ((place + offset) % size) = buffer ((place + offset) % size)

theorem Ahead.refl : Ahead size place used buffer buffer := fun _ _ _ => rfl

theorem Ahead.mono (ahead : Ahead size place used buffer buffer') (atMost : used ≤ more) :
    Ahead size place more buffer buffer' :=
  fun offset beyond inside => ahead offset (atMost.trans beyond) inside

theorem Ahead.trans (first : Ahead size place used buffer buffer₁)
    (second : Ahead size place used buffer₁ buffer') : Ahead size place used buffer buffer' :=
  fun offset beyond inside => (second offset beyond inside).trans (first offset beyond inside)

theorem Ahead.of_next (inside : place < size)
    (ahead : Ahead size (next size place) used buffer buffer') :
    Ahead size place (used + 1) buffer buffer' := by
  intro offset beyond within
  have same : (next size place + (offset - 1)) % size = (place + offset) % size := by
    rw [next_eq inside, Nat.mod_add_mod]
    exact congrArg (· % size) (by omega)
  rw [← same]
  exact ahead (offset - 1) (by omega) (by omega)

theorem Ahead.update (inside : place < size) (value : α) :
    Ahead size place 1 buffer (update buffer place value) := by
  intro offset beyond within
  refine update_of_ne (fun same => ?_) _ _
  rcases Nat.lt_or_ge (place + offset) size with below | above
  · rw [Nat.mod_eq_of_lt below] at same
    omega
  · rw [Nat.mod_eq_sub_mod above, Nat.mod_eq_of_lt (by omega)] at same
    omega

/-- Write values into a buffer, from a place on. -/
def fill (size : Nat) (buffer : Nat → α) (place : Nat) : List α → Nat → α
  | [] => buffer
  | value :: values =>
    fill size (update buffer place value) (next size place) values

theorem ahead_fill {values : List α} (inside : place < size) :
    Ahead size place values.length buffer (fill size buffer place values) := by
  induction values generalizing buffer place with
  | nil => exact .refl
  | cons value values inductionHypothesis =>
    exact ((Ahead.update inside value).mono (Nat.le_add_left ..)).trans
      (.of_next inside (inductionHypothesis (next_lt inside)))

/-- What is written from the next place on, but not all around, leaves this place alone. -/
theorem Ahead.here (inside : place < size)
    (ahead : Ahead size (next size place) used buffer buffer') (short : used < size) :
    buffer' place = buffer place := by
  have around : (next size place + (size - 1)) % size = place := by
    rw [next_eq inside, Nat.mod_add_mod, show place + 1 + (size - 1) = place + size by omega,
      Nat.add_mod_right, Nat.mod_eq_of_lt inside]
  have same := ahead (size - 1) (by omega) (by omega)
  rwa [around] at same

theorem contents_fill {values : List α} (inside : place < size) (fits : values.length ≤ size) :
    contents size (fill size buffer place values) place values.length = values := by
  induction values generalizing buffer place with
  | nil => rfl
  | cons value values inductionHypothesis =>
    rw [List.length_cons] at fits
    rw [List.length_cons, contents_pop inside]
    unfold fill
    have first := (@ahead_fill α size _ (update buffer place value) values (next_lt inside)).here inside
      fits
    rw [first, update_self, inductionHypothesis (next_lt inside) (by omega)]

theorem fill_beyond {values : List α} {i : Nat} (inside : place < size) (beyond : size ≤ i) :
    fill size buffer place values i = buffer i := by
  induction values generalizing buffer place with
  | nil => rfl
  | cons value values inductionHypothesis =>
    unfold fill
    rw [inductionHypothesis (next_lt inside), update_of_ne (by omega)]

theorem Ahead.contents_eq (ahead : Ahead size place used buffer buffer')
    (behind : (start + count) % size = place % size) (free : used + count ≤ size) :
    contents size buffer' start count = contents size buffer start count := by
  refine List.map_congr_left fun offset member => ?_
  have inside : offset < count := List.mem_range.mp member
  have same : (place + (size - count + offset)) % size = (start + offset) % size := by
    rw [← Nat.mod_add_mod, ← behind, Nat.mod_add_mod,
      show start + count + (size - count + offset) = start + offset + size by omega,
      Nat.add_mod_right]
  rw [← same]
  exact ahead _ (by omega) (by omega)

end Ring
