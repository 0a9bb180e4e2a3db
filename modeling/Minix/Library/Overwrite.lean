/-
This file develops the contents of a file: a list of which cells from a position on are
overwritten. What is written behind the end leaves a gap of blank cells before it.

Two pieces that are written one behind the other are one piece.
-/

import Mathlib.Data.List.Basic

namespace Overwrite

variable {α : Type*} {blank : α} {contents data first second : List α} {position index : Nat}

/-- Write cells over a list from a position on. Nothing is written by no cells. -/
def overwrite (blank : α) (contents : List α) (position : Nat) (data : List α) : List α :=
  if data.isEmpty then contents
  else contents.take position ++ List.replicate (position - contents.length) blank ++ data ++
    contents.drop (position + data.length)

@[simp] theorem overwrite_nil : overwrite blank contents position [] = contents := rfl

theorem overwrite_of_ne (some : data ≠ []) :
    overwrite blank contents position data =
      contents.take position ++ List.replicate (position - contents.length) blank ++ data ++
        contents.drop (position + data.length) := by
  rw [overwrite, if_neg (by simpa using some)]

theorem length_before (contents : List α) (position : Nat) :
    (contents.take position ++ List.replicate (position - contents.length) blank).length =
      position := by
  simp only [List.length_append, List.length_take, List.length_replicate]
  omega

theorem getElem?_overwrite_of_le (some : data ≠ []) (behind : position ≤ index) :
    (overwrite blank contents position data)[index]? =
      if index < position + data.length then data[index - position]? else contents[index]? := by
  rw [overwrite_of_ne some, List.append_assoc, List.getElem?_append_right
    (by rw [length_before]; exact behind), length_before]
  split
  case isTrue inside => rw [List.getElem?_append_left (by omega)]
  case isFalse outside =>
    rw [List.getElem?_append_right (by omega), List.getElem?_drop]
    exact congrArg _ (by omega)

theorem getElem?_overwrite_of_lt (some : data ≠ []) (before : index < position) :
    (overwrite blank contents position data)[index]? =
      (contents ++ List.replicate (position - contents.length) blank)[index]? := by
  rw [overwrite_of_ne some, List.append_assoc, List.getElem?_append_left
    (by rw [length_before]; exact before)]
  by_cases present : index < contents.length
  · rw [List.getElem?_append_left (by rw [List.length_take]; omega),
      List.getElem?_append_left present, List.getElem?_take_of_lt before]
  · have short : contents.take position = contents := List.take_of_length_le (by omega)
    rw [short]

theorem length_overwrite (some : data ≠ []) :
    (overwrite blank contents position data).length =
      max contents.length (position + data.length) := by
  rw [overwrite_of_ne some]
  simp only [List.length_append, List.length_take, List.length_replicate, List.length_drop]
  omega

theorem overwrite_overwrite (blank : α) (contents : List α) (position : Nat)
    (first second : List α) :
    overwrite blank (overwrite blank contents position first) (position + first.length) second =
      overwrite blank contents position (first ++ second) := by
  by_cases none : first = []
  · subst none
    rw [overwrite_nil, List.nil_append]
    rfl
  by_cases none' : second = []
  · subst none'
    rw [overwrite_nil, List.append_nil]
  have some : first ++ second ≠ [] := by simp [none]
  apply List.ext_getElem?
  intro index
  by_cases before : index < position
  · rw [getElem?_overwrite_of_lt none' (by omega), getElem?_overwrite_of_lt some before,
      List.getElem?_append_left (by rw [length_overwrite none]; omega),
      getElem?_overwrite_of_lt none before]
  · by_cases early : index < position + first.length
    · rw [getElem?_overwrite_of_lt none' early, List.getElem?_append_left
          (by rw [length_overwrite none]; omega),
        getElem?_overwrite_of_le none (by omega), getElem?_overwrite_of_le some (by omega),
        if_pos early, if_pos (by rw [List.length_append]; omega),
        List.getElem?_append_left (by omega)]
    · rw [getElem?_overwrite_of_le none' (by omega), getElem?_overwrite_of_le some (by omega),
        getElem?_overwrite_of_le none (by omega), if_neg early, List.length_append,
        List.getElem?_append_right (by omega)]
      simp only [Nat.add_assoc, Nat.sub_add_eq]

end Overwrite
