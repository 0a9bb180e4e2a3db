/-
This file develops a tape that is written at its end and read from its front.

`window` is the list of the cells between two positions, `splice` overwrites cells. A tape
carries a stream when the cells between its read position and its end are what was written and
not yet taken. Writing at the end, taking from the front and rewinding an exhausted tape keep
that, so that what was taken is always a prefix of what was written.
-/

import Mathlib.Data.List.Basic

namespace Tape

variable {α : Type*} {contents source : Nat → α} {start middle stop position length cell : Nat}

/-- The cells from `start` up to `stop`. -/
def window (contents : Nat → α) (start stop : Nat) : List α :=
  (List.range' start (stop - start)).map contents

/-- Overwrite `length` cells from `position` on with the first cells of `source`. -/
def splice (contents : Nat → α) (position length : Nat) (source : Nat → α) : Nat → α :=
  fun cell =>
    if position ≤ cell ∧ cell < position + length then source (cell - position)
    else contents cell

/-! ### Windows -/

@[simp] theorem window_self (contents : Nat → α) (start : Nat) :
    window contents start start = [] := by
  simp [window]

@[simp] theorem length_window : (window contents start stop).length = stop - start := by
  simp [window]

theorem window_congr {other : Nat → α}
    (same : ∀ cell, start ≤ cell → cell < stop → contents cell = other cell) :
    window contents start stop = window other start stop := by
  refine List.map_congr_left fun cell member => ?_
  rw [List.mem_range'_1] at member
  exact same cell member.1 (by omega)

theorem window_append (low : start ≤ middle) (high : middle ≤ stop) :
    window contents start middle ++ window contents middle stop = window contents start stop := by
  have split : stop - start = (middle - start) + (stop - middle) := by omega
  have next : start + (middle - start) = middle := by omega
  simp only [window]
  rw [← List.map_append, split, ← List.range'_append_1, next]

theorem window_shift (source : Nat → α) (offset start stop : Nat) :
    window (fun cell => source (offset + cell)) start stop =
      window source (offset + start) (offset + stop) := by
  have width : offset + stop - (offset + start) = stop - start := by omega
  simp only [window, width]
  rw [show (fun cell => source (offset + cell)) = source ∘ (offset + ·) from rfl, ← List.map_map,
    List.map_add_range']

theorem window_cons (inside : start < stop) :
    window contents start stop = contents start :: window contents (start + 1) stop := by
  have width : stop - start = (stop - (start + 1)) + 1 := by omega
  rw [window, width, List.range'_succ, List.map_cons]
  rfl

theorem window_concat (inside : start ≤ stop) :
    window contents start (stop + 1) = window contents start stop ++ [contents stop] := by
  rw [← window_append inside (Nat.le_succ stop), window_cons (Nat.lt_succ_self stop), window_self]

theorem window_getD (cells : List α) (blank : α) :
    window (fun cell => cells.getD cell blank) 0 cells.length = cells := by
  refine List.ext_getElem (by simp) fun index first second => ?_
  simp [window, second]

/-! ### Overwriting -/

theorem splice_inside (low : position ≤ cell) (high : cell < position + length) :
    splice contents position length source cell = source (cell - position) :=
  if_pos ⟨low, high⟩

theorem splice_below (low : cell < position) :
    splice contents position length source cell = contents cell :=
  if_neg fun inside => by omega

theorem splice_above (high : position + length ≤ cell) :
    splice contents position length source cell = contents cell :=
  if_neg fun inside => by omega

@[simp] theorem splice_zero (contents source : Nat → α) (position : Nat) :
    splice contents position 0 source = contents := by
  funext cell
  exact if_neg fun inside => by omega

/-- Two pieces of one source, written one after the other, are one piece. -/
theorem splice_splice (contents source : Nat → α) (position first second : Nat) :
    splice (splice contents position first source) (position + first) second
        (fun cell => source (first + cell)) =
      splice contents position (first + second) source := by
  funext cell
  by_cases below : cell < position
  · rw [splice_below (by omega), splice_below below, splice_below below]
  by_cases early : cell < position + first
  · rw [splice_below early, splice_inside (by omega) early, splice_inside (by omega) (by omega)]
  by_cases late : cell < position + (first + second)
  · rw [splice_inside (by omega) (by omega), splice_inside (by omega) late]
    exact congrArg source (by omega)
  · rw [splice_above (by omega), splice_above (by omega), splice_above (by omega)]

theorem window_splice_below (below : stop ≤ position) :
    window (splice contents position length source) start stop = window contents start stop :=
  window_congr fun _ _ high => splice_below (by omega)

theorem window_splice_inside (contents source : Nat → α) (position length : Nat) :
    window (splice contents position length source) position (position + length) =
      window source 0 length := by
  have inside : window (splice contents position length source) position (position + length) =
      window (fun cell => source (cell - position)) position (position + length) :=
    window_congr fun _ low high => splice_inside low high
  have shifted := window_shift (fun cell => source (cell - position)) position 0 length
  rw [Nat.add_zero] at shifted
  rw [inside, ← shifted]
  exact window_congr fun cell _ _ => congrArg source (by omega)

/-! ### Streams -/

/-- The cells between the read position and the end are what was written and not yet taken. -/
def Carries (written taken : List α) (contents : Nat → α) (readPos size : Nat) : Prop :=
  readPos ≤ size ∧ written = taken ++ window contents readPos size

namespace Carries

variable {written taken : List α} {readPos size : Nat}

theorem fresh (contents : Nat → α) : Carries [] [] contents 0 0 := ⟨Nat.le_refl 0, by simp⟩

theorem write (carries : Carries written taken contents readPos size) (length : Nat)
    (source : Nat → α) :
    Carries (written ++ window source 0 length) taken (splice contents size length source)
      readPos (size + length) := by
  obtain ⟨low, same⟩ := carries
  refine ⟨by omega, ?_⟩
  rw [← window_append low (by omega), window_splice_below (Nat.le_refl size),
    window_splice_inside, same, List.append_assoc]

theorem read (carries : Carries written taken contents readPos size) {length : Nat}
    (present : readPos + length ≤ size) :
    Carries written (taken ++ window contents readPos (readPos + length)) contents
      (readPos + length) size := by
  refine ⟨present, ?_⟩
  rw [List.append_assoc, window_append (by omega) present]
  exact carries.2

theorem rewind (carries : Carries written taken contents readPos readPos) (other : Nat → α)
    (again : Nat) : Carries written taken other again again :=
  ⟨Nat.le_refl again, by simpa using carries.2⟩

theorem isPrefix (carries : Carries written taken contents readPos size) : taken <+: written :=
  ⟨_, carries.2.symm⟩

end Carries

end Tape
