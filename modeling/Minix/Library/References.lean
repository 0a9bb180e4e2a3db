/-
This file develops reference counts: how many holders refer to each target, where a holder
refers to at most one target, and what attaching and detaching one holder does to the counts.
-/

import Mathlib.Data.Finset.Card
import Mathlib.Data.Fintype.Card
import Mathlib.Logic.Function.Basic

namespace References

open Function (update update_self update_eq_self update_idem)

variable {Holder Target : Type*} [Fintype Holder]

/-! ### References to one target -/

section Count

variable [DecidableEq Target] {refers : Holder → Option Target} {holder : Holder} {target : Target}

/-- The number of holders that refer to a target. -/
def count (refers : Holder → Option Target) (target : Target) : Nat :=
  (Finset.univ.filter fun holder => refers holder = some target).card

theorem count_eq_zero : count refers target = 0 ↔ ∀ holder, refers holder ≠ some target := by
  simp [count, Finset.filter_eq_empty_iff]

theorem count_ne_zero : count refers target ≠ 0 ↔ ∃ holder, refers holder = some target := by
  simp [count_eq_zero]

variable [DecidableEq Holder]

/-- One holder changes: its old target loses a reference and its new one gains one. -/
theorem count_update (refers : Holder → Option Target) (holder : Holder) (new : Option Target)
    (target : Target) :
    count (update refers holder new) target +
      (if refers holder = some target then 1 else 0) =
      count refers target + (if new = some target then 1 else 0) := by
  have others : (Finset.univ.filter fun other =>
        update refers holder new other = some target).erase holder =
      (Finset.univ.filter fun other => refers other = some target).erase holder := by
    ext other
    by_cases same : other = holder
    · simp [same]
    · simp [same]
  have card : ∀ entries : Holder → Option Target,
      count entries target =
        ((Finset.univ.filter fun other => entries other = some target).erase holder).card +
          (if entries holder = some target then 1 else 0) := by
    intro entries
    by_cases member : entries holder = some target
    · rw [if_pos member, Finset.card_erase_add_one (by simpa using member)]
      rfl
    · rw [if_neg member, Finset.erase_eq_of_notMem (by simpa using member)]
      rfl
  rw [card refers, card (update refers holder new), others, update_self]
  omega

theorem count_attach (free : refers holder = none) (new : Target) (target : Target) :
    count (update refers holder (some new)) target =
      count refers target + (if target = new then 1 else 0) := by
  have changed := count_update refers holder (some new) target
  rw [free, if_neg (by simp)] at changed
  simpa [eq_comm] using changed

theorem count_detach {old : Target} (held : refers holder = some old) (target : Target) :
    count (update refers holder none) target + (if target = old then 1 else 0) =
      count refers target := by
  have changed := count_update refers holder none target
  rw [held] at changed
  simpa [eq_comm] using changed

end Count

/-! ### References to any target -/

section Size

variable {refers : Holder → Option Target} {holder : Holder}

/-- The number of holders that refer to some target. -/
def size (refers : Holder → Option Target) : Nat :=
  (Finset.univ.filter fun holder => (refers holder).isSome).card

theorem size_eq_zero (free : ∀ holder, refers holder = none) : size refers = 0 := by
  simp [size, free]

/-- Those that satisfy a predicate which all referring holders but no others satisfy are no more
than those that refer. -/
theorem card_le_size {chosen : Holder → Prop} [DecidablePred chosen]
    (refer : ∀ holder, chosen holder → (refers holder).isSome) :
    (Finset.univ.filter chosen).card ≤ size refers :=
  Finset.card_le_card fun holder member => by
    simp only [Finset.mem_filter, Finset.mem_univ, true_and] at member ⊢
    exact refer holder member

theorem size_congr {other : Holder → Option Target}
    (same : ∀ holder, (refers holder).isSome = (other holder).isSome) : size
      refers = size other := by
  simp [size, same]

theorem size_le_card : size refers ≤ Fintype.card Holder := Finset.card_le_univ _

theorem size_pos (held : (refers holder).isSome) : 0 < size refers :=
  Finset.card_pos.mpr ⟨holder, by simpa using held⟩

variable [DecidableEq Holder]

theorem size_attach (free : refers holder = none) (new : Target) :
    size (update refers holder (some new)) = size refers + 1 := by
  have members : (Finset.univ.filter fun other =>
        (update refers holder (some new) other).isSome) =
      insert holder (Finset.univ.filter fun other => (refers other).isSome) := by
    ext other
    by_cases same : other = holder
    · simp [same]
    · simp [same]
  rw [size, members, Finset.card_insert_of_notMem (by simp [free])]
  rfl

theorem size_detach (held : (refers holder).isSome) :
    size (update refers holder none) + 1 = size refers := by
  obtain ⟨target, same⟩ := Option.isSome_iff_exists.mp held
  have back : update (update refers holder none) holder
    (some target) = refers := by
    rw [update_idem, ← same, update_eq_self]
  rw [← size_attach (update_self holder none refers) target, back]

end Size

end References
