/-
This file develops positional numerals: the number that a list of digits denotes, read from the
most significant one on, and the reading of it in an accumulator that holds numbers up to a limit
only.

The accumulator looks before each step whether the next number still fits, by a division. What it
has found is a question about the whole numeral: a number that once was too large stays so.

Machine words of a fixed width are natural numbers. A sum or a difference of two words is that of
the numbers as long as it fits.
-/

import Mathlib.Algebra.Order.Group.Nat
import Mathlib.Data.List.Induction

namespace Numerals

variable {base limit digit : Nat} {digits more : List Nat}

/-- The number that the digits denote. -/
def value (base : Nat) (digits : List Nat) : Nat :=
  digits.foldl (fun number digit => number * base + digit) 0

@[simp] theorem value_nil : value base [] = 0 :=
  rfl

@[simp] theorem value_concat : value base (digits ++ [digit]) = value base digits * base + digit := by
  simp only [value, List.foldl_append, List.foldl_cons, List.foldl_nil]

theorem value_le_append (positive : 0 < base) :
    value base digits ≤ value base (digits ++ more) := by
  induction more using List.reverseRecOn with
  | nil => exact Nat.le_of_eq (congrArg (value base) (List.append_nil digits).symm)
  | append_singleton more last inductionHypothesis =>
    rw [← List.append_assoc, value_concat]
    calc value base digits
      _ ≤ value base (digits ++ more) := inductionHypothesis
      _ ≤ value base (digits ++ more) * base := Nat.le_mul_of_pos_right _ positive
      _ ≤ value base (digits ++ more) * base + last := Nat.le_add_right _ _

/-! ### An accumulator with a limit -/

theorem lt_div_iff (positive : 0 < base) (small : digit ≤ limit) (number : Nat) :
    (limit - digit) / base < number ↔ limit < number * base + digit := by
  rw [Nat.div_lt_iff_lt_mul positive]
  omega

/-- The accumulator after some digits: it holds the number that they denote, unless that was found
to exceed the limit. -/
structure Reads (base limit : Nat) (digits : List Nat) (number : Nat) (exceeded : Prop) : Prop where
  exact : ¬exceeded → number = value base digits
  found : exceeded ↔ limit < value base digits

theorem Reads.nil {exceeded : Prop} (within : ¬exceeded) : Reads base limit [] 0 exceeded :=
  ⟨fun _ => rfl, by simp [within]⟩

theorem Reads.step {number next : Nat} {exceeded exceeded' : Prop}
    (reads : Reads base limit digits number exceeded) (positive : 0 < base) (small : digit ≤ limit)
    (found : exceeded' ↔ exceeded ∨ (limit - digit) / base < number)
    (kept : number * base + digit ≤ limit → next = number * base + digit) :
    Reads base limit (digits ++ [digit]) next exceeded' := by
  rw [lt_div_iff positive small] at found
  have grows : value base digits ≤ value base (digits ++ [digit]) := value_le_append positive
  refine ⟨fun within => ?_, found.trans ?_⟩
  · rw [found, not_or, Nat.not_lt] at within
    rw [kept within.2, reads.exact within.1, value_concat]
  · constructor
    · rintro (before | now)
      · exact Nat.lt_of_lt_of_le (reads.found.mp before) grows
      · by_cases before : exceeded
        · exact Nat.lt_of_lt_of_le (reads.found.mp before) grows
        · rwa [value_concat, ← reads.exact before]
    · intro large
      by_cases before : exceeded
      · exact .inl before
      · rw [value_concat, ← reads.exact before] at large
        exact .inr large

end Numerals

namespace Word

variable {width x y : Nat}

/-- The sum of two words. -/
def add (width x y : Nat) : Nat := (x + y) % 2 ^ width

/-- The difference of two words. -/
def sub (width x y : Nat) : Nat := (x + (2 ^ width - y)) % 2 ^ width

theorem add_of_lt (fits : x + y < 2 ^ width) : add width x y = x + y := Nat.mod_eq_of_lt fits

theorem sub_of_le (ordered : y ≤ x) (fits : x < 2 ^ width) : sub width x y = x - y := by
  rw [sub, show x + (2 ^ width - y) = x - y + 2 ^ width by omega, Nat.add_mod_right]
  exact Nat.mod_eq_of_lt (by omega)

theorem sub_of_lt (wraps : x < y) (fits : y ≤ 2 ^ width) : sub width x y = 2 ^ width - (y - x) := by
  rw [sub, show x + (2 ^ width - y) = 2 ^ width - (y - x) by omega]
  exact Nat.mod_eq_of_lt (by omega)

theorem sub_add_cancel (fits : x < 2 ^ width) (fits' : y ≤ 2 ^ width) :
    sub width (add width x y) y = x := by
  rw [sub, add, Nat.mod_add_mod, show x + y + (2 ^ width - y) = x + 2 ^ width by omega,
    Nat.add_mod_right]
  exact Nat.mod_eq_of_lt fits

theorem add_sub_cancel (fits : x < 2 ^ width) (fits' : y ≤ 2 ^ width) :
    add width (sub width x y) y = x := by
  rw [sub, add, Nat.mod_add_mod, show x + (2 ^ width - y) + y = x + 2 ^ width by omega,
    Nat.add_mod_right]
  exact Nat.mod_eq_of_lt fits

end Word
