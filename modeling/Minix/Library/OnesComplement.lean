/-
This file develops one's complement sums of words of two digits. Two sums are the same if they are
congruent modulo the greatest word and both or none of them is zero.

Exchanging the digits of a word multiplies it by the radix, and doing it twice gives the word back.
So digits that are taken in the wrong places give a sum that only has to be exchanged again.
-/

import Mathlib.Data.Nat.ModEq
import Mathlib.Tactic.Ring

namespace OnesComplement

variable {radix a b c d : Nat} {odd : Bool} {digits more : List Nat}

/-- The sums stand for the same word. -/
def Same (radix a b : Nat) : Prop := a ≡ b [MOD radix * radix - 1] ∧ (a = 0 ↔ b = 0)

namespace Same

theorem refl (a : Nat) : Same radix a a := ⟨Nat.ModEq.refl a, Iff.rfl⟩

theorem symm (same : Same radix a b) : Same radix b a := ⟨same.1.symm, same.2.symm⟩

theorem trans (first : Same radix a b) (second : Same radix b c) : Same radix a c :=
  ⟨first.1.trans second.1, first.2.trans second.2⟩

theorem add (first : Same radix a b) (second : Same radix c d) : Same radix (a + c) (b + d) := by
  refine ⟨first.1.add second.1, ?_⟩
  rw [Nat.add_eq_zero_iff, Nat.add_eq_zero_iff, first.2, second.2]

theorem mul (same : Same radix a b) : Same radix (radix * a) (radix * b) := by
  refine ⟨same.1.mul_left radix, ?_⟩
  rw [Nat.mul_eq_zero, Nat.mul_eq_zero, same.2]

theorem mul_mul (pos : 0 < radix) (a : Nat) : Same radix (radix * (radix * a)) a := by
  refine ⟨?_, ?_⟩
  · have split : radix * (radix * a) = (radix * radix - 1) * a + a := by
      have square : radix * radix - 1 + 1 = radix * radix := Nat.sub_add_cancel (Nat.mul_pos pos pos)
      calc radix * (radix * a) = (radix * radix - 1 + 1) * a := by rw [square, Nat.mul_assoc]
        _ = (radix * radix - 1) * a + a := by ring
    rw [split]
    exact (Nat.modEq_zero_iff_dvd.mpr (dvd_mul_right _ a)).add_right a |>.trans (by rw [zero_add])
  · rw [Nat.mul_eq_zero, Nat.mul_eq_zero]
    exact ⟨fun zero => (zero.resolve_left pos.ne').resolve_left pos.ne', fun zero => .inr (.inr zero)⟩

theorem eq (small : a < radix * radix) (small' : b < radix * radix) (same : Same radix a b) :
    a = b := by
  obtain ⟨congruent, zero⟩ := same
  by_cases none : a = 0
  · rw [none, zero.mp none]
  have some : b ≠ 0 := fun none' => none (zero.mpr none')
  -- both lie between 1 and the modulus
  obtain ⟨a, rfl⟩ := Nat.exists_eq_add_one_of_ne_zero none
  obtain ⟨b, rfl⟩ := Nat.exists_eq_add_one_of_ne_zero some
  have before : a ≡ b [MOD radix * radix - 1] := congruent.add_right_cancel' 1
  rw [before.eq_of_lt_of_lt (by omega) (by omega)]

end Same

/-! ### Sums of words -/

/-- The sum of the words that the digits make, low digit first. With `odd`, the first digit is the
high one. -/
def weigh (radix : Nat) : Bool → List Nat → Nat
  | _, [] => 0
  | odd, a :: digits => (if odd then radix else 1) * a + weigh radix (!odd) digits

theorem weigh_append : weigh radix odd (digits ++ more) =
    weigh radix odd digits + weigh radix (odd ^^ digits.length % 2 == 1) more := by
  induction digits generalizing odd with
  | nil => simp [weigh]
  | cons a digits inductionHypothesis =>
    have parity : (!odd ^^ digits.length % 2 == 1) = (odd ^^ (digits.length + 1) % 2 == 1) := by
      rcases Nat.mod_two_eq_zero_or_one digits.length with even | even <;>
        cases odd <;> simp [Nat.add_mod, even]
    rw [List.cons_append, weigh, weigh, inductionHypothesis, List.length_cons, parity,
      Nat.add_assoc]

theorem same_weigh_not (pos : 0 < radix) :
    Same radix (weigh radix (!odd) digits) (radix * weigh radix odd digits) := by
  induction digits generalizing odd with
  | nil => exact Same.refl 0
  | cons a digits inductionHypothesis =>
    rw [weigh, weigh, Nat.mul_add]
    refine Same.add ?_ inductionHypothesis
    cases odd
    · rw [Bool.not_false, if_pos rfl, if_neg Bool.false_ne_true, one_mul]
      exact Same.refl _
    · rw [Bool.not_true, if_neg Bool.false_ne_true, if_pos rfl, one_mul]
      exact (Same.mul_mul pos a).symm

theorem weigh_lt {bound : Nat} (small : ∀ a ∈ digits, a ≤ bound) (one : 1 ≤ radix) :
    weigh radix odd digits ≤ radix * bound * digits.length := by
  induction digits generalizing odd with
  | nil => exact Nat.zero_le _
  | cons a digits inductionHypothesis =>
    obtain ⟨first, others⟩ := List.forall_mem_cons.mp small
    have rest : weigh radix (!odd) digits ≤ radix * bound * digits.length :=
      inductionHypothesis others
    have weighted : (if odd then radix else 1) * a ≤ radix * bound := by
      refine Nat.mul_le_mul ?_ first
      split
      · exact le_rfl
      · exact one
    rw [weigh, List.length_cons, Nat.mul_add, mul_one]
    omega

/-! ### Folding -/

/-- A sum whose carries have been added to it, twice. -/
def fold (radix sum : Nat) : Nat :=
  let once := sum % (radix * radix) + sum / (radix * radix)
  if radix * radix ≤ once then once + 1 - radix * radix else once

theorem same_carry (pos : 0 < radix) (sum : Nat) :
    Same radix (sum % (radix * radix) + sum / (radix * radix)) sum := by
  have square : 0 < radix * radix := Nat.mul_pos pos pos
  have split := Nat.mod_add_div sum (radix * radix)
  refine ⟨?_, ?_⟩
  · have whole : sum = (radix * radix - 1) * (sum / (radix * radix)) +
        (sum % (radix * radix) + sum / (radix * radix)) := by
      have one : radix * radix - 1 + 1 = radix * radix := Nat.sub_add_cancel square
      calc sum = sum % (radix * radix) + radix * radix * (sum / (radix * radix)) := split.symm
        _ = sum % (radix * radix) + (radix * radix - 1 + 1) * (sum / (radix * radix)) := by rw [one]
        _ = _ := by ring
    conv_rhs => rw [whole]
    exact ((Nat.modEq_zero_iff_dvd.mpr (dvd_mul_right _ _)).add_right _ |>.trans
      (by rw [zero_add])).symm
  · constructor
    · intro zero
      obtain ⟨low, high⟩ := Nat.add_eq_zero_iff.mp zero
      rw [← split, low, high, mul_zero, add_zero]
    · rintro rfl
      rw [Nat.zero_mod, Nat.zero_div]

theorem same_fold (two : 1 < radix) (fits : sum < radix * radix * (radix * radix)) :
    Same radix (fold radix sum) sum ∧ fold radix sum < radix * radix := by
  have pos : 0 < radix := Nat.zero_lt_of_lt two
  have square : 1 < radix * radix := Nat.one_lt_mul_iff.mpr ⟨pos, pos, .inl two⟩
  have low : sum % (radix * radix) < radix * radix := Nat.mod_lt _ (Nat.mul_pos pos pos)
  have high : sum / (radix * radix) < radix * radix := Nat.div_lt_of_lt_mul fits
  have carried := same_carry pos sum
  unfold fold
  obtain ⟨words, square'⟩ : ∃ words, words = radix * radix := ⟨_, rfl⟩
  obtain ⟨once, sums⟩ : ∃ once, once = sum % words + sum / words := ⟨_, rfl⟩
  rw [← square'] at square low high carried ⊢
  rw [← sums] at carried ⊢
  by_cases carry : words ≤ once
  · rw [if_pos carry]
    have folded : Same radix (once + 1 - words) once := by
      refine ⟨?_, by omega⟩
      have whole : once = once + 1 - words + (radix * radix - 1) := by omega
      conv_rhs => rw [whole]
      exact (Nat.add_modEq_right).symm
    exact ⟨folded.trans carried, by omega⟩
  · rw [if_neg carry]
    exact ⟨carried, by omega⟩

end OnesComplement
