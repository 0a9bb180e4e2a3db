/-
This file develops partial functions that are bounded by fuel: what they return does not change when
they get more fuel.
-/

import Mathlib.Order.Basic

namespace Minix.Library

variable {α β : Type*}

/-- The second result is the first, or the first one is missing. -/
def Below (x y : Option α) : Prop := ∀ a, x = some a → y = some a

/-- More fuel leaves the result. -/
def Steady (f : Nat → Option α) : Prop := ∀ fuel, Below (f fuel) (f (fuel + 1))

/-- The function returns the value, if it gets enough fuel. -/
def Returns (f : Nat → Option α) (a : α) : Prop := ∃ fuel, f fuel = some a

theorem Below.refl (x : Option α) : Below x x := fun _ => id

theorem Below.bind {x y : Option α} {f g : α → Option β} (first : Below x y)
    (rest : ∀ a, Below (f a) (g a)) : Below (x.bind f) (y.bind g) := by
  intro b result
  obtain ⟨a, found, next⟩ := Option.bind_eq_some_iff.mp result
  rw [first a found]
  exact rest a b next

section Steady

variable {f : Nat → Option α} {a b : α} {fuel more : Nat}

theorem Steady.le (steady : Steady f) (enough : fuel ≤ more) (result : f fuel = some a) :
    f more = some a := by
  induction enough with
  | refl => exact result
  | step _ inductionHypothesis => exact steady _ a inductionHypothesis

theorem Steady.unique (steady : Steady f) (first : Returns f a) (second : Returns f b) : a = b := by
  obtain ⟨fuel, first⟩ := first
  obtain ⟨more, second⟩ := second
  have one := steady.le (Nat.le_add_right fuel more) first
  have two := steady.le (Nat.le_add_left more fuel) second
  exact Option.some.inj (one.symm.trans two)

theorem Steady.foldlM {step : Nat → β → α → Option β} (steady : ∀ b a, Steady fun n => step n b a)
    (names : List α) (start : β) : Steady fun n => names.foldlM (step n) start := by
  intro fuel
  induction names generalizing start with
  | nil => exact .refl _
  | cons name names inductionHypothesis =>
    simp only [List.foldlM_cons]
    exact (steady start name fuel).bind fun b => inductionHypothesis b

theorem Steady.bind {step : Nat → α → Option β} (first : Steady f)
    (rest : ∀ a, Steady fun n => step n a) : Steady fun n => (f n).bind (step n) :=
  fun fuel => (first fuel).bind fun a => rest a fuel

theorem Steady.const (x : Option α) : Steady fun _ => x := fun _ => .refl x

theorem Steady.returns_bind {step : Nat → α → Option β} (first : Steady f)
    (rest : ∀ a, Steady fun n => step n a) {b : β} :
    Returns (fun n => (f n).bind (step n)) b ↔ ∃ a, Returns f a ∧ Returns (fun n => step n a) b := by
  constructor
  · rintro ⟨fuel, result⟩
    obtain ⟨a, found, next⟩ := Option.bind_eq_some_iff.mp result
    exact ⟨a, ⟨fuel, found⟩, fuel, next⟩
  · rintro ⟨a, ⟨fuel, found⟩, more, next⟩
    have one := first.le (Nat.le_add_right fuel more) found
    have two := (rest a).le (Nat.le_add_left more fuel) next
    exact ⟨fuel + more, Option.bind_eq_some_iff.mpr ⟨a, one, two⟩⟩

theorem returns_const {x : Option α} : Returns (fun _ => x) a ↔ x = some a :=
  ⟨fun ⟨_, same⟩ => same, fun same => ⟨0, same⟩⟩

theorem Steady.returns_succ (steady : Steady f) : Returns (fun n => f (n + 1)) a ↔ Returns f a :=
  ⟨fun ⟨fuel, same⟩ => ⟨fuel + 1, same⟩, fun ⟨fuel, same⟩ => ⟨fuel, steady fuel a same⟩⟩

end Steady

end Minix.Library
