/-
This file develops walks: a partial function says where a walk goes next, and the walk ends where it
says nothing.

Where there are finitely many places, a walk ends if and only if it comes to no place twice.
-/

import Mathlib.Data.Finite.Defs
import Mathlib.Data.Fintype.Pigeonhole

namespace Minix.Library

variable {σ : Type*} {next : σ → Option σ} {start place : σ} {m n : Nat}

/-- Where the walk is after some steps, unless it has ended. -/
def walk (next : σ → Option σ) (start : σ) : Nat → Option σ
  | 0 => some start
  | n + 1 => (walk next start n).bind next

/-- The walk comes to an end. -/
def Ends (next : σ → Option σ) (start : σ) : Prop := ∃ n, walk next start n = none

/-- The walk comes to some place twice. -/
def Cycles (next : σ → Option σ) (start : σ) : Prop :=
  ∃ m n place, m < n ∧ walk next start m = some place ∧ walk next start n = some place

/-- The walk comes to a place within some steps. -/
def Visits (next : σ → Option σ) (start : σ) (n : Nat) (place : σ) : Prop :=
  ∃ m < n, walk next start m = some place

theorem walk_succ (next : σ → Option σ) (start : σ) (n : Nat) :
    walk next start (n + 1) = (next start).bind fun second => walk next second n := by
  induction n with
  | zero => exact (Option.bind_fun_some (next start)).symm
  | succ n inductionHypothesis =>
    rw [walk, inductionHypothesis, Option.bind_assoc]
    rfl

theorem visits_succ : Visits next start (n + 1) place ↔
    place = start ∨ ∃ second ∈ next start, Visits next second n place := by
  constructor
  · rintro ⟨m, less, arrived⟩
    cases m with
    | zero => exact .inl (Option.some.inj arrived).symm
    | succ m =>
      rw [walk_succ] at arrived
      obtain ⟨second, stepped, rest⟩ := Option.bind_eq_some_iff.mp arrived
      exact .inr ⟨second, stepped, m, Nat.lt_of_succ_lt_succ less, rest⟩
  · rintro (rfl | ⟨second, stepped, m, less, rest⟩)
    · exact ⟨0, Nat.succ_pos n, rfl⟩
    · refine ⟨m + 1, Nat.succ_lt_succ less, ?_⟩
      rw [walk_succ, stepped]
      exact rest

theorem not_visits_zero : ¬Visits next start 0 place := by
  rintro ⟨m, less, -⟩
  exact Nat.not_lt_zero m less

theorem walk_none (ended : walk next start m = none) (later : m ≤ n) : walk next start n = none := by
  induction later with
  | refl => exact ended
  | step _ inductionHypothesis => rw [walk, inductionHypothesis, Option.bind_none]

theorem walk_add (arrived : walk next start m = some place) (n : Nat) :
    walk next start (m + n) = walk next place n := by
  induction n with
  | zero => exact arrived
  | succ n inductionHypothesis => rw [← Nat.add_assoc, walk, inductionHypothesis, walk]

theorem walk_again (first : walk next start m = some place)
    (second : walk next start (m + n) = some place) (k : Nat) :
    walk next start (m + n * k) = some place := by
  have round : walk next place n = some place := (walk_add first n).symm.trans second
  induction k with
  | zero => exact first
  | succ k inductionHypothesis =>
    rw [Nat.mul_succ, ← Nat.add_assoc, walk_add inductionHypothesis, round]

theorem Cycles.not_ends (cycles : Cycles next start) : ¬Ends next start := by
  rintro ⟨last, ended⟩
  obtain ⟨m, n, place, before, first, second⟩ := cycles
  obtain ⟨more, rfl⟩ := Nat.exists_eq_add_of_lt before
  have again := @walk_again σ next start place m (more + 1) first second last
  have late : last ≤ m + (more + 1) * last :=
    (Nat.le_mul_of_pos_left last (Nat.succ_pos more)).trans (Nat.le_add_left _ _)
  rw [walk_none ended late] at again
  cases again

theorem ends_iff [Finite σ] : Ends next start ↔ ¬Cycles next start := by
  refine ⟨fun ends cycles => cycles.not_ends ends, fun straight => ?_⟩
  by_contra endless
  have places (n : Nat) : ∃ place, walk next start n = some place :=
    Option.ne_none_iff_exists'.mp fun ended => endless ⟨n, ended⟩
  choose place arrived using places
  obtain ⟨m, n, apart, same⟩ := Finite.exists_ne_map_eq_of_infinite place
  rcases Nat.lt_or_gt_of_ne apart with before | after
  · exact straight ⟨m, n, place m, before, arrived m, same ▸ arrived n⟩
  · exact straight ⟨n, m, place n, after, arrived n, same ▸ arrived m⟩

end Minix.Library
