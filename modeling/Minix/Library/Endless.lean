/-
This file develops the runs of a machine that never end: which properties hold all along them, when
one exists, and why something that waits is served in the end.

What waits has a rank. A step serves it or leaves it waiting with a rank that is no higher, and a
helpful step leaves it with a lower one; when there is always another helpful step to come, it is
served.
-/

import Mathlib.Algebra.Order.Group.Nat
import Mathlib.Data.Nat.Init
import Minix.Library.Transition

namespace Transition

variable {State Label : Type*} {step : State → Label → Option State}
  {guard : State → Label → Prop} {start : State} {calls : Nat → Label} {states : Nat → State}

/-- A run that never ends: the labels taken, and the states they are taken in. -/
structure Endless (step : State → Label → Option State) (guard : State → Label → Prop)
    (start : State) (calls : Nat → Label) (states : Nat → State) : Prop where
  begins : states 0 = start
  allowed : ∀ n, guard (states n) (calls n)
  completed : ∀ n, step (states n) (calls n) = some (states (n + 1))

theorem Endless.run (endless : Endless step guard start calls states) (n : Nat) :
    Run step guard start ((List.range n).map calls) (states n) := by
  induction n with
  | zero =>
    rw [endless.begins]
    exact .nil
  | succ n inductionHypothesis =>
    rw [List.range_succ, List.map_append]
    exact .snoc inductionHypothesis (endless.allowed n) (endless.completed n)

theorem Endless.weaken {other : State → Label → Prop}
    (weaker : ∀ state label, guard state label → other state label)
    (endless : Endless step guard start calls states) : Endless step other start calls states :=
  ⟨endless.begins, fun n => weaker _ _ (endless.allowed n), endless.completed⟩

/-- A run goes on for ever when every state that it may be in has a next one. -/
theorem exists_endless (may : Nat → State → Prop) (begins : may 0 start)
    (next : ∀ n state, may n state → guard state (calls n) ∧
      ∃ after, step state (calls n) = some after ∧ may (n + 1) after) :
    ∃ states, Endless step guard start calls states ∧ ∀ n, may n (states n) := by
  choose! allowed after completed goes using next
  let states : Nat → State := fun n => Nat.rec start (fun n state => after n state) n
  have along (n : Nat) : may n (states n) := by
    induction n with
    | zero => exact begins
    | succ n inductionHypothesis => exact goes n _ inductionHypothesis
  exact ⟨states, ⟨rfl, fun n => allowed n _ (along n), fun n => completed n _ (along n)⟩, along⟩

/-- What a state may do, every related state may do too, and the two stay related. -/
structure Mimics (step : State → Label → Option State) (guard : State → Label → Prop)
    (related : State → State → Prop) : Prop where
  allowed : ∀ state other label, related state other → guard state label → guard other label
  completed : ∀ state other label after, related state other → guard state label →
    step state label = some after → ∃ after', step other label = some after' ∧ related after after'

section Repeating

variable [∀ state label, Decidable (guard state label)] {related : State → State → Prop}
  {first again : State} {period : Nat}

theorem execute_within {labels : List Label} {label : Label} {more : List Label}
    (executed : execute step guard (labels ++ label :: more) first = some again) :
    ∃ state after, execute step guard labels first = some state ∧ guard state label ∧
      step state label = some after ∧ execute step guard (labels ++ [label])
        first = some after := by
  induction labels generalizing first with
  | nil =>
    rw [List.nil_append, execute] at executed
    obtain ⟨allowed, executed⟩ := Option.ite_none_right_eq_some.mp executed
    obtain ⟨after, completed, -⟩ := Option.bind_eq_some_iff.mp executed
    refine ⟨first, after, rfl, allowed, completed, ?_⟩
    rw [List.nil_append, execute, if_pos allowed, completed]
    rfl
  | cons other labels inductionHypothesis =>
    rw [List.cons_append, execute] at executed
    obtain ⟨allowed, executed⟩ := Option.ite_none_right_eq_some.mp executed
    obtain ⟨middle, completed, rest⟩ := Option.bind_eq_some_iff.mp executed
    obtain ⟨state, after, reached, may, goes, beyond⟩ := inductionHypothesis rest
    refine ⟨state, after, ?_, may, goes, ?_⟩
    · rw [execute, if_pos allowed, completed]
      exact reached
    · rw [List.cons_append, execute, if_pos allowed, completed]
      exact beyond

/-- A round of steps that comes back to where it began can be repeated for ever. -/
theorem exists_repeating (mimics : Mimics step guard related) (positive : 0 < period)
    (periodic : ∀ n, calls (n % period) = calls n) (begins : related first start)
    (executed : execute step guard ((List.range period).map calls) first = some again)
    (closes : ∀ other, related again other → related first other) :
    ∃ states, Endless step guard start calls states ∧
      ∀ n, ∃ reference, execute step guard ((List.range (n % period)).map calls) first =
        some reference ∧ related reference (states n) := by
  refine exists_endless (fun n state => ∃ reference,
    execute step guard ((List.range (n % period)).map calls) first = some reference ∧
      related reference state) ⟨first, by rw [Nat.zero_mod]; rfl, begins⟩ ?_
  rintro n state ⟨reference, reached, same⟩
  have within : n % period < period := Nat.mod_lt n positive
  obtain ⟨rest, split⟩ : ∃ rest, (List.range period).map calls =
      (List.range (n % period)).map calls ++ calls n :: rest := by
    refine ⟨((List.range period).drop (n % period + 1)).map calls, ?_⟩
    rw [← periodic n, ← List.map_cons, ← List.map_append]
    refine congrArg (List.map calls) ?_
    conv_lhs => rw [← List.take_append_drop (n % period) (List.range period)]
    rw [List.take_range, Nat.min_eq_left within.le, List.drop_eq_getElem_cons
      (by simpa using within)]
    simp
  rw [split] at executed
  obtain ⟨reference', after, reached', allowed, completed, beyond⟩ := execute_within executed
  obtain rfl := Option.some.inj (reached'.symm.trans reached)
  obtain ⟨after', goes, same'⟩ := mimics.completed _ _ _ _ same allowed completed
  refine ⟨mimics.allowed _ _ _ same allowed, after', goes, ?_⟩
  by_cases last : n % period + 1 = period
  · have wraps : (n + 1) % period = 0 := by
      rw [← Nat.mod_add_mod, last, Nat.mod_self]
    refine ⟨first, by rw [wraps]; rfl, closes _ ?_⟩
    have whole : (List.range period).map calls = (List.range (n % period)).map calls
      ++ [calls n] := by
      conv_lhs => rw [← last, List.range_succ, List.map_append, List.map_singleton, periodic]
    rw [← split, whole, beyond] at executed
    obtain rfl := Option.some.inj executed
    exact same'
  · have goesOn : (n + 1) % period = n % period + 1 := by
      rw [← Nat.mod_add_mod, Nat.mod_eq_of_lt (Nat.lt_of_le_of_ne within last)]
    refine ⟨after, ?_, same'⟩
    rw [goesOn, List.range_succ, List.map_append, List.map_singleton, periodic]
    exact beyond

end Repeating

theorem served_of_rank {served : Nat → Prop} (waits helpful : Nat → Prop) (rank : Nat → Nat)
    (next : ∀ n, waits n → served n ∨ waits (n + 1) ∧ rank (n + 1) ≤ rank n ∧
      (helpful n → rank (n + 1) < rank n))
    (fair : ∀ n, waits n → ∃ m, n ≤ m ∧ helpful m) (n : Nat) (waiting : waits n) :
    ∃ m, n ≤ m ∧ served m := by
  by_contra never
  have unserved (m : Nat) (later : n ≤ m) : ¬served m := fun done => never ⟨m, later, done⟩
  have stays (m : Nat) (later : n ≤ m) : waits m := by
    induction m, later using Nat.le_induction with
    | base => exact waiting
    | succ m later inductionHypothesis =>
      exact ((next m inductionHypothesis).resolve_left (unserved m later)).1
  have falls (m m' : Nat) (later : n ≤ m) (after : m ≤ m') : rank m' ≤ rank m := by
    induction m', after using Nat.le_induction with
    | base => exact le_rfl
    | succ m' after inductionHypothesis =>
      have later' := later.trans after
      exact (((next m' (stays m' later')).resolve_left (unserved m' later')).2.1).trans
        inductionHypothesis
  have below (bound m : Nat) (later : n ≤ m) : ¬rank m < bound := by
    induction bound generalizing m with
    | zero => exact Nat.not_lt_zero _
    | succ bound inductionHypothesis =>
      intro small
      obtain ⟨m', after, helps⟩ := fair m (stays m later)
      have later' := later.trans after
      have lower := ((next m' (stays m' later')).resolve_left (unserved m' later')).2.2 helps
      refine inductionHypothesis (m' + 1) (later'.trans (Nat.le_succ _)) ?_
      exact lt_of_lt_of_le lower ((falls m m' later after).trans (Nat.le_of_lt_succ small))
  exact below (rank n + 1) n le_rfl (Nat.lt_succ_self _)

end Transition
