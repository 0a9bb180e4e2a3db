/-
This file develops runs of a machine given by a partial step function.

A step that is `none` is a step the machine never completes. A guard says which steps are
considered; a run is a sequence of completed, guarded steps, and a property that holds at
the start and is kept by every guarded step holds in every state a run reaches.
-/

import Mathlib.Data.List.Basic

namespace Transition

variable {State Label : Type*} {step : State → Label → Option State}
  {guard other : State → Label → Prop} {start state : State} {labels more : List Label}

/-- The guarded runs of a machine: the labels taken, in order, and the state reached. -/
inductive Run (step : State → Label → Option State) (guard : State → Label → Prop)
    (start : State) : List Label → State → Prop
  | nil : Run step guard start [] start
  | snoc {labels : List Label} {state after : State} {label : Label} :
      Run step guard start labels state → guard state label → step state label = some after →
      Run step guard start (labels ++ [label]) after

/-- The invariant rule: what holds at the start and is kept by every guarded step holds in
every state reached. -/
theorem Run.invariant {Invariant : State → Prop} (initial : Invariant start)
    (preserved : ∀ state label after, Invariant state → guard state label →
      step state label = some after → Invariant after)
    (run : Run step guard start labels state) : Invariant state := by
  induction run with
  | nil => exact initial
  | snoc _ allowed completed inductionHypothesis =>
    exact preserved _ _ _ inductionHypothesis allowed completed

theorem Run.cons {label : Label} {middle : State} (allowed : guard start label)
    (completed : step start label = some middle) (run : Run step guard middle labels state) :
    Run step guard start (label :: labels) state := by
  induction run with
  | nil => exact .snoc .nil allowed completed
  | snoc _ allowed' completed' inductionHypothesis =>
    exact .snoc inductionHypothesis allowed' completed'

theorem Run.append {middle : State} (run : Run step guard start labels middle)
    (rest : Run step guard middle more state) : Run step guard start (labels ++ more) state := by
  induction run generalizing more with
  | nil => exact rest
  | snoc _ allowed completed inductionHypothesis =>
    rw [List.append_assoc]
    exact inductionHypothesis (.cons allowed completed rest)

theorem Run.of_append (run : Run step guard start (labels ++ more) state) :
    ∃ middle, Run step guard start labels middle := by
  generalize whole : labels ++ more = all at run
  induction run generalizing more with
  | nil =>
    obtain rfl := (List.append_eq_nil_iff.mp whole).1
    exact ⟨_, .nil⟩
  | @snoc before state after label run allowed completed inductionHypothesis =>
    rcases List.eq_nil_or_concat more with rfl | ⟨front, last, rfl⟩
    · rw [List.append_nil] at whole
      rw [whole]
      exact ⟨_, .snoc run allowed completed⟩
    · rw [List.concat_eq_append, ← List.append_assoc] at whole
      exact inductionHypothesis (List.append_inj_left' whole rfl)

/-- Take the given steps one after the other, as long as the guard allows them. -/
def execute (step : State → Label → Option State) (guard : State → Label → Prop)
    [∀ state label, Decidable (guard state label)] : List Label → State → Option State
  | [], state => some state
  | label :: labels, state =>
    if guard state label then (step state label).bind (execute step guard labels) else none

theorem Run.of_execute [∀ state label, Decidable (guard state label)]
    (executed : execute step guard labels start = some state) :
    Run step guard start labels state := by
  induction labels generalizing start with
  | nil =>
    obtain rfl := Option.some.inj executed
    exact .nil
  | cons label labels inductionHypothesis =>
    rw [execute] at executed
    obtain ⟨allowed, executed⟩ := Option.ite_none_right_eq_some.mp executed
    obtain ⟨middle, completed, rest⟩ := Option.bind_eq_some_iff.mp executed
    exact .cons allowed completed (inductionHypothesis rest)

/-- The state that the given steps lead to, if they complete. -/
def reached (step : State → Label → Option State) (guard : State → Label → Prop)
    [∀ state label, Decidable (guard state label)] (start : State) (labels : List Label) : State :=
  (execute step guard labels start).getD start

theorem reached_run [∀ state label, Decidable (guard state label)]
    (completes : (execute step guard labels start).isSome = true) :
    Run step guard start labels (reached step guard start labels) := by
  obtain ⟨after, completed⟩ := Option.isSome_iff_exists.mp completes
  rw [reached, completed]
  exact .of_execute completed

/-- A run under one guard is a run under every guard that is weaker for the labels taken. -/
theorem Run.weaken
    (weaker : ∀ state label, label ∈ labels → guard state label → other state label)
    (run : Run step guard start labels state) : Run step other start labels state := by
  induction run with
  | nil => exact .nil
  | snoc _ allowed completed inductionHypothesis =>
    refine .snoc (inductionHypothesis fun state label member => ?_) ?_ completed
    · exact weaker state label (List.mem_append_left _ member)
    · exact weaker _ _ (List.mem_append_right _ (List.mem_singleton_self _)) allowed

/-- Two guards that agree on every completed step allow the same runs. It is enough that they agree
where an invariant holds that the steps under one of them keep. -/
theorem Run.exchange {Invariant : State → Prop} (initial : Invariant start)
    (preserved : ∀ state label after, Invariant state → other state label →
      step state label = some after → Invariant after)
    (agree : ∀ state label after, Invariant state → step state label = some after →
      (guard state label ↔ other state label)) :
    Run step guard start labels state ↔ Run step other start labels state := by
  constructor
  · intro run
    induction run with
    | nil => exact .nil
    | snoc _ allowed completed inductionHypothesis =>
      have holds := inductionHypothesis.invariant initial preserved
      exact .snoc inductionHypothesis ((agree _ _ _ holds completed).mp allowed) completed
  · intro run
    induction run with
    | nil => exact .nil
    | snoc before allowed completed inductionHypothesis =>
      have holds := before.invariant initial preserved
      exact .snoc inductionHypothesis ((agree _ _ _ holds completed).mpr allowed) completed

end Transition
