/-
This file develops the answers to questions that are remembered in the ways of a set: a way that is
used moves to the front, a new answer goes to the front, and the last way is forgotten.

What is remembered stays right when answers that may have changed are forgotten.
-/

import Mathlib.Data.List.Basic

namespace Memo

variable {Key Value : Type*} [DecidableEq Key] {key : Key} {value : Value}

/-- A way: a question and its answer, if there is one. -/
structure Way (Key Value : Type*) where
  key : Key
  value : Option Value

variable {way : Way Key Value} {ways others : List (Way Key Value)}
  {answer answer' : Key → Option Value}

/-- The first way for a question, and the other ways. -/
def find (key : Key) : List (Way Key Value) → Option (Way Key Value × List (Way Key Value))
  | [] => none
  | way :: ways =>
    if way.key = key then some (way, ways)
    else (find key ways).map fun found => (found.1, way :: found.2)

/-- The ways with the first one for a question in front, and what is remembered there. -/
def use (key : Key) (ways : List (Way Key Value)) : List (Way Key Value) × Option Value :=
  match find key ways with
  | none => (ways, none)
  | some (way, others) => (way :: others, way.value)

/-- Remember an answer. -/
def remember (ways : List (Way Key Value)) (key : Key) (value : Value) : List (Way Key Value) :=
  ⟨key, some value⟩ :: ways.dropLast

/-- Forget the answers to some questions. -/
def forget (empty : Key) (affected : Key → Bool) (ways : List (Way Key Value)) :
    List (Way Key Value) :=
  ways.map fun way => if affected way.key then ⟨empty, none⟩ else way

/-- What is remembered is right. -/
def Sound (answer : Key → Option Value) (ways : List (Way Key Value)) : Prop :=
  ∀ way ∈ ways, ∀ value, way.value = some value → answer way.key = some value

theorem find_eq_some (found : find key ways = some (way, others)) :
    way.key = key ∧ ∀ other, other ∈ way :: others ↔ other ∈ ways := by
  induction ways generalizing way others with
  | nil => cases found
  | cons first ways inductionHypothesis =>
    unfold find at found
    split at found
    case isTrue same =>
      cases found
      exact ⟨same, fun _ => Iff.rfl⟩
    case isFalse =>
      obtain ⟨⟨way', others'⟩, inside, same⟩ := Option.map_eq_some_iff.mp found
      cases same
      obtain ⟨key', members⟩ := inductionHypothesis inside
      refine ⟨key', fun other => ?_⟩
      rw [List.mem_cons, List.mem_cons, List.mem_cons, ← members, List.mem_cons]
      exact or_left_comm

theorem use_mem (key : Key) (ways : List (Way Key Value)) :
    (∀ way, way ∈ (use key ways).1 ↔ way ∈ ways) ∧
      ∀ value ∈ (use key ways).2, ∃ way ∈ ways, way.key = key ∧ way.value = some value := by
  unfold use
  cases found : find key ways with
  | none => exact ⟨fun _ => Iff.rfl, fun value none => by cases none⟩
  | some pair =>
    obtain ⟨way, others⟩ := pair
    obtain ⟨key', members⟩ := find_eq_some found
    exact ⟨members, fun value same => ⟨way, (members way).mp List.mem_cons_self, key', same⟩⟩

theorem Sound.use (sound : Sound answer ways) (key : Key) :
    Sound answer (use key ways).1 ∧
      ∀ value, (Memo.use key ways).2 = some value → answer key = some value := by
  unfold Memo.use
  cases found : find key ways with
  | none => exact ⟨sound, fun value none => by cases none⟩
  | some pair =>
    obtain ⟨way, others⟩ := pair
    obtain ⟨key', members⟩ := find_eq_some found
    refine ⟨fun other member => sound other ((members other).mp member), fun value same => ?_⟩
    rw [← key']
    exact sound way ((members way).mp List.mem_cons_self) value same

omit [DecidableEq Key] in
theorem Sound.remember (sound : Sound answer ways) (right : answer key = some value) :
    Sound answer (remember ways key value) := by
  refine List.forall_mem_cons.mpr ⟨fun value' same => ?_, fun way member => ?_⟩
  · rw [← same]
    exact right
  · exact sound way (List.dropLast_subset ways member)

omit [DecidableEq Key] in
/-- If only the answers to questions that are forgotten change, the others stay right. -/
theorem Sound.forget (sound : Sound answer ways) {empty : Key} {affected : Key → Bool}
    (kept : ∀ key, affected key = false → answer' key = answer key) :
    Sound answer' (forget empty affected ways) := by
  intro way member value same
  obtain ⟨old, inside, rfl⟩ := List.mem_map.mp member
  split at same
  case isTrue => cases same
  case isFalse unaffected =>
    rw [if_neg unaffected, kept _ (Bool.eq_false_iff.mpr unaffected)]
    exact sound old inside value same

end Memo
