/-
This file develops a store that is divided into extents: lists of free extents, sorted by where
they start and never touching each other, from which a piece is taken at the first extent that is
large enough, and to which a piece is given back that is joined with its neighbours.

What is free is a set of points. Taking and giving back change this set by exactly the piece, and
there are never more free extents than there are pieces in use and separate parts of the store
together.

A hint into a set of free things is a number that is not above any of them. Taking things never
makes a hint wrong, giving one back lowers it, and the lowest thing, once taken, is itself a hint.
-/

import Mathlib.Data.List.Nodup
import Mathlib.Order.Bounds.Basic
import Mathlib.Algebra.Order.Group.Nat
import Mathlib.Data.List.Perm.Subperm

namespace Extents

/-- The points from `base` on, `len` of them. -/
structure Extent where
  base : Nat
  len : Nat
deriving DecidableEq

namespace Extent

/-- The first point behind an extent. -/
def stop (extent : Extent) : Nat := extent.base + extent.len

def Contains (extent : Extent) (x : Nat) : Prop := extent.base ≤ x ∧ x < extent.stop

instance (extent : Extent) (x : Nat) : Decidable (extent.Contains x) :=
  inferInstanceAs (Decidable (_ ∧ _))

/-- No point is in both. -/
def Disjoint (first second : Extent) : Prop := first.stop ≤ second.base ∨ second.stop ≤ first.base

instance (first second : Extent) : Decidable (first.Disjoint second) :=
  inferInstanceAs (Decidable (_ ∨ _))

theorem Disjoint.symm {first second : Extent} (disjoint : first.Disjoint second) :
    second.Disjoint first := Or.symm disjoint

/-- Extents of which one has no points are disjoint as sets; this notion asks more of them. -/
theorem Disjoint.not_contains {first second : Extent} (disjoint : first.Disjoint second) {x : Nat}
    (inside : first.Contains x) : ¬ second.Contains x := by
  rintro ⟨from', to'⟩
  obtain ⟨from_, to_⟩ := inside
  rcases disjoint with before | behind <;> omega

theorem disjoint_of_not_contains {first second : Extent} (pos : 0 < first.len)
    (pos' : 0 < second.len) (apart : ∀ x, first.Contains x → ¬ second.Contains x) :
    first.Disjoint second := by
  by_contra overlap
  simp only [Disjoint, stop, not_or, not_le] at overlap
  refine apart (max first.base second.base) ⟨le_max_left _ _, ?_⟩ ⟨le_max_right _ _, ?_⟩
  · simp only [stop]
    omega
  · simp only [stop]
    omega

end Extent

/-- The points in some extent of a list. -/
def Covers (extents : List Extent) (x : Nat) : Prop := ∃ extent ∈ extents, extent.Contains x

/-- Extents with points, in increasing order, with at least one point between any two. -/
structure Sorted (extents : List Extent) : Prop where
  pos : ∀ extent ∈ extents, 0 < extent.len
  apart : extents.Pairwise fun first second => first.stop < second.base

section Sorted

variable {extents rest : List Extent} {extent : Extent} {x : Nat}

@[simp] theorem not_covers_nil : ¬ Covers [] x := by simp [Covers]

@[simp] theorem covers_cons :
    Covers (extent :: rest) x ↔ extent.Contains x ∨ Covers rest x := by simp [Covers]

theorem Sorted.nil : Sorted [] := ⟨by simp, .nil⟩

theorem sorted_cons :
    Sorted (extent :: rest) ↔
      0 < extent.len ∧ (∀ other ∈ rest, extent.stop < other.base) ∧ Sorted rest := by
  constructor
  · intro sorted
    obtain ⟨apart, apart'⟩ := List.pairwise_cons.mp sorted.apart
    exact ⟨sorted.pos _ List.mem_cons_self, apart,
      fun other member => sorted.pos other (List.mem_cons_of_mem _ member), apart'⟩
  · rintro ⟨pos, apart, sorted⟩
    refine ⟨fun other member => ?_, List.pairwise_cons.mpr ⟨apart, sorted.apart⟩⟩
    rcases List.mem_cons.mp member with rfl | member
    · exact pos
    · exact sorted.pos other member

theorem Sorted.eq_or_apart (sorted : Sorted extents) {first second : Extent}
    (member : first ∈ extents) (member' : second ∈ extents) :
    first = second ∨ first.stop < second.base ∨ second.stop < first.base := by
  induction extents with
  | nil => cases member
  | cons extent rest inductionHypothesis =>
    obtain ⟨-, apart, sorted'⟩ := sorted_cons.mp sorted
    rcases List.mem_cons.mp member with rfl | inside
    · rcases List.mem_cons.mp member' with rfl | inside'
      · exact .inl rfl
      · exact .inr (.inl (apart second inside'))
    · rcases List.mem_cons.mp member' with rfl | inside'
      · exact .inr (.inr (apart first inside))
      · exact inductionHypothesis sorted' inside inside'

end Sorted

/-! ### Taking -/

section Take

/-- The first extent is used from its start on, and goes when it is used up. -/
def bite (clicks : Nat) (extent : Extent) (rest : List Extent) : List Extent :=
  if extent.len = clicks then rest
  else { base := extent.base + clicks, len := extent.len - clicks } :: rest

/-- First fit: a piece of the first extent that suits. -/
def take (suits : Extent → Bool) (clicks : Nat) : List Extent → Option (Nat × List Extent)
  | [] => none
  | extent :: rest =>
    if suits extent then some (extent.base, bite clicks extent rest)
    else (take suits clicks rest).map fun taken => (taken.1, extent :: taken.2)

variable {suits : Extent → Bool} {clicks base x : Nat} {extents rest after front : List Extent}
  {extent : Extent}

theorem Sorted.bite (sorted : Sorted (extent :: rest)) (fits : clicks ≤ extent.len) :
    Sorted (bite clicks extent rest) := by
  obtain ⟨-, apart, sorted'⟩ := sorted_cons.mp sorted
  rw [Extents.bite]
  split
  · exact sorted'
  · refine sorted_cons.mpr ⟨?_, fun other member => ?_, sorted'⟩
    · show 0 < extent.len - clicks
      omega
    · have behind := apart other member
      simp only [Extent.stop] at behind ⊢
      omega

theorem covers_bite (sorted : Sorted (extent :: rest)) (fits : clicks ≤ extent.len) :
    Covers (bite clicks extent rest) x ↔
      Covers (extent :: rest) x ∧ ¬ (Extent.mk extent.base clicks).Contains x := by
  have behind (inside : Covers rest x) : extent.stop < x := by
    obtain ⟨other, member, from_, -⟩ := inside
    exact lt_of_lt_of_le ((sorted_cons.mp sorted).2.1 other member) from_
  rw [bite, covers_cons]
  simp only [Extent.Contains, Extent.stop] at behind ⊢
  split
  · constructor
    · intro inside
      exact ⟨.inr inside, by have := behind inside; omega⟩
    · rintro ⟨inside | inside, outside⟩
      · omega
      · exact inside
  · rw [covers_cons]
    simp only [Extent.Contains, Extent.stop]
    constructor
    · rintro (inside | inside)
      · omega
      · exact ⟨.inr inside, by have := behind inside; omega⟩
    · rintro ⟨inside | inside, outside⟩
      · left
        omega
      · exact .inr inside

/-- What is taken comes from the first extent that suits, and from its start. -/
theorem take_eq_some (taken : take suits clicks extents = some (base, after)) :
    ∃ front extent rest, extents = front ++ extent :: rest ∧ base = extent.base ∧
      after = front ++ bite clicks extent rest ∧ suits extent = true ∧
      ∀ other ∈ front, suits other = false := by
  induction extents generalizing base after with
  | nil => cases taken
  | cons extent rest inductionHypothesis =>
    rw [take] at taken
    split at taken
    case isTrue fine =>
      obtain ⟨rfl, rfl⟩ := Prod.mk.inj (Option.some.inj taken)
      exact ⟨[], extent, rest, rfl, rfl, rfl, fine, by simp⟩
    case isFalse other =>
      obtain ⟨⟨base', after'⟩, taken', same⟩ := Option.map_eq_some_iff.mp taken
      obtain ⟨rfl, rfl⟩ := Prod.mk.inj same
      obtain ⟨front, hole, back, rfl, rfl, rfl, fine, others⟩ := inductionHypothesis taken'
      refine ⟨extent :: front, hole, back, rfl, rfl, rfl, fine, ?_⟩
      simpa [other] using others

theorem take_eq_none_iff :
    take suits clicks extents = none ↔ ∀ extent ∈ extents, suits extent = false := by
  induction extents with
  | nil => simp [take]
  | cons extent rest inductionHypothesis =>
    rw [take]
    split
    case isTrue fine => simp [fine]
    case isFalse other => simp [other, inductionHypothesis]

theorem take_append (others : ∀ other ∈ front, suits other = false) (fine : suits extent = true) :
    take suits clicks (front ++ extent :: rest) =
      some (extent.base, front ++ bite clicks extent rest) := by
  induction front with
  | nil => exact if_pos fine
  | cons first front inductionHypothesis =>
    rw [List.cons_append, take, others first List.mem_cons_self,
      inductionHypothesis fun other member => others other (List.mem_cons_of_mem _ member)]
    rfl

/-- A sorted list in two parts: both are sorted, and the points of the second part lie behind. -/
theorem sorted_append :
    Sorted (front ++ rest) ↔
      Sorted front ∧ Sorted rest ∧ ∀ first ∈ front, ∀ second ∈ rest, first.stop < second.base := by
  constructor
  · intro sorted
    obtain ⟨apart, apart', across⟩ := List.pairwise_append.mp sorted.apart
    exact ⟨⟨fun other member => sorted.pos other (List.mem_append_left _ member), apart⟩,
      ⟨fun other member => sorted.pos other (List.mem_append_right _ member), apart'⟩, across⟩
  · rintro ⟨sorted, sorted', across⟩
    exact ⟨fun other member => (List.mem_append.mp member).elim (sorted.pos other)
      (sorted'.pos other), List.pairwise_append.mpr ⟨sorted.apart, sorted'.apart, across⟩⟩

@[simp] theorem covers_append :
    Covers (front ++ rest) x ↔ Covers front x ∨ Covers rest x := by
  simp [Covers, or_and_right, exists_or]

theorem base_le_of_mem_bite (sorted : Sorted (extent :: rest)) {other : Extent}
    (member : other ∈ bite clicks extent rest) : extent.base ≤ other.base := by
  rw [bite] at member
  have behind (inside : other ∈ rest) : extent.base ≤ other.base := by
    have apart := (sorted_cons.mp sorted).2.1 other inside
    simp only [Extent.stop] at apart
    omega
  split at member
  · exact behind member
  · rcases List.mem_cons.mp member with rfl | member
    · exact Nat.le_add_right _ _
    · exact behind member

theorem Sorted.take (sorted : Sorted extents) (large : ∀ extent, suits extent → clicks ≤ extent.len)
    (taken : take suits clicks extents = some (base, after)) : Sorted after := by
  obtain ⟨front, extent, rest, rfl, rfl, rfl, fine, -⟩ := take_eq_some taken
  obtain ⟨sorted', behind, across⟩ := sorted_append.mp sorted
  refine sorted_append.mpr ⟨sorted', behind.bite (large extent fine), fun first member => ?_⟩
  intro second member'
  exact (across first member extent List.mem_cons_self).trans_le
    (base_le_of_mem_bite behind member')

theorem covers_take (sorted : Sorted extents) (large : ∀ extent, suits extent → clicks ≤ extent.len)
    (taken : Extents.take suits clicks extents = some (base, after)) :
    (Covers after x ↔ Covers extents x ∧ ¬ (Extent.mk base clicks).Contains x) ∧
      ((Extent.mk base clicks).Contains x → Covers extents x) := by
  obtain ⟨front, extent, rest, rfl, rfl, rfl, fine, -⟩ := take_eq_some taken
  obtain ⟨-, behind, across⟩ := sorted_append.mp sorted
  have fits := large extent fine
  have before (inside : Covers front x) : x < extent.base := by
    obtain ⟨first, member, -, to_⟩ := inside
    exact to_.trans (across first member extent List.mem_cons_self)
  simp only [covers_append, covers_bite behind fits]
  constructor
  · constructor
    · rintro (inside | ⟨inside, outside⟩)
      · exact ⟨.inl inside, fun inside' => absurd inside'.1 (not_le.mpr (before inside))⟩
      · exact ⟨.inr inside, outside⟩
    · rintro ⟨inside | inside, outside⟩
      · exact .inl inside
      · exact .inr ⟨inside, outside⟩
  · rintro ⟨from_, to_⟩
    refine .inr (covers_cons.mpr (.inl ⟨from_, to_.trans_le ?_⟩))
    simp only [Extent.stop]
    omega

theorem length_take (taken : Extents.take suits clicks extents = some (base, after)) :
    after.length ≤ extents.length := by
  obtain ⟨front, extent, rest, rfl, -, rfl, -, -⟩ := take_eq_some taken
  simp only [List.length_append, List.length_cons, bite]
  split
  · omega
  · rfl

end Take

/-! ### Giving back -/

section Release

/-- An extent is joined with the one that starts where it ends. -/
def glue (extent : Extent) : List Extent → List Extent
  | [] => [extent]
  | next :: rest =>
    if extent.stop = next.base then { base := extent.base, len := extent.len + next.len } :: rest
    else extent :: next :: rest

/-- A piece is put where it belongs and joined with its neighbours. -/
def release (piece : Extent) : List Extent → List Extent
  | [] => [piece]
  | extent :: rest =>
    if piece.base ≤ extent.base then glue piece (extent :: rest)
    else glue extent (release piece rest)

variable {extents rest front : List Extent} {extent piece : Extent} {x bound : Nat}

theorem glue_of_ne (apart : ∀ next ∈ rest.head?, extent.stop ≠ next.base) :
    glue extent rest = extent :: rest := by
  cases rest with
  | nil => rfl
  | cons next rest => exact if_neg (apart next rfl)

theorem glue_head : ∀ first ∈ (glue extent rest).head?, first.base = extent.base := by
  cases rest with
  | nil => simp [glue]
  | cons next rest =>
    rw [glue]
    split <;> simp

/-- Three extents are joined from the left as they are joined from the right. -/
theorem glue_glue (first second : Extent) (rest : List Extent) :
    glue first (glue second rest) =
      if first.stop = second.base then
        glue { base := first.base, len := first.len + second.len } rest
      else first :: glue second rest := by
  split
  case isFalse apart => exact glue_of_ne fun next inside => by rwa [glue_head next inside]
  case isTrue touches =>
    cases rest with
    | nil => exact if_pos touches
    | cons third rest =>
      have same : (Extent.mk first.base (first.len + second.len)).stop = second.stop := by
        simp only [Extent.stop] at touches ⊢
        omega
      rw [glue, glue, same]
      split
      · rw [glue, if_pos touches, Nat.add_assoc]
      · rw [glue, if_pos touches]

theorem release_eq_glue (behind : ∀ first ∈ rest.head?, piece.base ≤ first.base) :
    release piece rest = glue piece rest := by
  cases rest with
  | nil => rfl
  | cons first rest => exact if_pos (behind first rfl)

theorem release_append {previous : Extent} (sorted : Sorted (front ++ previous :: rest))
    (before : ∀ other ∈ front ++ [previous], other.base < piece.base)
    (behind : ∀ first ∈ rest.head?, piece.base ≤ first.base) :
    release piece (front ++ previous :: rest) = front ++ glue previous (glue piece rest) := by
  induction front with
  | nil =>
    have low : previous.base < piece.base := before previous (by simp)
    rw [List.nil_append, release, if_neg (not_le.mpr low), release_eq_glue behind]
    rfl
  | cons first front inductionHypothesis =>
    have low : first.base < piece.base := before first (by simp)
    obtain ⟨-, apart, sorted'⟩ := sorted_cons.mp sorted
    rw [List.cons_append, release, if_neg (not_le.mpr low), inductionHypothesis sorted'
      fun other member => before other (List.mem_cons_of_mem _ member)]
    refine glue_of_ne fun next inside => ?_
    cases front with
    | nil =>
      rw [glue_head next inside]
      exact ne_of_lt (apart previous (by simp))
    | cons second front =>
      obtain rfl := Option.some.inj inside
      exact ne_of_lt (apart second (by simp))

theorem covers_glue : Covers (glue extent rest) x ↔ extent.Contains x ∨ Covers rest x := by
  cases rest with
  | nil => simp [glue]
  | cons next rest =>
    rw [glue]
    split
    case isTrue touches =>
      simp only [covers_cons, Extent.Contains, Extent.stop] at touches ⊢
      rw [← or_assoc]
      refine or_congr_left ?_
      omega
    case isFalse => simp

theorem covers_release : Covers (release piece extents) x ↔ piece.Contains x ∨
    Covers extents x := by
  induction extents with
  | nil => simp [release]
  | cons extent rest inductionHypothesis =>
    rw [release]
    split
    · exact covers_glue
    · rw [covers_glue, inductionHypothesis, covers_cons]
      tauto

/-- An extent in front of a sorted list that does not overlap it is joined soundly. -/
theorem Sorted.glue (pos : 0 < extent.len) (sorted : Sorted rest)
    (before : ∀ other ∈ rest, extent.stop ≤ other.base) : Sorted (glue extent rest) := by
  cases rest with
  | nil => exact sorted_cons.mpr ⟨pos, by simp, .nil⟩
  | cons next rest =>
    obtain ⟨pos', apart, sorted'⟩ := sorted_cons.mp sorted
    have first := before next List.mem_cons_self
    rw [Extents.glue]
    split
    case isTrue touches =>
      refine sorted_cons.mpr ⟨Nat.add_pos_left pos _, fun other member => ?_, sorted'⟩
      have behind := apart other member
      simp only [Extent.stop] at behind touches ⊢
      omega
    case isFalse other =>
      have gap : extent.stop < next.base := lt_of_le_of_ne first other
      refine sorted_cons.mpr ⟨pos, fun other' member => ?_, sorted⟩
      rcases List.mem_cons.mp member with rfl | member
      · exact gap
      · have behind := apart other' member
        simp only [Extent.stop] at behind gap ⊢
        omega

theorem bound_of_mem_glue {other : Extent} (member : other ∈ glue extent rest)
    (first : bound ≤ extent.base) (others : ∀ other ∈ rest, bound ≤ other.base) :
    bound ≤ other.base := by
  cases rest with
  | nil => exact (List.mem_singleton.mp member) ▸ first
  | cons next rest =>
    rw [glue] at member
    split at member
    · rcases List.mem_cons.mp member with rfl | member
      · exact first
      · exact others other (List.mem_cons_of_mem _ member)
    · rcases List.mem_cons.mp member with rfl | member
      · exact first
      · exact others other member

theorem bound_of_mem_release {other : Extent} (member : other ∈ release piece extents)
    (first : bound ≤ piece.base) (others : ∀ other ∈ extents, bound ≤ other.base) :
    bound ≤ other.base := by
  induction extents generalizing other with
  | nil => exact (List.mem_singleton.mp member) ▸ first
  | cons extent rest inductionHypothesis =>
    rw [release] at member
    split at member
    · exact bound_of_mem_glue member first others
    · exact bound_of_mem_glue member (others extent List.mem_cons_self) fun other' member' =>
        inductionHypothesis member' fun other'' inside => others other''
          (List.mem_cons_of_mem _ inside)

theorem stop_le_of_mem_glue {other : Extent} (member : other ∈ glue extent rest)
    (first : extent.stop ≤ bound) (others : ∀ other ∈ rest, other.stop ≤ bound) :
    other.stop ≤ bound := by
  cases rest with
  | nil => exact (List.mem_singleton.mp member) ▸ first
  | cons next rest =>
    rw [glue] at member
    split at member
    case isTrue touches =>
      rcases List.mem_cons.mp member with rfl | member
      · have last := others next List.mem_cons_self
        simp only [Extent.stop] at touches last ⊢
        omega
      · exact others other (List.mem_cons_of_mem _ member)
    case isFalse =>
      rcases List.mem_cons.mp member with rfl | member
      · exact first
      · exact others other member

theorem stop_le_of_mem_release {other : Extent} (member : other ∈ release piece extents)
    (first : piece.stop ≤ bound) (others : ∀ other ∈ extents, other.stop ≤ bound) :
    other.stop ≤ bound := by
  induction extents generalizing other with
  | nil => exact (List.mem_singleton.mp member) ▸ first
  | cons extent rest inductionHypothesis =>
    rw [release] at member
    split at member
    · exact stop_le_of_mem_glue member first others
    · exact stop_le_of_mem_glue member (others extent List.mem_cons_self) fun other' member' =>
        inductionHypothesis member' fun other'' inside => others other''
          (List.mem_cons_of_mem _ inside)

theorem Sorted.release (sorted : Sorted extents) (pos : 0 < piece.len)
    (disjoint : ∀ extent ∈ extents, piece.Disjoint extent) : Sorted (release piece extents) := by
  induction extents with
  | nil => exact sorted_cons.mpr ⟨pos, by simp, .nil⟩
  | cons extent rest inductionHypothesis =>
    obtain ⟨pos', apart, sorted'⟩ := sorted_cons.mp sorted
    have first := disjoint extent List.mem_cons_self
    simp only [Extent.Disjoint, Extent.stop] at first apart
    rw [Extents.release]
    split
    case isTrue low =>
      refine Sorted.glue pos sorted fun other member => ?_
      simp only [Extent.stop]
      rcases List.mem_cons.mp member with rfl | member
      · omega
      · have behind := apart other member
        omega
    case isFalse high =>
      refine Sorted.glue pos' (inductionHypothesis sorted' fun other member =>
        disjoint other (List.mem_cons_of_mem _ member)) fun other member => ?_
      refine bound_of_mem_release member ?_ fun other' member' => ?_
      · simp only [Extent.stop]
        omega
      · exact (apart other' member').le

theorem length_glue_le : (glue extent rest).length ≤ rest.length + 1 := by
  cases rest with
  | nil => rfl
  | cons next rest =>
    rw [glue]
    split <;> simp

theorem length_release_le : (release piece extents).length ≤ extents.length + 1 := by
  induction extents with
  | nil => rfl
  | cons extent rest inductionHypothesis =>
    rw [release]
    split
    · exact length_glue_le
    · exact length_glue_le.trans (Nat.succ_le_succ inductionHypothesis)

end Release

/-! ### How many extents there are -/

section Count

variable {free used store : List Extent}

/-- Every point of the store is free or in use, and not both. -/
structure Splits (store free used : List Extent) : Prop where
  either : ∀ x, Covers store x ↔ Covers free x ∨ Covers used x
  apart : ∀ x, Covers free x → ¬ Covers used x

/-- A free extent ends where a part of the store ends or where a piece in use starts. -/
theorem Splits.stop_mem (splits : Splits store free used) (sorted : Sorted free)
    {extent : Extent} (member : extent ∈ free) :
    extent.stop ∈ store.map Extent.stop ++ used.map Extent.base := by
  have pos := sorted.pos extent member
  have inside : extent.Contains (extent.stop - 1) := by
    simp only [Extent.Contains, Extent.stop]
    omega
  have free' : Covers free (extent.stop - 1) := ⟨extent, member, inside⟩
  have ended : ¬ Covers free extent.stop := by
    rintro ⟨other, member', from_, to_⟩
    rcases sorted.eq_or_apart member member' with rfl | before | behind
    · exact absurd to_ (lt_irrefl _)
    · omega
    · simp only [Extent.stop] at from_ to_ behind
      omega
  by_cases more : Covers store extent.stop
  · obtain ⟨piece, member', from_, to_⟩ := ((splits.either _).mp more).resolve_left ended
    refine List.mem_append_right _ (List.mem_map.mpr ⟨piece, member', ?_⟩)
    by_contra other
    refine splits.apart _ free' ⟨piece, member', ?_, by omega⟩
    omega
  · obtain ⟨part, member', from_, to_⟩ := (splits.either _).mpr (.inl free')
    refine List.mem_append_left _ (List.mem_map.mpr ⟨part, member', ?_⟩)
    by_contra other
    refine more ⟨part, member', by omega, by omega⟩

/-- There are at most as many free extents as pieces in use and parts of the store. -/
theorem Splits.length_le (splits : Splits store free used) (sorted : Sorted free) :
    free.length ≤ store.length + used.length := by
  have nodup : (free.map Extent.stop).Nodup := by
    refine List.pairwise_map.mpr (sorted.apart.imp fun {first second} before => ?_)
    simp only [Extent.stop] at before ⊢
    omega
  have inside : free.map Extent.stop ⊆ store.map Extent.stop ++ used.map Extent.base := by
    intro point member
    obtain ⟨extent, member', rfl⟩ := List.mem_map.mp member
    exact splits.stop_mem sorted member'
  have shorter := (nodup.subperm inside).length_le
  simpa only [List.length_append, List.length_map] using shorter

end Count

/-! ### One list for one set -/

section Unique

variable {first second : List Extent} {extent : Extent}

theorem Sorted.nodup (sorted : Sorted first) : first.Nodup :=
  sorted.apart.imp fun {extent other} before => by
    rintro rfl
    exact absurd before (not_lt.mpr (Nat.le_add_right _ _))

theorem Sorted.not_covers_around (sorted : Sorted first) (member : extent ∈ first) {x : Nat}
    (around : x = extent.stop ∨ x + 1 = extent.base) : ¬ Covers first x := by
  rintro ⟨other, member', from_, to_⟩
  have pos := sorted.pos extent member
  simp only [Extent.stop] at *
  rcases sorted.eq_or_apart member member' with rfl | before | behind
  · omega
  all_goals simp only [Extent.stop] at *; omega

theorem Sorted.subset_of_covers (sorted : Sorted first) (sorted' : Sorted second)
    (same : ∀ x, Covers first x ↔ Covers second x) : first ⊆ second := by
  intro extent member
  have pos := sorted.pos extent member
  obtain ⟨other, member', from_, to_⟩ :=
    (same extent.base).mp ⟨extent, member, le_rfl, Nat.lt_add_of_pos_right pos⟩
  have inside {x : Nat} (inside : other.Contains x) :
      x ≠ extent.stop ∧ x + 1 ≠ extent.base := by
    refine ⟨fun here => ?_, fun here => ?_⟩
    · exact sorted.not_covers_around member (.inl here) ((same x).mpr ⟨other, member', inside⟩)
    · exact sorted.not_covers_around member (.inr here) ((same x).mpr ⟨other, member', inside⟩)
  have stop : ¬ extent.Contains other.stop := fun inside' =>
    sorted'.not_covers_around member' (.inl rfl) ((same _).mp ⟨extent, member, inside'⟩)
  have same : other = extent := by
    have low : ¬ other.base < extent.base := fun less =>
      (@inside (extent.base - 1) ⟨by omega, by omega⟩).2 (by omega)
    have high : ¬ extent.stop < other.stop := fun less =>
      (inside ⟨from_.trans (Nat.le_add_right _ _), less⟩).1 rfl
    have long : ¬ other.stop < extent.stop := fun less => stop ⟨to_.le, less⟩
    cases extent
    cases other
    simp only [Extent.stop, Extent.mk.injEq] at *
    omega
  exact same ▸ member'

theorem Sorted.unique {first second : List Extent} (sorted : Sorted first)
    (sorted' : Sorted second) (same : ∀ x, Covers first x ↔ Covers second x) : first = second := by
  have perm : first.Perm second := (List.perm_ext_iff_of_nodup sorted.nodup sorted'.nodup).mpr
    fun extent => ⟨fun member => sorted.subset_of_covers sorted' same member,
      fun member => sorted'.subset_of_covers sorted (fun x => (same x).symm) member⟩
  refine perm.eq_of_pairwise (fun extent other _ _ before behind => ?_) sorted.apart sorted'.apart
  simp only [Extent.stop] at before behind
  omega

end Unique

end Extents

namespace Lowest

variable {α : Type*} {free : Set α} {hint taken : α}

section Preorder

variable [Preorder α]

theorem hint_of_subset {fewer : Set α} (correct : hint ∈ lowerBounds free)
    (subset : fewer ⊆ free) : hint ∈ lowerBounds fewer :=
  lowerBounds_mono_set subset correct

theorem taken_is_hint {fewer : Set α} (least : IsLeast free taken) (subset : fewer ⊆ free) :
    taken ∈ lowerBounds fewer :=
  hint_of_subset least.2 subset

end Preorder

theorem released [LinearOrder α] {more : Set α} {given : α} (correct : hint ∈ lowerBounds free)
    (subset : more ⊆ insert given free) :
    (if given < hint then given else hint) ∈ lowerBounds more := by
  intro other member
  rcases subset member with rfl | member
  · split
    case isTrue => exact le_rfl
    case isFalse notBelow => exact not_lt.mp notBelow
  · split
    case isTrue below => exact below.le.trans (correct member)
    case isFalse => exact correct member

end Lowest
