/-
This file develops sets that are listed in ascending order by pointers: each member points to the
next larger one.

Putting a member in or taking one out changes one pointer, and a walk along the pointers visits the
members one after the other.
-/

import Minix.Library.Cursor

namespace Successor

variable {Node : Type*} [LinearOrder Node] {S S' : Node → Prop} {p q x : Node}
  {target target' : Option Node}

/-- The least member of the set above `p`, if there is one. -/
def Follows (S : Node → Prop) (p : Node) : Option Node → Prop
  | none => ∀ r, S r → r ≤ p
  | some q => S q ∧ p < q ∧ ∀ r, S r → p < r → q ≤ r

theorem Follows.congr (follows : Follows S p target) (same : ∀ r, p < r → (S r ↔ S' r)) :
    Follows S' p target := by
  cases target with
  | none =>
    intro r member
    by_contra above
    exact above (follows r ((same r (not_le.mp above)).mpr member))
  | some q =>
    obtain ⟨member, above, least⟩ := follows
    exact ⟨(same q above).mp member, above, fun r member' above' =>
      least r ((same r above').mpr member') above'⟩

theorem Follows.unique (first : Follows S p target) (second : Follows S p target') :
    target = target' := by
  cases target with
  | none =>
    cases target' with
    | none => rfl
    | some q => exact absurd second.2.1 (not_lt.mpr (first q second.1))
  | some q =>
    cases target' with
    | none => exact absurd first.2.1 (not_lt.mpr (second q first.1))
    | some q' =>
      exact congrArg some (le_antisymm (first.2.2 q' second.1 second.2.1)
        (second.2.2 q first.1 first.2.1))

theorem Follows.le_or (follows : Follows S p target) (member : S q) :
    q ≤ p ∨ ∃ next ∈ target, next ≤ q := by
  rcases le_or_gt q p with below | above
  · exact .inl below
  · cases target with
    | none => exact .inl (follows q member)
    | some next => exact .inr ⟨next, rfl, follows.2.2 q member above⟩

/-! ### A member is put in -/

theorem Follows.insert (follows : Follows S p target) (above : p < x)
    (below : ∀ next ∈ target, x < next) :
    Follows (fun r => S r ∨ r = x) p (some x) ∧ Follows (fun r => S r ∨ r = x) x target := by
  constructor
  · refine ⟨.inr rfl, above, fun r member above' => ?_⟩
    rcases member with member | rfl
    · rcases follows.le_or member with under | ⟨next, found, under⟩
      · exact absurd above' (not_lt.mpr under)
      · exact le_of_lt (lt_of_lt_of_le (below next found) under)
    · exact le_rfl
  · cases target with
    | none =>
      rintro r (member | rfl)
      · exact le_trans (follows r member) (le_of_lt above)
      · exact le_rfl
    | some next =>
      refine ⟨.inl follows.1, below next rfl, fun r member above' => ?_⟩
      rcases member with member | rfl
      · exact follows.2.2 r member (lt_trans above above')
      · exact absurd above' (lt_irrefl _)

theorem Follows.insert_other (follows : Follows S p target)
    (away : p < x → ∃ next ∈ target, next < x) : Follows (fun r => S r ∨ r = x) p target := by
  cases target with
  | none =>
    rintro r (member | rfl)
    · exact follows r member
    · refine not_lt.mp fun above => ?_
      obtain ⟨next, none, -⟩ := away above
      cases none
  | some next =>
    refine ⟨.inl follows.1, follows.2.1, fun r member above => ?_⟩
    rcases member with member | rfl
    · exact follows.2.2 r member above
    · obtain ⟨other, found, under⟩ := away above
      obtain rfl := Option.some.inj found
      exact le_of_lt under

/-! ### A member is taken out -/

theorem Follows.erase (follows : Follows S p (some x)) (next : Follows S x target) :
    Follows (fun r => S r ∧ r ≠ x) p target := by
  have beyond : ∀ r, S r → r ≠ x → p < r → x < r := fun r member other above =>
    lt_of_le_of_ne (follows.2.2 r member above) (Ne.symm other)
  cases target with
  | none =>
    rintro r ⟨member, other⟩
    by_contra above
    exact absurd (next r member) (not_le.mpr (beyond r member other (not_le.mp above)))
  | some q =>
    exact ⟨⟨next.1, ne_of_gt next.2.1⟩, lt_trans follows.2.1 next.2.1,
      fun r member above => next.2.2 r member.1 (beyond r member.1 member.2 above)⟩

theorem Follows.erase_other (follows : Follows S p target) (other : target ≠ some x) :
    Follows (fun r => S r ∧ r ≠ x) p target := by
  cases target with
  | none => exact fun r member => follows r member.1
  | some q =>
    exact ⟨⟨follows.1, fun same => other (by rw [same])⟩, follows.2.1,
      fun r member above => follows.2.2 r member.1 above⟩

theorem Follows.eq_of_same (first : Follows S p (some x)) (second : Follows S q (some x))
    (member : S p) (member' : S q) : p = q := by
  rcases lt_trichotomy p q with below | same | above
  · exact absurd second.2.1 (not_lt.mpr (first.2.2 q member' below))
  · exact same
  · exact absurd first.2.1 (not_lt.mpr (second.2.2 p member above))

/-! ### Walks -/

section Walk

open LinkedList

/-- A list of numbers that visits the members of a set in ascending order. -/
structure Ascends (S : Nat → Prop) (links : Links Nat) : Prop where
  positive : ∀ p, S p → 0 < p
  head : Follows S 0 links.head
  next : ∀ p, S p → Follows S p (links.next p)

variable {S : Nat → Prop} {links : Links Nat} {cursor : Option Nat}

section

variable (ascends : Ascends S links)
include ascends

theorem Ascends.read (valid : ∀ q ∈ cursor, S q) :
    Follows S (cursor.getD 0) (links.read cursor) := by
  cases cursor with
  | none => exact ascends.head
  | some q => exact ascends.next q (valid q rfl)

/-- A walk passes members that it does not stop at, until it points at one where it stops or at
the end. -/
theorem Ascends.seek_from (stop : Nat → Bool) {bound fuel : Nat} (below : ∀ p, S p → p < bound)
    (valid : ∀ q ∈ cursor, S q) (start : cursor.getD 0 < bound)
    (enough : bound ≤ fuel + cursor.getD 0) :
    ∃ prev, links.seek stop fuel cursor = some prev ∧ (∀ q ∈ prev, S q) ∧
      (∀ r, S r → cursor.getD 0 < r → r ≤ prev.getD 0 → stop r = false) ∧
      ∀ q ∈ links.read prev, stop q = true := by
  induction fuel generalizing cursor with
  | zero => omega
  | succ fuel inductionHypothesis =>
    have reads := ascends.read valid
    rw [Links.seek]
    cases read : links.read cursor with
    | none =>
      refine ⟨cursor, rfl, valid, fun r _ above under => by omega, fun q found => ?_⟩
      rw [read] at found
      cases found
    | some q =>
      rw [read] at reads
      obtain ⟨member, above, least⟩ := reads
      dsimp only
      cases stops : stop q with
      | true =>
        refine ⟨cursor, if_pos rfl, valid, fun r _ above under => by omega, fun q' found => ?_⟩
        rw [read] at found
        obtain rfl := Option.some.inj found
        exact stops
      | false =>
        have valid' : ∀ q' ∈ some q, S q' := fun q' same => Option.some.inj same ▸ member
        have start' : (some q).getD 0 < bound := below q member
        have enough' : bound ≤ fuel + (some q).getD 0 := by
          simp only [Option.getD_some]
          omega
        obtain ⟨prev, found, valid'', passed, stopped⟩ :=
          inductionHypothesis valid' start' enough'
        refine ⟨prev, by simpa using found, valid'', fun r member' above' under => ?_, stopped⟩
        rcases Nat.eq_or_lt_of_le (least r member' above') with rfl | beyond
        · exact stops
        · exact passed r member' beyond under

theorem Ascends.seek (stop : Nat → Bool) {bound fuel : Nat} (below : ∀ p, S p → p < bound)
    (start : 0 < bound) (enough : bound ≤ fuel) :
    ∃ prev, links.seek stop fuel none = some prev ∧ (∀ q ∈ prev, S q) ∧
      (∀ r, S r → r ≤ prev.getD 0 → stop r = false) ∧ ∀ q ∈ links.read prev, stop q = true := by
  obtain ⟨prev, found, valid, passed, stopped⟩ :=
    @Ascends.seek_from S links none ascends stop bound fuel below (fun _ none => by cases none)
      start enough
  exact ⟨prev, found, valid, fun r member under =>
    passed r member (ascends.positive r member) under, stopped⟩

theorem Ascends.chain_from {bound p : Nat} {target : Option Nat} (below : ∀ q, S q → q < bound)
    (follows : Follows S p target) :
    ∃ nodes, Chain links.next target nodes ∧ nodes.Pairwise (· < ·) ∧
      ∀ q, q ∈ nodes ↔ S q ∧ p < q := by
  induction left : bound - p using Nat.strong_induction_on generalizing p target with
  | _ left inductionHypothesis =>
    cases target with
    | none =>
      refine ⟨[], rfl, .nil, fun q => iff_of_false List.not_mem_nil fun member => ?_⟩
      exact absurd member.2 (Nat.not_lt.mpr (follows q member.1))
    | some next =>
      obtain ⟨member, above, least⟩ := follows
      have under := below next member
      obtain ⟨nodes, chain, sorted, listed⟩ :=
        inductionHypothesis (bound - next) (by omega) (ascends.next next member) rfl
      refine ⟨next :: nodes, ⟨rfl, chain⟩, ?_, fun q => ?_⟩
      · exact .cons (fun q here => ((listed q).mp here).2) sorted
      · rw [List.mem_cons, listed]
        constructor
        · rintro (rfl | ⟨member', above'⟩)
          · exact ⟨member, above⟩
          · exact ⟨member', Nat.lt_trans above above'⟩
        · rintro ⟨member', above'⟩
          rcases Nat.eq_or_lt_of_le (least q member' above') with same | beyond
          · exact .inl same.symm
          · exact .inr ⟨member', beyond⟩

theorem Ascends.lists {bound : Nat} (below : ∀ q, S q → q < bound) :
    ∃ nodes, links.Lists nodes ∧ nodes.Pairwise (· < ·) ∧ ∀ q, q ∈ nodes ↔ S q := by
  obtain ⟨nodes, chain, sorted, listed⟩ := ascends.chain_from below ascends.head
  refine ⟨nodes, chain, sorted, fun q => (listed q).trans ?_⟩
  exact and_iff_left_of_imp (ascends.positive q)

theorem Ascends.congr {links' : Links Nat} {S' : Nat → Prop} (same : ∀ p, S p ↔ S' p)
    (head : links'.head = links.head) (next : ∀ p, S p → links'.next p = links.next p) :
    Ascends S' links' where
  positive p member := ascends.positive p ((same p).mpr member)
  head := by
    rw [head]
    exact ascends.head.congr fun r _ => same r
  next p member := by
    rw [next p ((same p).mpr member)]
    exact (ascends.next p ((same p).mpr member)).congr fun r _ => same r

theorem Ascends.remove (valid : ∀ q ∈ cursor, S q) {x : Nat} (read : links.read cursor = some x) :
    Ascends (fun p => S p ∧ p ≠ x) (links.remove cursor x) := by
  have here := ascends.read valid
  rw [read] at here
  have after := ascends.next x here.1
  refine ⟨fun p member => ascends.positive p member.1, ?_, fun p member => ?_⟩
  · cases cursor with
    | none => exact here.erase after
    | some q =>
      refine ascends.head.erase_other fun same => ?_
      have least := ascends.head
      rw [show links.head = some x from same] at least
      have above : q < x := here.2.1
      exact absurd (least.2.2 q (valid q rfl) (ascends.positive q (valid q rfl)))
        (Nat.not_le.mpr above)
  · by_cases at' : cursor = some p
    · subst at'
      rw [Links.remove_next_cursor]
      exact here.erase after
    · rw [Links.remove_next_of_ne at']
      refine (ascends.next p member.1).erase_other fun same => ?_
      have follows := ascends.next p member.1
      rw [same] at follows
      cases cursor with
      | none =>
        exact absurd (here.2.2 p member.1 (ascends.positive p member.1))
          (Nat.not_le.mpr follows.2.1)
      | some q => exact at' (congrArg some (here.eq_of_same follows (valid q rfl) member.1))

/-- A node goes in between its neighbours. -/
theorem Ascends.insert (valid : ∀ q ∈ cursor, S q) {x : Nat} (above : cursor.getD 0 < x)
    (below : ∀ next ∈ links.read cursor, x < next) :
    Ascends (fun p => S p ∨ p = x) (links.insert cursor x) := by
  have here := ascends.read valid
  obtain ⟨before, after⟩ := here.insert above below
  have fresh : ¬ S x := fun member => by
    rcases here.le_or member with under | ⟨next, found, under⟩
    · omega
    · have := below next found
      omega
  have other (p : Nat) (target : Option Nat) (follows : Follows S p target)
      (away : p < x → cursor.getD 0 < x → ∃ next ∈ target, next ≤ cursor.getD 0) :
      Follows (fun r => S r ∨ r = x) p target :=
    follows.insert_other fun less => by
      obtain ⟨next, found, under⟩ := away less above
      exact ⟨next, found, by omega⟩
  have apart : ∀ q ∈ cursor, q ≠ x := fun q found same => fresh (same ▸ valid q found)
  refine ⟨fun p member => ?_, ?_, fun p member => ?_⟩
  · rcases member with member | rfl
    · exact ascends.positive p member
    · omega
  · cases cursor with
    | none => exact before
    | some q =>
      refine other 0 _ ascends.head fun _ _ => ?_
      rcases ascends.head.le_or (valid q rfl) with under | found
      · have := ascends.positive q (valid q rfl)
        omega
      · exact found
  · rcases member with member | rfl
    · by_cases at' : cursor = some p
      · subst at'
        rw [Links.insert_next_cursor]
        exact before
      · have distinct : p ≠ x := fun same => fresh (same ▸ member)
        rw [Links.insert_next_of_ne at' distinct]
        refine other p _ (ascends.next p member) fun less _ => ?_
        cases cursor with
        | none =>
          rcases here.le_or member with under | ⟨next, found, under⟩
          · have := ascends.positive p member
            exact absurd under (Nat.not_le.mpr this)
          · have := below next found
            omega
        | some q =>
          have order : p < q := by
            rcases here.le_or member with under | ⟨next, found, under⟩
            · exact Nat.lt_of_le_of_ne under fun same => at' (congrArg some same.symm)
            · have := below next found
              omega
          rcases (ascends.next p member).le_or (valid q rfl) with under | found
          · omega
          · exact found
    · rw [Links.insert_next_self fun same => apart p same rfl]
      exact after

end

end Walk

end Successor
