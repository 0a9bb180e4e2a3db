/-
This file develops quicksort with a three-way partition, on cells that are numbered by integers.

The cells that are equal to the one picked are collected in a block in the middle, which grows and
moves as smaller and larger cells are carried past it. What is left to be examined lies on its two
sides; every round but a change of side takes something away from there.
-/

import Mathlib.Data.Int.Order.Basic
import Mathlib.Order.Basic
import Mathlib.Data.List.Nodup
import Mathlib.Logic.Equiv.Basic

namespace Minix.Library

variable {α : Type*}

/-! ### Comparing -/

/-- A comparison function that is a total preorder. -/
structure TotalPreorder (compare : α → α → Int) : Prop where
  swap : ∀ x y, compare x y < 0 ↔ 0 < compare y x
  trans : ∀ x y z, compare x y ≤ 0 → compare y z ≤ 0 → compare x z ≤ 0

section Compare

variable {compare : α → α → Int} {x y z : α}

section

variable (order : TotalPreorder compare)
include order

theorem TotalPreorder.refl (x : α) : compare x x = 0 := by
  have flip := order.swap x x
  omega

theorem TotalPreorder.symm (same : compare x y = 0) :
    compare y x = 0 := by
  have one := order.swap x y
  have two := order.swap y x
  omega

theorem TotalPreorder.le_of_ge (above : 0 ≤ compare x y) :
    compare y x ≤ 0 := by
  have flip := order.swap x y
  omega

theorem TotalPreorder.lt_of_eq (below : compare x y < 0) (same : compare y z = 0) :
    compare x z < 0 := by
  by_contra other
  have back := order.trans y z x same.le (order.le_of_ge (not_lt.mp other))
  have flip := order.swap x y
  omega

theorem TotalPreorder.gt_of_eq (above : 0 < compare x y) (same : compare y z = 0) :
    0 < compare x z := by
  refine (order.swap z x).mp ?_
  by_contra other
  have back := order.trans x z y (order.le_of_ge (not_lt.mp other)) (order.symm same).le
  omega

theorem TotalPreorder.eq_of_eq (same : compare x y = 0) (same' : compare y z = 0) :
    compare x z = 0 := by
  have forth := order.trans x y z same.le same'.le
  have back := order.trans z y x (order.symm same').le (order.symm same).le
  have flip := order.swap x z
  have flip' := order.swap z x
  omega

end

end Compare

/-! ### Exchanging -/

/-- Exchange two cells. -/
def swap (cells : ℤ → α) (p q : ℤ) : ℤ → α := fun k =>
  if k = p then cells q else if k = q then cells p else cells k

/-- Exchange three cells: each gets what the one after it has. -/
def rotate (cells : ℤ → α) (p q r : ℤ) : ℤ → α := fun k =>
  if k = p then cells r else if k = q then cells p else if k = r then cells q else cells k

theorem rotate_eq (cells : ℤ → α) {p q r : ℤ} (first : p ≠ q) (last : p ≠ r) :
    rotate cells p q r = swap (swap cells p r) q r := by
  funext k
  unfold rotate swap
  split_ifs <;> simp_all

section Cells

variable {cells : ℤ → α} {k p q r : ℤ}

theorem swap_left : swap cells p q p = cells q := if_pos rfl

theorem swap_right : swap cells p q q = cells p := by
  unfold swap
  split
  case isTrue same => rw [same]
  case isFalse apart => exact if_pos rfl

theorem swap_of_ne (first : k ≠ p) (second : k ≠ q) : swap cells p q k = cells k := by
  rw [swap, if_neg first, if_neg second]

theorem rotate_first : rotate cells p q r p = cells r := if_pos rfl

theorem rotate_second (apart : q ≠ p) : rotate cells p q r q = cells p := by
  rw [rotate, if_neg apart, if_pos rfl]

theorem rotate_of_ne (first : k ≠ p) (second : k ≠ q) (third : k ≠ r) :
    rotate cells p q r k = cells k := by
  rw [rotate, if_neg first, if_neg second, if_neg third]

end Cells

/-- The cells of a range have been put in another order. -/
def Rearranged (lo hi : ℤ) (before after : ℤ → α) : Prop :=
  ∃ order : Equiv.Perm ℤ, (∀ k, k < lo ∨ hi < k → order k = k) ∧ after = before ∘ order

section Rearranged

variable {lo hi lo' hi' p q r : ℤ} {before middle after : ℤ → α} {P : α → Prop}

theorem Rearranged.refl (lo hi : ℤ) (cells : ℤ → α) : Rearranged lo hi cells cells :=
  ⟨Equiv.refl ℤ, fun _ _ => rfl, rfl⟩

theorem Rearranged.trans (first : Rearranged lo hi before middle)
    (second : Rearranged lo hi middle after) : Rearranged lo hi before after := by
  obtain ⟨order, outside, rfl⟩ := first
  obtain ⟨order', outside', rfl⟩ := second
  refine ⟨order'.trans order, fun k apart => ?_, rfl⟩
  rw [Equiv.trans_apply, outside' k apart, outside k apart]

theorem Rearranged.mono (part : Rearranged lo' hi' before after) (lower : lo ≤ lo')
    (upper : hi' ≤ hi) : Rearranged lo hi before after := by
  obtain ⟨order, outside, rfl⟩ := part
  exact ⟨order, fun k apart => outside k (by omega), rfl⟩

theorem Rearranged.outside (part : Rearranged lo hi before after) {k : ℤ} (apart : k < lo ∨ hi < k) :
    after k = before k := by
  obtain ⟨order, outside, rfl⟩ := part
  exact congrArg before (outside k apart)

theorem Rearranged.all (part : Rearranged lo hi before after)
    (all : ∀ k, lo ≤ k → k ≤ hi → P (before k)) : ∀ k, lo ≤ k → k ≤ hi → P (after k) := by
  obtain ⟨order, outside, rfl⟩ := part
  intro k lower upper
  refine all (order k) ?_ ?_
  · by_contra below
    have same := order.injective (outside (order k) (.inl (not_le.mp below)))
    omega
  · by_contra above
    have same := order.injective (outside (order k) (.inr (not_le.mp above)))
    omega

theorem Rearranged.perm {n : Nat} (part : Rearranged 0 (n - 1) before after) :
    ((List.range n).map fun k : Nat => after k).Perm
      ((List.range n).map fun k : Nat => before k) := by
  obtain ⟨order, outside, rfl⟩ := part
  have inside (x : ℤ) : (0 ≤ order x ∧ order x < n) ↔ (0 ≤ x ∧ x < n) := by
    constructor
    · intro there
      by_contra apart
      rw [outside x (by omega)] at there
      exact apart there
    · intro here
      by_contra apart
      have same := order.injective (outside (order x) (by omega))
      omega
  have positions : ((List.range n).map fun k : Nat => order k).Perm
      ((List.range n).map fun k : Nat => (k : ℤ)) := by
    refine (List.perm_ext_iff_of_nodup ?_ ?_).mpr fun x => ?_
    · exact List.nodup_range.map fun i j same => Int.natCast_inj.mp (order.injective same)
    · exact List.nodup_range.map fun i j same => Int.natCast_inj.mp same
    · simp only [List.mem_map, List.mem_range]
      constructor
      · rintro ⟨k, less, rfl⟩
        have there := (inside k).mpr ⟨Int.natCast_nonneg k, Int.ofNat_lt.mpr less⟩
        exact ⟨(order k).toNat, by omega, by omega⟩
      · rintro ⟨k, less, rfl⟩
        obtain ⟨x, from'⟩ := order.surjective k
        have here := (inside x).mp (by omega)
        exact ⟨x.toNat, by omega, by rw [Int.toNat_of_nonneg here.1, from']⟩
  have mapped := positions.map before
  rw [List.map_map, List.map_map] at mapped
  exact mapped

theorem rearranged_swap (cells : ℤ → α) (p_lower : lo ≤ p) (p_upper : p ≤ hi) (q_lower : lo ≤ q)
    (q_upper : q ≤ hi) : Rearranged lo hi cells (swap cells p q) := by
  refine ⟨Equiv.swap p q, fun k apart => ?_, ?_⟩
  · exact Equiv.swap_apply_of_ne_of_ne (by omega) (by omega)
  · funext k
    unfold swap
    rw [Function.comp_apply, Equiv.swap_apply_def]
    split_ifs <;> rfl

end Rearranged

/-! ### Collecting the equal cells -/

/-- What has been found in a range: smaller cells before `left`, equal cells from `lefteq` to
`righteq`, and larger cells behind `right`. -/
structure Scan where
  left : ℤ
  lefteq : ℤ
  righteq : ℤ
  right : ℤ

/-- The side of the equal cells that is examined. -/
inductive Side
  | left | right

/-- The cells, and those that have been compared or exchanged. -/
structure Work (α : Type*) where
  cells : ℤ → α
  touched : List ℤ := []

/-- Collect the cells that are equal to one of them. -/
def collect (compare : α → α → Int) : Nat → Side → Scan → Work α → Option (Scan × Work α)
  | 0, _, _, _ => none
  | fuel + 1, .left, ⟨left, lefteq, righteq, right⟩, ⟨cells, touched⟩ =>
    if left < lefteq then
      let cmp := compare (cells left) (cells lefteq)
      let touched := left :: lefteq :: touched
      if cmp < 0 then collect compare fuel .left ⟨left + 1, lefteq, righteq, right⟩ ⟨cells, touched⟩
      else if cmp = 0 then
        let lefteq := lefteq - 1
        collect compare fuel .left ⟨left, lefteq, righteq, right⟩
          ⟨swap cells left lefteq, left :: lefteq :: touched⟩
      else collect compare fuel .right ⟨left, lefteq, righteq, right⟩ ⟨cells, touched⟩
    else collect compare fuel .right ⟨left, lefteq, righteq, right⟩ ⟨cells, touched⟩
  | fuel + 1, .right, ⟨left, lefteq, righteq, right⟩, ⟨cells, touched⟩ =>
    if right > righteq then
      let cmp := compare (cells right) (cells righteq)
      let touched := right :: righteq :: touched
      if cmp < 0 then
        if left < lefteq then
          collect compare fuel .left ⟨left + 1, lefteq, righteq, right - 1⟩
            ⟨swap cells left right, left :: right :: touched⟩
        else
          let righteq := righteq + 1
          let lefteq := lefteq + 1
          collect compare fuel .right ⟨lefteq, lefteq, righteq, right⟩
            ⟨rotate cells left righteq right, left :: righteq :: right :: touched⟩
      else if cmp = 0 then
        let righteq := righteq + 1
        collect compare fuel .right ⟨left, lefteq, righteq, right⟩
          ⟨swap cells right righteq, right :: righteq :: touched⟩
      else collect compare fuel .right ⟨left, lefteq, righteq, right - 1⟩ ⟨cells, touched⟩
    else if left < lefteq then
      let lefteq := lefteq - 1
      collect compare fuel .left ⟨left, lefteq, righteq - 1, righteq - 1⟩
        ⟨rotate cells right lefteq left, right :: lefteq :: left :: touched⟩
    else some (⟨left, lefteq, righteq, right⟩, ⟨cells, touched⟩)

/-- The bounds of what has been found lie in the range, in order. -/
structure Scan.Inside (lo hi : ℤ) (scan : Scan) : Prop where
  lo_left : lo ≤ scan.left
  left_lefteq : scan.left ≤ scan.lefteq
  lefteq_righteq : scan.lefteq ≤ scan.righteq
  righteq_right : scan.righteq ≤ scan.right
  right_hi : scan.right ≤ hi

/-- The cells that have been touched since the start are those of a range. -/
def TouchedInside (lo hi : ℤ) (start touched : List ℤ) : Prop :=
  ∀ k ∈ touched, k ∈ start ∨ lo ≤ k ∧ k ≤ hi

/-- What holds of the cells of a range while those that are equal to one of them are collected. -/
structure Collecting (compare : α → α → Int) (lo hi : ℤ) (pick : α) (start : Work α) (side : Side)
    (scan : Scan) (work : Work α) : Prop where
  inside : scan.Inside lo hi
  smaller : ∀ k, lo ≤ k → k < scan.left → compare (work.cells k) pick < 0
  equal : ∀ k, scan.lefteq ≤ k → k ≤ scan.righteq → compare (work.cells k) pick = 0
  larger : ∀ k, scan.right < k → k ≤ hi → 0 < compare (work.cells k) pick
  rearranged : Rearranged lo hi start.cells work.cells
  touched : TouchedInside lo hi start.touched work.touched
  waiting : side = .right → scan.left < scan.lefteq → 0 < compare (work.cells scan.left) pick

section Collecting

variable {compare : α → α → Int} {lo hi left lefteq righteq right p q r : ℤ} {pick : α}
  {start : Work α} {side : Side} {cells : ℤ → α} {touched : List ℤ}

theorem TouchedInside.cons {first : List ℤ} (inside : TouchedInside lo hi first touched)
    (lower : lo ≤ p) (upper : p ≤ hi) : TouchedInside lo hi first (p :: touched) :=
  List.forall_mem_cons.mpr ⟨.inr ⟨lower, upper⟩, inside⟩

theorem Collecting.compared {scan : Scan}
    (now : Collecting compare lo hi pick start side scan ⟨cells, touched⟩)
    (p_inside : lo ≤ p ∧ p ≤ hi) (q_inside : lo ≤ q ∧ q ≤ hi) :
    Collecting compare lo hi pick start side scan ⟨cells, p :: q :: touched⟩ :=
  { now with touched := (now.touched.cons q_inside.1 q_inside.2).cons p_inside.1 p_inside.2 }

theorem Collecting.smallerLeft (order : TotalPreorder compare)
    (now : Collecting compare lo hi pick start .left ⟨left, lefteq, righteq, right⟩ ⟨cells, touched⟩)
    (more : left < lefteq) (below : compare (cells left) (cells lefteq) < 0) :
    Collecting compare lo hi pick start .left ⟨left + 1, lefteq, righteq, right⟩
      ⟨cells, touched⟩ := by
  have small := order.lt_of_eq below (now.equal lefteq le_rfl now.inside.lefteq_righteq)
  refine ⟨?_, fun k lower upper => ?_, now.equal, now.larger, now.rearranged, now.touched, nofun⟩
  · obtain ⟨first, -, third, fourth, fifth⟩ := now.inside
    exact ⟨Int.le_add_one first, more, third, fourth, fifth⟩
  · rcases (Int.lt_add_one_iff.mp upper).lt_or_eq with before | rfl
    · exact now.smaller k lower before
    · exact small

/-- An equal cell on the left is exchanged with the one before the equal cells. -/
theorem Collecting.equalLeft (order : TotalPreorder compare)
    (now : Collecting compare lo hi pick start .left ⟨left, lefteq, righteq, right⟩ ⟨cells, touched⟩)
    (more : left < lefteq) (same : compare (cells left) (cells lefteq) = 0) :
    Collecting compare lo hi pick start .left ⟨left, lefteq - 1, righteq, right⟩
      ⟨swap cells left (lefteq - 1), left :: (lefteq - 1) :: touched⟩ := by
  obtain ⟨⟨first, -, third, fourth, fifth⟩, smaller, equal, larger, rearranged, inside, -⟩ := now
  have alike := order.eq_of_eq same (equal lefteq le_rfl third)
  refine ⟨⟨first, ?_, ?_, fourth, fifth⟩, fun k lower upper => ?_, fun k lower upper => ?_,
    fun k lower upper => ?_, ?_, ?_, nofun⟩ <;> dsimp only at *
  · omega
  · omega
  · rw [swap_of_ne (by omega) (by omega)]
    exact smaller k lower upper
  · rcases lower.lt_or_eq with behind | rfl
    · rw [swap_of_ne (by omega) (by omega)]
      exact equal k (by omega) upper
    · rw [swap_right]
      exact alike
  · rw [swap_of_ne (by omega) (by omega)]
    exact larger k lower upper
  · exact rearranged.trans (rearranged_swap _ (by omega) (by omega) (by omega) (by omega))
  · exact (inside.cons (by omega) (by omega)).cons (by omega) (by omega)

/-- The left side has been examined, up to a larger cell if one is left there. -/
theorem Collecting.turn
    (now : Collecting compare lo hi pick start .left ⟨left, lefteq, righteq, right⟩ ⟨cells, touched⟩)
    (waiting : left < lefteq → 0 < compare (cells left) pick) :
    Collecting compare lo hi pick start .right ⟨left, lefteq, righteq, right⟩ ⟨cells, touched⟩ :=
  { now with waiting := fun _ => waiting }

/-- A smaller cell on the right is exchanged with the larger one on the left. -/
theorem Collecting.exchange (order : TotalPreorder compare)
    (now : Collecting compare lo hi pick start .right ⟨left, lefteq, righteq, right⟩ ⟨cells, touched⟩)
    (more : righteq < right) (below : compare (cells right) (cells righteq) < 0)
    (room : left < lefteq) :
    Collecting compare lo hi pick start .left ⟨left + 1, lefteq, righteq, right - 1⟩
      ⟨swap cells left right, left :: right :: touched⟩ := by
  obtain ⟨⟨first, -, third, -, fifth⟩, smaller, equal, larger, rearranged, inside, waiting⟩ := now
  have small := order.lt_of_eq below (equal righteq third le_rfl)
  have large := waiting rfl room
  refine ⟨⟨?_, room, third, ?_, ?_⟩, fun k lower upper => ?_, fun k lower upper => ?_,
    fun k lower upper => ?_, ?_, ?_, nofun⟩ <;> dsimp only at *
  · omega
  · omega
  · omega
  · rcases (Int.lt_add_one_iff.mp upper).lt_or_eq with before | rfl
    · rw [swap_of_ne (by omega) (by omega)]
      exact smaller k lower before
    · rw [swap_left]
      exact small
  · rw [swap_of_ne (by omega) (by omega)]
    exact equal k lower upper
  · rcases (Int.le_of_sub_one_lt lower).lt_or_eq with behind | rfl
    · rw [swap_of_ne (by omega) (by omega)]
      exact larger k behind upper
    · rw [swap_right]
      exact large
  · exact rearranged.trans (rearranged_swap _ (by omega) (by omega) (by omega) (by omega))
  · exact (inside.cons (by omega) (by omega)).cons (by omega) (by omega)

theorem rearranged_rotate (cells : ℤ → α) (first : p ≠ q) (last : p ≠ r) (p_inside : lo ≤ p ∧ p ≤ hi)
    (q_inside : lo ≤ q ∧ q ≤ hi) (r_inside : lo ≤ r ∧ r ≤ hi) :
    Rearranged lo hi cells (rotate cells p q r) := by
  rw [rotate_eq cells first last]
  exact (rearranged_swap _ p_inside.1 p_inside.2 r_inside.1 r_inside.2).trans
    (rearranged_swap _ q_inside.1 q_inside.2 r_inside.1 r_inside.2)

section

variable (order : TotalPreorder compare)
  (now : Collecting compare lo hi pick start .right ⟨left, lefteq, righteq, right⟩ ⟨cells, touched⟩)
  (more : righteq < right)
include order now more

/-- A smaller cell on the right is carried past the equal cells, which move to the right. -/
theorem Collecting.carryLeft (below : compare (cells right) (cells righteq) < 0)
    (full : ¬left < lefteq) :
    Collecting compare lo hi pick start .right ⟨lefteq + 1, lefteq + 1, righteq + 1, right⟩
      ⟨rotate cells left (righteq + 1) right, left :: (righteq + 1) :: right :: touched⟩ := by
  obtain ⟨⟨first, second, third, -, fifth⟩, smaller, equal, larger, rearranged, inside, -⟩ := now
  dsimp only at *
  obtain rfl : left = lefteq := by omega
  have small := order.lt_of_eq below (equal righteq third le_rfl)
  refine ⟨⟨?_, le_rfl, ?_, more, fifth⟩, fun k lower upper => ?_, fun k lower upper => ?_,
    fun k lower upper => ?_, ?_, ?_, fun _ wrong => ?_⟩ <;> dsimp only at *
  · omega
  · omega
  · rcases (Int.lt_add_one_iff.mp upper).lt_or_eq with before | rfl
    · rw [rotate_of_ne (by omega) (by omega) (by omega)]
      exact smaller k lower before
    · rw [rotate_first]
      exact small
  · rcases upper.lt_or_eq with before | rfl
    · rw [rotate_of_ne (by omega) (by omega) (by omega)]
      exact equal k (by omega) (by omega)
    · rw [rotate_second (by omega)]
      exact equal left le_rfl third
  · rw [rotate_of_ne (by omega) (by omega) (by omega)]
    exact larger k lower upper
  · exact rearranged.trans (rearranged_rotate _ (by omega) (by omega) (by omega) (by omega) (by omega))
  · exact ((inside.cons (by omega) fifth).cons (by omega) (by omega)).cons (by omega) (by omega)
  · omega

/-- An equal cell on the right is exchanged with the one behind the equal cells. -/
theorem Collecting.equalRight (same : compare (cells right) (cells righteq) = 0) :
    Collecting compare lo hi pick start .right ⟨left, lefteq, righteq + 1, right⟩
      ⟨swap cells right (righteq + 1), right :: (righteq + 1) :: touched⟩ := by
  obtain ⟨⟨first, second, third, -, fifth⟩, smaller, equal, larger, rearranged, inside, waiting⟩ := now
  have alike := order.eq_of_eq same (equal righteq third le_rfl)
  refine ⟨⟨first, second, ?_, more, fifth⟩, fun k lower upper => ?_, fun k lower upper => ?_,
    fun k lower upper => ?_, ?_, ?_, fun _ room => ?_⟩ <;> dsimp only at *
  · omega
  · rw [swap_of_ne (by omega) (by omega)]
    exact smaller k lower upper
  · rcases upper.lt_or_eq with before | rfl
    · rw [swap_of_ne (by omega) (by omega)]
      exact equal k lower (by omega)
    · rw [swap_right]
      exact alike
  · rw [swap_of_ne (by omega) (by omega)]
    exact larger k lower upper
  · exact rearranged.trans (rearranged_swap _ (by omega) (by omega) (by omega) (by omega))
  · exact (inside.cons (by omega) (by omega)).cons (by omega) (by omega)
  · rw [swap_of_ne (by omega) (by omega)]
    exact waiting rfl room

theorem Collecting.largerRight (above : 0 < compare (cells right) (cells righteq)) :
    Collecting compare lo hi pick start .right ⟨left, lefteq, righteq, right - 1⟩
      ⟨cells, touched⟩ := by
  have large := order.gt_of_eq above (now.equal righteq now.inside.lefteq_righteq le_rfl)
  refine ⟨?_, now.smaller, now.equal, fun k lower upper => ?_, now.rearranged, now.touched,
    now.waiting⟩
  · obtain ⟨first, second, third, -, fifth⟩ := now.inside
    exact ⟨first, second, third, Int.le_sub_one_of_lt more, (Int.sub_one_lt_of_le le_rfl).le.trans fifth⟩
  · rcases (Int.le_of_sub_one_lt lower).lt_or_eq with behind | rfl
    · exact now.larger k behind upper
    · exact large

end

/-- A larger cell on the left is carried past the equal cells, which move to the left. -/
theorem Collecting.carryRight
    (now : Collecting compare lo hi pick start .right ⟨left, lefteq, righteq, right⟩ ⟨cells, touched⟩)
    (full : ¬right > righteq) (more : left < lefteq) :
    Collecting compare lo hi pick start .left ⟨left, lefteq - 1, righteq - 1, righteq - 1⟩
      ⟨rotate cells right (lefteq - 1) left, right :: (lefteq - 1) :: left :: touched⟩ := by
  obtain ⟨⟨first, -, third, fourth, fifth⟩, smaller, equal, larger, rearranged, inside, waiting⟩ := now
  dsimp only at *
  obtain rfl : righteq = right := by omega
  have large := waiting rfl more
  refine ⟨⟨first, ?_, ?_, le_rfl, ?_⟩, fun k lower upper => ?_, fun k lower upper => ?_,
    fun k lower upper => ?_, ?_, ?_, nofun⟩ <;> dsimp only at *
  · omega
  · omega
  · omega
  · rw [rotate_of_ne (by omega) (by omega) (by omega)]
    exact smaller k lower upper
  · rcases lower.lt_or_eq with behind | rfl
    · rw [rotate_of_ne (by omega) (by omega) (by omega)]
      exact equal k (by omega) (by omega)
    · rw [rotate_second (by omega)]
      exact equal righteq third le_rfl
  · rcases (Int.le_of_sub_one_lt lower).lt_or_eq with behind | rfl
    · rw [rotate_of_ne (by omega) (by omega) (by omega)]
      exact larger k behind upper
    · rw [rotate_first]
      exact large
  · exact rearranged.trans (rearranged_rotate _ (by omega) (by omega) (by omega) (by omega) (by omega))
  · exact ((inside.cons first (by omega)).cons (by omega) (by omega)).cons (by omega) (by omega)

/-- How many cells have not been examined. -/
def Scan.rest (scan : Scan) : ℤ := scan.lefteq - scan.left + (scan.right - scan.righteq)

/-- The rounds that are left. -/
def Side.rounds (scan : Scan) : Side → ℤ
  | .left => 2 * scan.rest + 2
  | .right => 2 * scan.rest + 1

theorem rounds_left : Side.left.rounds ⟨left, lefteq, righteq, right⟩ =
    2 * (lefteq - left + (right - righteq)) + 2 := rfl

theorem rounds_right : Side.right.rounds ⟨left, lefteq, righteq, right⟩ =
    2 * (lefteq - left + (right - righteq)) + 1 := rfl

/-- The loops end with every cell examined. -/
theorem collect_done (order : TotalPreorder compare) {fuel : Nat} {scan : Scan} {work : Work α}
    (now : Collecting compare lo hi pick start side scan work) (enough : side.rounds scan ≤ fuel) :
    ∃ scan' work', collect compare fuel side scan work = some (scan', work') ∧
      Collecting compare lo hi pick start .right scan' work' ∧
      scan'.left = scan'.lefteq ∧ scan'.right = scan'.righteq := by
  obtain ⟨left, lefteq, righteq, right⟩ := scan
  obtain ⟨cells, touched⟩ := work
  induction fuel generalizing side left lefteq righteq right cells touched with
  | zero =>
    obtain ⟨-, second, -, fourth, -⟩ := now.inside
    dsimp only at second fourth
    cases side with
    | left =>
      rw [rounds_left] at enough
      omega
    | right =>
      rw [rounds_right] at enough
      omega
  | succ fuel inductionHypothesis =>
    obtain ⟨first, second, third, fourth, fifth⟩ := now.inside
    dsimp only at first second third fourth fifth
    have bounds {k : ℤ} (lower : left ≤ k) (upper : k ≤ right) : lo ≤ k ∧ k ≤ hi :=
      ⟨first.trans lower, upper.trans fifth⟩
    cases side with
    | left =>
      rw [rounds_left] at enough
      unfold collect
      dsimp only
      split
      case isTrue more =>
        have seen := now.compared (bounds le_rfl (by omega)) (bounds second (by omega))
        split_ifs with below same
        · refine inductionHypothesis _ _ _ _ ?_ _ _ (seen.smallerLeft order more below)
          rw [rounds_left]
          omega
        · refine inductionHypothesis _ _ _ _ ?_ _ _ (seen.equalLeft order more same)
          rw [rounds_left]
          omega
        · have above : 0 < compare (cells left) (cells lefteq) := by omega
          replace above := order.gt_of_eq above (now.equal lefteq le_rfl third)
          refine inductionHypothesis _ _ _ _ ?_ _ _ (seen.turn fun _ => above)
          rw [rounds_right]
          omega
      case isFalse none =>
        refine inductionHypothesis _ _ _ _ ?_ _ _ (now.turn fun wrong => absurd wrong none)
        rw [rounds_right]
        omega
    | right =>
      rw [rounds_right] at enough
      unfold collect
      dsimp only
      split
      case isTrue more =>
        have seen := now.compared (bounds (by omega) le_rfl) (bounds (by omega) fourth)
        split_ifs with below room same
        · refine inductionHypothesis _ _ _ _ ?_ _ _ (seen.exchange order more below room)
          rw [rounds_left]
          omega
        · refine inductionHypothesis _ _ _ _ ?_ _ _ (seen.carryLeft order more below room)
          rw [rounds_right]
          omega
        · refine inductionHypothesis _ _ _ _ ?_ _ _ (seen.equalRight order more same)
          rw [rounds_right]
          omega
        · refine inductionHypothesis _ _ _ _ ?_ _ _ (seen.largerRight order more (by omega))
          rw [rounds_right]
          omega
      case isFalse none =>
        split
        case isTrue room =>
          refine inductionHypothesis _ _ _ _ ?_ _ _ (now.carryRight none room)
          rw [rounds_left]
          omega
        case isFalse full =>
          refine ⟨_, _, rfl, now, ?_, ?_⟩
          · exact le_antisymm second (not_lt.mp full)
          · exact le_antisymm (not_lt.mp none) fourth

end Collecting

/-! ### Sorting -/

/-- Sort the cells of a range. -/
def quicksort (compare : α → α → Int) : Nat → ℤ → ℤ → Work α → Option (Work α)
  | 0, _, _, _ => none
  | fuel + 1, lo, hi, work =>
    if hi ≤ lo then some work
    else
      let middle := lo + (hi - lo + 1) / 2
      (collect compare fuel .left ⟨lo, middle, middle, hi⟩ work).bind fun (scan, work) =>
        (quicksort compare fuel lo (scan.lefteq - 1) work).bind fun work =>
          quicksort compare fuel (scan.righteq + 1) hi work

/-- The cells of a range are in order. -/
def Sorted (compare : α → α → Int) (lo hi : ℤ) (cells : ℤ → α) : Prop :=
  ∀ i j, lo ≤ i → i ≤ j → j ≤ hi → compare (cells i) (cells j) ≤ 0

section Sorting

variable {compare : α → α → Int} {lo hi : ℤ}

/-- What sorting comes to. -/
structure Sorts (compare : α → α → Int) (lo hi : ℤ) (before after : Work α) : Prop where
  sorted : Sorted compare lo hi after.cells
  rearranged : Rearranged lo hi before.cells after.cells
  touched : TouchedInside lo hi before.touched after.touched

/-- The smaller cells are in order, and so are the larger ones, with the equal ones between them. -/
theorem sorted_of_parts (order : TotalPreorder compare) {cells : ℤ → α} {pick : α} {lefteq righteq : ℤ}
    (smaller : Sorted compare lo (lefteq - 1) cells) (larger : Sorted compare (righteq + 1) hi cells)
    (below : ∀ k, lo ≤ k → k ≤ lefteq - 1 → compare (cells k) pick < 0)
    (equal : ∀ k, lefteq ≤ k → k ≤ righteq → compare (cells k) pick = 0)
    (above : ∀ k, righteq + 1 ≤ k → k ≤ hi → 0 < compare (cells k) pick) :
    Sorted compare lo hi cells := by
  intro i j lower ordered upper
  by_cases one : j ≤ lefteq - 1
  · exact smaller i j lower ordered one
  by_cases two : righteq + 1 ≤ i
  · exact larger i j two ordered upper
  have first : compare (cells i) pick ≤ 0 := by
    by_cases before : i ≤ lefteq - 1
    · exact (below i lower before).le
    · exact (equal i (by omega) (by omega)).le
  have second : compare pick (cells j) ≤ 0 := by
    by_cases behind : righteq + 1 ≤ j
    · exact order.le_of_ge (above j behind upper).le
    · exact (order.symm (equal j (by omega) (by omega))).le
  exact order.trans _ _ _ first second

theorem TouchedInside.trans {lo' hi' : ℤ} {first second third : List ℤ}
    (one : TouchedInside lo hi first second) (two : TouchedInside lo' hi' second third)
    (lower : lo ≤ lo') (upper : hi' ≤ hi) : TouchedInside lo hi first third := by
  intro k touched
  rcases two k touched with before | inside
  · exact one k before
  · exact .inr ⟨lower.trans inside.1, inside.2.trans upper⟩

theorem collecting_start (order : TotalPreorder compare) (work : Work α) {middle : ℤ}
    (lower : lo ≤ middle) (upper : middle ≤ hi) :
    Collecting compare lo hi (work.cells middle) work .left ⟨lo, middle, middle, hi⟩ work := by
  refine ⟨⟨le_rfl, lower, le_rfl, upper, le_rfl⟩, fun k first last => ?_, fun k first last => ?_,
    fun k first last => ?_, .refl _ _ _, fun k touched => .inl touched, nofun⟩ <;> dsimp only at *
  · omega
  · obtain rfl := le_antisymm first last
    exact order.refl _
  · omega

/-- Quicksort sorts its range and ends. -/
theorem quicksort_sorts (order : TotalPreorder compare) {fuel : Nat} {work : Work α}
    (enough : 2 * (hi - lo + 1) + 1 ≤ fuel) (some' : 0 < fuel) :
    ∃ work', quicksort compare fuel lo hi work = some work' ∧ Sorts compare lo hi work work' := by
  induction fuel generalizing lo hi work with
  | zero => exact absurd some' (Nat.lt_irrefl 0)
  | succ fuel inductionHypothesis =>
    unfold quicksort
    split
    case isTrue short =>
      refine ⟨work, rfl, ?_, .refl _ _ _, fun k touched => .inl touched⟩
      intro i j lower ordered upper
      obtain rfl : i = j := by omega
      exact (order.refl _).le
    case isFalse long =>
      dsimp only
      obtain ⟨pick, start⟩ : ∃ pick, Collecting compare lo hi pick work .left
          ⟨lo, lo + (hi - lo + 1) / 2, lo + (hi - lo + 1) / 2, hi⟩ work :=
        ⟨_, collecting_start order work (by omega) (by omega)⟩
      obtain ⟨⟨left, lefteq, righteq, right⟩, work₁, collected, now, ends, ends'⟩ :=
        @collect_done α compare lo hi pick work .left order fuel _ work start
          (by rw [rounds_left]; omega)
      dsimp only at ends ends'
      subst ends ends'
      obtain ⟨first, -, third, -, fifth⟩ := now.inside
      dsimp only at first third fifth
      obtain ⟨work₂, lower, smaller⟩ := @inductionHypothesis lo (left - 1) work₁ (by omega) (by omega)
      obtain ⟨work₃, upper, larger⟩ := @inductionHypothesis (right + 1) hi work₂ (by omega) (by omega)
      refine ⟨work₃, ?_, ?_, ?_, ?_⟩
      · rw [collected, Option.bind_some, lower, Option.bind_some, upper]
      · have behind {k : ℤ} (apart : left - 1 < k) : work₂.cells k = work₁.cells k :=
          smaller.rearranged.outside (.inr apart)
        have before {k : ℤ} (apart : k < right + 1) : work₃.cells k = work₂.cells k :=
          larger.rearranged.outside (.inl apart)
        refine @sorted_of_parts α compare lo hi order work₃.cells pick left right ?_
          larger.sorted ?_ ?_ ?_
        · intro i j lower ordered upper
          rw [before (by omega), before (by omega)]
          exact smaller.sorted i j lower ordered upper
        · intro k lower upper
          rw [before (by omega)]
          refine smaller.rearranged.all (P := fun cell => compare cell pick < 0) ?_ k lower upper
          exact fun k lower upper => now.smaller k lower (by dsimp only; omega)
        · intro k lower upper
          rw [before (by omega), behind (by omega)]
          exact now.equal k lower upper
        · refine larger.rearranged.all (P := fun cell => 0 < compare cell pick) fun k lower upper => ?_
          rw [behind (by omega)]
          exact now.larger k (by dsimp only; omega) upper
      · exact (now.rearranged.trans (smaller.rearranged.mono le_rfl (by omega))).trans
          (larger.rearranged.mono (by omega) le_rfl)
      · exact (now.touched.trans smaller.touched le_rfl (by omega)).trans larger.touched (by omega)
          le_rfl

end Sorting

end Minix.Library
