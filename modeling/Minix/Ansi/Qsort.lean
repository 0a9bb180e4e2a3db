/-
This file models `qsort` (`lib/ansi/qsort.c`) down to the bytes, and proves exactly when it sorts.

Pointers and sizes have 32 bits, and the memory has a byte for each address. What a pointer is passed
to, the comparison function or an exchange, is recorded. The loops go on until nothing is left to be
examined; `fuel` bounds their rounds and how deep `qsort1` calls itself.
-/

import Mathlib.Algebra.GroupWithZero.Nat
import Minix.Library.ThreeWay

namespace Minix.Ansi

open Function (update update_apply update_of_ne update_idem)
open Library (TotalPreorder Scan Side Work Sorts swap rotate collect collect_done collecting_start
  rounds_left quicksort quicksort_sorts)

/-! ### The code -/

/-- The memory, and the pointers that have been compared or exchanged. -/
structure Memory where
  bytes : UInt32 → UInt8
  touched : List UInt32 := []

/-- The element that a pointer points to. -/
def element (width : UInt32) (bytes : UInt32 → UInt8) (p : UInt32) : List UInt8 :=
  (List.range width.toNat).map fun i => bytes (p + .ofNat i)

def qexchange : Nat → UInt32 → UInt32 → (UInt32 → UInt8) → UInt32 → UInt8
  | 0, _, _, bytes => bytes
  | n + 1, p, q, bytes =>
    let c := bytes p
    let bytes := update bytes p (bytes q)
    let bytes := update bytes q c
    qexchange n (p + 1) (q + 1) bytes

def q3exchange : Nat → UInt32 → UInt32 → UInt32 → (UInt32 → UInt8) → UInt32 → UInt8
  | 0, _, _, _, bytes => bytes
  | n + 1, p, q, r, bytes =>
    let c := bytes p
    let bytes := update bytes p (bytes r)
    let bytes := update bytes r (bytes q)
    let bytes := update bytes q c
    q3exchange n (p + 1) (q + 1) (r + 1) bytes

/-- `qcompar` -/
abbrev Compar := List UInt8 → List UInt8 → Int

/-- The pointers of `qsort1` into the array. -/
structure Bounds where
  left : UInt32
  lefteq : UInt32
  righteq : UInt32
  right : UInt32

/-- The loops of `qsort1` after `again`: the first one examines the left side, the second one the
right side. -/
def again (qcompar : Compar) (width : UInt32) :
    Nat → Side → Bounds → Memory → Option (Bounds × Memory)
  | 0, _, _, _ => none
  | fuel + 1, .left, ⟨left, lefteq, righteq, right⟩, ⟨bytes, touched⟩ =>
    if left < lefteq then
      let cmp := qcompar (element width bytes left) (element width bytes lefteq)
      let touched := left :: lefteq :: touched
      if cmp < 0 then -- leave it where it is
        again qcompar width fuel .left ⟨left + width, lefteq, righteq, right⟩ ⟨bytes, touched⟩
      else if cmp = 0 then
        let lefteq := lefteq - width
        again qcompar width fuel .left ⟨left, lefteq, righteq, right⟩
          ⟨qexchange width.toNat left lefteq bytes, left :: lefteq :: touched⟩
      else again qcompar width fuel .right ⟨left, lefteq, righteq, right⟩ ⟨bytes, touched⟩
    else again qcompar width fuel .right ⟨left, lefteq, righteq, right⟩ ⟨bytes, touched⟩
  | fuel + 1, .right, ⟨left, lefteq, righteq, right⟩, ⟨bytes, touched⟩ =>
    if right > righteq then
      let cmp := qcompar (element width bytes right) (element width bytes righteq)
      let touched := right :: righteq :: touched
      if cmp < 0 then
        if left < lefteq then
          again qcompar width fuel .left ⟨left + width, lefteq, righteq, right - width⟩
            ⟨qexchange width.toNat left right bytes, left :: right :: touched⟩
        else -- no more room at the left part
          let righteq := righteq + width
          let lefteq := lefteq + width
          again qcompar width fuel .right ⟨lefteq, lefteq, righteq, right⟩
            ⟨q3exchange width.toNat left righteq right bytes, left :: righteq :: right :: touched⟩
      else if cmp = 0 then
        let righteq := righteq + width
        again qcompar width fuel .right ⟨left, lefteq, righteq, right⟩
          ⟨qexchange width.toNat right righteq bytes, right :: righteq :: touched⟩
      else again qcompar width fuel .right ⟨left, lefteq, righteq, right - width⟩ ⟨bytes, touched⟩
    else if left < lefteq then
      let lefteq := lefteq - width
      again qcompar width fuel .left ⟨left, lefteq, righteq - width, righteq - width⟩
        ⟨q3exchange width.toNat right lefteq left bytes, right :: lefteq :: left :: touched⟩
    else some (⟨left, lefteq, righteq, right⟩, ⟨bytes, touched⟩)

def qsort1 (qcompar : Compar) (width : UInt32) : Nat → (a1 a2 : UInt32) → Memory → Option Memory
  | 0, _, _, _ => none
  | fuel + 1, a1, a2, memory =>
    if a2 ≤ a1 then some memory
    else
      let middle := a1 + width * (((a2 - a1) + width) / (2 * width))
      (again qcompar width fuel .left ⟨a1, middle, middle, a2⟩ memory).bind fun (scan, memory) =>
        (qsort1 qcompar width fuel a1 (scan.lefteq - width) memory).bind fun memory =>
          qsort1 qcompar width fuel (scan.righteq + width) a2 memory

def qsort (fuel : Nat) (base nel width : UInt32) (compar : Compar) (memory : Memory) :
    Option Memory :=
  if nel = 0 then some memory
  else qsort1 compar width fuel base (base + (nel - 1) * width) memory

/-! ### Addresses -/

/-- An array whose elements have some bytes, in the address space with the byte behind it. -/
structure Placed (base nel width : UInt32) : Prop where
  wide : 0 < width.toNat
  fits : base.toNat + nel.toNat * width.toNat < 2 ^ 32

/-- The pointer to an element of an array. -/
def pointer (base width : UInt32) (k : ℤ) : UInt32 := base + width * .ofInt k

/-- The address of a byte of an element. -/
def address (base width : UInt32) (k : ℤ) (t : Nat) : UInt32 := pointer base width k + .ofNat t

section Addresses

variable {base nel width : UInt32} {i j k : ℤ} {s t : Nat}

theorem ofInt_natCast (n : Nat) : UInt32.ofInt n = .ofNat n := by
  rw [← UInt32.toNat_inj, UInt32.ofInt, UInt32.toNat_ofNat', UInt32.toNat_ofNat']
  omega

theorem pointer_natCast (n : Nat) : pointer base width n = base + width * .ofNat n := by
  rw [pointer, ofInt_natCast]

theorem pointer_zero : pointer base width 0 = base := by
  rw [pointer, show UInt32.ofInt 0 = 0 from rfl, UInt32.mul_zero, UInt32.add_zero]

theorem pointer_add_natCast (n : Nat) :
    pointer base width (k + n) = pointer base width k + width * .ofNat n := by
  rw [pointer, UInt32.ofInt_add, ofInt_natCast, UInt32.mul_add, ← UInt32.add_assoc]
  rfl

theorem pointer_add_one : pointer base width (k + 1) = pointer base width k + width := by
  unfold pointer
  rw [UInt32.ofInt_add, UInt32.ofInt_one, UInt32.mul_add, UInt32.mul_one, ← UInt32.add_assoc]

theorem pointer_sub_one : pointer base width (k - 1) = pointer base width k - width := by
  have next := @pointer_add_one base width (k - 1)
  rw [Int.sub_add_cancel] at next
  rw [next, UInt32.add_sub_cancel]

theorem address_add_one : address base width k t + 1 = address base width k (t + 1) := by
  unfold address
  rw [UInt32.ofNat_add, UInt32.add_assoc]
  rfl

section

variable (placed : Placed base nel width)
include placed

theorem Placed.bound (lower : 0 ≤ k) (upper : k ≤ nel.toNat) :
    0 ≤ (width.toNat : ℤ) * k ∧ (width.toNat : ℤ) * k ≤ width.toNat * nel.toNat ∧
      (base.toNat : ℤ) + width.toNat * nel.toNat < 4294967296 := by
  refine ⟨Int.mul_nonneg (Int.natCast_nonneg _) lower,
    Int.mul_le_mul_of_nonneg_left upper (Int.natCast_nonneg _), ?_⟩
  have fits := placed.fits
  rw [Nat.mul_comm] at fits
  exact Int.ofNat_lt.mpr fits

theorem Placed.toNat_address (lower : 0 ≤ k) (upper : k < nel.toNat) (inside : t ≤ width.toNat) :
    ((address base width k t).toNat : ℤ) = base.toNat + width.toNat * k + t := by
  obtain ⟨n, rfl⟩ := Int.eq_ofNat_of_zero_le lower
  have bound := placed.bound (Int.le_add_one lower) (show (n : ℤ) + 1 ≤ nel.toNat by omega)
  have small := nel.toNat_lt
  rw [Int.mul_add, Int.mul_one] at bound
  unfold address
  rw [pointer_natCast, UInt32.toNat_add, UInt32.toNat_add, UInt32.toNat_mul, UInt32.toNat_ofNat',
    UInt32.toNat_ofNat', Nat.mod_eq_of_lt (show n < 2 ^ 32 by omega)]
  omega

theorem Placed.toNat_pointer (lower : 0 ≤ k) (upper : k ≤ nel.toNat) :
    ((pointer base width k).toNat : ℤ) = base.toNat + width.toNat * k := by
  obtain ⟨n, rfl⟩ := Int.eq_ofNat_of_zero_le lower
  have bound := placed.bound lower upper
  have small := nel.toNat_lt
  rw [pointer_natCast, UInt32.toNat_add, UInt32.toNat_mul, UInt32.toNat_ofNat',
    Nat.mod_eq_of_lt (show n < 2 ^ 32 by omega)]
  omega

theorem Placed.pointer_lt (i_lower : 0 ≤ i) (i_upper : i ≤ nel.toNat) (j_lower : 0 ≤ j)
    (j_upper : j ≤ nel.toNat) : pointer base width i < pointer base width j ↔ i < j := by
  have positive : (0 : ℤ) < width.toNat := Int.natCast_pos.mpr placed.wide
  have first := placed.toNat_pointer i_lower i_upper
  have second := placed.toNat_pointer j_lower j_upper
  rw [UInt32.lt_iff_toNat_lt, ← Int.mul_lt_mul_left positive]
  omega

/-- Different bytes of the array have different addresses. -/
theorem Placed.address_inj (i_inside : 0 ≤ i ∧ i < nel.toNat) (j_inside : 0 ≤ j ∧ j < nel.toNat)
    (s_inside : s < width.toNat) (t_inside : t < width.toNat) :
    address base width i s = address base width j t ↔ i = j ∧ s = t := by
  constructor
  · intro same
    have first := placed.toNat_address i_inside.1 i_inside.2 (Nat.le_of_lt s_inside)
    have second := placed.toNat_address j_inside.1 j_inside.2 (Nat.le_of_lt t_inside)
    rw [same] at first
    have apart {k l : ℤ} (less : k < l) : (width.toNat : ℤ) * k + width.toNat ≤ width.toNat * l := by
      have more := Int.mul_le_mul_of_nonneg_left less (Int.natCast_nonneg width.toNat)
      rwa [Int.mul_add, Int.mul_one] at more
    rcases lt_trichotomy i j with less | rfl | less
    · have more := apart less
      omega
    · omega
    · have more := apart less
      omega
  · rintro ⟨rfl, rfl⟩
    rfl

end

end Addresses

/-! ### Exchanges -/

/-- The elements of an array. -/
def elements (base nel width : UInt32) (bytes : UInt32 → UInt8) (k : ℤ) : List UInt8 :=
  if 0 ≤ k ∧ k < nel.toNat then element width bytes (pointer base width k) else []

/-- The address is one of a byte of the array. -/
def InArray (base nel width x : UInt32) : Prop :=
  base.toNat ≤ x.toNat ∧ x.toNat < base.toNat + nel.toNat * width.toNat

section Exchange

variable {base nel width p q x : UInt32} {bytes : UInt32 → UInt8} {i j k l : ℤ} {n s t : Nat}

theorem qexchange_eq : qexchange n p q bytes = q3exchange n p q q bytes := by
  induction n generalizing p q bytes with
  | zero => rfl
  | succ n inductionHypothesis =>
    unfold qexchange q3exchange
    dsimp only
    rw [update_idem, inductionHypothesis]

section

variable (placed : Placed base nel width)
include placed

theorem Placed.inArray (lower : 0 ≤ k) (upper : k < nel.toNat) (inside : t < width.toNat) :
    InArray base nel width (address base width k t) := by
  have place := placed.toNat_address lower upper (Nat.le_of_lt inside)
  have bound := placed.bound (Int.le_add_one lower) (show k + 1 ≤ nel.toNat by omega)
  have first := placed.bound lower upper.le
  rw [Int.mul_add, Int.mul_one] at bound
  rw [InArray, Nat.mul_comm]
  omega

section

variable (first : 0 ≤ i ∧ i < nel.toNat) (second : 0 ≤ j ∧ j < nel.toNat)
  (third : 0 ≤ l ∧ l < nel.toNat)
include first second third

/-- The bytes of three elements are exchanged from the given one on; the first element is none of the
others, or all are the same. -/
theorem Placed.q3exchange_address (apart : i = j ∨ i = l → i = j ∧ i = l)
    (whole : s + n = width.toNat) (here : 0 ≤ k ∧ k < nel.toNat) (inside : t < width.toNat) :
    q3exchange n (address base width i s) (address base width j s) (address base width l s) bytes
        (address base width k t) =
      bytes (address base width (if s ≤ t then rotate id i j l k else k) t) := by
  induction n generalizing s bytes with
  | zero =>
    rw [if_neg (by omega)]
    rfl
  | succ n inductionHypothesis =>
    unfold q3exchange
    simp only [address_add_one]
    rw [inductionHypothesis (by omega)]
    have other {m o : ℤ} (at' : 0 ≤ m ∧ m < nel.toNat) (within : 0 ≤ o ∧ o < nel.toNat)
        (away : t ≠ s) : address base width m t ≠ address base width o s := fun same =>
      away ((placed.address_inj at' within inside (by omega)).mp same).2
    by_cases away : t = s
    · subst away
      have same {m o : ℤ} (at' : 0 ≤ m ∧ m < nel.toNat) (within : 0 ≤ o ∧ o < nel.toNat) :
          address base width m t = address base width o t ↔ m = o :=
        (placed.address_inj at' within inside inside).trans (and_iff_left rfl)
      rw [if_neg (Nat.not_succ_le_self t), if_pos (Nat.le_refl t)]
      simp only [update_apply, same here second, same here third, same here first, same second first]
      unfold rotate
      split_ifs with one two <;> first | rfl | omega | skip
      exact congrArg (bytes <| address base width · t) (apart (.inl (two.symm.trans one))).2
    · have source : 0 ≤ rotate id i j l k ∧ rotate id i j l k < nel.toNat := by
        unfold rotate
        split_ifs <;> assumption
      split_ifs <;> try omega
      · rw [update_of_ne (other source second away), update_of_ne (other source third away),
          update_of_ne (other source first away)]
      · rw [update_of_ne (other here second away), update_of_ne (other here third away),
          update_of_ne (other here first away)]

theorem Placed.q3exchange_outside (whole : s + n = width.toNat)
    (outside : ¬InArray base nel width x) :
    q3exchange n (address base width i s) (address base width j s) (address base width l s) bytes x =
      bytes x := by
  induction n generalizing s bytes with
  | zero => rfl
  | succ n inductionHypothesis =>
    unfold q3exchange
    have apart {k : ℤ} (inside : 0 ≤ k ∧ k < nel.toNat) : x ≠ address base width k s := fun same =>
      outside (same ▸ placed.inArray inside.1 inside.2 (by omega))
    simp only [address_add_one]
    rw [inductionHypothesis (by omega), update_of_ne (apart second), update_of_ne (apart third),
      update_of_ne (apart first)]

end

end

end Exchange
section Elements

variable {base nel width : UInt32} {bytes : UInt32 → UInt8} {i j k l : ℤ}

theorem elements_of_inside (inside : 0 ≤ k ∧ k < nel.toNat) :
    elements base nel width bytes k = element width bytes (pointer base width k) := if_pos inside

variable (placed : Placed base nel width) (first : 0 ≤ i ∧ i < nel.toNat)
  (second : 0 ≤ j ∧ j < nel.toNat)
include placed first second

/-- An exchange of three elements changes no other byte of the memory. -/
theorem Placed.exchange3 (third : 0 ≤ l ∧ l < nel.toNat) (apart : i = j ∨ i = l → i = j ∧ i = l) :
    elements base nel width (q3exchange width.toNat (pointer base width i) (pointer base width j)
        (pointer base width l) bytes) = rotate (elements base nel width bytes) i j l ∧
      ∀ x, ¬InArray base nel width x → q3exchange width.toNat (pointer base width i)
        (pointer base width j) (pointer base width l) bytes x = bytes x := by
  have start (k : ℤ) : pointer base width k = address base width k 0 := (UInt32.add_zero _).symm
  rw [start i, start j, start l]
  refine ⟨funext fun k => ?_, fun x => placed.q3exchange_outside first second third (Nat.zero_add _)⟩
  have source : rotate (elements base nel width bytes) i j l k =
      elements base nel width bytes (rotate id i j l k) := by
    unfold rotate
    split_ifs <;> rfl
  rw [source]
  unfold elements
  by_cases here : 0 ≤ k ∧ k < nel.toNat
  · rw [if_pos here, if_pos (by unfold rotate; split_ifs <;> assumption)]
    refine List.map_congr_left fun t member => ?_
    have moved := @placed.q3exchange_address _ _ _ bytes i j k l width.toNat 0 t first second third
      apart (Nat.zero_add _) here (List.mem_range.mp member)
    rw [if_pos (Nat.zero_le t)] at moved
    exact moved
  · have fixed : rotate id i j l k = k := by
      unfold rotate
      split_ifs <;> first | omega | rfl
    rw [fixed, if_neg here, if_neg here]

theorem Placed.exchange :
    elements base nel width (qexchange width.toNat (pointer base width i) (pointer base width j)
        bytes) = swap (elements base nel width bytes) i j ∧
      ∀ x, ¬InArray base nel width x → qexchange width.toNat (pointer base width i)
        (pointer base width j) bytes x = bytes x := by
  have same : swap (elements base nel width bytes) i j =
      rotate (elements base nel width bytes) i j j := by
    funext k
    unfold rotate swap
    split_ifs <;> rfl
  rw [qexchange_eq, same]
  exact placed.exchange3 first second second fun same => ⟨same.elim id id, same.elim id id⟩

end Elements

/-! ### Quicksort -/

/-- What the pointers of a scan point to. -/
def pointers (base width : UInt32) (scan : Scan) : Bounds :=
  ⟨pointer base width scan.left, pointer base width scan.lefteq, pointer base width scan.righteq,
    pointer base width scan.right⟩

/-- The array has the elements, they are what has been touched, and the rest of the memory is as it
was at the start. -/
structure Shows (base nel width : UInt32) (start : UInt32 → UInt8) (work : Work (List UInt8))
    (memory : Memory) : Prop where
  cells : elements base nel width memory.bytes = work.cells
  touched : memory.touched = work.touched.map (pointer base width)
  outside : ∀ x, ¬InArray base nel width x → memory.bytes x = start x

section Simulation

variable {qcompar : Compar} {base nel width : UInt32} {side : Side}
  {left lefteq righteq right : ℤ} {scan' : Scan} {cells : ℤ → List UInt8} {touched : List ℤ}
  {work work' : Work (List UInt8)} {bytes start : UInt32 → UInt8}

/-- The loops on pointers do to the bytes what the loops on indices do to the cells. -/
theorem again_collects (placed : Placed base nel width) {fuel : Nat}
    (shows : Shows base nel width start ⟨cells, touched⟩ ⟨bytes, touched.map (pointer base width)⟩)
    (lower : 0 ≤ left) (first : left ≤ lefteq) (second : lefteq ≤ righteq) (third : righteq ≤ right)
    (upper : right < nel.toNat)
    (collected : collect qcompar fuel side ⟨left, lefteq, righteq, right⟩ ⟨cells, touched⟩ =
      some (scan', work')) :
    ∃ memory', again qcompar width fuel side (pointers base width ⟨left, lefteq, righteq, right⟩)
        ⟨bytes, touched.map (pointer base width)⟩ = some (pointers base width scan', memory') ∧
      Shows base nel width start work' memory' := by
  induction fuel generalizing side left lefteq righteq right cells touched bytes with
  | zero => cases collected
  | succ fuel inductionHypothesis =>
    obtain ⟨cells_eq, -, outside⟩ := shows
    dsimp only at cells_eq outside
    have compared {i j : ℤ} (i_inside : 0 ≤ i ∧ i < nel.toNat) (j_inside : 0 ≤ j ∧ j < nel.toNat) :
        qcompar (element width bytes (pointer base width i))
          (element width bytes (pointer base width j)) = qcompar (cells i) (cells j) := by
      rw [← elements_of_inside i_inside, ← elements_of_inside j_inside, cells_eq]
    have less {i j : ℤ} (i_inside : 0 ≤ i ∧ i < nel.toNat) (j_inside : 0 ≤ j ∧ j < nel.toNat) :
        pointer base width i < pointer base width j ↔ i < j :=
      placed.pointer_lt i_inside.1 i_inside.2.le j_inside.1 j_inside.2.le
    have swapped {i j : ℤ} {touched : List ℤ} (i_inside : 0 ≤ i ∧ i < nel.toNat)
        (j_inside : 0 ≤ j ∧ j < nel.toNat) : Shows base nel width start ⟨swap cells i j, touched⟩
          ⟨qexchange width.toNat (pointer base width i) (pointer base width j) bytes,
            touched.map (pointer base width)⟩ := by
      obtain ⟨exchanged, rest⟩ := @placed.exchange _ _ _ bytes i j i_inside j_inside
      exact ⟨exchanged.trans (by rw [cells_eq]), rfl, fun x away => (rest x away).trans (outside x away)⟩
    have rotated {i j l : ℤ} {touched : List ℤ} (i_inside : 0 ≤ i ∧ i < nel.toNat)
        (j_inside : 0 ≤ j ∧ j < nel.toNat) (l_inside : 0 ≤ l ∧ l < nel.toNat)
        (apart : i = j ∨ i = l → i = j ∧ i = l) :
        Shows base nel width start ⟨rotate cells i j l, touched⟩
          ⟨q3exchange width.toNat (pointer base width i) (pointer base width j)
            (pointer base width l) bytes, touched.map (pointer base width)⟩ := by
      obtain ⟨exchanged, rest⟩ :=
        @placed.exchange3 _ _ _ bytes i j l i_inside j_inside l_inside apart
      exact ⟨exchanged.trans (by rw [cells_eq]), rfl, fun x away => (rest x away).trans (outside x away)⟩
    have left_inside : 0 ≤ left ∧ left < nel.toNat := by omega
    have lefteq_inside : 0 ≤ lefteq ∧ lefteq < nel.toNat := by omega
    have righteq_inside : 0 ≤ righteq ∧ righteq < nel.toNat := by omega
    have right_inside : 0 ≤ right ∧ right < nel.toNat := by omega
    unfold pointers at inductionHypothesis ⊢
    cases side with
    | left =>
      unfold collect at collected
      unfold again
      dsimp only at collected ⊢
      simp only [less left_inside lefteq_inside, compared left_inside lefteq_inside]
      split_ifs at collected ⊢ with more below same
      · rw [← pointer_add_one]
        exact inductionHypothesis ⟨cells_eq, rfl, outside⟩ (by omega) more second third upper collected
      · rw [← pointer_sub_one]
        exact inductionHypothesis (swapped left_inside (by omega)) lower (by omega) (by omega) third
          upper collected
      · exact inductionHypothesis ⟨cells_eq, rfl, outside⟩ lower first second third upper collected
      · exact inductionHypothesis ⟨cells_eq, rfl, outside⟩ lower first second third upper collected
    | right =>
      unfold collect at collected
      unfold again
      dsimp only at collected ⊢
      simp only [gt_iff_lt, less left_inside lefteq_inside, less righteq_inside right_inside,
        compared right_inside righteq_inside]
      split_ifs at collected ⊢ with more below room same room
      · rw [← pointer_add_one, ← pointer_sub_one]
        exact inductionHypothesis (swapped left_inside right_inside) (by omega) (by omega) second
          (by omega) (by omega) collected
      · rw [← pointer_add_one, ← pointer_add_one]
        exact inductionHypothesis (rotated left_inside (by omega) right_inside (by omega)) (by omega)
          le_rfl (by omega) (by omega) upper collected
      · rw [← pointer_add_one]
        exact inductionHypothesis (swapped right_inside (by omega)) lower first (by omega) (by omega)
          upper collected
      · rw [← pointer_sub_one]
        exact inductionHypothesis ⟨cells_eq, rfl, outside⟩ lower first second (by omega) (by omega)
          collected
      · rw [← pointer_sub_one, ← pointer_sub_one]
        exact inductionHypothesis (rotated right_inside (by omega) left_inside (by omega)) lower
          (by omega) (by omega) le_rfl (by omega) collected
      · cases collected
        exact ⟨_, rfl, cells_eq, rfl, outside⟩

/-- The middle one of the elements up to the given one is not a least one of them, nor is that of the
smaller ones that come before its equals then, and so on until one element is left. -/
def NeverLeast (qcompar : Compar) : Nat → ℤ → Work (List UInt8) → Prop
  | 0, _, _ => False
  | fuel + 1, hi, work => hi ≤ 0 ∨ ∃ scan work',
      collect qcompar fuel .left ⟨0, (hi + 1) / 2, (hi + 1) / 2, hi⟩ work = some (scan, work') ∧
        0 < scan.lefteq ∧ NeverLeast qcompar fuel (scan.lefteq - 1) work'

section

variable (placed : Placed base nel width) {lo hi : ℤ}
include placed

theorem Placed.pointer_le (safe : width.toNat ≤ base.toNat ∨ 0 ≤ hi) (lower : 0 ≤ lo)
    (behind : lo ≤ hi + 1) (upper : hi < nel.toNat) :
    pointer base width hi ≤ pointer base width lo ↔ hi ≤ lo := by
  by_cases some' : 0 ≤ hi
  · rw [← UInt32.not_lt, placed.pointer_lt lower (by omega) some' upper.le, not_lt]
  · obtain rfl : hi = 0 - 1 := by omega
    obtain rfl : lo = 0 := by omega
    have start := placed.toNat_pointer (Int.le_refl 0) (Int.natCast_nonneg _)
    have wide := placed.wide
    refine iff_of_true ?_ (by decide)
    rw [pointer_sub_one, UInt32.le_iff_toNat_le, UInt32.toNat_sub]
    omega

theorem Placed.pointer_middle (lower : 0 ≤ lo) (many : lo < hi) (upper : hi < nel.toNat) :
    pointer base width lo + width *
        (((pointer base width hi - pointer base width lo) + width) / (2 * width)) =
      pointer base width (lo + (hi - lo + 1) / 2) := by
  obtain ⟨n, rfl⟩ := Int.le.dest many.le
  have bound := placed.bound (show 0 ≤ (n : ℤ) + 1 by omega) (by omega)
  rw [Int.mul_add, Int.mul_one] at bound
  have size : pointer base width (lo + n) - pointer base width lo + width =
      width * .ofNat (n + 1) := by
    rw [pointer_add_natCast, UInt32.ofNat_add, UInt32.mul_add]
    grind
  have small := nel.toNat_lt
  have total : (width * .ofNat (n + 1) : UInt32).toNat = width.toNat * (n + 1) := by
    rw [UInt32.toNat_mul, UInt32.toNat_ofNat', Nat.mod_eq_of_lt (show n + 1 < 2 ^ 32 by omega),
      Nat.mul_add, Nat.mul_one]
    omega
  have double : (2 * width).toNat = width.toNat * 2 := by
    have two : width.toNat ≤ width.toNat * n := Nat.le_mul_of_pos_right _ (by omega)
    rw [UInt32.toNat_mul, show (2 : UInt32).toNat = 2 from rfl]
    omega
  rw [size, show lo + n - lo + 1 = (n : ℤ) + 1 by omega,
    show lo + ((n : ℤ) + 1) / 2 = lo + ((n + 1) / 2 : Nat) by omega, pointer_add_natCast]
  congr 2
  rw [← UInt32.toNat_inj, UInt32.toNat_div, total, double, Nat.mul_div_mul_left _ _ placed.wide,
    UInt32.toNat_ofNat', Nat.mod_eq_of_lt (by omega)]

section

variable (order : TotalPreorder qcompar) {memory : Memory}
  (shows : Shows base nel width start work memory) (lower : 0 ≤ lo) (upper : hi < nel.toNat)
include order shows lower upper

/-- The equal elements are collected as the abstract ones are. -/
theorem qsort1_collects (fuel : Nat) (enough : 2 * (hi - lo + 1) ≤ fuel) (many : lo < hi) :
    ∃ scan work₁ memory₁,
      collect qcompar fuel .left ⟨lo, lo + (hi - lo + 1) / 2, lo + (hi - lo + 1) / 2, hi⟩ work =
          some (scan, work₁) ∧
        Shows base nel width start work₁ memory₁ ∧
        (lo ≤ scan.lefteq ∧ scan.lefteq ≤ scan.righteq ∧ scan.righteq ≤ hi) ∧
        qsort1 qcompar width (fuel + 1) (pointer base width lo) (pointer base width hi) memory =
          (qsort1 qcompar width fuel (pointer base width lo) (pointer base width (scan.lefteq - 1))
            memory₁).bind fun memory =>
              qsort1 qcompar width fuel (pointer base width (scan.righteq + 1))
                (pointer base width hi) memory := by
  obtain ⟨bytes, touched⟩ := memory
  obtain ⟨cells, touched'⟩ := work
  obtain rfl : touched = touched'.map (pointer base width) := shows.touched
  have initial := @collecting_start _ qcompar lo hi order ⟨cells, touched'⟩
    (lo + (hi - lo + 1) / 2) (by omega) (by omega)
  obtain ⟨scan, work₁, collected, now, ends, ends'⟩ :=
    @collect_done _ qcompar lo hi _ _ .left order fuel _ _ initial (by rw [rounds_left]; omega)
  obtain ⟨first, -, third, -, fifth⟩ := now.inside
  obtain ⟨memory₁, again_eq, shows₁⟩ :=
    again_collects placed shows lower (by omega) (Int.le_refl _) (by omega) upper collected
  refine ⟨scan, work₁, memory₁, collected, shows₁, by omega, ?_⟩
  unfold pointers at again_eq
  rw [qsort1, if_neg (by rw [placed.pointer_le] <;> omega), placed.pointer_middle lower many upper]
  dsimp only
  rw [again_eq, Option.bind_some, pointer_sub_one, pointer_add_one]

/-- The elements are sorted as the abstract ones are, unless the first part that is left to be sorted
is empty and the pointer to its end wraps around. -/
theorem qsort1_sorts {fuel : Nat} (enough : 2 * (hi - lo + 1) + 1 ≤ fuel) (behind : lo ≤ hi + 1)
    (safe : width.toNat ≤ base.toNat ∨ 0 ≤ hi ∧ (0 < lo ∨ NeverLeast qcompar fuel hi work))
    (sorted : quicksort qcompar fuel lo hi work = some work') :
    ∃ memory', qsort1 qcompar width fuel (pointer base width lo) (pointer base width hi) memory =
      some memory' ∧ Shows base nel width start work' memory' := by
  induction fuel generalizing lo hi work work' memory with
  | zero => cases sorted
  | succ fuel inductionHypothesis =>
    unfold quicksort at sorted
    split at sorted
    case isTrue few =>
      obtain rfl := Option.some.inj sorted
      refine ⟨memory, ?_, shows⟩
      rw [qsort1, if_pos]
      exact (placed.pointer_le (safe.imp_right And.left) lower behind upper).mpr few
    case isFalse many =>
      obtain ⟨scan, work₁, memory₁, collected, shows₁, inside, qsort1_eq⟩ :=
        qsort1_collects placed order shows lower upper fuel (by omega) (not_le.mp many)
      dsimp only at sorted
      rw [collected, Option.bind_some] at sorted
      dsimp only at sorted
      obtain ⟨work₂, smaller, larger⟩ := Option.bind_eq_some_iff.mp sorted
      have safe' : width.toNat ≤ base.toNat ∨
          0 ≤ scan.lefteq - 1 ∧ (0 < lo ∨ NeverLeast qcompar fuel (scan.lefteq - 1) work₁) := by
        refine safe.imp_right fun place => ?_
        by_cases inner : 0 < lo
        · exact ⟨by omega, .inl inner⟩
        · obtain rfl : lo = 0 := by omega
          obtain few | ⟨scan', work', same, some', part⟩ := place.2.resolve_left inner
          · exact absurd few many
          · rw [show (hi + 1) / 2 = 0 + (hi - 0 + 1) / 2 by omega, collected] at same
            cases same
            exact ⟨by omega, .inr part⟩
      obtain ⟨memory₂, smaller_eq, shows₂⟩ := inductionHypothesis shows₁ lower (by omega) (by omega)
        (by omega) safe' smaller
      obtain ⟨memory₃, larger_eq, shows₃⟩ := inductionHypothesis shows₂ (by omega) upper (by omega)
        (by omega) (.inr ⟨by omega, .inl (by omega)⟩) larger
      exact ⟨memory₃, by rw [qsort1_eq, smaller_eq, Option.bind_some, larger_eq], shows₃⟩

end

end

/-! ### An array that lies too low -/

section

variable {fuel : Nat} {bounds bounds' : Bounds} {memory memory' : Memory} {p a1 a2 : UInt32}

theorem again_touched (member : p ∈ memory.touched)
    (ended : again qcompar width fuel side bounds memory = some (bounds', memory')) :
    p ∈ memory'.touched := by
  induction fuel generalizing side bounds memory with
  | zero => cases ended
  | succ fuel inductionHypothesis =>
    cases side <;> unfold again at ended <;> dsimp only at ended <;> split_ifs at ended
    all_goals first
      | exact inductionHypothesis (by simp only [List.mem_cons, member, or_true]) ended
      | cases ended; exact member

theorem qsort1_touched (member : p ∈ memory.touched)
    (ended : qsort1 qcompar width fuel a1 a2 memory = some memory') : p ∈ memory'.touched := by
  induction fuel generalizing a1 a2 memory memory' with
  | zero => cases ended
  | succ fuel inductionHypothesis =>
    unfold qsort1 at ended
    split at ended
    case isTrue =>
      obtain rfl := Option.some.inj ended
      exact member
    case isFalse =>
      obtain ⟨_, collected, rest⟩ := Option.bind_eq_some_iff.mp ended
      obtain ⟨_, lower, upper⟩ := Option.bind_eq_some_iff.mp rest
      exact inductionHypothesis (inductionHypothesis (again_touched member collected) lower) upper

/-- The end of an empty first part wraps around, and what is there is compared. -/
theorem qsort1_wraps (low : base.toNat < width.toNat)
    (ended : qsort1 qcompar width fuel base (base - width) memory = some memory') :
    base - width ∈ memory'.touched := by
  have above : base < base - width := by
    have small := width.toNat_lt
    rw [UInt32.lt_iff_toNat_lt, UInt32.toNat_sub]
    omega
  have middle : base + width * ((base - width - base + width) / (2 * width)) = base := by
    rw [show base - width - base + width = 0 by grind, UInt32.zero_div, UInt32.mul_zero,
      UInt32.add_zero]
  cases fuel with
  | zero => cases ended
  | succ fuel =>
    unfold qsort1 at ended
    rw [if_neg (UInt32.not_le.mpr above), middle] at ended
    obtain ⟨⟨scan, memory₁⟩, collected, rest⟩ := Option.bind_eq_some_iff.mp ended
    obtain ⟨_, lower, upper⟩ := Option.bind_eq_some_iff.mp rest
    refine qsort1_touched (qsort1_touched ?_ lower) upper
    obtain _ | _ | fuel := fuel
    · cases collected
    · unfold again at collected
      rw [if_neg (UInt32.lt_irrefl base)] at collected
      cases collected
    · unfold again again at collected
      simp only [UInt32.lt_irrefl, if_false, gt_iff_lt, above, if_true] at collected
      split_ifs at collected <;>
        exact again_touched (by simp only [List.mem_cons, true_or, or_true]) collected

/-- An empty first part comes, sooner or later, if some middle element is a least one. -/
theorem qsort1_strays (placed : Placed base nel width) (order : TotalPreorder qcompar) {hi : ℤ}
    (low : base.toNat < width.toNat) (enough : 2 * (hi + 1) + 1 ≤ fuel)
    (shows : Shows base nel width start work memory) (upper : hi < nel.toNat)
    (least : ¬NeverLeast qcompar fuel hi work)
    (ended : qsort1 qcompar width fuel (pointer base width 0) (pointer base width hi) memory =
      some memory') : base - width ∈ memory'.touched := by
  induction fuel generalizing hi work memory memory' with
  | zero => cases ended
  | succ fuel inductionHypothesis =>
    rw [NeverLeast, not_or] at least
    obtain ⟨many, never⟩ := least
    obtain ⟨scan, work₁, memory₁, collected, shows₁, inside, qsort1_eq⟩ :=
      qsort1_collects placed order shows (Int.le_refl 0) upper fuel (by omega) (not_le.mp many)
    rw [show 0 + (hi - 0 + 1) / 2 = (hi + 1) / 2 by omega] at collected
    rw [qsort1_eq] at ended
    obtain ⟨memory₂, smaller, larger⟩ := Option.bind_eq_some_iff.mp ended
    refine qsort1_touched ?_ larger
    by_cases some' : 0 < scan.lefteq
    · exact inductionHypothesis (by omega) shows₁ (by omega)
        (fun part => never ⟨scan, work₁, collected, some', part⟩) smaller
    · rw [show scan.lefteq - 1 = 0 - 1 by omega, pointer_sub_one, pointer_zero] at smaller
      exact qsort1_wraps low smaller

end

end Simulation

/-! ### The whole -/

/-- The array as a list of its elements. -/
def array (base width : UInt32) (nel : Nat) (bytes : UInt32 → UInt8) : List (List UInt8) :=
  (List.range nel).map fun k : Nat => element width bytes (pointer base width k)

section Whole

variable {compar : Compar}

/-- What `qsort` comes to: the array is a sorted permutation of itself, the rest of the memory is as
it was, and only elements of the array have been compared or exchanged. -/
structure Qsorted (compar : Compar) (base nel width : UInt32) (bytes : UInt32 → UInt8)
    (memory : Memory) : Prop where
  sorted : (array base width nel.toNat memory.bytes).Pairwise fun x y => compar x y ≤ 0
  permuted : (array base width nel.toNat memory.bytes).Perm (array base width nel.toNat bytes)
  outside : ∀ x, ¬InArray base nel width x → memory.bytes x = bytes x
  touched : ∀ p ∈ memory.touched, ∃ k < nel.toNat, p = pointer base width (k : Nat)

variable {base nel width : UInt32} {bytes : UInt32 → UInt8}

theorem array_eq_elements (base nel width : UInt32) (bytes : UInt32 → UInt8) :
    array base width nel.toNat bytes =
      (List.range nel.toNat).map fun k : Nat => elements base nel width bytes k := by
  refine List.map_congr_left fun k member => ?_
  have inside := List.mem_range.mp member
  rw [elements_of_inside (by omega)]

theorem qsorted_of_width_zero (order : TotalPreorder compar) (base nel : UInt32)
    (bytes : UInt32 → UInt8) : Qsorted compar base nel 0 bytes ⟨bytes, []⟩ where
  sorted := by
    refine List.pairwise_map.mpr (List.pairwise_of_forall fun i j => ?_)
    exact (order.refl []).le
  permuted := .refl _
  outside _ _ := rfl
  touched _ member := absurd member List.not_mem_nil

theorem qsorted_of_sorts {work : Work (List UInt8)} {memory : Memory}
    (shows : Shows base nel width bytes work memory)
    (sorts : Sorts compar 0 (nel.toNat - 1) ⟨elements base nel width bytes, []⟩ work) :
    Qsorted compar base nel width bytes memory where
  sorted := by
    rw [array_eq_elements, shows.cells]
    refine List.pairwise_map.mpr (List.pairwise_lt_range.imp_of_mem ?_)
    intro i j _ inside less
    have last := List.mem_range.mp inside
    exact sorts.sorted i j (Int.natCast_nonneg i) (by omega) (by omega)
  permuted := by
    rw [array_eq_elements, array_eq_elements, shows.cells]
    exact sorts.rearranged.perm
  outside := shows.outside
  touched p member := by
    rw [shows.touched] at member
    obtain ⟨k, touched, rfl⟩ := List.mem_map.mp member
    rcases sorts.touched k touched with wrong | ⟨lower, upper⟩
    · cases wrong
    · obtain ⟨n, rfl⟩ := Int.eq_ofNat_of_zero_le lower
      exact ⟨n, by omega, rfl⟩

theorem qsort_eq (some' : nel ≠ 0) (fuel : Nat) (memory : Memory) :
    qsort fuel base nel width compar memory = qsort1 compar width fuel (pointer base width 0)
      (pointer base width (nel.toNat - 1)) memory := by
  have last : pointer base width (nel.toNat - 1) = base + (nel - 1) * width := by
    have next := @pointer_add_one base width (nel.toNat - 1)
    rw [Int.sub_add_cancel, pointer_natCast, UInt32.ofNat_toNat] at next
    grind
  rw [qsort, if_neg some', pointer_zero, last]

variable (order : TotalPreorder compar) (fits : base.toNat + nel.toNat * width.toNat < 2 ^ 32)
  (bytes) (fuel : Nat) (enough : 2 * nel.toNat < fuel)
include order fits enough

theorem qsort_sorts (safe : width ≤ base ∨
      NeverLeast compar fuel (nel.toNat - 1) ⟨elements base nel width bytes, []⟩) :
    ∃ memory, qsort fuel base nel width compar ⟨bytes, []⟩ = some memory ∧
      Qsorted compar base nel width bytes memory := by
  by_cases some' : nel = 0
  · subst some'
    exact ⟨_, rfl, .nil, .refl _, fun _ _ => rfl, nofun⟩
  by_cases wide : width = 0
  · subst wide
    refine ⟨_, ?_, qsorted_of_width_zero order base nel bytes⟩
    obtain ⟨fuel, rfl⟩ := Nat.exists_eq_add_of_lt (Nat.zero_lt_of_lt enough)
    rw [qsort_eq some', qsort1, if_pos]
    rw [pointer, pointer, UInt32.zero_mul, UInt32.zero_mul]
    exact UInt32.le_refl _
  · have some'' : nel.toNat ≠ 0 := fun none => some' (UInt32.toNat_inj.mp none)
    have placed : Placed base nel width :=
      ⟨Nat.pos_of_ne_zero (UInt32.toNat_inj.not.mpr wide), fits⟩
    have shows : Shows base nel width bytes ⟨elements base nel width bytes, []⟩ ⟨bytes, []⟩ :=
      ⟨rfl, rfl, fun _ _ => rfl⟩
    obtain ⟨work, sorted, sorts⟩ := @quicksort_sorts _ compar 0 (nel.toNat - 1) order fuel
      ⟨elements base nel width bytes, []⟩ (by omega) (by omega)
    obtain ⟨memory, done, shows'⟩ := qsort1_sorts placed order shows (Int.le_refl 0) (by omega)
      (by omega) (by omega)
      (safe.imp UInt32.le_iff_toNat_le.mp fun least => ⟨by omega, .inr least⟩) sorted
    exact ⟨memory, (qsort_eq some' fuel _).trans done, qsorted_of_sorts shows' sorts⟩

theorem safe_of_qsorted {memory : Memory}
    (ended : qsort fuel base nel width compar ⟨bytes, []⟩ = some memory)
    (sorted : Qsorted compar base nel width bytes memory) : width ≤ base ∨
      NeverLeast compar fuel (nel.toNat - 1) ⟨elements base nel width bytes, []⟩ := by
  by_contra unsafe'
  obtain ⟨low, least⟩ := not_or.mp unsafe'
  replace low := UInt32.lt_iff_toNat_lt.mp (UInt32.not_le.mp low)
  have placed : Placed base nel width := ⟨Nat.zero_lt_of_lt low, fits⟩
  have some' : nel ≠ 0 := by
    rintro rfl
    obtain ⟨fuel, rfl⟩ := Nat.exists_eq_add_of_lt (Nat.zero_lt_of_lt enough)
    exact least (.inl (by decide))
  rw [qsort_eq some'] at ended
  have shows : Shows base nel width bytes ⟨elements base nel width bytes, []⟩ ⟨bytes, []⟩ :=
    ⟨rfl, rfl, fun _ _ => rfl⟩
  obtain ⟨k, inside, same⟩ := sorted.touched _
    (qsort1_strays placed order low (by omega) shows (by omega) least ended)
  rw [← UInt32.toNat_inj, UInt32.toNat_sub] at same
  have place := placed.toNat_pointer (Int.natCast_nonneg k) (by omega)
  have bound := placed.bound (show 0 ≤ (k : ℤ) + 1 by omega) (by omega)
  rw [Int.mul_add, Int.mul_one] at bound
  omega

/-- `qsort` sorts an array if it begins at least the size of an element above the address 0, or if no
middle element is a least one, and else it does not. -/
theorem qsort_sorts_iff :
    (∃ memory, qsort fuel base nel width compar ⟨bytes, []⟩ = some memory ∧
      Qsorted compar base nel width bytes memory) ↔
    width ≤ base ∨ NeverLeast compar fuel (nel.toNat - 1) ⟨elements base nel width bytes, []⟩ :=
  ⟨fun ⟨_, ended, sorted⟩ => safe_of_qsorted bytes order fits fuel enough ended sorted,
    qsort_sorts bytes order fits fuel enough⟩

end Whole

/-- Elements are compared by their first bytes. -/
def byFirst : Compar := fun x y => (x.headD 0).toNat - (y.headD 0).toNat

theorem byFirst_order : TotalPreorder byFirst :=
  ⟨fun x y => by unfold byFirst; omega, fun x y z first second => by unfold byFirst at *; omega⟩

/-- Three elements of eight bytes from the address 4 on. -/
def lowBytes (x : UInt32) : UInt8 := if x = 4 then 7 else if x = 12 then 9 else 8

/-- The one in the middle is a greatest one, and then the one behind the other. -/
theorem qsort_sorts_iff_three :
    ∃ memory, qsort 7 4 3 8 byFirst ⟨lowBytes, []⟩ = some memory ∧
      Qsorted byFirst 4 3 8 lowBytes memory := by
  refine (qsort_sorts_iff lowBytes byFirst_order (by decide) 7 (by decide)).mpr (.inr ?_)
  refine .inr ⟨_, _, rfl, ?_, ?_⟩
  · decide
  · refine .inr ⟨_, _, rfl, ?_, ?_⟩
    · decide
    · exact .inl (by decide)

/-- Two equal elements of eight bytes from the address 4 on. -/
theorem qsort_strays :
    ¬∃ fuel memory, 4 < fuel ∧ qsort fuel 4 2 8 byFirst ⟨fun _ => 0, []⟩ = some memory ∧
      Qsorted byFirst 4 2 8 (fun _ => 0) memory := by
  rintro ⟨fuel, memory, enough, ended, sorted⟩
  obtain ⟨n, rfl⟩ : ∃ n, fuel = n + 5 := ⟨fuel - 5, by omega⟩
  obtain wrong | wrong | ⟨scan, work, collected, some', _⟩ := @safe_of_qsorted byFirst 4 2 8
    (fun _ => 0) byFirst_order (by decide) (n + 5) enough _ ended sorted
  · exact absurd wrong (by decide)
  · exact absurd wrong (by decide)
  · have first : scan.lefteq = 0 :=
      (Option.some.inj (congrArg (Option.map fun found : Scan × _ => found.1.lefteq) collected :
        some 0 = some scan.lefteq)).symm
    omega

end Minix.Ansi
