/-
This file models `bsearch` (`lib/ansi/bsearch.c`) on the memory of `qsort`, and proves that it finds
an element that is equal to the key if there is one, with as many comparisons as the number of
elements has binary digits, and that it finds what `qsort` has sorted.
-/

import Minix.Ansi.Qsort

namespace Minix.Ansi

open Library (TotalPreorder)

/-! ### The code -/

/-- What is compared with the key is recorded. -/
def bsearch {Key : Type} (key : Key) (size : UInt32) (compar : Key → List UInt8 → Int)
    (base : UInt32) (nmemb : Nat) (memory : Memory) : Option UInt32 × Memory :=
  if nmemb = 0 then (none, memory)
  else
    let midPoint := base + size * .ofNat (nmemb / 2)
    let cmp := compar key (element size memory.bytes midPoint)
    let memory := { memory with touched := midPoint :: memory.touched }
    if cmp = 0 then (some midPoint, memory)
    else if 0 ≤ cmp then bsearch key size compar (midPoint + size) ((nmemb - 1) / 2) memory
    else bsearch key size compar base (nmemb / 2) memory
termination_by nmemb

/-! ### What it finds -/

section Bsearch

variable {Key : Type} {key : Key} {base size : UInt32} {nel : Nat} {compar : Key → List UInt8 → Int}
  {bytes : UInt32 → UInt8}

/-- The elements that are less than the key come first, and those that are greater come last. -/
def OrderedFor (compar : Key → List UInt8 → Int) (key : Key) (elements : List (List UInt8)) : Prop :=
  elements.Pairwise fun x y =>
    (0 < compar key y → 0 < compar key x) ∧ (compar key x < 0 → compar key y < 0)

/-- An answer for an array, when `n` elements are left and the given ones have been compared. -/
structure Finds (compar : Key → List UInt8 → Int) (key : Key) (base size : UInt32) (nel n : Nat)
    (before : List UInt32) (bytes : UInt32 → UInt8) (answer : Option UInt32 × Memory) : Prop where
  same : answer.2.bytes = bytes
  touched : ∀ p ∈ answer.2.touched, ∃ k < nel, p = pointer base size (k : Nat)
  few : ∀ rounds, n < 2 ^ rounds → answer.2.touched.length ≤ before.length + rounds
  found : ∀ p, answer.1 = some p → p ∈ answer.2.touched ∧ compar key (element size bytes p) = 0
  missed : answer.1 = none → ∀ x ∈ array base size nel bytes, compar key x ≠ 0

/-- The loop goes on between elements that are known to be less than the key and elements that are
known to be greater. -/
theorem bsearch_loop (ordered : OrderedFor compar key (array base size nel bytes)) {low n : Nat}
    (inside : low + n ≤ nel)
    (less : ∀ k : Nat, k < low → 0 < compar key (element size bytes (pointer base size k)))
    (greater : ∀ k : Nat, low + n ≤ k → k < nel → compar key (element size bytes (pointer base size k)) < 0)
    {before : List UInt32} (old : ∀ p ∈ before, ∃ k < nel, p = pointer base size (k : Nat)) :
    Finds compar key base size nel n before bytes
      (bsearch key size compar (pointer base size low) n ⟨bytes, before⟩) := by
  induction n using Nat.strongRecOn generalizing low before with
  | ind n inductionHypothesis =>
    unfold bsearch
    split
    case isTrue none =>
      subst none
      refine ⟨rfl, old, fun _ _ => Nat.le_add_right _ _, nofun, fun _ x member => ?_⟩
      obtain ⟨k, last, rfl⟩ := List.mem_map.mp member
      rcases Nat.lt_or_ge k low with small | large
      · exact (less k small).ne'
      · exact (greater k large (List.mem_range.mp last)).ne
    case isFalse some =>
      have there : pointer base size low + size * .ofNat (n / 2) =
          pointer base size (low + n / 2 : Nat) := by
        rw [Int.natCast_add, pointer_add_natCast]
      dsimp only
      rw [there, ← pointer_add_one]
      obtain ⟨middle, half⟩ : ∃ middle, low + n / 2 = middle := ⟨_, rfl⟩
      rw [half]
      have apart (i j : Nat) (earlier : i < j) (last : j < nel) :
          (0 < compar key (element size bytes (pointer base size j)) →
            0 < compar key (element size bytes (pointer base size i))) ∧
          (compar key (element size bytes (pointer base size i)) < 0 →
            compar key (element size bytes (pointer base size j)) < 0) := by
        have pairs := List.pairwise_iff_getElem.mp (List.pairwise_map.mp ordered) i j
          (by rw [List.length_range]; omega) (by rwa [List.length_range]) earlier
        rw [List.getElem_range, List.getElem_range] at pairs
        exact pairs
      have old' : ∀ p ∈ pointer base size middle :: before,
          ∃ k < nel, p = pointer base size (k : Nat) :=
        List.forall_mem_cons.mpr ⟨⟨middle, by omega, rfl⟩, old⟩
      -- the rest of the search takes one round less
      have goOn {left : Nat} {answer : Option UInt32 × Memory} (fewer : left ≤ n / 2)
          (rest : Finds compar key base size nel left (pointer base size middle :: before) bytes
            answer) : Finds compar key base size nel n before bytes answer := by
        refine { rest with few := fun rounds enough => ?_ }
        cases rounds with
        | zero => omega
        | succ rounds =>
          have most := rest.few rounds (by omega)
          rw [List.length_cons] at most
          omega
      split_ifs with same above
      · refine ⟨rfl, old', fun rounds enough => ?_, fun p found => ?_, nofun⟩
        · cases rounds with
          | zero => omega
          | succ rounds => exact Nat.add_le_add_left (Nat.le_add_left 1 rounds) _
        · obtain rfl := Option.some.inj found
          exact ⟨List.mem_cons_self, same⟩
      · have positive := lt_of_le_of_ne above (Ne.symm same)
        refine goOn (by omega) (@inductionHypothesis ((n - 1) / 2) (by omega) (middle + 1) (by omega)
          (fun k small => ?_) (fun k large last => greater k (by omega) last) _ old')
        rcases Nat.lt_succ_iff_lt_or_eq.mp small with earlier | rfl
        · exact (apart k middle earlier (by omega)).1 positive
        · exact positive
      · refine goOn (Nat.le_refl _) (inductionHypothesis (n / 2) (by omega) (by omega) less
          (fun k large last => ?_) old')
        rcases Nat.lt_or_eq_of_le (half ▸ large) with behind | rfl
        · exact (apart middle k behind last).2 (not_le.mp above)
        · exact not_le.mp above

/-- `bsearch` changes nothing and looks only at elements of the array, at no more of them than the
number of elements has binary digits. It finds an element that is equal to the key exactly if there
is one, in every array in which the elements that are less than the key come first and those that are
greater come last. -/
theorem bsearch_finds (ordered : OrderedFor compar key (array base size nel bytes)) :
    Finds compar key base size nel nel [] bytes (bsearch key size compar base nel ⟨bytes, []⟩) := by
  have found := @bsearch_loop _ _ _ _ _ _ _ ordered 0 nel (by omega)
    (fun _ wrong => absurd wrong (Nat.not_lt_zero _)) (fun k large last => by omega) [] nofun
  rwa [Int.natCast_zero, pointer_zero] at found

end Bsearch

section

variable {compar : Compar} (order : TotalPreorder compar)
include order

theorem orderedFor_sorted {elements : List (List UInt8)}
    (sorted : elements.Pairwise fun x y => compar x y ≤ 0) (key : List UInt8) :
    OrderedFor compar key elements := by
  refine sorted.imp fun {x y} le => ⟨fun less => ?_, fun greater => ?_⟩
  · by_contra other
    exact absurd (order.trans key x y (not_lt.mp other) le) (not_le.mpr less)
  · by_contra other
    have back := order.trans x y key le (order.le_of_ge (not_lt.mp other))
    exact absurd ((order.swap key x).mp greater) (not_lt.mpr back)

theorem bsearch_of_qsorted {base nel size : UInt32} {bytes : UInt32 → UInt8} {memory : Memory}
    (sorted : Qsorted compar base nel size bytes memory) (key : List UInt8) :
    Finds compar key base size nel.toNat nel.toNat [] memory.bytes
        (bsearch key size compar base nel.toNat ⟨memory.bytes, []⟩) ∧
      ((bsearch key size compar base nel.toNat ⟨memory.bytes, []⟩).1.isSome = true ↔
        ∃ x ∈ array base size nel.toNat bytes, compar key x = 0) := by
  have answer := bsearch_finds (orderedFor_sorted order sorted.sorted key)
  refine ⟨answer, fun some => ?_, ?_⟩
  · obtain ⟨p, found⟩ := Option.isSome_iff_exists.mp some
    obtain ⟨member, same⟩ := answer.found p found
    obtain ⟨k, last, rfl⟩ := answer.touched p member
    exact ⟨_, sorted.permuted.subset (List.mem_map.mpr ⟨k, List.mem_range.mpr last, rfl⟩), same⟩
  · rintro ⟨x, member, same⟩
    by_contra none
    exact answer.missed (Option.not_isSome_iff_eq_none.mp none) x
      (sorted.permuted.symm.subset member) same

/-- An array that `qsort` has sorted is searched with the same comparison function. Nothing is changed,
and only elements of the array are compared with the key, no more of them than the number of elements
has binary digits. Something is found exactly if one of the elements that were sorted is equal to the
key. -/
theorem bsearch_after_qsort {base nel size : UInt32} {bytes : UInt32 → UInt8} {memory : Memory}
    (fits : base.toNat + nel.toNat * size.toNat < 2 ^ 32) {fuel : Nat} (enough : 2 * nel.toNat < fuel)
    (safe : size ≤ base ∨ NeverLeast compar fuel (nel.toNat - 1) ⟨elements base nel size bytes, []⟩)
    (run : qsort fuel base nel size compar ⟨bytes, []⟩ = some memory) (key : List UInt8) :
    Finds compar key base size nel.toNat nel.toNat [] memory.bytes
        (bsearch key size compar base nel.toNat ⟨memory.bytes, []⟩) ∧
      ((bsearch key size compar base nel.toNat ⟨memory.bytes, []⟩).1.isSome = true ↔
        ∃ x ∈ array base size nel.toNat bytes, compar key x = 0) := by
  obtain ⟨_, ended, sorted⟩ := qsort_sorts bytes order fits fuel enough safe
  exact bsearch_of_qsorted order (Option.some.inj (ended.symm.trans run) ▸ sorted) key

end

/-- Of two elements that are exchanged the first one is found. -/
theorem bsearch_after_qsort_two : ∃ memory,
    qsort 5 4 2 1 byFirst ⟨fun x => if x = 4 then 9 else 7, []⟩ = some memory ∧
      (bsearch [7] 1 byFirst 4 2 ⟨memory.bytes, []⟩).1.isSome = true := by
  obtain ⟨memory, run, -⟩ := qsort_sorts (fun x => if x = 4 then 9 else 7) byFirst_order
    (show (4 : UInt32).toNat + (2 : UInt32).toNat * (1 : UInt32).toNat < 2 ^ 32 by decide) 5
    (by decide) (.inl (by decide))
  exact ⟨memory, run, (bsearch_after_qsort byFirst_order (by decide) (by decide) (.inl (by decide)) run
    [7]).2.mpr ⟨[7], by decide, by decide⟩⟩

end Minix.Ansi
