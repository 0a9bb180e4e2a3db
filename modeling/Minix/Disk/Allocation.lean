/-
This file proves what `alloc_bit` and `free_bit` do with a bit map, and that the hints where the
next search starts are never above a free bit.

The search starts in the middle of a word's block and goes around. What is carried through it is
that every bit from the start of the search up to the bit found is set; when nothing is found, the
blocks visited are all blocks of the map.
-/

import Minix.Disk.Bitmap
import Minix.Library.Extents
import Minix.Library.Transition
import Mathlib.Tactic.IntervalCases

namespace Minix.Disk

open Function (update update_of_ne update_self)

/-! ### Words -/

theorem conv2_toBitVec {norm : Bool} {w : UInt16} {i : Nat} (small : i < 16) :
    (conv2 norm w).toBitVec.getLsbD i = w.toBitVec.getLsbD (if norm then i else (i + 8) % 16) := by
  cases norm
  case true => rfl
  case false => interval_cases i <;> simp [conv2]

@[simp] theorem conv2_conv2 (norm : Bool) (w : UInt16) : conv2 norm (conv2 norm w) = w := by
  refine UInt16.toBitVec_inj.mp (BitVec.eq_of_getLsbD_eq fun i small => ?_)
  rw [conv2_toBitVec small]
  cases norm
  case true => rfl
  case false =>
    rw [if_neg Bool.false_ne_true, conv2_toBitVec (Nat.mod_lt _ (by decide)),
      if_neg Bool.false_ne_true]
    congr 1
    omega

theorem conv2_full {norm : Bool} {w : UInt16} : conv2 norm w = 0xffff ↔ w = 0xffff := by
  have same : conv2 norm 0xffff = 0xffff := by cases norm <;> rfl
  constructor
  · intro full
    rw [← conv2_conv2 norm w, full, same]
  · rintro rfl
    exact same

theorem full_iff {k : UInt16} : k = 0xffff ↔ ∀ i < 16, k.toBitVec.getLsbD i := by
  constructor
  · rintro rfl i small
    interval_cases i <;> rfl
  · intro all
    refine UInt16.toBitVec_inj.mp (BitVec.eq_of_getLsbD_eq fun i small => ?_)
    rw [all i small]
    interval_cases i <;> rfl

theorem scanBits_spec (k : UInt16) (fuel i : Nat) :
    i ≤ scanBits k fuel i ∧ scanBits k fuel i ≤ i + fuel ∧
      (∀ j, i ≤ j → j < scanBits k fuel i → k.toBitVec.getLsbD j) ∧
      (scanBits k fuel i < i + fuel → k.toBitVec.getLsbD (scanBits k fuel i) = false) := by
  induction fuel generalizing i with
  | zero =>
    rw [scanBits]
    exact ⟨le_rfl, le_rfl, fun j above below => absurd below (not_lt.mpr above),
      fun below => absurd below (lt_irrefl _)⟩
  | succ fuel inductionHypothesis =>
    rw [scanBits]
    split
    case isTrue taken =>
      obtain ⟨above, below, set, clear⟩ := inductionHypothesis (i + 1)
      refine ⟨by omega, by omega, fun j from' until' => ?_, fun found => clear (by omega)⟩
      rcases Nat.eq_or_lt_of_le from' with rfl | later
      · exact taken
      · exact set j later until'
    case isFalse free =>
      exact ⟨le_rfl, by omega, fun j above below => absurd below (not_lt.mpr above),
        fun _ => Bool.eq_false_iff.mpr free⟩

theorem scanBits_found {k : UInt16} (room : k ≠ 0xffff) :
    scanBits k 16 0 < 16 ∧
      (∀ j < scanBits k 16 0, k.toBitVec.getLsbD j) ∧
      k.toBitVec.getLsbD (scanBits k 16 0) = false := by
  obtain ⟨-, below, set, clear⟩ := scanBits_spec k 16 0
  have found : scanBits k 16 0 < 16 := by
    by_contra missed
    exact room (full_iff.mpr fun i small => set i (Nat.zero_le i) (by omega))
  exact ⟨found, fun j => set j (Nat.zero_le j), clear (by omega)⟩

/-! ### Searching -/

/-- A bit of the map that lies in the given blocks. -/
def bitIn (native : Bool) (blocks : Chunks) (b : Nat) : Bool :=
  (conv2 native (blocks (b / 8192) (b % 8192 / 16))).toBitVec.getLsbD
    (b % 16)

section Search

variable {native : Bool} {mapBits bitBlocks block word words b c : Nat} {blocks : Chunks}

theorem bitIn_of_full (here : c / 8192 = block)
    (inWord : c % 8192 / 16 = word) (full : blocks block word = 0xffff) :
    bitIn native blocks c := by
  rw [bitIn, here, inWord, full, conv2_full.mpr rfl]
  exact full_iff.mp rfl _ (Nat.mod_lt _ (by decide))

/-- What the loop over the words finds is the first free bit of the words it is given. -/
theorem scanWords_some (fits : word + words ≤ 512)
    (found : scanWords native mapBits block (blocks block) words word = some b) :
    b < mapBits ∧ bitIn native blocks b = false ∧ b / 8192 = block ∧
      ∀ c < b, block * 8192 + word * 16 ≤ c → bitIn native blocks c := by
  induction words generalizing word with
  | zero => cases found
  | succ words inductionHypothesis =>
    rw [scanWords] at found
    split at found
    case isTrue full =>
      obtain ⟨below, free, here, set⟩ := inductionHypothesis (by omega) found
      refine ⟨below, free, here, fun c before from' => ?_⟩
      by_cases later : block * 8192 + (word + 1) * 16 ≤ c
      · exact set c before later
      · exact bitIn_of_full (by omega) (by omega) full
    case isFalse room =>
      obtain ⟨inside, lower, free⟩ := scanBits_found (fun full => room (conv2_full.mp full))
      generalize scanBits (conv2 native (blocks block word)) 16 0 = i at *
      obtain ⟨below, found⟩ := Option.ite_none_left_eq_some.mp found
      obtain rfl := Option.some.inj found
      have place : (block * 8192 + word * 16 + i) / 8192 = block ∧
          (block * 8192 + word * 16 + i) % 8192 / 16 = word ∧
          (block * 8192 + word * 16 + i) % 16 = i := by omega
      refine ⟨by omega, ?_, place.1, fun c before from' => ?_⟩
      · rw [bitIn, place.1, place.2.1, place.2.2, free]
      · rw [bitIn, show c / 8192 = block by omega,
          show c % 8192 / 16 = word by omega]
        exact lower _ (by omega)

/-- When the loop over the words finds nothing, the bits of the map in these words are set. -/
theorem scanWords_none (missed : scanWords native mapBits block (blocks block) words word = none)
    (here : c / 8192 = block) (from' : word ≤ c % 8192 / 16)
    (until' : c % 8192 / 16 < word + words) (below : c < mapBits) :
    bitIn native blocks c := by
  induction words generalizing word with
  | zero => omega
  | succ words inductionHypothesis =>
    rw [scanWords] at missed
    split at missed
    case isTrue full =>
      by_cases inWord : c % 8192 / 16 = word
      · exact bitIn_of_full here inWord full
      · exact inductionHypothesis missed (by omega) (by omega)
    case isFalse room =>
      -- The first free bit of this word is past the end of the map.
      obtain ⟨inside, lower, -⟩ := scanBits_found (fun full => room (conv2_full.mp full))
      generalize scanBits (conv2 native (blocks block word)) 16 0 = i at *
      dsimp only at missed
      split at missed
      case isFalse => cases missed
      case isTrue past =>
        have inWord : c % 8192 / 16 = word := by omega
        rw [bitIn, here, inWord]
        exact lower _ (by omega)

/-- What the search finds is free, and the bits between its start and the bit found are set. -/
theorem scanBlocks_some {bcount : Nat} (inWords : word ≤ 512)
    (found : scanBlocks native mapBits bitBlocks blocks bcount block word = some b) :
    b < mapBits ∧ bitIn native blocks b = false ∧
      ∀ c < b, block * 8192 + word * 16 ≤ c → bitIn native blocks c := by
  induction bcount generalizing block word with
  | zero => cases found
  | succ bcount inductionHypothesis =>
    rw [scanBlocks] at found
    split at found
    case h_1 b' foundHere =>
      obtain rfl := Option.some.inj found
      obtain ⟨below, free, -, set⟩ := scanWords_some (by omega) foundHere
      exact ⟨below, free, set⟩
    case h_2 missed =>
      obtain ⟨below, free, set⟩ := inductionHypothesis (Nat.zero_le _) found
      refine ⟨below, free, fun c before from' => ?_⟩
      by_cases here : c / 8192 = block
      · exact scanWords_none missed here (by omega) (by omega) (by omega)
      · refine set c before ?_
        have past : (block + 1) * 8192 ≤ c := by omega
        by_cases last : bitBlocks ≤ block + 1
        · rw [if_pos last]
          exact Nat.zero_le c
        · rw [if_neg last, Nat.zero_mul, Nat.add_zero]
          exact past

/-- When the search finds nothing, the bits of the map in the blocks it visited are set. -/
theorem scanBlocks_none {bcount : Nat} (step : Nat) (inMap : block < bitBlocks)
    (missed : scanBlocks native mapBits bitBlocks blocks bcount block word = none)
    (visited : step < bcount) (here : c / 8192 = (block + step) % bitBlocks)
    (from' : step = 0 → word ≤ c % 8192 / 16) (below : c < mapBits) :
    bitIn native blocks c := by
  induction bcount generalizing block word step with
  | zero => omega
  | succ bcount inductionHypothesis =>
    rw [scanBlocks] at missed
    split at missed
    case h_1 => cases missed
    case h_2 missedHere =>
      cases step with
      | zero =>
        rw [Nat.add_zero, Nat.mod_eq_of_lt inMap] at here
        have position := from' rfl
        exact scanWords_none missedHere here position (by omega) below
      | succ step =>
        have next : (if bitBlocks ≤ block + 1 then 0 else block + 1) = (block + 1) % bitBlocks := by
          split
          case isTrue last => rw [show block + 1 = bitBlocks by omega, Nat.mod_self]
          case isFalse => rw [Nat.mod_eq_of_lt (by omega)]
        rw [next] at missed
        refine inductionHypothesis step (Nat.mod_lt _ (by omega)) missed (by omega) ?_
          (fun _ => Nat.zero_le _)
        rw [here, Nat.mod_add_mod, Nat.add_assoc, Nat.add_comm 1 step]

/-- A search through one block more than there are visits every bit of the map. -/
theorem scanBlocks_none_full (inMap : mapBits ≤ bitBlocks * 8192) (start : block < bitBlocks)
    (missed : scanBlocks native mapBits bitBlocks blocks (bitBlocks + 1) block word = none)
    (below : c < mapBits) : bitIn native blocks c := by
  have inBlocks : c / 8192 < bitBlocks := by omega
  by_cases after : block < c / 8192
  · exact scanBlocks_none (c / 8192 - block) start missed (by omega)
      (by rw [Nat.mod_eq_of_lt (by omega)]; omega) (by omega) below
  · refine scanBlocks_none (c / 8192 + bitBlocks - block) start missed (by omega) ?_ (by omega) below
    rw [show block + (c / 8192 + bitBlocks - block) = c / 8192 + bitBlocks by omega,
      Nat.add_mod_right, Nat.mod_eq_of_lt inBlocks]

end Search

/-! ### Changing bits -/

section Bits

variable {sp : Super} {map : BitMap} {chunks : Chunks} {b c : Nat} {k : UInt16}

theorem storeChunk_same : sp.chunk map (sp.storeChunk map chunks b k) b = k := by
  simp only [Super.chunk, Super.storeChunk, update_self, conv2_conv2]

theorem storeChunk_other (different : c / 16 ≠ b / 16) :
    sp.chunk map (sp.storeChunk map chunks b k) c = sp.chunk map chunks c := by
  simp only [Super.chunk, Super.storeChunk]
  by_cases sameBlock : c / 8192 = b / 8192
  · rw [sameBlock, update_self, update_of_ne (by omega)]
  · rw [update_of_ne (by omega)]

theorem storeChunk_block {block : Nat} (different : block ≠ sp.startBlock map + b / 8192) :
    sp.storeChunk map chunks b k block = chunks block := by
  rw [Super.storeChunk, update_of_ne different]

theorem mask_toBitVec {i : Nat} (small : i < 16) :
    (mask b).toBitVec.getLsbD i = decide (i = b % 16) := by
  simp only [mask, UInt16.toBitVec_ofBitVec, BitVec.getLsbD_shiftLeft, small, decide_true,
    Bool.true_and]
  rcases Nat.lt_trichotomy i (b % 16) with before | same | behind
  · simp [before, before.ne]
  · simp [same]
  · have positive : i - b % 16 ≠ 0 := by omega
    simp [Nat.not_lt.mpr behind.le, behind.ne', positive, BitVec.getLsbD_one]

theorem bit_set : sp.bit map (sp.storeChunk map chunks b (sp.chunk map chunks b ||| mask b)) c =
    (sp.bit map chunks c || decide (c = b)) := by
  by_cases same : c / 16 = b / 16
  · have chunk (chunks : Chunks) : sp.chunk map chunks c = sp.chunk map chunks b := by
      rw [Super.chunk, Super.chunk, show c / 8192 = b / 8192 by omega,
        show c % 8192 / 16 = b % 8192 / 16 by omega]
    have place : c % 16 = b % 16 ↔ c = b := by omega
    rw [Super.bit, Super.bit, chunk, chunk, storeChunk_same, UInt16.toBitVec_or, BitVec.getLsbD_or,
      mask_toBitVec (Nat.mod_lt _ (by decide))]
    simp only [place]
  · have different : c ≠ b := fun equal => same (by rw [equal])
    rw [Super.bit, Super.bit, storeChunk_other same, decide_eq_false different, Bool.or_false]

theorem bit_clear :
    sp.bit map (sp.storeChunk map chunks b (sp.chunk map chunks b &&& ~~~mask b)) c =
      (sp.bit map chunks c && !decide (c = b)) := by
  by_cases same : c / 16 = b / 16
  · have chunk (chunks : Chunks) : sp.chunk map chunks c = sp.chunk map chunks b := by
      rw [Super.chunk, Super.chunk, show c / 8192 = b / 8192 by omega,
        show c % 8192 / 16 = b % 8192 / 16 by omega]
    have place : c % 16 = b % 16 ↔ c = b := by omega
    have small : c % 16 < 16 := Nat.mod_lt _ (by decide)
    rw [Super.bit, Super.bit, chunk, chunk, storeChunk_same, UInt16.toBitVec_and,
      UInt16.toBitVec_not, BitVec.getLsbD_and, BitVec.getLsbD_not, mask_toBitVec small]
    simp only [place, small, decide_true, Bool.true_and]
  · have different : c ≠ b := fun equal => same (by rw [equal])
    rw [Super.bit, Super.bit, storeChunk_other same, decide_eq_false different, Bool.not_false,
      Bool.and_true]

end Bits

/-! ### `alloc_bit` and `free_bit` -/

/-- The free bits of a map. -/
def Mounted.free (fs : Mounted) (map : BitMap) : Set Nat :=
  {b | b < fs.sp.mapBits map ∧ fs.sp.bit map fs.chunks b = false}

/-- The blocks of a map hold all of its bits. -/
def Super.Holds (sp : Super) (map : BitMap) : Prop := sp.mapBits map ≤ sp.bitBlocks map * 8192

/-- Bit 0 of a map, which is not used, is set. -/
def Mounted.Reserved (fs : Mounted) (map : BitMap) : Prop := fs.sp.bit map fs.chunks 0

instance (sp : Super) (map : BitMap) : Decidable (sp.Holds map) :=
  inferInstanceAs (Decidable (_ ≤ _))

instance (fs : Mounted) (map : BitMap) : Decidable (fs.Reserved map) :=
  inferInstanceAs (Decidable (_ = true))

/-- Chunks in which one bit of a map was changed and nothing else. -/
structure Mounted.Changed (fs : Mounted) (map : BitMap) (b : Nat) (value : Bool)
    (chunks : Chunks) : Prop where
  bit : fs.sp.bit map chunks b = value
  bits : ∀ c ≠ b, fs.sp.bit map chunks c = fs.sp.bit map fs.chunks c
  blocks : ∀ block ≠ fs.sp.startBlock map + b / 8192, chunks block = fs.chunks block

section Calls

variable {fs : Mounted} {map : BitMap} {origin b : Nat} {chunks : Chunks}

theorem allocBit_eq (origin : Nat) (allowed : fs.rdOnly = false) (holds : fs.sp.Holds map) :
    (allocBit fs map origin = some (noBit, fs.chunks) ∧ fs.free map = ∅) ∨
      ∃ b chunks, allocBit fs map origin = some (b, chunks) ∧ b ∈ fs.free map ∧
        fs.Changed map b true chunks ∧
        (origin ∈ lowerBounds (fs.free map) → IsLeast (fs.free map) b) := by
  rw [allocBit, if_neg (Bool.eq_false_iff.mp allowed)]
  dsimp only
  have startIn : (if fs.sp.mapBits map ≤ origin then 0 else origin) < fs.sp.mapBits map ∨
      fs.sp.mapBits map = 0 := by
    split <;> omega
  have lowered : (if fs.sp.mapBits map ≤ origin then 0 else origin) ≤ origin := by
    split <;> omega
  generalize (if fs.sp.mapBits map ≤ origin then 0 else origin) = start at *
  split
  case h_1 b found =>
    obtain ⟨below, clear, before⟩ := scanBlocks_some (by omega) found
    refine .inr ⟨b, _, rfl, ⟨below, clear⟩, ⟨?_, ?_, fun block => storeChunk_block⟩, ?_⟩
    · rw [bit_set, decide_eq_true rfl, Bool.or_true]
    · intro c different
      rw [bit_set, decide_eq_false different, Bool.or_false]
    · intro correct
      refine ⟨⟨below, clear⟩, fun c member => ?_⟩
      by_contra lower
      have set := before c (not_le.mp lower) (by have := correct member; omega)
      exact Bool.noConfusion (member.2.symm.trans set)
  case h_2 missed =>
    refine .inl ⟨rfl, Set.eq_empty_of_forall_notMem fun c member => ?_⟩
    have inMap : start / 8192 < fs.sp.bitBlocks map := by
      have := member.1
      unfold Super.Holds at holds
      omega
    have set := scanBlocks_none_full holds inMap missed member.1
    exact Bool.noConfusion (member.2.symm.trans set)

theorem freeBit_eq_some (freed : freeBit fs map b = some chunks) :
    fs.rdOnly = false ∧ fs.sp.bit map fs.chunks b ∧ fs.Changed map b false chunks := by
  rw [freeBit] at freed
  obtain ⟨allowed, freed⟩ := Option.ite_none_left_eq_some.mp freed
  obtain ⟨used, rfl⟩ := Option.ite_some_none_eq_some.mp freed
  refine ⟨Bool.eq_false_iff.mpr allowed, used, ?_, ?_, fun block => storeChunk_block⟩
  · rw [bit_clear, decide_eq_true rfl, Bool.not_true, Bool.and_false]
  · intro c different
    rw [bit_clear, decide_eq_false different, Bool.not_false, Bool.and_true]

end Calls

end Minix.Disk
