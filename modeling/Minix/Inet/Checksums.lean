/-
This file proves that `oneC_sum` is the one's complement sum of the words, whatever the alignment,
and that the chains of accessors all give the sum of their bytes, however the bytes are split.

Every sum here is the same as the sum of the previous value and of the words; what is folded to 16
bits is determined by that.
-/

import Minix.Inet.OneCsum
import Minix.Library.OnesComplement

namespace Minix.Inet

open OnesComplement (Same weigh fold)

variable {sum : UInt32} {prev : UInt16} {address total byteBuf : Nat}
  {data dptr front back : List UInt8} {odd : Bool} {state : UInt16 × Option UInt8}

/-! ### Sums of words -/

/-- The sum of the words that the bytes make; with `odd`, the first byte is a high one. -/
def weighBytes (odd : Bool) (data : List UInt8) : Nat := weigh 256 odd (data.map UInt8.toNat)

theorem weighBytes_le (odd : Bool) (data : List UInt8) :
    weighBytes odd data ≤ 65280 * data.length := by
  have small : ∀ a ∈ data.map UInt8.toNat, a ≤ 255 := by
    intro a member
    obtain ⟨byte, -, rfl⟩ := List.mem_map.mp member
    exact Nat.le_of_lt_succ byte.toNat_lt
  have bounded : weighBytes odd data ≤ 256 * 255 * (data.map UInt8.toNat).length :=
    OnesComplement.weigh_lt small (by decide)
  rwa [List.length_map] at bounded

theorem weighBytes_append : weighBytes odd (front ++ back) =
    weighBytes odd front + weighBytes (odd ^^ front.length % 2 == 1) back := by
  unfold weighBytes
  rw [List.map_append, OnesComplement.weigh_append, List.length_map]

theorem same_weighBytes_not : Same 256 (weighBytes (!odd) data) (256 * weighBytes odd data) :=
  OnesComplement.same_weigh_not (by decide)

theorem toNat_word (first second : UInt8) :
    (word first second).toNat = first.toNat + 256 * second.toNat := by
  have low := first.toNat_lt
  have high := second.toNat_lt
  unfold word
  rw [UInt32.toNat_or, UInt32.toNat_shiftLeft, UInt8.toNat_toUInt32, UInt8.toNat_toUInt32]
  change first.toNat ||| (second.toNat <<< 8) % 2 ^ 32 = _
  rw [Nat.shiftLeft_eq, Nat.mod_eq_of_lt (by omega), Nat.or_comm, Nat.mul_comm second.toNat]
  rw [← Nat.two_pow_add_eq_or_of_lt low]
  omega

section

variable (fits : sum.toNat + weighBytes false dptr < 2 ^ 32)
include fits

theorem sumEights_eq :
    (sumEights sum dptr).1.toNat + weighBytes false (sumEights sum dptr).2 =
      sum.toNat + weighBytes false dptr := by
  fun_induction sumEights sum dptr with
  | case2 => rfl
  | case1 sum a b c d e f g h dptr inductionHypothesis =>
    have words : weighBytes false (a :: b :: c :: d :: e :: f :: g :: h :: dptr) =
        (word a b).toNat + (word c d).toNat + (word e f).toNat + (word g h).toNat +
          weighBytes false dptr := by
      simp only [toNat_word, weighBytes, List.map_cons, weigh]
      simp
      omega
    rw [words] at fits ⊢
    have added : (sum + (word a b + word c d + word e f + word g h)).toNat =
        sum.toNat + ((word a b).toNat + (word c d).toNat + (word e f).toNat + (word g h).toNat) := by
      simp only [UInt32.toNat_add]
      omega
    rw [inductionHypothesis (by rw [added]; omega), added]
    omega

theorem sumTwos_eq :
    (sumTwos sum dptr).1.toNat + weighBytes false (sumTwos sum dptr).2 =
      sum.toNat + weighBytes false dptr ∧ (sumTwos sum dptr).2.length ≤ 1 := by
  fun_induction sumTwos sum dptr with
  | case2 sum dptr short =>
    refine ⟨rfl, ?_⟩
    match dptr with
    | [] => exact Nat.zero_le 1
    | [a] => exact le_rfl
    | a :: b :: rest => exact absurd rfl (short a b rest)
  | case1 sum a b dptr inductionHypothesis =>
    have words : weighBytes false (a :: b :: dptr) =
        (word a b).toNat + weighBytes false dptr := by
      simp only [toNat_word, weighBytes, List.map_cons, weigh]
      simp
      omega
    rw [words] at fits ⊢
    have added : (sum + word a b).toNat = sum.toNat + (word a b).toNat := by
      rw [UInt32.toNat_add]
      omega
    obtain ⟨total, short⟩ := inductionHypothesis (by rw [added]; omega)
    exact ⟨by rw [total, added]; omega, short⟩

theorem sumWords_eq :
    (sumWords sum dptr).toNat = sum.toNat + weighBytes false dptr := by
  have eights := sumEights_eq fits
  obtain ⟨twos, short⟩ := sumTwos_eq (eights ▸ fits)
  unfold sumWords
  dsimp only
  rw [← eights, ← twos]
  rw [← eights, ← twos] at fits
  match left : (sumTwos (sumEights sum dptr).1 (sumEights sum dptr).2).2, short with
  | [], _ => rfl
  | [a], _ =>
    rw [left] at fits
    have last : weighBytes false [a] = (word a 0).toNat := by
      rw [toNat_word]
      simp [weighBytes, weigh]
    rw [last] at fits ⊢
    change (_ + word a 0).toNat = _
    rw [UInt32.toNat_add]
    exact Nat.mod_eq_of_lt fits

end

/-! ### Folding and swapping -/

theorem toNat_once (sum : UInt32) : ((sum &&& (0xffff : UInt32)) + sum >>> 16).toNat =
    sum.toNat % 65536 + sum.toNat / 65536 := by
  have fits := sum.toNat_lt
  have low : (sum &&& (0xffff : UInt32)).toNat = sum.toNat % 65536 :=
    Nat.and_two_pow_sub_one_eq_mod sum.toNat 16
  have high : (sum >>> 16).toNat = sum.toNat / 65536 := by
    rw [UInt32.toNat_shiftRight]
    exact Nat.shiftRight_eq_div_pow _ 16
  rw [UInt32.toNat_add, low, high]
  omega

theorem toNat_addCarries (sum : UInt32) :
    (addCarries sum).toUInt16.toNat = fold 256 sum.toNat := by
  have fits := sum.toNat_lt
  have once := toNat_once sum
  unfold addCarries fold
  rw [← once]
  generalize (sum &&& (0xffff : UInt32)) + sum >>> 16 = carried at once ⊢
  by_cases carry : 0xffff < carried
  · have more : 256 * 256 ≤ carried.toNat := UInt32.lt_iff_toNat_lt.mp carry
    rw [if_pos carry, if_pos more, UInt32.toNat_toUInt16, UInt32.toNat_add]
    change (carried.toNat + 1) % 2 ^ 32 % 2 ^ 16 = _
    omega
  · have less : ¬ 256 * 256 ≤ carried.toNat := fun more => carry (UInt32.lt_iff_toNat_lt.mpr more)
    rw [if_neg carry, if_neg less, UInt32.toNat_toUInt16]
    omega

theorem toNat_swapBytes (sum : UInt32) :
    (swapBytes sum).toNat = 256 * (sum.toNat % 256) + sum.toNat % 65536 / 256 := by
  have low : (sum &&& (0xff : UInt32)).toNat = sum.toNat % 256 :=
    Nat.and_two_pow_sub_one_eq_mod sum.toNat 8
  have high : ((sum &&& (0xff00 : UInt32)) >>> 8).toNat = sum.toNat % 65536 / 256 := by
    rw [UInt32.toNat_shiftRight, UInt32.toNat_and]
    change (sum.toNat &&& 0xff00) >>> 8 = _
    rw [Nat.shiftRight_and_distrib]
    change sum.toNat >>> 8 &&& 2 ^ 8 - 1 = _
    rw [Nat.and_two_pow_sub_one_eq_mod, Nat.shiftRight_eq_div_pow]
    omega
  unfold swapBytes
  rw [UInt32.toNat_or, UInt32.toNat_shiftLeft, low, high]
  change (sum.toNat % 256) <<< 8 % 2 ^ 32 ||| _ = _
  rw [Nat.shiftLeft_eq, Nat.mod_eq_of_lt (by omega), Nat.mul_comm (sum.toNat % 256)]
  exact (Nat.two_pow_add_eq_or_of_lt (by omega) _).symm

theorem swapBytes_toUInt16 (sum : UInt32) : swapBytes sum.toUInt16.toUInt32 = swapBytes sum := by
  refine UInt32.toNat_inj.mp ?_
  rw [toNat_swapBytes, toNat_swapBytes, UInt16.toNat_toUInt32, UInt32.toNat_toUInt16]
  omega

theorem same_swapBytes (w : UInt16) :
    Same 256 (swapBytes w.toUInt32).toUInt16.toNat (256 * w.toNat) := by
  have small := w.toNat_lt
  have swapped : (swapBytes w.toUInt32).toUInt16.toNat = 256 * (w.toNat % 256) + w.toNat / 256 := by
    rw [UInt32.toNat_toUInt16, toNat_swapBytes, UInt16.toNat_toUInt32, Nat.mod_eq_of_lt small]
    exact Nat.mod_eq_of_lt (by omega)
  rw [swapped]
  have split : 256 * w.toNat = 256 * (w.toNat % 256) + 256 * (256 * (w.toNat / 256)) := by omega
  rw [split]
  exact (Same.refl _).add (Same.mul_mul (by decide) _).symm

/-! ### `oneC_sum` -/

theorem same_addCarries (sum : UInt32) : Same 256 (addCarries sum).toUInt16.toNat sum.toNat := by
  rw [toNat_addCarries]
  exact (OnesComplement.same_fold (by decide) sum.toNat_lt).1

/-- The loops that begin at an odd address add up words that are one byte off. -/
theorem sumOdd_eq (fits : sum.toNat + weighBytes true data < 2 ^ 32) :
    (sumOdd sum data).toNat = sum.toNat + weighBytes true data := by
  cases data with
  | nil => exact sumWords_eq fits
  | cons first dptr =>
    change sum.toNat + (256 * first.toNat + weighBytes false dptr) < 2 ^ 32 at fits
    have added : (sum + word 0 first).toNat = sum.toNat + 256 * first.toNat := by
      rw [UInt32.toNat_add, toNat_word]
      change (_ + (0 + _)) % 2 ^ 32 = _
      omega
    change (sumWords (sum + word 0 first) dptr).toNat = _ +
      (256 * first.toNat + weighBytes false dptr)
    rw [sumWords_eq (by rw [added]; omega), added, Nat.add_assoc]

/-- `oneC_sum` gives the sum of the previous value and the words, at an even address and at an odd
one. -/
theorem same_oneCSum (short : data.length ≤ 65600) :
    Same 256 (oneCSum prev address data).toNat (prev.toNat + weighBytes false data) := by
  have small := prev.toNat_lt
  have bound (odd : Bool) := weighBytes_le odd data
  unfold oneCSum
  split
  case isFalse =>
    have even := bound false
    have whole : (sumWords prev.toUInt32 data).toNat = prev.toNat + weighBytes false data := by
      rw [sumWords_eq, UInt16.toNat_toUInt32]
      rw [UInt16.toNat_toUInt32]
      omega
    rw [← whole]
    exact same_addCarries _
  case isTrue =>
    -- the bytes of the sum are swapped before and after
    have swapped : (swapBytes prev.toUInt32).toNat < 65536 := by
      rw [toNat_swapBytes, UInt16.toNat_toUInt32]
      omega
    have odd := bound true
    have whole : (sumOdd (swapBytes prev.toUInt32) data).toNat =
        (swapBytes prev.toUInt32).toNat + weighBytes true data := sumOdd_eq (by omega)
    have previous : Same 256 (swapBytes prev.toUInt32).toNat (256 * prev.toNat) := by
      have same := same_swapBytes prev
      rwa [UInt32.toNat_toUInt16, Nat.mod_eq_of_lt swapped] at same
    have off : Same 256 (weighBytes true data) (256 * weighBytes false data) :=
      @same_weighBytes_not data false
    have total : Same 256 (sumOdd (swapBytes prev.toUInt32) data).toNat
        (256 * (prev.toNat + weighBytes false data)) := by
      rw [whole, Nat.mul_add]
      exact previous.add off
    rw [← swapBytes_toUInt16]
    refine (same_swapBytes _).trans (((same_addCarries _).trans total).mul.trans ?_)
    exact Same.mul_mul (by decide) _

/-! ### Chains of accessors -/

/-- What the bytes so far are worth, with the bytes of the sum swapped if their number is odd. -/
def placed (odd : Bool) (total : Nat) : Nat := if odd then 256 * total else total

theorem same_placed_not : Same 256 (256 * placed odd total) (placed (!odd) total) := by
  cases odd
  · exact Same.refl _
  · exact Same.mul_mul (by decide) total

theorem same_placed_weighBytes :
    Same 256 (weighBytes false data) (placed odd (weighBytes odd data)) := by
  cases odd
  · exact Same.refl _
  · exact @same_weighBytes_not data true

theorem bytes_cons (pack : Acc) (next : List Acc) :
    bytes (pack :: next) = pack.data ++ bytes next := List.flatMap_cons

/-- An accessor is added to the sum, as far as the parity of the bytes so far requires. -/
theorem same_placed_add (so : Same 256 prev.toNat (placed odd total))
    (short : data.length ≤ 65600) :
    Same 256 (oneCSum prev address data).toNat (placed odd (total + weighBytes odd data)) := by
  have split : placed odd (total + weighBytes odd data) =
      placed odd total + placed odd (weighBytes odd data) := by
    cases odd
    · rfl
    · exact Nat.mul_add _ _ _
  rw [split]
  exact (same_oneCSum short).trans (so.add same_placed_weighBytes)

theorem same_tcpSum {pack : List Acc} (so : Same 256 prev.toNat (placed odd total))
    (short : (bytes pack).length ≤ 65600) :
    Same 256 (tcpSum prev odd pack).toNat (total + weighBytes odd (bytes pack)) := by
  induction pack generalizing prev odd total with
  | nil =>
    cases odd with
    | false => exact so
    | true => exact (same_swapBytes prev).trans (so.mul.trans same_placed_not)
  | cons pack next inductionHypothesis =>
    rw [bytes_cons, List.length_append] at short
    rw [bytes_cons, weighBytes_append, ← Nat.add_assoc]
    unfold tcpSum
    split
    case isTrue none =>
      obtain empty := List.length_eq_zero_iff.mp none
      rw [empty]
      have parity : (odd ^^ ([] : List UInt8).length % 2 == 1) = odd := by cases odd <;> rfl
      rw [parity]
      exact inductionHypothesis so (by omega)
    case isFalse =>
      have added := @same_placed_add prev pack.address total pack.data odd so (by omega)
      split
      case isTrue odd' =>
        have parity : (odd ^^ pack.data.length % 2 == 1) = !odd := by
          rw [odd']
          cases odd <;> rfl
        rw [parity]
        exact inductionHypothesis ((same_swapBytes _).trans (added.mul.trans same_placed_not))
          (by omega)
      case isFalse even =>
        have parity : (odd ^^ pack.data.length % 2 == 1) = odd := by
          rw [Nat.mod_two_ne_one.mp even]
          cases odd <;> rfl
        rw [parity]
        exact inductionHypothesis added (by omega)

/-- What the sum and the odd byte are worth. -/
def worth (state : UInt16 × Option UInt8) : Nat :=
  state.1.toNat + weighBytes false state.2.toList

theorem addEven_eq (short : data.length ≤ 65600) :
    Same 256 (worth (addEven prev address data)) (prev.toNat + weighBytes false data) ∧
      (addEven prev address data).2.isSome = (data.length % 2 == 1) := by
  unfold addEven
  by_cases odd : data.length % 2 = 1
  · rw [if_pos odd, odd]
    obtain rfl | ⟨front, last, rfl⟩ := List.eq_nil_or_concat data
    · cases odd
    rw [List.concat_eq_append] at odd short ⊢
    rw [List.length_append, List.length_singleton] at odd short
    have even : (false ^^ front.length % 2 == 1) = false := by
      rw [show front.length % 2 = 0 by omega]
      rfl
    rw [List.dropLast_concat, List.getLast?_concat, weighBytes_append, even, ← Nat.add_assoc]
    split
    case isTrue none =>
      obtain rfl := List.length_eq_zero_iff.mp none
      exact ⟨Same.refl _, rfl⟩
    case isFalse => exact ⟨(same_oneCSum (by omega)).add (Same.refl _), rfl⟩
  · rw [if_neg odd, Nat.mod_two_ne_one.mp odd]
    split
    case isTrue none =>
      obtain rfl := List.length_eq_zero_iff.mp none
      exact ⟨Same.refl _, rfl⟩
    case isFalse => exact ⟨(same_oneCSum short).add (Same.refl 0), rfl⟩

theorem addPack_eq {pack : Acc} (short : pack.data.length ≤ 65600) :
    Same 256 (worth (addPack byteBuf state pack))
      (worth state + weighBytes state.2.isSome pack.data) ∧
      (addPack byteBuf state pack).2.isSome =
        (state.2.isSome ^^ pack.data.length % 2 == 1) := by
  obtain ⟨prev, odd⟩ := state
  unfold addPack
  cases data : pack.data with
  | nil =>
    refine ⟨Same.refl _, ?_⟩
    cases odd <;> rfl
  | cons first rest =>
    rw [data] at short
    cases odd with
    | none =>
      obtain ⟨same, parity⟩ := @addEven_eq prev pack.address (first :: rest) short
      refine ⟨same, parity.trans ?_⟩
      rw [Option.isSome_none, Bool.false_xor]
    | some odd =>
      rw [List.length_cons] at short ⊢
      obtain ⟨same, parity⟩ := @addEven_eq (oneCSum prev byteBuf [odd, first]) (pack.address + 1)
        rest (by omega)
      have pair : Same 256 (oneCSum prev byteBuf [odd, first]).toNat
          (prev.toNat + weighBytes false [odd, first]) :=
        same_oneCSum (show 2 ≤ 65600 by decide)
      refine ⟨(same.trans (pair.add (Same.refl _))).trans ?_, parity.trans ?_⟩
      · change Same 256 (prev.toNat + (1 * odd.toNat + (256 * first.toNat + 0)) +
          weighBytes false rest) (prev.toNat + (1 * odd.toNat + 0) +
            (256 * first.toNat + weighBytes false rest))
        have total : prev.toNat + (1 * odd.toNat + (256 * first.toNat + 0)) +
            weighBytes false rest = prev.toNat + (1 * odd.toNat + 0) +
              (256 * first.toNat + weighBytes false rest) := by omega
        rw [total]
        exact Same.refl _
      · rcases Nat.mod_two_eq_zero_or_one rest.length with even | even <;>
          simp [Nat.add_mod, even]

theorem length_le_bytes {acc : Acc} {chain : List Acc} (member : acc ∈ chain) :
    acc.data.length ≤ (bytes chain).length :=
  (List.sublist_flatten_of_mem (List.mem_map_of_mem member)).length_le

theorem foldl_addPack_eq {pack : List Acc} (short : ∀ acc ∈ pack, acc.data.length ≤ 65600) :
    Same 256 (worth (pack.foldl (addPack byteBuf) state))
      (worth state + weighBytes state.2.isSome (bytes pack)) := by
  induction pack generalizing state with
  | nil => exact Same.refl _
  | cons pack next inductionHypothesis =>
    obtain ⟨first, others⟩ := List.forall_mem_cons.mp short
    rw [bytes_cons, weighBytes_append, ← Nat.add_assoc, List.foldl_cons]
    obtain ⟨same, parity⟩ := @addPack_eq byteBuf state pack first
    rw [← parity]
    exact (inductionHypothesis others).trans (same.add (Same.refl _))

theorem same_udpPackOneCsum {pack : Acc} {next : List Acc}
    (short : ∀ acc ∈ pack :: next, acc.data.length ≤ 65600) :
    ∃ sum, udpPackOneCsum byteBuf (pack :: next) = some sum ∧
      icmpPackOneCsum byteBuf (pack :: next) = some sum ∧
      Same 256 sum.toNat (weighBytes false (bytes (pack :: next))) := by
  have total := @foldl_addPack_eq byteBuf (0, none) (pack :: next) short
  have start : worth (0, none) + weighBytes (none : Option UInt8).isSome (bytes (pack :: next)) =
      weighBytes false (bytes (pack :: next)) := Nat.zero_add _
  rw [start] at total
  unfold udpPackOneCsum icmpPackOneCsum
  dsimp only
  generalize (pack :: next).foldl (addPack byteBuf) (0, none) = state at total ⊢
  obtain ⟨prev, odd⟩ := state
  cases odd with
  | none => exact ⟨prev, rfl, rfl, total⟩
  | some odd =>
    have last := @same_oneCSum prev byteBuf [odd] (show 1 ≤ 65600 by decide)
    exact ⟨_, rfl, rfl, last.trans total⟩

/-! ### The checksums -/

/-- The sum of the words of an even number of bytes. -/
def wordSum : List UInt8 → Nat
  | a :: b :: data => (a.toNat + 256 * b.toNat) + wordSum data
  | _ => 0

/-- The bytes with a zero behind them, if there is an odd number of them. -/
def padded (data : List UInt8) : List UInt8 :=
  if data.length % 2 = 1 then data ++ [0] else data

theorem wordSum_eq (even : data.length % 2 = 0) : wordSum data = weighBytes false data := by
  fun_induction wordSum data with
  | case1 a b data inductionHypothesis =>
    rw [List.length_cons, List.length_cons] at even
    rw [inductionHypothesis (by omega)]
    change _ = 1 * a.toNat + (256 * b.toNat + weighBytes false data)
    omega
  | case2 data short =>
    match data with
    | [] => rfl
    | [a] => cases even
    | a :: b :: rest => exact absurd rfl (short a b rest)

theorem wordSum_padded (data : List UInt8) : wordSum (padded data) = weighBytes false data := by
  unfold padded
  split
  case isTrue odd =>
    rw [wordSum_eq (by rw [List.length_append, List.length_singleton]; omega), weighBytes_append]
    cases (false ^^ data.length % 2 == 1) <;> rfl
  case isFalse even => exact wordSum_eq (Nat.mod_two_ne_one.mp even)

theorem checksum_unique {first second : UInt16} (one : Same 256 first.toNat total)
    (two : Same 256 second.toNat total) : first = second :=
  UInt16.toNat_inj.mp (Same.eq first.toNat_lt second.toNat_lt (one.trans two.symm))

/-- However at most 65535 bytes are split into accessors, and wherever these lie, the three loops
give the one's complement sum of the words of the padded bytes. In the segments of TCP the pseudo
header comes first. The sum can be continued after an even number of bytes. -/
theorem checksums_agree (byteBuf wordBuf : Nat) (ipHdr : Nat → UInt8) (pack : Acc)
    (next : List Acc) (short : (bytes (pack :: next)).length ≤ 65535) :
    (∃ sum : UInt16, udpPackOneCsum byteBuf (pack :: next) = some sum ∧
      icmpPackOneCsum byteBuf (pack :: next) = some sum ∧
      tcpSum 0 false (pack :: next) = sum ∧
      sum.toNat ≡ wordSum (padded (bytes (pack :: next))) [MOD 2 ^ 16 - 1] ∧
      (sum = 0 ↔ wordSum (padded (bytes (pack :: next))) = 0)) ∧
    udpPackOneCsum byteBuf (⟨wordBuf, tcpWordBuf ipHdr⟩ :: pack :: next) =
      some (tcpPackOneCsum wordBuf ipHdr (pack :: next)) ∧
    ∀ prev address address' address'' front back, front.length % 2 = 0 →
      (front ++ back).length ≤ 65535 →
      oneCSum (oneCSum prev address front) address' back =
        oneCSum prev address'' (front ++ back) := by
  have bounded : (bytes (pack :: next)).length ≤ 65600 := by omega
  refine ⟨?_, ?_, ?_⟩
  · obtain ⟨sum, udp, icmp, same⟩ := @same_udpPackOneCsum byteBuf pack next
      fun acc member => (length_le_bytes member).trans bounded
    have tcp := @same_tcpSum 0 0 false (pack :: next) (Same.refl 0) bounded
    rw [Nat.zero_add] at tcp
    rw [wordSum_padded]
    refine ⟨sum, udp, icmp, checksum_unique tcp same, same.1, ?_⟩
    rw [← same.2]
    exact UInt16.toNat_inj.symm
  · have header : (tcpWordBuf ipHdr).length = 12 := rfl
    have whole : (bytes (⟨wordBuf, tcpWordBuf ipHdr⟩ :: pack :: next)).length ≤ 65600 := by
      rw [bytes_cons, List.length_append]
      change (tcpWordBuf ipHdr).length + _ ≤ _
      rw [header]
      omega
    obtain ⟨sum, udp, -, same⟩ := @same_udpPackOneCsum byteBuf _ _
      fun acc member => (length_le_bytes member).trans whole
    have start : Same 256 (oneCSum 0 wordBuf (tcpWordBuf ipHdr)).toNat
        (placed false (weighBytes false (tcpWordBuf ipHdr))) := by
      have sum := @same_oneCSum 0 wordBuf (tcpWordBuf ipHdr) (by omega)
      rwa [UInt16.toNat_zero, Nat.zero_add] at sum
    have parity : (false ^^ (tcpWordBuf ipHdr).length % 2 == 1) = false := by
      rw [header]
      rfl
    rw [bytes_cons, weighBytes_append, parity] at same
    rw [udp, tcpPackOneCsum, checksum_unique same (same_tcpSum start bounded)]
  · intro prev address address' address'' front back even fits
    rw [List.length_append] at fits
    have parity : (false ^^ front.length % 2 == 1) = false := by
      rw [even]
      rfl
    have whole := @same_oneCSum prev address'' (front ++ back)
      (by rw [List.length_append]; omega)
    rw [weighBytes_append, parity, ← Nat.add_assoc] at whole
    refine checksum_unique ((same_oneCSum (by omega)).trans ?_) whole
    exact (same_oneCSum (by omega)).add (Same.refl _)

/-- Five bytes in three accessors. -/
theorem five_bytes_sum :
    ∃ sum : UInt16, udpPackOneCsum 1 [⟨0, [1]⟩, ⟨1, []⟩, ⟨3, [2, 3, 4, 5]⟩] = some sum ∧
      icmpPackOneCsum 1 [⟨0, [1]⟩, ⟨1, []⟩, ⟨3, [2, 3, 4, 5]⟩] = some sum ∧
      tcpSum 0 false [⟨0, [1]⟩, ⟨1, []⟩, ⟨3, [2, 3, 4, 5]⟩] = sum ∧
      sum.toNat ≡ wordSum (padded [1, 2, 3, 4, 5]) [MOD 2 ^ 16 - 1] ∧
      (sum = 0 ↔ wordSum (padded [1, 2, 3, 4, 5]) = 0) :=
  (checksums_agree 1 0 (fun _ => 0) ⟨0, [1]⟩ [⟨1, []⟩, ⟨3, [2, 3, 4, 5]⟩] (by decide)).1

end Minix.Inet
