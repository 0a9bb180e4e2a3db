/-
This file models `ip_hdr_chksum` (`inet/generic/ip_write.c`) and `ipeth_update_ttl`
(`inet/generic/ip_eth.c`), and proves that lowering the time to live of a packet that has waited
keeps the checksum of its header.

A header is given by its bytes; a word has its low byte first. The link counts of the accessor are
left out. A result that is `none` is a failed assertion.
-/

import Minix.Inet.WellFormedHeader

namespace Minix.Inet

open OnesComplement (Same)

/-! ### The model -/

/-- `ETIMEDOUT` -/
def etimedout : Int := -61

/-- The word at an offset. -/
def getU16 (data : List UInt8) (i : Nat) : UInt16 :=
  (word (data.getD i 0) (data.getD (i + 1) 0)).toUInt16

/-- Write the word at an offset. -/
def setU16 (data : List UInt8) (i : Nat) (w : UInt16) : List UInt8 :=
  (data.set i w.toUInt8).set (i + 1) (w >>> 8).toUInt8

/-- `ip_hdr_chksum` on the bytes of a header. -/
def ipHdrChksum (address : Nat) (ipHdr : List UInt8) : List UInt8 :=
  let ipHdr := setU16 ipHdr 10 0
  setU16 ipHdr 10 (~~~oneCSum 0 address ipHdr)

/-- Take a word out of a sum, with the borrow. -/
def dropWord (sum word : UInt32) : UInt32 :=
  if sum < word then sum + (0xffff - word) else sum - word

/-- Add a word to a sum, with the carry. -/
def addWord (sum word : UInt32) : UInt32 :=
  if 0xffff < sum + word then sum + word - 0xffff else sum + word

/-- `ipeth_update_ttl` on the header of the packet. -/
def ipethUpdateTtl (enqTime now : Nat) (ipHdr : List UInt8) : Option (Except Int (List UInt8)) :=
  let ttlDiff := (now - enqTime) / hz
  let enqTime := enqTime + ttlDiff * hz
  if ¬(enqTime ≤ now ∧ now < enqTime + hz) ∨ ipHdr.length < 20 then none
  else if (ipHdr.getD 8 0).toNat ≤ ttlDiff then some (.error etimedout)
  else
    let sum := dropWord (~~~getU16 ipHdr 10).toUInt32 (getU16 ipHdr 8).toUInt32
    let ipHdr := ipHdr.set 8 (ipHdr.getD 8 0 - UInt8.ofNat ttlDiff)
    let sum := addWord sum (getU16 ipHdr 8).toUInt32
    if sum &&& 0xffff0000 ≠ 0 then none
    else
      let ipHdr := setU16 ipHdr 10 (~~~sum.toUInt16)
      if ipHdr.getD 8 0 = 0 then none else some (.ok ipHdr)

/-! ### Words -/

theorem toNat_dropWord {sum word : UInt32} (small : sum.toNat ≤ 65535) (small' : word.toNat ≤ 65535) :
    (dropWord sum word).toNat =
      if sum.toNat < word.toNat then sum.toNat + (65535 - word.toNat) else sum.toNat - word.toNat := by
  unfold dropWord
  by_cases below : sum < word
  · have borrow : (0xffff - word : UInt32).toNat = 65535 - word.toNat :=
      UInt32.toNat_sub_of_le _ _ (UInt32.le_iff_toNat_le.mpr small')
    rw [if_pos below, if_pos (UInt32.lt_iff_toNat_lt.mp below), UInt32.toNat_add, borrow]
    omega
  · have above : word ≤ sum := UInt32.not_lt.mp below
    rw [if_neg below, if_neg fun wrong => below (UInt32.lt_iff_toNat_lt.mpr wrong)]
    exact UInt32.toNat_sub_of_le _ _ above

theorem toNat_addWord {sum word : UInt32} (small : sum.toNat ≤ 65535) (small' : word.toNat ≤ 65535) :
    (addWord sum word).toNat =
      if 65535 < sum.toNat + word.toNat then sum.toNat + word.toNat - 65535
      else sum.toNat + word.toNat := by
  have total : (sum + word).toNat = sum.toNat + word.toNat := by
    rw [UInt32.toNat_add]
    omega
  unfold addWord
  by_cases above : 0xffff < sum + word
  · have above' : 65535 < sum.toNat + word.toNat := by
      rw [← total]
      exact UInt32.lt_iff_toNat_lt.mp above
    rw [if_pos above, if_pos above', UInt32.toNat_sub_of_le _ _ (UInt32.le_of_lt above), total]
    rfl
  · have below : ¬ 65535 < sum.toNat + word.toNat := by
      rw [← total]
      exact fun wrong => above (UInt32.lt_iff_toNat_lt.mpr wrong)
    rw [if_neg above, if_neg below, total]

/-- One step of ageing: the sum without the old word and with the new one. -/
theorem toNat_aged {sum old new : UInt32} (small : sum.toNat ≤ 65535) (small' : old.toNat ≤ 65535)
    (small'' : new.toNat ≤ 65535) (some : 0 < new.toNat) :
    (addWord (dropWord sum old) new).toNat ≤ 65535 ∧ 0 < (addWord (dropWord sum old) new).toNat ∧
      ((addWord (dropWord sum old) new).toNat + old.toNat) % 65535 =
        (sum.toNat + new.toNat) % 65535 := by
  have dropped := toNat_dropWord small small'
  have below : (dropWord sum old).toNat ≤ 65535 := by
    rw [dropped]
    split <;> omega
  rw [toNat_addWord below small'', dropped]
  split <;> split <;> omega

theorem toNat_getWord (first second : UInt8) :
    (word first second).toUInt16.toNat = first.toNat + 256 * second.toNat := by
  have small := first.toNat_lt
  have small' := second.toNat_lt
  rw [UInt32.toNat_toUInt16, toNat_word]
  omega

theorem toNat_low (w : UInt16) : w.toUInt8.toNat + 256 * (w >>> 8).toUInt8.toNat = w.toNat := by
  have small := w.toNat_lt
  rw [UInt16.toNat_toUInt8, UInt16.toNat_toUInt8, UInt16.toNat_shiftRight]
  change w.toNat % 256 + 256 * (w.toNat >>> 8 % 256) = w.toNat
  rw [Nat.shiftRight_eq_div_pow]
  omega

theorem toNat_complement (w : UInt16) : (~~~w).toNat = 65535 - w.toNat := by
  rw [UInt16.toNat_not]
  rfl

/-! ### Headers -/

section Headers

variable {a b c d e f g h ttl proto low high : UInt8} {rest : List UInt8} {address : Nat}

/-- A header of at least 20 bytes, with its time to live, its protocol and its checksum. -/
theorem exists_fields {ipHdr : List UInt8} (complete : 20 ≤ ipHdr.length) :
    ∃ a b c d e f g h ttl proto low high rest,
      ipHdr = a :: b :: c :: d :: e :: f :: g :: h :: ttl :: proto :: low :: high :: rest := by
  match ipHdr with
  | a :: b :: c :: d :: e :: f :: g :: h :: ttl :: proto :: low :: high :: rest =>
    exact ⟨a, b, c, d, e, f, g, h, ttl, proto, low, high, rest, rfl⟩

/-- The sum of the words of a header, with the two words that ageing changes. -/
theorem wordSum_fields :
    wordSum (a :: b :: c :: d :: e :: f :: g :: h :: ttl :: proto :: low :: high :: rest) =
      (wordSum [a, b, c, d, e, f, g, h] + wordSum rest) + (ttl.toNat + 256 * proto.toNat) +
        (low.toNat + 256 * high.toNat) := by
  simp only [wordSum]
  omega

/-- The checksum that `ip_hdr_chksum` writes is the only one with this sum, and the header with it
verifies. -/
theorem ipHdrChksum_unique (short : rest.length ≤ 48) (even : rest.length % 2 = 0) {chk : UInt16}
    (same : Same 256 (~~~chk).toNat
      ((wordSum [a, b, c, d, e, f, g, h] + wordSum rest) + (ttl.toNat + 256 * proto.toNat))) :
    ipHdrChksum address
        (a :: b :: c :: d :: e :: f :: g :: h :: ttl :: proto :: low :: high :: rest) =
      a :: b :: c :: d :: e :: f :: g :: h :: ttl :: proto :: chk.toUInt8 :: (chk >>> 8).toUInt8 ::
        rest := by
  have length : (a :: b :: c :: d :: e :: f :: g :: h :: ttl :: proto :: 0 :: 0 :: rest).length =
      rest.length + 12 := rfl
  have computed := @same_oneCSum 0 address
    (a :: b :: c :: d :: e :: f :: g :: h :: ttl :: proto :: 0 :: 0 :: rest) (by omega)
  rw [UInt16.toNat_zero, Nat.zero_add, ← wordSum_eq (by omega), wordSum_fields] at computed
  have equal : oneCSum 0 address
      (a :: b :: c :: d :: e :: f :: g :: h :: ttl :: proto :: 0 :: 0 :: rest) = ~~~chk :=
    checksum_unique computed same
  change a :: b :: c :: d :: e :: f :: g :: h :: ttl :: proto ::
    (~~~oneCSum 0 address
      (a :: b :: c :: d :: e :: f :: g :: h :: ttl :: proto :: 0 :: 0 :: rest)).toUInt8 ::
    (~~~oneCSum 0 address
      (a :: b :: c :: d :: e :: f :: g :: h :: ttl :: proto :: 0 :: 0 :: rest) >>> 8).toUInt8 ::
    rest = _
  rw [equal, UInt16.not_not]

/-- One step of ageing on the fields of a header: the sum that replaces the checksum stands for the
words of the new header. -/
theorem same_aged {sum total old new field : Nat} (small : sum ≤ 65535) (pos : 0 < sum)
    (some : 0 < new) (good : (total + old + field) % 65535 = 0) (chk : field ≤ 65535)
    (adjusted : (sum + old) % 65535 = (65535 - field + new) % 65535) :
    Same 256 sum (total + new) := by
  refine ⟨?_, ⟨fun zero => ?_, fun zero => ?_⟩⟩
  · change sum % 65535 = (total + new) % 65535
    omega
  · omega
  · omega

end Headers

/-- `ipeth_update_ttl` lowers the time to live by the time that the packet has waited, changes
nothing else but the checksum, and that becomes the one that `ip_hdr_chksum` computes afresh. -/
theorem updateTtl_checksum {address enqTime now : Nat} {ipHdr : List UInt8}
    (complete : 20 ≤ ipHdr.length) (whole : hdrLen ipHdr = ipHdr.length)
    (good : oneCSum 0 address ipHdr = 0xffff) (order : enqTime ≤ now)
    (alive : (now - enqTime) / hz < (ipHdr.getD 8 0).toNat) :
    ∃ aged, ipethUpdateTtl enqTime now ipHdr = some (.ok aged) ∧
      aged.length = ipHdr.length ∧
      (aged.getD 8 0).toNat = (ipHdr.getD 8 0).toNat - (now - enqTime) / hz ∧
      (∀ i, i ≠ 8 → i ≠ 10 → i ≠ 11 → aged.getD i 0 = ipHdr.getD i 0) ∧
      aged = ipHdrChksum address aged ∧ oneCSum 0 address aged = 0xffff := by
  have short := hdrLen_le ipHdr
  have even : ipHdr.length % 2 = 0 := by
    rw [← whole]
    unfold hdrLen
    omega
  rw [whole] at short
  rw [oneCSum_ones short even] at good
  obtain ⟨a, b, c, d, e, f, g, h, ttl, proto, low, high, rest, rfl⟩ := exists_fields complete
  have length : (a :: b :: c :: d :: e :: f :: g :: h :: ttl :: proto :: low :: high :: rest).length =
      rest.length + 12 := rfl
  rw [wordSum_fields] at good
  change (now - enqTime) / hz < ttl.toNat at alive
  have bound := ttl.toNat_lt
  have lowered : (ttl - UInt8.ofNat ((now - enqTime) / hz)).toNat =
      ttl.toNat - (now - enqTime) / hz := by
    have diff : (UInt8.ofNat ((now - enqTime) / hz)).toNat = (now - enqTime) / hz :=
      UInt8.toNat_ofNat_of_lt' (by change (now - enqTime) / hz < 256; omega)
    rw [UInt8.toNat_sub_of_le _ _ (by rw [UInt8.le_iff_toNat_le, diff]; omega), diff]
  generalize sets : ttl - UInt8.ofNat ((now - enqTime) / hz) = ttl' at lowered
  -- the words of the two headers that differ
  have field := toNat_complement (word low high).toUInt16
  rw [toNat_getWord] at field
  have old := toNat_getWord ttl proto
  have new := toNat_getWord ttl' proto
  have reduced := ttl'.toNat_lt
  have lowest := low.toNat_lt
  have highest := high.toNat_lt
  have protocol := proto.toNat_lt
  obtain ⟨small, pos, adjusted⟩ := @toNat_aged (~~~(word low high).toUInt16).toUInt32
    (word ttl proto).toUInt16.toUInt32
    (word ttl' proto).toUInt16.toUInt32
    (by rw [UInt16.toNat_toUInt32, field]; omega) (by rw [UInt16.toNat_toUInt32, old]; omega)
    (by rw [UInt16.toNat_toUInt32, new]; omega) (by rw [UInt16.toNat_toUInt32, new]; omega)
  rw [UInt16.toNat_toUInt32, UInt16.toNat_toUInt32, UInt16.toNat_toUInt32, field, old, new]
    at adjusted
  have step : ipethUpdateTtl enqTime now
      (a :: b :: c :: d :: e :: f :: g :: h :: ttl :: proto :: low :: high :: rest) =
      let sum := addWord (dropWord (~~~(word low high).toUInt16).toUInt32
        (word ttl proto).toUInt16.toUInt32)
        (word ttl' proto).toUInt16.toUInt32
      if sum &&& 0xffff0000 ≠ 0 then none
      else if ttl' = 0 then none
      else some (.ok (a :: b :: c :: d :: e :: f :: g :: h ::
        ttl' :: proto :: (~~~sum.toUInt16).toUInt8 ::
        (~~~sum.toUInt16 >>> 8).toUInt8 :: rest)) := by
    have inTime : enqTime + (now - enqTime) / hz * hz ≤ now ∧
        now < enqTime + (now - enqTime) / hz * hz + hz := by
      unfold hz
      omega
    unfold ipethUpdateTtl
    rw [if_neg (not_or.mpr ⟨not_not.mpr inTime, by omega⟩)]
    rw [← sets]
    exact if_neg (Nat.not_le.mpr alive)
  generalize addWord (dropWord (~~~(word low high).toUInt16).toUInt32
    (word ttl proto).toUInt16.toUInt32)
    (word ttl' proto).toUInt16.toUInt32 = sum
    at small pos adjusted step
  have fits : sum &&& 0xffff0000 = 0 := by
    rw [← UInt32.toNat_inj, UInt32.toNat_and]
    change sum.toNat &&& 0xffff0000 = 0
    have low : sum.toNat &&& 2 ^ 16 - 1 = sum.toNat := by
      rw [Nat.and_two_pow_sub_one_eq_mod, Nat.mod_eq_of_lt (by omega)]
    rw [← low, Nat.and_assoc]
    exact Nat.and_zero _
  have some : ttl' ≠ 0 := by
    rintro rfl
    rw [UInt8.toNat_zero] at lowered
    omega
  rw [if_neg (not_not.mpr fits), if_neg some] at step
  have alike := same_aged small pos (by omega) good.1 (by omega) adjusted
  have kept : (~~~~~~sum.toUInt16).toNat = sum.toNat := by
    rw [UInt16.not_not, UInt32.toNat_toUInt16, Nat.mod_eq_of_lt (by omega)]
  rw [← kept] at alike
  have fresh : ipHdrChksum address (a :: b :: c :: d :: e :: f :: g :: h :: ttl' :: proto ::
      (~~~sum.toUInt16).toUInt8 :: (~~~sum.toUInt16 >>> 8).toUInt8 :: rest) = _ :=
    ipHdrChksum_unique (by omega) (by omega) alike
  refine ⟨_, step, rfl, lowered, fun i first second third => ?_, fresh.symm, ?_⟩
  · change ((((a :: b :: c :: d :: e :: f :: g :: h :: ttl :: proto :: low :: high :: rest).set 8
      ttl').set 10 (~~~sum.toUInt16).toUInt8).set 11 (~~~sum.toUInt16 >>> 8).toUInt8).getD i 0 = _
    rw [List.getD_eq_getElem?_getD, List.getD_eq_getElem?_getD, List.getElem?_set_ne third.symm,
      List.getElem?_set_ne second.symm, List.getElem?_set_ne first.symm]
  · rw [length] at short even
    refine (@oneCSum_ones (a :: b :: c :: d :: e :: f :: g :: h :: ttl' :: proto ::
      (~~~sum.toUInt16).toUInt8 :: (~~~sum.toUInt16 >>> 8).toUInt8 :: rest) address short
      even).mpr ?_
    rw [UInt16.not_not] at kept
    have written := toNat_low (~~~sum.toUInt16)
    rw [toNat_complement, kept] at written
    have words := alike.1
    rw [UInt16.not_not, kept] at words
    rw [wordSum_fields, written]
    change sum.toNat % 65535 = _ % 65535 at words
    change _ % 65535 = 0 % 65535 ∧ _
    omega

/-- A header of 24 bytes that has waited for two seconds. -/
theorem waited_checksum : ∃ aged,
    ipethUpdateTtl 60 180 [0x46, 0, 0, 24, 0, 0, 0, 0, 64, 1, 0x63, 0xe2, 10, 0, 0, 1, 10, 0, 0, 2,
      1, 1, 1, 0] = some (.ok aged) ∧ aged.getD 8 0 = 62 ∧ oneCSum 0 0 aged = 0xffff := by
  obtain ⟨aged, result, -, lowered, -, -, verifies⟩ := @updateTtl_checksum 0 60 180
    [0x46, 0, 0, 24, 0, 0, 0, 0, 64, 1, 0x63, 0xe2, 10, 0, 0, 1, 10, 0, 0, 2, 1, 1, 1, 0]
    (by decide) (by decide) (by decide) (by decide) (by decide)
  exact ⟨aged, result, UInt8.toNat_inj.mp lowered, verifies⟩

end Minix.Inet
