/-
This file proves what the writing of one entry does to an indirect block, and what `alloc_zone` does
to the map of the zones.
-/

import Minix.Disk.ZoneMap
import Minix.Disk.Hints

namespace Minix.Disk

open Function (update)

/-! ### Words in blocks -/

theorem word_of_bytes (w : UInt16) :
    w.toUInt8.toUInt16 ||| (w >>> 8).toUInt8.toUInt16 <<< 8 = w := by
  refine UInt16.toBitVec_inj.mp (BitVec.eq_of_getLsbD_eq fun i small => ?_)
  rw [UInt16.toBitVec_or, UInt16.toBitVec_shiftLeft]
  simp only [UInt8.toBitVec_toUInt16, UInt16.toBitVec_toUInt8, BitVec.getLsbD_or,
    BitVec.getLsbD_setWidth, UInt16.toBitVec_shiftRight]
  simp
  grind

theorem long_of_words (x : UInt32) :
    x.toUInt16.toUInt32 ||| (x >>> 16).toUInt16.toUInt32 <<< 16 = x := by
  refine UInt32.toBitVec_inj.mp (BitVec.eq_of_getLsbD_eq fun i small => ?_)
  rw [UInt32.toBitVec_or, UInt32.toBitVec_shiftLeft]
  simp only [UInt16.toBitVec_toUInt32, UInt32.toBitVec_toUInt16, BitVec.getLsbD_or,
    BitVec.getLsbD_setWidth, UInt32.toBitVec_shiftRight]
  simp
  grind

theorem low_word (high low : UInt16) : (high.toUInt32 <<< 16 ||| low.toUInt32).toUInt16 = low := by
  apply UInt16.toBitVec_inj.mp
  ext i small
  simp

theorem high_word (high low : UInt16) :
    ((high.toUInt32 <<< 16 ||| low.toUInt32) >>> 16).toUInt16 = high := by
  apply UInt16.toBitVec_inj.mp
  ext i small
  simp
  grind

@[simp] theorem conv4_conv4 (norm : Bool) (x : UInt32) : conv4 norm (conv4 norm x) = x := by
  cases norm
  case true => rfl
  case false =>
    unfold conv4
    rw [if_neg Bool.false_ne_true, if_neg Bool.false_ne_true, low_word, high_word, conv2_conv2,
      conv2_conv2, UInt32.or_comm]
    exact long_of_words x

section Words

variable {b : Block} {o o' : Nat}

theorem word_setWord (w : UInt16) : (b.setWord o w).word o = w := by
  unfold Block.word Block.setWord
  rw [if_pos rfl, if_neg (by omega), if_pos rfl]
  exact word_of_bytes w

theorem word_setWord_other (w : UInt16) (apart : o' + 2 ≤ o ∨ o + 2 ≤ o') :
    (b.setWord o w).word o' = b.word o' := by
  unfold Block.word Block.setWord
  rw [if_neg (by omega), if_neg (by omega), if_neg (by omega), if_neg (by omega)]

theorem long_setLong (x : UInt32) : (b.setLong o x).long o = x := by
  unfold Block.long Block.setLong
  rw [word_setWord, word_setWord_other _ (by omega), word_setWord]
  exact long_of_words x

theorem long_setLong_other (x : UInt32) (apart : o' + 4 ≤ o ∨ o + 4 ≤ o') :
    (b.setLong o x).long o' = b.long o' := by
  unfold Block.long Block.setLong
  rw [word_setWord_other _ (by omega), word_setWord_other _ (by omega),
    word_setWord_other _ (by omega), word_setWord_other _ (by omega)]

end Words

/-! ### Entries of indirect blocks -/

/-- An entry of an indirect block, as it is there. -/
def rawEntry (sp : Super) (bp : Block) (index : UInt32) : Option UInt32 :=
  match sp.version with
  | .v1 => (bp.v1Ind index).map fun zone => (conv2 sp.native zone).toUInt32
  | .v2 => (bp.v2Ind index).map (conv4 sp.native)

/-- A zone where data may be. -/
def Super.HasZone (sp : Super) (z : UInt32) : Prop :=
  sp.disk.firstdatazone.toUInt32 ≤ z ∧ z < sp.disk.zones

section Entries

variable {sp : Super} {bp bp' : Block} {index other zone z : UInt32}

theorem rdIndir_eq_some : rdIndir sp bp index = some z ↔
    rawEntry sp bp index = some z ∧ (z = 0 ∨ sp.HasZone z) := by
  have legal : (!(z != 0 && (z < sp.disk.firstdatazone.toUInt32 || sp.disk.zones ≤ z))) = true ↔
      z = 0 ∨ sp.HasZone z := by
    unfold Super.HasZone
    simp only [Bool.not_eq_true', Bool.and_eq_false_iff, bne_eq_false_iff_eq, Bool.or_eq_false_iff,
      decide_eq_false_iff_not, UInt32.not_lt, UInt32.not_le]
  change (rawEntry sp bp index).filter _ = some z ↔ _
  rw [Option.filter_eq_some_iff, legal]

theorem wrIndir_isSome (small : index < sp.version.indirects) :
    ∃ bp', wrIndir sp bp index zone = some bp' := by
  unfold wrIndir
  cases version : sp.version <;> rw [version] at small
  · exact ⟨_, if_pos small⟩
  · exact ⟨_, if_pos small⟩

theorem rawEntry_wrIndir (fits : sp.version = .v1 → zone < 65536)
    (written : wrIndir sp bp index zone = some bp') : rawEntry sp bp' index = some zone := by
  unfold wrIndir at written
  unfold rawEntry
  cases version : sp.version <;> rw [version] at written <;> dsimp only at written ⊢
  · unfold Block.setV1Ind at written
    obtain ⟨small, rfl⟩ := Option.ite_some_none_eq_some.mp written
    unfold Block.v1Ind
    rw [if_pos small, word_setWord, Option.map_some, conv2_conv2]
    have narrow := fits version
    refine congrArg some (UInt32.toNat_inj.mp ?_)
    have bound : zone.toNat < 65536 := narrow
    simp only [UInt16.toNat_toUInt32, UInt32.toNat_toUInt16]
    omega
  · unfold Block.setV2Ind at written
    obtain ⟨small, rfl⟩ := Option.ite_some_none_eq_some.mp written
    unfold Block.v2Ind
    rw [if_pos small, long_setLong, Option.map_some, conv4_conv4]

theorem rawEntry_wrIndir_other (apart : other ≠ index)
    (written : wrIndir sp bp index zone = some bp') :
    rawEntry sp bp' other = rawEntry sp bp other := by
  have different : other.toNat ≠ index.toNat := fun same => apart (UInt32.toNat_inj.mp same)
  unfold wrIndir at written
  unfold rawEntry
  cases version : sp.version <;> rw [version] at written <;> dsimp only at written ⊢
  · unfold Block.setV1Ind at written
    obtain ⟨-, rfl⟩ := Option.ite_some_none_eq_some.mp written
    unfold Block.v1Ind
    rw [word_setWord_other _ (by omega)]
  · unfold Block.setV2Ind at written
    obtain ⟨-, rfl⟩ := Option.ite_some_none_eq_some.mp written
    unfold Block.v2Ind
    rw [long_setLong_other _ (by omega)]

theorem rdIndir_wrIndir (fits : sp.version = .v1 → zone < 65536)
    (legal : zone = 0 ∨ sp.HasZone zone) (written : wrIndir sp bp index zone = some bp') :
    rdIndir sp bp' index = some zone :=
  rdIndir_eq_some.mpr ⟨rawEntry_wrIndir fits written, legal⟩

theorem rdIndir_wrIndir_other (apart : other ≠ index)
    (written : wrIndir sp bp index zone = some bp') :
    rdIndir sp bp' other = rdIndir sp bp other := by
  change (rawEntry sp bp' other).filter _ = (rawEntry sp bp other).filter _
  rw [rawEntry_wrIndir_other apart written]

theorem rdIndir_behind (large : sp.version.indirects ≤ index) : rdIndir sp bp index = none := by
  have behind := UInt32.not_lt.mpr large
  unfold rdIndir Block.v1Ind Block.v2Ind
  cases version : sp.version <;> rw [version] at behind <;> dsimp only <;> rw [if_neg behind] <;> rfl

theorem rdIndir_zeroBlock (small : index < sp.version.indirects) :
    rdIndir sp zeroBlock index = some 0 := by
  refine rdIndir_eq_some.mpr ⟨?_, .inl rfl⟩
  have word (offset : Nat) : zeroBlock.word offset = 0 :=
    show (0 : UInt8).toUInt16 ||| (0 : UInt8).toUInt16 <<< 8 = 0 by decide
  have long (offset : Nat) : zeroBlock.long offset = 0 := by
    rw [Block.long, word, word]
    decide
  unfold rawEntry
  cases version : sp.version <;> rw [version] at small <;> dsimp only
  · unfold Block.v1Ind
    rw [if_pos small, word]
    cases sp.native <;> rfl
  · unfold Block.v2Ind
    rw [if_pos small, long]
    cases sp.native <;> rfl

end Entries

/-! ### Zones -/

/-- The zones are numbered from a positive number on, and their blocks have 32-bit numbers. -/
structure Super.Sized (sp : Super) : Prop where
  first : 0 < sp.disk.firstdatazone.toUInt32.toNat
  ordered : sp.disk.firstdatazone.toUInt32 ≤ sp.disk.zones
  scale : sp.scale ≤ 4
  blocks : sp.disk.zones.toNat * 2 ^ sp.scale.toNat ≤ 2 ^ 32
  narrow : sp.version = .v1 → sp.disk.zones.toNat ≤ 65536

/-- The zone is marked in use. -/
def Mounted.used (fs : Mounted) (z : UInt32) : Bool := fs.sp.bit .zmap fs.chunks (fs.sp.zoneBit z)

section Zones

variable {fs fs' : Mounted} {sp : Super} {z other near : UInt32}

theorem Super.HasZone.pos (has : sp.HasZone z) (sized : sp.Sized) : z ≠ 0 := by
  rintro rfl
  have above := UInt32.le_iff_toNat_le.mp has.1
  have first := sized.first
  have zero : (0 : UInt32).toNat = 0 := rfl
  omega

theorem toNat_zoneBit (sized : sp.Sized) (above : sp.disk.firstdatazone.toUInt32 ≤ z) :
    sp.zoneBit z + sp.disk.firstdatazone.toUInt32.toNat = z.toNat + 1 := by
  have first := sized.first
  have one : (1 : UInt32).toNat = 1 := rfl
  have above := UInt32.le_iff_toNat_le.mp above
  have before := UInt32.toNat_sub_of_le sp.disk.firstdatazone.toUInt32 1
    (UInt32.le_iff_toNat_le.mpr (by omega))
  rw [Super.zoneBit, UInt32.toNat_sub_of_le _ _ (UInt32.le_iff_toNat_le.mpr (by omega))]
  omega

theorem zoneBit_injective (sized : sp.Sized) (has : sp.HasZone z) (has' : sp.HasZone other)
    (same : sp.zoneBit other = sp.zoneBit z) : other = z := by
  have here := toNat_zoneBit sized has.1
  have there := toNat_zoneBit sized has'.1
  exact UInt32.toNat_inj.mp (by omega)

theorem zone_of_bit (sized : sp.Sized) {b : Nat} (pos : b ≠ 0) (below : b < sp.mapBits .zmap)
    (zone : z = sp.disk.firstdatazone.toUInt32 - 1 + .ofNat b) :
    sp.HasZone z ∧ sp.zoneBit z = b := by
  have last : sp.mapBits .zmap + sp.disk.firstdatazone.toUInt32.toNat = sp.disk.zones.toNat + 1 :=
    toNat_zoneBit sized sized.ordered
  have first := sized.first
  have small := sp.disk.zones.toNat_lt
  have one : (1 : UInt32).toNat = 1 := rfl
  have before := UInt32.toNat_sub_of_le sp.disk.firstdatazone.toUInt32 1
    (UInt32.le_iff_toNat_le.mpr (by omega))
  have value : z.toNat + 1 = sp.disk.firstdatazone.toUInt32.toNat + b := by
    rw [zone, UInt32.toNat_add, before, UInt32.toNat_ofNat']
    omega
  have has : sp.HasZone z :=
    ⟨UInt32.le_iff_toNat_le.mpr (by omega), UInt32.lt_iff_toNat_lt.mpr (by omega)⟩
  have bit := toNat_zoneBit sized has.1
  exact ⟨has, by omega⟩

/-- How many zones are free. -/
def Mounted.freeZones (fs : Mounted) : Nat :=
  {b ∈ Finset.range (fs.sp.mapBits .zmap) | fs.sp.bit .zmap fs.chunks b = false}.card

/-- The zone is in use after the call, and was not before. -/
structure Mounted.TakesZone (fs fs' : Mounted) (z : UInt32) : Prop where
  has : fs.sp.HasZone z
  free : fs.used z = false
  taken : fs'.used z = true
  others : ∀ other, fs.sp.HasZone other → other ≠ z → fs'.used other = fs.used other
  fewer : fs.freeZones = fs'.freeZones + 1

/-- The parts of a mounted file system that allocation leaves. -/
structure Mounted.Same (fs fs' : Mounted) : Prop where
  sp : fs'.sp = fs.sp
  rdOnly : fs'.rdOnly = fs.rdOnly
  wellFormed : fs'.WellFormed

theorem Mounted.Changed.free_erase {b : Nat} {chunks : Chunks}
    (changed : fs.Changed .zmap b true chunks) :
    {c ∈ Finset.range (fs.sp.mapBits .zmap) | fs.sp.bit .zmap chunks c = false} =
      {c ∈ Finset.range (fs.sp.mapBits .zmap) | fs.sp.bit .zmap fs.chunks c = false}.erase b := by
  ext c
  rw [Finset.mem_erase, Finset.mem_filter, Finset.mem_filter]
  by_cases same : c = b
  · simp [same, changed.bit]
  · simp [same, changed.bits c same]

/-- `alloc_zone` fails when no zone is free, and changes nothing; else it takes a zone. -/
theorem allocZone_takes (sized : fs.sp.Sized) (wellFormed : fs.WellFormed)
    (writable : fs.rdOnly = false) (near : UInt32) :
    ∃ fs' z, allocZone fs near = some (fs', z) ∧ fs.Same fs' ∧
      (z = 0 ∧ fs' = fs ∧ fs.freeZones = 0 ∨ fs.TakesZone fs' z) := by
  rcases allocBit_cases .zmap (if near = fs.sp.disk.firstdatazone.toUInt32 then fs.zsearch
      else fs.sp.zoneBit near) writable wellFormed with
    ⟨failed, full⟩ | ⟨b, chunks, found, pos, taken, -⟩
  · refine ⟨fs, 0, ?_, ⟨rfl, rfl, wellFormed⟩, .inl ⟨rfl, rfl, ?_⟩⟩
    · rw [allocZone, failed]
      rfl
    · refine Finset.card_eq_zero.mpr (Finset.filter_eq_empty_iff.mpr fun b below clear => ?_)
      exact Set.eq_empty_iff_forall_notMem.mp full b ⟨Finset.mem_range.mp below, clear⟩
  · obtain ⟨has, bit⟩ := zone_of_bit sized pos taken.member.1 rfl
    have allocated : allocZone fs near = some ({ fs with
        chunks := chunks
        zsearch := if near = fs.sp.disk.firstdatazone.toUInt32 then b else fs.zsearch },
        fs.sp.disk.firstdatazone.toUInt32 - 1 + .ofNat b) := by
      rw [allocZone, found]
      dsimp only [Option.bind_eq_bind, Option.bind_some]
      rw [if_neg pos]
      rfl
    have kept : Mounted.WellFormed { fs with
        chunks := chunks
        zsearch := if near = fs.sp.disk.firstdatazone.toUInt32 then b else fs.zsearch } :=
      wellFormed.change taken.changed (fun wrong => BitMap.noConfusion wrong)
        (fun wrong => Bool.noConfusion wrong) rfl rfl
    refine ⟨_, _, allocated, ⟨rfl, rfl, kept⟩, .inr ⟨has, ?_, ?_, fun other has' apart => ?_, ?_⟩⟩
    · rw [Mounted.used, bit]
      exact taken.member.2
    · rw [Mounted.used]
      rw [bit]
      exact taken.changed.bit
    · refine taken.changed.bits _ fun same => apart ?_
      exact zoneBit_injective sized has has' (same.trans bit.symm)
    · have erased := taken.changed.free_erase
      have member : b ∈ {b ∈ Finset.range (fs.sp.mapBits .zmap) |
          fs.sp.bit .zmap fs.chunks b = false} :=
        Finset.mem_filter.mpr ⟨Finset.mem_range.mpr taken.member.1, taken.member.2⟩
      rw [Mounted.freeZones, Mounted.freeZones, erased, Finset.card_erase_add_one member]

theorem freeZone_frees (sized : fs.sp.Sized) (writable : fs.rdOnly = false)
    (has : fs.sp.HasZone z) (used : fs.used z = true) :
    ∃ fs', freeZone fs z = some fs' ∧ fs'.sp = fs.sp ∧ fs'.used z = false ∧
      ∀ other, fs.sp.HasZone other → other ≠ z → fs'.used other = fs.used other := by
  have inside : ¬ (z < fs.sp.disk.firstdatazone.toUInt32 ∨ fs.sp.disk.zones ≤ z) :=
    not_or.mpr ⟨UInt32.not_lt.mpr has.1, UInt32.not_le.mpr has.2⟩
  obtain ⟨chunks, freed⟩ : ∃ chunks, freeBit fs .zmap (fs.sp.zoneBit z) = some chunks := by
    rw [freeBit, if_neg (Bool.eq_false_iff.mp writable)]
    exact ⟨_, if_pos used⟩
  have changed := (freeBit_eq_some freed).2.2
  have returned : freeZone fs z = some { fs with
      chunks := chunks
      zsearch := if fs.sp.zoneBit z < fs.zsearch then fs.sp.zoneBit z else fs.zsearch } := by
    rw [freeZone, if_neg inside]
    dsimp only
    rw [freed]
    rfl
  refine ⟨_, returned, rfl, changed.bit, fun other has' apart => changed.bits _ fun same =>
    apart ?_⟩
  exact zoneBit_injective sized has has' same

end Zones

end Minix.Disk
