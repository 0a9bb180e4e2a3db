/-
This file compares the boot monitor, which finds the blocks of a file with `r_vir2abs`, with the
file server, which finds them with `read_map`.

The two agree on every block but one kind. In a zone that has no disk space the boot monitor adds
the index of the block in the zone to the zone number 0 without a test, and so reports a block of
the boot area for all blocks of the zone but the first. `vir2abs_finds_blocks` says that this is
the only difference, whatever the buffers for indirect blocks hold after earlier calls.
-/

import Minix.Disk.RawFs

namespace Minix.Disk

open Option (some.inj bind_eq_some_iff)

/-! ### File systems -/

/-- A file system that the file server mounts. Block numbers have 32 bits, and the zones of the
indirect blocks are zones of the device. -/
structure FileSystem where
  dev : Device
  sp : Super
  mounted : readSuper dev = some sp
  fits : sp.disk.zones.toNat * 2 ^ sp.scale.toNat ≤ 2 ^ 32
  indirects : ∀ num, (rwInode dev sp num).zone sp.version.nrDzones.toNat < sp.disk.zones ∧
    (rwInode dev sp num).zone (sp.version.nrDzones.toNat + 1) < sp.disk.zones

namespace FileSystem

variable (fs : FileSystem)

/-- The inode with a number, as the file server reads it. -/
def inode (num : UInt16) : Inode := rwInode fs.dev fs.sp num

/-- An entry of the indirect block in a zone. There is none without the zone. -/
def entry (z index : UInt32) : Option UInt32 :=
  if z = 0 then none else rdIndir fs.sp (fs.dev (z <<< fs.sp.scale)) index

/-- The zone number of a zone of a file, in the inode or in an indirect block. There is none if
the indirect block that would hold it does not exist. -/
def zoneNumber (rip : Inode) (zone : UInt32) : Option UInt32 :=
  let dzones := fs.sp.version.nrDzones
  let nrIndirects := fs.sp.version.indirects
  if zone < dzones then some (rip.zone zone.toNat)
  else if zone - dzones < nrIndirects then fs.entry (rip.zone dzones.toNat) (zone - dzones)
  else
    let excess := zone - dzones - nrIndirects
    (fs.entry (rip.zone (dzones.toNat + 1)) (excess / nrIndirects)).bind fun z =>
      fs.entry z (excess % nrIndirects)

/-- The index of a block in its zone. -/
def boff (virblk : UInt32) : UInt32 := virblk - (virblk >>> fs.sp.scale) <<< fs.sp.scale

/-- A block whose zone number is 0 and that is not the first block of its zone. -/
def InsideHole (num : UInt16) (virblk : UInt32) : Prop :=
  fs.zoneNumber (fs.inode num) (virblk >>> fs.sp.scale) = some 0 ∧
    virblk.toNat % 2 ^ fs.sp.scale.toNat ≠ 0

variable {fs}

theorem scale_le : fs.sp.scale ≤ 4 := (readSuper_eq_some fs.mounted).2.2

theorem scale_mod : fs.sp.scale.toNat % 32 = fs.sp.scale.toNat :=
  Nat.mod_eq_of_lt (Nat.lt_of_le_of_lt (UInt32.le_iff_toNat_le.mp scale_le) (by decide))

theorem address_ne_zero {z : UInt32} (used : z ≠ 0) (inside : z < fs.sp.disk.zones) :
    z <<< fs.sp.scale ≠ 0 := by
  have below : z.toNat * 2 ^ fs.sp.scale.toNat < 2 ^ 32 :=
    Nat.lt_of_lt_of_le (Nat.mul_lt_mul_of_pos_right (UInt32.lt_iff_toNat_lt.mp inside)
      (Nat.two_pow_pos _)) fs.fits
  have positive : 0 < z.toNat := Nat.pos_of_ne_zero fun zero => used (UInt32.toNat_inj.mp zero)
  intro zero
  have value := congrArg UInt32.toNat zero
  rw [UInt32.toNat_shiftLeft, scale_mod, Nat.shiftLeft_eq, Nat.mod_eq_of_lt below] at value
  exact absurd value (Nat.ne_of_gt (Nat.mul_pos positive (Nat.two_pow_pos _)))

theorem boff_eq_zero {virblk : UInt32} :
    fs.boff virblk = 0 ↔ virblk.toNat % 2 ^ fs.sp.scale.toNat = 0 := by
  have start : ((virblk >>> fs.sp.scale) <<< fs.sp.scale).toNat =
      virblk.toNat / 2 ^ fs.sp.scale.toNat * 2 ^ fs.sp.scale.toNat := by
    rw [UInt32.toNat_shiftLeft, UInt32.toNat_shiftRight, scale_mod, Nat.shiftLeft_eq,
      Nat.shiftRight_eq_div_pow]
    exact Nat.mod_eq_of_lt (Nat.lt_of_le_of_lt (Nat.div_mul_le_self _ _) virblk.toNat_lt)
  have split := Nat.div_add_mod' virblk.toNat (2 ^ fs.sp.scale.toNat)
  rw [boff, UInt32.sub_eq_iff_eq_add, UInt32.zero_add, ← UInt32.toNat_inj, start]
  omega

theorem inode_num (num : UInt16) : (fs.inode num).num = num := by
  unfold inode rwInode
  split <;> rfl

theorem rdIndir_lt {bp : Block} {index z : UInt32} (read : rdIndir fs.sp bp index = some z)
    (used : z ≠ 0) : z < fs.sp.disk.zones := by
  have legal := (Option.filter_eq_some_iff.mp read).2
  simp only [bne_iff_ne.mpr used, Bool.true_and, Bool.not_eq_true', Bool.or_eq_false_iff,
    decide_eq_false_iff_not] at legal
  exact UInt32.not_le.mp legal.2

theorem mapIndirect_eq {z excess boff b : UInt32}
    (mapped : mapIndirect fs.dev fs.sp z excess boff = some b) :
    (z = 0 ∧ b = 0) ∨ z ≠ 0 ∧ ∃ number, fs.entry z excess = some number ∧
      b = if number = 0 then 0 else number <<< fs.sp.scale + boff := by
  unfold mapIndirect at mapped
  split at mapped
  case isTrue missing => exact .inl ⟨missing, (some.inj mapped).symm⟩
  case isFalse used =>
    obtain ⟨number, read, found⟩ := bind_eq_some_iff.mp mapped
    refine .inr ⟨used, number, ?_, ?_⟩
    · rw [entry, if_neg used, read]
    · split at found
      case isTrue hole => rw [if_pos hole, some.inj found]
      case isFalse used => rw [if_neg used, some.inj found]

end FileSystem

/-! ### The boot monitor -/

/-- What holds of the variables of the boot monitor between calls: a file that it looks at is the
inode that the file server reads, and a buffer with an address holds that block. -/
structure RawFs.Reading (fs : FileSystem) (s : RawFs) : Prop where
  super : s.Recognized → s.super = (fs.dev superBlockNr).superBlock ∧
    s.nrDzones = fs.sp.version.nrDzones ∧ s.nrIndirects = fs.sp.version.indirects ∧
    s.inodesPerBlock = fs.sp.version.inodesPerBlock
  file : s.curfil.num ≠ 0 → s.Recognized ∧ s.curfil = fs.inode s.curfil.num
  indir : s.aIndir ≠ 0 → s.indir = fs.dev s.aIndir
  dindir : s.aDindir ≠ 0 → s.dindir = fs.dev s.aDindir

/-- What the magic number of a recognized file system says. -/
structure RawFs.Known (fs : FileSystem) (s : RawFs) : Prop where
  magic : s.super.magic = superV2 ↔ fs.sp.version = .v2
  native : fs.sp.native = true
  scale : s.zoneShift = fs.sp.scale
  imapBlocks : s.super.imapBlocks = fs.sp.disk.imapBlocks
  zmapBlocks : s.super.zmapBlocks = fs.sp.disk.zmapBlocks

namespace RawFs

variable {fs : FileSystem} {s s' : RawFs}

theorem known (recognized : s.Recognized) (super : s.super = (fs.dev superBlockNr).superBlock) :
    s.Known fs := by
  obtain ⟨magic, disk, -⟩ := readSuper_eq_some fs.mounted
  rw [← super] at magic disk
  have both : (s.super.magic = superV2 ↔ fs.sp.version = .v2) ∧ fs.sp.native = true := by
    rcases recognized with v2 | v1
    · rw [v2, show readMagic superV2 = some (.v2, true) from by decide] at magic
      have parts := Prod.mk.inj (some.inj magic)
      exact ⟨by simp [v2, ← parts.1], parts.2.symm⟩
    · rw [v1, show readMagic superMagic = some (.v1, true) from by decide] at magic
      have parts := Prod.mk.inj (some.inj magic)
      refine ⟨?_, parts.2.symm⟩
      rw [v1, ← parts.1]
      decide
  rw [both.2] at disk
  exact ⟨both.1, both.2, by rw [zoneShift, Super.scale, disk]; rfl, by rw [disk]; rfl,
    by rw [disk]; rfl⟩

theorem Known.entry (known : s.Known fs) {bp : Block} {index z : UInt32}
    (read : rdIndir fs.sp bp index = some z) : s.entry bp index = some z := by
  have found := (Option.filter_eq_some_iff.mp read).1
  rw [known.native] at found
  rw [RawFs.entry]
  cases version : fs.sp.version with
  | v1 =>
    have notV2 : s.super.magic ≠ superV2 := fun v2 => by simp [known.magic.mp v2] at version
    rw [if_neg notV2]
    simpa only [version, conv2_native] using found
  | v2 =>
    rw [if_pos (known.magic.mpr version)]
    simpa only [version, show conv4 true = id from rfl, Option.map_id_fun, id] using found

theorem inoOffset (x : UInt32) (version : Version) :
    (x % version.inodesPerBlock).toUInt16.toNat = (x % version.inodesPerBlock).toNat := by
  rw [UInt32.toNat_toUInt16, UInt32.toNat_mod]
  cases version <;>
    exact Nat.mod_eq_of_lt (Nat.lt_of_lt_of_le (Nat.mod_lt _ (by decide)) (by decide))

theorem rStat_curfil (reading : s.Reading fs) (recognized : s.Recognized) (inum : UInt16) :
    (s.rStat fs.dev inum).curfil = fs.inode inum := by
  obtain ⟨super, -, -, perBlock⟩ := reading.super recognized
  have known := known recognized super
  have where' : superBlockNr + 1 + promote s.super.imapBlocks + promote s.super.zmapBlocks +
      (inum.toUInt32 - 1) / s.inodesPerBlock = (inum.toUInt32 - 1) / fs.sp.inodesPerBlock +
        (promote fs.sp.disk.imapBlocks + promote fs.sp.disk.zmapBlocks + 2) := by
    rw [known.imapBlocks, known.zmapBlocks, perBlock, Super.inodesPerBlock, UInt32.add_comm]
    congr 1
    rw [UInt32.add_comm _ 2, ← UInt32.add_assoc]
    rfl
  have offset := inoOffset (inum.toUInt32 - 1) fs.sp.version
  rw [← perBlock] at offset
  simp only [rStat, FileSystem.inode, rwInode, where', known.native, offset]
  cases version : fs.sp.version with
  | v1 =>
    have notV2 : s.super.magic ≠ superV2 := fun v2 => by simp [known.magic.mp v2] at version
    rw [if_neg notV2, perBlock, version]
    rfl
  | v2 =>
    rw [if_pos (known.magic.mpr version), perBlock, version]
    rfl

theorem Reading.fetchIndir (reading : s.Reading fs) (z : UInt32) :
    (s.fetchIndir fs.dev z).Reading fs ∧
      (z ≠ 0 → (s.fetchIndir fs.dev z).indir = fs.dev z) := by
  unfold RawFs.fetchIndir
  split
  case isTrue same => exact ⟨reading, fun used => by rw [reading.indir (same ▸ used), same]⟩
  case isFalse => exact ⟨⟨reading.super, reading.file, fun _ => rfl, reading.dindir⟩, fun _ => rfl⟩

theorem Reading.fetchDindir (reading : s.Reading fs) (z : UInt32) :
    (s.fetchDindir fs.dev z).Reading fs ∧
      (z ≠ 0 → (s.fetchDindir fs.dev z).dindir = fs.dev z) := by
  unfold RawFs.fetchDindir
  split
  case isTrue same => exact ⟨reading, fun used => by rw [reading.dindir (same ▸ used), same]⟩
  case isFalse => exact ⟨⟨reading.super, reading.file, reading.indir, fun _ => rfl⟩, fun _ => rfl⟩

theorem Known.congr (known : s.Known fs) (super : s'.super = s.super) : s'.Known fs where
  magic := by rw [super]; exact known.magic
  native := known.native
  scale := by rw [zoneShift, super]; exact known.scale
  imapBlocks := by rw [super]; exact known.imapBlocks
  zmapBlocks := by rw [super]; exact known.zmapBlocks

section

variable (dev : Device) (z : UInt32)

theorem fetchIndir_super :
    (s.fetchIndir dev z).super = s.super := by
  unfold RawFs.fetchIndir; split <;> rfl

theorem fetchDindir_super :
    (s.fetchDindir dev z).super = s.super := by
  unfold RawFs.fetchDindir; split <;> rfl

theorem fetchDindir_nrIndirects :
    (s.fetchDindir dev z).nrIndirects = s.nrIndirects := by
  unfold RawFs.fetchDindir; split <;> rfl

end

theorem found_eq {scale number boff : UInt32} :
    (number <<< scale + boff = if number = 0 then 0 else number <<< scale + boff) ↔
      ¬ (number = 0 ∧ boff ≠ 0) := by
  split
  case isTrue hole => simp [hole]
  case isFalse used => simp [used]

section

variable (reading : s.Reading fs)
include reading

/-- The last part of the two searches. They differ only if the zone number is 0. -/
theorem Reading.singleIndirect (known : s.Known fs) {z excess boff b : UInt32}
    (inside : z ≠ 0 → z < fs.sp.disk.zones)
    (mapped : mapIndirect fs.dev fs.sp z excess boff = some b) :
    ∃ s' found, s.singleIndirect fs.dev z excess boff = some (s', found) ∧ s'.Reading fs ∧
      (found = b ↔ ¬ (fs.entry z excess = some 0 ∧ boff ≠ 0)) := by
  rcases FileSystem.mapIndirect_eq mapped with ⟨rfl, rfl⟩ | ⟨used, number, entry, rfl⟩
  · refine ⟨s, 0, if_pos rfl, reading, ?_⟩
    simp [FileSystem.entry]
  · have address := FileSystem.address_ne_zero used (inside used)
    obtain ⟨reading', buffer⟩ := reading.fetchIndir (z <<< fs.sp.scale)
    have read := entry
    rw [FileSystem.entry, if_neg used, ← buffer address] at read
    rw [RawFs.singleIndirect, if_neg used, known.scale]
    have known' := known.congr (fetchIndir_super fs.dev (z <<< fs.sp.scale))
    refine ⟨_, _, bind_eq_some_iff.mpr ⟨number, known'.entry read, rfl⟩, reading', ?_⟩
    rw [known'.scale, found_eq, entry, Option.some.injEq]

/-- The block that is found is right but inside a hole. -/
theorem Reading.rVir2abs (looks : s.curfil.num ≠ 0) {position b : UInt32}
    (below : position < (fs.inode s.curfil.num).size)
    (mapped : readMap fs.dev fs.sp (fs.inode s.curfil.num) position = some b) :
    ∃ s' found, s.rVir2abs fs.dev (position / 1024) = some (s', found) ∧ s'.Reading fs ∧
      (found = b ↔ ¬ fs.InsideHole s.curfil.num (position / 1024)) := by
  obtain ⟨recognized, file⟩ := reading.file looks
  obtain ⟨super, dzones, indirects, -⟩ := reading.super recognized
  have known := known recognized super
  have legal := fs.indirects s.curfil.num
  change (fs.inode _).zone _ < _ ∧ (fs.inode _).zone _ < _ at legal
  generalize s.curfil.num = num at *
  have start : ¬ (s.curfil.size ≤ position / 1024 * 1024) := by
    rw [UInt32.not_le, file]
    refine UInt32.lt_of_le_of_lt (UInt32.le_iff_toNat_le.mpr ?_) below
    rw [UInt32.toNat_mul, UInt32.toNat_div]
    exact Nat.le_trans (Nat.mod_le _ _) (Nat.div_mul_le_self _ _)
  rw [FileSystem.InsideHole, Ne, ← FileSystem.boff_eq_zero]
  rw [file] at start
  simp only [RawFs.rVir2abs, known.scale, dzones, indirects, file, fetchDindir_nrIndirects]
  rw [if_neg start]
  simp only [readMap] at mapped
  rw [FileSystem.zoneNumber]
  change ∃ s' found, _ = _ ∧ _ ∧ (_ ↔ ¬ (_ ∧ fs.boff (position / 1024) ≠ 0))
  generalize boffIs : fs.boff (position / 1024) = boff
  rw [FileSystem.boff] at boffIs
  rw [boffIs] at mapped ⊢
  generalize (position / 1024) >>> fs.sp.scale = zone at mapped ⊢
  by_cases direct : zone < fs.sp.version.nrDzones
  · -- The zone number is in the inode.
    simp only [if_pos direct] at mapped ⊢
    refine ⟨s, _, rfl, reading, ?_⟩
    have found : b = if (fs.inode num).zone zone.toNat = 0 then 0
        else (fs.inode num).zone zone.toNat <<< fs.sp.scale + boff := by
      split at mapped <;> rename_i hole
      · rw [if_pos hole, some.inj mapped]
      · rw [if_neg hole, some.inj mapped]
    rw [found, found_eq, Option.some.injEq]
  · simp only [if_neg direct] at mapped ⊢
    by_cases single : zone - fs.sp.version.nrDzones < fs.sp.version.indirects
    · simp only [if_pos single] at mapped ⊢
      exact reading.singleIndirect known (fun _ => legal.1) mapped
    · simp only [if_neg single] at mapped ⊢
      split at mapped
      case isTrue missing =>
        obtain rfl := some.inj mapped
        refine ⟨s, 0, if_pos missing, reading, ?_⟩
        simp [FileSystem.entry, missing]
      case isFalse used =>
        obtain ⟨z, read, rest⟩ := bind_eq_some_iff.mp mapped
        obtain ⟨reading', buffer⟩ := reading.fetchDindir
          ((fs.inode num).zone (fs.sp.version.nrDzones.toNat + 1) <<< fs.sp.scale)
        have known' := known.congr (fetchDindir_super fs.dev
          ((fs.inode num).zone (fs.sp.version.nrDzones.toNat + 1) <<< fs.sp.scale))
        rw [if_neg used]
        obtain ⟨s', found, finds, reading'', same⟩ := reading'.singleIndirect known'
          (fun used => FileSystem.rdIndir_lt read used) rest
        refine ⟨s', found, bind_eq_some_iff.mpr ⟨z, ?_, finds⟩, reading'', ?_⟩
        · rw [buffer (FileSystem.address_ne_zero used legal.2)]
          exact known'.entry read
        · have outer : fs.entry ((fs.inode num).zone (fs.sp.version.nrDzones.toNat + 1))
              ((zone - fs.sp.version.nrDzones - fs.sp.version.indirects) /
                fs.sp.version.indirects) = some z := by
            rw [FileSystem.entry, if_neg used, read]
          rw [same, outer, Option.bind_some]

theorem Reading.singleIndirect_keeps {z excess boff found : UInt32}
    (searched : s.singleIndirect fs.dev z excess boff = some (s', found)) : s'.Reading fs := by
  unfold RawFs.singleIndirect at searched
  split at searched
  case isTrue =>
    obtain ⟨rfl, -⟩ := Prod.mk.inj (some.inj searched)
    exact reading
  case isFalse =>
    obtain ⟨number, -, rest⟩ := bind_eq_some_iff.mp searched
    obtain ⟨rfl, -⟩ := Prod.mk.inj (some.inj rest)
    exact (reading.fetchIndir _).1

/-- Every search leaves the buffers right, whatever the block number and the file. -/
theorem Reading.rVir2abs_keeps {virblk found : UInt32}
    (searched : s.rVir2abs fs.dev virblk = some (s', found)) : s'.Reading fs := by
  simp only [RawFs.rVir2abs] at searched
  split at searched
  case isTrue =>
    obtain ⟨rfl, -⟩ := Prod.mk.inj (some.inj searched)
    exact reading
  split at searched
  case isTrue =>
    obtain ⟨rfl, -⟩ := Prod.mk.inj (some.inj searched)
    exact reading
  split at searched
  case isTrue => exact reading.singleIndirect_keeps searched
  split at searched
  case isTrue =>
    obtain ⟨rfl, -⟩ := Prod.mk.inj (some.inj searched)
    exact reading
  case isFalse =>
    obtain ⟨z, -, rest⟩ := bind_eq_some_iff.mp searched
    exact (reading.fetchDindir _).1.singleIndirect_keeps rest

theorem Reading.rSuper : (s.rSuper fs.dev).1.Reading fs := by
  have super : (s.rSuper fs.dev).1.super = (fs.dev superBlockNr).superBlock := by
    simp only [RawFs.rSuper]
    split
    · rfl
    · split <;> rfl
  have rest : (s.rSuper fs.dev).1.curfil = s.curfil ∧ (s.rSuper fs.dev).1.indir = s.indir ∧
      (s.rSuper fs.dev).1.dindir = s.dindir ∧ (s.rSuper fs.dev).1.aIndir = s.aIndir ∧
      (s.rSuper fs.dev).1.aDindir = s.aDindir := by
    simp only [RawFs.rSuper]
    split
    · exact ⟨rfl, rfl, rfl, rfl, rfl⟩
    · split <;> exact ⟨rfl, rfl, rfl, rfl, rfl⟩
  obtain ⟨curfil, indir, dindir, aIndir, aDindir⟩ := rest
  refine ⟨fun recognized => ⟨super, ?_⟩, fun looks => ?_, ?_, ?_⟩
  · -- The numbers belong to the version that the file server sees.
    have known := known recognized super
    rw [Recognized, super] at recognized
    have magic := known.magic
    rw [super] at magic
    simp only [RawFs.rSuper]
    by_cases v2 : (fs.dev superBlockNr).superBlock.magic = superV2
    · rw [if_pos v2, magic.mp v2]
      exact ⟨rfl, rfl, rfl⟩
    · have v1 : fs.sp.version = .v1 := by
        cases version : fs.sp.version with
        | v1 => rfl
        | v2 => exact absurd (magic.mpr version) v2
      rw [if_neg v2, if_pos (recognized.resolve_left v2), v1]
      exact ⟨rfl, rfl, rfl⟩
  · rw [curfil] at looks ⊢
    obtain ⟨recognized, file⟩ := reading.file looks
    refine ⟨?_, file⟩
    rw [Recognized, super, ← (reading.super recognized).1]
    exact recognized
  · rw [indir, aIndir]
    exact reading.indir
  · rw [dindir, aDindir]
    exact reading.dindir

/-- The step lemma: every call keeps the variables right. -/
theorem Reading.step {call : RawCall} (contract : RawContract s call)
    (stepped : rawStep fs.dev s call = some s') : s'.Reading fs := by
  cases call with
  | super =>
    obtain rfl := some.inj stepped
    exact reading.rSuper
  | stat inum =>
    obtain rfl := some.inj stepped
    obtain ⟨recognized, -⟩ := contract
    refine ⟨reading.super, fun _ => ⟨recognized, ?_⟩, fun zero => absurd rfl zero,
      fun zero => absurd rfl zero⟩
    rw [rStat_curfil reading recognized, FileSystem.inode_num]
  | vir2abs virblk =>
    obtain ⟨⟨after, found⟩, searched, rfl⟩ := Option.map_eq_some_iff.mp stepped
    exact reading.rVir2abs_keeps searched

end

end RawFs

theorem RawReaches.reading {fs : FileSystem} {calls : List RawCall} {s : RawFs}
    (run : RawReaches fs.dev calls s) : s.Reading fs :=
  Transition.Run.invariant
    ⟨fun recognized => absurd recognized (by decide), fun zero => absurd rfl zero,
      fun zero => absurd rfl zero, fun zero => absurd rfl zero⟩
    (fun _ _ _ reading contract stepped => reading.step contract stepped) run

/-- A V2 file system with zones of two blocks and one file of four blocks, the last two of which
are a hole. -/
def holeDev : Device := fun block i =>
  match block, i with
  | 1, 0 => 16
  | 1, 4 => 1
  | 1, 6 => 1
  | 1, 8 => 4
  | 1, 10 => 1
  | 1, 16 => 0x68
  | 1, 17 => 0x24
  | 1, 20 => 64
  | 4, 0 => 0xa4
  | 4, 1 => 0x81
  | 4, 2 => 1
  | 4, 9 => 16
  | 4, 24 => 8
  | _, _ => 0

theorem holeDev_eq_zero (block : UInt32) {i : Nat} (past : 24 < i) : holeDev block i = 0 := by
  unfold holeDev
  split <;> first | rfl | omega

/-- The file system on that device. -/
def holeFs : FileSystem where
  dev := holeDev
  sp := ⟨(holeDev superBlockNr).superBlock, .v2, true⟩
  mounted := by decide
  fits := by decide
  indirects num := by
    have zero : ∀ i, 0 < i → (rwInode holeDev ⟨(holeDev superBlockNr).superBlock, .v2, true⟩
        num).zone i = 0 := fun i positive => by
      simp only [rwInode, newIcopy, conv4_native, Block.v2Ino, Block.long, Block.word]
      rw [holeDev_eq_zero _ (by omega), holeDev_eq_zero _ (by omega),
        holeDev_eq_zero _ (by omega), holeDev_eq_zero _ (by omega)]
      rfl
    rw [zero _ (by decide), zero _ (by decide)]
    decide

/-- The boot monitor after it has looked up the file. -/
def holeBoot : RawFs := (RawFs.rSuper holeDev {}).1.rStat holeDev 1

theorem holeBoot_reached : RawReaches holeFs.dev [.super, .stat 1] holeBoot :=
  .cons trivial rfl (.cons (by decide) rfl .nil)

end Minix.Disk
