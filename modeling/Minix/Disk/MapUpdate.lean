/-
This file proves what the parts of `write_map` do to the map of a file: the creation of an indirect
block, and the writing of an entry.

The zone of a new indirect block is taken from the free zones, so it is none of those that the map
uses, and the block is zeroed before it is used.
-/

import Minix.Disk.Places

namespace Minix.Disk

open Function (update update_of_ne update_self update_eq_self update_idem)
open Option (some.inj bind_some)

/-! ### Sound maps -/

/-- What an indirect block of a file is for. -/
inductive Role
  | single
  | double
  | second (indEx : UInt32)
deriving DecidableEq

/-- The place is an entry of the indirect block. -/
inductive Role.Holds : Role → Place → UInt32 → Prop
  | single (excess : UInt32) : Holds .single (.single excess) excess
  | second (indEx excess : UInt32) : Holds (.second indEx) (.double indEx excess) excess

def Role.InRange (version : Version) : Role → Prop
  | .single => True
  | .double => True
  | .second indEx => indEx < version.indirects

/-- The zone of an indirect block. -/
def Volume.roleZone (v : Volume) (rip : Inode) : Role → Option UInt32
  | .single => some (v.singleZone rip)
  | .double => some (v.doubleZone rip)
  | .second indEx => v.leaf (v.doubleZone rip) indEx

/-- The file system can be written, and the indirect blocks of the file are different zones, which
are marked in use. -/
structure Volume.Sound (v : Volume) (rip : Inode) : Prop where
  sized : v.fs.sp.Sized
  wellFormed : v.fs.WellFormed
  writable : v.fs.rdOnly = false
  reads : ∀ indEx, indEx < v.fs.sp.version.indirects →
    ∃ z, v.leaf (v.doubleZone rip) indEx = some z
  inUse : ∀ (role : Role) z, role.InRange v.fs.sp.version → v.roleZone rip role = some z → z ≠ 0 →
    v.fs.sp.HasZone z ∧ v.fs.used z = true
  apart : ∀ (role role' : Role) z, role.InRange v.fs.sp.version → role'.InRange v.fs.sp.version →
    v.roleZone rip role = some z → v.roleZone rip role' = some z → z ≠ 0 → role = role'

/-- The zone is entered at the place, and nowhere else is anything changed. -/
def Entered (v v' : Volume) (rip rip' : Inode) (place : Place) (zone : UInt32) : Prop :=
  ∀ q : Place, q.InRange v.fs.sp.version →
    v'.zoneAt rip' q = if q = place then some zone else v.zoneAt rip q

/-- The map is the same. -/
def Kept (v v' : Volume) (rip rip' : Inode) : Prop :=
  ∀ q : Place, q.InRange v.fs.sp.version → v'.zoneAt rip' q = v.zoneAt rip q

/-- The map has grown: indirect blocks stay where they are, and the zones that are newly in use are
those of indirect blocks. -/
structure Grows (v v' : Volume) (rip rip' : Inode) : Prop where
  same : v.fs.Same v'.fs
  sound : v'.Sound rip'
  roles : ∀ (role : Role) z, role.InRange v.fs.sp.version → v.roleZone rip role = some z → z ≠ 0 →
    v'.roleZone rip' role = some z
  used : ∀ z, v.fs.sp.HasZone z → v.fs.used z = true → v'.fs.used z = true
  accounted : ∀ z, v.fs.sp.HasZone z → v'.fs.used z = true → v.fs.used z = true ∨
    ∃ role : Role, role.InRange v.fs.sp.version ∧ v'.roleZone rip' role = some z

section Blocks

variable {v v' : Volume} {rip : Inode} {z z1 other excess zone : UInt32} {newInd : Bool}

theorem shift_injective {sp : Super} (sized : sp.Sized) (has : sp.HasZone z)
    (has' : sp.HasZone other) (same : z <<< sp.scale = other <<< sp.scale) : z = other := by
  have scale : sp.scale.toNat ≤ 4 := UInt32.le_iff_toNat_le.mp sized.scale
  have positive : 0 < 2 ^ sp.scale.toNat := Nat.two_pow_pos _
  have value (z : UInt32) (has : sp.HasZone z) :
      (z <<< sp.scale).toNat = z.toNat * 2 ^ sp.scale.toNat := by
    have below := UInt32.lt_iff_toNat_lt.mp has.2
    have fits := (Nat.mul_lt_mul_right positive).mpr below
    rw [UInt32.toNat_shiftLeft, Nat.mod_eq_of_lt (show sp.scale.toNat < 32 by omega),
      Nat.shiftLeft_eq, Nat.mod_eq_of_lt (fits.trans_le sized.blocks)]
  have equal := congrArg UInt32.toNat same
  rw [value z has, value other has'] at equal
  exact UInt32.toNat_inj.mp (Nat.eq_of_mul_eq_mul_right positive equal)

theorem narrow_zone {sp : Super} (sized : sp.Sized) (legal : zone = 0 ∨ sp.HasZone zone)
    (v1 : sp.version = .v1) : zone < 65536 := by
  refine UInt32.lt_iff_toNat_lt.mpr ?_
  have narrow := sized.narrow v1
  obtain rfl | has := legal
  · decide
  · have below := UInt32.lt_iff_toNat_lt.mp has.2
    exact below.trans_le narrow

theorem leaf_fs {fs : Mounted} (same : fs.sp = v.fs.sp) (z index : UInt32) :
    ({ v with fs := fs } : Volume).leaf z index = v.leaf z index := by
  unfold Volume.leaf Volume.entry
  dsimp only
  rw [same]

section

variable (sized : v.fs.sp.Sized) (has : v.fs.sp.HasZone z1)
include sized has

theorem leaf_setBlock {bp : Block} (index : UInt32) :
    (v.setBlock (z1 <<< v.fs.sp.scale) bp).leaf z1 index =
      rdIndir v.fs.sp bp index := by
  unfold Volume.leaf Volume.entry Volume.setBlock
  dsimp only
  rw [if_neg (has.pos sized), update_self]

theorem leaf_setBlock_other {bp : Block} (legal : z = 0 ∨ v.fs.sp.HasZone z) (apart : z ≠ z1)
    (index : UInt32) :
    (v.setBlock (z1 <<< v.fs.sp.scale) bp).leaf z index = v.leaf z index := by
  unfold Volume.leaf Volume.entry Volume.setBlock
  dsimp only
  split
  case isTrue => rfl
  case isFalse present =>
    have has' := legal.resolve_left present
    rw [update_of_ne fun same => apart (shift_injective sized has' has same)]

/-- An entry is written into an indirect block, which is zeroed first if it is new. -/
theorem enterZone_spec (small : excess < v.fs.sp.version.indirects)
    (legal : zone = 0 ∨ v.fs.sp.HasZone zone) {old : UInt32}
    (prior : old = if newInd then 0 else z1) :
    ∃ v', enterZone v z1 excess zone newInd = some v' ∧ v'.fs = v.fs ∧
      (∀ j, j < v.fs.sp.version.indirects →
        v'.leaf z1 j = if j = excess then some zone else v.leaf old j) ∧
      ∀ z j, z = 0 ∨ v.fs.sp.HasZone z → z ≠ z1 → v'.leaf z j = v.leaf z j := by
  unfold enterZone
  dsimp only
  obtain ⟨bp, written⟩ := @wrIndir_isSome v.fs.sp
    (if newInd then zeroBlock else v.dev (z1 <<< v.fs.sp.scale)) excess zone small
  rw [written, Option.map_some]
  refine ⟨_, rfl, rfl, fun j below => ?_, fun z j legal' apart =>
    leaf_setBlock_other sized has legal' apart j⟩
  rw [leaf_setBlock sized has]
  split
  case isTrue same =>
    rw [same]
    exact rdIndir_wrIndir (narrow_zone sized legal) legal written
  case isFalse different =>
    rw [rdIndir_wrIndir_other different written, prior]
    cases newInd with
    | true => exact rdIndir_zeroBlock below
    | false => exact (if_neg (has.pos sized)).symm

end

end Blocks

/-! ### Growing maps -/

section Grow

variable {v v' v'' : Volume} {rip rip' rip'' : Inode} {z z1 excess zone : UInt32} {role role₀ : Role}
  {place : Place}

theorem Grows.refl (sound : v.Sound rip) : Grows v v rip rip :=
  ⟨⟨rfl, rfl, sound.wellFormed⟩, sound, fun _ _ _ holds _ => holds, fun _ _ => id,
    fun _ _ => .inl⟩

theorem Grows.trans (first : Grows v v' rip rip') (second : Grows v' v'' rip' rip'') :
    Grows v v'' rip rip'' := by
  have sp := first.same.sp
  refine ⟨⟨second.same.sp.trans sp, second.same.rdOnly.trans first.same.rdOnly,
    second.same.wellFormed⟩, second.sound, fun role z inRange holds present => ?_,
    fun z has used => second.used z (sp ▸ has) (first.used z has used), fun z has used => ?_⟩
  · exact second.roles role z (sp ▸ inRange) (first.roles role z inRange holds present) present
  · obtain before | ⟨role, inRange, holds⟩ := second.accounted z (sp ▸ has) used
    · obtain before | ⟨role, inRange, holds⟩ := first.accounted z has before
      · exact .inl before
      · refine .inr ⟨role, inRange, second.roles role z (sp ▸ inRange) holds (has.pos ?_)⟩
        exact sp ▸ first.sound.sized
    · exact .inr ⟨role, sp ▸ inRange, holds⟩

theorem Kept.trans_entered (sp : v'.fs.sp = v.fs.sp) (kept : Kept v v' rip rip')
    (entered : Entered v' v'' rip' rip'' place zone) : Entered v v'' rip rip'' place zone := by
  intro q inRange
  rw [entered q (sp ▸ inRange), kept q inRange]

theorem Kept.trans (sp : v'.fs.sp = v.fs.sp) (first : Kept v v' rip rip')
    (second : Kept v' v'' rip' rip'') : Kept v v'' rip rip'' := by
  intro q inRange
  rw [second q (sp ▸ inRange), first q inRange]

theorem zoneAt_single : v.zoneAt rip (.single excess) =
    (v.roleZone rip .single).bind fun z => v.leaf z excess := rfl

theorem zoneAt_double {indEx : UInt32} : v.zoneAt rip (.double indEx excess) =
    (v.roleZone rip (.second indEx)).bind fun z => v.leaf z excess := rfl

theorem Volume.Sound.keep (sound : v.Sound rip) (same : v'.fs = v.fs)
    (roles : ∀ role : Role, role.InRange v.fs.sp.version →
      v'.roleZone rip' role = v.roleZone rip role) : v'.Sound rip' where
  sized := same ▸ sound.sized
  wellFormed := same ▸ sound.wellFormed
  writable := same ▸ sound.writable
  reads indEx small := by
    rw [same] at small
    obtain ⟨z, holds⟩ := sound.reads indEx small
    exact ⟨z, (roles (.second indEx) small).trans holds⟩
  inUse role z inRange holds present := by
    rw [same] at inRange ⊢
    exact sound.inUse role z inRange ((roles role inRange).symm.trans holds) present
  apart role role' z inRange inRange' holds holds' present := by
    rw [same] at inRange inRange'
    exact sound.apart role role' z inRange inRange' ((roles role inRange).symm.trans holds)
      ((roles role' inRange').symm.trans holds') present

/-- An indirect block that is created and zeroed changes no zone of the map. -/
theorem grows_create (sound : v.Sound rip) (same : v.fs.Same v'.fs)
    (takes : v.fs.TakesZone v'.fs z1) (inRange₀ : role₀.InRange v.fs.sp.version)
    (was : v.roleZone rip role₀ = some 0) (now : v'.roleZone rip' role₀ = some z1)
    (others : ∀ role : Role, role.InRange v.fs.sp.version → role ≠ role₀ →
      v'.roleZone rip' role = v.roleZone rip role)
    (direct : ∀ k, k < v.fs.sp.version.nrDzones → rip'.zone k.toNat = rip.zone k.toNat)
    (zeroed : ∀ j, j < v.fs.sp.version.indirects → v'.leaf z1 j = some 0)
    (frame : ∀ (role : Role) z j, role.InRange v.fs.sp.version → role ≠ .double →
      v.roleZone rip role = some z → v'.leaf z j = v.leaf z j) :
    Grows v v' rip rip' ∧ Kept v v' rip rip' := by
  have sp := same.sp
  have fresh (role : Role) (inRange : role.InRange v.fs.sp.version) :
      v.roleZone rip role ≠ some z1 := fun holds => by
    have used := (sound.inUse role z1 inRange holds (takes.has.pos sound.sized)).2
    rw [takes.free] at used
    cases used
  have sound' : v'.Sound rip' := by
    refine ⟨sp ▸ sound.sized, same.wellFormed, same.rdOnly.trans sound.writable,
      fun indEx small => ?_, fun role z inRange holds present => ?_,
      fun role role' z inRange inRange' holds holds' present => ?_⟩ <;> rw [sp] at *
    · by_cases here : Role.second indEx = role₀
      · subst here
        exact ⟨z1, now⟩
      · obtain ⟨z, holds⟩ := sound.reads indEx small
        exact ⟨z, (others (.second indEx) small here).trans holds⟩
    · by_cases here : role = role₀
      · obtain rfl := some.inj ((here ▸ holds).symm.trans now)
        exact ⟨takes.has, takes.taken⟩
      · rw [others role inRange here] at holds
        obtain ⟨has, used⟩ := sound.inUse role z inRange holds present
        have apart : z ≠ z1 := fun same => fresh role inRange (same ▸ holds)
        exact ⟨has, (takes.others z has apart).trans used⟩
    · by_cases here : role = role₀ <;> by_cases here' : role' = role₀
      · exact here.trans here'.symm
      · obtain rfl := some.inj ((here ▸ holds).symm.trans now)
        exact absurd ((others role' inRange' here').symm.trans holds') (fresh role' inRange')
      · obtain rfl := some.inj ((here' ▸ holds').symm.trans now)
        exact absurd ((others role inRange here).symm.trans holds) (fresh role inRange)
      · rw [others role inRange here] at holds
        rw [others role' inRange' here'] at holds'
        exact sound.apart role role' z inRange inRange' holds holds' present
  have looked (role : Role) (inRange : role.InRange v.fs.sp.version) (notDouble : role ≠ .double)
      (j : UInt32) (small : j < v.fs.sp.version.indirects) :
      ((v'.roleZone rip' role).bind fun z => v'.leaf z j) =
        (v.roleZone rip role).bind fun z => v.leaf z j := by
    by_cases here : role = role₀
    · rw [here, now, was, bind_some, bind_some, zeroed j small]
      rfl
    · rw [others role inRange here]
      exact Option.bind_congr fun z holds => frame role z j inRange notDouble holds
  refine ⟨⟨same, sound', fun role z inRange holds present => ?_, fun z has used => ?_,
    fun z has used => ?_⟩, fun q inRange => ?_⟩
  · have other : role ≠ role₀ := by
      rintro rfl
      exact present (some.inj (was.symm.trans holds)).symm
    exact (others role inRange other).trans holds
  · by_cases new : z = z1
    · exact new ▸ takes.taken
    · exact (takes.others z has new).trans used
  · by_cases new : z = z1
    · exact .inr ⟨role₀, inRange₀, new ▸ now⟩
    · exact .inl ((takes.others z has new).symm.trans used)
  · cases q with
    | direct k => exact congrArg some (direct k inRange)
    | single j =>
      rw [zoneAt_single, zoneAt_single]
      exact looked .single trivial (fun wrong => by cases wrong) j inRange
    | double indEx j =>
      rw [zoneAt_double, zoneAt_double]
      exact looked (.second indEx) inRange.1 (fun wrong => by cases wrong) j inRange.2

section

variable (slot : role.Holds place excess)
include slot

theorem Role.Holds.notDouble : role ≠ .double := by
  cases slot <;> exact fun wrong => by cases wrong

theorem Role.Holds.zoneAt (v : Volume) (rip : Inode) :
    v.zoneAt rip place = (v.roleZone rip role).bind fun z => v.leaf z excess := by
  cases slot <;> rfl

theorem Role.Holds.inRange {version : Version} (inRange : place.InRange version) :
    role.InRange version ∧ excess < version.indirects := by
  cases slot with
  | single excess => exact ⟨trivial, inRange⟩
  | second indEx excess => exact inRange

end

theorem Place.held (q : Place) :
    (∃ k, q = .direct k) ∨ ∃ role excess, Role.Holds role q excess := by
  cases q with
  | direct k => exact .inl ⟨k, rfl⟩
  | single excess => exact .inr ⟨_, _, .single excess⟩
  | double indEx excess => exact .inr ⟨_, _, .second indEx excess⟩

theorem Role.Holds.unique {j : UInt32} {q : Place} (slot : role.Holds place excess)
    (other : role.Holds q j) : q = place ↔ j = excess := by
  cases slot <;> cases other
  · exact ⟨Place.single.inj, congrArg _⟩
  · exact ⟨fun same => (Place.double.inj same).2, congrArg _⟩

theorem Role.Holds.sameRole {j : UInt32} (slot : role.Holds place excess)
    (other : role₀.Holds place j) : role₀ = role := by
  cases slot <;> cases other <;> rfl

theorem enterZone_enters (sound : v.Sound rip) (legal : zone = 0 ∨ v.fs.sp.HasZone zone)
    (slot : role.Holds place excess) (inRange : place.InRange v.fs.sp.version)
    (holds : v.roleZone rip role = some z1) (present : z1 ≠ 0) :
    ∃ v', enterZone v z1 excess zone false = some v' ∧ Grows v v' rip rip ∧
      Entered v v' rip rip place zone := by
  obtain ⟨roleIn, small⟩ := slot.inRange inRange
  obtain ⟨has, -⟩ := sound.inUse role z1 roleIn holds present
  obtain ⟨v', entered, fs, here, elsewhere⟩ := @enterZone_spec v z1 excess zone false sound.sized
    has small legal z1 rfl
  have legalRole {other : Role} {z : UInt32} (otherIn : other.InRange v.fs.sp.version)
      (held : v.roleZone rip other = some z) : z = 0 ∨ v.fs.sp.HasZone z := by
    by_cases absent : z = 0
    · exact .inl absent
    · exact .inr (sound.inUse other z otherIn held absent).1
  have apart {other : Role} {z : UInt32} (otherIn : other.InRange v.fs.sp.version)
      (held : v.roleZone rip other = some z) (different : other ≠ role) : z ≠ z1 := by
    rintro rfl
    exact different (sound.apart other role z otherIn roleIn held holds present)
  have roles (other : Role) (otherIn : other.InRange v.fs.sp.version) :
      v'.roleZone rip other = v.roleZone rip other := by
    cases other with
    | single => simp only [Volume.roleZone, Volume.singleZone, fs]
    | double => simp only [Volume.roleZone, Volume.doubleZone, fs]
    | second indEx =>
      have same : v'.doubleZone rip = v.doubleZone rip := by simp only [Volume.doubleZone, fs]
      unfold Volume.roleZone
      rw [same]
      have inDouble : Role.double.InRange v.fs.sp.version := trivial
      have double : v.roleZone rip .double = some (v.doubleZone rip) := rfl
      exact elsewhere _ _ (legalRole inDouble double) (apart inDouble double slot.notDouble.symm)
  refine ⟨v', entered, ⟨⟨by rw [fs], by rw [fs], fs ▸ sound.wellFormed⟩, sound.keep fs roles,
    fun other z otherIn held _ => (roles other otherIn).trans held, fun z _ used => fs ▸ used,
    fun z _ used => .inl (fs ▸ used)⟩, fun q qIn => ?_⟩
  obtain ⟨k, rfl⟩ | ⟨other, j, otherSlot⟩ := q.held
  · have different : Place.direct k ≠ place := by
      rintro rfl
      cases slot
    rw [if_neg different]
    rfl
  · obtain ⟨otherIn, below⟩ := otherSlot.inRange qIn
    rw [otherSlot.zoneAt, otherSlot.zoneAt, roles other otherIn]
    by_cases same : other = role
    · subst same
      rw [holds, bind_some, bind_some, here j below]
      exact if_congr (slot.unique otherSlot).symm rfl rfl
    · have different : q ≠ place := by
        rintro rfl
        exact same (slot.sameRole otherSlot)
      rw [if_neg different]
      exact Option.bind_congr fun z held =>
        elsewhere z j (legalRole otherIn held) (apart otherIn held same)

/-- An indirect block is the same, whether it is zeroed before or while an entry is made. -/
theorem enterZone_new : enterZone v z1 excess zone true =
    enterZone (v.setBlock (z1 <<< v.fs.sp.scale) zeroBlock) z1 excess zone false := by
  unfold enterZone Volume.setBlock
  dsimp only
  rw [if_pos rfl, if_neg Bool.false_ne_true, update_self]
  refine congrArg (Option.map · _) (funext fun bp => ?_)
  rw [update_idem]

theorem writeDouble_new {indEx : UInt32} : writeDouble v rip z indEx excess zone true =
    writeDouble (v.setBlock (z <<< v.fs.sp.scale) zeroBlock) rip z indEx excess zone false := by
  have twice (fs : Mounted) (bp : Block) :
      ({ v.setBlock (z <<< v.fs.sp.scale) zeroBlock with fs := fs } : Volume).setBlock
          (z <<< v.fs.sp.scale) bp =
        ({ v with fs := fs } : Volume).setBlock (z <<< v.fs.sp.scale) bp := by
    unfold Volume.setBlock
    rw [update_idem]
  have read : (v.setBlock (z <<< v.fs.sp.scale) zeroBlock).dev (z <<< v.fs.sp.scale) = zeroBlock :=
    update_self _ _ _
  have same : (v.setBlock (z <<< v.fs.sp.scale) zeroBlock).fs = v.fs := rfl
  unfold writeDouble Volume.allocZone
  dsimp only
  rw [same, if_pos rfl, if_neg Bool.false_ne_true, read]
  refine Option.bind_congr fun z1 _ => ?_
  split
  · rw [Option.bind_map, Option.bind_map]
    refine Option.bind_congr fun allocated _ => ?_
    dsimp only [Function.comp]
    simp only [twice]
  · exact congrArg (fun v' => (enterZone v' z1 excess zone false).map _) (twice v.fs zeroBlock).symm

end Grow

/-! ### New indirect blocks -/

section Create

variable {v v' : Volume} {rip rip' : Inode} {fs : Mounted} {z z1 indEx excess zone position : UInt32}
  {role : Role} {bp : Block}

theorem singleIn {version : Version} : Role.single.InRange version := trivial

theorem doubleIn {version : Version} : Role.double.InRange version := trivial

theorem Volume.Sound.fresh (sound : v.Sound rip) (takes : v.fs.TakesZone fs z1)
    (inRange : role.InRange v.fs.sp.version) (holds : v.roleZone rip role = some z) : z ≠ z1 := by
  rintro rfl
  have used := (sound.inUse role z inRange holds (takes.has.pos sound.sized)).2
  rw [takes.free] at used
  cases used

theorem Volume.Sound.legal (sound : v.Sound rip) (inRange : role.InRange v.fs.sp.version)
    (holds : v.roleZone rip role = some z) : z = 0 ∨ v.fs.sp.HasZone z := by
  by_cases absent : z = 0
  · exact .inl absent
  · exact .inr (sound.inUse role z inRange holds absent).1

/-- The volume after a zone was taken and its first block was zeroed. -/
def Volume.withBlock (v : Volume) (fs : Mounted) (z1 : UInt32) : Volume :=
  ({ v with fs := fs } : Volume).setBlock (z1 <<< v.fs.sp.scale) zeroBlock

theorem withBlock_zeroed (sound : v.Sound rip) (same : v.fs.Same fs)
    (takes : v.fs.TakesZone fs z1) (small : excess < v.fs.sp.version.indirects) :
    (v.withBlock fs z1).leaf z1 excess = some 0 := by
  have sized : fs.sp.Sized := same.sp ▸ sound.sized
  have has : fs.sp.HasZone z1 := same.sp ▸ takes.has
  unfold Volume.withBlock
  rw [← same.sp]
  refine (leaf_setBlock sized has excess).trans (rdIndir_zeroBlock ?_)
  rw [← same.sp] at small
  exact small

theorem withBlock_frame (sound : v.Sound rip) (same : v.fs.Same fs)
    (takes : v.fs.TakesZone fs z1) (legal : z = 0 ∨ v.fs.sp.HasZone z) (apart : z ≠ z1)
    (index : UInt32) : (v.withBlock fs z1).leaf z index = v.leaf z index := by
  have sized : fs.sp.Sized := same.sp ▸ sound.sized
  have has : fs.sp.HasZone z1 := same.sp ▸ takes.has
  have legal' : z = 0 ∨ fs.sp.HasZone z := same.sp ▸ legal
  unfold Volume.withBlock
  rw [← same.sp, ← leaf_fs same.sp]
  exact @leaf_setBlock_other { v with fs := fs } _ _ sized has _ legal' apart index

theorem direct_ne {version : Version} {k : UInt32} (below : k < version.nrDzones) :
    k.toNat < version.nrDzones.toNat := UInt32.lt_iff_toNat_lt.mp below

section

variable (sound : v.Sound rip) (same : v.fs.Same fs) (takes : v.fs.TakesZone fs z1)
include sound same takes

theorem create_single (absent : v.singleZone rip = 0) :
    Grows v (v.withBlock fs z1) rip (rip.setZone v.fs.sp.version.nrDzones.toNat z1) ∧
      Kept v (v.withBlock fs z1) rip (rip.setZone v.fs.sp.version.nrDzones.toNat z1) := by
  have double : (v.withBlock fs z1).doubleZone (rip.setZone v.fs.sp.version.nrDzones.toNat z1) =
      v.doubleZone rip := by
    unfold Volume.doubleZone Volume.withBlock Volume.setBlock Inode.setZone
    dsimp only
    rw [same.sp, update_of_ne (by omega)]
  refine grows_create sound same takes singleIn (congrArg some absent) ?_
    (fun role inRange other => ?_) (fun k below => ?_)
    (fun j small => withBlock_zeroed sound same takes small)
    fun role z j inRange _ holds => withBlock_frame sound same takes (sound.legal inRange holds)
      (sound.fresh takes inRange holds) j
  · refine congrArg some ?_
    unfold Volume.singleZone Volume.withBlock Volume.setBlock Inode.setZone
    dsimp only
    rw [same.sp, update_self]
  · cases role with
    | single => exact absurd rfl other
    | double => exact congrArg some double
    | second indEx =>
      have holds : v.roleZone rip .double = some (v.doubleZone rip) := rfl
      unfold Volume.roleZone
      rw [double]
      exact withBlock_frame sound same takes (sound.legal doubleIn holds)
        (sound.fresh takes doubleIn holds) indEx
  · exact update_of_ne (direct_ne below).ne _ _

theorem create_double (absent : v.doubleZone rip = 0) :
    Grows v (v.withBlock fs z1) rip (rip.setZone (v.fs.sp.version.nrDzones.toNat + 1) z1) ∧
      Kept v (v.withBlock fs z1) rip (rip.setZone (v.fs.sp.version.nrDzones.toNat + 1) z1) := by
  have double : (v.withBlock fs z1).doubleZone
      (rip.setZone (v.fs.sp.version.nrDzones.toNat + 1) z1) = z1 := by
    unfold Volume.doubleZone Volume.withBlock Volume.setBlock Inode.setZone
    dsimp only
    rw [same.sp, update_self]
  refine grows_create sound same takes doubleIn (congrArg some absent) (congrArg some double)
    (fun role inRange other => ?_) (fun k below => ?_)
    (fun j small => withBlock_zeroed sound same takes small)
    fun role z j inRange _ holds => withBlock_frame sound same takes (sound.legal inRange holds)
      (sound.fresh takes inRange holds) j
  · cases role with
    | single =>
      refine congrArg some ?_
      unfold Volume.singleZone Volume.withBlock Volume.setBlock Inode.setZone
      dsimp only
      rw [same.sp, update_of_ne (by omega)]
    | double => exact absurd rfl other
    | second indEx =>
      unfold Volume.roleZone
      dsimp only
      rw [double, absent, withBlock_zeroed sound same takes inRange]
      rfl
  · have small := direct_ne below
    exact update_of_ne (by omega) _ _

/-- An indirect block is created below the double indirect one. -/
theorem create_second (present : v.doubleZone rip ≠ 0) (small : indEx < v.fs.sp.version.indirects)
    (absent : v.leaf (v.doubleZone rip) indEx = some 0)
    (written : wrIndir v.fs.sp (v.dev (v.doubleZone rip <<< v.fs.sp.scale)) indEx z1 = some bp) :
    Grows v ((v.setBlock (v.doubleZone rip <<< v.fs.sp.scale) bp).withBlock fs z1) rip rip ∧
      Kept v ((v.setBlock (v.doubleZone rip <<< v.fs.sp.scale) bp).withBlock fs z1) rip rip ∧
      ((v.setBlock (v.doubleZone rip <<< v.fs.sp.scale) bp).withBlock fs z1).roleZone rip
        (.second indEx) = some z1 := by
  have doubled : v.roleZone rip .double = some (v.doubleZone rip) := rfl
  obtain ⟨has, -⟩ := sound.inUse .double _ doubleIn doubled present
  have linked (z index : UInt32) (legal : z = 0 ∨ v.fs.sp.HasZone z) (apart : z ≠ z1) :
      ((v.setBlock (v.doubleZone rip <<< v.fs.sp.scale) bp).withBlock fs z1).leaf z index =
        (v.setBlock (v.doubleZone rip <<< v.fs.sp.scale) bp).leaf z index := by
    unfold Volume.withBlock
    have sized : fs.sp.Sized := same.sp ▸ sound.sized
    have has : fs.sp.HasZone z1 := same.sp ▸ takes.has
    have legal' : z = 0 ∨ fs.sp.HasZone z := same.sp ▸ legal
    have scale : (v.setBlock (v.doubleZone rip <<< v.fs.sp.scale) bp).fs.sp.scale = fs.sp.scale :=
      congrArg Super.scale same.sp.symm
    rw [scale, ← @leaf_fs (v.setBlock (v.doubleZone rip <<< v.fs.sp.scale) bp) fs same.sp]
    exact @leaf_setBlock_other { v.setBlock (v.doubleZone rip <<< v.fs.sp.scale) bp with fs := fs }
      _ _ sized has _ legal' apart index
  have double : ((v.setBlock (v.doubleZone rip <<< v.fs.sp.scale) bp).withBlock fs z1).doubleZone
      rip = v.doubleZone rip := by
    unfold Volume.doubleZone Volume.withBlock Volume.setBlock
    rw [same.sp]
  have entry (i : UInt32) :
      ((v.setBlock (v.doubleZone rip <<< v.fs.sp.scale) bp).withBlock fs z1).roleZone rip
        (.second i) = rdIndir v.fs.sp bp i := by
    unfold Volume.roleZone
    dsimp only
    rw [double, linked _ _ (.inr has) (sound.fresh takes doubleIn doubled),
      leaf_setBlock sound.sized has]
  have inRange : (Role.second indEx).InRange v.fs.sp.version := small
  have now : ((v.setBlock (v.doubleZone rip <<< v.fs.sp.scale) bp).withBlock fs z1).roleZone rip
      (.second indEx) = some z1 := by
    rw [entry]
    exact rdIndir_wrIndir (narrow_zone sound.sized (.inr takes.has)) (.inr takes.has) written
  rw [← and_assoc]
  refine ⟨grows_create sound same takes inRange absent now
    (fun role inRange other => ?_) (fun k below => rfl) (fun j below => ?_)
    fun role z j inRange notDouble holds => ?_, now⟩
  · cases role with
    | single =>
      refine congrArg some ?_
      unfold Volume.singleZone Volume.withBlock Volume.setBlock
      rw [same.sp]
    | double => exact congrArg some double
    | second i =>
      have different : i ≠ indEx := fun equal => other (congrArg Role.second equal)
      rw [entry, rdIndir_wrIndir_other different written]
      exact (if_neg present).symm
  · have sized : fs.sp.Sized := same.sp ▸ sound.sized
    have taken : fs.sp.HasZone z1 := same.sp ▸ takes.has
    have scale : (v.setBlock (v.doubleZone rip <<< v.fs.sp.scale) bp).fs.sp.scale = fs.sp.scale :=
      congrArg Super.scale same.sp.symm
    unfold Volume.withBlock
    rw [scale]
    refine (leaf_setBlock sized taken j).trans (rdIndir_zeroBlock ?_)
    rw [same.sp]
    exact below
  · have apart : z ≠ v.doubleZone rip := by
      rintro rfl
      exact notDouble (sound.apart role .double _ inRange doubleIn holds doubled present)
    rw [linked _ _ (sound.legal inRange holds) (sound.fresh takes inRange holds)]
    exact leaf_setBlock_other sound.sized has (sound.legal inRange holds) apart j

end

end Create

/-! ### Writing a zone -/

section Write

variable {v v' : Volume} {rip rip' : Inode} {z z1 indEx excess zone position : UInt32} {r : Int}

/-- `write_map` has entered the zone, or it has found no free zone for an indirect block. -/
def Settled (v v' : Volume) (rip rip' : Inode) (place : Place) (zone : UInt32) (r : Int) : Prop :=
  Grows v v' rip rip' ∧
    (r = 0 ∧ Entered v v' rip rip' place zone ∨ r = enospc ∧ Kept v v' rip rip')

theorem volume_allocZone (sound : v.Sound rip) (near : UInt32) :
    ∃ fs z, v.allocZone near = some ({ v with fs := fs }, z) ∧ v.fs.Same fs ∧
      (z = 0 ∧ fs = v.fs ∧ v.fs.freeZones = 0 ∨ v.fs.TakesZone fs z) := by
  obtain ⟨fs, z, allocated, same, takes⟩ :=
    allocZone_takes sound.sized sound.wellFormed sound.writable near
  refine ⟨fs, z, ?_, same, takes⟩
  rw [Volume.allocZone, allocated]
  rfl

/-- A zone below the double indirect block is entered. -/
theorem writeDouble_settles (sound : v.Sound rip) (legal : zone = 0 ∨ v.fs.sp.HasZone zone)
    (present : v.doubleZone rip ≠ 0) (small : indEx < v.fs.sp.version.indirects)
    (below : excess < v.fs.sp.version.indirects) :
    ∃ v' r, writeDouble v rip (v.doubleZone rip) indEx excess zone false = some (v', rip, r) ∧
      Settled v v' rip rip (.double indEx excess) zone r ∧
      (v.leaf (v.doubleZone rip) indEx = some 0 → (r = 0 ↔ v.fs.freeZones ≠ 0)) := by
  obtain ⟨z1, holds⟩ := sound.reads indEx small
  have read : rdIndir v.fs.sp (v.dev (v.doubleZone rip <<< v.fs.sp.scale)) indEx = some z1 := by
    unfold Volume.leaf at holds
    rw [if_neg present] at holds
    exact holds
  have inRange : (Place.double indEx excess).InRange v.fs.sp.version := ⟨small, below⟩
  unfold writeDouble
  dsimp only
  rw [if_neg Bool.false_ne_true, read, bind_some]
  split
  case isFalse there =>
    have same : v.setBlock (v.doubleZone rip <<< v.fs.sp.scale)
        (v.dev (v.doubleZone rip <<< v.fs.sp.scale)) = v := by
      unfold Volume.setBlock
      rw [update_eq_self]
    obtain ⟨v', entered, grows, enters⟩ := enterZone_enters sound legal
      (.second indEx excess) inRange holds there
    rw [same, entered]
    exact ⟨v', 0, rfl, ⟨grows, .inl ⟨rfl, enters⟩⟩, fun none =>
      absurd (Option.some.inj (holds.symm.trans none)) there⟩
  case isTrue absent =>
    subst absent
    obtain ⟨fs, z1, allocated, same, outcome⟩ := volume_allocZone sound (rip.zone 0)
    obtain ⟨bp, written⟩ := @wrIndir_isSome v.fs.sp
      (v.dev (v.doubleZone rip <<< v.fs.sp.scale)) indEx z1 small
    have written' : wrIndir fs.sp (v.dev (v.doubleZone rip <<< v.fs.sp.scale)) indEx z1 =
        some bp := same.sp ▸ written
    rw [allocated, bind_some]
    rw [written', bind_some]
    obtain ⟨rfl, rfl, full⟩ | takes := outcome
    · -- no zone is free, and the entry is still 0
      have has := (sound.inUse .double _ doubleIn rfl present).1
      have keeps : ∀ i, (v.setBlock (v.doubleZone rip <<< v.fs.sp.scale) bp).leaf
          (v.doubleZone rip) i = v.leaf (v.doubleZone rip) i := fun i => by
        rw [leaf_setBlock sound.sized has]
        by_cases here : i = indEx
        · rw [here, holds]
          exact rdIndir_wrIndir (fun _ => by decide) (.inl rfl) written
        · rw [rdIndir_wrIndir_other here written]
          exact (if_neg present).symm
      have others (role : Role) (z : UInt32) (inRange : role.InRange v.fs.sp.version)
          (held : v.roleZone rip role = some z) (j : UInt32) :
          (v.setBlock (v.doubleZone rip <<< v.fs.sp.scale) bp).leaf z j = v.leaf z j := by
        by_cases here : z = v.doubleZone rip
        · exact here ▸ keeps j
        · exact leaf_setBlock_other sound.sized has (sound.legal inRange held) here j
      have roles (role : Role) (inRange : role.InRange v.fs.sp.version) :
          (v.setBlock (v.doubleZone rip <<< v.fs.sp.scale) bp).roleZone rip role =
            v.roleZone rip role := by
        cases role with
        | single => rfl
        | double => rfl
        | second i => exact keeps i
      refine ⟨_, enospc, if_pos rfl, ⟨⟨⟨rfl, rfl, sound.wellFormed⟩, sound.keep rfl roles,
        fun role z inRange held _ => (roles role inRange).trans held, fun _ _ => id,
        fun _ _ => .inl⟩, .inr ⟨rfl, fun q qIn => ?_⟩⟩,
        fun _ => iff_of_false (by decide) (not_not.mpr full)⟩
      obtain ⟨k, rfl⟩ | ⟨role, j, slot⟩ := q.held
      · rfl
      · obtain ⟨roleIn, -⟩ := slot.inRange qIn
        rw [slot.zoneAt, slot.zoneAt, roles role roleIn]
        exact Option.bind_congr fun z held => others role z roleIn held j
    · obtain ⟨grows, kept, linked⟩ := create_second sound same takes present small holds written
      have there : z1 ≠ 0 := takes.has.pos sound.sized
      have legal' : zone = 0 ∨ fs.sp.HasZone zone := same.sp ▸ legal
      have inRange' : (Place.double indEx excess).InRange fs.sp.version := same.sp ▸ inRange
      obtain ⟨v', entered, grows', enters⟩ := enterZone_enters grows.sound legal'
        (.second indEx excess) inRange' linked there
      rw [if_neg there, enterZone_new]
      have scale : fs.sp.scale = v.fs.sp.scale := congrArg Super.scale same.sp
      unfold Volume.withBlock at entered
      dsimp only [Volume.setBlock] at entered ⊢
      rw [scale, entered]
      exact ⟨v', 0, rfl, ⟨grows.trans grows', .inl ⟨rfl, kept.trans_entered same.sp enters⟩⟩,
        fun _ => iff_of_true rfl (takes.fewer ▸ Nat.succ_ne_zero _)⟩

end Write

end Minix.Disk
