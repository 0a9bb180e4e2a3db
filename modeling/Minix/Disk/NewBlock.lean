/-
This file proves that `write_map` enters a zone at its place, and when `write_map` and `new_block`
leave the map of a file as it was if they fail.

They do if every position of a file is inside the map. A superblock may promise longer files, and
for them, once there is a double indirect block, `read_map` reads behind its end.
-/

import Minix.Disk.MapUpdate

namespace Minix.Disk

open Function (update update_of_ne update_self update_eq_self)
open Option (some.inj bind_some map_some)

section Write

variable {v v' : Volume} {rip rip' : Inode} {fs : Mounted} {z z1 k indEx excess zone position : UInt32}
  {r : Int} {place : Place}

/-! ### Places inside the map -/

theorem roleZone_setZone {i : Nat} (direct : i < v.fs.sp.version.nrDzones.toNat) (role : Role) :
    v.roleZone (rip.setZone i zone) role = v.roleZone rip role := by
  have single : v.singleZone (rip.setZone i zone) = v.singleZone rip :=
    update_of_ne (by omega) _ _
  have double : v.doubleZone (rip.setZone i zone) = v.doubleZone rip :=
    update_of_ne (by omega) _ _
  unfold Volume.roleZone
  rw [single, double]

theorem setZone_enters (sound : v.Sound rip) (below : k < v.fs.sp.version.nrDzones) :
    Settled v v rip (rip.setZone k.toNat zone) (.direct k) zone 0 := by
  have roles := @roleZone_setZone v rip zone k.toNat (direct_ne below)
  refine ⟨⟨⟨rfl, rfl, sound.wellFormed⟩, sound.keep rfl fun role _ => roles role,
    fun role z _ holds _ => (roles role).trans holds, fun _ _ => id, fun _ _ => .inl⟩,
    .inl ⟨rfl, fun q inRange => ?_⟩⟩
  obtain ⟨j, rfl⟩ | ⟨role, j, slot⟩ := q.held
  · by_cases same : j = k
    · rw [same, if_pos rfl]
      exact congrArg some (update_self _ _ _)
    · rw [if_neg fun wrong => same (Place.direct.inj wrong)]
      exact congrArg some (update_of_ne (fun wrong => same (UInt32.toNat_inj.mp wrong)) _ _)
  · have different : q ≠ .direct k := by
      rintro rfl
      cases slot
    rw [slot.zoneAt, slot.zoneAt, roles, if_neg different]

theorem setZone_self {i : Nat} (same : rip.zone i = zone) : rip.setZone i zone = rip := by
  unfold Inode.setZone
  rw [← same, update_eq_self]

theorem Settled.after {v'' : Volume} {rip'' : Inode} (grows : Grows v v' rip rip')
    (kept : Kept v v' rip rip') (settled : Settled v' v'' rip' rip'' place zone r) :
    Settled v v'' rip rip'' place zone r := by
  refine ⟨grows.trans settled.1, ?_⟩
  obtain ⟨rfl, entered⟩ | ⟨rfl, kept'⟩ := settled.2
  · exact .inl ⟨rfl, kept.trans_entered grows.same.sp entered⟩
  · exact .inr ⟨rfl, kept.trans grows.same.sp kept'⟩

theorem Kept.refl (v : Volume) (rip : Inode) : Kept v v rip rip := fun _ _ => rfl

theorem doubleZone_congr (sp : v'.fs.sp = v.fs.sp) : v'.doubleZone rip = v.doubleZone rip := by
  unfold Volume.doubleZone
  rw [sp]

theorem doubleZone_setZone {i : Nat} (sp : v'.fs.sp = v.fs.sp)
    (other : i ≠ v.fs.sp.version.nrDzones.toNat + 1) :
    v'.doubleZone (rip.setZone i zone) = v.doubleZone rip :=
  (doubleZone_congr sp).trans (update_of_ne other.symm _ _)

section

variable (sound : v.Sound rip) (legal : zone = 0 ∨ v.fs.sp.HasZone zone)
include sound legal

theorem writeSingle_settles (far : ¬ v.fs.sp.zoneOf position < v.fs.sp.version.nrDzones)
    (near : v.fs.sp.zoneOf position - v.fs.sp.version.nrDzones < v.fs.sp.version.indirects) :
    ∃ v' rip' r, writeMap v rip position zone = some (v', rip', r) ∧
      Settled v v' rip rip'
        (.single (v.fs.sp.zoneOf position - v.fs.sp.version.nrDzones)) zone r ∧
      v'.doubleZone rip' = v.doubleZone rip := by
  unfold writeMap
  rw [if_neg far, if_pos near]
  generalize v.fs.sp.zoneOf position - v.fs.sp.version.nrDzones = excess at near ⊢
  by_cases absent : rip.zone v.fs.sp.version.nrDzones.toNat = 0
  case neg =>
    rw [if_neg absent]
    obtain ⟨v', entered, grows, enters⟩ := enterZone_enters sound legal (.single excess) near
      rfl absent
    change enterZone v (rip.zone v.fs.sp.version.nrDzones.toNat) _ _ _ = _ at entered
    rw [entered]
    exact ⟨v', rip, 0, rfl, ⟨grows, .inl ⟨rfl, enters⟩⟩, doubleZone_congr grows.same.sp⟩
  case pos =>
    rw [if_pos absent]
    obtain ⟨fs, z1, allocated, same, outcome⟩ := volume_allocZone sound (rip.zone 0)
    rw [allocated, bind_some]
    dsimp only
    obtain ⟨rfl, rfl, -⟩ | takes := outcome
    · rw [if_pos rfl, setZone_self absent]
      exact ⟨_, rip, enospc, rfl, ⟨.refl sound, .inr ⟨rfl, .refl v rip⟩⟩, rfl⟩
    · obtain ⟨grows, kept⟩ := create_single sound same takes absent
      have there : z1 ≠ 0 := takes.has.pos sound.sized
      have linked : (v.withBlock fs z1).roleZone (rip.setZone v.fs.sp.version.nrDzones.toNat z1)
          .single = some z1 := by
        refine congrArg some ?_
        unfold Volume.singleZone Volume.withBlock Volume.setBlock Inode.setZone
        dsimp only
        rw [same.sp, update_self]
      have legal' : zone = 0 ∨ fs.sp.HasZone zone := same.sp ▸ legal
      have near' : (Place.single excess).InRange fs.sp.version := same.sp ▸ near
      obtain ⟨v', entered, grows', enters⟩ := enterZone_enters grows.sound legal'
        (.single excess) near' linked there
      rw [if_neg there, enterZone_new]
      unfold Volume.withBlock at entered
      dsimp only [Volume.setBlock] at entered ⊢
      rw [same.sp, entered]
      exact ⟨v', _, 0, rfl, ⟨grows.trans grows', .inl ⟨rfl, kept.trans_entered same.sp enters⟩⟩,
        doubleZone_setZone (grows'.same.sp.trans same.sp) (by omega)⟩

/-- A zone is entered below the double indirect block, which is created first if it is absent. -/
theorem writeMap_double_settles (far : ¬ v.fs.sp.zoneOf position < v.fs.sp.version.nrDzones)
    (farther : ¬ v.fs.sp.zoneOf position - v.fs.sp.version.nrDzones < v.fs.sp.version.indirects)
    (inRange : (v.fs.sp.placeOf position).InRange v.fs.sp.version) :
    ∃ v' rip' r, writeMap v rip position zone = some (v', rip', r) ∧
      Settled v v' rip rip' (v.fs.sp.placeOf position) zone r ∧
      (v'.doubleZone rip' = 0 ↔ v.doubleZone rip = 0 ∧ v.fs.freeZones = 0) ∧
      (v.doubleZone rip = 0 → (r = 0 ↔ 1 < v.fs.freeZones)) := by
  have place : v.fs.sp.placeOf position = .double
      ((v.fs.sp.zoneOf position - v.fs.sp.version.nrDzones - v.fs.sp.version.indirects) /
        v.fs.sp.version.indirects)
      ((v.fs.sp.zoneOf position - v.fs.sp.version.nrDzones - v.fs.sp.version.indirects) %
        v.fs.sp.version.indirects) := by
    unfold Super.placeOf Version.place
    rw [if_neg far, if_neg farther]
  unfold writeMap
  rw [place] at inRange ⊢
  rw [if_neg far, if_neg farther]
  generalize (v.fs.sp.zoneOf position - v.fs.sp.version.nrDzones - v.fs.sp.version.indirects) /
    v.fs.sp.version.indirects = indEx at inRange ⊢
  generalize (v.fs.sp.zoneOf position - v.fs.sp.version.nrDzones - v.fs.sp.version.indirects) %
    v.fs.sp.version.indirects = excess at inRange ⊢
  obtain ⟨small, below⟩ := inRange
  have within : ¬ v.fs.sp.version.indirects ≤ indEx := UInt32.not_le.mpr small
  by_cases absent : rip.zone (v.fs.sp.version.nrDzones.toNat + 1) = 0
  case neg =>
    rw [if_neg absent, if_neg within]
    obtain ⟨v', r, written, settled, -⟩ := writeDouble_settles sound legal absent small below
    have same : v'.doubleZone rip = v.doubleZone rip := doubleZone_congr settled.1.same.sp
    exact ⟨v', rip, r, written, settled, iff_of_false (same ▸ absent) (mt And.left absent),
      fun none => absurd none absent⟩
  case pos =>
    rw [if_pos absent]
    obtain ⟨fs, z, allocated, same, outcome⟩ := volume_allocZone sound (rip.zone 0)
    rw [allocated, bind_some]
    dsimp only
    obtain ⟨rfl, rfl, full⟩ | takes := outcome
    · rw [if_pos rfl]
      exact ⟨_, rip, enospc, rfl, ⟨.refl sound, .inr ⟨rfl, .refl v rip⟩⟩,
        ⟨fun none => ⟨none, full⟩, And.left⟩,
        fun _ => iff_of_false (by decide) (by simp [full])⟩
    · obtain ⟨grows, kept⟩ := create_double sound same takes absent
      have there : z ≠ 0 := takes.has.pos sound.sized
      have double : (v.withBlock fs z).doubleZone
          (rip.setZone (v.fs.sp.version.nrDzones.toNat + 1) z) = z := by
        unfold Volume.doubleZone Volume.withBlock Volume.setBlock Inode.setZone
        dsimp only
        rw [same.sp, update_self]
      have legal' : zone = 0 ∨ fs.sp.HasZone zone := same.sp ▸ legal
      have small' : indEx < fs.sp.version.indirects := same.sp ▸ small
      have below' : excess < fs.sp.version.indirects := same.sp ▸ below
      have present : (v.withBlock fs z).doubleZone
          (rip.setZone (v.fs.sp.version.nrDzones.toNat + 1) z) ≠ 0 :=
        fun wrong => there (double.symm.trans wrong)
      obtain ⟨v', r, written, settled, room⟩ :=
        writeDouble_settles grows.sound legal' present small' below'
      have fewer := takes.fewer
      rw [double] at written
      rw [if_neg there, if_neg within, writeDouble_new]
      unfold Volume.withBlock at written
      dsimp only [Volume.setBlock] at written ⊢
      rw [same.sp, written]
      refine ⟨v', _, r, rfl, settled.after grows kept, iff_of_false ?_ (by omega), fun _ => ?_⟩
      · rw [doubleZone_congr settled.1.same.sp]
        exact present
      · rw [double] at room
        rw [room (withBlock_zeroed sound same takes small)]
        change fs.freeZones ≠ 0 ↔ _
        omega

/-- `write_map` inside the map enters the zone, or it finds no free zone for an indirect block. -/
theorem writeMap_settles (inRange : (v.fs.sp.placeOf position).InRange v.fs.sp.version) :
    ∃ v' rip' r, writeMap v rip position zone = some (v', rip', r) ∧
      Settled v v' rip rip' (v.fs.sp.placeOf position) zone r ∧
      (v'.doubleZone rip' = 0 ↔ v.doubleZone rip = 0 ∧
        ((v.fs.sp.placeOf position).Far → v.fs.freeZones = 0)) ∧
      ((v.fs.sp.placeOf position).Far → v.doubleZone rip = 0 → (r = 0 ↔ 1 < v.fs.freeZones)) := by
  by_cases near : v.fs.sp.zoneOf position < v.fs.sp.version.nrDzones
  case pos =>
    have place : v.fs.sp.placeOf position = .direct (v.fs.sp.zoneOf position) := if_pos near
    have other := direct_ne near
    rw [place]
    refine ⟨v, _, 0, if_pos near, setZone_enters sound near, ?_, fun far => nomatch far⟩
    rw [doubleZone_setZone rfl (by omega)]
    exact ⟨fun none => ⟨none, fun far => nomatch far⟩, And.left⟩
  case neg =>
    by_cases single : v.fs.sp.zoneOf position - v.fs.sp.version.nrDzones < v.fs.sp.version.indirects
    case pos =>
      have place : v.fs.sp.placeOf position =
          .single (v.fs.sp.zoneOf position - v.fs.sp.version.nrDzones) := by
        unfold Super.placeOf Version.place
        rw [if_neg near, if_pos single]
      obtain ⟨v', rip', r, written, settled, same⟩ := writeSingle_settles sound legal near single
      rw [place]
      refine ⟨v', rip', r, written, settled, ?_, fun far => nomatch far⟩
      rw [same]
      exact ⟨fun none => ⟨none, fun far => nomatch far⟩, And.left⟩
    case neg =>
      obtain ⟨v', rip', r, written, settled, double, room⟩ :=
        writeMap_double_settles sound legal near single inRange
      have far : (v.fs.sp.placeOf position).Far := by
        unfold Super.placeOf Version.place
        rw [if_neg near, if_neg single]
        exact .double _ _
      exact ⟨v', rip', r, written, settled, double.trans (by simp [far]), fun _ => room⟩

end

/-! ### Positions -/

/-- The relative zone of the position is inside the map. -/
def Super.Mapped (sp : Super) (position : UInt32) : Prop := (sp.placeOf position).InRange sp.version

instance (sp : Super) (position : UInt32) : Decidable (sp.Mapped position) :=
  inferInstanceAs (Decidable (Place.InRange _ _))

/-- `read_map` finds the same blocks below the maximum size of a file. -/
def SameMap (v v' : Volume) (rip rip' : Inode) : Prop :=
  ∀ p < v.fs.sp.disk.maxSize, readMap v'.dev v'.fs.sp rip' p = readMap v.dev v.fs.sp rip p

/-- `read_map` finds the blocks of the zone in the zone of the position, and elsewhere the same
blocks. -/
def MapsZone (v v' : Volume) (rip rip' : Inode) (position zone : UInt32) : Prop :=
  ∀ p < v.fs.sp.disk.maxSize, readMap v'.dev v'.fs.sp rip' p =
    if v.fs.sp.zoneOf p = v.fs.sp.zoneOf position then some (v.fs.sp.blockIn p zone)
    else readMap v.dev v.fs.sp rip p

/-- Each zone that is newly in use is that of an indirect block of the file. -/
def Referenced (v v' : Volume) (rip' : Inode) : Prop :=
  ∀ z, v.fs.sp.HasZone z → v'.fs.used z = true → v.fs.used z = true ∨
    ∃ role : Role, role.InRange v.fs.sp.version ∧ v'.roleZone rip' role = some z

/-! ### Places outside the map -/

section

variable (outside : ¬ v.fs.sp.Mapped position)
include outside

theorem outside_far :
    ¬ v.fs.sp.zoneOf position < v.fs.sp.version.nrDzones ∧
      ¬ v.fs.sp.zoneOf position - v.fs.sp.version.nrDzones < v.fs.sp.version.indirects ∧
      v.fs.sp.version.indirects ≤
        (v.fs.sp.zoneOf position - v.fs.sp.version.nrDzones - v.fs.sp.version.indirects) /
          v.fs.sp.version.indirects := by
  unfold Super.Mapped Super.placeOf Version.place at outside
  split at outside
  case isTrue near => exact absurd near outside
  case isFalse far =>
    split at outside
    case isTrue near => exact absurd near outside
    case isFalse farther =>
      refine ⟨far, farther, UInt32.not_lt.mp fun small => outside ⟨small, ?_⟩⟩
      refine UInt32.lt_iff_toNat_lt.mpr ?_
      rw [UInt32.toNat_mod]
      exact Nat.mod_lt _ (indirects_pos _)

theorem outside_isFar : (v.fs.sp.placeOf position).Far := by
  obtain ⟨far, farther, -⟩ := outside_far outside
  unfold Super.placeOf Version.place
  rw [if_neg far, if_neg farther]
  exact .double _ _

/-- Outside the map, the double indirect block is created before the place is tested. -/
theorem writeMap_outside (absent : v.doubleZone rip = 0) : writeMap v rip position zone =
      (v.allocZone (rip.zone 0)).map fun allocated =>
        if allocated.2 = 0 then (allocated.1, rip, enospc)
        else (allocated.1, rip.setZone (v.fs.sp.version.nrDzones.toNat + 1) allocated.2, efbig) := by
  obtain ⟨far, farther, large⟩ := outside_far outside
  have absent : rip.zone (v.fs.sp.version.nrDzones.toNat + 1) = 0 := absent
  unfold writeMap
  rw [if_neg far, if_neg farther, if_pos absent, Option.map_eq_bind]
  refine Option.bind_congr fun allocated _ => ?_
  dsimp only [Function.comp]
  rw [if_pos large]
  split <;> rfl

theorem writeMap_outside_present (present : v.doubleZone rip ≠ 0) :
    writeMap v rip position zone = some (v, rip, efbig) := by
  obtain ⟨far, farther, large⟩ := outside_far outside
  have present : rip.zone (v.fs.sp.version.nrDzones.toNat + 1) ≠ 0 := present
  unfold writeMap
  rw [if_neg far, if_neg farther, if_neg present, if_pos large]

end

/-- Behind the map, `read_map` finds no block as long as there is no double indirect block, and reads
outside of that block when there is one. -/
theorem readMap_outside (outside : ¬ v.fs.sp.Mapped position) :
    readMap v.dev v.fs.sp rip position = if v.doubleZone rip = 0 then some 0 else none := by
  obtain ⟨far, farther, large⟩ := outside_far outside
  rw [readMap_eq]
  unfold Super.placeOf Version.place
  rw [if_neg far, if_neg farther]
  unfold Volume.zoneAt
  dsimp only
  by_cases absent : v.doubleZone rip = 0
  · rw [absent, if_pos rfl]
    rfl
  · have behind : v.leaf (v.doubleZone rip)
        ((v.fs.sp.zoneOf position - v.fs.sp.version.nrDzones - v.fs.sp.version.indirects) /
          v.fs.sp.version.indirects) = none := by
      unfold Volume.leaf
      rw [if_neg absent]
      exact rdIndir_behind large
    rw [behind, if_neg absent]
    rfl

theorem readMap_outside_iff (sp : v'.fs.sp = v.fs.sp) (outside : ¬ v.fs.sp.Mapped position) :
    readMap v'.dev v'.fs.sp rip' position = readMap v.dev v.fs.sp rip position ↔
      (v'.doubleZone rip' = 0 ↔ v.doubleZone rip = 0) := by
  rw [readMap_outside outside, readMap_outside (sp ▸ outside)]
  by_cases absent : v.doubleZone rip = 0 <;> by_cases absent' : v'.doubleZone rip' = 0 <;>
    simp [absent, absent']

/-- Every position of a file is inside the map. -/
def Super.MapsAll (sp : Super) : Prop := ∀ p < sp.disk.maxSize, sp.Mapped p

/-- The map is kept at the positions behind it. -/
theorem sameMap_iff (sp : v'.fs.sp = v.fs.sp) (kept : Kept v v' rip rip') :
    SameMap v v' rip rip' ↔
      v.fs.sp.MapsAll ∨ (v'.doubleZone rip' = 0 ↔ v.doubleZone rip = 0) := by
  constructor
  · intro same
    by_contra neither
    obtain ⟨behind, different⟩ := not_or.mp neither
    obtain ⟨p, below, outside⟩ : ∃ p < v.fs.sp.disk.maxSize, ¬ v.fs.sp.Mapped p := by
      simpa [Super.MapsAll] using behind
    exact different ((readMap_outside_iff sp outside).mp (same p below))
  · intro whole p below
    by_cases mapped : v.fs.sp.Mapped p
    · rw [readMap_eq, readMap_eq, sp, kept _ mapped]
    · exact (readMap_outside_iff sp mapped).mpr
        (whole.resolve_left fun all => mapped (all p below))

theorem mapsZone_iff (sp : v'.fs.sp = v.fs.sp) (mapped : v.fs.sp.Mapped position)
    (entered : Entered v v' rip rip' (v.fs.sp.placeOf position) zone) :
    MapsZone v v' rip rip' position zone ↔
      v.fs.sp.MapsAll ∨ (v'.doubleZone rip' = 0 ↔ v.doubleZone rip = 0) := by
  have apart {p : UInt32} (outside : ¬ v.fs.sp.Mapped p) :
      v.fs.sp.zoneOf p ≠ v.fs.sp.zoneOf position := by
    intro same
    refine outside ?_
    rw [Super.Mapped, Super.placeOf, same]
    exact mapped
  constructor
  · intro maps
    by_contra neither
    obtain ⟨behind, different⟩ := not_or.mp neither
    obtain ⟨p, below, outside⟩ : ∃ p < v.fs.sp.disk.maxSize, ¬ v.fs.sp.Mapped p := by
      simpa [Super.MapsAll] using behind
    have same := maps p below
    rw [if_neg (apart outside)] at same
    exact different ((readMap_outside_iff sp outside).mp same)
  · intro whole p below
    by_cases inside : v.fs.sp.Mapped p
    · rw [readMap_eq, readMap_eq, sp, entered _ inside]
      by_cases same : v.fs.sp.zoneOf p = v.fs.sp.zoneOf position
      · have place : v.fs.sp.placeOf p = v.fs.sp.placeOf position :=
          congrArg v.fs.sp.version.place same
        rw [if_pos same, if_pos place, map_some]
      · have place : v.fs.sp.placeOf p ≠ v.fs.sp.placeOf position :=
          fun equal => same (place_injective equal)
        rw [if_neg same, if_neg place]
    · rw [if_neg (apart inside)]
      exact (readMap_outside_iff sp inside).mpr
        (whole.resolve_left fun all => inside (all p below))

/-! ### What `write_map` does -/

/-- `write_map` creates the double indirect block. -/
def Volume.CreatesDouble (v : Volume) (rip : Inode) (position : UInt32) : Prop :=
  (v.fs.sp.placeOf position).Far ∧ v.doubleZone rip = 0 ∧ 0 < v.fs.freeZones

/-- Every position of a file is inside the map, or no double indirect block is created. -/
def Volume.MapSafe (v : Volume) (rip : Inode) (position : UInt32) : Prop :=
  v.fs.sp.MapsAll ∨ ¬ v.CreatesDouble rip position

theorem mapSafe_iff (double : v'.doubleZone rip' = 0 ↔ v.doubleZone rip = 0 ∧
    ((v.fs.sp.placeOf position).Far → v.fs.freeZones = 0)) :
    v.MapSafe rip position ↔
      v.fs.sp.MapsAll ∨ (v'.doubleZone rip' = 0 ↔ v.doubleZone rip = 0) := by
  rw [Volume.MapSafe, Volume.CreatesDouble, double, Nat.pos_iff_ne_zero]
  tauto

/-- The zone is entered, or the call fails; the map is right if it is safe. -/
theorem writeMap_outcome (sound : v.Sound rip) (legal : zone = 0 ∨ v.fs.sp.HasZone zone)
    (below : position < v.fs.sp.disk.maxSize) :
    ∃ v' rip' r, writeMap v rip position zone = some (v', rip', r) ∧ v'.fs.sp = v.fs.sp ∧
      v'.fs.rdOnly = false ∧ (∀ z, v.fs.sp.HasZone z → v.fs.used z = true → v'.fs.used z = true) ∧
      Referenced v v' rip' ∧
      ((v.fs.sp.placeOf position).Far → v.doubleZone rip = 0 →
        (r = 0 ↔ v.fs.sp.Mapped position ∧ 1 < v.fs.freeZones)) ∧
      (r = 0 ∧ (MapsZone v v' rip rip' position zone ↔ v.MapSafe rip position) ∨
        (r = enospc ∨ r = efbig) ∧ (SameMap v v' rip rip' ↔ v.MapSafe rip position)) := by
  by_cases mapped : v.fs.sp.Mapped position
  · obtain ⟨v', rip', r, written, ⟨grows, outcome⟩, double, room⟩ :=
      writeMap_settles sound legal mapped
    refine ⟨v', rip', r, written, grows.same.sp, grows.sound.writable, grows.used,
      grows.accounted, fun far absent => (room far absent).trans (by simp [mapped]), ?_⟩
    rw [mapSafe_iff double]
    obtain ⟨done, entered⟩ | ⟨failed, kept⟩ := outcome
    · exact .inl ⟨done, mapsZone_iff grows.same.sp mapped entered⟩
    · exact .inr ⟨.inl failed, sameMap_iff grows.same.sp kept⟩
  · have behind : ¬ v.fs.sp.MapsAll := fun all => mapped (all position below)
    by_cases absent : v.doubleZone rip = 0
    · obtain ⟨fs, z, allocated, unchanged, outcome⟩ := volume_allocZone sound (rip.zone 0)
      rw [writeMap_outside mapped absent, allocated, map_some]
      obtain ⟨rfl, rfl, full⟩ | takes := outcome
      · rw [if_pos rfl]
        refine ⟨_, _, _, rfl, rfl, sound.writable, fun _ _ => id, fun _ _ => .inl,
          fun _ _ => iff_of_false (by decide) (fun both => mapped both.1),
          .inr ⟨.inl rfl, iff_of_true (fun _ _ => rfl) (.inr fun creates => ?_)⟩⟩
        exact absurd full creates.2.2.ne'
      · have there : z ≠ 0 := takes.has.pos sound.sized
        rw [if_neg there]
        have present : ({ v with fs := fs } : Volume).doubleZone
            (rip.setZone (v.fs.sp.version.nrDzones.toNat + 1) z) = z := by
          unfold Volume.doubleZone Inode.setZone
          dsimp only
          rw [unchanged.sp, update_self]
        refine ⟨_, _, _, rfl, unchanged.sp, unchanged.rdOnly.trans sound.writable,
          fun other has used => ?_, fun other has used => ?_,
          fun _ _ => iff_of_false (by decide) (fun both => mapped both.1),
          .inr ⟨.inr rfl, iff_of_false (fun kept => ?_) (fun safe => ?_)⟩⟩
        · by_cases new : other = z
          · exact new ▸ takes.taken
          · exact (takes.others other has new).trans used
        · by_cases new : other = z
          · exact .inr ⟨.double, doubleIn, congrArg some (present.trans new.symm)⟩
          · exact .inl ((takes.others other has new).symm.trans used)
        · have still := (readMap_outside_iff unchanged.sp mapped).mp (kept position below)
          exact there (present.symm.trans (still.mpr absent))
        · exact safe.resolve_left behind ⟨outside_isFar mapped, absent, takes.fewer ▸ Nat.succ_pos _⟩
    · rw [writeMap_outside_present mapped absent]
      exact ⟨v, rip, efbig, rfl, rfl, sound.writable, fun _ _ => id, fun _ _ => .inl,
        fun _ none => absurd none absent,
        .inr ⟨.inr rfl, iff_of_true (fun _ _ => rfl) (.inr fun creates => absent creates.2.1)⟩⟩

theorem Volume.Sound.take (sound : v.Sound rip) (same : v.fs.Same fs)
    (takes : v.fs.TakesZone fs z) : ({ v with fs := fs } : Volume).Sound rip := by
  have roles (role : Role) :
      ({ v with fs := fs } : Volume).roleZone rip role = v.roleZone rip role := by
    unfold Volume.roleZone Volume.singleZone Volume.doubleZone
    simp only [leaf_fs same.sp]
    rw [same.sp]
  refine ⟨same.sp ▸ sound.sized, same.wellFormed, same.rdOnly.trans sound.writable,
    fun indEx small => ?_, fun role z' inRange holds present => ?_,
    fun role role' z' inRange inRange' holds holds' present => ?_⟩
  · obtain ⟨z', holds⟩ := sound.reads indEx (same.sp ▸ small)
    exact ⟨z', (roles (.second indEx)).trans holds⟩
  · have inRange : role.InRange v.fs.sp.version := same.sp ▸ inRange
    rw [roles] at holds
    obtain ⟨has, used⟩ := sound.inUse role z' inRange holds present
    refine ⟨same.sp ▸ has, ?_⟩
    exact (takes.others z' has (sound.fresh takes inRange holds)).trans used
  · rw [roles] at holds holds'
    exact sound.apart role role' z' (same.sp ▸ inRange) (same.sp ▸ inRange') holds holds' present

/-! ### What `new_block` does -/

/-- The first zone that `new_block` looks near. -/
def Volume.nearZone (v : Volume) (rip : Inode) : UInt32 :=
  if rip.zone 0 = 0 then v.fs.sp.disk.firstdatazone.toUInt32 else rip.zone 0

/-- `write_map` does what it should: it enters the zone, or it fails and leaves the map. -/
def WriteMapRight (v : Volume) (rip : Inode) (position zone : UInt32) : Prop :=
  ∃ v' rip' r, writeMap v rip position zone = some (v', rip', r) ∧ Referenced v v' rip' ∧
    (r = 0 ∧ MapsZone v v' rip rip' position zone ∨
      (r = enospc ∨ r = efbig) ∧ SameMap v v' rip rip')

/-- `new_block` does what it should when it fails. -/
def NewBlockRight (v : Volume) (rip : Inode) (position : UInt32) : Prop :=
  ∀ v' rip' e, newBlock v rip position = some (v', rip', .error e) →
    Referenced v v' rip' ∧ SameMap v v' rip rip'

/-- Every position of a file is inside the map; or no double indirect block is created, for which a
zone is needed besides the one for the block; or there is one more zone for the indirect block
below it, and the call does not fail. -/
def Volume.NewBlockSafe (v : Volume) (rip : Inode) (position : UInt32) : Prop :=
  v.fs.sp.MapsAll ∨
    ¬ ((v.fs.sp.placeOf position).Far ∧ v.doubleZone rip = 0 ∧ 1 < v.fs.freeZones) ∨
    v.fs.sp.Mapped position ∧ 2 < v.fs.freeZones

theorem writeMap_right_iff (sound : v.Sound rip) (legal : zone = 0 ∨ v.fs.sp.HasZone zone)
    (below : position < v.fs.sp.disk.maxSize) :
    WriteMapRight v rip position zone ↔ v.MapSafe rip position := by
  obtain ⟨v', rip', r, written, -, -, -, referenced, -, outcome⟩ :=
    writeMap_outcome sound legal below
  have right : WriteMapRight v rip position zone ↔ r = 0 ∧ MapsZone v v' rip rip' position zone ∨
      (r = enospc ∨ r = efbig) ∧ SameMap v v' rip rip' := by
    refine ⟨?_, fun done => ⟨v', rip', r, written, referenced, done⟩⟩
    rintro ⟨v'', rip'', r', written', -, done⟩
    cases some.inj (written.symm.trans written')
    exact done
  rw [right]
  obtain ⟨rfl, maps⟩ | ⟨failed, same⟩ := outcome
  · rw [← maps]
    simp [enospc, efbig]
  · have error : r ≠ 0 := by
      rintro rfl
      obtain wrong | wrong := failed <;> cases wrong
    simp [failed, error, same]

theorem readMap_absent (far : (v.fs.sp.placeOf position).Far) (absent : v.doubleZone rip = 0) :
    readMap v.dev v.fs.sp rip position = some 0 := by
  rw [readMap_eq]
  cases place : v.fs.sp.placeOf position with
  | double indEx excess =>
    unfold Volume.zoneAt
    rw [absent]
    rfl
  | direct | single =>
    rw [place] at far
    cases far

theorem newBlock_absent (none : readMap v.dev v.fs.sp rip position = some 0)
    (allocated : v.allocZone (v.nearZone rip) = some (v', z)) : newBlock v rip position =
      if z = 0 then some (v', rip, .error enospc)
      else (writeMap v' rip position z).bind fun (v', rip, r) =>
        if r ≠ 0 then (freeZone v'.fs z).map fun fs => ({ v' with fs := fs }, rip, .error r)
        else
          (if position ≠ rip.size then clearZone v' rip position true else some v').map fun v' =>
            (v'.setBlock (z <<< v.fs.sp.scale + position % (1024 <<< v.fs.sp.scale) / 1024)
              zeroBlock, rip, .ok (z <<< v.fs.sp.scale + position % (1024 <<< v.fs.sp.scale) / 1024)) := by
  unfold newBlock
  dsimp only
  rw [none, bind_some, if_pos rfl]
  change (v.allocZone (v.nearZone rip)).bind _ = _
  rw [allocated]
  rfl

theorem newBlock_present {e : Int} (there : readMap v.dev v.fs.sp rip position ≠ some 0) :
    newBlock v rip position ≠ some (v', rip', .error e) := by
  unfold newBlock
  intro failed
  obtain ⟨b, found, answer⟩ := Option.bind_eq_some_iff.mp failed
  have present : b ≠ 0 := by
    rintro rfl
    exact there found
  rw [if_neg present] at answer
  cases answer

/-- When `new_block` does what it should. -/
theorem newBlock_right_iff (sound : v.Sound rip) (below : position < v.fs.sp.disk.maxSize) :
    NewBlockRight v rip position ↔ v.NewBlockSafe rip position := by
  obtain ⟨fs, z, allocated, same, outcome⟩ := volume_allocZone sound (v.nearZone rip)
  obtain ⟨rfl, rfl, full⟩ | takes := outcome
  · -- no zone is free
    refine iff_of_true (fun v' rip' e failed => ?_) (.inr (.inl fun creates => ?_))
    · by_cases none : readMap v.dev v.fs.sp rip position = some 0
      · rw [newBlock_absent none allocated, if_pos rfl] at failed
        cases failed
        exact ⟨fun _ _ => .inl, fun _ _ => rfl⟩
      · exact absurd failed (newBlock_present none)
    · have room := creates.2.2
      omega
  · have there : z ≠ 0 := takes.has.pos sound.sized
    have fewer := takes.fewer
    have legal : z = 0 ∨ fs.sp.HasZone z := same.sp ▸ .inr takes.has
    have double : ({ v with fs := fs } : Volume).doubleZone rip = v.doubleZone rip :=
      doubleZone_congr same.sp
    obtain ⟨v', rip', r, written, sp, writable, mono, referenced, room, outcome⟩ :=
      writeMap_outcome (sound.take same takes) legal (same.sp ▸ below)
    unfold Volume.MapSafe Volume.CreatesDouble at outcome
    rw [double] at room outcome
    dsimp only at sp mono room outcome
    rw [same.sp] at room outcome
    by_cases none : readMap v.dev v.fs.sp rip position = some 0
    case neg =>
      refine iff_of_true (fun v' rip' e failed => absurd failed (newBlock_present none))
        (.inr (.inl fun creates => none (readMap_absent creates.1 creates.2.1)))
    case pos =>
      have run := newBlock_absent none allocated
      rw [if_neg there, written, bind_some] at run
      dsimp only at run
      obtain ⟨rfl, -⟩ | ⟨failed, sameMap⟩ := outcome
      · -- the call succeeds
        refine iff_of_true (fun v'' rip'' e failed => ?_) (.inr ?_)
        · rw [if_neg (not_not.mpr rfl)] at run
          rw [run] at failed
          obtain ⟨v1, -, wrong⟩ := Option.map_eq_some_iff.mp failed
          cases wrong
        · refine or_iff_not_imp_left.mpr fun creates => ?_
          obtain ⟨far, absent, -⟩ := not_not.mp creates
          obtain ⟨mapped, more⟩ := (room far absent).mp rfl
          exact ⟨mapped, by omega⟩
      · have error : r ≠ 0 := by
          rintro rfl
          obtain wrong | wrong := failed <;> cases wrong
        have has : v'.fs.sp.HasZone z := sp ▸ same.sp ▸ takes.has
        have sized : v'.fs.sp.Sized := sp ▸ same.sp ▸ sound.sized
        obtain ⟨fs', freed, sp', free, others⟩ :=
          freeZone_frees sized writable has (mono z (same.sp ▸ takes.has) takes.taken)
        rw [if_pos error, freed, map_some] at run
        have after : SameMap v { v' with fs := fs' } rip rip' ↔
            SameMap { v with fs := fs } v' rip rip' := by
          unfold SameMap
          rw [same.sp, sp', sp, same.sp]
        have safe : v.NewBlockSafe rip position ↔ SameMap { v with fs := fs } v' rip rip' := by
          have short : (v.fs.sp.placeOf position).Far → v.doubleZone rip = 0 →
              ¬ (v.fs.sp.Mapped position ∧ 2 < v.fs.freeZones) := fun far absent both =>
            error ((room far absent).mpr ⟨both.1, by omega⟩)
          have more : 1 < v.fs.freeZones ↔ 0 < fs.freeZones := by omega
          rw [sameMap, Volume.NewBlockSafe, more]
          exact or_congr_right ⟨fun either => either.elim id fun both creates =>
            short creates.1 creates.2.1 both, .inl⟩
        rw [safe, ← after]
        constructor
        · exact fun right => (right _ _ _ run).2
        · intro kept v'' rip'' e again
          rw [run] at again
          cases again
          refine ⟨fun other has' used => ?_, kept⟩
          have has'' : v'.fs.sp.HasZone other := sp ▸ same.sp ▸ has'
          by_cases new : other = z
          · rw [new] at used
            rw [free] at used
            cases used
          · have used : v'.fs.used other = true := (others other has'' new).symm.trans used
            obtain before | ⟨role, inRange, holds⟩ := referenced other (same.sp ▸ has') used
            · exact .inl ((takes.others other has' new).symm.trans before)
            · refine .inr ⟨role, same.sp ▸ inRange, ?_⟩
              unfold Volume.roleZone Volume.singleZone Volume.doubleZone at holds ⊢
              simp only [leaf_fs sp']
              rw [sp']
              exact holds

/-- Below the maximum size of a file, `write_map` enters a zone at its place or leaves the map, and
`new_block` leaves it when it fails, exactly when every position of a file is inside the map or the
call does not create the double indirect block. A call of `new_block` that creates it does not fail
if it finds two more zones. -/
theorem map_updates_right_iff (sound : v.Sound rip) (legal : zone = 0 ∨ v.fs.sp.HasZone zone)
    (below : position < v.fs.sp.disk.maxSize) :
    (WriteMapRight v rip position zone ↔ v.MapSafe rip position) ∧
      (NewBlockRight v rip position ↔ v.NewBlockSafe rip position) :=
  ⟨writeMap_right_iff sound legal below, newBlock_right_iff sound below⟩

end Write

/-! ### A place outside the map -/

/-- A file system whose free zones hold what is left of deleted files, and which promises files of
this size. -/
def garbageVolume (maxSize : UInt32) : Volume where
  fs := { smallFs with
    sp := { smallSuper with disk := { smallSuper.disk with maxSize := maxSize } } }
  dev _ i := if i = 0 then 8 else 0

theorem garbageVolume_sound (maxSize : UInt32) : (garbageVolume maxSize).Sound {} := by
  have zero (role : Role) (z : UInt32)
      (holds : (garbageVolume maxSize).roleZone {} role = some z) : z = 0 := by
    cases role <;> exact (some.inj holds).symm
  refine ⟨⟨(by decide : 0 < smallSuper.disk.firstdatazone.toUInt32.toNat),
      (by decide : smallSuper.disk.firstdatazone.toUInt32 ≤ smallSuper.disk.zones),
      (by decide : smallSuper.scale ≤ 4),
      (by decide : smallSuper.disk.zones.toNat * 2 ^ smallSuper.scale.toNat ≤ 2 ^ 32),
      (by decide : smallSuper.version = .v1 → smallSuper.disk.zones.toNat ≤ 65536)⟩,
    ⟨smallFs_wellFormed.holds, smallFs_wellFormed.short, smallFs_wellFormed.reserved⟩, rfl,
    fun indEx _ => ⟨0, rfl⟩,
    fun role z _ holds present => absurd (zero role z holds) present,
    fun role role' z _ _ holds _ present => absurd (zero role z holds) present⟩

/-- The positions of the largest file that the map has room for. -/
theorem garbageVolume_mapsAll : (garbageVolume 67378176).fs.sp.MapsAll := by
  intro p below
  have below : p.toNat < 67378176 := UInt32.lt_iff_toNat_lt.mp below
  have number : ((garbageVolume 67378176).fs.sp.zoneOf p).toNat = p.toNat / 1024 := by
    rw [Super.zoneOf, show (garbageVolume 67378176).fs.sp.scale = 0 from rfl,
      UInt32.toNat_shiftRight, UInt32.toNat_div]
    exact Nat.shiftRight_zero
  by_contra outside
  obtain ⟨far, farther, large⟩ := @outside_far (garbageVolume 67378176) p outside
  rw [show (garbageVolume 67378176).fs.sp.version = .v2 from rfl] at far farther large
  generalize (garbageVolume 67378176).fs.sp.zoneOf p = zone at *
  have far := UInt32.le_iff_toNat_le.mp (UInt32.not_lt.mp far)
  have farther := UInt32.le_iff_toNat_le.mp (UInt32.not_lt.mp farther)
  have large := UInt32.le_iff_toNat_le.mp large
  have less := UInt32.toNat_sub_of_le zone Version.v2.nrDzones (UInt32.le_iff_toNat_le.mpr far)
  rw [UInt32.toNat_div, UInt32.toNat_sub_of_le _ _ (UInt32.le_iff_toNat_le.mpr farther), less,
    show Version.v2.nrDzones.toNat = 7 from rfl,
    show Version.v2.indirects.toNat = 256 from rfl] at large
  omega

/-- Below the double indirect block, which is created with the single one, a zone is entered, and
nothing is found behind the end of the map. -/
theorem far_zone_entered :
    WriteMapRight (garbageVolume 67378176) {} 269312 9 ∧
      NewBlockRight (garbageVolume 67378176) {} 269312 := by
  obtain ⟨written, created⟩ := map_updates_right_iff (garbageVolume_sound 67378176)
    (.inr ⟨by decide, by decide⟩ : (9 : UInt32) = 0 ∨ _) (by decide : (269312 : UInt32) < 67378176)
  exact ⟨written.mpr (.inl garbageVolume_mapsAll), created.mpr (.inl garbageVolume_mapsAll)⟩

/-- Beyond the map of an empty file, `write_map` and `new_block` return `EFBIG`, and then blocks are
found at a position where there was none. -/
theorem too_far_maps_garbage :
    (garbageVolume 0x7fffffff).Sound {} ∧
      readMap (garbageVolume 0x7fffffff).dev (garbageVolume 0x7fffffff).fs.sp {} 269312 = some 0 ∧
      ((writeMap (garbageVolume 0x7fffffff) {} 67378176 9).bind fun (v, rip, r) =>
        if r = efbig then readMap v.dev v.fs.sp rip 269312 else none) = some 8 ∧
      ((newBlock (garbageVolume 0x7fffffff) {} 67378176).bind fun (v, rip, reply) =>
        match reply with
        | .error e => if e = efbig then readMap v.dev v.fs.sp rip 269312 else none
        | .ok _ => none) = some 8 :=
  ⟨garbageVolume_sound _, by decide, by decide, by decide⟩

end Minix.Disk
