/-
This file describes the map of a file by the places where zones are entered: in the inode, in the
single indirect block, and in the blocks that the double indirect block points to.

`read_map` looks up the zone at the place of a position. The map is sound when the indirect blocks
of the file are different zones, which are marked in use.
-/

import Minix.Disk.Mapping

namespace Minix.Disk

/-! ### Places -/

/-- Where a zone is entered: in the inode, in the single indirect block, or in a block that the
double indirect block points to. -/
inductive Place
  | direct (zone : UInt32)
  | single (excess : UInt32)
  | double (indEx excess : UInt32)
deriving DecidableEq

/-- The place of a relative zone. -/
def Version.place (version : Version) (zone : UInt32) : Place :=
  if zone < version.nrDzones then .direct zone
  else if zone - version.nrDzones < version.indirects then .single (zone - version.nrDzones)
  else
    .double ((zone - version.nrDzones - version.indirects) / version.indirects)
      ((zone - version.nrDzones - version.indirects) % version.indirects)

/-- The place is below the double indirect block. -/
inductive Place.Far : Place → Prop
  | double (indEx excess : UInt32) : Far (.double indEx excess)

/-- The place is inside the indirect blocks. -/
def Place.InRange (version : Version) : Place → Prop
  | .direct zone => zone < version.nrDzones
  | .single excess => excess < version.indirects
  | .double indEx excess => indEx < version.indirects ∧ excess < version.indirects

instance (version : Version) (place : Place) : Decidable (place.InRange version) :=
  match place with
  | .direct _ => inferInstanceAs (Decidable (_ < _))
  | .single _ => inferInstanceAs (Decidable (_ < _))
  | .double _ _ => inferInstanceAs (Decidable (_ ∧ _))

theorem indirects_pos (version : Version) : 0 < version.indirects.toNat := by
  cases version <;> decide

section Place

variable {version : Version} {zone zone' : UInt32}

/-- The relative zone whose place it is. -/
def Version.zoneOf (version : Version) : Place → UInt32
  | .direct zone => zone
  | .single excess => excess + version.nrDzones
  | .double indEx excess =>
    indEx * version.indirects + excess + version.indirects + version.nrDzones

theorem zoneOf_place (version : Version) (zone : UInt32) :
    version.zoneOf (version.place zone) = zone := by
  have parts (x y : UInt32) : x / y * y + x % y = x := by
    rw [← UInt32.toNat_inj, UInt32.toNat_add, UInt32.toNat_mul, UInt32.toNat_div, UInt32.toNat_mod,
      Nat.mod_add_mod, Nat.div_add_mod', Nat.mod_eq_of_lt x.toNat_lt]
  unfold Version.place
  split_ifs
  · rfl
  · exact UInt32.sub_add_cancel _ _
  · rw [Version.zoneOf, parts, UInt32.sub_add_cancel, UInt32.sub_add_cancel]

theorem place_injective (same : version.place zone = version.place zone') : zone = zone' := by
  rw [← zoneOf_place version zone, same, zoneOf_place]

end Place

/-! ### The zone at a place -/

/-- An entry of the indirect block that is a zone. -/
def Volume.entry (v : Volume) (z index : UInt32) : Option UInt32 :=
  rdIndir v.fs.sp (v.dev (z <<< v.fs.sp.scale)) index

/-- An entry of an indirect block that may be absent. -/
def Volume.leaf (v : Volume) (z index : UInt32) : Option UInt32 :=
  if z = 0 then some 0 else v.entry z index

/-- The zone of the single indirect block. -/
def Volume.singleZone (v : Volume) (rip : Inode) : UInt32 :=
  rip.zone v.fs.sp.version.nrDzones.toNat

/-- The zone of the double indirect block. -/
def Volume.doubleZone (v : Volume) (rip : Inode) : UInt32 :=
  rip.zone (v.fs.sp.version.nrDzones.toNat + 1)

/-- The zone entered at a place. -/
def Volume.zoneAt (v : Volume) (rip : Inode) : Place → Option UInt32
  | .direct zone => some (rip.zone zone.toNat)
  | .single excess => v.leaf (v.singleZone rip) excess
  | .double indEx excess =>
    (v.leaf (v.doubleZone rip) indEx).bind fun z => v.leaf z excess

/-- The place of a position. -/
def Super.placeOf (sp : Super) (position : UInt32) : Place := sp.version.place (sp.zoneOf position)

/-- The block of a position in a zone; 0 is `NO_ZONE` and `NO_BLOCK`. -/
def Super.blockIn (sp : Super) (position z : UInt32) : UInt32 :=
  if z = 0 then 0 else z <<< sp.scale + (position / 1024 - sp.zoneOf position <<< sp.scale)

theorem readMap_eq (v : Volume) (rip : Inode) (position : UInt32) :
    readMap v.dev v.fs.sp rip position =
      (v.zoneAt rip (v.fs.sp.placeOf position)).map (v.fs.sp.blockIn position) := by
  have below (z index : UInt32) :
      mapIndirect v.dev v.fs.sp z index
          (position / 1024 - v.fs.sp.zoneOf position <<< v.fs.sp.scale) =
        (v.leaf z index).map (v.fs.sp.blockIn position) := by
    unfold mapIndirect Volume.leaf Volume.entry Super.blockIn
    split
    · rfl
    · cases rdIndir v.fs.sp (v.dev (z <<< v.fs.sp.scale)) index with
      | none => rfl
      | some z => exact (apply_ite some _ _ _).symm
  change (if v.fs.sp.zoneOf position < v.fs.sp.version.nrDzones then _ else _) = _
  unfold Super.placeOf Version.place
  split
  case isTrue =>
    exact (apply_ite some _ _ _).symm
  case isFalse =>
    change (if v.fs.sp.zoneOf position - v.fs.sp.version.nrDzones < v.fs.sp.version.indirects
      then _ else _) = _
    split
    case isTrue => exact below _ _
    case isFalse =>
      unfold Volume.zoneAt
      dsimp only
      unfold Volume.leaf Volume.doubleZone
      split
      · rfl
      · rw [Option.map_bind]
        exact Option.bind_congr fun z _ => below z _

end Minix.Disk
