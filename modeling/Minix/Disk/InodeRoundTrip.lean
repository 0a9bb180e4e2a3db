/-
This file proves that an inode that is written to the disk and read again has the fields it had, in
both versions of the file system and both byte orders.

The other way round an inode of a V1 disk is written as it was read. On a V2 disk there are 16 bits
for the group, but a `gid_t` is a `char`: the bytes stay the same exactly if the group on the disk is
the promotion of a `char`.
-/

import Minix.Disk.WriteInode

namespace Minix.Disk

open Function (update update_self update_eq_self_iff)
open Library

variable {dev : Device} {sp : Super} {rip node : Inode} {dip n : Nat} {norm : Bool}

/-! ### The variables of a disk inode -/

theorem pairwise_range {f : Nat → Assignment UInt8} (apart : ∀ i j, i < j → (f i).Apart (f j)) :
    ((List.range n).map f).Pairwise Assignment.Apart :=
  List.pairwise_map.mpr (List.pairwise_lt_range.imp fun less => apart _ _ less)

theorem oldIcopy_apart : (oldIcopyWriting rip dip norm).Pairwise Assignment.Apart := by
  refine List.pairwise_append.mpr ⟨?_, pairwise_range fun i j less => ?_, ?_⟩
  · simp only [List.pairwise_cons, List.forall_mem_cons, Assignment.Apart, Cell.Apart, wordCell,
      longCell, byteCell, List.Pairwise.nil, List.not_mem_nil]
    grind
  · change dip + 14 + 2 * i + 2 ≤ _ ∨ _
    exact .inl (by change _ ≤ dip + 14 + 2 * j; omega)
  · intro a first b zone
    obtain ⟨i, -, rfl⟩ := List.mem_map.mp zone
    refine .inl (Nat.le_trans ?_ (Nat.le_add_right (dip + 14) (2 * i)))
    revert a
    simp only [List.forall_mem_cons, wordCell, longCell, byteCell, List.not_mem_nil]
    grind

theorem newIcopy_apart : (newIcopyWriting rip dip norm).Pairwise Assignment.Apart := by
  refine List.pairwise_append.mpr ⟨?_, pairwise_range fun i j less => ?_, ?_⟩
  · simp only [List.pairwise_cons, List.forall_mem_cons, Assignment.Apart, Cell.Apart, wordCell,
      longCell, List.Pairwise.nil, List.not_mem_nil]
    grind
  · change dip + 24 + 4 * i + 4 ≤ _ ∨ _
    exact .inl (by change _ ≤ dip + 24 + 4 * j; omega)
  · intro a first b zone
    obtain ⟨i, -, rfl⟩ := List.mem_map.mp zone
    refine .inl (Nat.le_trans ?_ (Nat.le_add_right (dip + 24) (4 * i)))
    revert a
    simp only [List.forall_mem_cons, wordCell, longCell, List.not_mem_nil]
    grind

/-! ### Writing, then reading -/

/-- The fields that a disk has room for are the same. -/
structure SameFields (version : Version) (node node' : Inode) : Prop where
  mode : node.mode = node'.mode
  nlinks : node.nlinks = node'.nlinks
  uid : node.uid = node'.uid
  gid : node.gid = node'.gid
  size : node.size = node'.size
  mtime : node.mtime = node'.mtime
  times : version = .v2 → node.atime = node'.atime ∧ node.ctime = node'.ctime
  zone : ∀ i < version.nrTzones, node.zone i = node'.zone i

/-- The number of links and the zone numbers fit in a disk inode. -/
def FieldsFit (version : Version) (node : Inode) : Prop :=
  version = .v1 → node.nlinks < 256 ∧ ∀ i < version.nrTzones, node.zone i < 65536

theorem toUInt16_toUInt8 {w : UInt16} (small : w < 256) : w.toUInt8.toUInt16 = w := by
  refine UInt16.toNat_inj.mp ?_
  rw [UInt8.toNat_toUInt16, UInt16.toNat_toUInt8]
  exact Nat.mod_eq_of_lt small

theorem toUInt32_toUInt16 {x : UInt32} (small : x < 65536) : x.toUInt16.toUInt32 = x := by
  refine UInt32.toNat_inj.mp ?_
  rw [UInt16.toNat_toUInt32, UInt32.toNat_toUInt16]
  exact Nat.mod_eq_of_lt small

theorem toUInt8_promoteChar (c : UInt8) : (promoteChar c).toUInt8 = c := by
  refine UInt8.toBitVec_inj.mp (BitVec.eq_of_getLsbD_eq fun i small => ?_)
  simp only [UInt16.toBitVec_toUInt8, BitVec.getLsbD_setWidth, decide_eq_true small,
    Bool.true_and]
  change (BitVec.signExtend 16 c.toBitVec).getLsbD i = _
  rw [BitVec.getLsbD_signExtend, if_pos small, decide_eq_true (by omega), Bool.true_and]

theorem oldIcopy_written (b : Block) (num : UInt16) (range : FieldsFit .v1 rip) :
    SameFields .v1 (oldIcopy num (Block.v1Ino (assign b (oldIcopyWriting rip (32 * n) norm)) n) norm)
      rip := by
  obtain ⟨links, zones⟩ := range rfl
  have written {a : Assignment UInt8} (member : a ∈ oldIcopyWriting rip (32 * n) norm) :
      a.cell.get (assign b (oldIcopyWriting rip (32 * n) norm)) = a.value :=
    get_assign oldIcopy_apart member
  have mode := written (List.mem_append_left _ (.head _))
  have uid := written (List.mem_append_left _ (.tail _ (.head _)))
  have size := written (List.mem_append_left _ (.tail _ (.tail _ (.head _))))
  have mtime := written (List.mem_append_left _ (.tail _ (.tail _ (.tail _ (.head _)))))
  have nlinks :=
    written (List.mem_append_left _ (.tail _ (.tail _ (.tail _ (.tail _ (.head _))))))
  have gid :=
    written (List.mem_append_left _ (.tail _ (.tail _ (.tail _ (.tail _ (.tail _ (.head _)))))))
  refine ⟨?_, ?_, ?_, gid, ?_, ?_, (fun wrong => by cases wrong), fun i small => ?_⟩
  · exact (congrArg (conv2 norm) mode).trans (conv2_conv2 norm rip.mode)
  · exact (congrArg UInt8.toUInt16 nlinks).trans (toUInt16_toUInt8 links)
  · exact (congrArg (conv2 norm) uid).trans (conv2_conv2 norm rip.uid)
  · exact (congrArg (conv4 norm) size).trans (conv4_conv4 norm rip.size)
  · exact (congrArg (conv4 norm) mtime).trans (conv4_conv4 norm rip.mtime)
  · have zone := written (List.mem_append_right _ (List.mem_map.mpr
      ⟨i, List.mem_range.mpr small, rfl⟩))
    refine (congrArg (fun w => (conv2 norm w).toUInt32) zone).trans ?_
    rw [conv2_conv2, toUInt32_toUInt16 (zones i small)]

theorem newIcopy_written (b : Block) (num : UInt16) :
    SameFields .v2 (newIcopy num (Block.v2Ino (assign b (newIcopyWriting rip (64 * n) norm)) n) norm)
      rip := by
  have written {a : Assignment UInt8} (member : a ∈ newIcopyWriting rip (64 * n) norm) :
      a.cell.get (assign b (newIcopyWriting rip (64 * n) norm)) = a.value :=
    get_assign newIcopy_apart member
  have mode := written (List.mem_append_left _ (.head _))
  have uid := written (List.mem_append_left _ (.tail _ (.head _)))
  have nlinks := written (List.mem_append_left _ (.tail _ (.tail _ (.head _))))
  have gid := written (List.mem_append_left _ (.tail _ (.tail _ (.tail _ (.head _)))))
  have size := written (List.mem_append_left _ (.tail _ (.tail _ (.tail _ (.tail _ (.head _))))))
  have atime := written (List.mem_append_left _
    (.tail _ (.tail _ (.tail _ (.tail _ (.tail _ (.head _)))))))
  have ctime := written (List.mem_append_left _
    (.tail _ (.tail _ (.tail _ (.tail _ (.tail _ (.tail _ (.head _))))))))
  have mtime := written (List.mem_append_left _
    (.tail _ (.tail _ (.tail _ (.tail _ (.tail _ (.tail _ (.tail _ (.head _)))))))))
  refine ⟨?_, ?_, ?_, ?_, ?_, ?_, fun _ => ⟨?_, ?_⟩, fun i small => ?_⟩
  · exact (congrArg (conv2 norm) mode).trans (conv2_conv2 norm rip.mode)
  · exact (congrArg (conv2 norm) nlinks).trans (conv2_conv2 norm rip.nlinks)
  · exact (congrArg (conv2 norm) uid).trans (conv2_conv2 norm rip.uid)
  · refine (congrArg (fun w => (conv2 norm w).toUInt8) gid).trans ?_
    rw [conv2_conv2, toUInt8_promoteChar]
  · exact (congrArg (conv4 norm) size).trans (conv4_conv4 norm rip.size)
  · exact (congrArg (conv4 norm) mtime).trans (conv4_conv4 norm rip.mtime)
  · exact (congrArg (conv4 norm) atime).trans (conv4_conv4 norm rip.atime)
  · exact (congrArg (conv4 norm) ctime).trans (conv4_conv4 norm rip.ctime)
  · have zone := written (List.mem_append_right _ (List.mem_map.mpr
      ⟨i, List.mem_range.mpr small, rfl⟩))
    exact (congrArg (conv4 norm) zone).trans (conv4_conv4 norm (rip.zone i))

theorem rwInode_eq (num : UInt16) : rwInode dev sp num =
    match sp.version with
    | .v1 => oldIcopy num ((dev (sp.inodeBlock num)).v1Ino
        ((num.toUInt32 - 1) % Version.v1.inodesPerBlock).toNat) sp.native
    | .v2 => newIcopy num ((dev (sp.inodeBlock num)).v2Ino
        ((num.toUInt32 - 1) % Version.v2.inodesPerBlock).toNat) sp.native := rfl

/-- Filling in the times leaves the number of the inode and what has to be in range. -/
theorem updateTimes_node (rdOnly : Bool) (curTime : UInt32) (slot : InodeSlot) :
    (updateTimes rdOnly curTime slot).node.num = slot.node.num ∧
      (updateTimes rdOnly curTime slot).node.nlinks = slot.node.nlinks ∧
      (updateTimes rdOnly curTime slot).node.zone = slot.node.zone := by
  unfold updateTimes
  split <;> exact ⟨rfl, rfl, rfl⟩

theorem rwInode_written (rdOnly : Bool) (curTime : UInt32) {slot : InodeSlot}
    (range : FieldsFit sp.version slot.node) :
    SameFields sp.version
      (rwInode (rwInodeWriting dev sp rdOnly curTime slot).dev sp slot.node.num)
      (rwInodeWriting dev sp rdOnly curTime slot).rip.node := by
  obtain ⟨slot', filled, num, range'⟩ : ∃ slot' : InodeSlot,
      (if slot.update = {} then slot else updateTimes rdOnly curTime slot) = slot' ∧
        slot'.node.num = slot.node.num ∧ FieldsFit sp.version slot'.node := by
    refine ⟨_, rfl, ?_⟩
    split
    case isTrue => exact ⟨rfl, range⟩
    case isFalse =>
      obtain ⟨num, links, zones⟩ := updateTimes_node rdOnly curTime slot
      refine ⟨num, ?_⟩
      unfold FieldsFit
      rw [links, zones]
      exact range
  unfold rwInodeWriting
  rw [filled, ← num, rwInode_eq]
  dsimp only
  rw [update_self]
  unfold Super.icopyWriting Super.inodeOffset
  cases version : sp.version with
  | v1 => exact oldIcopy_written _ _ (version ▸ range')
  | v2 => exact newIcopy_written _ _

/-! ### Reading, then writing -/

theorem oldIcopy_same (b : Block) (num : UInt16) (n : Nat) :
    assign b (oldIcopyWriting (oldIcopy num (b.v1Ino n) norm) (32 * n) norm) = b := by
  refine assign_same (List.forall_mem_append.mpr ⟨?_, fun a zone => ?_⟩)
  · simp only [List.forall_mem_cons]
    exact ⟨conv2_conv2 norm _, conv2_conv2 norm _, conv4_conv4 norm _, conv4_conv4 norm _,
      UInt8.toUInt8_toUInt16 _, rfl, fun _ none => by cases none⟩
  · obtain ⟨i, -, rfl⟩ := List.mem_map.mp zone
    change conv2 norm (conv2 norm _).toUInt32.toUInt16 = _
    rw [UInt16.toUInt16_toUInt32, conv2_conv2]
    rfl

/-- The group on the disk is the promotion of a `char`. -/
def D2Inode.groupFits (dip : D2Inode) (norm : Bool) : Prop :=
  promoteChar (conv2 norm dip.gid).toUInt8 = conv2 norm dip.gid

/-- An inode of a V2 disk is written as it was read, if a `gid_t` can hold its group. -/
theorem newIcopy_same_iff (b : Block) (num : UInt16) (n : Nat) :
    assign b (newIcopyWriting (newIcopy num (b.v2Ino n) norm) (64 * n) norm) = b ↔
      (b.v2Ino n).groupFits norm := by
  have written : conv2 norm (promoteChar (conv2 norm (b.word (64 * n + 6))).toUInt8) =
      b.word (64 * n + 6) ↔ (b.v2Ino n).groupFits norm := by
    constructor
    · intro same
      have group := congrArg (conv2 norm) same
      rw [conv2_conv2] at group
      exact group
    · intro fits
      exact (congrArg (conv2 norm) fits).trans (conv2_conv2 norm _)
  rw [← written]
  constructor
  · intro unchanged
    exact same_of_assign newIcopy_apart unchanged
      (List.mem_append_left _ (.tail _ (.tail _ (.tail _ (.head _)))))
  · intro group
    refine assign_same (List.forall_mem_append.mpr ⟨?_, fun a zone => ?_⟩)
    · simp only [List.forall_mem_cons]
      exact ⟨conv2_conv2 norm _, conv2_conv2 norm _, conv2_conv2 norm _, group,
        conv4_conv4 norm _, conv4_conv4 norm _, conv4_conv4 norm _, conv4_conv4 norm _,
        fun _ none => by cases none⟩
    · obtain ⟨i, -, rfl⟩ := List.mem_map.mp zone
      exact conv4_conv4 norm _

/-- For both versions and both byte orders, an inode whose fields are in range is read back after it
is written; an inode is written as it was read, exactly if on a V2 disk a `gid_t` can hold its
group. -/
theorem inode_round_trips (dev : Device) (sp : Super) (rdOnly : Bool) (curTime : UInt32) :
    (∀ slot : InodeSlot, FieldsFit sp.version slot.node →
      SameFields sp.version
        (rwInode (rwInodeWriting dev sp rdOnly curTime slot).dev sp slot.node.num)
        (rwInodeWriting dev sp rdOnly curTime slot).rip.node) ∧
    ∀ num : UInt16,
      (rwInodeWriting dev sp rdOnly curTime { node := rwInode dev sp num }).dev = dev ↔
        (sp.version = .v2 → ((dev (sp.inodeBlock num)).v2Ino
          ((num.toUInt32 - 1) % Version.v2.inodesPerBlock).toNat).groupFits sp.native) := by
  refine ⟨fun slot range => rwInode_written rdOnly curTime range, fun num => ?_⟩
  have number : (rwInode dev sp num).num = num := by
    rw [rwInode_eq]
    cases sp.version <;> rfl
  have block : (rwInodeWriting dev sp rdOnly curTime { node := rwInode dev sp num }).dev = dev ↔
      assign (dev (sp.inodeBlock num)) (sp.icopyWriting (rwInode dev sp num)) =
        dev (sp.inodeBlock num) := by
    unfold rwInodeWriting
    rw [if_pos rfl]
    dsimp only
    rw [number]
    exact update_eq_self_iff
  rw [block]
  unfold Super.icopyWriting Super.inodeOffset
  rw [number, rwInode_eq]
  cases sp.version with
  | v1 => exact iff_of_true (oldIcopy_same _ _ _) fun wrong => by cases wrong
  | v2 => exact (newIcopy_same_iff _ _ _).trans ⟨fun fits _ => fits, fun fits => fits rfl⟩

/-! ### A disk inode -/

/-- A V2 disk on which the first inode of each block has the group 256. -/
def groupImage : Device := fun _ i => if i = 7 then 1 else 0

def groupSuper : Super := ⟨(groupImage superBlockNr).superBlock, .v2, true⟩

/-- An inode that is changed and read again. -/
theorem changed_inode_kept :
    SameFields .v2
      (rwInode (rwInodeWriting groupImage groupSuper false 9
        { node := { nlinks := 300, gid := 200, num := 5 }, update := { ctime := true } }).dev
          groupSuper 5)
      (rwInodeWriting groupImage groupSuper false 9
        { node := { nlinks := 300, gid := 200, num := 5 }, update := { ctime := true } }).rip.node :=
  (inode_round_trips groupImage groupSuper false 9).1 _ fun wrong => by cases wrong

/-- The group 256 on the disk is 0 in the inode table, and on the disk when it is written back. -/
theorem group_cut_off : ¬ ∀ (dev : Device) (sp : Super) (num : UInt16),
    (rwInodeWriting dev sp false 0 { node := rwInode dev sp num }).dev = dev := by
  intro unchanged
  have byte := congrFun (congrFun (unchanged groupImage groupSuper 1) (groupSuper.inodeBlock 1)) 7
  revert byte
  decide

end Minix.Disk
