/-
This file proves that the hints `s_isearch` and `s_zsearch` are never above a free bit, whatever
inodes and zones are allocated and freed, and so that `alloc_inode` takes the lowest free inode.

Only the searches from a hint move it up, to the lowest free bit, which they have just taken; only
`free_inode` and `free_zone` move it down. A change in one map leaves the other map alone because
the blocks of the inode map are those before the zone map.
-/

import Minix.Disk.Allocation

namespace Minix.Disk

open Transition (Run)
open Option (some.inj bind_eq_some_iff)

/-! ### Well-formed maps -/

/-- The maps fit in their blocks, the number of blocks of the inode map is a positive `short`, and
the bits that are not used are set. -/
structure Mounted.WellFormed (fs : Mounted) : Prop where
  holds : ∀ map, fs.sp.Holds map
  short : (promote fs.sp.disk.imapBlocks).toNat < 2 ^ 15
  reserved : ∀ map, fs.Reserved map

/-- The hints are not above any free bit. -/
structure Mounted.Hinted (fs : Mounted) : Prop where
  isearch : fs.isearch ∈ lowerBounds (fs.free .imap)
  zsearch : fs.zsearch ∈ lowerBounds (fs.free .zmap)

variable {fs fs' : Mounted} {map : BitMap} {b : Nat} {value : Bool} {chunks : Chunks}

theorem startBlock_zmap (short : (promote fs.sp.disk.imapBlocks).toNat < 2 ^ 15) :
    fs.sp.startBlock .zmap = fs.sp.startBlock .imap + fs.sp.bitBlocks .imap := by
  have two : (superBlockNr + 1).toNat = 2 := rfl
  simp only [Super.startBlock, Super.bitBlocks, UInt32.toNat_add _ (promote _), two]
  omega

theorem Mounted.Changed.other {other : BitMap} (changed : fs.Changed map b value chunks)
    (wellFormed : fs.WellFormed) (different : other ≠ map)
    (inside : map = .imap → b < fs.sp.mapBits .imap) {c : Nat}
    (inside' : other = .imap → c < fs.sp.mapBits .imap) :
    fs.sp.bit other chunks c = fs.sp.bit other fs.chunks c := by
  have behind := startBlock_zmap wellFormed.short
  have holds := wellFormed.holds .imap
  rw [Super.Holds] at holds
  have apart : fs.sp.startBlock other + c / 8192 ≠ fs.sp.startBlock map + b / 8192 := by
    cases map <;> cases other
    case imap.imap => exact absurd rfl different
    case zmap.zmap => exact absurd rfl different
    case imap.zmap => have := inside rfl; omega
    case zmap.imap => have := inside' rfl; omega
  rw [Super.bit, Super.bit, Super.chunk, Super.chunk, changed.blocks _ apart]

theorem Mounted.WellFormed.change (wellFormed : fs.WellFormed)
    (changed : fs.Changed map b value chunks) (inside : map = .imap → b < fs.sp.mapBits .imap)
    (keeps : value = false → b ≠ 0) (same : fs'.sp = fs.sp) (stored : fs'.chunks = chunks) :
    fs'.WellFormed where
  holds := by rw [same]; exact wellFormed.holds
  short := by rw [same]; exact wellFormed.short
  reserved other := by
    have used := wellFormed.reserved other
    rw [Mounted.Reserved, same, stored]
    by_cases sameMap : other = map
    · subst sameMap
      by_cases zero : b = 0
      · have set : value = true := by
          cases value
          case false => exact absurd zero (keeps rfl)
          case true => rfl
        rw [← zero, changed.bit, set]
      · rw [changed.bits 0 (Ne.symm zero)]
        exact used
    · rw [changed.other wellFormed sameMap inside (fun _ => Nat.succ_pos _)]
      exact used

theorem Mounted.Changed.free_other {other : BitMap} (changed : fs.Changed map b value chunks)
    (wellFormed : fs.WellFormed) (different : other ≠ map)
    (inside : map = .imap → b < fs.sp.mapBits .imap) (same : fs'.sp = fs.sp)
    (stored : fs'.chunks = chunks) : fs'.free other = fs.free other := by
  ext c
  simp only [Mounted.free, same, stored, Set.mem_ofPred_eq]
  refine and_congr_right fun below => ?_
  rw [changed.other wellFormed different inside (by rintro rfl; exact below)]

theorem Mounted.Changed.free_taken (changed : fs.Changed map b true chunks) (same : fs'.sp = fs.sp)
    (stored : fs'.chunks = chunks) : fs'.free map ⊆ fs.free map := by
  rintro c ⟨below, clear⟩
  rw [same, stored] at clear
  rw [same] at below
  have different : c ≠ b := by
    rintro rfl
    exact Bool.noConfusion (clear.symm.trans changed.bit)
  exact ⟨below, (changed.bits c different).symm.trans clear⟩

theorem Mounted.Changed.free_released (changed : fs.Changed map b false chunks)
    (same : fs'.sp = fs.sp) (stored : fs'.chunks = chunks) :
    fs'.free map ⊆ insert b (fs.free map) := by
  rintro c ⟨below, clear⟩
  rw [same, stored] at clear
  rw [same] at below
  by_cases equal : c = b
  · exact .inl equal
  · exact .inr ⟨below, (changed.bits c equal).symm.trans clear⟩

/-! ### The calls -/

/-- A free bit that was taken. -/
structure Mounted.Taken (fs : Mounted) (map : BitMap) (b : Nat) (chunks : Chunks) : Prop where
  member : b ∈ fs.free map
  changed : fs.Changed map b true chunks

/-- Taking a bit keeps the maps well formed and the hints right; where the search started at the
hint, the bit taken is a hint. -/
theorem Mounted.Taken.keeps (taken : fs.Taken map b chunks) (wellFormed : fs.WellFormed)
    (hinted : fs.Hinted) (same : fs'.sp = fs.sp) (stored : fs'.chunks = chunks)
    (isearch : fs'.isearch = fs.isearch ∨ IsLeast (fs.free .imap) fs'.isearch)
    (zsearch : fs'.zsearch = fs.zsearch ∨ IsLeast (fs.free .zmap) fs'.zsearch) :
    fs'.WellFormed ∧ fs'.Hinted := by
  have inside : map = .imap → b < fs.sp.mapBits .imap := by
    rintro rfl
    exact taken.member.1
  have fewer (other : BitMap) : fs'.free other ⊆ fs.free other := by
    by_cases sameMap : other = map
    · subst sameMap
      exact taken.changed.free_taken same stored
    · exact (taken.changed.free_other wellFormed sameMap inside same stored).subset
  refine ⟨wellFormed.change taken.changed inside (fun cleared => Bool.noConfusion cleared)
    same stored, ?_, ?_⟩
  · rcases isearch with kept | least
    · rw [kept]
      exact Lowest.hint_of_subset hinted.isearch (fewer .imap)
    · exact Lowest.taken_is_hint least (fewer .imap)
  · rcases zsearch with kept | least
    · rw [kept]
      exact Lowest.hint_of_subset hinted.zsearch (fewer .zmap)
    · exact Lowest.taken_is_hint least (fewer .zmap)

/-- `alloc_bit` fails when no bit is free, and else takes one, the lowest when it starts at a
hint. -/
theorem allocBit_cases (map : BitMap) (origin : Nat) (allowed : fs.rdOnly = false) (wellFormed : fs.WellFormed) :
    (allocBit fs map origin = some (noBit, fs.chunks) ∧ fs.free map = ∅) ∨
      ∃ b chunks, allocBit fs map origin = some (b, chunks) ∧ b ≠ noBit ∧
        fs.Taken map b chunks ∧
        (origin ∈ lowerBounds (fs.free map) → IsLeast (fs.free map) b) := by
  rcases allocBit_eq origin allowed (wellFormed.holds map) with
    failed | ⟨b, chunks, allocated, member, changed, lowest⟩
  · exact .inl failed
  · refine .inr ⟨b, chunks, allocated, ?_, ⟨member, changed⟩, lowest⟩
    rintro rfl
    exact Bool.noConfusion (member.2.symm.trans (wellFormed.reserved map))

theorem allocBit_rdOnly {origin : Nat} (readOnly : fs.rdOnly = true) :
    allocBit fs map origin = none := by
  rw [allocBit, if_pos readOnly]

theorem allocZone_keeps {z zone : UInt32} (wellFormed : fs.WellFormed) (hinted : fs.Hinted)
    (allocated : allocZone fs z = some (fs', zone)) : fs'.WellFormed ∧ fs'.Hinted := by
  cases readOnly : fs.rdOnly
  case true => rw [allocZone, allocBit_rdOnly readOnly] at allocated; cases allocated
  case false =>
    rw [allocZone] at allocated
    rcases allocBit_cases .zmap (if z = fs.sp.disk.firstdatazone.toUInt32 then fs.zsearch
        else fs.sp.zoneBit z) readOnly wellFormed with
      ⟨failed, -⟩ | ⟨b, chunks, found, notNone, taken, lowest⟩
    · rw [failed] at allocated
      obtain ⟨rfl, -⟩ := Prod.mk.inj (some.inj allocated)
      exact ⟨wellFormed, hinted⟩
    · rw [found] at allocated
      dsimp only [Option.bind_eq_bind, Option.bind_some] at allocated
      rw [if_neg notNone] at allocated
      obtain ⟨rfl, -⟩ := Prod.mk.inj (some.inj allocated)
      refine taken.keeps wellFormed hinted rfl rfl (.inl rfl) ?_
      split
      case isTrue first =>
        rw [if_pos first] at lowest
        exact .inr (lowest hinted.zsearch)
      case isFalse => exact .inl rfl

theorem Mounted.Changed.keeps (changed : fs.Changed map b false chunks)
    (wellFormed : fs.WellFormed) (hinted : fs.Hinted) (used : b ≠ 0)
    (inside : map = .imap → b < fs.sp.mapBits .imap) (same : fs'.sp = fs.sp)
    (stored : fs'.chunks = chunks)
    (isearch : fs'.isearch =
      if map = .imap then if b < fs.isearch then b else fs.isearch else fs.isearch)
    (zsearch : fs'.zsearch =
      if map = .zmap then if b < fs.zsearch then b else fs.zsearch else fs.zsearch) :
    fs'.WellFormed ∧ fs'.Hinted := by
  refine ⟨wellFormed.change changed inside (fun _ => used) same stored, ?_, ?_⟩
  · rw [isearch]
    cases map
    case imap =>
      rw [if_pos rfl]
      exact Lowest.released hinted.isearch (changed.free_released same stored)
    case zmap =>
      rw [if_neg BitMap.noConfusion, changed.free_other wellFormed (by decide) inside same stored]
      exact hinted.isearch
  · rw [zsearch]
    cases map
    case zmap =>
      rw [if_pos rfl]
      exact Lowest.released hinted.zsearch (changed.free_released same stored)
    case imap =>
      rw [if_neg BitMap.noConfusion, changed.free_other wellFormed (by decide) inside same stored]
      exact hinted.zsearch

/-- `alloc_inode` keeps the maps and the hints right and takes the lowest free inode. -/
theorem allocInode_keeps {slot : Bool} {reply : Option Nat} (wellFormed : fs.WellFormed)
    (hinted : fs.Hinted) (allocated : allocInode fs slot = some (fs', reply)) :
    (fs'.WellFormed ∧ fs'.Hinted) ∧ (∀ inumb, reply = some inumb →
      IsLeast (fs.free .imap) inumb) ∧
      (reply = none → fs.rdOnly ∨ slot = false ∨ fs.free .imap = ∅) := by
  rw [allocInode] at allocated
  cases readOnly : fs.rdOnly
  case true =>
    rw [if_pos readOnly] at allocated
    obtain ⟨rfl, rfl⟩ := Prod.mk.inj (some.inj allocated)
    exact ⟨⟨wellFormed, hinted⟩, (fun _ found => by cases found), fun _ => .inl rfl⟩
  case false =>
    rw [if_neg (Bool.eq_false_iff.mp readOnly)] at allocated
    rcases allocBit_cases .imap fs.isearch readOnly wellFormed with
      ⟨failed, empty⟩ | ⟨b, chunks, found, notNone, taken, lowest⟩
    · rw [failed] at allocated
      obtain ⟨rfl, rfl⟩ := Prod.mk.inj (some.inj allocated)
      exact ⟨⟨wellFormed, hinted⟩, (fun _ found => by cases found),
        fun _ => .inr (.inr empty)⟩
    · have least := lowest hinted.isearch
      have kept : Mounted.WellFormed { fs with chunks, isearch := b } ∧
          Mounted.Hinted { fs with chunks, isearch := b } :=
        taken.keeps wellFormed hinted rfl rfl (.inr least) (.inl rfl)
      rw [found] at allocated
      dsimp only [Option.bind_eq_bind, Option.bind_some] at allocated
      rw [if_neg notNone] at allocated
      cases slot
      case true =>
        obtain ⟨rfl, rfl⟩ := Prod.mk.inj (some.inj allocated)
        exact ⟨kept, fun _ found => some.inj found ▸ least,
          (fun missed => by cases missed)⟩
      case false =>
        -- The inode just allocated is freed again, and is still the lowest one.
        obtain ⟨chunks', freed, rest⟩ := bind_eq_some_iff.mp allocated
        obtain ⟨rfl, rfl⟩ := Prod.mk.inj (some.inj rest)
        have changed := (freeBit_eq_some freed).2.2
        refine ⟨changed.keeps kept.1 kept.2 notNone (fun _ => taken.member.1) rfl rfl ?_ ?_,
          (fun _ found => by cases found), fun _ => .inr (.inl rfl)⟩
        · rw [if_pos rfl, if_neg (lt_irrefl _)]
        · rw [if_neg BitMap.noConfusion]

theorem freeInode_keeps {inumb : UInt16} (wellFormed : fs.WellFormed) (hinted : fs.Hinted)
    (freed : freeInode fs inumb = some fs') : fs'.WellFormed ∧ fs'.Hinted := by
  rw [freeInode] at freed
  split at freed
  case isTrue =>
    obtain rfl := some.inj freed
    exact ⟨wellFormed, hinted⟩
  case isFalse valid =>
    obtain ⟨chunks, cleared, rest⟩ := bind_eq_some_iff.mp freed
    obtain rfl := some.inj rest
    obtain ⟨used, inRange⟩ := not_or.mp valid
    refine (freeBit_eq_some cleared).2.2.keeps wellFormed hinted
      (fun zero => used (UInt16.toNat_inj.mp zero))
      (fun _ => Nat.lt_succ_of_le (UInt16.not_lt.mp inRange)) rfl rfl (if_pos rfl).symm
      (if_neg BitMap.noConfusion).symm

theorem zoneBit_ne_zero {sp : Super} {numb : UInt32}
    (above : ¬ numb < sp.disk.firstdatazone.toUInt32) (below : ¬ sp.disk.zones ≤ numb) :
    sp.zoneBit numb ≠ 0 := by
  have small := sp.disk.firstdatazone.toUInt32.toNat_lt
  have first := UInt32.toNat_sub sp.disk.firstdatazone.toUInt32 1
  have last := sp.disk.zones.toNat_lt
  have above := UInt32.le_iff_toNat_le.mp (UInt32.not_lt.mp above)
  have below := UInt32.lt_iff_toNat_lt.mp (UInt32.not_le.mp below)
  have one : (1 : UInt32).toNat = 1 := rfl
  rw [one] at first
  rw [Super.zoneBit, UInt32.toNat_sub, first]
  omega

section

variable (wellFormed : fs.WellFormed)
include wellFormed

theorem freeZone_keeps {numb : UInt32} (hinted : fs.Hinted) (freed : freeZone fs numb = some fs') :
    fs'.WellFormed ∧ fs'.Hinted := by
  rw [freeZone] at freed
  split at freed
  case isTrue =>
    obtain rfl := some.inj freed
    exact ⟨wellFormed, hinted⟩
  case isFalse valid =>
    obtain ⟨chunks, cleared, rest⟩ := bind_eq_some_iff.mp freed
    obtain rfl := some.inj rest
    obtain ⟨above, below⟩ := not_or.mp valid
    exact (freeBit_eq_some cleared).2.2.keeps wellFormed hinted (zoneBit_ne_zero above below)
      BitMap.noConfusion rfl rfl (if_neg BitMap.noConfusion).symm (if_pos rfl).symm

/-- The step lemma: every call keeps the maps well formed and the hints right. -/
theorem step_keeps {call : MapCall} (hinted : fs.Hinted) (completed : fs.step call = some fs') :
    fs'.WellFormed ∧ fs'.Hinted := by
  cases call with
  | allocInode slot =>
    obtain ⟨⟨after, reply⟩, allocated, rfl⟩ := Option.map_eq_some_iff.mp completed
    exact (allocInode_keeps wellFormed hinted allocated).1
  | freeInode inumb => exact freeInode_keeps wellFormed hinted completed
  | allocZone z =>
    obtain ⟨⟨after, zone⟩, allocated, rfl⟩ := Option.map_eq_some_iff.mp completed
    exact allocZone_keeps wellFormed hinted allocated
  | freeZone numb => exact freeZone_keeps wellFormed hinted completed

/-- The run lemma: the hints that `read_super` sets stay right. -/
theorem run_keeps {calls : List MapCall} (isearch : fs.isearch = 0) (zsearch : fs.zsearch = 0)
    (run : Run Mounted.step (fun _ _ => True) fs calls fs') :
    fs'.WellFormed ∧ fs'.Hinted := by
  let Kept (state : Mounted) : Prop := state.WellFormed ∧ state.Hinted
  have start : Kept fs := by
    refine ⟨wellFormed, ?_, ?_⟩
    · rw [isearch]
      exact fun _ _ => Nat.zero_le _
    · rw [zsearch]
      exact fun _ _ => Nat.zero_le _
  exact (run.invariant start fun _ _ _ kept _ completed =>
    step_keeps kept.1 kept.2 completed : Kept fs')

end

/-! ### Main results -/

/-- `alloc_bit` takes a free bit of the map and changes nothing else, and fails only when no bit
of the map is free; `free_bit` clears the bit it is given; and whatever is allocated and freed, the
hints are not above a free bit and `alloc_inode` takes the lowest free inode.

Bit 0 of a map is `NO_BIT`: it is not used and has to be set, and the map has to fit in its
blocks. -/
theorem bit_maps_allocate (fs : Mounted) :
    (∀ map origin, fs.rdOnly = false → fs.sp.Holds map → fs.Reserved map →
      ∃ b chunks, allocBit fs map origin = some (b, chunks) ∧
        (b ≠ noBit → b ∈ fs.free map ∧ fs.Changed map b true chunks) ∧
        (b = noBit → chunks = fs.chunks ∧ fs.free map = ∅)) ∧
    (∀ map b, fs.rdOnly = false → fs.sp.bit map fs.chunks b →
      ∃ chunks, freeBit fs map b = some chunks ∧ fs.Changed map b false chunks) ∧
    (fs.WellFormed → fs.isearch = 0 → fs.zsearch = 0 →
      ∀ calls state, Run Mounted.step (fun _ _ => True) fs calls state →
        state.Hinted ∧ ∀ slot after reply, allocInode state slot = some (after, reply) →
          (∀ inumb, reply = some inumb → IsLeast (state.free .imap) inumb) ∧
          (reply = none → state.rdOnly ∨ slot = false ∨ state.free .imap = ∅)) := by
  refine ⟨?_, ?_, ?_⟩
  · intro map origin allowed holds reserved
    rcases allocBit_eq origin allowed holds with
      ⟨failed, empty⟩ | ⟨b, chunks, allocated, member, changed, -⟩
    · exact ⟨noBit, fs.chunks, failed, fun found => absurd rfl found, fun _ => ⟨rfl, empty⟩⟩
    · refine ⟨b, chunks, allocated, fun _ => ⟨member, changed⟩, ?_⟩
      rintro rfl
      exact Bool.noConfusion (member.2.symm.trans reserved)
  · intro map b allowed used
    have freed : freeBit fs map b = some (fs.sp.storeChunk map fs.chunks b
        (fs.sp.chunk map fs.chunks b &&& ~~~mask b)) := by
      rw [freeBit, if_neg (Bool.eq_false_iff.mp allowed), if_pos used]
    exact ⟨_, freed, (freeBit_eq_some freed).2.2⟩
  · intro wellFormed isearch zsearch calls state run
    obtain ⟨kept, hinted⟩ := run_keeps wellFormed isearch zsearch run
    exact ⟨hinted, fun slot after reply allocated => (allocInode_keeps kept hinted allocated).2⟩

/-- A file system with three inodes and six zones of data; the maps have one block each. -/
def smallSuper : Super where
  disk := { ninodes := 3, nzones := 0, imapBlocks := 1, zmapBlocks := 1, firstdatazone := 5,
            logZoneSize := 0, maxSize := 1024, magic := superV2, zones := 11 }
  version := .v2
  native := true

/-- Just made: in each map bits 0 and 1 are set. -/
def smallFs : Mounted where
  sp := smallSuper
  chunks _ word := if word = 0 then 3 else 0

theorem smallFs_wellFormed : smallFs.WellFormed where
  holds map := by cases map <;> decide
  short := by decide
  reserved map := by cases map <;> decide

/-- An inode and a zone of a small file system are allocated and freed. -/
theorem bit_maps_allocate_small :
    (∃ b chunks, allocBit smallFs .imap 2 = some (b, chunks) ∧
      (b ≠ noBit → b ∈ smallFs.free .imap ∧ smallFs.Changed .imap b true chunks)) ∧
    (∃ chunks, freeBit smallFs .zmap 1 = some chunks ∧ smallFs.Changed .zmap 1 false chunks) ∧
    ∃ state, Run Mounted.step (fun _ _ => True) smallFs
        [.allocInode true, .allocZone 5, .freeInode 1, .freeZone 5] state ∧ state.Hinted := by
  obtain ⟨allocates, frees, hints⟩ := bit_maps_allocate smallFs
  refine ⟨?_, frees .zmap 1 rfl (by decide), ?_⟩
  · obtain ⟨b, chunks, allocated, found, -⟩ :=
      allocates .imap 2 rfl (smallFs_wellFormed.holds _) (smallFs_wellFormed.reserved _)
    exact ⟨b, chunks, allocated, found⟩
  · have done : (Transition.execute Mounted.step (fun _ _ => True)
        [.allocInode true, .allocZone 5, .freeInode 1, .freeZone 5] smallFs).isSome = true := by
      decide
    obtain ⟨state, executed⟩ := Option.isSome_iff_exists.mp done
    have run := Run.of_execute executed
    exact ⟨state, run, (hints smallFs_wellFormed rfl rfl _ state run).1⟩

/-- A map in which no bit is set, and a map with one bit more than there are in its only block,
which is full: in both `alloc_bit` returns `NO_BIT`, and there are free bits. -/
theorem alloc_bit_misses_free_bits :
    ((allocBit { smallFs with chunks := fun _ _ => 0 } .imap 0).map Prod.fst = some noBit ∧
      1 ∈ Mounted.free { smallFs with chunks := fun _ _ => 0 } .imap) ∧
    ((allocBit
        { sp := { smallSuper with disk := { smallSuper.disk with ninodes := 8192 } }
          chunks := fun block _ => if block = 2 then 0xffff else 0 } .imap 0).map Prod.fst =
          some noBit ∧
      8192 ∈ Mounted.free
        { sp := { smallSuper with disk := { smallSuper.disk with ninodes := 8192 } }
          chunks := fun block _ => if block = 2 then 0xffff else 0 } .imap) := by
  refine ⟨⟨by decide, ?_⟩, by decide +kernel, ?_⟩
  · exact ⟨by decide, by decide⟩
  · exact ⟨by decide, by decide⟩

end Minix.Disk
