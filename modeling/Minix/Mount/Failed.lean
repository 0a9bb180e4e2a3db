/-
This file proves when a mount that fails leaves the tables as they were.

Every early exit of `do_mount` releases what the call has claimed. The last one, for a file that
cannot be mounted on, gives up both inodes and closes the device, but it does not release the slot
of the super block, although the comment there says so. The device then counts as mounted
(`busy_mount_keeps_slot`).
-/

import Minix.Mount.Balance

namespace Minix.Mount

open Function (update update_of_ne update_self update_eq_self update_idem)
open Option (some.inj bind_eq_some_iff map_eq_some_iff)

/-! ### What a failed mount is to leave -/

/-- The slots of the super block table, the counts of the inodes and the open devices are as
before. -/
structure Undone (s s' : State) : Prop where
  slots : ∀ sp, (s'.superBlock sp).dev = (s.superBlock sp).dev
  counts : ∀ rip, (s'.inode rip).count = (s.inode rip).count
  opens : s'.opens = s.opens

/-- The slot has been claimed for the device, which is open; nothing else has changed. -/
structure Claimed (s s' : State) (sp : SuperNr) (dev : Dev) : Prop where
  named : dev ≠ noDev
  free : (s.superBlock sp).dev = noDev
  slot : (s'.superBlock sp).dev = dev
  others : ∀ other, other ≠ sp → (s'.superBlock other).dev = (s.superBlock other).dev
  counts : ∀ rip, (s'.inode rip).count = (s.inode rip).count
  opens : s'.opens = update s.opens dev (s.opens dev + 1)

/-- What is wrong with a file to be mounted on: it is busy or special, or the root inode of the
device cannot be had, is not in use, or is a directory while the file is not. -/
def Refuses (s : State) (dev : Dev) (rip : InodeNr) : Prop :=
  1 < (s.inode rip).count ∨ (s.inode rip).fileType = .blockSpecial ∨
    (s.inode rip).fileType = .charSpecial ∨
    (∃ s', getInode s dev rootInode = some (s', none)) ∨
    ∃ s' root, getInode s dev rootInode = some (s', some root) ∧
      ((s'.inode root).core.mode = 0 ∨
        (s'.inode rip).fileType ≠ .directory ∧ (s'.inode root).fileType = .directory)

/-- The call comes as far as the file to be mounted on, and cannot use it. -/
def RefusedFile (env : Environment) (fp : Process) (fuel : Nat) (s : State) (m : Request) :
    Prop :=
  ∃ s₁ sp dev s₂ rip, claimSuper env fp fuel s m = some (s₁, .ok (sp, dev)) ∧
    mountPoint env fp fuel s₁ m.name2 sp dev = some (s₂, .ok rip) ∧ Refuses s₂ dev rip

section Failed

variable {env : Environment} {fp : Process} {fuel : Nat} {s s' s₁ s₂ : State} {m : Request}
  {sp : SuperNr} {dev : Dev} {rip : InodeNr} {r : Int} {rootIp : Option InodeNr}

theorem Undone.of_keeps (keeps : Keeps s 0 s') : Undone s s' :=
  ⟨fun sp => by rw [keeps.superBlock], fun rip => (keeps.count rip).trans (add_zero _),
    keeps.opens⟩

/-! ### The slot and the device -/

theorem getSuper_eq_none (none : ¬ (getSuper s dev).isSome = true) (sp : SuperNr) :
    (s.superBlock sp).dev ≠ dev := by
  intro same
  refine none (List.find?_isSome.mpr ⟨sp, List.mem_finRange sp, beq_iff_eq.mpr same⟩)

/-- `read_super` gives the slot its device back if the super block is good, and otherwise frees
it. -/
theorem readSuper_slot (read : readSuper env s sp = (s', r)) : ∃ entry,
    s' = s.setSuper sp entry ∧ entry.dev = if r = 0 then (s.superBlock sp).dev else noDev := by
  unfold readSuper at read
  dsimp only at read
  split at read
  · obtain ⟨rfl, rfl⟩ := Prod.mk.inj read
    exact ⟨_, rfl, (if_neg (show ¬ einval = 0 by decide)).symm⟩
  · obtain ⟨rfl, rfl⟩ := Prod.mk.inj read
    exact ⟨_, rfl, (if_pos rfl).symm⟩

theorem Keeps.claim (consistent : Consistent s) (keeps : Keeps s 0 s₁)
    (new : ∀ other, (s.superBlock other).dev ≠ dev) (named : dev ≠ noDev)
    (free : (s.superBlock sp).dev = noDev) {entry : SuperBlock} (claimed : entry.dev = dev)
    (same : ∀ rip, s'.inode rip = s₁.inode rip)
    (super : s'.superBlock = update s₁.superBlock sp entry)
    (opens : s'.opens = update s.opens dev (s.opens dev + 1)) :
    Claimed s s' sp dev ∧ Consistent s' := by
  have slot : s'.superBlock sp = entry := by rw [super, update_self]
  have others (other : SuperNr) (apart : other ≠ sp) :
      s'.superBlock other = s.superBlock other := by
    rw [super, update_of_ne apart, keeps.superBlock]
  have counts (rip : InodeNr) : (s'.inode rip).count = (s.inode rip).count := by
    rw [same, keeps.count, Pi.zero_apply, add_zero]
  have mounted (rip : InodeNr) : (s'.inode rip).mount = (s.inode rip).mount := by
    rw [same, keeps.mount]
  refine ⟨⟨named, free, slot ▸ claimed, fun other apart => by rw [others other apart], counts,
    opens⟩, fun rip => counts rip ▸ consistent.nonneg rip, fun rip mount => ?_, fun rip mount => ?_,
    fun other rip imount mount placed => ?_⟩
  · rw [counts]
    exact consistent.inUse rip (mounted rip ▸ mount)
  · obtain ⟨known, other, holds⟩ := consistent.placed rip (mounted rip ▸ mount)
    rw [same, (keeps.same rip (mounted rip ▸ mount)).1]
    refine ⟨known, other, ?_⟩
    have apart : other ≠ sp := fun same => known (holds.symm.trans (same ▸ free))
    rw [others other apart, holds]
  · obtain ⟨place, number⟩ := keeps.same rip (mounted rip ▸ mount)
    rw [same, place] at placed
    rw [same, number]
    obtain rfl | apart := eq_or_ne other sp
    · obtain ⟨-, another, holds⟩ := consistent.placed rip (mounted rip ▸ mount)
      rw [slot, claimed] at placed
      exact absurd (holds.trans placed.symm) (new another)
    · rw [others other apart] at imount placed
      exact consistent.apart other rip imount (mounted rip ▸ mount) placed

/-- The first part of `do_mount` either leaves everything as it was, or has claimed a slot and
opened the device. -/
theorem claimSuper_leaves (consistent : Consistent s) {claimed : Except Int (SuperNr × Dev)}
    (claims : claimSuper env fp fuel s m = some (s', claimed)) :
    (∃ r, claimed = .error r ∧ Undone s s') ∨
      ∃ sp dev, claimed = .ok (sp, dev) ∧ Claimed s s' sp dev ∧ Consistent s' := by
  have start : Keeps s 0 s := .refl s
  unfold claimSuper at claims
  split at claims
  case isTrue =>
    obtain ⟨rfl, rfl⟩ := Prod.mk.inj (some.inj claims)
    exact .inl ⟨_, rfl, .of_keeps start⟩
  case isFalse =>
    have fetched : Keeps s 0 (fetchName s m.name1).1 := by
      unfold fetchName
      split
      · exact start
      · exact start.errCode _
      · exact start
    generalize fetchName s m.name1 = fetch at fetched claims
    obtain ⟨s₁, path⟩ := fetch
    cases path with
    | none =>
      obtain ⟨rfl, rfl⟩ := Prod.mk.inj (some.inj claims)
      exact .inl ⟨_, rfl, .of_keeps fetched⟩
    | some path =>
      obtain ⟨⟨s₂, dev⟩, named, claims⟩ := map_eq_some_iff.mp claims
      have kept := nameToDev_keeps consistent fetched named
      have undone : Undone s s₂ := .of_keeps kept
      dsimp only at claims
      split at claims
      case isTrue =>
        obtain ⟨rfl, rfl⟩ := Prod.mk.inj claims
        exact .inl ⟨_, rfl, undone⟩
      case isFalse known =>
        split at claims
        case isTrue =>
          obtain ⟨rfl, rfl⟩ := Prod.mk.inj claims
          exact .inl ⟨_, rfl, undone⟩
        case isFalse unmounted =>
          split at claims
          case h_1 =>
            obtain ⟨rfl, rfl⟩ := Prod.mk.inj claims
            exact .inl ⟨_, rfl, undone⟩
          case h_2 sp found =>
            split at claims
            case isTrue =>
              obtain ⟨rfl, rfl⟩ := Prod.mk.inj claims
              exact .inl ⟨_, rfl, undone⟩
            case isFalse =>
              have free : (s.superBlock sp).dev = noDev := by
                have met := List.find?_some found
                rw [← kept.superBlock]
                exact beq_iff_eq.mp met
              have new (other : SuperNr) : (s.superBlock other).dev ≠ dev := by
                rw [← kept.superBlock]
                exact getSuper_eq_none unmounted other
              generalize read : readSuper env _ sp = result at claims
              obtain ⟨s₃, r⟩ := result
              obtain ⟨entry, rfl, slot⟩ := readSuper_slot read
              have before : (((devOpen s₂ dev).setSuper sp
                  { s₂.superBlock sp with dev := dev }).superBlock sp).dev = dev := by
                unfold State.setSuper
                dsimp only
                rw [update_self]
              rw [before] at slot
              split at claims
              case isTrue bad =>
                obtain ⟨rfl, rfl⟩ := Prod.mk.inj claims
                rw [if_neg bad] at slot
                refine .inl ⟨_, rfl, fun other => ?_, undone.counts, ?_⟩
                · unfold devClose State.setSuper
                  dsimp only
                  obtain rfl | apart := eq_or_ne other sp
                  · rw [update_self, slot, free]
                  · rw [update_of_ne apart, update_of_ne apart]
                    exact undone.slots other
                · unfold devClose State.setSuper devOpen
                  dsimp only
                  rw [update_self, update_idem, add_sub_cancel_right,
                    update_eq_self, undone.opens]
              case isFalse good =>
                obtain ⟨rfl, rfl⟩ := Prod.mk.inj claims
                rw [if_pos (not_not.mp good)] at slot
                refine .inr ⟨sp, dev, rfl, kept.claim consistent new known free slot
                  (fun _ => rfl) ?_ ?_⟩
                · exact update_idem _ _ _
                · exact congrArg (fun opens : Dev → Int => update opens dev (opens dev + 1)) kept.opens

theorem Claimed.undo (claimed : Claimed s s₁ sp dev) (keeps : Keeps s₁ 0 s₂) :
    Undone s (devClose (s₂.setSuper sp { s₂.superBlock sp with dev := noDev }) dev) := by
  refine ⟨fun other => ?_, fun rip => ?_, ?_⟩
  · unfold devClose State.setSuper
    dsimp only
    obtain rfl | apart := eq_or_ne other sp
    · rw [update_self, claimed.free]
    · rw [update_of_ne apart, keeps.superBlock, claimed.others other apart]
  · exact ((keeps.count rip).trans (add_zero _)).trans (claimed.counts rip)
  · unfold devClose State.setSuper
    rw [keeps.opens, claimed.opens, update_self, update_idem,
      add_sub_cancel_right, update_eq_self]

/-- If the file to be mounted on is not found, the slot and the device are released. -/
theorem mountPoint_leaves (consistent : Consistent s₁) (claimed : Claimed s s₁ sp dev)
    {name2 : Fetched} {found : Except Int InodeNr}
    (finds : mountPoint env fp fuel s₁ name2 sp dev = some (s', found)) :
    (∃ r, found = .error r ∧ Undone s s') ∨
      ∃ rip, found = .ok rip ∧ Keeps s₁ (heldBy (some rip)) s' := by
  unfold mountPoint at finds
  have fetched : Keeps s₁ 0 (fetchName s₁ name2).1 := by
    unfold fetchName
    split
    · exact .refl s₁
    · exact (Keeps.refl s₁).errCode _
    · exact .refl s₁
  generalize fetchName s₁ name2 = fetch at fetched finds
  obtain ⟨s₂, path⟩ := fetch
  cases path with
  | none =>
    obtain ⟨rfl, rfl⟩ := Prod.mk.inj (some.inj finds)
    exact .inl ⟨_, rfl, claimed.undo fetched⟩
  | some path =>
    obtain ⟨⟨s₃, rip⟩, eaten, finds⟩ := map_eq_some_iff.mp finds
    have kept := eatPath_keeps consistent fetched eaten
    cases rip with
    | none =>
      obtain ⟨rfl, rfl⟩ := Prod.mk.inj finds
      exact .inl ⟨_, rfl, claimed.undo kept⟩
    | some rip =>
      obtain ⟨rfl, rfl⟩ := Prod.mk.inj finds
      rw [zero_add] at kept
      exact .inr ⟨rip, rfl, kept⟩

/-! ### The last checks -/

theorem getInode_errCode {numb : UInt16} (full : getInode s dev numb = some (s', none)) :
    s'.errCode = enfile := by
  unfold getInode at full
  split at full
  · cases (Prod.mk.inj (some.inj full)).2
  · split at full
    · obtain ⟨rfl, -⟩ := Prod.mk.inj (some.inj full)
      rfl
    · dsimp only at full
      split at full
      · cases (Prod.mk.inj (some.inj full)).2
      · obtain ⟨sp, -, same⟩ := map_eq_some_iff.mp full
        cases (Prod.mk.inj same).2

theorem usable_eq_zero : usable s rip = 0 ↔ ¬ 1 < (s.inode rip).count ∧
    (s.inode rip).fileType ≠ .blockSpecial ∧ (s.inode rip).fileType ≠ .charSpecial := by
  have special : enotdir ≠ 0 := by decide
  have busy : ebusy ≠ 0 := by decide
  unfold usable
  split
  case isTrue type =>
    refine iff_of_false special fun fits => ?_
    exact type.elim fits.2.1 fits.2.2
  case isFalse type =>
    rw [not_or] at type
    split
    case isTrue more => exact iff_of_false busy fun fits => fits.1 more
    case isFalse alone => exact iff_of_true rfl ⟨alone, type⟩

/-- The checks of a root inode are `Refuses`, on the state before them. -/
theorem rootOf_refuses (checked : rootOf s dev rip = some (s', rootIp, r)) :
    r ≠ 0 ↔ Refuses s dev rip := by
  unfold rootOf at checked
  split at checked
  case isTrue unusable =>
    obtain ⟨-, same⟩ := Prod.mk.inj (some.inj checked)
    obtain ⟨-, rfl⟩ := Prod.mk.inj same
    refine iff_of_true unusable ?_
    unfold Refuses
    by_contra fits
    simp only [not_or] at fits
    exact unusable (usable_eq_zero.mpr ⟨fits.1, fits.2.1, fits.2.2.1⟩)
  case isFalse fits =>
    obtain ⟨alone, block, char⟩ := usable_eq_zero.mp (not_not.mp fits)
    obtain ⟨⟨s₁, root⟩, got, same⟩ := map_eq_some_iff.mp checked
    unfold Refuses
    rw [or_iff_right alone, or_iff_right block, or_iff_right char, got]
    cases root with
    | none =>
      dsimp only at same
      obtain ⟨-, same⟩ := Prod.mk.inj same
      obtain ⟨-, rfl⟩ := Prod.mk.inj same
      rw [getInode_errCode got]
      exact iff_of_true (by decide) (.inl ⟨_, rfl⟩)
    | some root =>
      have only (bad : r ≠ 0 ↔ (s₁.inode root).core.mode = 0 ∨
          (s₁.inode rip).fileType ≠ .directory ∧ (s₁.inode root).fileType = .directory) :
          r ≠ 0 ↔ (∃ s', some (s₁, some root) = some (s', none)) ∨
            ∃ s' root', some (s₁, some root) = some (s', some root') ∧
              ((s'.inode root').core.mode = 0 ∨ (s'.inode rip).fileType ≠ .directory ∧
                (s'.inode root').fileType = .directory) := by
        refine bad.trans ⟨fun wrong => .inr ⟨s₁, root, rfl, wrong⟩, ?_⟩
        rintro (⟨s', wrong⟩ | ⟨s', root', found, wrong⟩)
        · cases (Prod.mk.inj (some.inj wrong)).2
        · obtain ⟨rfl, same⟩ := Prod.mk.inj (some.inj found)
          obtain rfl := some.inj same
          exact wrong
      refine only ?_
      dsimp only at same
      split at same
      case isTrue mode =>
        obtain ⟨-, same⟩ := Prod.mk.inj same
        obtain ⟨-, rfl⟩ := Prod.mk.inj same
        exact iff_of_true (by decide) (.inl mode)
      case isFalse mode =>
        split at same
        case isTrue conflict =>
          obtain ⟨-, same⟩ := Prod.mk.inj same
          obtain ⟨-, rfl⟩ := Prod.mk.inj same
          exact iff_of_true (by decide) (.inr conflict)
        case isFalse agree =>
          obtain ⟨-, same⟩ := Prod.mk.inj same
          obtain ⟨-, rfl⟩ := Prod.mk.inj same
          exact iff_of_false (not_not.mpr rfl) (not_or.mpr ⟨mode, agree⟩)

theorem rootOf_keeps (consistent : Consistent s₁) (keeps : Keeps s₁ (heldBy (some rip)) s)
    (checked : rootOf s dev rip = some (s', rootIp, r)) :
    Keeps s₁ (heldBy (some rip) + heldBy rootIp) s' := by
  unfold rootOf at checked
  split at checked
  · obtain ⟨rfl, same⟩ := Prod.mk.inj (some.inj checked)
    obtain ⟨rfl, -⟩ := Prod.mk.inj same
    rwa [heldBy_none, add_zero]
  · obtain ⟨⟨s₂, root⟩, got, same⟩ := map_eq_some_iff.mp checked
    have kept := (getInode_keeps consistent keeps got).1
    have holds {code : Int} (same : (s₂, root, code) = (s', rootIp, r)) :
        Keeps s₁ (heldBy (some rip) + heldBy rootIp) s' := by
      cases same
      exact kept
    cases root with
    | none => exact holds same
    | some root =>
      dsimp only at same
      split at same
      · exact holds same
      · split at same <;> exact holds same

/-- If the file is refused, both inodes are given up and the device is closed, but the slot stays
claimed. -/
theorem mountOn_refuses (consistent : Consistent s₁) (claimed : Claimed s s₁ sp dev)
    (keeps : Keeps s₁ (heldBy (some rip)) s₂) {rdOnly : Bool}
    (mounts : mountOn env s₂ rdOnly sp dev rip = some (s', r)) :
    (r ≠ 0 ↔ Refuses s₂ dev rip) ∧
      (r ≠ 0 → (s'.superBlock sp).dev = dev ∧
        (∀ rip, (s'.inode rip).count = (s.inode rip).count) ∧ s'.opens = s.opens) := by
  unfold mountOn at mounts
  obtain ⟨⟨s₃, rootIp, r'⟩, checked, mounts⟩ := bind_eq_some_iff.mp mounts
  have refuses := rootOf_refuses checked
  have kept := rootOf_keeps consistent keeps checked
  dsimp only at mounts
  split at mounts
  case isTrue bad =>
    obtain ⟨s₄, put, mounts⟩ := bind_eq_some_iff.mp mounts
    obtain ⟨s₅, put', same⟩ := map_eq_some_iff.mp mounts
    obtain ⟨rfl, rfl⟩ := Prod.mk.inj same
    rw [add_comm] at kept
    have alone := putInode_keeps kept (heldBy_nonneg rootIp) put
    rw [← zero_add (heldBy rootIp)] at alone
    have none : Keeps s₁ 0 s₅ := putInode?_keeps alone (fun _ => le_rfl) put'
    refine ⟨refuses, fun _ => ⟨?_, fun rip => ?_, ?_⟩⟩
    · unfold devClose
      rw [none.superBlock, claimed.slot]
    · exact ((none.count rip).trans (add_zero _)).trans (claimed.counts rip)
    · unfold devClose
      rw [none.opens, claimed.opens, update_self, update_idem,
        add_sub_cancel_right, update_eq_self]
  case isFalse good =>
    obtain ⟨-, rfl⟩ := Prod.mk.inj (some.inj mounts)
    refine ⟨?_, fun wrong => absurd rfl wrong⟩
    rw [← refuses]
    exact iff_of_false (not_not.mpr rfl) good

/-- A mount that fails leaves the tables as they were, unless it fails because of the file to be
mounted on. -/
theorem failed_mount_undone_iff (consistent : Consistent s)
    (returned : doMount env fp fuel s m = some (s', r)) :
    (r ≠ 0 → Undone s s') ↔ ¬ RefusedFile env fp fuel s m := by
  unfold doMount at returned
  obtain ⟨⟨s₁, claimed⟩, claims, returned⟩ := bind_eq_some_iff.mp returned
  obtain ⟨code, rfl, undone⟩ | ⟨sp, dev, rfl, claimed, consistent₁⟩ :=
    claimSuper_leaves consistent claims
  · obtain ⟨rfl, -⟩ := Prod.mk.inj (some.inj returned)
    refine iff_of_true (fun _ => undone) ?_
    rintro ⟨s₁', sp, dev, s₂, rip, claims', -⟩
    rw [claims] at claims'
    cases (Prod.mk.inj (some.inj claims')).2
  · obtain ⟨⟨s₂, found⟩, finds, returned⟩ := bind_eq_some_iff.mp returned
    obtain ⟨code, rfl, undone⟩ | ⟨rip, rfl, keeps⟩ := mountPoint_leaves consistent₁ claimed finds
    · obtain ⟨rfl, -⟩ := Prod.mk.inj (some.inj returned)
      refine iff_of_true (fun _ => undone) ?_
      rintro ⟨s₁', sp', dev', s₂', rip, claims', finds', -⟩
      rw [claims] at claims'
      obtain ⟨rfl, same⟩ := Prod.mk.inj (some.inj claims')
      obtain ⟨rfl, rfl⟩ := Prod.mk.inj (Except.ok.inj same)
      rw [finds] at finds'
      cases (Prod.mk.inj (some.inj finds')).2
    · obtain ⟨refuses, left⟩ := mountOn_refuses consistent₁ claimed keeps returned
      constructor
      · rintro undone ⟨s₁', sp', dev', s₂', rip', claims', finds', refused⟩
        rw [claims] at claims'
        obtain ⟨rfl, same⟩ := Prod.mk.inj (some.inj claims')
        obtain ⟨rfl, rfl⟩ := Prod.mk.inj (Except.ok.inj same)
        rw [finds] at finds'
        obtain ⟨rfl, same⟩ := Prod.mk.inj (some.inj finds')
        obtain rfl := Except.ok.inj same
        have error := refuses.mpr refused
        have slot := (undone error).slots sp
        rw [(left error).1, claimed.free] at slot
        exact claimed.named slot
      · intro accepted error
        exact absurd ⟨s₁, sp, dev, s₂, rip, claims, finds, refuses.mp error⟩ accepted

end Failed

/-! ### A disk that is mounted on a busy directory -/

/-- A device with the given words in its blocks. -/
def deviceOf (words : List (UInt32 × Nat × UInt16)) : Disk.Device := fun b i =>
  match words.find? fun entry => entry.1 == b && entry.2.1 == i - i % 2 with
  | some entry => if i % 2 = 0 then entry.2.2.toUInt8 else (entry.2.2 >>> 8).toUInt8
  | none => 0

/-- The super block of a V2 file system. -/
def smallDisk : Disk.Super where
  disk :=
    { ninodes := 16, nzones := 0, imapBlocks := 1, zmapBlocks := 1, firstdatazone := 5,
      logZoneSize := 0, maxSize := 4096, magic := Disk.superV2, zones := 100 }
  version := .v2
  native := true

/-- The root file system has a block special file `/d`, and device 3/0 a file system. -/
def smallTables : State where
  inode slot :=
    if slot.val = 0 then
      { core := { mode := 0o040755, nlinks := 2, size := 16, zone := fun _ => 10, num := 1 }
        dev := 1, num := 1, count := 2 }
    else {}
  superBlock slot := { read := smallDisk, dev := if slot.val = 0 then 1 else noDev }
  opens _ := 0
  disk dev :=
    if dev = 1 then deviceOf [(4, 64, 0o060600), (4, 66, 1), (4, 88, 0x300), (10, 0, 2), (10, 2, 100)]
    else deviceOf [(1, 0, 16), (1, 4, 1), (1, 6, 1), (1, 8, 5), (1, 12, 4096), (1, 16, 0x2468),
      (1, 20, 100)]

/-- No word on the disk is a pointer, and an inode is given up without a trace. -/
def plain : Environment where
  pointer _ := none
  release s node := some (node.core, s.disk)

/-- The super-user in the root directory. -/
def superUser : Process := ⟨0, 0, ⟨0, by decide⟩, ⟨0, by decide⟩⟩

theorem consistent_smallTables : Consistent smallTables := by
  have unmounted (rip : InodeNr) : ¬ (smallTables.inode rip).mount = true := by
    unfold smallTables
    dsimp only
    split <;> exact Bool.false_ne_true
  refine ⟨fun rip => ?_, fun rip mounted => absurd mounted (unmounted rip),
    fun rip mounted => absurd mounted (unmounted rip),
    fun sp rip _ mounted => absurd mounted (unmounted rip)⟩
  unfold smallTables
  dsimp only
  split <;> decide

/-- The name of the file to be mounted on is too long. -/
theorem mount_name_too_long_undone : ∃ s', doMount plain superUser 9 smallTables
      ⟨.name [47, 100], .invalid enametoolong, false, 0⟩ = some (s', enametoolong) ∧
    Undone smallTables s' := by
  have code : (doMount plain superUser 9 smallTables
      ⟨.name [47, 100], .invalid enametoolong, false, 0⟩).map Prod.snd = some enametoolong := by
    decide
  obtain ⟨⟨s', r⟩, returned, rfl⟩ := map_eq_some_iff.mp code
  refine ⟨s', returned, (failed_mount_undone_iff consistent_smallTables returned).mpr ?_
    (by decide)⟩
  rintro ⟨s₁, sp, dev, s₂, rip, -, finds, -⟩
  cases (Prod.mk.inj (some.inj finds)).2

/-- A mount on the root directory, which is busy, and another try to mount the device. -/
theorem busy_mount_keeps_slot : ∃ s', doMount plain superUser 9 smallTables
      ⟨.name [47, 100], .name [47], false, 0⟩ = some (s', ebusy) ∧
    ¬ Undone smallTables s' ∧
    (claimSuper plain superUser 9 s' ⟨.name [47, 100], .name [47], false, 0⟩).map Prod.snd =
      some (.error ebusy) := by
  have run : (doMount plain superUser 9 smallTables
      ⟨.name [47, 100], .name [47], false, 0⟩).map (fun result =>
        (result.2, (result.1.superBlock ⟨7, by decide⟩).dev,
          (claimSuper plain superUser 9 result.1
            ⟨.name [47, 100], .name [47], false, 0⟩).map Prod.snd)) =
      some (ebusy, 0x300, some (.error ebusy)) := by
    decide
  obtain ⟨⟨s', r⟩, returned, same⟩ := map_eq_some_iff.mp run
  obtain ⟨rfl, slot, refused⟩ : r = ebusy ∧ (s'.superBlock ⟨7, by decide⟩).dev = 0x300 ∧ _ := by
    simpa only [Prod.mk.injEq] using same
  refine ⟨s', returned, fun undone => ?_, refused⟩
  have before := undone.slots ⟨7, by decide⟩
  rw [slot] at before
  exact absurd before (by decide)

end Minix.Mount
