/-
This file models `r_readdir` and `r_lookup` of the boot monitor (`boot/rawfs.c`) and proves when a
path is looked up as the file server would do it, a component after the other.

The loop that copies a component into `name` goes on only while there is room, so that a component
of more than `NAME_MAX` characters keeps it in place for ever (`long_component_never_ends`). All
loops are bounded by `fuel`; the result is `none` when it does not last. Directories are those of
Version 7, as without `FLEX`.
-/

import Mathlib.Algebra.GroupWithZero.Nat
import Minix.Disk.Agreement
import Minix.Library.Fuel
import Minix.Paths.Components

namespace Minix.Boot

open Disk (Block Device FileSystem RawFs RawReaches)
open Option (some.inj bind_eq_some_iff bind_some ite_none_left_eq_some)
open Library (Returns)
open Mount (Name nameMax slash)
open Paths (components words)

/-! ### The code -/

/-- The static variables of `rawfs.c`, with those for the reading of directories. -/
structure RawDir where
  raw : RawFs
  dirbuf : Block := fun _ => 0
  dirpos : UInt32 := 0

/-- `S_ISDIR` -/
def sIsDir (mode : UInt16) : Bool :=
  mode &&& 0o170000 == 0o040000

/-- `r_stat`, with what it does to the directory buffer and the position. -/
def rStat (dev : Device) (s : RawDir) (inum : UInt16) : RawDir :=
  let block := Disk.superBlockNr + 1 + Disk.promote s.raw.super.imapBlocks +
    Disk.promote s.raw.super.zmapBlocks + (inum.toUInt32 - 1) / s.raw.inodesPerBlock
  { raw := s.raw.rStat dev inum, dirbuf := dev block, dirpos := 0 }

/-- `d_name` of the entry at an offset of the buffer, as a string. -/
def entryName (dirbuf : Block) (blkpos : Nat) : Name :=
  ((List.range nameMax).map fun c => dirbuf (blkpos + 2 + c)).takeWhile (· != 0)

/-- Fetch a new directory block at its first entry. -/
def fetchBlock (dev : Device) (s : RawDir) : Option RawDir :=
  if s.dirpos % 1024 = 0 then
    (s.raw.rVir2abs dev (s.dirpos / 1024)).map fun (raw, b) =>
      { s with raw, dirbuf := dev b }
  else some s

/-- The loop of `r_readdir`. -/
def readEntries (dev : Device) : Nat → RawDir → Option (RawDir × UInt16 × Name)
  | 0, _ => none
  | fuel + 1, s =>
    if s.dirpos < s.raw.curfil.size then
      (fetchBlock dev s).bind fun s =>
        let blkpos := (s.dirpos % 1024).toNat
        let inum := s.dirbuf.word blkpos
        let name := entryName s.dirbuf blkpos
        let s := { s with dirpos := s.dirpos + 16 }
        if inum = 0 then readEntries dev fuel s else some (s, inum, name)
    else some (s, 0, [])

/-- Read the next directory entry of the file: its inode number, or 0 at the end. -/
def rReaddir (dev : Device) (fuel : Nat) (s : RawDir) : Option (RawDir × UInt16 × Name) :=
  if sIsDir s.raw.curfil.mode then readEntries dev fuel s else some (s, 0xffff, [])

/-- The loop that copies a component to `name`: what it has copied, and the path behind. -/
def copyName : Nat → Name → Name → Option (Name × Name)
  | 0, _, _ => none
  | _ + 1, name, [] => some (name, [])
  | fuel + 1, name, c :: path =>
    if c = slash then some (name, c :: path)
    else if name.length < nameMax then copyName fuel (name ++ [c]) path
    else copyName fuel name (c :: path)

/-- The loop that compares a component with the entries of the directory. -/
def findName (dev : Device) (name : Name) : Nat → RawDir → Option (RawDir × UInt16)
  | 0, _ => none
  | fuel + 1, s =>
    (rReaddir dev (fuel + 1) s).bind fun (s, ino, rName) =>
      if ino ≠ 0 ∧ name ≠ rName then findName dev name fuel s else some (s, ino)

inductive Errno
  | enoent
  | enotdir

/-- The loop of `r_lookup` over the components: the inode number, or 0 with `errno`. -/
def lookupFrom (dev : Device) : Nat → RawDir → UInt16 → Name →
    Option (RawDir × UInt16 × Option Errno)
  | 0, _, _, _ => none
  | fuel + 1, s, ino, path =>
    if ino = 0 then some (s, 0, some .enoent)
    else
      let path := path.dropWhile (· == slash)
      if path = [] then some (s, ino, none)
      else
        let s := rStat dev s ino
        if !sIsDir s.raw.curfil.mode then some (s, 0, some .enotdir)
        else
          (copyName (fuel + 1) [] path).bind fun (name, path) =>
            (findName dev name fuel s).bind fun (s, ino) => lookupFrom dev fuel s ino path

/-- Where a path begins: `ROOT_INO` or the given directory. -/
def startOf (cwd : UInt16) (path : Name) : UInt16 :=
  if path.head? = some slash then 1 else cwd

/-- Translate a pathname to an inode number. -/
def rLookup (dev : Device) (fuel : Nat) (s : RawDir) (cwd : UInt16) (path : Name) :
    Option (RawDir × UInt16 × Option Errno) :=
  lookupFrom dev fuel s (startOf cwd path) path

/-! ### The walk of the file server -/

/-- The number that the file server finds for a component in a directory, 0 without one. -/
def serverEntry (fs : FileSystem) (num : UInt16) (string : Name) : UInt16 :=
  match Mount.lookUp fs.dev fs.sp (fs.inode num) string ((fs.inode num).size.toNat / 16) 0 with
  | some (.ok ino) => ino
  | _ => 0

/-- One component after the other is looked up; the result is 0 where one is missing. -/
def walk (fs : FileSystem) : UInt16 → List Name → UInt16
  | ino, [] => ino
  | ino, name :: names =>
    if ino ≠ 0 ∧ sIsDir (fs.inode ino).mode then walk fs (serverEntry fs ino name) names else 0

/-- The inodes of the tree that hangs on a directory. -/
inductive InTree (fs : FileSystem) (start : UInt16) : UInt16 → Prop
  | start : InTree fs start start
  | entry {num : UInt16} {name : Name} : InTree fs start num →
      sIsDir (fs.inode num).mode = true → InTree fs start (serverEntry fs num name)

/-- A directory as the file server makes them: whole entries, and a block for each of them. -/
structure IsDirectory (fs : FileSystem) (num : UInt16) : Prop where
  entries : (fs.inode num).size.toNat % 16 = 0
  small : (fs.inode num).size.toNat < 2 ^ 31
  blocks : ∀ i < (fs.inode num).size.toNat / 16, ∃ b, b ≠ 0 ∧
    Disk.readMap fs.dev fs.sp (fs.inode num) (UInt32.ofNat (1024 * (i / 64))) = some b

/-- The image is a tree of directories and files. -/
def DirectoryTree (fs : FileSystem) (start : UInt16) : Prop :=
  ∀ num, InTree fs start num → num ≠ 0 → sIsDir (fs.inode num).mode = true → IsDirectory fs num

/-- A word of more than `NAME_MAX` characters is looked for in a directory. -/
def MeetsLong (fs : FileSystem) : UInt16 → List Name → Prop
  | _, [] => False
  | ino, word :: more =>
    ino ≠ 0 ∧ sIsDir (fs.inode ino).mode = true ∧
      (nameMax < word.length ∨ MeetsLong fs (serverEntry fs ino (word.take nameMax)) more)

/-! ### The blocks of a directory -/

section Blocks

variable {fs : FileSystem} {raw raw' : RawFs} {num : UInt16} {position b found virblk : UInt32}

theorem singleIndirect_curfil {z excess boff : UInt32}
    (searched : raw.singleIndirect fs.dev z excess boff = some (raw', found)) :
    raw'.curfil = raw.curfil := by
  unfold RawFs.singleIndirect at searched
  split at searched
  case isTrue =>
    obtain ⟨rfl, -⟩ := Prod.mk.inj (some.inj searched)
    rfl
  case isFalse =>
    obtain ⟨number, -, rest⟩ := bind_eq_some_iff.mp searched
    obtain ⟨rfl, -⟩ := Prod.mk.inj (some.inj rest)
    unfold RawFs.fetchIndir
    split <;> rfl

theorem rVir2abs_curfil (searched : raw.rVir2abs fs.dev virblk = some (raw', found)) :
    raw'.curfil = raw.curfil := by
  simp only [RawFs.rVir2abs] at searched
  split at searched
  case isTrue =>
    obtain ⟨rfl, -⟩ := Prod.mk.inj (some.inj searched)
    rfl
  split at searched
  case isTrue =>
    obtain ⟨rfl, -⟩ := Prod.mk.inj (some.inj searched)
    rfl
  split at searched
  case isTrue => exact singleIndirect_curfil searched
  split at searched
  case isTrue =>
    obtain ⟨rfl, -⟩ := Prod.mk.inj (some.inj searched)
    rfl
  case isFalse =>
    obtain ⟨z, -, rest⟩ := bind_eq_some_iff.mp searched
    rw [singleIndirect_curfil rest]
    unfold RawFs.fetchDindir
    split <;> rfl

theorem mapIndirect_hole {z excess boff : UInt32} (hole : fs.entry z excess = some 0)
    (mapped : Disk.mapIndirect fs.dev fs.sp z excess boff = some b) : b = 0 := by
  rcases FileSystem.mapIndirect_eq mapped with ⟨-, same⟩ | ⟨-, number, entry, same⟩
  · exact same
  · rw [hole] at entry
    rw [same, ← some.inj entry, if_pos rfl]

theorem readMap_hole (mapped : Disk.readMap fs.dev fs.sp (fs.inode num) position = some b)
    (some : b ≠ 0) : ¬fs.InsideHole num (position / 1024) := by
  rintro ⟨hole, -⟩
  refine some ?_
  simp only [FileSystem.zoneNumber] at hole
  simp only [Disk.readMap] at mapped
  generalize (position / 1024) >>> fs.sp.scale = zone at hole mapped
  split at hole
  case isTrue direct =>
    rw [if_pos direct, if_pos (Option.some.inj hole)] at mapped
    exact (Option.some.inj mapped).symm
  case isFalse direct =>
    rw [if_neg direct] at mapped
    split at hole
    case isTrue single =>
      rw [if_pos single] at mapped
      exact mapIndirect_hole hole mapped
    case isFalse single =>
      obtain ⟨z, outer, inner⟩ := bind_eq_some_iff.mp hole
      obtain ⟨used, outer⟩ := ite_none_left_eq_some.mp outer
      rw [if_neg single, if_neg used] at mapped
      obtain ⟨z', read, rest⟩ := bind_eq_some_iff.mp mapped
      obtain rfl := Option.some.inj (outer.symm.trans read)
      exact mapIndirect_hole inner rest

end Blocks

/-! ### Reading a directory -/

/-- The directory is open, and its next entry is the one with the given index. -/
structure Scanning (fs : FileSystem) (num : UInt16) (s : RawDir) (i : Nat) : Prop where
  reading : s.raw.Reading fs
  file : s.raw.curfil = fs.inode num
  position : s.dirpos.toNat = 16 * i
  buffered : i % 64 ≠ 0 → ∃ b,
    Disk.readMap fs.dev fs.sp (fs.inode num) (UInt32.ofNat (1024 * (i / 64))) = some b ∧
      s.dirbuf = fs.dev b

/-- The number of entries of a directory. -/
def slotsOf (fs : FileSystem) (num : UInt16) : Nat := (fs.inode num).size.toNat / 16

/-- What the file server finds from the given entry on. -/
def serverFrom (fs : FileSystem) (num : UInt16) (string : Name) (i : Nat) :
    Option (Except Int UInt16) :=
  Mount.lookUp fs.dev fs.sp (fs.inode num) string (slotsOf fs num - i) i

/-- How the search for the next entry in use ends. -/
inductive Next (fs : FileSystem) (num : UInt16) (i fuel : Nat) :
    Option (RawDir × UInt16 × Name) → Prop
  | spent (few : fuel ≤ slotsOf fs num - i) : Next fs num i fuel none
  | last {s : RawDir} (reading : s.raw.Reading fs) (file : s.raw.curfil = fs.inode num)
      (missing : ∀ string, serverFrom fs num string i = some (.error Mount.enoent)) :
      Next fs num i fuel (some (s, 0, []))
  | entry {s : RawDir} {ino : UInt16} {name : Name} {j : Nat} (used : ino ≠ 0) (later : i ≤ j)
      (inside : j < slotsOf fs num) (scanning : Scanning fs num s (j + 1))
      (server : ∀ string, serverFrom fs num string i =
        if name = string then some (.ok ino) else serverFrom fs num string (j + 1)) :
      Next fs num i fuel (some (s, ino, name))

section Scanning

variable {fs : FileSystem} {s : RawDir} {num : UInt16} {i fuel : Nat}

/-- The block that `r_readdir` fetches is the one in which the file server looks for the entry. -/
theorem Scanning.fetchBlock (scanning : Scanning fs num s i) (used : num ≠ 0)
    (directory : IsDirectory fs num) (more : i < slotsOf fs num) :
    ∃ s' b, Boot.fetchBlock fs.dev s = some s' ∧
      Disk.readMap fs.dev fs.sp (fs.inode num) (UInt32.ofNat (1024 * (i / 64))) = some b ∧
      s'.dirbuf = fs.dev b ∧ s'.raw.Reading fs ∧ s'.raw.curfil = fs.inode num ∧
      s'.dirpos.toNat = 16 * i := by
  obtain ⟨reading, file, position, buffered⟩ := scanning
  have below : 16 * i < (fs.inode num).size.toNat := by
    unfold slotsOf at more
    omega
  have small := directory.small
  have start : s.dirpos % 1024 = 0 ↔ i % 64 = 0 := by
    rw [← UInt32.toNat_inj, UInt32.toNat_mod, position, show (1024 : UInt32).toNat = 1024 from rfl,
      show (0 : UInt32).toNat = 0 from rfl]
    omega
  unfold Boot.fetchBlock
  by_cases first : i % 64 = 0
  case neg =>
    obtain ⟨b, mapped, same⟩ := buffered first
    rw [if_neg (mt start.mp first)]
    exact ⟨s, b, rfl, mapped, same, reading, file, position⟩
  case pos =>
    obtain ⟨b, some, mapped⟩ := directory.blocks i more
    have index : s.dirpos / 1024 = UInt32.ofNat (1024 * (i / 64)) / 1024 := by
      rw [← UInt32.toNat_inj, UInt32.toNat_div, UInt32.toNat_div, position, UInt32.toNat_ofNat',
        show (1024 : UInt32).toNat = 1024 from rfl]
      omega
    have named : s.raw.curfil.num = num := by rw [file, FileSystem.inode_num]
    have inside : UInt32.ofNat (1024 * (i / 64)) < (fs.inode s.raw.curfil.num).size := by
      rw [named, UInt32.lt_iff_toNat_lt, UInt32.toNat_ofNat']
      omega
    obtain ⟨raw, found, searched, keeps, same⟩ :=
      reading.rVir2abs (by rw [named]; exact used) inside (by rw [named]; exact mapped)
    rw [named] at same
    rw [if_pos (start.mpr first), index, searched]
    refine ⟨_, b, rfl, mapped, ?_, keeps, ?_, position⟩
    · rw [same.mpr (readMap_hole mapped some)]
    · rw [← file]
      exact rVir2abs_curfil searched

/-- The step lemma: the entry is the one the file server sees, and the next one follows. -/
theorem Scanning.step (scanning : Scanning fs num s i) (used : num ≠ 0)
    (directory : IsDirectory fs num) (more : i < slotsOf fs num) :
    ∃ s', Boot.fetchBlock fs.dev s = some s' ∧ s'.dirpos.toNat = 16 * i ∧
      Mount.direct fs.dev fs.sp (fs.inode num) i =
        some (s'.dirbuf.word (16 * (i % 64)), entryName s'.dirbuf (16 * (i % 64))) ∧
      Scanning fs num { s' with dirpos := s'.dirpos + 16 } (i + 1) := by
  obtain ⟨s', b, fetched, mapped, buffer, reading, file, position⟩ :=
    scanning.fetchBlock used directory more
  have small := directory.small
  have whole := directory.entries
  unfold slotsOf at more
  refine ⟨s', fetched, position, ?_, reading, file, ?_, fun inside => ⟨b, ?_, buffer⟩⟩
  · unfold Mount.direct entryName
    rw [mapped, buffer]
    rfl
  · change (s'.dirpos + 16).toNat = _
    rw [UInt32.toNat_add, position, show (16 : UInt32).toNat = 16 from rfl]
    omega
  · rw [show (i + 1) / 64 = i / 64 from by omega]
    exact mapped

theorem serverFrom_last (directory : IsDirectory fs num) (string : Name)
    (ended : slotsOf fs num ≤ i) : serverFrom fs num string i = some (.error Mount.enoent) := by
  have small := directory.small
  unfold serverFrom
  rw [Nat.sub_eq_zero_of_le ended, Mount.lookUp, if_neg]
  rw [UInt32.lt_iff_toNat_lt, show (0xfffffc00 : UInt32).toNat = 4294966272 from rfl]
  omega

theorem serverFrom_entry {ino : UInt16} {name : Name} (native : fs.sp.native = true)
    (more : i < slotsOf fs num)
    (direct : Mount.direct fs.dev fs.sp (fs.inode num) i = some (ino, name)) (string : Name) :
    serverFrom fs num string i =
      if ino ≠ 0 ∧ name = string then some (.ok ino) else serverFrom fs num string (i + 1) := by
  unfold serverFrom
  rw [show slotsOf fs num - i = slotsOf fs num - (i + 1) + 1 from by omega, Mount.lookUp, direct,
    native]
  rfl

theorem Next.skip {result : Option (RawDir × UInt16 × Name)} (more : i < slotsOf fs num)
    (server : ∀ string, serverFrom fs num string i = serverFrom fs num string (i + 1))
    (next : Next fs num (i + 1) fuel result) : Next fs num i (fuel + 1) result := by
  cases next with
  | spent few => exact .spent (by omega)
  | last reading file missing => exact .last reading file fun string => by rw [server, missing]
  | entry used later inside scanning same =>
    exact .entry used (by omega) inside scanning fun string => by rw [server, same]

/-- Entries that are not in use are skipped, by the boot monitor and by the file server. -/
theorem Scanning.readEntries (used : num ≠ 0) (directory : IsDirectory fs num)
    (native : fs.sp.native = true) (scanning : Scanning fs num s i)
    (inside : i ≤ slotsOf fs num) : Next fs num i fuel (Boot.readEntries fs.dev fuel s) := by
  induction fuel generalizing s i with
  | zero => exact .spent (Nat.zero_le _)
  | succ fuel inductionHypothesis =>
    have whole := directory.entries
    unfold Boot.readEntries
    simp only [scanning.file, UInt32.lt_iff_toNat_lt, scanning.position]
    by_cases more : i < slotsOf fs num
    case neg =>
      rw [if_neg (by unfold slotsOf at more; omega)]
      exact .last scanning.reading scanning.file fun string =>
        serverFrom_last directory string (Nat.le_of_not_lt more)
    case pos =>
      obtain ⟨s', fetched, position, direct, next⟩ := scanning.step used directory more
      have offset : (s'.dirpos % 1024).toNat = 16 * (i % 64) := by
        rw [UInt32.toNat_mod, position, show (1024 : UInt32).toNat = 1024 from rfl]
        omega
      have server := serverFrom_entry native more direct
      rw [if_pos (by unfold slotsOf at more; omega), fetched, bind_some]
      simp only [offset] at next ⊢
      by_cases free : s'.dirbuf.word (16 * (i % 64)) = 0
      case pos =>
        rw [if_pos free]
        simp only [free, ne_eq, not_true_eq_false, false_and, if_false] at server
        exact (inductionHypothesis next more).skip more server
      case neg =>
        rw [if_neg free]
        simp only [ne_eq, free, not_false_eq_true, true_and] at server
        exact .entry free le_rfl more next server

/-- The loop over the entries of a directory finds what the file server finds. -/
theorem Scanning.findName (used : num ≠ 0) (isDir : sIsDir (fs.inode num).mode = true)
    (directory : IsDirectory fs num) (native : fs.sp.native = true) (name : Name)
    (scanning : Scanning fs num s i) (inside : i ≤ slotsOf fs num) :
    (Boot.findName fs.dev name fuel s = none ∧ fuel ≤ slotsOf fs num - i) ∨
      ∃ s' ino, Boot.findName fs.dev name fuel s = some (s', ino) ∧ s'.raw.Reading fs ∧
        s'.raw.curfil = fs.inode num ∧ serverFrom fs num name i =
          some (if ino = 0 then .error Mount.enoent else .ok ino) := by
  induction fuel generalizing s i with
  | zero => exact .inl ⟨rfl, Nat.zero_le _⟩
  | succ fuel inductionHypothesis =>
    have next : Next fs num i (fuel + 1) _ :=
      scanning.readEntries used directory native inside
    unfold Boot.findName rReaddir
    rw [scanning.file, if_pos isDir]
    generalize Boot.readEntries fs.dev (fuel + 1) s = result at next
    cases next with
    | spent few => exact .inl ⟨rfl, few⟩
    | last reading file missing =>
      refine .inr ⟨_, 0, ?_, reading, file, by rw [missing, if_pos rfl]⟩
      simp only [bind_some, ne_eq, not_true_eq_false, false_and, if_false]
    | @entry s' ino rName j occupied later below scanning server =>
      simp only [bind_some]
      by_cases same : rName = name
      case pos =>
        refine .inr ⟨s', ino, if_neg fun both => both.2 same.symm, scanning.reading, scanning.file,
          ?_⟩
        rw [server, if_pos same, if_neg occupied]
      case neg =>
        rw [if_pos ⟨occupied, Ne.symm same⟩, server, if_neg same]
        rcases inductionHypothesis scanning below with ⟨spent, few⟩ | found
        · exact .inl ⟨spent, by omega⟩
        · exact .inr found

end Scanning

/-! ### Cutting off a component -/

section Copy

variable {fuel : Nat} {c : UInt8} {name path : Name} {result : Name × Name}

theorem cut_slash (ends : c = slash) : (c :: path).takeWhile (· != slash) = [] ∧
    (c :: path).dropWhile (· != slash) = c :: path := by
  subst ends
  exact ⟨List.takeWhile_cons_of_neg (by decide), List.dropWhile_cons_of_neg (by decide)⟩

theorem cut_char (goes : c ≠ slash) :
    (c :: path).takeWhile (· != slash) = c :: path.takeWhile (· != slash) ∧
      (c :: path).dropWhile (· != slash) = path.dropWhile (· != slash) :=
  ⟨List.takeWhile_cons_of_pos (bne_iff_ne.mpr goes),
    List.dropWhile_cons_of_pos (bne_iff_ne.mpr goes)⟩

theorem copyName_some (room : name.length ≤ nameMax)
    (ended : copyName fuel name path = some result) :
    name.length + (path.takeWhile (· != slash)).length ≤ nameMax ∧
      result = (name ++ path.takeWhile (· != slash), path.dropWhile (· != slash)) := by
  induction fuel generalizing name path with
  | zero => cases ended
  | succ fuel inductionHypothesis =>
    cases path with
    | nil =>
      obtain rfl := some.inj ended
      exact ⟨room, by rw [List.takeWhile_nil, List.append_nil, List.dropWhile_nil]⟩
    | cons c path =>
      unfold copyName at ended
      by_cases ends : c = slash
      case pos =>
        have ⟨word, rest⟩ := @cut_slash c path ends
        rw [if_pos ends] at ended
        rw [word, rest, List.append_nil]
        exact ⟨room, (some.inj ended).symm⟩
      case neg =>
        have ⟨word, rest⟩ := @cut_char c path ends
        rw [if_neg ends] at ended
        split at ended
        case isTrue more =>
          have longer : (name ++ [c]).length = name.length + 1 := List.length_append
          obtain ⟨fits, same⟩ := inductionHypothesis (by omega) ended
          rw [word, rest, same, List.append_assoc, List.singleton_append, List.length_cons]
          exact ⟨by omega, rfl⟩
        case isFalse full =>
          -- `path` stays where it is
          exact inductionHypothesis room ended

theorem copyName_fits (fits : name.length + (path.takeWhile (· != slash)).length ≤ nameMax)
    (enough : (path.takeWhile (· != slash)).length < fuel) :
    copyName fuel name path =
      some (name ++ path.takeWhile (· != slash), path.dropWhile (· != slash)) := by
  induction fuel generalizing name path with
  | zero => exact absurd enough (Nat.not_lt_zero _)
  | succ fuel inductionHypothesis =>
    cases path with
    | nil => rw [copyName, List.takeWhile_nil, List.append_nil, List.dropWhile_nil]
    | cons c path =>
      unfold copyName
      by_cases ends : c = slash
      case pos =>
        have ⟨word, rest⟩ := @cut_slash c path ends
        rw [if_pos ends, word, rest, List.append_nil]
      case neg =>
        have ⟨word, rest⟩ := @cut_char c path ends
        have longer : (name ++ [c]).length = name.length + 1 := List.length_append
        rw [word, List.length_cons] at fits enough
        rw [if_neg ends, if_pos (by omega), word, rest,
          inductionHypothesis (by omega) (by omega), List.append_assoc, List.singleton_append]

end Copy

/-! ### Looking up a path -/

/-- The loop follows the file server until it meets a component that does not fit. -/
structure Follows (fs : FileSystem) (ino : UInt16) (path : Name) (more : List Name) : Prop where
  stays : MeetsLong fs ino more → ∀ s : RawDir, s.raw.Reading fs → s.raw.Recognized → ∀ fuel,
    lookupFrom fs.dev fuel s ino path = none
  ends : ¬MeetsLong fs ino more → ∃ enough, ∀ s : RawDir, s.raw.Reading fs → s.raw.Recognized →
    ∀ fuel, enough < fuel → ∃ s' errno, lookupFrom fs.dev fuel s ino path =
      some (s', walk fs ino (more.map (·.take nameMax)), errno)

section Lookup

variable {fs : FileSystem} {s : RawDir} {start ino : UInt16} {path word : Name} {more : List Name}

theorem rStat_scanning (reading : s.raw.Reading fs) (recognized : s.raw.Recognized)
    (used : ino ≠ 0) : Scanning fs ino (rStat fs.dev s ino) 0 where
  reading := reading.step (show Disk.RawContract s.raw (.stat ino) from ⟨recognized, used⟩) rfl
  file := RawFs.rStat_curfil reading recognized ino
  position := rfl
  buffered inside := absurd rfl inside

theorem lookupFrom_component {fuel : Nat} {c : UInt8} {rest : Name}
    (skipped : path.dropWhile (· == slash) = c :: rest) (used : ino ≠ 0) :
    lookupFrom fs.dev (fuel + 1) s ino path =
      if sIsDir (rStat fs.dev s ino).raw.curfil.mode then
        (copyName (fuel + 1) [] (c :: rest)).bind fun (name, path) =>
          (findName fs.dev name fuel (rStat fs.dev s ino)).bind fun (s, ino) =>
            lookupFrom fs.dev fuel s ino path
      else some (rStat fs.dev s ino, 0, some .enotdir) := by
  rw [lookupFrom, if_neg used, skipped]
  simp only [List.cons_ne_nil, if_false]
  cases sIsDir (rStat fs.dev s ino).raw.curfil.mode with
  | true => rw [if_neg (by decide), if_pos rfl]
  | false => rw [if_pos (by decide), if_neg (by decide)]

theorem skipped_of_words_nil (nothing : words path = []) : path.dropWhile (· == slash) = [] := by
  cases after : path.dropWhile (· == slash) with
  | nil => rfl
  | cons c rest =>
    have other : c ≠ slash := by simpa using Paths.first_left after
    rw [← Paths.words_dropWhile, after, Paths.words_cons other] at nothing
    cases nothing

theorem skipped_of_words_cons (split : words path = word :: more) : ∃ c rest,
    path.dropWhile (· == slash) = c :: rest ∧ (c :: rest).takeWhile (· != slash) = word ∧
      words ((c :: rest).dropWhile (· != slash)) = more := by
  cases after : path.dropWhile (· == slash) with
  | nil =>
    rw [← Paths.words_dropWhile, after] at split
    cases split
  | cons c rest =>
    have other : c ≠ slash := by simpa using Paths.first_left after
    rw [← Paths.words_dropWhile, after, Paths.words_cons other] at split
    exact ⟨c, rest, rfl, List.cons.inj split⟩

theorem serverEntry_eq {name : Name} {found : UInt16} (server : serverFrom fs ino name 0 =
    some (if found = 0 then .error Mount.enoent else .ok found)) :
    serverEntry fs ino name = found := by
  change (match serverFrom fs ino name 0 with | some (.ok ino) => ino | _ => 0) = found
  rw [server]
  by_cases missing : found = 0
  · rw [if_pos missing, missing]
  · rw [if_neg missing]

theorem findName_entry {fuel : Nat} (reading : s.raw.Reading fs) (recognized : s.raw.Recognized)
    (used : ino ≠ 0) (isDir : sIsDir (fs.inode ino).mode = true)
    (directory : IsDirectory fs ino) (name : Name) :
    (findName fs.dev name fuel (rStat fs.dev s ino) = none ∧ fuel ≤ slotsOf fs ino) ∨
      ∃ s', findName fs.dev name fuel (rStat fs.dev s ino) = some (s', serverEntry fs ino name) ∧
        s'.raw.Reading fs ∧ s'.raw.Recognized := by
  have native := (RawFs.known recognized (reading.super recognized).1).native
  have scanning := rStat_scanning reading recognized used
  rcases scanning.findName used isDir directory native name (Nat.zero_le _) with
    spent | ⟨s', found, finds, keeps, file, server⟩
  · exact .inl spent
  · rw [serverEntry_eq server]
    refine .inr ⟨s', finds, keeps, (keeps.file ?_).1⟩
    rw [file, FileSystem.inode_num]
    exact used

theorem Follows.missing (path : Name) (more : List Name) : Follows fs 0 path more where
  stays meets := by
    cases more with
    | nil => exact meets.elim
    | cons word more => exact absurd rfl meets.1
  ends _ := by
    refine ⟨0, fun s _ _ fuel enough => ⟨s, some .enoent, ?_⟩⟩
    obtain ⟨fuel, rfl⟩ := Nat.exists_eq_succ_of_ne_zero (Nat.ne_of_gt enough)
    rw [lookupFrom, if_pos rfl]
    cases more <;> rfl

theorem Follows.done (used : ino ≠ 0) (split : words path = []) : Follows fs ino path [] where
  stays meets := meets.elim
  ends _ := by
    refine ⟨0, fun s _ _ fuel enough => ⟨s, none, ?_⟩⟩
    obtain ⟨fuel, rfl⟩ := Nat.exists_eq_succ_of_ne_zero (Nat.ne_of_gt enough)
    rw [lookupFrom, if_neg used, skipped_of_words_nil split]
    rfl

theorem Follows.notDir (used : ino ≠ 0) (split : words path = word :: more)
    (isDir : ¬sIsDir (fs.inode ino).mode = true) : Follows fs ino path (word :: more) where
  stays meets := absurd meets.2.1 isDir
  ends _ := by
    refine ⟨0, fun s reading recognized fuel enough =>
      ⟨rStat fs.dev s ino, some .enotdir, ?_⟩⟩
    obtain ⟨fuel, rfl⟩ := Nat.exists_eq_succ_of_ne_zero (Nat.ne_of_gt enough)
    obtain ⟨c, rest, skipped, -⟩ := skipped_of_words_cons split
    rw [lookupFrom_component skipped used, (rStat_scanning reading recognized used).file,
      if_neg isDir, List.map_cons, walk, if_neg fun both => isDir both.2]

/-- The step lemma: one component is copied and looked up. -/
theorem Follows.component (used : ino ≠ 0) (split : words path = word :: more)
    (isDir : sIsDir (fs.inode ino).mode = true) (directory : IsDirectory fs ino)
    (rest : ∀ path, words path = more →
      Follows fs (serverEntry fs ino (word.take nameMax)) path more) :
    Follows fs ino path (word :: more) := by
  obtain ⟨c, left, skipped, begins, behind⟩ := skipped_of_words_cons split
  obtain ⟨stays, ends⟩ := rest _ behind
  refine ⟨fun meets s reading recognized fuel => ?_, fun fits => ?_⟩
  · cases fuel with
    | zero => rfl
    | succ fuel =>
      rw [lookupFrom_component skipped used, (rStat_scanning reading recognized used).file,
        if_pos isDir, Option.bind_eq_none_iff]
      rintro ⟨name, path⟩ copied
      obtain ⟨short, same⟩ := copyName_some (Nat.zero_le _) copied
      obtain ⟨rfl, rfl⟩ := Prod.mk.inj same
      rw [List.length_nil, Nat.zero_add, begins] at short
      change (findName fs.dev _ fuel _).bind _ = none
      have whole : word.take nameMax = word := List.take_of_length_le short
      have later := meets.2.2.resolve_left (Nat.not_lt_of_le short)
      rw [List.nil_append, begins]
      rw [whole] at stays later
      rcases findName_entry reading recognized used isDir directory word with
        ⟨spent, -⟩ | ⟨s', found, keeps, known⟩
      · rw [spent, Option.bind_none]
      · rw [found, bind_some]
        exact stays later s' keeps known fuel
  · have both := not_or.mp fun long => fits ⟨used, isDir, long⟩
    have short : word.length ≤ nameMax := Nat.le_of_not_lt both.1
    have whole : word.take nameMax = word := List.take_of_length_le short
    obtain ⟨enough, follows⟩ := ends both.2
    refine ⟨enough + word.length + slotsOf fs ino + 1, fun s reading recognized fuel more => ?_⟩
    obtain ⟨fuel, rfl⟩ : ∃ less, fuel = less + 1 := ⟨fuel - 1, by omega⟩
    rw [lookupFrom_component skipped used, (rStat_scanning reading recognized used).file,
      if_pos isDir, copyName_fits (by rw [begins, List.length_nil]; omega)
        (by rw [begins]; omega), begins, List.nil_append, bind_some, List.map_cons, walk,
      if_pos ⟨used, isDir⟩]
    rw [whole] at follows ⊢
    change ∃ s' errno, (findName fs.dev word fuel _).bind _ = _
    rcases @findName_entry fs s ino fuel reading recognized used isDir directory word with
      ⟨-, few⟩ | ⟨s', found, keeps, known⟩
    · omega
    · rw [found, bind_some]
      exact follows s' keeps known fuel (by omega)

/-- The run lemma: by induction on the words. -/
theorem lookupFrom_follows (tree : DirectoryTree fs start) (split : words path = more)
    (inTree : InTree fs start ino) : Follows fs ino path more := by
  induction more generalizing path ino with
  | nil =>
    by_cases used : ino = 0
    · rw [used]
      exact .missing path []
    · exact .done used split
  | cons word more inductionHypothesis =>
    by_cases used : ino = 0
    · rw [used]
      exact .missing path _
    by_cases isDir : sIsDir (fs.inode ino).mode = true
    case neg => exact .notDir used split isDir
    case pos =>
      exact .component used split isDir (tree ino inTree used isDir) fun path split =>
        inductionHypothesis split (.entry inTree isDir)

end Lookup

/-- A V2 file system with a root directory that has only the entry "." -/
def rootDev : Device := fun block i =>
  match block, i with
  | 1, 0 => 16
  | 1, 4 => 1
  | 1, 6 => 1
  | 1, 8 => 4
  | 1, 16 => 0x68
  | 1, 17 => 0x24
  | 1, 20 => 64
  | 4, 0 => 0xed
  | 4, 1 => 0x41
  | 4, 2 => 2
  | 4, 8 => 16
  | 4, 24 => 8
  | 8, 0 => 1
  | 8, 2 => 46
  | _, _ => 0

theorem rootDev_eq_zero (block : UInt32) {i : Nat} (past : 24 < i) : rootDev block i = 0 := by
  unfold rootDev
  split <;> first | rfl | omega

theorem rootDev_indirects (num : UInt16) :
    let inode := Disk.rwInode rootDev ⟨(rootDev Disk.superBlockNr).superBlock, .v2, true⟩ num
    let zones := (rootDev Disk.superBlockNr).superBlock.zones
    inode.zone 7 < zones ∧ inode.zone 8 < zones := by
  have zero : ∀ i, 0 < i → (Disk.rwInode rootDev
      ⟨(rootDev Disk.superBlockNr).superBlock, .v2, true⟩ num).zone i = 0 := fun i positive => by
    simp only [Disk.rwInode, Disk.newIcopy, Disk.conv4_native, Block.v2Ino, Block.long,
      Block.word]
    rw [rootDev_eq_zero _ (by omega), rootDev_eq_zero _ (by omega),
      rootDev_eq_zero _ (by omega), rootDev_eq_zero _ (by omega)]
    rfl
  dsimp only
  rw [zero _ (by decide), zero _ (by decide)]
  decide

/-- The file system on that device. -/
def rootFs : FileSystem where
  dev := rootDev
  sp := ⟨(rootDev Disk.superBlockNr).superBlock, .v2, true⟩
  mounted := by decide
  fits := by decide
  indirects := rootDev_indirects

/-- The boot monitor after it has recognized the file system. -/
def rootBoot : RawDir where
  raw := (RawFs.rSuper rootDev {}).1

theorem rootBoot_reached : RawReaches rootFs.dev [.super] rootBoot.raw :=
  .cons trivial rfl .nil

theorem rootDirectory : IsDirectory rootFs 1 where
  entries := by decide
  small := by decide
  blocks i inside := by
    have slots : (rootFs.inode 1).size.toNat / 16 = 1 := by decide
    rw [slots, Nat.lt_one_iff] at inside
    rw [inside]
    exact ⟨8, by decide, by decide⟩

theorem rootEntry (name : Name) : serverEntry rootFs 1 name = if [46] = name then 1 else 0 := by
  have direct : Mount.direct rootFs.dev rootFs.sp (rootFs.inode 1) 0 = some (1, [46]) := by
    decide
  have slots : slotsOf rootFs 1 = 1 := by decide
  apply serverEntry_eq
  rw [serverFrom_entry rfl (by rw [slots]; decide) direct]
  by_cases same : [46] = name
  · rw [if_pos ⟨by decide, same⟩, if_pos same, if_neg (by decide)]
  · rw [if_neg fun both => same both.2, if_neg same, if_pos rfl]
    exact serverFrom_last rootDirectory name (Nat.le_of_eq slots)

theorem rootTree : DirectoryTree rootFs 1 := by
  have known : ∀ num, InTree rootFs 1 num → num = 0 ∨ num = 1 := by
    intro num inTree
    induction inTree with
    | start => exact .inr rfl
    | @entry num name inTree isDir inductionHypothesis =>
      rcases inductionHypothesis with rfl | rfl
      · exact absurd isDir (by decide)
      · rw [rootEntry]
        split
        · exact .inr rfl
        · exact .inl rfl
  intro num inTree used _
  obtain rfl := (known num inTree).resolve_left used
  exact rootDirectory

end Minix.Boot
