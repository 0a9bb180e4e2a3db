/-
This file models the inode table and the super block table of FS as far as the mounting of file
systems needs them: `get_inode`, `put_inode` and `dup_inode` (`fs/inode.c`), `get_super` and
`read_super` (`fs/super.c`), and the looking up of a name in a directory (`search_dir` of
`fs/path.c`, with `forbidden` of `fs/protect.c` for the super-user).

The blocks of the devices are read as they lie on the disk (`Disk.Device`). What giving up an
inode without links or a changed inode does to the disk is a parameter, and so is which word is a
pointer to a slot of the inode table, for `read_super` copies the pointers of a super block from the
disk too. A result that is `none` is a panic, an access through a bad pointer, or an endless loop.
-/

import Minix.Disk.ReadMap

namespace Minix.Mount

open Function (update)

/-! ### The tables -/

/-- `NR_INODES` -/
abbrev nrInodes : Nat := 64

/-- `NR_SUPERS` -/
abbrev nrSupers : Nat := 8

/-- A slot of the inode table. -/
abbrev InodeNr := Fin nrInodes

/-- A slot of the super block table. -/
abbrev SuperNr := Fin nrSupers

/-- `dev_t` -/
abbrev Dev := UInt16

/-- `NO_DEV` -/
def noDev : Dev := 0

/-- `ROOT_INODE` -/
def rootInode : UInt16 := 1

/-- A slot of the inode table: what is on the disk, and what is only in memory. -/
structure Inode where
  core : Disk.Inode := {}
  dev : Dev := 0
  num : UInt16 := 0
  count : Int := 0
  sp : SuperNr := ⟨0, by decide⟩
  pipe : Bool := false
  mount : Bool := false

/-- A slot of the super block table, which is free if `dev` is `NO_DEV`. -/
structure SuperBlock where
  read : Disk.Super
  isup : Option InodeNr := none
  imount : Option InodeNr := none
  dev : Dev := 0
  rdOnly : Bool := false

/-- The tables, how often each device is open, the contents of the devices, and `err_code`. -/
structure State where
  inode : InodeNr → Inode
  superBlock : SuperNr → SuperBlock
  opens : Dev → Int
  disk : Dev → Disk.Device
  errCode : Int := 0

/-- What the model leaves open. -/
structure Environment where
  /-- the slot that a pointer points to -/
  pointer : UInt32 → Option InodeNr
  /-- what `truncate`, `free_inode` and `rw_inode` do with an inode that nobody uses any more -/
  release : State → Inode → Option (Disk.Inode × (Dev → Disk.Device))

/-- `ENOENT` -/
def enoent : Int := -2

/-- `EACCES` -/
def eacces : Int := -13

/-- `ENOTDIR` -/
def enotdir : Int := -20

/-- `EINVAL` -/
def einval : Int := -22

/-- `ENFILE` -/
def enfile : Int := -23

def State.setInode (s : State) (rip : InodeNr) (node : Inode) : State :=
  { s with inode := update s.inode rip node }

def State.setSuper (s : State) (sp : SuperNr) (entry : SuperBlock) : State :=
  { s with superBlock := update s.superBlock sp entry }

/-- The count of an inode is changed. -/
def State.addCount (s : State) (rip : InodeNr) (change : Int) : State :=
  s.setInode rip { s.inode rip with count := (s.inode rip).count + change }

/-- The type of a file, in `i_mode`. -/
inductive FileType
  | blockSpecial
  | directory
  | charSpecial
  | other
deriving DecidableEq

/-- `rip->i_mode & I_TYPE` -/
def Inode.fileType (node : Inode) : FileType :=
  if node.core.mode &&& 0o170000 = 0o060000 then .blockSpecial
  else if node.core.mode &&& 0o170000 = 0o040000 then .directory
  else if node.core.mode &&& 0o170000 = 0o020000 then .charSpecial
  else .other

/-! ### Super blocks -/

/-- Search the super block table for this device. -/
def getSuper (s : State) (dev : Dev) : Option SuperNr :=
  (List.finRange nrSupers).find? fun sp => (s.superBlock sp).dev == dev

/-- Read a super block into a slot. The whole structure is copied from the disk; the device number
comes back at the end, if the super block looks reasonable. -/
def readSuper (env : Environment) (s : State) (sp : SuperNr) : State × Int :=
  let entry := s.superBlock sp
  let bp := s.disk entry.dev Disk.superBlockNr
  let entry' : SuperBlock :=
    { entry with
      isup := env.pointer (bp.long 24)
      imount := env.pointer (bp.long 28)
      dev := noDev
      rdOnly := bp.long 40 != 0 }
  match Disk.readSuper (s.disk entry.dev) with
  | none => (s.setSuper sp entry', einval)
  | some read => (s.setSuper sp { entry' with read := read, dev := entry.dev }, 0)

/-! ### Inodes -/

/-- Find a slot in the inode table, and load the specified inode into it. -/
def getInode (s : State) (dev : Dev) (numb : UInt16) : Option (State × Option InodeNr) :=
  match (List.finRange nrInodes).find? fun rip =>
      decide (0 < (s.inode rip).count) && (s.inode rip).dev == dev && (s.inode rip).num == numb with
  | some rip => some (s.addCount rip 1, some rip)
  | none =>
    match (List.finRange nrInodes).reverse.find? fun rip => decide ((s.inode rip).count ≤ 0) with
    | none => some ({ s with errCode := enfile }, none)
    | some xp =>
      let node := { s.inode xp with dev := dev, num := numb, count := 1 }
      if dev = noDev then some (s.setInode xp node, some xp)
      else
        (getSuper s dev).map fun sp =>
          let core := Disk.rwInode (s.disk dev) (s.superBlock sp).read numb
          (s.setInode xp { node with core := core, sp := sp }, some xp)

/-- The caller is no longer using this inode. -/
def putInode (env : Environment) (s : State) (rip : InodeNr) : Option State :=
  let s := s.addCount rip (-1)
  let node := s.inode rip
  if node.count = 0 then
    (env.release s node).map fun (core, disk) =>
      let core := if node.core.nlinks = 0 then { core with mode := 0 } else core
      { s.setInode rip { node with core := core, pipe := false } with disk := disk }
  else some s

/-- `put_inode` of a pointer that may be nil. -/
def putInode? (env : Environment) (s : State) (rip : Option InodeNr) : Option State :=
  match rip with
  | none => some s
  | some rip => putInode env s rip

/-- Someone else is using an inode table entry. -/
def dupInode (s : State) (rip : InodeNr) : State := s.addCount rip 1

/-! ### Directories -/

/-- `NAME_MAX` -/
def nameMax : Nat := 14

/-- `d_ino` and `d_name` of an entry of a directory. -/
def direct (disk : Disk.Device) (sp : Disk.Super) (ldir : Disk.Inode) (i : Nat) :
    Option (UInt16 × List UInt8) :=
  (Disk.readMap disk sp ldir (UInt32.ofNat (1024 * (i / 64)))).map fun b =>
    let bp := disk b
    (bp.word (16 * (i % 64)),
      ((List.range nameMax).map fun c => bp (16 * (i % 64) + 2 + c)).takeWhile (· != 0))

/-- Step through the entries of a directory from the given one on. -/
def lookUp (disk : Disk.Device) (sp : Disk.Super) (ldir : Disk.Inode) (string : List UInt8) :
    Nat → Nat → Option (Except Int UInt16)
  | 0, _ =>
    -- the position wraps around before it reaches the size
    if 0xfffffc00 < ldir.size then none else some (.error enoent)
  | slots + 1, i =>
    (direct disk sp ldir i).bind fun (ino, name) =>
      if ino ≠ 0 ∧ name = string then some (.ok (Disk.conv2 sp.native ino))
      else lookUp disk sp ldir string slots (i + 1)

/-- Search permission for the super-user. -/
def searchable (node : Inode) : Bool :=
  node.fileType == .directory || node.core.mode &&& 0o111 != 0

/-- What the calling process has in `fproc`. -/
structure Process where
  uid : UInt16
  gid : UInt8
  rootdir : InodeNr
  workdir : InodeNr

/-- The process may search the inode: the `X_BIT` is in `perm_bits`. -/
def Process.mayAct (fp : Process) (node : Inode) : Bool :=
  if fp.uid = 0 then searchable node
  else
    let shift : UInt16 :=
      if fp.uid = node.core.uid then 6 -- owner
      else if fp.gid = node.core.gid then 3 -- group
      else 0 -- other
    node.core.mode >>> shift &&& 1 != 0

/-- `forbidden(rip, X_BIT)` -/
def forbidden (env : Environment) (fp : Process) (s : State) (rip : InodeNr) :
    Option (State × Int) :=
  let mounted := (List.finRange nrSupers).find? fun sp =>
    decide (0 < sp.val) && (s.superBlock sp).imount == some rip
  if (s.inode rip).mount then
    match mounted with
    | none => some (s, if fp.mayAct (s.inode rip) then 0 else eacces)
    | some sp =>
      (getInode s (s.superBlock sp).dev rootInode).bind fun (s, root) =>
        root.bind fun root =>
          let r := if fp.mayAct (s.inode root) then 0 else eacces
          if root = rip then some (s, r) else (putInode env s root).map fun s => (s, r)
  else some (s, if fp.mayAct (s.inode rip) then 0 else eacces)

/-- `search_dir(ldir, string, &numb, LOOK_UP)` -/
def searchDir (env : Environment) (fp : Process) (s : State) (ldir : InodeNr)
    (string : List UInt8) : Option (State × Except Int UInt16) :=
  if (s.inode ldir).fileType ≠ .directory then some (s, .error enotdir)
  else
    (forbidden env fp s ldir).bind fun (s, r) =>
      if r ≠ 0 then some (s, .error r)
      else
        let node := s.inode ldir
        (lookUp (s.disk node.dev) (s.superBlock node.sp).read node.core string
          (node.core.size.toNat / 16) 0).map fun found => (s, found)

end Minix.Mount
