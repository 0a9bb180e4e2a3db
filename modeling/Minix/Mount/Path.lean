/-
This file models the looking up of path names (`fs/path.c`) and the mounting of a file system
(`fs/mount.c`) on the tables of FS.

A path is the list of its characters without the final null. The loops over paths and over mounted
file systems are bounded by `fuel`; the result is `none` when it does not last, as in an endless
loop.
-/

import Minix.Mount.Tables

namespace Minix.Mount

/-! ### Path names -/

/-- A path name, or a component of one. -/
abbrev Name := List UInt8

/-- `PATH_MAX` -/
def pathMax : Nat := 255

/-- `ENAMETOOLONG` -/
def enametoolong : Int := -36

/-- `'/'` -/
def slash : UInt8 := 47

/-- `".."` -/
def dot2 : Name := [46, 46]

/-- Split a path name into the next component and the part as yet unparsed. -/
def getName (oldName : Name) : Option (Name × Name) :=
  let path := oldName.dropWhile (· == slash)
  let rest := (path.dropWhile (· != slash)).dropWhile (· == slash)
  if pathMax ≤ oldName.length - rest.length then none
  else some ((path.takeWhile (· != slash)).take nameMax, rest)

/-- The loop of `advance` that switches to the root directories of mounted file systems. -/
def enterMounted (env : Environment) :
    Nat → State → Option InodeNr → Option (State × Option InodeNr)
  | 0, _, _ => none
  | _ + 1, s, none => some (s, none)
  | fuel + 1, s, some rip =>
    if (s.inode rip).mount then
      ((List.finRange nrSupers).find? fun sp => (s.superBlock sp).imount == some rip).bind fun sp =>
        (putInode env s rip).bind fun s =>
          (getInode s (s.superBlock sp).dev rootInode).bind fun (s, rip) =>
            enterMounted env fuel s rip
    else some (s, some rip)

/-- The super block with whose root directory `advance` leaves a mounted file system. -/
def leavesMounted (s : State) (dirp rip : InodeNr) (string : Name) : Option SuperNr :=
  if (s.inode rip).num = rootInode ∧ (s.inode dirp).num = rootInode ∧ string[1]? = some 46 then
    (List.finRange nrSupers).find? fun sp =>
      decide (0 < sp.val) && (s.superBlock sp).dev == (s.inode rip).dev
  else none

/-- Given a directory and a component of a path, look up the component in the directory, find the
inode and open it. -/
def advance (env : Environment) (fp : Process) :
    Nat → State → Option InodeNr → Name → Option (State × Option InodeNr)
  | 0, _, _, _ => none
  | fuel + 1, s, dirp, string =>
    if string = [] then
      dirp.bind fun dirp => getInode s (s.inode dirp).dev (s.inode dirp).num
    else
      match dirp with
      | none => some (s, none)
      | some dirp =>
        (searchDir env fp s dirp string).bind fun (s, found) =>
          match found with
          | .error r => some ({ s with errCode := r }, none)
          | .ok numb =>
            -- Don't go beyond the current root directory.
            if dirp = fp.rootdir ∧ string = dot2 then
              getInode s (s.inode dirp).dev (s.inode dirp).num
            else
              (getInode s (s.inode dirp).dev numb).bind fun (s, rip) =>
                match rip with
                | none => some (s, none)
                | some rip =>
                  match leavesMounted s dirp rip string with
                  | none => enterMounted env fuel s (some rip)
                  | some sp =>
                    (putInode env s rip).bind fun s =>
                      (s.superBlock sp).imount.bind fun imount =>
                        (getInode s (s.inode imount).dev (s.inode imount).num).bind
                          fun (s, rip2) =>
                            (advance env fp fuel s rip2 string).bind fun (s, rip) =>
                              (putInode? env s rip2).bind fun s => enterMounted env fuel s rip

/-- Scan the path component by component, as far as the last directory. -/
def scanPath (env : Environment) (fp : Process) :
    Nat → State → Name → InodeNr → Option (State × Option (InodeNr × Name))
  | 0, _, _, _ => none
  | fuel + 1, s, path, rip =>
    match getName path with
    | none => (putInode env { s with errCode := enametoolong } rip).map fun s => (s, none)
    | some (string, newName) =>
      if newName = [] then
        if (s.inode rip).fileType = .directory then some (s, some (rip, string))
        else (putInode env s rip).map fun s => ({ s with errCode := enotdir }, none)
      else
        -- There is more path. Keep parsing.
        (advance env fp fuel s (some rip) string).bind fun (s, newIp) =>
          (putInode env s rip).bind fun s =>
            match newIp with
            | none => some (s, none)
            | some newIp => scanPath env fp fuel s newName newIp

/-- Is the path absolute or relative? -/
def Process.start (fp : Process) (path : Name) : InodeNr :=
  if path.head? = some slash then fp.rootdir else fp.workdir

/-- Fetch the last directory of a path, with the final component. -/
def lastDir (env : Environment) (fp : Process) (fuel : Nat) (s : State) (path : Name) :
    Option (State × Option (InodeNr × Name)) :=
  let rip := fp.start path
  -- If dir has been removed or path is empty, return ENOENT.
  if (s.inode rip).core.nlinks = 0 ∨ path = [] then some ({ s with errCode := enoent }, none)
  else scanPath env fp fuel (dupInode s rip) path rip

/-- Parse a path, and put its inode in the inode table. -/
def eatPath (env : Environment) (fp : Process) (fuel : Nat) (s : State) (path : Name) :
    Option (State × Option InodeNr) :=
  (lastDir env fp fuel s path).bind fun (s, last) =>
    match last with
    | none => some (s, none)
    | some (ldip, string) =>
      if string = [] then some (s, some ldip)
      else
        (advance env fp fuel s (some ldip) string).bind fun (s, rip) =>
          (putInode env s ldip).map fun s => (s, rip)

/-! ### Mounting -/

/-- `EPERM` -/
def eperm : Int := -1

/-- `ENOTBLK` -/
def enotblk : Int := -15

/-- `EBUSY` -/
def ebusy : Int := -16

/-- `EISDIR` -/
def eisdir : Int := -21

/-- What `fetch_name` brings: a path, an error that it notes, or one that it does not note. -/
inductive Fetched
  | name (path : Name)
  | invalid (code : Int)
  | unreadable

/-- The call `mount(name, mfile, rd_only)`, with the driver's answer to the opening of the
device. -/
structure Request where
  name1 : Fetched
  name2 : Fetched
  rdOnly : Bool
  opened : Int

/-- `fetch_name` -/
def fetchName (s : State) (name : Fetched) : State × Option Name :=
  match name with
  | .name path => (s, some path)
  | .invalid code => ({ s with errCode := code }, none)
  | .unreadable => (s, none)

/-- Convert the block special file to a device number. -/
def nameToDev (env : Environment) (fp : Process) (fuel : Nat) (s : State) (path : Name) :
    Option (State × Dev) :=
  (eatPath env fp fuel s path).bind fun (s, rip) =>
    match rip with
    | none => some (s, noDev)
    | some rip =>
      if (s.inode rip).fileType ≠ .blockSpecial then
        (putInode env { s with errCode := enotblk } rip).map fun s => (s, noDev)
      else
        let dev := ((s.inode rip).core.zone 0).toUInt16
        (putInode env s rip).map fun s => (s, dev)

def devOpen (s : State) (dev : Dev) : State :=
  { s with opens := Function.update s.opens dev (s.opens dev + 1) }

def devClose (s : State) (dev : Dev) : State :=
  { s with opens := Function.update s.opens dev (s.opens dev - 1) }

/-- The first part of `do_mount`: the device is found and opened, and its super block is in the
table. -/
def claimSuper (env : Environment) (fp : Process) (fuel : Nat) (s : State) (m : Request) :
    Option (State × Except Int (SuperNr × Dev)) :=
  if fp.uid ≠ 0 then some (s, .error eperm)
  else
    match fetchName s m.name1 with
    | (s, none) => some (s, .error s.errCode)
    | (s, some path) =>
      (nameToDev env fp fuel s path).map fun (s, dev) =>
        if dev = noDev then (s, .error s.errCode)
        -- is it mounted already?
        else if (getSuper s dev).isSome then (s, .error ebusy)
        else
          match (List.finRange nrSupers).reverse.find? fun xp => (s.superBlock xp).dev == noDev with
          | none => (s, .error enfile)
          | some sp =>
            if m.opened ≠ 0 then (s, .error einval)
            else
              let s := (devOpen s dev).setSuper sp { s.superBlock sp with dev := dev }
              let (s, r) := readSuper env s sp
              if r ≠ 0 then (devClose s dev, .error r) else (s, .ok (sp, dev))

/-- The second part of `do_mount` up to its checks: the file to be mounted on is found. -/
def mountPoint (env : Environment) (fp : Process) (fuel : Nat) (s : State) (name2 : Fetched)
    (sp : SuperNr) (dev : Dev) : Option (State × Except Int InodeNr) :=
  let undo (s : State) : State := devClose (s.setSuper sp { s.superBlock sp with dev := noDev }) dev
  match fetchName s name2 with
  | (s, none) => some (undo s, .error s.errCode)
  | (s, some path) =>
    (eatPath env fp fuel s path).map fun (s, rip) =>
      match rip with
      | none => (undo s, .error s.errCode)
      | some rip => (s, .ok rip)

/-- It may not be busy, and it may not be special. -/
def usable (s : State) (rip : InodeNr) : Int :=
  if (s.inode rip).fileType = .blockSpecial ∨ (s.inode rip).fileType = .charSpecial then enotdir
  else if 1 < (s.inode rip).count then ebusy
  else 0

/-- Get the root inode of the mounted file system, whose type may not conflict. -/
def rootOf (s : State) (dev : Dev) (rip : InodeNr) : Option (State × Option InodeNr × Int) :=
  if usable s rip ≠ 0 then some (s, none, usable s rip)
  else
    (getInode s dev rootInode).map fun (s, rootIp) =>
      match rootIp with
      | none => (s, none, s.errCode)
      | some root =>
        if (s.inode root).core.mode = 0 then (s, some root, einval)
        else if (s.inode rip).fileType ≠ .directory ∧ (s.inode root).fileType = .directory then
          (s, some root, eisdir)
        else (s, some root, 0)

/-- The end of `do_mount`. -/
def mountOn (env : Environment) (s : State) (rdOnly : Bool) (sp : SuperNr) (dev : Dev)
    (rip : InodeNr) : Option (State × Int) :=
  (rootOf s dev rip).bind fun (s, rootIp, r) =>
    if r ≠ 0 then
      (putInode env s rip).bind fun s =>
        (putInode? env s rootIp).map fun s => (devClose s dev, r)
    else
      let s := s.setInode rip { s.inode rip with mount := true }
      let entry := s.superBlock sp
      some (s.setSuper sp { entry with imount := some rip, isup := rootIp, rdOnly := rdOnly }, 0)

/-- Perform the `mount(name, mfile, rd_only)` system call. -/
def doMount (env : Environment) (fp : Process) (fuel : Nat) (s : State) (m : Request) :
    Option (State × Int) :=
  (claimSuper env fp fuel s m).bind fun (s, claimed) =>
    match claimed with
    | .error r => some (s, r)
    | .ok (sp, dev) =>
      (mountPoint env fp fuel s m.name2 sp dev).bind fun (s, found) =>
        match found with
        | .error r => some (s, r)
        | .ok rip => mountOn env s m.rdOnly sp dev rip

end Minix.Mount
