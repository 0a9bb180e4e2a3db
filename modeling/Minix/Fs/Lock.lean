/-
This file models `fs/lock.c` and the release of locks in `do_close` (`fs/open.c`): the table of
advisory locks and the calls that change it. What `lock_op` answers is what the model of `do_fcntl`
takes as its outcome.

Locks belong to process ids. The machine at the end takes the calls of all processes in any order;
which files a process that exits still has open is part of the call.
-/

import Minix.Fs.Open
import Minix.Library.Transition

namespace Minix.Fs

open Function (update)

/-! ### The table -/

/-- A slot in the file locking table; there are `NR_LOCKS` of them (`fs/const.h`). -/
abbrev LockNr := Fin 8

/-- `off_t`, which is unsigned. -/
abbrev Off := BitVec 32

/-- `MAX_FILE_POS`. -/
def maxFilePos : Off := 0xffffffff#32

/-- `F_RDLCK` or `F_WRLCK`. -/
inductive LockType
  | read
  | write
  deriving DecidableEq, Repr

/-- `struct file_lock`; a slot that is not in use is `none`. -/
structure FileLock where
  lockType : LockType
  lockPid : Nat
  lockInode : InodeNr
  lockFirst : Off
  lockLast : Off
  deriving DecidableEq

/-- The locks and `nr_locks`, the number of locks currently in place. -/
structure LockTable where
  fileLock : LockNr → Option FileLock := fun _ => none
  nrLocks : Int := 0

def LockTable.set (t : LockTable) (flp : LockNr) (lock : Option FileLock) : LockTable :=
  { t with fileLock := update t.fileLock flp lock }

/-! ### Requests -/

/-- The requests that `do_fcntl` passes on. -/
inductive LockReq
  | getlk
  | setlk
  | setlkw
  deriving DecidableEq, Repr

/-- `l_type`. -/
inductive FlockType
  | lock (ltype : LockType)
  | unlck
  | other
  deriving DecidableEq, Repr

/-- `l_whence`. -/
inductive Whence
  | set
  | cur
  | «end»
  | other
  deriving DecidableEq, Repr

/-- `struct flock`. -/
structure Flock where
  lType : FlockType
  lWhence : Whence
  lStart : Off
  lLen : Off
  lPid : Nat := 0
  deriving DecidableEq

/-- What `lock_op` reads of a filp and its inode. -/
structure LockFile where
  ino : InodeNr
  regular : Bool := true
  mode : RwFlag → Bool := fun _ => true
  pos : Off := 0
  size : Off := 0

/-- The first and last bytes in the lock region. -/
def lockRegion (f : LockFile) (flock : Flock) : Option (Off × Off) :=
  let base := match flock.lWhence with
    | .set => some 0
    | .cur => some f.pos
    | .end => some f.size
    | .other => none
  base.bind fun first =>
    if 0 < flock.lStart.toInt ∧ first + flock.lStart < first then none
    else if flock.lStart.toInt < 0 ∧ first < first + flock.lStart then none
    else
      let first := first + flock.lStart
      let last := if flock.lLen = 0 then maxFilePos else first + flock.lLen - 1
      if last < first then none else some (first, last)

/-- The error checks before the region is computed, and the type of the lock; there is none if a
lock is to be cleared. -/
def lockChecks (f : LockFile) (req : LockReq) (flock : Flock) : Except Errno (Option LockType) :=
  match flock.lType with
  | .other => .error .einval
  | .unlck =>
    if req = .getlk then .error .einval else if !f.regular then .error .einval else .ok none
  | .lock ltype =>
    let bit : RwFlag := match ltype with
      | .read => .reading
      | .write => .writing
    if !f.regular then .error .einval
    else if req ≠ .getlk ∧ !f.mode bit then .error .ebadf
    else .ok (some ltype)

/-! ### Conflicts -/

/-- A lock of the same file that has a byte in the region. -/
def FileLock.overlaps (lock : FileLock) (ino : InodeNr) (first last : Off) : Bool :=
  lock.lockInode == ino && decide (lock.lockFirst ≤ last) && decide (first ≤ lock.lockLast)

/-- Clear the part of a lock that lies in the region. A lock that is split in two needs another
slot; `ENOLCK` if there is none. -/
def clearPart (t : LockTable) (flp : LockNr) (lock : FileLock) (first last : Off) :
    Option LockTable :=
  if first ≤ lock.lockFirst ∧ lock.lockLast ≤ last then
    some { t.set flp none with nrLocks := t.nrLocks - 1 }
  else if first ≤ lock.lockFirst then some (t.set flp (some { lock with lockFirst := last + 1 }))
  else if lock.lockLast ≤ last then some (t.set flp (some { lock with lockLast := first - 1 }))
  else if t.nrLocks = 8 then none
  else
    match (List.finRange 8).find? fun flp₂ => (t.fileLock flp₂).isNone with
    | none => some t
    | some flp₂ =>
      let t := t.set flp₂ (some { lock with lockFirst := last + 1 })
      some { t.set flp (some { lock with lockLast := first - 1 }) with nrLocks := t.nrLocks + 1 }

/-- The variables of the loop over the table. `conflict` is the lock that `F_GETLK` reports. -/
structure LockScan where
  table : LockTable
  empty : Option LockNr := none
  conflict : Option FileLock := none
  unlocking : Bool := false

/-- The loop returns from `lock_op`, or ends. -/
inductive Scanned
  | returns (table : LockTable) (result : Lock)
  | ends (scan : LockScan)

/-- Check if the region conflicts with any existing lock, or clear the locks in it. -/
def scanLocks (pid : Nat) (ino : InodeNr) (req : LockReq) (ltype : Option LockType)
    (first last : Off) : List LockNr → LockScan → Scanned
  | [], scan => .ends scan
  | flp :: slots, scan =>
    match scan.table.fileLock flp with
    | none =>
      scanLocks pid ino req ltype first last slots { scan with empty := scan.empty.or (some flp) }
    | some lock =>
      if !lock.overlaps ino first last then scanLocks pid ino req ltype first last slots scan
      else
        match ltype with
        | some ltype =>
          if (ltype = .read ∧ lock.lockType = .read) ∨ lock.lockPid = pid then
            scanLocks pid ino req (some ltype) first last slots scan
          else
            match req with
            | .getlk => .ends { scan with conflict := some lock }
            | .setlk => .returns scan.table (.answer (.error .eagain) false)
            | .setlkw => .returns scan.table .suspended
        | none =>
          match clearPart scan.table flp lock first last with
          | none => .returns scan.table (.answer (.error (.other 37)) false)
          | some table =>
            scanLocks pid ino req none first last slots { scan with table, unlocking := true }

/-- What `F_GETLK` reports. -/
def reportLock (flock : Flock) : Option FileLock → Flock
  | some lock =>
    { lType := .lock lock.lockType, lWhence := .set, lStart := lock.lockFirst
      lLen := lock.lockLast - lock.lockFirst + 1, lPid := lock.lockPid }
  | none => { flock with lType := .unlck }

/-! ### The calls -/

/-- `lock_op` on behalf of the process `pid`. `flock` is what has been copied from the user, and
`copied` what becomes of the copy back; with `F_GETLK` that copy is the third component. -/
def lockOp (t : LockTable) (pid : Nat) (f : LockFile) (req : LockReq) (flock : Option Flock)
    (copied : Except Errno Nat) : LockTable × Lock × Option Flock :=
  match flock with
  | none => (t, .answer (.error .einval) false, none)
  | some flock =>
    match lockChecks f req flock with
    | .error code => (t, .answer (.error code) false, none)
    | .ok ltype =>
      match lockRegion f flock with
      | none => (t, .answer (.error .einval) false, none)
      | some (first, last) =>
        match scanLocks pid f.ino req ltype first last (List.finRange 8) { table := t } with
        | .returns t result => (t, result, none)
        | .ends scan =>
          if req = .getlk then
            (scan.table, .answer copied scan.unlocking, some (reportLock flock scan.conflict))
          else
            match ltype, scan.empty with
            | none, _ => (scan.table, .answer (.ok 0) scan.unlocking, none)
            | some _, none => (scan.table, .answer (.error (.other 37)) scan.unlocking, none)
            | some ltype, some empty =>
              ({ scan.table.set empty (some
                  { lockType := ltype, lockPid := pid, lockInode := f.ino
                    lockFirst := first, lockLast := last }) with
                nrLocks := scan.table.nrLocks + 1 }, .answer (.ok 0) scan.unlocking, none)

/-- Release one lock if the process holds it on the file. -/
def releaseLock (ino : InodeNr) (pid : Nat) (t : LockTable) (flp : LockNr) : LockTable :=
  match t.fileLock flp with
  | none => t
  | some lock =>
    if lock.lockInode = ino ∧ lock.lockPid = pid then
      { t.set flp none with nrLocks := t.nrLocks - 1 }
    else t

/-- The last part of `do_close`: release all locks of the process on the file. -/
def closeLocks (t : LockTable) (ino : InodeNr) (pid : Nat) : LockTable :=
  if t.nrLocks = 0 then t else (List.finRange 8).foldl (releaseLock ino pid) t

/-! ### The machine -/

/-- The calls that change the table. `files` are the files that the process has open. -/
inductive LockCall
  | fcntl (pid : Nat) (f : LockFile) (req : LockReq) (flock : Option Flock)
      (copied : Except Errno Nat)
  | close (pid : Nat) (ino : InodeNr)
  | exit (pid : Nat) (files : List InodeNr)

def lockStep (t : LockTable) : LockCall → Option LockTable
  | .fcntl pid f req flock copied => some (lockOp t pid f req flock copied).1
  | .close pid ino => some (closeLocks t ino pid)
  | .exit pid files => some (files.foldl (fun t ino => closeLocks t ino pid) t)

end Minix.Fs
