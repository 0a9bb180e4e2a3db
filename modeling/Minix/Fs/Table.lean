/-
This file holds the tables of the file system that descriptors and pipes use: `fproc[]`
(`fs/fproc.h`), `filp[]` (`fs/file.h`), `inode[]` (`fs/inode.h`) and `super_block[]`
(`fs/super.h`), and the functions of `fs/filedes.c` and `fs/inode.c` that search and release
their entries.

Pointers into a table are indices. The fields kept are the ones that pipes, descriptors and
suspended calls use; owners, times, modes of access and the zones of ordinary files are left
out. An inode holds the bytes of its file as a function of the position. The history is not in
the source: it records which bytes went through each pipe and how each pipe call ended.
-/

import Mathlib.Algebra.GroupWithZero.Nat
import Minix.Library.Tape
import Minix.Library.References

namespace Minix.Fs

open Function (update)

/-! ### Constants -/

/-- Number of process slots (`minix/config.h`). -/
abbrev nrProcs : Nat := 32

/-- Number of descriptors of a process (`limits.h`). -/
abbrev openMax : Nat := 20

/-- Number of slots in the filp table (`fs/const.h`). -/
abbrev nrFilps : Nat := 128

/-- Number of slots in the inode table (`fs/const.h`). -/
abbrev nrInodes : Nat := 64

/-- `BLOCK_SIZE`. -/
abbrev blockSize : Nat := 1024

/-- `PIPE_SIZE`, the direct zones of a V1 inode. -/
abbrev pipeSize : Nat := 7 * blockSize

instance : NeZero nrProcs := ⟨by decide⟩

instance : NeZero openMax := ⟨by decide⟩

instance : NeZero nrFilps := ⟨by decide⟩

instance : NeZero nrInodes := ⟨by decide⟩

abbrev Slot := Fin nrProcs

abbrev Fd := Fin openMax

abbrev FilpNr := Fin nrFilps

abbrev InodeNr := Fin nrInodes

/-- A slot in the super block table (`fs/const.h`). -/
abbrev SuperNr := Fin 8

/-- The error codes of the modelled calls. Codes that come from a path lookup, a driver or the
disk are `other`. -/
inductive Errno
  | eperm | eintr | eio | enxio | ebadf | eagain | efault | einval | enfile | emfile | efbig
  | enospc | epipe | egeneric
  | other (code : Nat)
  deriving DecidableEq, Repr

/-- What a call returns: a value that is not negative, an error code, or `SUSPEND`. -/
inductive Result
  | ok (value : Nat)
  | error (code : Errno)
  | suspend
  deriving DecidableEq, Repr

/-- `rw_flag`, and the mode bit it asks for: `R_BIT` when reading, `W_BIT` when writing. -/
inductive RwFlag
  | reading
  | writing
  deriving DecidableEq, Repr

/-- The calls that a process can be suspended in. -/
inductive CallNr
  | read | write | open | creat | fcntl | ioctl
  deriving DecidableEq, Repr

/-- `READ` or `WRITE`. -/
def RwFlag.call : RwFlag → CallNr
  | .reading => .read
  | .writing => .write

/-- The other end of a pipe. -/
def RwFlag.other : RwFlag → RwFlag
  | .reading => .writing
  | .writing => .reading

/-- What a suspended process waits for (`fp_task`): a pipe, a lock, the opening of a FIFO, or a
task. -/
inductive Task
  | xpipe
  | xlock
  | xpopen
  | device (nr : Nat)
  deriving DecidableEq, Repr

/-! ### The tables -/

/-- The fields of `struct fproc`. `fp_fd` packs the descriptor and the call. -/
structure Fproc where
  fpWorkdir : Option InodeNr := none
  fpRootdir : Option InodeNr := none
  fpFilp : Fd → Option FilpNr := fun _ => none
  fpCloexec : Fd → Bool := fun _ => false
  fpSuspended : Bool := false
  fpRevived : Bool := false
  fpTask : Task := .xpipe
  fpFd : Fd := 0
  fpCall : CallNr := .read
  fpBuffer : Nat → UInt8 := fun _ => 0
  fpNbytes : Nat := 0
  fpCumIoPartial : Nat := 0

/-- The bits of `filp_flags`. -/
structure Flags where
  nonblock : Bool := false
  append : Bool := false
  deriving DecidableEq

/-- The fields of `struct filp`. -/
structure Filp where
  filpMode : RwFlag → Bool := fun _ => false
  filpFlags : Flags := {}
  filpCount : Nat := 0
  filpIno : InodeNr := 0
  filpPos : Nat := 0

/-- The fields of `struct inode`. `readPos` and `writePos` are `i_zone[V2_NR_DZONES + 0]` and
`i_zone[V2_NR_DZONES + 1]`, in which the positions of a pipe are saved while no process has that
end open; the last two fields are read through `i_sp`. -/
structure Inode where
  iPipe : Bool := false
  iSize : Nat := 0
  iCount : Nat := 0
  readPos : Nat := 0
  writePos : Nat := 0
  contents : Nat → UInt8 := fun _ => 0
  iDev : Nat := 0
  sMaxSize : Nat := 65799 * blockSize
  sLogZoneSize : Nat := 0

/-- The fields of `struct super_block`; a slot without a device is free. -/
structure SuperBlock where
  sDev : Option Nat := none
  sImount : Option InodeNr := none
  sIsup : Option InodeNr := none

/-- The end of a read or write call on a pipe: the bytes it moved, and what it was told. -/
structure Answer where
  proc : Slot
  result : Result
  moved : Nat
  deriving DecidableEq

/-- The end of an open call that reports an error: the descriptors that the process had when the
call began, and those that it has when it is told. -/
structure FailedOpen where
  proc : Slot
  before : Fd → Option FilpNr
  after : Fd → Option FilpNr

/-- What happened so far: the bytes written to each pipe and taken from it since its inode was
loaded, the buffer that each process gave to its current call and how many bytes the call has
moved, the answers to pipe calls, how many waiting processes `do_unpause` has interrupted, the
descriptors that each process had when it began to open a file, and the open calls that have
failed. -/
structure History where
  written : InodeNr → List UInt8 := fun _ => []
  taken : InodeNr → List UInt8 := fun _ => []
  source : Slot → Nat → UInt8 := fun _ _ => 0
  moved : Slot → Nat := fun _ => 0
  answers : List Answer := []
  interrupted : Nat := 0
  descriptors : Slot → Fd → Option FilpNr := fun _ _ => none
  failedOpens : List FailedOpen := []

/-- What processes have been told, and the descriptors that the open calls are compared with. -/
def History.replies (history : History) :
    List Answer × (Slot → Fd → Option FilpNr) × List FailedOpen :=
  (history.answers, history.descriptors, history.failedOpens)

/-- The state of the file system. `live` says which slots belong to existing processes, which
MM and the kernel know. -/
structure State where
  fproc : Slot → Fproc := fun _ => {}
  filp : FilpNr → Filp := fun _ => {}
  inode : InodeNr → Inode := fun _ => {}
  superBlock : SuperNr → SuperBlock := fun _ => {}
  suspCount : Int := 0
  reviving : Int := 0
  live : Slot → Bool := fun _ => false
  history : History := {}

namespace State

def modifyFproc (s : State) (p : Slot) (change : Fproc → Fproc) : State :=
  { s with fproc := update s.fproc p (change (s.fproc p)) }

def modifyFilp (s : State) (f : FilpNr) (change : Filp → Filp) : State :=
  { s with filp := update s.filp f (change (s.filp f)) }

def modifyInode (s : State) (rip : InodeNr) (change : Inode → Inode) : State :=
  { s with inode := update s.inode rip (change (s.inode rip)) }

/-- Point a descriptor at a filp, or at none. -/
def setFd (s : State) (p : Slot) (fd : Fd) (f : Option FilpNr) : State :=
  s.modifyFproc p fun entry => { entry with fpFilp := update entry.fpFilp fd f }

section Fields

variable (s : State) (p : Slot) (fd : Fd) (f : FilpNr) (target : Option FilpNr) (rip : InodeNr)
  (changeFproc : Fproc → Fproc) (changeFilp : Filp → Filp) (changeInode : Inode → Inode)

@[simp] theorem modifyFproc_fproc : (s.modifyFproc p changeFproc).fproc =
    update s.fproc p (changeFproc (s.fproc p)) := rfl
@[simp] theorem modifyFproc_filp : (s.modifyFproc p changeFproc).filp = s.filp := rfl
@[simp] theorem modifyFproc_inode : (s.modifyFproc p changeFproc).inode = s.inode := rfl
@[simp] theorem modifyFproc_superBlock :
    (s.modifyFproc p changeFproc).superBlock = s.superBlock := rfl
@[simp] theorem modifyFproc_suspCount :
    (s.modifyFproc p changeFproc).suspCount = s.suspCount := rfl
@[simp] theorem modifyFproc_reviving : (s.modifyFproc p changeFproc).reviving = s.reviving := rfl
@[simp] theorem modifyFproc_live : (s.modifyFproc p changeFproc).live = s.live := rfl
@[simp] theorem modifyFproc_history : (s.modifyFproc p changeFproc).history = s.history := rfl

@[simp] theorem setFd_filp : (s.setFd p fd target).filp = s.filp := rfl
@[simp] theorem setFd_inode : (s.setFd p fd target).inode = s.inode := rfl

@[simp] theorem modifyFilp_fproc : (s.modifyFilp f changeFilp).fproc = s.fproc := rfl
@[simp] theorem modifyFilp_filp : (s.modifyFilp f changeFilp).filp =
    update s.filp f (changeFilp (s.filp f)) := rfl
@[simp] theorem modifyFilp_inode : (s.modifyFilp f changeFilp).inode = s.inode := rfl
@[simp] theorem modifyFilp_superBlock :
    (s.modifyFilp f changeFilp).superBlock = s.superBlock := rfl
@[simp] theorem modifyFilp_suspCount : (s.modifyFilp f changeFilp).suspCount = s.suspCount := rfl
@[simp] theorem modifyFilp_reviving : (s.modifyFilp f changeFilp).reviving = s.reviving := rfl
@[simp] theorem modifyFilp_live : (s.modifyFilp f changeFilp).live = s.live := rfl
@[simp] theorem modifyFilp_history : (s.modifyFilp f changeFilp).history = s.history := rfl

@[simp] theorem modifyInode_fproc : (s.modifyInode rip changeInode).fproc = s.fproc := rfl
@[simp] theorem modifyInode_filp : (s.modifyInode rip changeInode).filp = s.filp := rfl
@[simp] theorem modifyInode_inode : (s.modifyInode rip changeInode).inode =
    update s.inode rip (changeInode (s.inode rip)) := rfl
@[simp] theorem modifyInode_superBlock :
    (s.modifyInode rip changeInode).superBlock = s.superBlock := rfl
@[simp] theorem modifyInode_suspCount :
    (s.modifyInode rip changeInode).suspCount = s.suspCount := rfl
@[simp] theorem modifyInode_reviving : (s.modifyInode rip changeInode).reviving = s.reviving := rfl
@[simp] theorem modifyInode_live : (s.modifyInode rip changeInode).live = s.live := rfl
@[simp] theorem modifyInode_history : (s.modifyInode rip changeInode).history = s.history := rfl

end Fields

end State

/-! ### File descriptors -/

theorem fd_lt {fild : Int} (valid : 0 ≤ fild ∧ fild < openMax) : fild.toNat < openMax := by
  omega

/-- See if `fild` refers to a valid file descriptor. -/
def getFilp (s : State) (fp : Slot) (fild : Int) : Option (Fd × FilpNr) :=
  if valid : 0 ≤ fild ∧ fild < openMax then
    let fd : Fd := ⟨fild.toNat, fd_lt valid⟩
    ((s.fproc fp).fpFilp fd).map fun f => (fd, f)
  else none

/-- Find a filp slot that refers to the inode in a way described by the mode bit. -/
def findFilp (s : State) (rip : InodeNr) (bits : RwFlag) : Option FilpNr :=
  (List.finRange nrFilps).find? fun f =>
    (s.filp f).filpCount != 0 && (s.filp f).filpIno == rip && (s.filp f).filpMode bits

/-- Look for a free file descriptor and a free filp slot. The mode word of the slot is filled
in, but neither is taken yet. -/
def getFd (s : State) (fp : Slot) (start : Nat) (bits : RwFlag → Bool) :
    Except Errno (State × Fd × FilpNr) :=
  match (List.finRange openMax).find? fun i =>
      decide (start ≤ i.val) && ((s.fproc fp).fpFilp i).isNone with
  | none => .error .emfile
  | some k =>
    match (List.finRange nrFilps).find? fun f => (s.filp f).filpCount == 0 with
    | none => .error .enfile
    | some f =>
      .ok (s.modifyFilp f fun entry =>
        { entry with filpMode := bits, filpPos := 0, filpFlags := {} }, k, f)

/-! ### Inodes -/

/-- The inode of a new or loaded file in a slot of the table that is not in use. -/
def loadInode (s : State) (rip : InodeNr) (dev : Nat) (pipe : Bool) : State :=
  let s := s.modifyInode rip fun entry =>
    { entry with
      iPipe := pipe, iSize := 0, iCount := 1, readPos := 0, writePos := 0, iDev := dev }
  { s with
    history := { s.history with
      written := update s.history.written rip []
      taken := update s.history.taken rip [] } }

/-- `dup_inode`: the inode has another user. -/
def dupInode (s : State) (rip : InodeNr) : State :=
  s.modifyInode rip fun entry => { entry with iCount := entry.iCount + 1 }

/-- `get_inode` has found the inode in the table, or has loaded it into a free slot. -/
def getInode (s : State) (rip : InodeNr) (dev : Nat) : State :=
  if (s.inode rip).iCount = 0 then loadInode s rip dev false else dupInode s rip

/-- The caller is no longer using the inode. A pipe that nobody uses is truncated. -/
def putInode (s : State) (rip : InodeNr) : State :=
  s.modifyInode rip fun entry =>
    let entry := { entry with iCount := entry.iCount - 1 }
    if entry.iCount = 0 then
      if entry.iPipe then { entry with iSize := 0, readPos := 0, writePos := 0, iPipe := false }
      else entry
    else entry

/-- `put_inode`, which does nothing without an inode. -/
def putInode? (s : State) : Option InodeNr → State
  | some rip => putInode s rip
  | none => s

/-- Save the file position in the inode in case it is needed later, when the filp is given up. -/
def savePosition (s : State) (f : FilpNr) (rip : InodeNr) : State :=
  if (s.inode rip).iPipe && decide (1 < (s.inode rip).iCount) then
    s.modifyInode rip fun entry =>
      if (s.filp f).filpMode .reading && !(s.filp f).filpMode .writing then
        { entry with readPos := (s.filp f).filpPos }
      else { entry with writePos := (s.filp f).filpPos }
  else s

end Minix.Fs
