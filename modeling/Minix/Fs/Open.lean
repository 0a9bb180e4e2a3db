/-
This file models the calls that make, share and give up file descriptors: `do_pipe`
(`fs/pipe.c`), `common_open`, `pipe_open` and `do_close` (`fs/open.c`), `do_dup`, `do_fcntl`,
`do_fork`, `do_exec` and `do_exit` (`fs/misc.c`); and those that change working and root
directories (`fs/stadir.c`) and mount file systems (`fs/mount.c`).

What a path names, whether an inode can be had and what a driver or the lock table says are
inputs. Of files other than pipes only the reference counts are kept.
-/

import Minix.Fs.Read

namespace Minix.Fs

/-! ### Making descriptors -/

/-- Claim a descriptor and a filp slot. -/
def claim (s : State) (fp : Slot) (fd : Fd) (f : FilpNr) : State :=
  (s.setFd fp fd (some f)).modifyFilp f fun entry => { entry with filpCount := 1 }

/-- Fill a claimed slot in. -/
def fillFilp (s : State) (f : FilpNr) (rip : InodeNr) (flags : Flags) : State :=
  s.modifyFilp f fun entry => { entry with filpIno := rip, filpFlags := flags }

/-- Give a claimed descriptor and filp slot back. -/
def unclaim (s : State) (fp : Slot) (fd : Fd) (f : FilpNr) : State :=
  (s.setFd fp fd none).modifyFilp f fun entry => { entry with filpCount := 0 }

/-- The mode of a filp that has one end of a pipe open. -/
def endMode (bits : RwFlag) : RwFlag → Bool := fun other => other == bits

/-- Perform `pipe(fil_des)`; `inode` is the inode that `alloc_inode` makes, or its error. -/
def doPipe (s : State) (fp : Slot) (rootDev : Nat) (inode : Except Errno InodeNr) :
    State × Result :=
  match getFd s fp 0 (endMode .reading) with
  | .error code => (s, .error code)
  | .ok (s, fd₀, f₀) =>
    let s := claim s fp fd₀ f₀
    match getFd s fp 0 (endMode .writing) with
    | .error code => (unclaim s fp fd₀ f₀, .error code)
    | .ok (s, fd₁, f₁) =>
      let s := claim s fp fd₁ f₁
      match inode with
      | .error code => (unclaim (unclaim s fp fd₀ f₀) fp fd₁ f₁, .error code)
      | .ok rip =>
        let s := fillFilp (loadInode s rip rootDev true) f₀ rip {}
        (fillFilp (dupInode s rip) f₁ rip {}, .ok 0)

/-- What a path that is opened leads to, and what the checks and the driver say. -/
inductive Opened
  /-- The file has just been made, or is of a kind whose opening needs nothing more. -/
  | plain
  /-- The protection bits or the driver refuse. -/
  | refused (code : Errno)
  | fifo
  deriving DecidableEq

/-- What `eat_path` or `new_node` finds: a slot of the inode table, and the device of the file. -/
structure Found where
  rip : InodeNr
  dev : Nat := 0

/-- The end of a FIFO that a mode is looked up by: `bits & R_BIT ? R_BIT : W_BIT`. -/
def fifoEnd (bits : RwFlag → Bool) : RwFlag := if bits .reading then .reading else .writing

/-- Check if there is a reader or writer at the other end of the FIFO. If not, suspend the
caller, otherwise revive the processes that hang on its opening. -/
def pipeOpen (s : State) (fp : Slot) (rip : InodeNr) (bits : RwFlag → Bool) (nonblock : Bool)
    (fd : Fd) (fsCall : CallNr) : State × Result :=
  let s := s.modifyInode rip fun entry => { entry with iPipe := true }
  if (findFilp s rip (if bits .writing then .reading else .writing)).isNone then
    if nonblock then (s, if bits .writing then .error .enxio else .ok 0)
    else
      (suspend s fp .xpopen fd fsCall (s.fproc fp).fpBuffer (s.fproc fp).fpNbytes, .suspend)
  else if 0 < s.suspCount then
    let s := release s rip .open s.suspCount
    (release s rip .creat s.suspCount, .ok 0)
  else (s, .ok 0)

/-- See if someone else has the FIFO open for reading or writing. If so, use its filp entry, so
that the file position is shared. -/
def shareFilp (s : State) (fp : Slot) (fd : Fd) (f : FilpNr) (rip : InodeNr) (bits : RwFlag → Bool)
    (flags : Flags) : State :=
  let s := s.modifyFilp f fun entry => { entry with filpCount := 0 }
  match findFilp s rip (fifoEnd bits) with
  | some other =>
    let s := s.setFd fp fd (some other)
    let s := s.modifyFilp other fun entry =>
      { entry with filpCount := entry.filpCount + 1, filpIno := rip, filpFlags := flags }
    s.modifyInode rip fun entry => { entry with iCount := entry.iCount - 1 }
  | none =>
    s.modifyFilp f fun entry =>
      { entry with
        filpCount := 1
        filpPos := if bits .reading then (s.inode rip).readPos else (s.inode rip).writePos }

/-- Give everything back that an open call has claimed. -/
def openFails (s : State) (fp : Slot) (fd : Fd) (f : FilpNr) (rip : InodeNr) : State :=
  putInode (unclaim s fp fd f) rip

/-- Common code from `do_creat` and `do_open`. `path` is what the path leads to. -/
def commonOpen (s : State) (fp : Slot) (fsCall : CallNr) (bits : RwFlag → Bool) (flags : Flags)
    (path : Except Errno (Found × Opened)) : State × Result :=
  match getFd s fp 0 bits with
  | .error code => (s, .error code)
  | .ok (s, fd, f) =>
    match path with
    | .error code => (s, .error code)
    | .ok (⟨rip, dev⟩, opened) =>
      let s := fillFilp (claim (getInode s rip dev) fp fd f) f rip flags
      match opened with
      | .plain => (s, .ok fd)
      | .refused code => (openFails s fp fd f rip, .error code)
      | .fifo =>
        let flags := { flags with append := true }
        let s := s.modifyFilp f fun entry => { entry with filpFlags := flags }
        match pipeOpen s fp rip bits flags.nonblock fd fsCall with
        | (s, .error code) => (openFails s fp fd f rip, .error code)
        | (s, .ok _) => (shareFilp s fp fd f rip bits flags, .ok fd)
        | (s, .suspend) => (shareFilp s fp fd f rip bits flags, .suspend)

/-! ### Giving descriptors up -/

/-- Perform `close(fd)`. `unlocked` says whether locks of the caller on the file are released. -/
def doClose (s : State) (fp : Slot) (fild : Int) (unlocked : Bool) : State × Result :=
  match getFilp s fp fild with
  | none => (s, .error .ebadf)
  | some (fd, rfilp) =>
    let rip := (s.filp rfilp).filpIno
    let s := if (s.inode rip).iPipe then
        release s rip (if (s.filp rfilp).filpMode .reading then .write else .read) nrProcs
      else s
    let s := s.modifyFilp rfilp fun entry => { entry with filpCount := entry.filpCount - 1 }
    let s := if (s.filp rfilp).filpCount = 0 then putInode (savePosition s rfilp rip) rip else s
    let s := (s.setFd fp fd none).modifyFproc fp fun entry =>
      { entry with fpCloexec := Function.update entry.fpCloexec fd false }
    (if unlocked then lockRevive s else s, .ok 0)

/-- Close the given descriptors, as far as they are open. -/
def closeAll (s : State) (fp : Slot) (unlocked : Fd → Bool) (fds : List Fd) : State :=
  fds.foldl (fun s fd => (doClose s fp fd.val (unlocked fd)).1) s

/-! ### Sharing descriptors -/

/-- Make a descriptor refer to a filp that is open already. -/
def shareFd (s : State) (fp : Slot) (fd : Fd) (f : FilpNr) : State :=
  (s.modifyFilp f fun entry => { entry with filpCount := entry.filpCount + 1 }).setFd fp fd (some f)

/-- Perform `fcntl(fd, F_DUPFD, addr)`; `dup(fd)` is the same from descriptor zero on. -/
def doDupfd (s : State) (fp : Slot) (fild addr : Int) : State × Result :=
  match getFilp s fp fild with
  | none => (s, .error .ebadf)
  | some (_, f) =>
    if addr < 0 ∨ openMax ≤ addr then (s, .error .einval)
    else
      match getFd s fp addr.toNat fun _ => false with
      | .error code => (s, .error code)
      | .ok (s, newFd, _) => (shareFd s fp newFd f, .ok newFd)

/-- Perform `dup2(fd, fd2)`. -/
def doDup2 (s : State) (fp : Slot) (fild fild₂ : Int) (unlocked : Bool) : State × Result :=
  match getFilp s fp fild with
  | none => (s, .error .ebadf)
  | some (rfd, f) =>
    if valid : 0 ≤ fild₂ ∧ fild₂ < openMax then
      let fd₂ : Fd := ⟨fild₂.toNat, fd_lt valid⟩
      if rfd = fd₂ then (s, .ok fd₂)
      else (shareFd (doClose s fp fild₂ unlocked).1 fp fd₂ f, .ok fd₂)
    else (s, .error .ebadf)

/-- Perform `fcntl(fd, F_SETFD, addr)`: set the close-on-exec flag. -/
def doSetfd (s : State) (fp : Slot) (fild : Int) (cloexec : Bool) : State × Result :=
  match getFilp s fp fild with
  | none => (s, .error .ebadf)
  | some (fd, _) =>
    (s.modifyFproc fp fun entry =>
      { entry with fpCloexec := Function.update entry.fpCloexec fd cloexec }, .ok 0)

/-- Perform `fcntl(fd, F_SETFL, addr)`: set the file status flags. -/
def doSetfl (s : State) (fp : Slot) (fild : Int) (flags : Flags) : State × Result :=
  match getFilp s fp fild with
  | none => (s, .error .ebadf)
  | some (_, f) => (s.modifyFilp f fun entry => { entry with filpFlags := flags }, .ok 0)

/-- What `lock_op` says: an answer, and whether locks were released, or the caller is
suspended. -/
inductive Lock
  | answer (result : Except Errno Nat) (unlocked : Bool)
  | suspended
  deriving DecidableEq

/-- Perform `fcntl` with one of the requests that get, set or clear a lock. -/
def doLock (s : State) (fp : Slot) (fild : Int) (lock : Lock) : State × Result :=
  match getFilp s fp fild with
  | none => (s, .error .ebadf)
  | some (fd, _) =>
    match lock with
    | .suspended =>
      (suspend s fp .xlock fd .fcntl (s.fproc fp).fpBuffer (s.fproc fp).fpNbytes, .suspend)
    | .answer result unlocked =>
      (if unlocked then lockRevive s else s,
        match result with
        | .ok value => .ok value
        | .error code => .error code)

/-- Perform `ioctl` on a special file. -/
def doIoctl (s : State) (fp : Slot) (fild : Int) (file : FileIo) : State × Result :=
  match getFilp s fp fild with
  | none => (s, .error .ebadf)
  | some (fd, f) =>
    if (s.inode (s.filp f).filpIno).iPipe then (s, .error (.other 25))
    else
      match file with
      | .suspended task =>
        (suspend s fp (.device task) fd .ioctl (s.fproc fp).fpBuffer (s.fproc fp).fpNbytes,
          .suspend)
      | .answer (.error code) => (s, .error code)
      | .answer (.ok value) => (s, .ok value)

/-! ### Processes -/

/-- `dup_inode` of a directory that a process has. -/
def dupInode? (s : State) : Option InodeNr → State
  | some rip => dupInode s rip
  | none => s

/-- One more descriptor refers to the filp of a descriptor. -/
def countFd (child : Slot) (s : State) (fd : Fd) : State :=
  match (s.fproc child).fpFilp fd with
  | some f => s.modifyFilp f fun entry => { entry with filpCount := entry.filpCount + 1 }
  | none => s

/-- A process has forked: the child inherits the parent's entry, its descriptors and its
directories. -/
def doFork (s : State) (parent child : Slot) : State :=
  let s := s.modifyFproc child fun _ => s.fproc parent
  let s := (List.finRange openMax).foldl (countFd child) s
  dupInode? (dupInode? s (s.fproc child).fpRootdir) (s.fproc child).fpWorkdir

/-- A process has done an EXEC: close the files that are marked for it. -/
def doExec (s : State) (p : Slot) (unlocked : Fd → Bool) : State :=
  closeAll s p unlocked ((List.finRange openMax).filter (s.fproc p).fpCloexec)

/-- Release root and working directories. -/
def putDirs (s : State) (p : Slot) : State :=
  let s := putInode? (putInode? s (s.fproc p).fpRootdir) (s.fproc p).fpWorkdir
  s.modifyFproc p fun entry => { entry with fpRootdir := none, fpWorkdir := none }

/-- A process has exited. -/
def doExit (s : State) (exitee : Slot) (unlocked : Fd → Bool) : State :=
  let entry := s.fproc exitee
  let s :=
    if entry.fpSuspended then
      let s := if entry.fpTask = .xpipe ∨ entry.fpTask = .xpopen then
          { s with suspCount := s.suspCount - 1 }
        else s
      (doUnpause s exitee).modifyFproc exitee fun entry => { entry with fpSuspended := false }
    else s
  putDirs (closeAll s exitee unlocked (List.finRange openMax)) exitee

/-! ### Directories -/

/-- The working directory or the root directory of a process. -/
inductive Dir
  | work
  | root
  deriving DecidableEq

instance : Fintype Dir := ⟨{.work, .root}, fun dir => by cases dir <;> decide⟩

def Fproc.dir (entry : Fproc) : Dir → Option InodeNr
  | .work => entry.fpWorkdir
  | .root => entry.fpRootdir

def Fproc.setDir (entry : Fproc) (rip : Option InodeNr) : Dir → Fproc
  | .work => { entry with fpWorkdir := rip }
  | .root => { entry with fpRootdir := rip }

/-- The work of `chdir` and `chroot`. `path` is what the path leads to, and the error if that is
no directory or may not be searched. -/
def change (s : State) (fp : Slot) (dir : Dir) (path : Except Errno (Found × Option Errno)) :
    State × Result :=
  match path with
  | .error code => (s, .error code)
  | .ok (⟨rip, dev⟩, refused) =>
    let s := getInode s rip dev
    match refused with
    | some code => (putInode s rip, .error code)
    | none =>
      let s := putInode? s ((s.fproc fp).dir dir)
      (s.modifyFproc fp fun entry => entry.setDir (some rip) dir, .ok 0)

/-- One half of a `chdir` by MM: it takes over a directory of the user it works for. -/
def adoptDir (s : State) (fp user : Slot) (dir : Dir) : State :=
  let s := putInode? s ((s.fproc fp).dir dir)
  let rip := (s.fproc user).dir dir
  dupInode? (s.modifyFproc fp fun entry => entry.setDir rip dir) rip

/-- MM takes over the directories of a user. -/
def doChdirMm (s : State) (fp user : Slot) : State :=
  adoptDir (adoptDir s fp user .root) fp user .work

/-! ### File systems -/

/-- Replace a slot of the super block table. -/
def State.setSuper (s : State) (sp : SuperNr) (entry : SuperBlock) : State :=
  { s with superBlock := Function.update s.superBlock sp entry }

/-- How far a `mount` comes: the device cannot be opened, it holds no file system, the file to be
mounted on is not found, it is found but special, the root inode cannot be had, or it does not
fit the file. -/
inductive Mounted
  | noDevice
  | noSuper (code : Errno)
  | noFile (code : Errno)
  | special (file : Found)
  | noRoot (file : Found) (code : Errno)
  | root (file : Found) (rootIp : InodeNr) (misfit : Option Errno)

/-- The last part of `do_mount`: the file to be mounted on is in the inode table. -/
def mountOn (s : State) (sp : SuperNr) (dev : Nat) (rip : InodeNr)
    (rootIp : Except Errno (InodeNr × Option Errno)) : State × Result :=
  if 1 < (s.inode rip).iCount then (putInode s rip, .error (.other 16))
  else
    match rootIp with
    | .error code => (putInode s rip, .error code)
    | .ok (rootIp, misfit) =>
      let s := getInode s rootIp dev
      match misfit with
      | some code => (putInode (putInode s rip) rootIp, .error code)
      | none =>
        (s.setSuper sp { sDev := some dev, sImount := some rip, sIsup := some rootIp }, .ok 0)

/-- Perform `mount(name, mfile, rd_only)` for a block special file. The block that `read_super`
reads has no pointers in it. A mount that fails after that leaves the slot taken. -/
def doMount (s : State) (dev : Nat) (mounted : Mounted) : State × Result :=
  if (List.finRange 8).any fun xp => (s.superBlock xp).sDev == some dev then
    (s, .error (.other 16))
  else
    match (List.finRange 8).reverse.find? fun xp => (s.superBlock xp).sDev.isNone with
    | none => (s, .error .enfile)
    | some sp =>
      match mounted with
      | .noDevice => (s, .error .einval)
      | .noSuper code | .noFile code => (s.setSuper sp {}, .error code)
      | .special ⟨rip, fileDev⟩ =>
        (putInode (getInode (s.setSuper sp { sDev := some dev }) rip fileDev) rip,
          .error (.other 20))
      | .noRoot ⟨rip, fileDev⟩ code =>
        mountOn (getInode (s.setSuper sp { sDev := some dev }) rip fileDev) sp dev rip (.error code)
      | .root ⟨rip, fileDev⟩ rootIp misfit =>
        mountOn (getInode (s.setSuper sp { sDev := some dev }) rip fileDev) sp dev rip
          (.ok (rootIp, misfit))

/-- Unmount a file system by device number. -/
def unmount (s : State) (dev : Nat) : State × Result :=
  let count := ((List.finRange nrInodes).map fun rip =>
    if (s.inode rip).iDev = dev then (s.inode rip).iCount else 0).sum
  if 1 < count then (s, .error (.other 16))
  else
    match (List.finRange 8).find? fun sp => (s.superBlock sp).sDev == some dev with
    | none => (s, .error .einval)
    | some sp =>
      let s := putInode? (putInode? s (s.superBlock sp).sImount) (s.superBlock sp).sIsup
      (s.setSuper sp { s.superBlock sp with sImount := none, sDev := none }, .ok 0)

end Minix.Fs
