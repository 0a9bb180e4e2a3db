/-
This file models `fs/main.c`: the file system as a machine that revives suspended processes as
long as there are any to revive, and otherwise takes the next message.

`Contract` is what the senders of the messages guarantee: a process that makes a call exists and
is not suspended in another one, MM forks into slots that are free, a driver revives processes
that it has suspended, and the inode table finds a file that is in use in its slot.
-/

import Minix.Fs.Open
import Minix.Library.Transition

namespace Minix.Fs

/-! ### Messages -/

/-- The calls that touch descriptors, pipes or suspended processes. -/
inductive Message
  | pipe (p : Slot) (rootDev : Nat) (inode : Except Errno InodeNr)
  | open (p : Slot) (fsCall : CallNr) (bits : RwFlag → Bool) (flags : Flags)
      (path : Except Errno (Found × Opened))
  | close (p : Slot) (fd : Int) (unlocked : Bool)
  | dupfd (p : Slot) (fd addr : Int)
  | dup2 (p : Slot) (fd fd₂ : Int) (unlocked : Bool)
  | setfd (p : Slot) (fd : Int) (cloexec : Bool)
  | setfl (p : Slot) (fd : Int) (flags : Flags)
  | lock (p : Slot) (fd : Int) (lock : Lock)
  | ioctl (p : Slot) (fd : Int) (file : FileIo)
  | readWrite (p : Slot) (rwFlag : RwFlag) (fd : Int) (buffer : Nat → UInt8) (nbytes : Int)
      (io : Io)
  | fork (parent child : Slot)
  | exec (p : Slot) (unlocked : Fd → Bool)
  | exit (p : Slot) (unlocked : Fd → Bool)
  | unpause (p : Slot)
  | revive (p : Slot)
  | change (p : Slot) (dir : Dir) (path : Except Errno (Found × Option Errno))
  | chdirMm (p user : Slot)
  | mount (p : Slot) (dev : Nat) (mounted : Mounted)
  | umount (p : Slot) (dev : Nat)

/-- What a turn of the main loop works on: a suspended process that is being revived, with the
outcome of its transfer or lock request, or a message. -/
inductive Input
  | revived (io : Io) (lock : Lock)
  | message (m : Message)

/-! ### The main loop -/

/-- The search of `get_work` for a suspended process to awaken. There is none if `reviving` is
wrong; the file system panics then. -/
def getWork (s : State) : Option (Slot × State) :=
  if s.reviving = 0 then none
  else
    ((List.finRange nrProcs).find? fun rp => (s.fproc rp).fpRevived).map fun rp =>
      (rp, { s.modifyFproc rp fun entry =>
          { entry with fpSuspended := false, fpRevived := false } with
        reviving := s.reviving - 1 })

/-- Whether a descriptor refers to a pipe. -/
def onPipe (s : State) (p : Slot) (fild : Int) : Bool :=
  (getFilp s p fild).any fun entry => (s.inode (s.filp entry.2).filpIno).iPipe

/-- `READ` or `WRITE`, and the reply. -/
def serveReadWrite (s : State) (p : Slot) (rwFlag : RwFlag) (fild : Int) (buffer : Nat → UInt8)
    (nbytes : Int) (io : Io) : State :=
  match readWrite s p rwFlag fild buffer nbytes io with
  | (s', .suspend) => s'
  | (s', result) => if onPipe s p fild then replyPipe s' p result else s'

/-- A call starts, which has moved no bytes yet. -/
def startCall (s : State) (p : Slot) (buffer : Nat → UInt8) : State :=
  { s with
    history := { s.history with
      source := Function.update s.history.source p buffer
      moved := Function.update s.history.moved p 0 } }

/-- A process begins to open a file. -/
def startOpen (s : State) (p : Slot) : State :=
  { s with
    history := { s.history with
      descriptors := Function.update s.history.descriptors p (s.fproc p).fpFilp } }

/-- An open call ends with an error. -/
def noteFailure (s : State) (p : Slot) : State :=
  { s with
    history := { s.history with
      failedOpens := s.history.failedOpens ++
        [⟨p, s.history.descriptors p, (s.fproc p).fpFilp⟩] } }

/-- `OPEN` or `CREAT`, and the reply. -/
def serveOpen (s : State) (p : Slot) (fsCall : CallNr) (bits : RwFlag → Bool) (flags : Flags)
    (path : Except Errno (Found × Opened)) : State :=
  match commonOpen s p fsCall bits flags path with
  | (s', .error _) => noteFailure s' p
  | (s', _) => s'

/-- A process that is opening a FIFO. -/
def opening (s : State) (p : Slot) : Bool :=
  (s.fproc p).fpSuspended && (s.fproc p).fpTask == .xpopen

/-- A process that waits for a pipe or the opening of a FIFO is interrupted. -/
def noteInterrupt (s : State) (p : Slot) : State :=
  let entry := s.fproc p
  let s := if opening s p then noteFailure s p else s
  if entry.fpSuspended && !entry.fpRevived && (entry.fpTask == .xpipe || entry.fpTask == .xpopen)
  then { s with history := { s.history with interrupted := s.history.interrupted + 1 } }
  else s

/-- The slot of a process that comes or goes. -/
def setLive (s : State) (p : Slot) (live : Bool) : State :=
  { s with live := Function.update s.live p live }

/-- Call the internal function that does the work. -/
def serve (s : State) : Message → State
  | .pipe p rootDev inode => (doPipe s p rootDev inode).1
  | .open p fsCall bits flags path => serveOpen (startOpen s p) p fsCall bits flags path
  | .close p fd unlocked => (doClose s p fd unlocked).1
  | .dupfd p fd addr => (doDupfd s p fd addr).1
  | .dup2 p fd fd₂ unlocked => (doDup2 s p fd fd₂ unlocked).1
  | .setfd p fd cloexec => (doSetfd s p fd cloexec).1
  | .setfl p fd flags => (doSetfl s p fd flags).1
  | .lock p fd lock => (doLock s p fd lock).1
  | .ioctl p fd file => (doIoctl s p fd file).1
  | .readWrite p rwFlag fd buffer nbytes io =>
    serveReadWrite (startCall s p buffer) p rwFlag fd buffer nbytes io
  | .fork parent child => setLive (doFork s parent child) child true
  | .exec p unlocked => doExec s p unlocked
  | .exit p unlocked => doExit (setLive s p false) p unlocked
  | .unpause p => doUnpause (noteInterrupt s p) p
  | .revive p => Fs.revive s p
  | .change p dir path => (Fs.change s p dir path).1
  | .chdirMm p user => doChdirMm s p user
  | .mount _ dev mounted => (doMount s dev mounted).1
  | .umount _ dev => (unmount s dev).1

/-- Resume the call of a process that is no longer suspended. Only calls on pipes and locks are
ever revived this way. -/
def resume (s : State) (p : Slot) (io : Io) (lock : Lock) : Option State :=
  let entry := s.fproc p
  match entry.fpCall with
  | .read => some (serveReadWrite s p .reading entry.fpFd.val entry.fpBuffer entry.fpNbytes io)
  | .write => some (serveReadWrite s p .writing entry.fpFd.val entry.fpBuffer entry.fpNbytes io)
  | .fcntl => some (doLock s p entry.fpFd.val lock).1
  | .open | .creat | .ioctl => none

/-- One turn of the main loop. -/
def step (s : State) : Input → Option State
  | .revived io lock => (getWork s).bind fun (p, s) => resume s p io lock
  | .message m => if s.reviving = 0 then some (serve s m) else none

/-- The slot that the root inode gets when the inode table is empty. -/
def rootInode : InodeNr := 63

/-- The state that `fs_init` leaves, with MM, the file system itself and `INIT` in place. The root
inode is in use by the super block and as the directories of MM and `INIT`. -/
def fsInit : State where
  fproc p :=
    if p.val = 0 ∨ p.val = initProcNr then
      { fpRootdir := some rootInode, fpWorkdir := some rootInode }
    else {}
  inode rip := if rip = rootInode then { iCount := 6 } else {}
  superBlock sp :=
    if sp = 0 then { sDev := some 0, sImount := some rootInode, sIsup := some rootInode } else {}
  live p := decide (p.val ≤ initProcNr)

/-! ### What the senders guarantee -/

/-- A process that can make a call. -/
def Ready (s : State) (p : Slot) : Prop := s.live p = true ∧ (s.fproc p).fpSuspended = false

instance (s : State) (p : Slot) : Decidable (Ready s p) := by unfold Ready; infer_instance

/-- What the code around a step guarantees. -/
def Contract (s : State) : Input → Prop
  | .revived _ _ => True
  | .message (.pipe p _ inode) =>
    Ready s p ∧ match inode with
      | .ok rip => (s.inode rip).iCount = 0
      | .error _ => True
  | .message (.open p fsCall _ _ path) =>
    Ready s p ∧ (fsCall = .open ∨ fsCall = .creat) ∧ match path with
      | .ok (found, .fifo) => (s.inode found.rip).iCount = 0 ∨ (s.inode found.rip).iPipe = true
      | .ok (found, .plain) => (s.inode found.rip).iPipe = false
      | .ok (_, .refused _) | .error _ => True
  | .message (.close p _ _) | .message (.dupfd p _ _) | .message (.dup2 p _ _ _)
  | .message (.setfd p _ _) | .message (.setfl p _ _) | .message (.lock p _ _)
  | .message (.ioctl p _ _) | .message (.readWrite p _ _ _ _ _) | .message (.exec p _)
  | .message (.change p _ _) | .message (.mount p _ _) | .message (.umount p _) =>
    Ready s p
  | .message (.chdirMm p user) => Ready s p ∧ s.live user = true
  | .message (.fork parent child) => Ready s parent ∧ s.live child = false
  | .message (.exit p _) => s.live p = true
  | .message (.unpause _) => True
  | .message (.revive p) =>
    (s.fproc p).fpSuspended = true →
      (s.fproc p).fpTask ≠ .xpipe ∧ (s.fproc p).fpTask ≠ .xpopen ∧ (s.fproc p).fpTask ≠ .xlock

/-- A FIFO is opened either for reading or for writing, and its writers keep appending. -/
def Disciplined (s : State) : Input → Prop
  | .message (.open _ _ bits _ (.ok (_, .fifo))) => bits .reading ≠ bits .writing
  | .message (.setfl p fd flags) =>
    match getFilp s p fd with
    | some (_, f) =>
      (s.inode (s.filp f).filpIno).iPipe = true → (s.filp f).filpMode .writing = true →
        flags.append = true ∨ (s.filp f).filpPos = (s.inode (s.filp f).filpIno).iSize
    | none => True
  | _ => True

/-- The runs of the file system. -/
def Reaches (guard : State → Input → Prop) (inputs : List Input) (s : State) : Prop :=
  Transition.Run step guard fsInit inputs s

end Minix.Fs
