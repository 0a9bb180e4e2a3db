/-
This file models `fs/pipe.c`: a process that cannot read from or write to a pipe is suspended,
and revived when it may be able to continue. The model follows the source function by function;
`lock_revive` of `fs/lock.c` is here too.
-/

import Minix.Fs.Table

namespace Minix.Fs

/-! ### Suspending and reviving -/

/-- Suspend the processing of the present system call, and store what is needed to resume it.
The buffer and count of calls other than `READ` and `WRITE` are not used again. -/
def suspend (s : State) (fp : Slot) (task : Task) (fd : Fd) (fsCall : CallNr)
    (buffer : Nat → UInt8) (nbytes : Nat) : State :=
  let s := if task = .xpipe ∨ task = .xpopen then { s with suspCount := s.suspCount + 1 } else s
  s.modifyFproc fp fun entry =>
    { entry with
      fpSuspended := true
      fpFd := fd
      fpCall := fsCall
      fpTask := task
      fpBuffer := buffer
      fpNbytes := nbytes }

/-- Revive a previously blocked process. One that waits for a pipe or a lock must try again; any
other gets its reply right away. -/
def revive (s : State) (rp : Slot) : State :=
  let entry := s.fproc rp
  if !entry.fpSuspended || entry.fpRevived then s
  else
    match entry.fpTask with
    | .xpipe | .xlock =>
      { s.modifyFproc rp fun entry => { entry with fpRevived := true } with
        reviving := s.reviving + 1 }
    | .xpopen | .device _ => s.modifyFproc rp fun entry => { entry with fpSuspended := false }

/-- Whether a process hangs on the pipe and was trying to perform the call. -/
def hangsOn (s : State) (ip : InodeNr) (callNr : CallNr) (rp : Slot) : Bool :=
  let entry := s.fproc rp
  entry.fpSuspended && !entry.fpRevived && entry.fpCall == callNr &&
    (entry.fpFilp entry.fpFd).any fun f => (s.filp f).filpIno == ip

/-- The search of `release` through the given slots. -/
def releaseFrom (ip : InodeNr) (callNr : CallNr) : List Slot → Int → State → State
  | [], _, s => s
  | rp :: slots, count, s =>
    if hangsOn s ip callNr rp then
      let s := revive s rp
      let s := { s with suspCount := s.suspCount - 1 }
      if count - 1 = 0 then s else releaseFrom ip callNr slots (count - 1) s
    else releaseFrom ip callNr slots count s

/-- Release the processes that hang on the pipe and were trying to perform the call, at most
`count` of them. -/
def release (s : State) (ip : InodeNr) (callNr : CallNr) (count : Int) : State :=
  releaseFrom ip callNr (List.finRange nrProcs) count s

/-- `INIT_PROC_NR`. -/
def initProcNr : Nat := 2

/-- Revive all processes that are waiting for any kind of lock. -/
def lockRevive (s : State) : State :=
  ((List.finRange nrProcs).filter fun p => initProcNr < p.val).foldl (fun s fptr =>
    if (s.fproc fptr).fpSuspended && decide ((s.fproc fptr).fpTask = .xlock) then revive s fptr
    else s) s

/-- Send the reply to a call on a pipe. A process that is exiting takes no reply. -/
def replyPipe (s : State) (whom : Slot) (result : Result) : State :=
  if s.live whom then
    { s with
      history := { s.history with
        answers := s.history.answers ++ [⟨whom, result, s.history.moved whom⟩] } }
  else s

/-- A signal has been sent to a process: abort the call it is suspended in. -/
def doUnpause (s : State) (p : Slot) : State :=
  let entry := s.fproc p
  if entry.fpSuspended then
    let s := s.modifyFproc p fun entry => { entry with fpSuspended := false }
    if entry.fpTask = .xpipe then replyPipe s p (.error .eintr) else s
  else s

/-! ### Is a read or write feasible now? -/

/-- What `pipe_check` finds: the call ends here, or it goes on. If `canwrite` is not zero, only
so many bytes may be written. -/
inductive Check
  | stop (result : Result)
  | go (canwrite : Nat)
  deriving DecidableEq

/-- The part of `pipe_check` for a read. -/
def pipeCheckRead (s : State) (fp : Slot) (rip : InodeNr) (oflags : Flags) (fd : Fd)
    (buffer : Nat → UInt8) (bytes position : Nat) : State × Check :=
  if (s.inode rip).iSize ≤ position then
    if (findFilp s rip .writing).isSome then
      let r := if oflags.nonblock then .error .eagain else .suspend
      let s := if oflags.nonblock then s else suspend s fp .xpipe fd .read buffer bytes
      let s := if 0 < s.suspCount then release s rip .write s.suspCount else s
      (s, .stop r)
    else (s, .stop (.ok 0))
  else (s, .go 0)

/-- The part of `pipe_check` for a write. -/
def pipeCheckWrite (s : State) (fp : Slot) (rip : InodeNr) (oflags : Flags) (fd : Fd)
    (buffer : Nat → UInt8) (bytes position : Nat) : State × Check :=
  if (findFilp s rip .reading).isNone then (s, .stop (.error .epipe))
  else if pipeSize < position + bytes then
    if oflags.nonblock ∧ bytes < pipeSize then (s, .stop (.error .eagain))
    else if oflags.nonblock ∧ pipeSize < bytes then
      if 0 < pipeSize - position then
        (release s rip .read s.suspCount, .go (pipeSize - position))
      else (s, .stop (.error .eagain))
    else if pipeSize < bytes ∧ 0 < pipeSize - position then
      (release s rip .read s.suspCount, .go (pipeSize - position))
    else (suspend s fp .xpipe fd .write buffer bytes, .stop .suspend)
  else (if position = 0 then release s rip .read s.suspCount else s, .go 0)

/-- Check to see that a read or write on a pipe is feasible now. -/
def pipeCheck (s : State) (fp : Slot) (rip : InodeNr) (rwFlag : RwFlag) (oflags : Flags) (fd : Fd)
    (buffer : Nat → UInt8) (bytes position : Nat) : State × Check :=
  match rwFlag with
  | .reading => pipeCheckRead s fp rip oflags fd buffer bytes position
  | .writing => pipeCheckWrite s fp rip oflags fd buffer bytes position

end Minix.Fs
