/-
This file models how MM handles the signals of one process (`mm/signal.c`, and `do_trace` and
`stop_proc` of `mm/trace.c`): what happens to the process's slot of `mproc` when a signal is sent to
it, and in the calls that change its signal masks.

The bits of `mp_flags` have a field each. What the kernel answers is an input. The frames that the
handlers have on the user's stack, and what became of the `sigsuspend` calls, are kept with the
slot although MM does not know them; nothing that MM does depends on them.
-/

import Minix.Kernel.Proc

namespace Minix.Mm.SigProc

open Kernel

/-! ### Signal sets -/

/-- `sigset_t` -/
abbrev Sigset := BitVec 32

def sigismember (set : Sigset) (signo : Nat) : Bool := set.getLsbD signo

def sigaddset (set : Sigset) (signo : Nat) : Sigset := set ||| 1#32 <<< signo

def sigdelset (set : Sigset) (signo : Nat) : Sigset := set &&& ~~~(1#32 <<< signo)

/-- `_NSIG` -/
def nsig : Nat := 17

def sighup : Nat := 1

def sigkill : Nat := 9

def sigchld : Nat := 17

/-- `core_sset`: `SIGQUIT`, `SIGILL`, `SIGTRAP`, `SIGABRT`, `SIGEMT`, `SIGFPE`, `SIGUSR1`, `SIGSEGV`
and `SIGUSR2` cause core dumps. -/
def coreSset : Sigset := [3, 4, 5, 6, 7, 8, 10, 11, 12].foldl sigaddset 0

/-- `ign_sset`: the signals that are by default ignored. -/
def ignSset : Sigset := sigaddset 0 sigchld

/-! ### A slot -/

/-- `struct sigaction`. The flags have a field each. -/
structure Sigaction where
  handler : Nat := 0
  mask : Sigset := 0
  nodefer : Bool := false
  resethand : Bool := false
deriving DecidableEq

/-- `SIG_DFL` -/
def sigDfl : Nat := 0

/-- `SIG_IGN` -/
def sigIgn : Nat := 1

/-- The frame of a handler: the mask that it restores, and the mask before the `sigsuspend` that it
ended, if it ended one. -/
structure Frame where
  mask : Sigset
  ended : Option Sigset
deriving DecidableEq

/-- The frames of the handlers that run, the mask and the number of frames before the last
`sigsuspend`, and for every `sigsuspend` that has come to an end the mask before it and the one
that the process got back. -/
structure Handlers where
  frames : List Frame := []
  before : Sigset := 0
  depth : Nat := 0
  resumed : List (Sigset × Sigset) := []
deriving DecidableEq

theorem mmProcNr_lt : 0 < nrProcs := by decide

/-- A slot of `mproc`. -/
structure Mproc where
  sigstatus : Nat := 0
  pid : Int := 0
  procgrp : Int := 0
  wpid : Int := 0
  parent : Fin nrProcs := ⟨0, mmProcNr_lt⟩
  realuid : Nat := 0
  effuid : Nat := 0
  ignore : Sigset := 0
  catching : Sigset := 0
  sigmask : Sigset := 0
  sigmask2 : Sigset := 0
  sigpending : Sigset := 0
  sigact : Nat → Sigaction := fun _ => {}
  inUse : Bool := false
  waiting : Bool := false
  zombie : Bool := false
  paused : Bool := false
  alarmOn : Bool := false
  traced : Bool := false
  stopped : Bool := false
  sigsuspended : Bool := false
  reply : Bool := false
  onswap : Bool := false
  swapin : Bool := false
  replyRes : Int := 0
  exitstatus : Nat := 0
  handlers : Handlers := {}

/-- The flags `IN_USE` and `ZOMBIE` of a process that lives. -/
def Mproc.live (rmp : Mproc) : Bool := rmp.inUse && !rmp.zombie

/-- `EINTR` -/
def eintr : Int := -4

/-- What `sig_proc` learns: whether `adjust` finds room for the frame, whether the kernel stops a
traced process, and whether the parent waits. -/
structure Answers where
  fits : Bool
  stops : Bool
  parentWaits : Bool

/-- How `sig_proc` ends: the process has been stopped, or is to be terminated, or neither. -/
inductive Outcome
  | done
  | stopped
  | terminated
deriving DecidableEq

/-! ### Sending a signal -/

/-- A reply is pending; a process that is swapped out must be swapped back in. -/
def setreply (rmp : Mproc) (result : Int) : Mproc :=
  { rmp with replyRes := result, reply := true, swapin := rmp.swapin || rmp.onswap }

/-- A `sigsuspend` has come to an end without a handler. -/
def Handlers.resume (h : Handlers) (mask : Sigset) : Handlers :=
  if h.frames.length = h.depth then { h with resumed := h.resumed ++ [(h.before, mask)] } else h

/-- A process that hangs on a call of MM is released. FS is asked about other calls. -/
def unpause (rmp : Mproc) : Mproc :=
  if rmp.paused || rmp.waiting || rmp.sigsuspended then
    setreply
      { rmp with
        paused := false
        waiting := false
        sigsuspended := false
        handlers := if rmp.sigsuspended then rmp.handlers.resume rmp.sigmask else rmp.handlers }
      eintr
  else rmp

/-- A traced process is stopped. The parent is told if it waits. -/
def stopProc (env : Answers) (rmp : Mproc) (signo : Nat) : Mproc × Outcome :=
  if env.stops then
    ({ rmp with stopped := true, sigstatus := if env.parentWaits then rmp.sigstatus else signo },
      .stopped)
  else (rmp, .done)

/-- A signal stays pending until the process is swapped in. -/
def leavePending (rmp : Mproc) (signo : Nat) : Mproc :=
  { rmp with sigpending := sigaddset rmp.sigpending signo, swapin := true }

/-- The part of `sig_proc` from `doterminate` on. -/
def defaultAction (rmp : Mproc) (signo : Nat) : Mproc × Outcome :=
  if sigismember ignSset signo then (rmp, .done)
  else
    let rmp := { rmp with sigstatus := signo }
    if sigismember coreSset signo && rmp.onswap then (leavePending rmp signo, .done)
    else (rmp, .terminated)

/-- The mask that the handler restores. -/
def smMask (rmp : Mproc) : Sigset := if rmp.sigsuspended then rmp.sigmask2 else rmp.sigmask

/-- The part of `sig_proc` that makes the process run its handler. -/
def callHandler (rmp : Mproc) (signo : Nat) : Mproc :=
  let act := rmp.sigact signo
  let mask := rmp.sigmask ||| act.mask
  let frame := { mask := smMask rmp,
                 ended := if rmp.sigsuspended then some rmp.handlers.before else none }
  unpause
    { rmp with
      sigmask := if act.nodefer then sigdelset mask signo else sigaddset mask signo
      catching := if act.resethand then sigdelset rmp.catching signo else rmp.catching
      sigact := if act.resethand then
          Function.update rmp.sigact signo { act with handler := sigDfl }
        else rmp.sigact
      sigpending := sigdelset rmp.sigpending signo
      handlers := { rmp.handlers with frames := frame :: rmp.handlers.frames } }

/-- `sig_proc` as far as the slot of the process is concerned; a process that is to be terminated
exits then. -/
def sigProc (env : Answers) (rmp : Mproc) (signo : Nat) : Mproc × Outcome :=
  if rmp.traced && signo != sigkill then stopProc env (unpause rmp) signo
  else if sigismember rmp.ignore signo then (rmp, .done)
  else if sigismember rmp.sigmask signo then
    ({ rmp with sigpending := sigaddset rmp.sigpending signo }, .done)
  else if sigismember rmp.catching signo then
    if rmp.onswap then (leavePending rmp signo, .done)
    else if env.fits then (callHandler rmp signo, .done)
    else defaultAction rmp signo
  else defaultAction rmp signo

/-- The first pending signal that is not blocked. -/
def firstPending (rmp : Mproc) : Option Nat :=
  (List.range' 1 nsig).find? fun i => sigismember rmp.sigpending i && !sigismember rmp.sigmask i

/-- Deliver the first pending signal that has been unblocked. -/
def checkPending (env : Answers) (rmp : Mproc) : Mproc × Outcome :=
  match firstPending rmp with
  | none => (rmp, .done)
  | some i => sigProc env { rmp with sigpending := sigdelset rmp.sigpending i } i

end Minix.Mm.SigProc
