/-
This file models the process table of MM as far as the death of a process and the signals that come
with it are concerned: `mm_exit` (`mm/forkexit.c`), `check_sig` and `do_kill` (`mm/signal.c`), with
`sig_proc` on the whole table.

`mm_exit` and `sig_proc` call each other; each round ends the life of a process, and `fuel` bounds
the rounds. A result that is `none` is a panic or a lack of fuel. Memory, and what FS and the kernel
are told, is left out. The table notes every signal that `sig_proc` is given.
-/

import Minix.Mm.SigProc

namespace Minix.Mm.SigProc

open Function (update)
open Kernel

/-! ### The table -/

/-- The process table, the slot `mp` of the caller, and the signals that were sent. -/
structure Table where
  mproc : Fin nrProcs → Mproc
  mp : Fin nrProcs
  sent : List (Fin nrProcs × Nat) := []

theorem initProcNr_lt : 2 < nrProcs := by decide

/-- `INIT_PROC_NR` -/
def initProcNr : Fin nrProcs := ⟨2, initProcNr_lt⟩

/-- `INIT_PID` -/
def initPid : Int := 1

/-- `SUPER_USER` -/
def superUser : Nat := 0

/-- The slots from `INIT` on. -/
def users : List (Fin nrProcs) := (List.finRange nrProcs).filter (initProcNr ≤ ·)

namespace Table

def modify (k : Table) (p : Fin nrProcs) (f : Mproc → Mproc) : Table :=
  { k with mproc := update k.mproc p (f (k.mproc p)) }

end Table

/-- A slot whose flags are all off. -/
def clearFlags (rmp : Mproc) : Mproc :=
  { rmp with
    inUse := false, waiting := false, zombie := false, paused := false, alarmOn := false,
    traced := false, stopped := false, sigsuspended := false, reply := false, onswap := false,
    swapin := false }

/-! ### Signals to processes -/

/-- The parent is told about a child, and waits no longer. -/
def tellParent (k : Table) (child : Fin nrProcs) : Table :=
  k.modify (k.mproc child).parent fun parent =>
    { setreply parent (k.mproc child).pid with waiting := false }

/-- `sig_proc`, with what happens to a process that is to be terminated. -/
def sigProcWith (exit : Table → Fin nrProcs → Option Table) (env : Nat → Bool × Bool) (k : Table)
    (p : Fin nrProcs) (signo : Nat) : Option Table :=
  if (k.mproc p).live then
    let answers : Answers :=
      { fits := (env k.sent.length).1
        stops := (env k.sent.length).2
        parentWaits := (k.mproc (k.mproc p).parent).waiting }
    let after := sigProc answers (k.mproc p) signo
    let k := { k with mproc := update k.mproc p after.1, sent := k.sent ++ [(p, signo)] }
    match after.2 with
    | .done => some k
    | .stopped => some (if answers.parentWaits then tellParent k p else k)
    | .terminated => exit k p
  else none

/-- The process is selected by the first argument of `check_sig`. -/
def selected (k : Table) (procId : Int) (q : Fin nrProcs) : Bool :=
  !(0 < procId && procId != (k.mproc q).pid) &&
    !(procId == 0 && (k.mproc k.mp).procgrp != (k.mproc q).procgrp) &&
    !(procId == -1 && decide ((k.mproc q).pid ≤ initPid)) &&
    !(procId < -1 && (k.mproc q).procgrp != -procId)

/-- The caller may send signals to the process. -/
def permitted (k : Table) (q : Fin nrProcs) : Bool :=
  let mp := k.mproc k.mp
  let rmp := k.mproc q
  !(mp.effuid != superUser && mp.realuid != rmp.realuid && mp.effuid != rmp.realuid &&
    mp.realuid != rmp.effuid && mp.effuid != rmp.effuid)

/-- The loop of `check_sig`, with the count and the error code. -/
def sendAll (send : Table → Fin nrProcs → Nat → Option Table) (procId : Int) (signo : Nat) :
    List (Fin nrProcs) → Table → Nat → Int → Option (Table × Nat × Int)
  | [], k, count, errorCode => some (k, count, errorCode)
  | q :: qs, k, count, errorCode =>
    if (k.mproc q).inUse && !((k.mproc q).zombie && signo != 0) && selected k procId q then
      if permitted k q then
        if signo = 0 then sendAll send procId signo qs k (count + 1) errorCode
        else
          (send k q signo).bind fun k =>
            -- only one process being signaled
            if 0 < procId then some (k, count + 1, errorCode)
            else sendAll send procId signo qs k (count + 1) errorCode
      else sendAll send procId signo qs k count (-1)
    else sendAll send procId signo qs k count errorCode

/-- `check_sig` -/
def checkSig (send : Table → Fin nrProcs → Nat → Option Table) (k : Table) (procId : Int)
    (signo : Nat) : Option (Table × Int) :=
  if nsig < signo then some (k, -22)
  else if procId = initPid ∧ signo = sigkill then some (k, -22)
  else
    (sendAll send procId signo users k 0 (-3)).map fun (k, count, errorCode) =>
      -- if the calling process has killed itself, don't reply
      (k, if !(k.mproc k.mp).live then -998 else if 0 < count then 0 else errorCode)

/-! ### The death of a process -/

/-- Finish off the exit of a process: its parent waits, and the slot is released. -/
def cleanup (k : Table) (child : Fin nrProcs) : Table :=
  (tellParent k child).modify child clearFlags

/-- A child of a process that exits becomes a child of `INIT`. -/
def disinherit (procNr : Fin nrProcs) (k : Table) (child : Fin nrProcs) : Table :=
  if (k.mproc child).inUse && (k.mproc child).parent == procNr then
    let k := k.modify child fun rmp => { rmp with parent := initProcNr }
    if (k.mproc initProcNr).waiting && (k.mproc child).zombie then cleanup k child else k
  else k

/-- What `mm_exit` does to the slot: the alarm is killed, and the status is kept for the parent. -/
def leave (exitStatus : Nat) (rmp : Mproc) : Mproc :=
  { rmp with alarmOn := false, exitstatus := exitStatus % 256 }

/-- The parent waits for this child. -/
def awaited (k : Table) (rmp : Fin nrProcs) : Bool :=
  let parent := k.mproc (k.mproc rmp).parent
  parent.waiting && (parent.wpid == -1 || parent.wpid == (k.mproc rmp).pid ||
    -parent.wpid == (k.mproc rmp).procgrp)

/-- The process group that is told: a session leader's, if the caller has the leader's group. -/
def hangupGroup (k : Table) (rmp : Fin nrProcs) : Int :=
  if (k.mproc rmp).pid = (k.mproc k.mp).procgrp then (k.mproc k.mp).procgrp else 0

/-- The slot is released, or the process becomes a zombie and its parent gets `SIGCHLD`. -/
def release (send : Table → Fin nrProcs → Nat → Option Table) (k : Table) (rmp : Fin nrProcs) :
    Option Table :=
  if awaited k rmp then some (cleanup k rmp)
  else
    send (k.modify rmp fun r => { clearFlags r with inUse := true, zombie := true })
      (k.mproc rmp).parent sigchld

/-- `mm_exit` -/
def mmExit (send : Table → Fin nrProcs → Nat → Option Table) (k : Table) (rmp : Fin nrProcs)
    (exitStatus : Nat) : Option Table :=
  let procgrp := hangupGroup k rmp
  (release send (k.modify rmp (leave exitStatus)) rmp).bind fun k =>
    let k := (List.finRange nrProcs).foldl (disinherit rmp) k
    if procgrp ≠ 0 then (checkSig send k (-procgrp) sighup).map Prod.fst else some k

/-- `sig_proc` on the table. -/
def sendSignal (env : Nat → Bool × Bool) : Nat → Table → Fin nrProcs → Nat → Option Table
  | 0, _, _, _ => none
  | fuel + 1, k, p, signo =>
    sigProcWith (fun k p => mmExit (sendSignal env fuel) k p 0) env k p signo

/-! ### The calls in which processes die -/

/-- `do_kill` -/
def doKill (env : Nat → Bool × Bool) (fuel : Nat) (k : Table) (pid : Int) (sigNr : Nat) :
    Option (Table × Int) :=
  checkSig (sendSignal env fuel) k pid sigNr

end Minix.Mm.SigProc
