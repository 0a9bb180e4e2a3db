/-
This file models how MM handles the signals that the kernel tells it of (`mm/signal.c`), together
with the parts of `mm/forkexit.c` that create and end processes, as a machine that runs on top of
the kernel.

A KSIG message reaches MM in the kernel entry that sends it. `do_ksig` then looks at one signal
number after the other; `check_sig`, which ignores, blocks, catches or kills, is not one step:
while MM is in it, processes may exit and every other entry into the kernel may happen. What MM
keeps of a process is the part of `mp_flags` that these functions read.
-/

import Minix.Kernel.Signals

namespace Minix.Mm

open Kernel

/-! ### The tables of MM -/

/-- `_NSIG`. -/
def nsig : Nat := 17

/-- `SIGALRM`. -/
def sigalrm : Nat := 14

/-- A slot of `mproc`. -/
structure Mproc where
  inUse : Bool := false
  zombie : Bool := false
  alarmOn : Bool := false
deriving DecidableEq

/-- `(mp_flags & (IN_USE | ZOMBIE)) == IN_USE`. -/
def Mproc.alive (rmp : Mproc) : Bool := rmp.inUse && !rmp.zombie

/-- Where MM is in its program. -/
inductive Work
  /-- It waits for a message, or handles a call other than KSIG. -/
  | call
  /-- It has got a KSIG message: `SIG_PROC` and `SIG_MAP`. -/
  | ksig (procNr : Slot) (sigMap : Finset Nat)
  /-- It is at the head of the loop of `do_ksig`, with these signal numbers to come. -/
  | loop (procNr : Slot) (sigMap : Finset Nat) (signals : List Nat)
  /-- It is in `check_sig` or `sys_endsig` for one signal, with the others to come. -/
  | checkSig (procNr : Slot) (sigMap : Finset Nat) (signals : List Nat)
deriving DecidableEq

/-- MM is in `check_sig`. -/
def Work.checking : Work → Bool
  | .checkSig .. => true
  | _ => false

/-- The kernel and MM. -/
structure System where
  kernel : State
  mproc : Slot → Mproc := fun _ => {}
  work : Work := .call
  /-- The number of signals of a process that MM has been told of and has not acknowledged with
  `sys_endsig`. It only records; no operation reads it. -/
  unacknowledged : Slot → Nat := fun _ => 0

namespace System

variable (m : System)

/-- Change a slot of `mproc`. -/
def modifyMproc (p : Slot) (change : Mproc → Mproc) : System :=
  { m with mproc := Function.update m.mproc p (change (m.mproc p)) }

/-- A kernel entry has completed: if it has sent a KSIG message, MM has got it. -/
def observe (k : State) : System :=
  match k.ksigs.drop m.kernel.ksigs.length with
  | [] => { m with kernel := k }
  | (procNr, sigMap) :: _ =>
    { m with
      kernel := k
      work := .ksig procNr sigMap
      unacknowledged := Function.update m.unacknowledged procNr
        (m.unacknowledged procNr + sigMap.card) }

end System

/-! ### The calls -/

/-- One step of `do_ksig` up to `check_sig`. A signal for a process that has exited is dropped, and
so is an alarm that the process has cancelled. -/
def doKsig (m : System) : Option System :=
  match m.work with
  | .ksig procNr sigMap =>
    if !(m.mproc procNr).alive then some { m with work := .call }
    else some { m with work := .loop procNr sigMap (List.range' 1 nsig) }
  | .loop _ _ [] => some { m with work := .call }
  | .loop procNr sigMap (sigNr :: signals) =>
    if sigNr ∉ sigMap then some { m with work := .loop procNr sigMap signals }
    else if sigNr = sigalrm then
      if !(m.mproc procNr).alarmOn then some { m with work := .loop procNr sigMap signals }
      else
        some { m.modifyMproc procNr fun rmp => { rmp with alarmOn := false } with
          work := .checkSig procNr sigMap signals }
    else some { m with work := .checkSig procNr sigMap signals }
  | _ => none

/-- `sys_endsig`, when `check_sig` has returned. -/
def endsig (m : System) : Option System :=
  match m.work with
  | .checkSig procNr sigMap signals => do
    let (k, _) ← doEndsig m.kernel procNr
    some { m with
      kernel := k
      work := .loop procNr sigMap signals
      unacknowledged := Function.update m.unacknowledged procNr (m.unacknowledged procNr - 1) }
  | _ => none

/-- `set_alarm`, as far as `mproc` is concerned. -/
def setAlarm (m : System) (procNr : Slot) (sec : Nat) : System :=
  m.modifyMproc procNr fun rmp => { rmp with alarmOn := sec ≠ 0 }

/-- `mm_exit`. The slot becomes free if the parent is waiting for the process. -/
def mmExit (m : System) (parent procNr : Slot) (parentWaiting : Bool) : Option System := do
  let m := if (m.mproc procNr).alarmOn then setAlarm m procNr 0 else m
  let k ← doXit m.kernel parent procNr
  let m := { m with
    kernel := k
    unacknowledged := Function.update m.unacknowledged procNr 0 }
  some (m.modifyMproc procNr fun _ =>
    if parentWaiting then {} else { inUse := true, zombie := true })

/-- `cleanup` of a process that has exited. -/
def cleanup (m : System) (child : Slot) : Option System :=
  if (m.mproc child).zombie then some (m.modifyMproc child fun _ => {}) else none

/-- `do_fork`, with a free slot for the child. -/
def doFork (m : System) (parent child : Slot) : Option System :=
  if (m.mproc child).inUse then none
  else do
    let m := m.modifyMproc child fun _ => { inUse := (m.mproc parent).inUse }
    let k ← Kernel.doFork m.kernel parent child
    some { m with kernel := k }

/-! ### MM and the kernel as a machine -/

/-- The start: the kernel has started, and MM has marked the slots of MM, FS and `INIT`. -/
def mmInit (k : State) : System where
  kernel := k
  mproc p := { inUse := mm ≤ p && p ≤ init }

/-- The steps: an entry into the kernel that is not one of the following, and the steps of MM. -/
inductive Label
  | kernel (call : Call)
  | doKsig
  | endsig
  | setAlarm (procNr : Slot) (sec : Nat)
  | mmExit (parent procNr : Slot) (parentWaiting : Bool)
  | cleanup (child : Slot)
  | doFork (parent child : Slot)

/-- What MM and the kernel do. -/
def step (m : System) : Label → Option System
  | .kernel call => (Kernel.step m.kernel call).map m.observe
  | .doKsig => doKsig m
  | .endsig => endsig m
  | .setAlarm procNr sec => some (setAlarm m procNr sec)
  | .mmExit parent procNr parentWaiting => mmExit m parent procNr parentWaiting
  | .cleanup child => cleanup m child
  | .doFork parent child => doFork m parent child

/-- The entries that MM requests in steps of its own. -/
def own : Call → Bool
  | .fork .. => true
  | .xit .. => true
  | .endsig _ => true
  | _ => false

/-- The contract of a kernel entry with the order of MM's program: MM asks for a message from ANY
only in its main loop, it forks and sets alarms when it handles a call, and processes exit in a
call or in `check_sig`. The signals that are caused have numbers from 1 to `_NSIG`, and
`sys_endsig` is handled by the system task. -/
def Conduct (m : System) : Label → Prop
  | .kernel call => Contract m.kernel call ∧ own call = false ∧
      (call.receivesAny m.kernel = true → m.work = .call) ∧
      ∀ sigNr ∈ call.signal, 1 ≤ sigNr ∧ sigNr ≤ nsig
  | .doKsig => True
  | .endsig => m.kernel.procPtr = systask
  | .setAlarm .. => m.work = .call
  | .mmExit .. => m.work = .call ∨ m.work.checking
  | .cleanup _ => m.work = .call ∨ m.work.checking
  | .doFork .. => m.work = .call

instance (m : System) : (label : Label) → Decidable (Conduct m label)
  | .kernel _ => inferInstanceAs (Decidable (_ ∧ _ ∧ _ ∧ _))
  | .doKsig => .isTrue trivial
  | .endsig => inferInstanceAs (Decidable (_ = _))
  | .setAlarm .. => inferInstanceAs (Decidable (_ = _))
  | .mmExit .. => inferInstanceAs (Decidable (_ ∨ _))
  | .cleanup _ => inferInstanceAs (Decidable (_ ∨ _))
  | .doFork .. => inferInstanceAs (Decidable (_ = _))

end Minix.Mm
