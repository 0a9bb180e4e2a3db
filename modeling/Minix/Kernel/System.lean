/-
This file models the handlers of the system task (`kernel/system.c`) that create, change and
remove processes, the start of the system (`kernel/main.c`), and the kernel as a machine
whose steps are the entries into this code.

`Contract` is what the code around a step guarantees: the assertions at the head of a
handler, the order in which MM calls the handlers, and the fact that handlers run while the
system task is the running process. A handler's `assert` that fails is a panic, `none`.
-/

import Minix.Kernel.Message
import Minix.Library.Transition

namespace Minix.Kernel

open LinkedList

/-! ### Handlers of the system task -/

/-- A process has forked: the child's entry is a copy of the parent's. -/
def doFork (k : State) (parent child : Slot) : Option State :=
  if k.isuserp parent && k.isemptyp child then
    let k := k.modify child fun _ =>
      { k.proc parent with
        pFlags := { (k.proc parent).pFlags with
          noMap := true, pending := false, sigPending := false, pStop := false }
        pPending := ∅
        pPendcount := 0 }
    some (k.emit [.forked parent child])
  else none

/-- MM has set up a memory map. -/
def doNewmap (k : State) (n : Int) (map : MemMap) : Option (State × Result) :=
  match procAddr n with
  | none => some (k, .eBadProc)
  | some rp => do
    let oldFlags := (k.proc rp).pFlags
    let k := k.modify rp fun entry =>
      { entry with pMap := map, pFlags := { entry.pFlags with noMap := false } }
    let k ← (if !oldFlags.clear then readyIfClear k rp else some k)
    some (k, .ok)

/-- `SIGTRAP`. -/
def sigtrap : Nat := 5

/-- A process has done a successful EXEC. MM does not reply to the call. -/
def doExec (k : State) (rp : Slot) (traced : Bool) : Option State :=
  if !k.isuserp rp then none
  else do
    let k ← (if traced then causeSig k rp sigtrap else some k)
    let k := k.setFlags rp fun flags => { flags with receiving := false }
    readyIfClear k rp

/-- The search of `do_xit` through the caller queues of the given slots. The search ends at
the first queue with the exiting process at its head. -/
def unlinkSender (rc : Slot) : List Slot → State → Option State
  | [], k => some k
  | rp :: slots, k =>
    match k.callerq rp with
    | none => unlinkSender rc slots k
    | some np =>
      if np = rc then some (k.setCallerq rp (k.sendlink rc))
      else
        match scan k.sendlink (· == rc) tableSize (some np) (k.sendlink np) with
        | none => none
        | some (some (some np, _)) => unlinkSender rc slots (k.setSendlink np (k.sendlink rc))
        | some _ => unlinkSender rc slots k

/-- A process has exited. -/
def doXit (k : State) (parent rc : Slot) : Option State :=
  if k.isuserp parent && k.isuserp rc then do
    let k ← unreadyIfClear k rc
    let k ← (if (k.proc rc).pFlags.sending then unlinkSender rc (List.finRange _) k else some k)
    let k := { k with sigProcs := if (k.proc rc).pFlags.pending then k.sigProcs - 1
      else k.sigProcs }
    let k := k.modify rc fun entry =>
      { entry with pPending := ∅, pPendcount := 0, pFlags := {}, pPriority := .none }
    some (k.emit [.exited rc])
  else none

/-- The requests of `ptrace` that reach the kernel. The requests that read or write memory
and registers touch nothing modelled here. -/
inductive TraceRequest
  | stop
  | resume
  | step
  | access
deriving DecidableEq, Repr

/-- The debugging commands. -/
def doTrace (k : State) (request : TraceRequest) (rp : Slot) : Option (State × Result) :=
  if k.isemptyp rp then some (k, .eIo)
  else
    match request with
    | .stop => do
      let k ← unreadyIfClear k rp
      some (k.setFlags rp fun flags => { flags with pStop := true }, .ok)
    | .access => some (k, .ok)
    | _ => do
      let k := k.setFlags rp fun flags => { flags with pStop := false }
      let k ← readyIfClear k rp
      some (k, .ok)

/-- Cause a signal on behalf of FS. -/
def doKill (k : State) (p : Slot) (sigNr : Nat) : Option State :=
  if k.isuserp p then causeSig k p sigNr else none

/-- MM has finished one signal of the process. -/
def doEndsig (k : State) (rp : Slot) : Option (State × Result) :=
  if k.isemptyp rp then some (k, .eBadProc)
  else if !k.isuserp rp then none
  else if (k.proc rp).pPendcount = 0 then some (k, .ok)
  else
    let k := k.modify rp fun entry => { entry with pPendcount := entry.pPendcount - 1 }
    if (k.proc rp).pPendcount ≠ 0 then some (k, .ok)
    else do
      let k := k.setFlags rp fun flags => { flags with sigPending := false }
      let k ← readyIfClear k rp
      some (k, .ok)

/-! ### The start of the system -/

/-- `isidlehardware`. -/
def isidlehardware (p : Slot) : Bool := p == idle || p == hardware

/-- The priority that `main` gives to a task or a server. -/
def bootPriority (p : Slot) : Priority :=
  if p.val < nrTasks then .task else if p < init then .server else .user

/-- Set up the entry of one task or server and schedule it. -/
def bootProc (maps : Slot → MemMap) (k : State) (p : Slot) : Option State := do
  let k := k.modify p fun entry => { entry with pPriority := bootPriority p, pMap := maps p }
  let k ← (if isidlehardware p then some k else ready k p)
  some (k.setFlags p fun _ => {})

/-- The start of the system, with the memory maps found by the boot monitor. -/
def main (maps : Slot → MemMap) (sysMessage : UInt32) : Option State := do
  let k ← ((List.finRange _).filter (· ≤ init)).foldlM (bootProc maps)
    ({ sysMessage := sysMessage } : State)
  let k := { k with billPtr := idle }
  let k := k.modify idle fun entry => { entry with pPriority := .idle }
  some (pickProc k)

/-! ### The kernel as a machine -/

/-- The entries into the kernel. -/
inductive Call
  | sysCall (function : SysFunction) (srcDest : Int) (mPtr : UInt32)
  | interrupt (task : Slot) (competing : Bool)
  | unhold
  | sched
  | causeSig (p : Slot) (sigNr : Nat)
  | fork (parent child : Slot)
  | newmap (n : Int) (map : MemMap)
  | exec (p : Slot) (traced : Bool)
  | xit (parent p : Slot)
  | trace (request : TraceRequest) (p : Slot)
  | kill (p : Slot) (sigNr : Nat)
  | endsig (p : Slot)

/-- What the kernel does when it is entered. -/
def step (k : State) : Call → Option State
  | .sysCall function srcDest mPtr => (sysCall k function srcDest mPtr).map Prod.fst
  | .interrupt task competing => interrupt k task competing
  | .unhold => unhold k
  | .sched => sched k
  | .causeSig p sigNr => causeSig k p sigNr
  | .fork parent child => doFork k parent child
  | .newmap n map => (doNewmap k n map).map Prod.fst
  | .exec p traced => doExec k p traced
  | .xit parent p => doXit k parent p
  | .trace request p => (doTrace k request p).map Prod.fst
  | .kill p sigNr => doKill k p sigNr
  | .endsig p => (doEndsig k p).map Prod.fst

/-- What holds when the kernel is entered. `IDLE` only loops; interrupts are for tasks;
signals and traces are for user processes; the handlers that may deblock a process run while
the system task is running; MM sends `SYS_EXEC` for a process that waits for its EXEC call,
`SYS_TRACE` to resume only for a stopped process, and one `SYS_ENDSIG` for each signal that
it was told of. -/
def Contract (k : State) : Call → Prop
  | .sysCall .. => k.procPtr ≠ idle
  | .interrupt task _ => k.istaskp task
  | .causeSig p _ => k.isuserp p
  | .newmap .. => k.procPtr = systask
  | .exec p _ => k.procPtr = systask ∧ (k.proc p).pFlags.receiving
  | .trace request p => k.procPtr = systask ∧ (k.isuserp p ∨ k.isemptyp p) ∧
      (request = .resume ∨ request = .step → k.isuserp p → (k.proc p).pFlags.pStop)
  | .endsig p => k.procPtr = systask ∧ (k.isuserp p → (k.proc p).pPending.card <
      (k.proc p).pPendcount)
  | _ => True

instance (k : State) : (call : Call) → Decidable (Contract k call)
  | .sysCall .. => inferInstanceAs (Decidable (_ ≠ _))
  | .interrupt .. => inferInstanceAs (Decidable (_ = _))
  | .causeSig .. => inferInstanceAs (Decidable (_ = _))
  | .newmap .. => inferInstanceAs (Decidable (_ = _))
  | .exec .. => inferInstanceAs (Decidable (_ ∧ _))
  | .trace .. => inferInstanceAs (Decidable (_ ∧ _ ∧ _))
  | .endsig .. => inferInstanceAs (Decidable (_ ∧ _))
  | .unhold => .isTrue trivial
  | .sched => .isTrue trivial
  | .fork .. => .isTrue trivial
  | .xit .. => .isTrue trivial
  | .kill .. => .isTrue trivial

end Minix.Kernel
