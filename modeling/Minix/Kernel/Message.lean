/-
This file models message passing (`kernel/proc.c`): `sys_call`, `mini_send`, `mini_rec` and
`interrupt`, together with `inform` and `cause_sig` (`kernel/system.c`), through which the
kernel sends messages of its own to MM.

A step that the code never completes is `none`: a walk along links that do not end, an access
outside the process table, or a panic. `CopyMess` and the queueing of a sender are recorded
in the history; the bytes of a message are not modelled.
-/

import Minix.Kernel.Sched

namespace Minix.Kernel

open LinkedList

/-! ### Results -/

/-- The results of kernel calls. -/
inductive Result
  | ok
  | eBadDest
  | eNoPerm
  | eFault
  | eLocked
  | eBadProc
  | eIo
deriving DecidableEq, Repr

/-- The function codes of `sys_call`. -/
inductive SysFunction
  | send
  | receive
  | both
deriving DecidableEq, Repr

/-! ### `mini_send` -/

/-- `CLICK_SHIFT`. -/
def clickShift : UInt32 := 10

/-- `MESS_SIZE`. -/
def messSize : UInt32 := 36

/-- The check that a message lies in the data segment, the stack segment or the gap. -/
def messageFits (map : MemMap) (mPtr : UInt32) : Bool :=
  let vlo := mPtr >>> clickShift
  let vhi := (mPtr + messSize - 1) >>> clickShift
  !(vlo < map.dataVir || vlo > vhi || map.stackVir + map.stackLen ≤ vhi)

/-- The process a SENDING process waits for: the pointer the deadlock check follows. -/
def State.waitsFor (k : State) (p : Slot) : Option Slot :=
  if (k.proc p).pFlags.sending then some (k.proc p).pSendto else none

/-- The deadlock check of `mini_send`: does a chain of senders lead from `dest` to the caller? -/
def deadlock (k : State) (caller dest : Slot) : Option Bool :=
  (scan k.waitsFor (· == caller) tableSize none (k.waitsFor dest)).map Option.isSome

/-- Is the process blocked waiting for a message from `source`? -/
def State.isWaitingFor (k : State) (p source : Slot) : Bool :=
  (k.proc p).pFlags.receiving && !(k.proc p).pFlags.sending &&
    ((k.proc p).pGetfrom == any || (k.proc p).pGetfrom == procNumber source)

/-- The destination is waiting: copy the message and deblock the destination. -/
def deliver (k : State) (caller dest : Slot) (mPtr : UInt32) : Option State :=
  let k := k.emit [.delivered caller dest mPtr (k.proc dest).pMessbuf]
  let k := k.setFlags dest fun flags => { flags with receiving := false }
  readyIfClear k dest

/-- Put the caller at the end of the destination's queue. -/
def appendCaller (k : State) (caller dest : Slot) : Option State := do
  let linked ← match k.callerq dest with
    | none => some (k.setCallerq dest (some caller))
    | some first => do
      let last ← scan k.sendlink (fun p => (k.sendlink p).isNone) tableSize none (some first)
      last.map fun last => k.setSendlink last.2 (some caller)
  some (linked.setSendlink caller none)

/-- The destination is not waiting: block the caller and queue it. -/
def blockSender (k : State) (caller dest : Slot) (mPtr : UInt32) : Option State := do
  let k := k.modify caller fun entry => { entry with pMessbuf := mPtr }
  let k ← unreadyIfClear k caller
  let k := k.modify caller fun entry =>
    { entry with pFlags := { entry.pFlags with sending := true }, pSendto := dest }
  let k ← appendCaller k caller dest
  some (k.emit [.blocked caller dest mPtr])

/-- Send a message from the caller to `dest`. -/
def miniSend (k : State) (caller : Slot) (dest : Int) (mPtr : UInt32) :
    Option (State × Result) :=
  if k.isuserp caller && !issysentn dest then some (k, .eBadDest)
  else do
    let destPtr ← procAddr dest
    if k.isemptyp destPtr then some (k, .eBadDest)
    else if !messageFits (k.proc caller).pMap mPtr then some (k, .eFault)
    else do
      let locked ← deadlock k caller destPtr
      if locked then some (k, .eLocked)
      else if k.isWaitingFor destPtr caller then do
        some (← deliver k caller destPtr mPtr, .ok)
      else do
        some (← blockSender k caller destPtr mPtr, .ok)

/-! ### Signals -/

/-- Tell MM about one process with pending signals. MM must be waiting for a message; a send
that fails is a panic. -/
def inform (k : State) : Option State :=
  match (List.finRange _).find? fun p : Slot =>
      decide (nrTasks ≤ p.val) && (k.proc p).pFlags.pending with
  | none => some k
  | some rp => do
    let k := { k with
      sigProcs := k.sigProcs - 1
      ksigs := k.ksigs ++ [(rp, (k.proc rp).pPending)] }
    let (k, result) ← miniSend k hardware (procNumber mm) k.sysMessage
    if result ≠ .ok then none
    else
      let k := k.modify rp fun entry =>
        { entry with pPending := ∅, pFlags := { entry.pFlags with pending := false } }
      some (pickProc k)

/-- Cause a signal to occur, sooner or later. -/
def causeSig (k : State) (p : Slot) (sigNr : Nat) : Option State :=
  if sigNr ∈ (k.proc p).pPending then some k
  else
    let k := k.modify p fun entry =>
      { entry with pPending := insert sigNr entry.pPending, pPendcount := entry.pPendcount + 1 }
    if (k.proc p).pFlags.pending then some k
    else do
      let k ← unreadyIfClear k p
      let k := k.setFlags p fun flags => { flags with pending := true, sigPending := true }
      let k := { k with sigProcs := k.sigProcs + 1 }
      if !(k.proc mm).pFlags.receiving || (k.proc mm).pGetfrom != any then some k
      else inform k

/-! ### `mini_rec` -/

/-- Does a RECEIVE with this source accept a message from `p`? -/
def accepts (src : Int) (p : Slot) : Bool := src == any || src == procNumber p

/-- Take a queued sender off the caller's queue; `previous` is the sender in front of it. -/
def unlinkFrom (k : State) (caller : Slot) (previous : Option Slot) (sender : Slot) : State :=
  if k.callerq caller = some sender then k.setCallerq caller (k.sendlink sender)
  else
    match previous with
    | some previous => k.setSendlink previous (k.sendlink sender)
    | none => k

/-- An acceptable message has been found: copy it, unlink its sender and deblock it. -/
def takeSender (k : State) (caller : Slot) (src : Int) (mPtr : UInt32)
    (previous : Option Slot) (sender : Slot) : Option State :=
  let k := k.emit [.received sender caller src (k.proc sender).pMessbuf mPtr]
  let k := unlinkFrom k caller previous sender
  let k := k.setFlags sender fun flags => { flags with sending := false }
  readyIfClear k sender

/-- No suitable message is available: block the process trying to receive. -/
def blockReceiver (k : State) (caller : Slot) (src : Int) (mPtr : UInt32) : Option State := do
  let k := k.modify caller fun entry => { entry with pGetfrom := src, pMessbuf := mPtr }
  let k ← unreadyIfClear k caller
  let k := k.setFlags caller fun flags => { flags with receiving := true }
  if 0 < k.sigProcs ∧ caller = mm ∧ src = any then inform k else some k

/-- A process or task wants to get a message. -/
def miniRec (k : State) (caller : Slot) (src : Int) (mPtr : UInt32) : Option State :=
  if (k.proc caller).pFlags.sending then blockReceiver k caller src mPtr
  else
    match scan k.sendlink (accepts src) tableSize none (k.callerq caller) with
    | none => none
    | some (some (previous, sender)) => takeSender k caller src mPtr previous sender
    | some none =>
      if (k.proc caller).pIntBlocked && isrxhardware src then
        let k := k.emit [.notified caller]
        some (k.modify caller fun entry => { entry with pIntBlocked := false })
      else blockReceiver k caller src mPtr

/-! ### `sys_call` and `interrupt` -/

/-- The system calls: the running process sends or receives a message, or both. -/
def sysCall (k : State) (function : SysFunction) (srcDest : Int) (mPtr : UInt32) :
    Option (State × Result) :=
  if !isoksrcDest srcDest then some (k, .eBadDest)
  else
    let rp := k.procPtr
    if k.isuserp rp && function != .both then some (k, .eNoPerm)
    else if function = .receive then do
      some (← miniRec k rp srcDest mPtr, .ok)
    else do
      let (k, result) ← miniSend k rp srcDest mPtr
      if function = .send ∨ result ≠ .ok then some (k, result)
      else do
        some (← miniRec k rp srcDest mPtr, .ok)

/-- An interrupt has occurred: schedule the task that handles it. A competing interrupt is
held until the next `unhold`. -/
def interrupt (k : State) (rp : Slot) (competing : Bool) : Option State :=
  if competing then
    if (k.proc rp).pIntHeld then some k
    else
      let k := k.modify rp fun entry => { entry with pIntHeld := true }
      some { k with held := k.held ++ [rp] }
  else if !((k.proc rp).pFlags.receiving && !(k.proc rp).pFlags.sending) ||
      !isrxhardware (k.proc rp).pGetfrom then
    some (k.modify rp fun entry => { entry with pIntBlocked := true })
  else
    let k := k.emit [.notified rp]
    let k := k.modify rp fun entry =>
      { entry with pFlags := { entry.pFlags with receiving := false }, pIntBlocked := false }
    ready k rp

/-- One round of the loop of `unhold`; other interrupts may come between two rounds. -/
def unhold (k : State) : Option State :=
  match k.held with
  | [] => some k
  | rp :: rest =>
    let k := { k with held := rest }
    let k := k.modify rp fun entry => { entry with pIntHeld := false }
    interrupt k rp false

end Minix.Kernel
