/-
This file holds the kernel's process table (`kernel/proc.h`), the ready queues and the other
globals that message passing and scheduling read and write.

A process is named by its slot in `proc[]`; `procNumber` and `procAddr` are the two macros
that translate between slots and process numbers. Pointers into the table are optional
slots. The table fields kept are the ones that decide who may run and who waits for whom;
registers, accounting, names and segment descriptors are left out.
-/

import Minix.Library.LinkedList
import Minix.Library.Rendezvous
import Mathlib.Algebra.Order.Group.Nat

namespace Minix.Kernel

/-! ### Process numbers -/

/-- Number of kernel tasks in the process table. -/
abbrev nrTasks : Nat := 10

/-- Number of other process slots (`minix/config.h`). -/
abbrev nrProcs : Nat := 32

/-- An entry of `proc[NR_TASKS + NR_PROCS]`. -/
abbrev Slot := Fin (nrTasks + nrProcs)

/-- The magic, invalid process number with which `receive` accepts any source. -/
def any : Int := 0x7ace

/-- `proc_number`. -/
def procNumber (p : Slot) : Int := (p.val : Int) - nrTasks

/-- `isokprocn`. -/
def isokprocn (n : Int) : Bool := 0 ≤ n + nrTasks && n + nrTasks < nrTasks + nrProcs

/-- `isoksrc_dest`. -/
def isoksrcDest (n : Int) : Bool := isokprocn n || n == any

/-- `proc_addr`; outside the table there is no entry. -/
def procAddr (n : Int) : Option Slot :=
  if inRange : (n + nrTasks).toNat < nrTasks + nrProcs ∧ 0 ≤ n + nrTasks then
    some ⟨(n + nrTasks).toNat, inRange.1⟩
  else none

/-- `TTY`, process number -10, the first task. -/
def tty : Slot := ⟨0, by decide⟩

/-- `IDLE`, process number -6. -/
def idle : Slot := ⟨4, by decide⟩

/-- `SYSTASK`, process number -2. -/
def systask : Slot := ⟨8, by decide⟩

/-- `HARDWARE`, process number -1. -/
def hardware : Slot := ⟨9, by decide⟩

/-- `MM_PROC_NR`, process number 0. -/
def mm : Slot := ⟨10, by decide⟩

/-- `FS_PROC_NR`, process number 1. -/
def fs : Slot := ⟨11, by decide⟩

/-- `INIT_PROC_NR`, process number 2, which is also `LOW_USER`. -/
def init : Slot := ⟨12, by decide⟩

/-- `isrxhardware`. -/
def isrxhardware (n : Int) : Bool := n == any || n == procNumber hardware

/-- `issysentn`. -/
def issysentn (n : Int) : Bool := n == procNumber fs || n == procNumber mm

theorem procNumber_injective : Function.Injective procNumber := by
  intro p q same
  simp only [procNumber] at same
  exact Fin.ext (by omega)

theorem procAddr_eq_some {n : Int} {p : Slot} : procAddr n = some p ↔ n = procNumber p := by
  have below := p.isLt
  simp only [procAddr, procNumber]
  constructor
  · intro inTable
    split at inTable
    case isTrue inRange =>
      obtain rfl := Option.some.inj inTable
      simp only
      omega
    case isFalse => cases inTable
  · rintro rfl
    rw [dif_pos (by omega)]
    exact congrArg some (Fin.ext (by simp))

theorem eq_mm_or_fs {p : Slot} (sysent : issysentn (procNumber p) = true) : p = mm ∨ p = fs := by
  simp only [issysentn, Bool.or_eq_true, beq_iff_eq] at sysent
  exact sysent.symm.imp (fun same => procNumber_injective same) fun same =>
    procNumber_injective same

theorem procNumber_ne_any (p : Slot) : procNumber p ≠ any := by
  have below : p.val < 42 := p.isLt
  simp only [procNumber, any, nrTasks]
  omega

/-! ### Memory maps

Both the kernel and MM keep the map of a process. All numbers are words that count clicks. -/

/-- `CLICK_SIZE` -/
def clickSize : Nat := 1024

/-- `struct mem_map` -/
structure MemSeg where
  vir : Nat := 0
  phys : Nat := 0
  len : Nat := 0
deriving DecidableEq

/-- A segment: `T`, `D` or `S`. -/
inductive Seg
  | text
  | data
  | stack
deriving DecidableEq

/-- The maps of the three segments of a process. -/
structure SegMap where
  text : MemSeg := {}
  data : MemSeg := {}
  stack : MemSeg := {}
deriving DecidableEq

/-- The entry of a segment. -/
def SegMap.entry (map : SegMap) : Seg → MemSeg
  | .text => map.text
  | .data => map.data
  | .stack => map.stack

/-- How the segments of a process lie. The stack is behind the data segment, with a gap between
them, and as far behind it in memory as in the address space of the process; every segment ends
within the 4 gigabytes that a word addresses. -/
structure SegMap.Layout (map : SegMap) : Prop where
  apart : map.data.vir + map.data.len ≤ map.stack.vir
  level : map.stack.phys + map.data.vir = map.data.phys + map.stack.vir
  virFits : map.stack.vir + map.stack.len ≤ 2 ^ 22
  physFits : map.stack.phys + map.stack.len ≤ 2 ^ 22
  textVirFits : map.text.vir + map.text.len ≤ 2 ^ 22
  textPhysFits : map.text.phys + map.text.len ≤ 2 ^ 22

/-! ### The process table -/

/-- The bits of `p_flags`. -/
structure Flags where
  /-- Keeps an unmapped forked child from running. -/
  noMap : Bool := false
  /-- Set when the process is blocked trying to send. -/
  sending : Bool := false
  /-- Set when the process is blocked trying to receive. -/
  receiving : Bool := false
  /-- Set until `inform` has told MM of a pending signal. -/
  pending : Bool := false
  /-- Keeps a process that is to be signalled from running. -/
  sigPending : Bool := false
  /-- Set when the process is being traced. -/
  pStop : Bool := false
deriving DecidableEq, Repr

/-- `p_flags == 0`: the process is runnable. -/
def Flags.clear (flags : Flags) : Bool := flags == {}

/-- The values of `p_priority`. -/
inductive Priority
  | none
  | task
  | server
  | user
  | idle
deriving DecidableEq, Repr

/-- The entries of `p_map` that the address check of `mini_send` reads: the virtual start of
the data segment and the extent of the stack segment, in clicks. -/
structure MemMap where
  dataVir : UInt32 := 0
  stackVir : UInt32 := 0
  stackLen : UInt32 := 0
deriving DecidableEq

/-- A process table entry. -/
structure Proc where
  /-- An interrupt message is blocked because the task was busy. -/
  pIntBlocked : Bool := false
  /-- An interrupt message is held because a system call was busy. -/
  pIntHeld : Bool := false
  pFlags : Flags := {}
  pMap : MemMap := {}
  pPriority : Priority := .none
  /-- Head of the list of processes wishing to send to this one. -/
  pCallerq : Option Slot := none
  /-- Link to the next process wishing to send. -/
  pSendlink : Option Slot := none
  /-- Address of the message buffer. -/
  pMessbuf : UInt32 := 0
  /-- From whom the process wants to receive. -/
  pGetfrom : Int := 0
  /-- To whom the process is sending; `mini_send` stores only numbers that have a slot. -/
  pSendto : Slot := mm
  /-- The next ready process. -/
  pNextready : Option Slot := none
  /-- The pending signals. -/
  pPending : Finset Nat := ∅
  /-- The number of pending and unfinished signals. -/
  pPendcount : Nat := 0

/-- The scheduling queues `TASK_Q`, `SERVER_Q` and `USER_Q`. -/
inductive Queue
  | task
  | server
  | user
deriving DecidableEq, Repr

/-- The queue on which `ready` and `unready` work: tasks and servers have their own, all
others use the user queue. -/
def queueOf : Priority → Queue
  | .task => .task
  | .server => .server
  | _ => .user

/-- What message passing has done: `delivered` is a `CopyMess` by `mini_send`, `blocked` a
sender queued by `mini_send`, `received` a `CopyMess` by `mini_rec` from a queued sender,
`notified` a HARD_INT that `interrupt` or `mini_rec` writes into the buffer of a task, `forked` a
`do_fork` and `exited` a `do_xit`. Buffers are addresses, a filter is the source
that a RECEIVE names. -/
abbrev Event := Rendezvous.Event Slot UInt32 Int

/-- The kernel state. -/
structure State where
  proc : Slot → Proc := fun _ => {}
  procPtr : Slot := idle
  billPtr : Slot := idle
  rdyHead : Queue → Option Slot := fun _ => none
  rdyTail : Queue → Option Slot := fun _ => none
  /-- The list from `held_head` to `held_tail`. -/
  held : List Slot := []
  sigProcs : Int := 0
  /-- Address of the message `m` that `inform` sends. -/
  sysMessage : UInt32 := 0
  /-- The KSIG messages that `inform` has sent, oldest first: `SIG_PROC` and `SIG_MAP`. It only
  records; no operation reads it. -/
  ksigs : List (Slot × Finset Nat) := []
  /-- The events so far, oldest first. It only records; no operation reads it. -/
  history : List Event := []

namespace State

variable (k : State) (p q : Slot) (change : Proc → Proc)

/-- `isemptyp`. -/
def isemptyp : Bool := (k.proc p).pPriority == .none

/-- `istaskp`. -/
def istaskp : Bool := (k.proc p).pPriority == .task

/-- `isuserp`. -/
def isuserp : Bool := (k.proc p).pPriority == .user

theorem isuserp_iff : k.isuserp p = true ↔ (k.proc p).pPriority = .user := by simp [isuserp]

theorem isemptyp_iff : k.isemptyp p = true ↔ (k.proc p).pPriority = .none := by simp [isemptyp]

/-- Change one table entry. -/
def modify : State := { k with proc := Function.update k.proc p (change (k.proc p)) }

/-- Record events. -/
def emit (events : List Event) : State := { k with history := k.history ++ events }

/-- The links of the ready queues. -/
def nextready (p : Slot) : Option Slot := (k.proc p).pNextready

/-- The links of the caller queues. -/
def sendlink (p : Slot) : Option Slot := (k.proc p).pSendlink

/-- The heads of the caller queues. -/
def callerq (p : Slot) : Option Slot := (k.proc p).pCallerq

@[simp] theorem modify_proc (q : Slot) :
    (k.modify p change).proc q = if q = p then change (k.proc p) else k.proc q := by
  simp only [modify, Function.update_apply]

/-- Changing an entry keeps every column of the table that the change keeps. -/
theorem modify_update {Value : Type} (column : Proc → Value) :
    (fun q => column ((k.modify p change).proc q)) =
      Function.update (fun q => column (k.proc q)) p (column (change (k.proc p))) := by
  funext q
  by_cases same : q = p
  · subst same
    simp
  · simp [same]

theorem modify_column {Value : Type} (column : Proc → Value)
    (kept : column (change (k.proc p)) = column (k.proc p)) :
    (fun q => column ((k.modify p change).proc q)) = fun q => column (k.proc q) := by
  rw [modify_update, kept, Function.update_eq_self]

def setFlags (change : Flags → Flags) : State :=
  k.modify p fun entry => { entry with pFlags := change entry.pFlags }

def setNextready (next : Option Slot) : State :=
  k.modify p fun entry => { entry with pNextready := next }

def setSendlink (next : Option Slot) : State :=
  k.modify p fun entry => { entry with pSendlink := next }

def setCallerq (head : Option Slot) : State :=
  k.modify p fun entry => { entry with pCallerq := head }

end State

end Minix.Kernel
