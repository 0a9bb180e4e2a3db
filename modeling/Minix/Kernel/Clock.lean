/-
This file models the timers of the clock task (`kernel/clock.c`): `tmr_settimer`, `tmr_clrtimer`,
`tmr_exptimers` and the part of `do_clocktick` that has to do with timers.

Timers are numbered; the fields of `timer_t` are functions of the number, and pointers to timers are
optional numbers. What a function that a timer runs does is a parameter. A task that runs such a
function may be blocked in it while others go on, so that the machine at the end takes the turns of
the loop in `tmr_exptimers` as steps of their own; what the function does to timers are further
steps. The history counts how often each timer was set and cancelled, and lists what was run.
-/

import Minix.Kernel.Proc
import Minix.Library.Cursor
import Minix.Library.Transition

namespace Minix.Kernel

open Function (update)
open LinkedList (Links)

/-! ### Timers -/

/-- `CLOCK`, process number -3. -/
def clock : Slot := ⟨7, by decide⟩

/-- `TMR_NEVER`: the timer is not active. -/
def tmrNever : Int := 2147483647

/-- The function of a timer has been run: the expiry time and the time then. -/
structure Expiry (n : Nat) where
  timer : Fin n
  func : Nat
  expTime : Int
  time : Int
  deriving DecidableEq

/-- Which timers are set, how often each was set and was cancelled while it was, and what was
run. -/
structure TimerHistory (n : Nat) where
  armed : Fin n → Bool := fun _ => false
  sets : Fin n → Nat := fun _ => 0
  cancels : Fin n → Nat := fun _ => 0
  runs : List (Expiry n) := []

/-- The variables of the clock task, the fields of the timers, and `p_exptimers`. `interrupts` are
the tasks that were alerted. -/
structure Clock (n : Nat) where
  realtime : Int := 0
  timers : Option (Fin n) := none
  nextTimer : Int := 0
  pExptimers : Slot → Option (Fin n) := fun _ => none
  tmrNext : Fin n → Option (Fin n) := fun _ => none
  tmrTask : Fin n → Slot := fun _ => mm
  tmrExpTime : Fin n → Int := fun _ => 0
  tmrFunc : Fin n → Nat := fun _ => 0
  interrupts : List Slot := []
  history : TimerHistory n := {}

variable {n : Nat}

namespace Clock

/-- The list of active timers. -/
def active (s : Clock n) : Links (Fin n) := ⟨s.timers, s.tmrNext⟩

def setActive (s : Clock n) (links : Links (Fin n)) : Clock n :=
  { s with timers := links.head, tmrNext := links.next }

/-- The list of expired timers of a task. -/
def expired (s : Clock n) (p : Slot) : Links (Fin n) := ⟨s.pExptimers p, s.tmrNext⟩

def setExpired (s : Clock n) (p : Slot) (links : Links (Fin n)) : Clock n :=
  { s with pExptimers := update s.pExptimers p links.head, tmrNext := links.next }

/-- A timer is deactivated; that cancels it if it is set. -/
def disarm (s : Clock n) (tp : Fin n) : Clock n :=
  { s with
    tmrExpTime := update s.tmrExpTime tp tmrNever
    history := { s.history with
      armed := update s.history.armed tp false
      cancels := update s.history.cancels tp
        (s.history.cancels tp + if s.history.armed tp then 1 else 0) } }

/-- The fields of a timer that is set. -/
def arm (s : Clock n) (tp : Fin n) (task : Slot) (expTime : Int) (func : Nat) : Clock n :=
  { s with
    tmrTask := update s.tmrTask tp task
    tmrExpTime := update s.tmrExpTime tp expTime
    tmrFunc := update s.tmrFunc tp func
    history := { s.history with
      armed := update s.history.armed tp true
      sets := update s.history.sets tp (s.history.sets tp + 1) } }

end Clock

/-- Deactivate a timer by removing it from the active and expired lists. -/
def tmrClrtimer (s : Clock n) (tp : Fin n) : Option (Clock n) :=
  let s := s.disarm tp
  (s.active.seek (· == tp) (n + 1) none).bind fun atp =>
    if s.active.read atp = some tp then some (s.setActive (s.active.remove atp tp))
    else
      let p := s.tmrTask tp
      ((s.expired p).seek (· == tp) (n + 1) none).map fun atp =>
        if (s.expired p).read atp = some tp then s.setExpired p ((s.expired p).remove atp tp) else s

/-- Activate a timer to run a function at the given time. It is put into the list of active timers
with the first to expire in front. -/
def tmrSettimer (s : Clock n) (tp : Fin n) (task : Slot) (expTime : Int) (func : Nat) :
    Option (Clock n) :=
  (if s.tmrExpTime tp ≠ tmrNever then tmrClrtimer s tp else some s).bind fun s =>
    let s := s.arm tp task expTime func
    (s.active.seek (fun other => decide (expTime < s.tmrExpTime other)) (n + 1) none).map fun atp =>
      let s := s.setActive (s.active.insert atp tp)
      -- the new timer may be the first
      { s with nextTimer := s.timers.elim s.nextTimer s.tmrExpTime }

/-! ### Expiry -/

/-- Move a timer from the front of the active list to the expired timers of its task, and alert the
task. -/
def moveTimer (s : Clock n) (tp : Fin n) : Clock n :=
  let p := s.tmrTask tp
  let s := if s.pExptimers p = none ∧ p ≠ clock then { s with interrupts := s.interrupts ++ [p] }
    else s
  { s with
    timers := s.tmrNext tp
    tmrNext := update s.tmrNext tp (s.pExptimers p)
    pExptimers := update s.pExptimers p (some tp) }

/-- Move the timers that have expired. -/
def moveExpired : Nat → Clock n → Option (Clock n)
  | 0, _ => none
  | fuel + 1, s =>
    match s.timers with
    | none => some s
    | some tp =>
      if s.tmrExpTime tp ≤ s.realtime then moveExpired fuel (moveTimer s tp) else some s

/-- The part of `do_clocktick` up to the clock's own timers. -/
def checkTimers (s : Clock n) : Option (Clock n) :=
  if s.nextTimer ≤ s.realtime then
    (moveExpired (n + 1) s).map fun s =>
      { s with nextTimer := s.timers.elim tmrNever s.tmrExpTime }
  else some s

/-- Take the first expired timer of a task, deactivate it and run its function. -/
def Clock.expire (s : Clock n) (p : Slot) (tp : Fin n) : Clock n :=
  { s with
    pExptimers := update s.pExptimers p (s.tmrNext tp)
    tmrExpTime := update s.tmrExpTime tp tmrNever
    history := { s.history with
      armed := update s.history.armed tp false
      runs := s.history.runs ++ [⟨tp, s.tmrFunc tp, s.tmrExpTime tp, s.realtime⟩] } }

/-- One turn of the loop in `tmr_exptimers`. -/
def expireTimer (s : Clock n) (p : Slot) : Option (Fin n × Clock n) :=
  (s.pExptimers p).map fun tp => (tp, s.expire p tp)

/-- Run the functions of the timers of a task that have expired, and deactivate the timers.
`watchdog` is what the function of a timer does to the timers. -/
def tmrExptimers (watchdog : Fin n → Clock n → Option (Clock n)) (p : Slot) :
    Nat → Clock n → Option (Clock n)
  | 0, _ => none
  | fuel + 1, s =>
    match expireTimer s p with
    | none => some s
    | some (tp, s) => (watchdog tp s).bind (tmrExptimers watchdog p fuel)

/-- `do_clocktick` without the scheduling, which has nothing to do with timers. -/
def doClocktick (watchdog : Fin n → Clock n → Option (Clock n)) (s : Clock n) : Option (Clock n) :=
  if s.nextTimer ≤ s.realtime then
    (checkTimers s).bind (tmrExptimers watchdog clock (n + 1))
  else some s

/-! ### The machine -/

/-- The calls of the clock task and of the tasks that use timers. With a clock tick the clock task
transfers the pending ticks. -/
inductive TimerCall (n : Nat)
  | settimer (tp : Fin n) (task : Slot) (expTime : Int) (func : Nat)
  | clrtimer (tp : Fin n)
  | clocktick (pendingTicks : Nat)
  | exptimer (p : Slot)

def timerStep (s : Clock n) : TimerCall n → Option (Clock n)
  | .settimer tp task expTime func => tmrSettimer s tp task expTime func
  | .clrtimer tp => tmrClrtimer s tp
  | .clocktick pendingTicks => checkTimers { s with realtime := s.realtime + pendingTicks }
  | .exptimer p => some ((expireTimer s p).elim s Prod.snd)

/-- A timer is not set to the time that stands for no time. -/
def Timed : TimerCall n → Prop
  | .settimer _ _ expTime _ => expTime ≠ tmrNever
  | _ => True

instance (call : TimerCall n) : Decidable (Timed call) := by
  unfold Timed
  split <;> infer_instance

end Minix.Kernel
