/-
This file models the timers of the network server (`inet/clock.c`).

Timers are numbered; the fields of `timer_t` are functions of the number. What the functions of the
timers do is a parameter: they set and cancel timers, and time passes meanwhile. Of the clock task
and of the synchronous alarm task the state has the time, the alarm that is set, and whether the
message about an earlier alarm is on its way. The history counts how often each timer was set and
cancelled, and lists what was run.
-/

import Minix.Library.Cursor
import Minix.Library.Transition

namespace Minix.Inet

open Function (update)
open LinkedList (Links)

/-- The function of a timer has been called: its time and the time then. -/
structure Expiry (n : Nat) where
  timer : Fin n
  func : Nat
  ref : Int
  time : Int
  now : Int
deriving DecidableEq

/-- The static variables of `clock.c`, the fields of the timers, and the alarm. -/
structure Clock (n : Nat) where
  clckCallExpire : Bool := false
  currTime : Int := 0
  timerChain : Option (Fin n) := none
  nextTimeout : Int := 0
  timNext : Fin n → Option (Fin n) := fun _ => none
  timFunc : Fin n → Nat := fun _ => 0
  timRef : Fin n → Int := fun _ => 0
  timTime : Fin n → Int := fun _ => 0
  timActive : Fin n → Bool := fun _ => false
  uptime : Int := 0
  alarm : Option Int := none
  ringing : Bool := false
  sets : Fin n → Nat := fun _ => 0
  cancels : Fin n → Nat := fun _ => 0
  runs : List (Expiry n) := []

namespace Clock

variable {n : Nat}

/-- The chain of timers. -/
def chain (s : Clock n) : Links (Fin n) := ⟨s.timerChain, s.timNext⟩

def setChain (s : Clock n) (links : Links (Fin n)) : Clock n :=
  { s with timerChain := links.head, timNext := links.next }

/-- `get_time` asks the clock task unless the time is known. -/
def getTime (s : Clock n) : Clock n :=
  if s.currTime = 0 then { s with currTime := s.uptime } else s

/-- `set_time` -/
def setTime (s : Clock n) (tim : Int) : Clock n :=
  if s.currTime = 0 then { s with currTime := tim } else s

/-- `reset_time` -/
def resetTime (s : Clock n) : Clock n := { s with currTime := 0 }

/-- `set_timer` asks for an alarm when the first timer expires. -/
def setTimer (s : Clock n) : Clock n :=
  match s.timerChain with
  | none => s
  | some head =>
    let s := s.getTime
    let newTime := s.timTime head
    if newTime ≤ s.currTime then { s with clckCallExpire := true }
    else if s.nextTimeout = 0 ∨ newTime < s.nextTimeout then
      { s with nextTimeout := newTime, alarm := some (s.uptime + (newTime - s.currTime)) }
    else s

/-- A timer that is set is no longer set, and leaves the chain as given. -/
def deactivate (s : Clock n) (timer : Fin n) (links : Links (Fin n)) : Clock n :=
  { s.setChain links with
    timActive := update s.timActive timer false
    cancels := update s.cancels timer (s.cancels timer + 1) }

/-- `clck_fast_release` takes a timer out of the chain. It fails if the timer is not there. -/
def clckFastRelease (s : Clock n) (timer : Fin n) : Option (Clock n) :=
  if s.timActive timer = false then some s
  else
    match s.timerChain with
    | none => none
    | some head =>
      if timer = head then some (s.deactivate timer (s.chain.remove none timer))
      else
        (s.chain.seek (· == timer) (n + 1) (some head)).bind fun index =>
          if s.chain.read index = some timer then
            some (s.deactivate timer (s.chain.remove index timer))
          else none

/-- The fields of a timer that is set. -/
def activate (s : Clock n) (timer : Fin n) (timeout : Int) (func : Nat) (fd : Int) : Clock n :=
  { s with
    timNext := update s.timNext timer none
    timFunc := update s.timFunc timer func
    timRef := update s.timRef timer fd
    timTime := update s.timTime timer timeout
    timActive := update s.timActive timer true
    sets := update s.sets timer (s.sets timer + 1) }

/-- Put a timer into the chain, with the first to expire in front. -/
def enchain (s : Clock n) (timer : Fin n) (timeout : Int) : Option (Clock n) :=
  match s.timerChain with
  | none => some { s with timerChain := some timer }
  | some head =>
    if timeout < s.timTime head then some (s.setChain (s.chain.insert none timer))
    else
      (s.chain.seek (fun next => decide (timeout ≤ s.timTime next)) (n + 1) (some head)).map
        fun index => s.setChain (s.chain.insert index timer)

/-- `clck_timer` -/
def clckTimer (s : Clock n) (timer : Fin n) (timeout : Int) (func : Nat) (fd : Int) :
    Option (Clock n) :=
  (if s.timActive timer then s.clckFastRelease timer else some s).bind fun s =>
    ((s.activate timer timeout func fd).enchain timer timeout).map fun s =>
      if s.nextTimeout = 0 ∨ ∃ head ∈ s.timerChain, s.timTime head < s.nextTimeout then s.setTimer
      else s

/-- `clck_untimer` -/
def clckUntimer (s : Clock n) (timer : Fin n) : Option (Clock n) :=
  (s.clckFastRelease timer).map setTimer

/-- `clck_tick` -/
def clckTick (s : Clock n) : Clock n := { s with nextTimeout := 0 }.setTimer

/-- The first timer leaves the chain, and its function is called. -/
def expire (s : Clock n) (now : Int) (timer : Fin n) : Clock n :=
  { s with
    timActive := update s.timActive timer false
    timerChain := s.timNext timer
    runs := s.runs ++ [⟨timer, s.timFunc timer, s.timRef timer, s.timTime timer, now⟩] }

/-- The loop of `clck_expire_timers`, with what the functions do. -/
def expireTimers (call : Fin n → Clock n → Option (Clock n)) (now : Int) :
    Nat → Clock n → Option (Clock n)
  | 0, _ => none
  | turns + 1, s =>
    match s.timerChain with
    | none => some s
    | some timer =>
      if s.timTime timer ≤ now then
        (call timer (s.expire now timer)).bind (expireTimers call now turns)
      else some s

/-- `clck_expire_timers` -/
def clckExpireTimers (s : Clock n) (call : Fin n → Clock n → Option (Clock n)) (turns : Nat) :
    Option (Clock n) :=
  let s := { s with clckCallExpire := false }
  if s.timerChain = none then some s
  else
    let s := s.getTime
    (expireTimers call s.currTime turns s).map setTimer

end Clock

/-! ### The machine -/

/-- What the server does with timers while it handles an event, and what happens meanwhile: time
passes, and an alarm goes off. -/
inductive ClockAct (n : Nat)
  | timer (timer : Fin n) (timeout : Int) (func : Nat) (fd : Int)
  | untimer (timer : Fin n)
  | getTime
  | elapse (ticks : Nat)
  | ring

/-- What the main loop does: it goes on with an event, receives a message, with the time if the
Ethernet task sent it, receives an alarm message, or expires timers. -/
inductive ClockEvent (n : Nat)
  | act (act : ClockAct n)
  | receive (time : Option Int)
  | alarm
  | expire (acts : Fin n → Clock n → List (ClockAct n)) (turns : Nat)

namespace Clock

variable {n : Nat}

def act (s : Clock n) : ClockAct n → Option (Clock n)
  | .timer timer timeout func fd => s.clckTimer timer timeout func fd
  | .untimer timer => s.clckUntimer timer
  | .getTime => some s.getTime
  | .elapse ticks => some { s with uptime := s.uptime + ticks }
  | .ring =>
    some (match s.alarm with
      | none => s
      | some time => if time ≤ s.uptime then { s with alarm := none, ringing := true } else s)

/-- The functions of the timers. -/
def calls (acts : Fin n → Clock n → List (ClockAct n)) (timer : Fin n) (s : Clock n) :
    Option (Clock n) :=
  (acts timer s).foldlM act s

def step (s : Clock n) : ClockEvent n → Option (Clock n)
  | .act act => s.act act
  | .receive time => some (time.elim s.resetTime s.resetTime.setTime)
  | .alarm => some { s.resetTime with ringing := false }.clckTick
  | .expire acts turns => s.clckExpireTimers (calls acts) turns

/-- The Ethernet task sends the time at which it replies. -/
def Allowed (s : Clock n) : ClockEvent n → Prop
  | .receive time => ∀ tim ∈ time, 0 ≤ tim ∧ tim ≤ s.uptime
  | _ => True

instance (s : Clock n) : ∀ event, Decidable (s.Allowed event)
  | .receive time => inferInstanceAs (Decidable (∀ tim ∈ time, 0 ≤ tim ∧ tim ≤ s.uptime))
  | .act _ | .alarm | .expire _ _ => .isTrue trivial

end Clock

end Minix.Inet
