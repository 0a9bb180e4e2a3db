/-
This file models alarms: `set_alarm` of MM (`mm/signal.c`) and `do_setalarm` of the clock task, with
the 32 bit arithmetic of both. MM's flag `ALARM_ON` is left out.

An alarm is never early, and the time that was left on the last one is rounded up, as long as the
sums fit in a `long`; the file says exactly when (`alarm_on_time_iff`). The limit that `set_alarm`
puts on the ticks does not help, because the uptime is added to it afterwards.
-/

import Minix.Kernel.Timers

namespace Minix.Kernel

open Function (update update_of_ne update_self update_idem)
open Option (some.inj map_eq_some_iff)
open Transition (Run)

variable {n : Nat} {s : Clock n} {tp : Fin n}

/-! ### The calls -/

/-- `HZ` -/
def hz : Int := 60

/-- `LONG_MAX`, which is `INT_MAX` too. -/
def longMax : Int := 2147483647

/-- What is left of a result in a `long`. -/
def long (x : Int) : Int := x.bmod 4294967296

/-- The code for `cause_alarm`. -/
def causeAlarm : Nat := 1

/-- The number of seconds left on a timer, as `do_setalarm` computes it. -/
def secondsLeft (s : Clock n) (tp : Fin n) : Int :=
  if s.tmrExpTime tp ≤ s.realtime ∨ s.tmrExpTime tp = tmrNever then 0
  else (long (s.tmrExpTime tp - s.realtime + (hz - 1))).tdiv hz

/-- A process requests an alarm. `pendingTicks` is what `get_uptime` adds to `realtime`. -/
def doSetalarm (s : Clock n) (tp : Fin n) (deltaTicks : Int) (pendingTicks : Nat) (handler : Slot)
    (function : Nat) : Option (Clock n × Int) :=
  (if deltaTicks = 0 then tmrClrtimer s tp
    else tmrSettimer s tp handler (long (s.realtime + pendingTicks + deltaTicks)) function).map
    fun after => (after, secondsLeft s tp)

/-- The `DELTA_TICKS` of the message. -/
def deltaTicks (sec : UInt32) : Int :=
  let ticks := 60 * sec
  if ticks / 60 ≠ sec then longMax else ticks.toInt32.toInt

/-- The ticks that have been pending when the clock task gets a message. -/
def Clock.tick (s : Clock n) (ticks : Nat) : Clock n := { s with realtime := s.realtime + ticks }

/-- Set the alarm timer of a process, and return the seconds that were left on it. The clock task
finds `ticks` that are pending, and `pendingTicks` more come before it asks for the uptime. -/
def setAlarm (s : Clock n) (tp : Fin n) (sec : UInt32) (ticks pendingTicks : Nat) :
    Option (Clock n × Int) :=
  (doSetalarm (s.tick ticks) tp (deltaTicks sec) pendingTicks clock causeAlarm).map
    fun result => (result.1, if result.2 < 0 then longMax else result.2)

/-! ### The arithmetic -/

theorem long_of_fits {x : Int} (low : -2147483648 ≤ x) (high : x ≤ 2147483647) : long x = x :=
  Int.bmod_eq_of_le low (by omega)

theorem long_of_above {x : Int} (low : 2147483648 ≤ x) (high : x ≤ 4294967295) :
    long x = x - 4294967296 := by
  rw [long, Int.bmod_def, Int.emod_eq_of_lt (by omega) (by omega), if_neg (by omega)]
  rfl

/-- The conversion to ticks wraps around to a negative number, and is limited only when it
overflows the unsigned number. -/
theorem deltaTicks_eq (sec : UInt32) :
    deltaTicks sec =
      if 60 * (sec.toNat : Int) < 2147483648 then 60 * (sec.toNat : Int)
      else if 60 * (sec.toNat : Int) < 4294967296 then 60 * (sec.toNat : Int) - 4294967296
      else longMax := by
  have bound := sec.toNat_lt
  have ticks : (60 * sec).toNat = 60 * sec.toNat % 4294967296 := UInt32.toNat_mul 60 sec
  have same : 60 * sec / 60 ≠ sec ↔ 4294967296 ≤ 60 * sec.toNat := by
    rw [Ne, ← UInt32.toNat_inj, UInt32.toNat_div, ticks, show (60 : UInt32).toNat = 60 from rfl]
    omega
  have value : (60 * sec).toInt32.toInt = long ((60 * sec).toNat : Int) :=
    BitVec.toInt_eq_toNat_bmod (60 * sec).toBitVec
  unfold deltaTicks
  dsimp only
  rw [value, ticks]
  by_cases large : 4294967296 ≤ 60 * sec.toNat
  · rw [if_pos (same.mpr large), if_neg (by omega), if_neg (by omega)]
  · rw [if_neg (mt same.mp large), Nat.mod_eq_of_lt (by omega), Int.natCast_mul]
    by_cases fits : 60 * (sec.toNat : Int) < 2147483648
    · rw [if_pos fits]
      exact long_of_fits (by omega) (by omega)
    · rw [if_neg fits, if_pos (by omega)]
      exact long_of_above (by omega) (by omega)

/-- The expiry time of an alarm: in a call that is on time there is no overflow, or the limit is
added to no uptime. -/
theorem long_deltaTicks_iff {uptime : Int} {sec : UInt32} (positive : sec ≠ 0) (low : 0 ≤ uptime)
    (high : uptime ≤ longMax) :
    min (uptime + 60 * (sec.toNat : Int)) longMax ≤ long (uptime + deltaTicks sec) ↔
      uptime + 60 * (sec.toNat : Int) ≤ longMax ∨
        uptime = 0 ∧ 4294967296 ≤ 60 * (sec.toNat : Int) := by
  have some : 0 < sec.toNat := Nat.pos_of_ne_zero fun zero => positive (UInt32.toNat_inj.mp zero)
  rw [deltaTicks_eq]
  unfold longMax at *
  split
  case isTrue small =>
    by_cases fits : uptime + 60 * (sec.toNat : Int) ≤ 2147483647
    · rw [long_of_fits (by omega) fits]
      omega
    · rw [long_of_above (by omega) (by omega)]
      omega
  case isFalse large =>
    split
    case isTrue small =>
      rw [long_of_fits (by omega) (by omega)]
      omega
    case isFalse huge =>
      by_cases fits : uptime = 0
      · rw [fits, long_of_fits (by omega) (by omega)]
        omega
      · rw [long_of_above (by omega) (by omega)]
        omega

/-! ### The fields of the timers -/

/-- A time that a timer is set to is a `clock_t`. -/
def Representable : TimerCall n → Prop
  | .settimer _ _ expTime _ => -2147483648 ≤ expTime ∧ expTime ≤ longMax
  | _ => True

instance : ∀ call : TimerCall n, Decidable (Representable call)
  | .settimer .. => inferInstanceAs (Decidable (_ ∧ _))
  | .clrtimer _ | .clocktick _ | .exptimer _ => .isTrue trivial

/-- The times are of type `clock_t`, and a timer that is not set has no time to come. -/
structure Clock.Timely (s : Clock n) : Prop where
  realtime : 0 ≤ s.realtime
  low : ∀ tp, -2147483648 ≤ s.tmrExpTime tp
  high : ∀ tp, s.tmrExpTime tp ≤ longMax
  idle : ∀ tp, s.history.armed tp = false → s.tmrExpTime tp = tmrNever ∨ s.tmrExpTime tp ≤ s.realtime

section Fields

variable {s s' : Clock n} {tp other : Fin n} {task : Slot} {expTime : Int} {func : Nat}

/-- The fields that the timers' lists have nothing to do with. -/
structure Clock.Agrees (s s' : Clock n) : Prop where
  realtime : s'.realtime = s.realtime
  tmrExpTime : s'.tmrExpTime = s.tmrExpTime
  armed : s'.history.armed = s.history.armed
  runs : s'.history.runs = s.history.runs

theorem tmrClrtimer_agrees (cleared : tmrClrtimer s tp = some s') : (s.disarm tp).Agrees s' := by
  obtain ⟨atp, -, done⟩ := Option.bind_eq_some_iff.mp cleared
  split at done
  · obtain rfl := some.inj done
    exact ⟨rfl, rfl, rfl, rfl⟩
  · obtain ⟨atp, -, rfl⟩ := map_eq_some_iff.mp done
    split <;> exact ⟨rfl, rfl, rfl, rfl⟩

/-- `tmr_settimer` arms the timer, which it has disarmed if it was active. -/
theorem tmrSettimer_agrees (set : tmrSettimer s tp task expTime func = some s') :
    ((s.disarm tp).arm tp task expTime func).Agrees s' := by
  obtain ⟨s₁, cleared, done⟩ := Option.bind_eq_some_iff.mp set
  obtain ⟨atp, -, rfl⟩ := map_eq_some_iff.mp done
  split at cleared
  · have same := tmrClrtimer_agrees cleared
    refine ⟨same.realtime, ?_, ?_, same.runs⟩
    · exact congrArg (fun times => update times tp expTime) same.tmrExpTime
    · exact congrArg (fun armed => update armed tp true) same.armed
  · obtain rfl := some.inj cleared
    exact ⟨rfl, (update_idem ..).symm, (update_idem ..).symm, rfl⟩

theorem moveExpired_agrees {fuel : Nat} (moved : moveExpired fuel s = some s') : s.Agrees s' := by
  induction fuel generalizing s with
  | zero => cases moved
  | succ fuel inductionHypothesis =>
    rw [moveExpired] at moved
    split at moved
    · obtain rfl := some.inj moved
      exact ⟨rfl, rfl, rfl, rfl⟩
    · split at moved
      · have same := inductionHypothesis moved
        unfold moveTimer at same
        dsimp only at same
        split at same <;> exact ⟨same.realtime, same.tmrExpTime, same.armed, same.runs⟩
      · obtain rfl := some.inj moved
        exact ⟨rfl, rfl, rfl, rfl⟩

theorem checkTimers_agrees (checked : checkTimers s = some s') : s.Agrees s' := by
  rw [checkTimers] at checked
  split at checked
  · obtain ⟨s₁, moved, rfl⟩ := map_eq_some_iff.mp checked
    have same := moveExpired_agrees moved
    exact ⟨same.realtime, same.tmrExpTime, same.armed, same.runs⟩
  · obtain rfl := some.inj checked
    exact ⟨rfl, rfl, rfl, rfl⟩

section

variable (timely : s.Timely)
include timely

theorem Clock.Timely.congr (same : s.Agrees s') : s'.Timely where
  realtime := same.realtime ▸ timely.realtime
  low := same.tmrExpTime ▸ timely.low
  high := same.tmrExpTime ▸ timely.high
  idle := by
    rw [same.tmrExpTime, same.realtime, same.armed]
    exact timely.idle

theorem Clock.Timely.tick (ticks : Nat) : (s.tick ticks).Timely where
  realtime := Int.add_nonneg timely.realtime (Int.natCast_nonneg ticks)
  low := timely.low
  high := timely.high
  idle tp resting := (timely.idle tp resting).imp_right fun past =>
    past.trans (Int.le_add_of_nonneg_right (Int.natCast_nonneg ticks))

theorem Clock.Timely.change {armed : Bool} (low : -2147483648 ≤ expTime) (high : expTime ≤ longMax)
    (idle : armed = false → expTime = tmrNever) (realtime : s'.realtime = s.realtime)
    (changed : s'.tmrExpTime = update s.tmrExpTime tp expTime)
    (noted : s'.history.armed = update s.history.armed tp armed) : s'.Timely := by
  have time (other : Fin n) :
      s'.tmrExpTime other = expTime ∧ s'.history.armed other = armed ∨
        s'.tmrExpTime other = s.tmrExpTime other ∧
          s'.history.armed other = s.history.armed other := by
    rw [changed, noted]
    by_cases same : other = tp
    · rw [same, update_self, update_self]
      exact .inl ⟨rfl, rfl⟩
    · rw [update_of_ne same, update_of_ne same]
      exact .inr ⟨rfl, rfl⟩
  refine ⟨realtime ▸ timely.realtime, fun other => ?_, fun other => ?_, fun other resting => ?_⟩ <;>
    rcases time other with ⟨new, set⟩ | ⟨old, still⟩
  · exact new ▸ low
  · exact old ▸ timely.low other
  · exact new ▸ high
  · exact old ▸ timely.high other
  · exact .inl (new.trans (idle (set.symm.trans resting)))
  · rw [old, realtime]
    exact timely.idle other (still ▸ resting)

theorem Clock.Timely.disarm (tp : Fin n) : (s.disarm tp).Timely :=
  timely.change (by decide) (by decide) (fun _ => rfl) rfl rfl rfl

theorem step_timely {call : TimerCall n} (representable : Representable call)
    (stepped : timerStep s call = some s') : s'.Timely := by
  cases call with
  | settimer tp task expTime func =>
    have armed : ((s.disarm tp).arm tp task expTime func).Timely :=
      (timely.disarm tp).change representable.1 representable.2 (fun wrong => by cases wrong) rfl rfl rfl
    exact armed.congr (tmrSettimer_agrees stepped)
  | clrtimer tp =>
    exact (timely.disarm tp).congr (tmrClrtimer_agrees stepped)
  | clocktick ticks => exact (timely.tick ticks).congr (checkTimers_agrees stepped)
  | exptimer p =>
    obtain rfl := some.inj stepped
    rw [expireTimer]
    cases s.pExptimers p with
    | none => exact timely
    | some tp => exact timely.change (by decide) (by decide) (fun _ => rfl) rfl rfl rfl

end

theorem run_timely {calls : List (TimerCall n)}
    (run : Run timerStep (fun _ call => Representable call) { tmrExpTime := fun _ => 0 } calls s) :
    s.Timely :=
  run.invariant ⟨le_rfl, fun _ => (by decide : (-2147483648 : Int) ≤ 0),
      fun _ => (by decide : (0 : Int) ≤ 2147483647), fun _ _ => .inr le_rfl⟩
    fun _ _ _ timely representable stepped => step_timely timely representable stepped

end Fields

/-! ### The calls return -/

section Returns

variable {s : Clock n} {active : List (Fin n)} {expired : Slot → List (Fin n)}

/-- `tmr_settimer` returns, even when the time is the one that stands for no time. -/
theorem tmrSettimer_returns (order : InOrder s active expired) (tp : Fin n) (task : Slot)
    (expTime : Int) (func : Nat) : ∃ s', tmrSettimer s tp task expTime func = some s' := by
  obtain ⟨s₁, active₁, expired₁, cleared, order₁⟩ : ∃ s₁ active₁ expired₁,
      (if s.tmrExpTime tp ≠ tmrNever then tmrClrtimer s tp else some s) = some s₁ ∧
        InOrder s₁ active₁ expired₁ := by
    split
    · obtain ⟨s₁, cleared, order₁, -⟩ := tmrClrtimer_inOrder order tp
      exact ⟨s₁, _, _, cleared, order₁⟩
    · exact ⟨s, active, expired, rfl, order⟩
  have linked : Linked (s₁.arm tp task expTime func) active₁ expired₁ :=
    ⟨order₁.timers, order₁.expTimers⟩
  obtain ⟨front, -, -, found, -, -⟩ := linked.timers.seek_eq
    (fun other => decide (expTime < (s₁.arm tp task expTime func).tmrExpTime other))
    linked.length_le
  rw [tmrSettimer, cleared, Option.bind_some]
  exact ⟨_, map_eq_some_iff.mpr ⟨_, found, rfl⟩⟩

end Returns

/-! ### Alarms on time -/

/-- The ticks that are left on a timer that is set. -/
def Clock.ticksLeft (s : Clock n) (tp : Fin n) : Int :=
  if s.history.armed tp then max 0 (s.tmrExpTime tp - s.realtime) else 0

/-- A number of seconds is the given time, rounded up. -/
def RoundsUp (ticks seconds : Int) : Prop := ticks ≤ hz * seconds ∧ hz * seconds < ticks + hz

/-- No clock tick before `time` finds the timer expired, which is what `do_clocktick` tests. -/
def NotBefore (s : Clock n) (tp : Fin n) (time : Int) : Prop :=
  ∀ realtime, s.tmrExpTime tp ≤ realtime → time ≤ realtime

/-- When an alarm is due that is set now: the limit stands for what cannot be represented. -/
def dueTime (uptime : Int) (sec : UInt32) : Int := min (uptime + hz * sec.toNat) longMax

theorem secondsLeft_past (past : s.tmrExpTime tp ≤ s.realtime ∨ s.tmrExpTime tp = tmrNever) :
    secondsLeft s tp = 0 :=
  if_pos past

/-- The seconds are rounded up, unless the sum overflows to a negative number. -/
theorem secondsLeft_future {ticks : Int} (positive : 0 < ticks) (bound : ticks ≤ longMax)
    (left : s.tmrExpTime tp - s.realtime = ticks) (finite : s.tmrExpTime tp ≠ tmrNever) :
    if ticks ≤ 2147483588 then secondsLeft s tp = (ticks + 59) / 60 else secondsLeft s tp < 0 := by
  have high : ticks ≤ 2147483647 := bound
  have value : secondsLeft s tp = (long (ticks + 59)).tdiv 60 := by
    rw [secondsLeft, if_neg (not_or.mpr ⟨by omega, finite⟩), left]
    rfl
  rw [value]
  split
  · rw [long_of_fits (by omega) (by omega), Int.tdiv_eq_ediv_of_nonneg (by omega)]
  · rw [long_of_above (by omega) (by omega), Int.tdiv_eq_ediv, show Int.sign 60 = 1 from rfl]
    split <;> omega

theorem roundsUp_iff (timely : s.Timely) :
    RoundsUp (s.ticksLeft tp) (if secondsLeft s tp < 0 then longMax else secondsLeft s tp) ↔
      (s.history.armed tp = true → s.tmrExpTime tp ≤ s.realtime ∨
        s.tmrExpTime tp ≠ tmrNever ∧ s.tmrExpTime tp - s.realtime ≤ longMax - (hz - 1)) := by
  rw [RoundsUp, Clock.ticksLeft, show longMax - (hz - 1) = 2147483588 from rfl,
    show hz = 60 from rfl, show longMax = 2147483647 from rfl, show tmrNever = 2147483647 from rfl]
  cases set : s.history.armed tp
  case false =>
    rw [secondsLeft_past (timely.idle tp set).symm]
    simp
  case true =>
    simp only [reduceIte, forall_const]
    by_cases past : s.tmrExpTime tp ≤ s.realtime
    · rw [secondsLeft_past (.inl past), max_eq_left (by omega)]
      simp [past]
    by_cases never : s.tmrExpTime tp = 2147483647
    · have realtime := timely.realtime
      rw [secondsLeft_past (.inr never), max_eq_right (by omega)]
      simp only [never, lt_irrefl, reduceIte, ne_eq, not_true_eq_false, false_and, or_false]
      omega
    have high : s.tmrExpTime tp ≤ 2147483647 := timely.high tp
    have realtime := timely.realtime
    have bound : s.tmrExpTime tp - s.realtime ≤ 2147483647 := by omega
    have seconds := secondsLeft_future (by omega) bound rfl never
    rw [max_eq_right (by omega)]
    split at seconds
    case isTrue fits =>
      rw [seconds, if_neg (by omega)]
      omega
    case isFalse long =>
      rw [if_pos seconds]
      omega

theorem setAlarm_eq_some {s s' : Clock n} {sec : UInt32} {ticks pendingTicks : Nat}
    {remaining : Int} (positive : sec ≠ 0)
    (returned : setAlarm s tp sec ticks pendingTicks = some (s', remaining)) :
    s'.tmrExpTime tp = long ((s.tick ticks).realtime + pendingTicks + deltaTicks sec) ∧
      remaining = if secondsLeft (s.tick ticks) tp < 0 then longMax
        else secondsLeft (s.tick ticks) tp := by
  obtain ⟨result, called, same⟩ := map_eq_some_iff.mp returned
  obtain ⟨after, set, rfl⟩ := map_eq_some_iff.mp called
  obtain ⟨rfl, rfl⟩ := Prod.mk.inj same
  have wanted : deltaTicks sec ≠ 0 := by
    have some : 0 < sec.toNat := Nat.pos_of_ne_zero fun zero => positive (UInt32.toNat_inj.mp zero)
    rw [deltaTicks_eq, longMax]
    split
    · omega
    · split <;> omega
  rw [if_neg wanted] at set
  have expTime := congrFun (tmrSettimer_agrees set).tmrExpTime tp
  exact ⟨expTime.trans (update_self ..), rfl⟩

theorem set_alarm_returns {start : Fin n → Int} {calls : List (TimerCall n)}
    (run : Clocks start calls s) (tp : Fin n) (sec : UInt32) (ticks pendingTicks : Nat) :
    ∃ result, setAlarm s tp sec ticks pendingTicks = some result := by
  obtain ⟨active, expired, order⟩ := run.orderly
  have order : InOrder (s.tick ticks) active expired := order.tick ticks
  obtain ⟨s', set⟩ : ∃ s', (if deltaTicks sec = 0 then tmrClrtimer (s.tick ticks) tp
      else tmrSettimer (s.tick ticks) tp clock
        (long ((s.tick ticks).realtime + pendingTicks + deltaTicks sec)) causeAlarm) = some s' := by
    split
    · obtain ⟨s', cleared, -⟩ := tmrClrtimer_inOrder order tp
      exact ⟨s', cleared⟩
    · exact tmrSettimer_returns order tp _ _ _
  rw [setAlarm, doSetalarm, set]
  exact ⟨_, rfl⟩

/-- An alarm is set, it is not early, and the time left on the last one is rounded up. -/
def OnTime (s : Clock n) (tp : Fin n) (sec : UInt32) (ticks pendingTicks : Nat) : Prop :=
  ∃ s' remaining, setAlarm s tp sec ticks pendingTicks = some (s', remaining) ∧
    NotBefore s' tp (dueTime ((s.tick ticks).realtime + pendingTicks) sec) ∧
    RoundsUp ((s.tick ticks).ticksLeft tp) remaining

/-- The uptime and the ticks fit in a `clock_t` together, or are so many that they are limited and
there has been no uptime; and the last alarm is not due at the limit or within the last second
before it. -/
def FitsClock (s : Clock n) (tp : Fin n) (sec : UInt32) (ticks pendingTicks : Nat) : Prop :=
  ((s.tick ticks).realtime + pendingTicks + hz * sec.toNat ≤ longMax ∨
      (s.tick ticks).realtime + pendingTicks = 0 ∧ 4294967296 ≤ hz * sec.toNat) ∧
    (s.history.armed tp = true → s.tmrExpTime tp ≤ (s.tick ticks).realtime ∨
      s.tmrExpTime tp ≠ tmrNever ∧
        s.tmrExpTime tp - (s.tick ticks).realtime ≤ longMax - (hz - 1))

instance {s : Clock n} {tp : Fin n} {sec : UInt32} {ticks pendingTicks : Nat} :
    Decidable (FitsClock s tp sec ticks pendingTicks) :=
  inferInstanceAs (Decidable (_ ∧ (_ → _)))

theorem setAlarm_fits_iff {s s' : Clock n} {sec : UInt32} {ticks pendingTicks : Nat}
    {remaining : Int} (timely : s.Timely) (positive : sec ≠ 0)
    (uptime : (s.tick ticks).realtime + pendingTicks ≤ longMax)
    (returned : setAlarm s tp sec ticks pendingTicks = some (s', remaining)) :
    NotBefore s' tp (dueTime ((s.tick ticks).realtime + pendingTicks) sec) ∧
      RoundsUp ((s.tick ticks).ticksLeft tp) remaining ↔
        FitsClock s tp sec ticks pendingTicks := by
  obtain ⟨expTime, rfl⟩ := setAlarm_eq_some positive returned
  have started : 0 ≤ (s.tick ticks).realtime + pendingTicks :=
    Int.add_nonneg (timely.tick ticks).realtime (Int.natCast_nonneg pendingTicks)
  refine and_congr ?_ (roundsUp_iff (timely.tick ticks))
  have early : NotBefore s' tp (dueTime ((s.tick ticks).realtime + pendingTicks) sec) ↔
      dueTime ((s.tick ticks).realtime + pendingTicks) sec ≤ s'.tmrExpTime tp :=
    ⟨fun late => late _ le_rfl, fun due realtime passed => due.trans passed⟩
  rw [early, expTime]
  exact long_deltaTicks_iff positive started uptime

/-- A clock that has just been started, with one timer. -/
def startedClock : Clock 1 := { tmrExpTime := fun _ => 0 }

end Minix.Kernel
