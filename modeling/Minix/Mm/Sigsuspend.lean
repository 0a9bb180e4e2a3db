/-
This file models the calls that change the signal masks of a process, and follows a process through
any order of its own calls, signals, tracing and swapping.

A `sigsuspend` that comes to an end has put the old mask back, at the latest when the handler that
ended it returns, unless the process is traced: then the signal stops it and the temporary mask
stays (`sigsuspend_keeps_temporary_mask`).
-/

import Minix.Library.Transition
import Minix.Mm.SigProc

namespace Minix.Mm.SigProc

open Function (update update_of_ne update_self)
open Option (some.inj map_eq_some_iff ite_none_right_eq_some ite_some_none_eq_some)
open Kernel
open Transition (Run)

/-! ### The calls -/

/-- `do_sigaction`, with the structure that was read in if there is one. -/
def doSigaction (mp : Mproc) (sigNr : Nat) (svec : Option Sigaction) : Mproc :=
  if sigNr = sigkill ∨ sigNr < 1 ∨ nsig < sigNr then mp
  else
    match svec with
    | none => mp
    | some svec =>
      let mp := { mp with
        ignore := if svec.handler = sigIgn then sigaddset mp.ignore sigNr
          else sigdelset mp.ignore sigNr
        sigpending := if svec.handler = sigIgn then sigdelset mp.sigpending sigNr
          else mp.sigpending
        catching := if svec.handler = sigIgn ∨ svec.handler = sigDfl then
            sigdelset mp.catching sigNr
          else sigaddset mp.catching sigNr }
      { mp with
        sigact := update mp.sigact sigNr { svec with mask := sigdelset svec.mask sigkill } }

/-- What `sigprocmask` does with the set. -/
inductive How
  | block
  | unblock
  | setmask
  | inquire

/-- The signals from 1 to `_NSIG`. -/
def allSignals : Sigset := (List.range' 1 nsig).foldl sigaddset 0

/-- `do_sigprocmask` -/
def doSigprocmask (env : Answers) (mp : Mproc) (how : How) (set : Sigset) : Mproc × Outcome :=
  match how with
  | .block =>
    ({ mp with sigmask := mp.sigmask ||| (sigdelset set sigkill &&& allSignals) }, .done)
  | .unblock => checkPending env { mp with sigmask := mp.sigmask &&& ~~~(set &&& allSignals) }
  | .setmask => checkPending env { mp with sigmask := sigdelset set sigkill }
  | .inquire => (mp, .done)

/-- `do_sigsuspend` up to the pending signals: the old mask is saved. -/
def suspendWith (mp : Mproc) (set : Sigset) : Mproc :=
  { mp with
    sigmask2 := mp.sigmask
    sigmask := sigdelset set sigkill
    sigsuspended := true
    handlers := { mp.handlers with before := mp.sigmask, depth := mp.handlers.frames.length } }

def doSigsuspend (env : Answers) (mp : Mproc) (set : Sigset) : Mproc × Outcome :=
  checkPending env (suspendWith mp set)

/-- The frame of a handler is gone. If the handler has ended a `sigsuspend`, the process has the
mask now that it gets back. -/
def Handlers.pop (h : Handlers) (mask : Sigset) : Handlers :=
  match h.frames with
  | [] => h
  | frame :: frames =>
    { h with
      frames
      resumed := h.resumed ++ (frame.ended.map fun before => (before, mask)).toList }

/-- `do_sigreturn`: a handler is done, and its context is restored. -/
def doSigreturn (env : Answers) (mp : Mproc) (set : Sigset) : Mproc × Outcome :=
  let sigmask := sigdelset set sigkill
  checkPending env { mp with sigmask, handlers := mp.handlers.pop sigmask }

/-- A process that is to be terminated is a zombie at the end. -/
def finish (after : Mproc × Outcome) : Mproc :=
  match after.2 with
  | .terminated => { after.1 with
      waiting := false, zombie := true, paused := false, alarmOn := false, traced := false,
      stopped := false, sigsuspended := false, reply := false, onswap := false, swapin := false }
  | _ => after.1

/-- The part of `do_trace` that resumes the child with a signal or without one. -/
def resumeTraced (env : Answers) (child : Mproc) (data : Nat) : Mproc :=
  let child := if data = 0 then child
    else { finish (sigProc env { child with traced := false } data) with traced := true }
  { child with stopped := false }

/-! ### The machine -/

/-- What can happen to a process: its calls, the signals that others send to it, tracing, swapping,
the answer to a call, and that it goes on as the child of a `fork`. -/
inductive Event
  | sigaction (sigNr : Nat) (svec : Option Sigaction)
  | sigprocmask (env : Answers) (how : How) (set : Sigset)
  | sigsuspend (env : Answers) (set : Sigset)
  | sigreturn (env : Answers)
  | pause
  | wait (pidarg : Int)
  | exec
  | forked (pid : Int) (parent : Fin nrProcs)
  | traceOk
  | signal (env : Answers) (signo : Nat)
  | resume (env : Answers) (data : Nat)
  | waited (pid : Int)
  | replied
  | swapOut
  | swapIn (env : Answers)

/-- The process is not blocked, so that it can make calls. -/
def Mproc.runs (rmp : Mproc) : Bool :=
  rmp.live && !(rmp.paused || rmp.waiting || rmp.sigsuspended || rmp.stopped || rmp.reply ||
    rmp.onswap)

/-- `do_exec` gives the signals that are caught their default action, and there is a new stack. -/
def afterExec (mp : Mproc) : Mproc :=
  { mp with
    sigact := fun signo =>
      if sigismember mp.catching signo then { mp.sigact signo with handler := sigDfl, mask := 0 }
      else mp.sigact signo
    catching := 0
    handlers := { mp.handlers with frames := [] } }

/-- The calls are those of a process that runs; a process that has died is left alone. -/
def step (rmp : Mproc) : Event → Option Mproc
  | .sigaction sigNr svec => if rmp.runs then some (doSigaction rmp sigNr svec) else none
  | .sigprocmask env how set =>
    if rmp.runs then some (finish (doSigprocmask env rmp how set)) else none
  | .sigsuspend env set => if rmp.runs then some (finish (doSigsuspend env rmp set)) else none
  | .sigreturn env =>
    -- the library passes the mask of the frame
    match rmp.handlers.frames with
    | [] => none
    | frame :: _ => if rmp.runs then some (finish (doSigreturn env rmp frame.mask)) else none
  | .pause => if rmp.runs then some { rmp with paused := true } else none
  | .wait pidarg => if rmp.runs then some { rmp with waiting := true, wpid := pidarg } else none
  | .exec => if rmp.runs then some (afterExec rmp) else none
  | .forked pid parent =>
    if rmp.runs then
      some { rmp with
        pid, parent, exitstatus := 0, sigstatus := 0, alarmOn := false, traced := false,
        swapin := false }
    else none
  | .traceOk => if rmp.runs then some { rmp with traced := true } else none
  | .signal env signo =>
    if rmp.live && 1 ≤ signo && signo ≤ nsig then some (finish (sigProc env rmp signo)) else none
  | .resume env data =>
    if rmp.live && rmp.stopped && data ≤ nsig then some (resumeTraced env rmp data)
    else none
  | .waited pid =>
    if rmp.live && rmp.waiting then some { setreply rmp pid with waiting := false } else none
  | .replied => if rmp.reply && !rmp.onswap then some { rmp with reply := false } else none
  | .swapOut =>
    if (rmp.paused || rmp.waiting || rmp.sigsuspended) && !(rmp.traced || rmp.reply || rmp.onswap)
    then some { rmp with onswap := true } else none
  | .swapIn env =>
    if rmp.live && rmp.onswap && rmp.swapin then
      some (finish (checkPending env { rmp with onswap := false, swapin := false }))
    else none

/-! ### Signal sets -/

section Sets

variable {set other : Sigset} {signo : Nat}

theorem sigismember_or : sigismember (set ||| other) signo =
    (sigismember set signo || sigismember other signo) := BitVec.getLsbD_or

theorem sigismember_zero : sigismember 0 signo = false := BitVec.getLsbD_zero

theorem sigismember_and_of_false (absent : sigismember set signo = false) :
    sigismember (set &&& other) signo = false := by
  rw [sigismember, BitVec.getLsbD_and]
  exact Bool.and_eq_false_imp.mpr fun present => absurd present (Bool.eq_false_iff.mp absent)

theorem sigismember_sigdelset_self : sigismember (sigdelset set sigkill) sigkill = false := by
  have bit : (~~~(1#32 <<< sigkill)).getLsbD sigkill = false := by decide
  rw [sigismember, sigdelset, BitVec.getLsbD_and, bit, Bool.and_false]

theorem sigismember_sigaddset (absent : sigismember set sigkill = false) (small : signo < 32)
    (different : signo ≠ sigkill) : sigismember (sigaddset set signo) sigkill = false := by
  have bit : ∀ n : Fin 32, n.val ≠ sigkill → (1#32 <<< n.val).getLsbD sigkill = false := by decide
  rw [sigaddset, sigismember_or, absent, Bool.false_or]
  exact bit ⟨signo, small⟩ different

theorem sigdelset_of_absent (absent : sigismember set sigkill = false) :
    sigdelset set sigkill = set := by
  refine BitVec.eq_of_getLsbD_eq fun i inside => ?_
  have bit : ∀ n : Fin 32, (~~~(1#32 <<< sigkill)).getLsbD n.val = decide (n.val ≠ sigkill) := by
    decide
  rw [sigdelset, BitVec.getLsbD_and, bit ⟨i, inside⟩]
  by_cases same : i = sigkill
  · have missing : set.getLsbD i = false := by rw [same]; exact absent
    rw [missing, Bool.false_and]
  · simp [same]

end Sets

/-! ### The masks that come back -/

/-- Handlers restore masks that can be restored, those that have ended a `sigsuspend` the mask
before it, and so did the ones that have returned. -/
structure Handlers.Sound (h : Handlers) : Prop where
  before : sigismember h.before sigkill = false
  masks : ∀ frame ∈ h.frames, sigismember frame.mask sigkill = false
  ended : ∀ frame ∈ h.frames, ∀ before, frame.ended = some before → frame.mask = before
  resumed : ∀ pair ∈ h.resumed, pair.2 = pair.1

/-- `SIGKILL` is never blocked or caught, and while a process is suspended the mask before is
saved. -/
structure Sound (rmp : Mproc) : Prop where
  mask : sigismember rmp.sigmask sigkill = false
  acts : ∀ signo, sigismember (rmp.sigact signo).mask sigkill = false
  catching : sigismember rmp.catching sigkill = false
  saved : rmp.sigsuspended = true → rmp.sigmask2 = rmp.handlers.before
  depth : rmp.sigsuspended = true → rmp.handlers.frames.length = rmp.handlers.depth
  handlers : rmp.handlers.Sound

/-- A signal does not stop the process in `sigsuspend`, unless the temporary mask is the old one:
it is not traced, or killed. -/
def Calm (rmp : Mproc) (signo : Nat) : Prop :=
  rmp.traced = true → rmp.sigsuspended = true → signo = sigkill ∨ rmp.sigmask = rmp.sigmask2

section Steps

variable {env : Answers} {rmp rmp' : Mproc} {signo : Nat}

theorem unpause_sigsuspended : (unpause rmp).sigsuspended = false := by
  unfold unpause
  split
  case isTrue => rfl
  case isFalse running =>
    simp only [Bool.or_eq_true, not_or, Bool.not_eq_true] at running
    exact running.2

theorem Handlers.Sound.resume {h : Handlers} {mask : Sigset} (sound : h.Sound)
    (same : h.frames.length = h.depth → mask = h.before) : (h.resume mask).Sound := by
  unfold Handlers.resume
  split
  case isTrue level =>
    refine ⟨sound.before, sound.masks, sound.ended, fun pair member => ?_⟩
    rcases List.mem_append.mp member with old | new
    · exact sound.resumed pair old
    · obtain rfl := List.mem_singleton.mp new
      exact same level
  case isFalse => exact sound

theorem unpause_sound (mask : sigismember rmp.sigmask sigkill = false)
    (acts : ∀ signo, sigismember (rmp.sigact signo).mask sigkill = false)
    (catching : sigismember rmp.catching sigkill = false) (handlers : rmp.handlers.Sound)
    (same : rmp.sigsuspended = true → rmp.handlers.frames.length = rmp.handlers.depth →
      rmp.sigmask = rmp.handlers.before) : Sound (unpause rmp) := by
  have awake (wrong : (unpause rmp).sigsuspended = true) : False := by
    rw [unpause_sigsuspended] at wrong
    cases wrong
  refine ⟨?_, ?_, ?_, fun wrong => (awake wrong).elim, fun wrong => (awake wrong).elim, ?_⟩ <;>
    unfold unpause <;> split
  · exact mask
  · exact mask
  · exact acts
  · exact acts
  · exact catching
  · exact catching
  · dsimp only [setreply]
    split
    case isTrue suspended => exact handlers.resume (same suspended)
    case isFalse => exact handlers
  · exact handlers

theorem Sound.finish {after : Mproc × Outcome} (sound : Sound after.1) :
    Sound (SigProc.finish after) := by
  unfold SigProc.finish
  split
  · exact ⟨sound.mask, sound.acts, sound.catching, (fun wrong => by cases wrong),
      (fun wrong => by cases wrong), sound.handlers⟩
  · exact sound

section

variable (sound : Sound rmp)
include sound

theorem Sound.stopProc : Sound (SigProc.stopProc env rmp signo).1 := by
  unfold SigProc.stopProc
  split
  · exact ⟨sound.mask, sound.acts, sound.catching, sound.saved, sound.depth, sound.handlers⟩
  · exact sound

theorem Sound.leavePending : Sound (SigProc.leavePending rmp signo) :=
  ⟨sound.mask, sound.acts, sound.catching, sound.saved, sound.depth, sound.handlers⟩

theorem Sound.defaultAction : Sound (SigProc.defaultAction rmp signo).1 := by
  unfold SigProc.defaultAction
  dsimp only
  have noted : Sound { rmp with sigstatus := signo } :=
    ⟨sound.mask, sound.acts, sound.catching, sound.saved, sound.depth, sound.handlers⟩
  split
  · exact sound
  · split
    · exact noted.leavePending
    · exact noted

/-- The handler restores the mask before the `sigsuspend`, if it ends one. -/
theorem Sound.callHandler (small : signo < 32) (different : signo ≠ sigkill) :
    Sound (SigProc.callHandler rmp signo) := by
  have mask : sigismember (rmp.sigmask ||| (rmp.sigact signo).mask) sigkill = false := by
    rw [sigismember_or, sound.mask, sound.acts]
    rfl
  have restored : smMask rmp = if rmp.sigsuspended then rmp.handlers.before else rmp.sigmask := by
    unfold smMask
    split
    case isTrue suspended => exact sound.saved suspended
    case isFalse => rfl
  have handlers : Handlers.Sound { rmp.handlers with
      frames := { mask := smMask rmp,
                  ended := if rmp.sigsuspended then some rmp.handlers.before else none } ::
        rmp.handlers.frames } := by
    refine ⟨sound.handlers.before, fun frame member => ?_, fun frame member before ended => ?_,
      sound.handlers.resumed⟩ <;> rcases List.mem_cons.mp member with rfl | old
    · rw [restored]
      split
      · exact sound.handlers.before
      · exact sound.mask
    · exact sound.handlers.masks frame old
    · dsimp only at ended
      rw [restored]
      obtain ⟨suspended, ended⟩ := ite_none_right_eq_some.mp ended
      rw [if_pos suspended]
      exact some.inj ended
    · exact sound.handlers.ended frame old before ended
  refine unpause_sound ?_ (fun other => ?_) ?_ handlers fun suspended level => ?_
  · dsimp only
    split
    · exact sigismember_and_of_false mask
    · exact sigismember_sigaddset mask small different
  · dsimp only
    split
    · by_cases same : other = signo
      · rw [same, update_self]
        exact sound.acts signo
      · rw [update_of_ne same]
        exact sound.acts other
    · exact sound.acts other
  · dsimp only
    split
    · exact sigismember_and_of_false sound.catching
    · exact sound.catching
  · -- the new frame is above those of the `sigsuspend`
    have before := sound.depth suspended
    have level : rmp.handlers.frames.length + 1 = rmp.handlers.depth := level
    omega

theorem sigProc_sound (calm : Calm rmp signo) (small : signo < 32) :
    Sound (sigProc env rmp signo).1 := by
  unfold sigProc
  split
  case isTrue traced =>
    rw [Bool.and_eq_true, bne_iff_ne] at traced
    refine (unpause_sound sound.mask sound.acts sound.catching sound.handlers
      fun suspended _ => ?_).stopProc
    exact ((calm traced.1 suspended).resolve_left traced.2).trans (sound.saved suspended)
  split
  · exact sound
  split
  · exact ⟨sound.mask, sound.acts, sound.catching, sound.saved, sound.depth, sound.handlers⟩
  split
  case isTrue caught =>
    have different : signo ≠ sigkill := by
      rintro rfl
      rw [sound.catching] at caught
      cases caught
    split
    · exact sound.leavePending
    · split
      · exact sound.callHandler small different
      · exact sound.defaultAction
  · exact sound.defaultAction

end

theorem firstPending_small (found : firstPending rmp = some signo) : signo < 32 := by
  have member := List.mem_of_find?_eq_some found
  rw [List.mem_range'_1] at member
  unfold nsig at member
  omega

theorem checkPending_sound (sound : Sound rmp)
    (calm : ∀ signo, firstPending rmp = some signo → Calm rmp signo) :
    Sound (checkPending env rmp).1 := by
  unfold checkPending
  split
  · exact sound
  case h_2 signo found =>
    have delivered : Sound { rmp with sigpending := sigdelset rmp.sigpending signo } :=
      ⟨sound.mask, sound.acts, sound.catching, sound.saved, sound.depth, sound.handlers⟩
    exact sigProc_sound delivered (calm signo found) (firstPending_small found)

end Steps

/-! ### Runs -/

/-- The step does not stop a process in `sigsuspend`: no signal but `SIGKILL` arrives while the
process is traced and has a temporary mask, and none is delivered when `sigsuspend` unblocks it or
the process is swapped in. -/
def Undisturbed (rmp : Mproc) : Event → Prop
  | .signal _ signo => Calm rmp signo
  | .sigsuspend _ set =>
    ∀ signo, firstPending (suspendWith rmp set) = some signo → Calm (suspendWith rmp set) signo
  | .swapIn _ => ∀ signo, firstPending rmp = some signo → Calm rmp signo
  | _ => True

section Step

variable {rmp rmp' : Mproc}

theorem runs_awake (runs : rmp.runs = true) : rmp.sigsuspended = false := by
  simp only [Mproc.runs, Bool.and_eq_true, Bool.not_eq_true', Bool.or_eq_false_iff] at runs
  exact runs.2.1.1.1.2

theorem calm_of_awake (awake : rmp.sigsuspended = false) (signo : Nat) : Calm rmp signo :=
  fun _ suspended => by
    rw [awake] at suspended
    cases suspended

section

variable (sound : Sound rmp) {env : Answers}
include sound

theorem Sound.doSigaction {sigNr : Nat} {svec : Option Sigaction} :
    Sound (SigProc.doSigaction rmp sigNr svec) := by
  unfold SigProc.doSigaction
  split
  · exact sound
  case isFalse valid =>
    rw [not_or, not_or, Nat.not_lt, Nat.not_lt] at valid
    obtain ⟨different, -, high⟩ := valid
    unfold nsig at high
    split
    · exact sound
    case h_2 svec =>
      refine ⟨sound.mask, fun signo => ?_, ?_, sound.saved, sound.depth, sound.handlers⟩
      · dsimp only
        by_cases same : signo = sigNr
        · rw [same, update_self]
          exact sigismember_sigdelset_self
        · rw [update_of_ne same]
          exact sound.acts signo
      · dsimp only
        split
        · exact sigismember_and_of_false sound.catching
        · exact sigismember_sigaddset sound.catching (by omega) different

theorem Sound.setMask {mask : Sigset} (valid : sigismember mask sigkill = false) :
    Sound { rmp with sigmask := mask } where
  mask := valid
  acts := sound.acts
  catching := sound.catching
  saved := sound.saved
  depth := sound.depth
  handlers := sound.handlers

theorem Sound.doSigprocmask {how : How} {set : Sigset} (awake : rmp.sigsuspended = false) :
    Sound (SigProc.doSigprocmask env rmp how set).1 := by
  cases how
  case block =>
    refine sound.setMask ?_
    rw [sigismember_or, sound.mask, sigismember_and_of_false sigismember_sigdelset_self]
    rfl
  case unblock =>
    exact checkPending_sound (sound.setMask (sigismember_and_of_false sound.mask))
      fun signo _ => calm_of_awake (by exact awake) signo
  case setmask =>
    exact checkPending_sound (sound.setMask sigismember_sigdelset_self)
      fun signo _ => calm_of_awake (by exact awake) signo
  case inquire => exact sound

theorem Sound.suspendWith (set : Sigset) : Sound (suspendWith rmp set) where
  mask := sigismember_sigdelset_self
  acts := sound.acts
  catching := sound.catching
  saved _ := rfl
  depth _ := rfl
  handlers := ⟨sound.mask, sound.handlers.masks, sound.handlers.ended, sound.handlers.resumed⟩

theorem Sound.doSigreturn {frame : Frame} {frames : List Frame} (awake : rmp.sigsuspended = false)
    (top : rmp.handlers.frames = frame :: frames) :
    Sound (SigProc.doSigreturn env rmp frame.mask).1 := by
  have member : frame ∈ rmp.handlers.frames := top ▸ List.mem_cons_self
  have valid := sound.handlers.masks frame member
  unfold SigProc.doSigreturn
  rw [sigdelset_of_absent valid]
  refine checkPending_sound ⟨valid, sound.acts, sound.catching, ?_, ?_, ?_⟩
    fun signo _ => calm_of_awake (by exact awake) signo
  · intro suspended
    rw [awake] at suspended
    cases suspended
  · intro suspended
    rw [awake] at suspended
    cases suspended
  · unfold Handlers.pop
    rw [top]
    refine ⟨sound.handlers.before, fun other left => ?_, fun other left => ?_, fun pair added => ?_⟩
    · exact sound.handlers.masks other (top ▸ List.mem_cons_of_mem frame left)
    · exact sound.handlers.ended other (top ▸ List.mem_cons_of_mem frame left)
    · rcases List.mem_append.mp added with old | new
      · exact sound.handlers.resumed pair old
      · obtain ⟨before, ended, rfl⟩ := map_eq_some_iff.mp (Option.mem_toList.mp new)
        exact sound.handlers.ended frame member before ended

/-- A traced process is resumed. The signal is not diverted, so that its handler runs. -/
theorem Sound.resumeTraced {data : Nat} (small : data ≤ nsig) :
    Sound (SigProc.resumeTraced env rmp data) := by
  have untraced : Sound { rmp with traced := false } :=
    ⟨sound.mask, sound.acts, sound.catching, sound.saved, sound.depth, sound.handlers⟩
  have calm : Calm { rmp with traced := false } data := fun wrong => by cases wrong
  unfold nsig at small
  unfold SigProc.resumeTraced
  split
  · exact ⟨sound.mask, sound.acts, sound.catching, sound.saved, sound.depth, sound.handlers⟩
  · have signalled := (@sigProc_sound env _ data untraced calm (by omega)).finish
    exact ⟨signalled.mask, signalled.acts, signalled.catching, signalled.saved, signalled.depth,
      signalled.handlers⟩

theorem Sound.afterExec (awake : rmp.sigsuspended = false) :
    Sound (SigProc.afterExec rmp) := by
  refine ⟨sound.mask, fun signo => ?_, ?_, ?_, ?_, ?_⟩
  · unfold SigProc.afterExec
    dsimp only
    split
    · exact sigismember_zero
    · exact sound.acts signo
  · exact sigismember_zero
  · exact fun suspended => absurd (awake.symm.trans suspended) (by decide)
  · exact fun suspended => absurd (awake.symm.trans suspended) (by decide)
  · exact ⟨sound.handlers.before, (fun _ member => by cases member),
      (fun _ member => by cases member), sound.handlers.resumed⟩

/-- The step lemma. -/
theorem step_sound {event : Event} (undisturbed : Undisturbed rmp event)
    (stepped : step rmp event = some rmp') : Sound rmp' := by
  cases event <;> rw [step] at stepped
  case sigreturn env =>
    split at stepped
    · cases stepped
    case h_2 frame frames top =>
      obtain ⟨runs, rfl⟩ := ite_some_none_eq_some.mp stepped
      exact (sound.doSigreturn (runs_awake runs) top).finish
  all_goals
    obtain ⟨able, rfl⟩ := ite_some_none_eq_some.mp stepped
  case sigaction sigNr svec => exact sound.doSigaction
  case sigprocmask env how set => exact (sound.doSigprocmask (runs_awake able)).finish
  case sigsuspend env set => exact (checkPending_sound (sound.suspendWith set) undisturbed).finish
  case exec => exact sound.afterExec (runs_awake able)
  case signal env signo =>
    have small : signo ≤ 17 := of_decide_eq_true (Bool.and_eq_true_iff.mp able).2
    exact (sigProc_sound sound undisturbed (by omega)).finish
  case resume env data =>
    exact sound.resumeTraced (of_decide_eq_true (Bool.and_eq_true_iff.mp able).2)
  case swapIn env =>
    have back : Sound { rmp with onswap := false, swapin := false } :=
      ⟨sound.mask, sound.acts, sound.catching, sound.saved, sound.depth, sound.handlers⟩
    exact (checkPending_sound back undisturbed).finish
  all_goals
    exact ⟨sound.mask, sound.acts, sound.catching, sound.saved, sound.depth, sound.handlers⟩

end

end Step

/-- `INIT`, from which every process descends. -/
def init : Mproc := { inUse := true, pid := 1 }

theorem init_sound : Sound init := by
  refine ⟨sigismember_zero, fun _ => sigismember_zero, sigismember_zero, ?_, ?_, ?_⟩
  · intro suspended
    cases suspended
  · intro suspended
    cases suspended
  · exact ⟨sigismember_zero, (fun _ member => by cases member), (fun _ member => by cases member),
      fun _ member => by cases member⟩

/-! ### The temporary mask stays -/

section Stays

variable {env : Answers} {rmp rmp' : Mproc} {signo : Nat} {pair : Sigset × Sigset} {event : Event}

/-- What is noted about the calls that have come to an end stays. -/
def Notes (rmp rmp' : Mproc) : Prop :=
  ∀ pair ∈ rmp.handlers.resumed, pair ∈ rmp'.handlers.resumed

theorem unpause_notes : Notes rmp (unpause rmp) := by
  intro pair member
  unfold unpause setreply Handlers.resume
  split
  · dsimp only
    split
    · split
      · exact List.mem_append_left _ member
      · exact member
    · exact member
  · exact member

theorem finish_notes {after : Mproc × Outcome} (notes : Notes rmp after.1) :
    Notes rmp (finish after) := by
  intro pair member
  unfold finish
  split <;> exact notes pair member

theorem defaultAction_notes : Notes rmp (defaultAction rmp signo).1 := by
  intro pair member
  unfold defaultAction
  split
  · exact member
  · dsimp only
    split <;> exact member

theorem callHandler_notes : Notes rmp (callHandler rmp signo) := fun pair member =>
  unpause_notes pair member

theorem sigProc_notes : Notes rmp (sigProc env rmp signo).1 := by
  unfold sigProc
  split
  · intro pair member
    unfold stopProc
    split <;> exact unpause_notes pair member
  split
  · exact fun _ member => member
  split
  · exact fun _ member => member
  split
  · split
    · exact fun _ member => member
    · split
      · exact callHandler_notes
      · exact defaultAction_notes
  · exact defaultAction_notes

theorem checkPending_notes : Notes rmp (checkPending env rmp).1 := by
  unfold checkPending
  split
  · exact fun _ member => member
  · exact fun pair member => sigProc_notes pair member

theorem pop_notes {h : Handlers} {mask : Sigset} (member : pair ∈ h.resumed) :
    pair ∈ (h.pop mask).resumed := by
  unfold Handlers.pop
  split
  · exact member
  · exact List.mem_append_left _ member

theorem step_notes (stepped : step rmp event = some rmp') : Notes rmp rmp' := by
  cases event <;> rw [step] at stepped
  case sigreturn env =>
    split at stepped
    · cases stepped
    · obtain ⟨-, rfl⟩ := ite_some_none_eq_some.mp stepped
      exact finish_notes fun pair member => checkPending_notes pair (pop_notes member)
  all_goals
    obtain ⟨-, rfl⟩ := ite_some_none_eq_some.mp stepped
  case sigaction sigNr svec =>
    intro pair member
    unfold doSigaction
    split
    · exact member
    · split <;> exact member
  case sigprocmask env how set =>
    refine finish_notes fun pair member => ?_
    cases how
    case block => exact member
    case unblock => exact checkPending_notes pair member
    case setmask => exact checkPending_notes pair member
    case inquire => exact member
  case sigsuspend env set => exact finish_notes fun pair member => checkPending_notes pair member
  case signal env signo => exact finish_notes sigProc_notes
  case resume env data =>
    intro pair member
    unfold resumeTraced
    split
    · exact member
    · exact finish_notes (fun pair member => sigProc_notes pair member) pair member
  case swapIn env => exact finish_notes fun pair member => checkPending_notes pair member
  all_goals exact fun _ member => member

/-- A signal stops a traced process in `sigsuspend`, and the temporary mask stays. -/
theorem sigProc_disturbed (sound : Sound rmp) (disturbed : ¬ Calm rmp signo) :
    ∃ pair ∈ (finish (sigProc env rmp signo)).handlers.resumed, pair.2 ≠ pair.1 := by
  simp only [Calm, Classical.not_imp, not_or] at disturbed
  obtain ⟨traced, suspended, different, temporary⟩ := disturbed
  have left : (unpause rmp).handlers.resumed =
      rmp.handlers.resumed ++ [(rmp.handlers.before, rmp.sigmask)] := by
    unfold unpause setreply Handlers.resume
    rw [if_pos (by rw [suspended, Bool.or_true])]
    rw [if_pos suspended, if_pos (sound.depth suspended)]
  have diverted : sigProc env rmp signo = stopProc env (unpause rmp) signo :=
    if_pos (by rw [traced, Bool.true_and, bne_iff_ne]; exact different)
  refine ⟨(rmp.handlers.before, rmp.sigmask), ?_, sound.saved suspended ▸ temporary⟩
  rw [diverted]
  have kept : Notes (unpause rmp) (stopProc env (unpause rmp) signo).1 := by
    intro pair member
    unfold stopProc
    split <;> exact member
  exact finish_notes kept _ (left ▸ List.mem_append_right _ List.mem_cons_self)

theorem checkPending_disturbed (sound : Sound rmp)
    (disturbed : ¬ ∀ signo, firstPending rmp = some signo → Calm rmp signo) :
    ∃ pair ∈ (finish (checkPending env rmp)).handlers.resumed, pair.2 ≠ pair.1 := by
  simp only [not_forall] at disturbed
  obtain ⟨signo, found, disturbed⟩ := disturbed
  have delivered : Sound { rmp with sigpending := sigdelset rmp.sigpending signo } :=
    ⟨sound.mask, sound.acts, sound.catching, sound.saved, sound.depth, sound.handlers⟩
  rw [checkPending, found]
  exact sigProc_disturbed delivered disturbed

theorem step_disturbed (sound : Sound rmp) (disturbed : ¬ Undisturbed rmp event)
    (stepped : step rmp event = some rmp') :
    ∃ pair ∈ rmp'.handlers.resumed, pair.2 ≠ pair.1 := by
  cases event <;> rw [step] at stepped
  case sigreturn => exact absurd trivial disturbed
  all_goals
    obtain ⟨-, rfl⟩ := ite_some_none_eq_some.mp stepped
  case signal env signo => exact sigProc_disturbed sound disturbed
  case sigsuspend env set => exact checkPending_disturbed (sound.suspendWith set) disturbed
  case swapIn env =>
    have back : Sound { rmp with onswap := false, swapin := false } :=
      ⟨sound.mask, sound.acts, sound.catching, sound.saved, sound.depth, sound.handlers⟩
    exact checkPending_disturbed back disturbed
  all_goals exact absurd trivial disturbed

/-- The process goes on from `sigsuspend`: that it has come to an end is noted with the mask that the
process has now, or a handler runs that has ended it. -/
def Leaves (rmp rmp' : Mproc) : Prop :=
  (rmp.handlers.before, rmp'.sigmask) ∈ rmp'.handlers.resumed ∨
    ∃ frame, rmp'.handlers.frames = frame :: rmp.handlers.frames ∧
      frame.ended = some rmp.handlers.before

theorem unpause_leaves (suspended : rmp.sigsuspended = true)
    (depth : rmp.handlers.frames.length = rmp.handlers.depth) : Leaves rmp (unpause rmp) := by
  refine .inl ?_
  unfold unpause setreply Handlers.resume
  rw [if_pos (by rw [suspended, Bool.or_true])]
  rw [if_pos suspended, if_pos depth]
  exact List.mem_append_right _ List.mem_cons_self

theorem defaultAction_suspended :
    (defaultAction rmp signo).1.sigsuspended = rmp.sigsuspended := by
  unfold defaultAction
  split
  · rfl
  · dsimp only
    split <;> rfl

theorem sigProc_leaves (suspended : rmp.sigsuspended = true)
    (depth : rmp.handlers.frames.length = rmp.handlers.depth) :
    (sigProc env rmp signo).1.sigsuspended = true ∨ Leaves rmp (sigProc env rmp signo).1 := by
  unfold sigProc
  split
  · refine .inr ?_
    unfold stopProc
    split <;> exact unpause_leaves suspended depth
  split
  · exact .inl suspended
  split
  · exact .inl suspended
  split
  · split
    · exact .inl suspended
    · split
      · refine .inr (.inr ⟨{ mask := smMask rmp, ended := some rmp.handlers.before }, ?_, rfl⟩)
        have above : rmp.handlers.frames.length + 1 ≠ rmp.handlers.depth := by omega
        unfold callHandler unpause setreply Handlers.resume
        dsimp only
        rw [suspended, Bool.or_true, if_pos rfl]
        rw [if_pos rfl, List.length_cons, if_neg above, if_pos rfl]
      · exact .inl (defaultAction_suspended.trans suspended)
  · exact .inl (defaultAction_suspended.trans suspended)

theorem finish_leaves {after : Mproc × Outcome}
    (leaves : after.1.sigsuspended = true ∨ Leaves rmp after.1)
    (awake : (finish after).sigsuspended = false) (live : (finish after).live = true) :
    Leaves rmp (finish after) := by
  obtain ⟨after, outcome⟩ := after
  cases outcome
  case terminated =>
    have dead : (finish (after, .terminated)).live = false := by
      simp only [finish, Mproc.live, Bool.not_true, Bool.and_false]
    rw [dead] at live
    cases live
  all_goals exact leaves.resolve_left (Bool.eq_false_iff.mp awake)

theorem step_leaves (sound : Sound rmp) (stepped : step rmp event = some rmp')
    (suspended : rmp.sigsuspended = true) (awake : rmp'.sigsuspended = false)
    (live : rmp'.live = true) : Leaves rmp rmp' := by
  have asleep : rmp.runs ≠ true := fun runs => by
    rw [runs_awake runs] at suspended
    cases suspended
  cases event <;> rw [step] at stepped
  case sigreturn env =>
    split at stepped
    · cases stepped
    · exact absurd (ite_none_right_eq_some.mp stepped).1 asleep
  all_goals
    obtain ⟨able, rfl⟩ := ite_some_none_eq_some.mp stepped
  case signal env signo =>
    exact finish_leaves (sigProc_leaves suspended (sound.depth suspended)) awake live
  case swapIn env =>
    refine finish_leaves ?_ awake live
    unfold checkPending
    split
    · exact .inl suspended
    · exact @sigProc_leaves _ { rmp with
        onswap := false, swapin := false, sigpending := sigdelset _ _ } _
        suspended (sound.depth suspended)
  case resume env data =>
    unfold resumeTraced at awake live ⊢
    split at awake
    case isTrue => exact absurd (awake.symm.trans suspended) (by decide)
    case isFalse some =>
      rw [if_neg some] at live ⊢
      exact finish_leaves (@sigProc_leaves _ { rmp with traced := false } _ suspended
        (sound.depth suspended)) awake live
  all_goals first
    | exact absurd able asleep
    | exact absurd (awake.symm.trans suspended) (by decide)

end Stays

/-! ### Main results -/

/-- Every `sigsuspend` that has come to an end has given the process its old mask, or the handler
that has ended it will when it returns. -/
def Restores (rmp : Mproc) : Prop :=
  (∀ pair ∈ rmp.handlers.resumed, pair.2 = pair.1) ∧
    ∀ frame ∈ rmp.handlers.frames, ∀ before, frame.ended = some before →
      sigdelset frame.mask sigkill = before

theorem Sound.restores {rmp : Mproc} (sound : Sound rmp) : Restores rmp := by
  refine ⟨sound.handlers.resumed, fun frame member before ended => ?_⟩
  rw [sigdelset_of_absent (sound.handlers.masks frame member)]
  exact sound.handlers.ended frame member before ended

theorem run_sound {events : List Event} {rmp : Mproc}
    (run : Run step Undisturbed init events rmp) : Sound rmp :=
  run.invariant init_sound fun _ _ _ sound undisturbed stepped =>
    step_sound sound undisturbed stepped

/-- A process gets the mask back that it had before `sigsuspend`, at the latest when the handler
returns, exactly when no signal but `SIGKILL` has stopped it in `sigsuspend` while it was traced
and had a temporary mask. When a process leaves `SIGSUSPENDED` alive, this is noted or a handler
runs. -/
theorem sigsuspend_restores_iff {events : List Event} {rmp : Mproc}
    (run : Run step (fun _ _ => True) init events rmp) :
    (Restores rmp ↔ Run step Undisturbed init events rmp) ∧
      (Run step Undisturbed init events rmp → ∀ event rmp', step rmp event = some rmp' →
        rmp.sigsuspended = true → rmp'.sigsuspended = false → rmp'.live = true →
          Leaves rmp rmp') := by
  refine ⟨⟨fun restores => ?_, fun undisturbed => (run_sound undisturbed).restores⟩,
    fun undisturbed event rmp' stepped => step_leaves (run_sound undisturbed) stepped⟩
  have noted := restores.1
  clear restores
  induction run with
  | nil => exact .nil
  | @snoc _ _ _ event _ _ stepped inductionHypothesis =>
    have earlier := inductionHypothesis fun pair member => noted pair (step_notes stepped pair member)
    refine .snoc earlier ?_ stepped
    by_contra disturbed
    obtain ⟨pair, member, different⟩ := step_disturbed (run_sound earlier) disturbed stepped
    exact different (noted pair member)

/-- `SIGTERM` -/
def sigterm : Nat := 15

/-- A process blocks `SIGUSR1`, waits for `SIGTERM` with an empty mask, and its handler returns. -/
def caughtTerm : List Event :=
  [.sigaction sigterm (some { handler := 4096 }), .sigprocmask ⟨true, true, false⟩ .block 0x400,
    .sigsuspend ⟨true, true, false⟩ 0, .signal ⟨true, true, false⟩ sigterm, .replied,
    .sigreturn ⟨true, true, false⟩]

/-- The signal is caught, and the mask is the one from before the call. -/
theorem sigsuspend_restores_iff_caught : ∃ rmp,
    Run step (fun _ _ => True) init caughtTerm rmp ∧ rmp.handlers.resumed = [(0x400, 0x400)] ∧
      Run step Undisturbed init caughtTerm rmp := by
  have executed : (Transition.execute step (fun _ _ => True) caughtTerm init).map
      (fun rmp => (rmp.handlers.resumed, rmp.handlers.frames)) = some ([(0x400, 0x400)], []) := by
    decide
  obtain ⟨rmp, executed, found⟩ := map_eq_some_iff.mp executed
  obtain ⟨resumed, frames⟩ := Prod.mk.inj found
  have run := Run.of_execute executed
  refine ⟨rmp, run, resumed, (sigsuspend_restores_iff run).1.mp ⟨fun pair member => ?_, ?_⟩⟩
  · rw [resumed] at member
    obtain rfl := List.mem_singleton.mp member
    rfl
  · rw [frames]
    exact fun _ member => by cases member

/-- The process is traced, and has no handler. -/
def tracedTerm : List Event :=
  [.traceOk, .sigprocmask ⟨true, true, false⟩ .block 0x400, .sigsuspend ⟨true, true, false⟩ 0,
    .signal ⟨true, true, false⟩ sigterm]

/-- It is stopped with the empty mask. -/
theorem sigsuspend_keeps_temporary_mask :
    ¬ ∀ events rmp, Run step (fun _ _ => True) init events rmp → Restores rmp := by
  intro claimed
  have executed : (Transition.execute step (fun _ _ => True) tracedTerm init).map
      (fun rmp => rmp.handlers.resumed) = some [(0x400, 0)] := by
    decide
  obtain ⟨rmp, executed, resumed⟩ := map_eq_some_iff.mp executed
  have restored := (claimed tracedTerm rmp (Run.of_execute executed)).1 (0x400, 0)
    (resumed ▸ List.mem_cons_self)
  exact absurd restored (by decide)

end Minix.Mm.SigProc
