/-
This file says what a serial line is for: characters are queued, and each is sent once, in order,
unless it is cancelled. A character is sent only when the other side may receive it. The device has
raised CTS, or the line does not look at it, the last character received did not stop output, and
the terminal does not hold output back.

Which conditions hold is known from what has happened at the borders of the driver, whatever the
driver remembers of it.
-/

import Minix.Library.Transition
import Minix.Kernel.Rs232

namespace Minix.Kernel.Serial

open Ring Transition

/-! ### Conditions for output -/

structure Conditions where
  cts : Bool := false
  clocal : Bool := false
  flow : Bool := false
  stopChar : UInt8 := 0
  /-- The stop character was received. -/
  stopped : Bool := false
  inhibited : Bool := false
deriving DecidableEq

namespace Conditions

/-- With start/stop output control the stop character stops output, and any other character starts
it again. -/
def after (conditions : Conditions) : Event → Conditions
  | .received byte =>
    if conditions.flow then { conditions with stopped := byte == conditions.stopChar }
    else conditions
  | .cts up => { conditions with cts := up }
  | .inhibited stopped => { conditions with inhibited := stopped }
  | .stopChar byte => { conditions with stopChar := byte }
  | .clocal on => { conditions with clocal := on }
  | .flow on => { conditions with flow := on, stopped := conditions.stopped && on }
  | .queued _ | .sent _ | .cancelled => conditions

section Received

variable (conditions : Conditions) (byte : UInt8)

theorem after_received : conditions.after (.received byte) =
    if conditions.flow then { conditions with stopped := byte == conditions.stopChar }
    else conditions := rfl

@[simp] theorem after_received_cts :
    (conditions.after (.received byte)).cts = conditions.cts := by
  rw [after_received]
  split <;> rfl

@[simp] theorem after_received_clocal :
    (conditions.after (.received byte)).clocal = conditions.clocal := by
  rw [after_received]
  split <;> rfl

@[simp] theorem after_received_flow :
    (conditions.after (.received byte)).flow = conditions.flow := by
  rw [after_received]
  split <;> rfl

@[simp] theorem after_received_stopChar :
    (conditions.after (.received byte)).stopChar = conditions.stopChar := by
  rw [after_received]
  split <;> rfl

@[simp] theorem after_received_inhibited :
    (conditions.after (.received byte)).inhibited = conditions.inhibited := by
  rw [after_received]
  split <;> rfl

end Received

/-- The other side may be sent a character. -/
def ready (conditions : Conditions) : Bool :=
  (conditions.cts || conditions.clocal) && !conditions.stopped && !conditions.inhibited

end Conditions

/-! ### The line -/

structure Wire where
  queue : List UInt8 := []
  conditions : Conditions := {}
deriving DecidableEq

/-- What may happen at the borders. A character that is sent must be the oldest one in the queue,
and the line must be ready. -/
def Wire.step (wire : Wire) : Event → Option Wire
  | .queued bytes => some { wire with queue := wire.queue ++ bytes }
  | .sent byte =>
    if wire.conditions.ready ∧ wire.queue.head? = some byte then
      some { wire with queue := wire.queue.tail }
    else none
  | .cancelled => some { wire with queue := [] }
  | event => some { wire with conditions := wire.conditions.after event }

/-- The conditions after what has happened. -/
def conditionsAfter (history : List Event) : Conditions := history.foldl Conditions.after {}

@[simp] theorem conditionsAfter_snoc {history : List Event} {event : Event} :
    conditionsAfter (history ++ [event]) = (conditionsAfter history).after event :=
  List.foldl_append

/-- The history is one of the line, and these characters are in its queue. -/
def Accepted (history : List Event) (queue : List UInt8) : Prop :=
  Run Wire.step (fun _ _ => True) {} history ⟨queue, conditionsAfter history⟩

theorem Accepted.nil : Accepted [] [] := Run.nil

theorem Accepted.snoc {history : List Event} {event : Event} {queue queue' : List UInt8}
    (accepted : Accepted history queue)
    (taken : Wire.step ⟨queue, conditionsAfter history⟩ event =
      some ⟨queue', (conditionsAfter history).after event⟩) :
    Accepted (history ++ [event]) queue' := by
  unfold Accepted
  rw [conditionsAfter_snoc]
  exact Run.snoc accepted trivial taken

/-- The output that is counted before the head has moved. -/
def Writer.lead : Writer → Nat
  | .counted _ _ used => used.toNat
  | _ => 0

/-- The input that is no longer counted before the tail has moved. -/
def Reader.lag : Reader → Nat
  | .released count => count
  | _ => 0

namespace Line

variable (l : Line)

def conditions : Conditions := conditionsAfter l.history

/-- The line is in order: the counts are in bounds and agree with the distances, OQUEUED says that
there is output, what has been sent is what was queued, in order and when the line was ready, and
the device may send when there is little input. -/
structure Correct : Prop where
  outputCount : 0 ≤ l.rs.ocount ∧ l.rs.ocount ≤ rsObufsize
  inputCount : 0 ≤ l.rs.icount ∧ l.rs.icount ≤ rsIbufsize
  outputDistance : ((l.rs.ohead + l.writer.lead : Int) - l.rs.otail) % rsObufsize =
    l.rs.ocount % rsObufsize
  inputDistance : ((l.rs.ihead : Int) - (l.rs.itail + l.reader.lag)) % rsIbufsize =
    l.rs.icount % rsIbufsize
  queued_iff : l.rs.ostate &&& oqueued ≠ 0 ↔ 0 < l.rs.ocount
  transmitted : Accepted l.history (contents rsObufsize l.rs.obuf l.rs.otail l.rs.ocount.toNat)
  told : l.rs.icount < rsIlowwater → l.modemCtl &&& mcRts ≠ 0

end Line

/-! ### Steps that are in order -/

/-- The flags that `out_int` requires. -/
def outputFlags : BitVec 8 := odevready ||| oqueued ||| oswready

/-- The comparison in `out_int` finds the required flags, unless the carrier has dropped. -/
def Compares (ostate : BitVec 8) : Prop :=
  ostate &&& odevhup ≠ 0 → ostate &&& outputFlags = outputFlags

instance (ostate : BitVec 8) : Decidable (Compares ostate) := inferInstanceAs (Decidable (_ → _))

namespace Line

variable (l : Line)

/-- The steps at which the driver does not go wrong. Output is not considered after the carrier has
dropped, unless it could be sent. The line is not configured while output is stopped, and its speed
is not set to B0 so that it depends on a CTS that is down. The stop character does not arrive when
the driver takes it for an ordinary one, and no other character arrives that starts output the
terminal holds back. The terminal does not start output that the stop character has stopped. -/
def Sound : Action → Prop
  | .write =>
    l.rs.inhibited = true → l.tty.inhibited = false → l.conditions.stopped = false
  | .latch _ =>
    if divisor l.tty.cOspeed = 0 then
      l.rs.ostate &&& odevready ≠ 0 → l.conditions.cts = true ∨ l.conditions.clocal = true
    else
      l.conditions.inhibited = false ∧ (l.conditions.stopped = true → flowControl l.tty = false)
  | .count txready => txready = true → Compares (l.rs.ostate ||| oqueued)
  | .inInt c txready =>
    if l.rs.ostate &&& oraw = 0 then
      c ≠ l.rs.oxoff → l.rs.ostate &&& oswready = 0 →
        l.conditions.inhibited = false ∧ (txready = true → Compares (l.rs.ostate ||| oswready))
    else l.conditions.flow = true → c ≠ l.conditions.stopChar
  | .outInt => Compares l.rs.ostate
  | .modemInt hangup cts txready =>
    l.devready cts ≠ 0 → l.rs.ostate &&& odevready = 0 → txready = true →
      Compares (l.rs.ostate ||| (if hangup then odevhup else 0) ||| odevready)
  | _ => True

instance (l : Line) (action : Action) : Decidable (l.Sound action) := by
  cases action <;> dsimp only [Sound] <;> infer_instance

end Line

end Minix.Kernel.Serial
