/-
This file proves that a serial line is in order after any steps at which the driver does not go
wrong, wherever interrupts occur: each step keeps both sides in order, and an initialized line is.
-/

import Minix.Kernel.SerialInput
import Minix.Kernel.SerialOutput

namespace Minix.Kernel.Serial

open Transition
open Option (some.inj)

/-! ### Steps -/

/-- Both sides are in order. -/
structure Line.Ok (l : Line) : Prop where
  output : l.output.Ok
  input : l.input.Ok

section Steps

variable {l l' : Line} {action : Action}

@[simp] theorem input_outInt : l.outInt.input = l.input := by
  unfold Line.outInt
  split
  · split
    · rfl
    · split <;> rfl
  · rfl

@[simp] theorem input_inControl {c : UInt8} {txready : Bool} :
    (l.inControl c txready).input = l.input := by
  unfold Line.inControl
  dsimp only
  split
  · split
    · rfl
    · split
      · split
        · exact input_outInt
        · rfl
      · rfl
  · rfl

@[simp] theorem input_modemInt {hangup cts txready : Bool} :
    (l.modemInt hangup cts txready).input = l.input := by
  have carrier : (l.modemCarrier hangup).input = l.input := by
    cases hangup <;> rfl
  rw [← carrier]
  unfold Line.modemInt Line.modemReady
  dsimp only
  split
  · rfl
  · split
    · split
      · exact input_outInt
      · rfl
    · rfl

@[simp] theorem input_latch {cts : Bool} : (l.latch cts).input = l.input := by
  unfold Line.latch
  split <;> rfl

theorem input_followInhibited : l.followInhibited.input = l.input := by
  unfold Line.followInhibited
  split <;> rfl

theorem input_measure : l.measure.input = l.input := by
  unfold Line.measure
  dsimp only
  split <;> rfl

theorem input_process {echo : Bool} {count space : Int} :
    (l.process echo count space).input = l.input := by
  unfold Line.process
  dsimp only
  split
  · split <;> rfl
  · rfl

theorem input_count {echo txready : Bool} {count used : Int} :
    (l.count echo count used txready).input = l.input := by
  unfold Line.count Line.rsOstart
  split
  · exact input_outInt
  · rfl

theorem input_advance {echo : Bool} {count used : Int} :
    (l.advance echo count used).input = l.input := by
  unfold Line.advance
  dsimp only
  split <;> rfl

theorem output_offer : l.offer.output = l.output := by
  unfold Line.offer
  split <;> rfl

theorem output_release {count : Nat} : (l.release count).output = l.output := by
  unfold Line.release
  dsimp only
  split <;> rfl

@[simp] theorem output_inStore {c : UInt8} : (l.inStore c).output = l.output := by
  have admitted : l.allowInput.output = l.output := by
    unfold Line.allowInput
    dsimp only
    split <;> rfl
  rw [← admitted]
  unfold Line.inStore
  split
  · rw [admitted]
  · dsimp only
    split <;> rfl

theorem inTerminal_away (terminal : l.inTerminal = true) : l.writer = .away :=
  beq_iff_eq.mp (Bool.and_eq_true_iff.mp terminal).1

theorem outside_away (outside : l.outside = true) : l.writer = .away ∧ l.reader = .away := by
  obtain ⟨writer, reader⟩ := Bool.and_eq_true_iff.mp outside
  exact ⟨beq_iff_eq.mp writer, beq_iff_eq.mp reader⟩

theorem of_guard {condition : Prop} [Decidable condition]
    (taken : (if condition then some l else none) = some l') : condition ∧ l = l' := by
  obtain ⟨holds, done⟩ := Option.ite_none_right_eq_some.mp taken
  exact ⟨holds, some.inj done⟩

/-- Every section and every interrupt keeps both sides in order. -/
theorem step_ok (ok : l.Ok) (sound : l.Sound action) (taken : l.step action = some l') :
    l'.Ok := by
  obtain ⟨output, input⟩ := ok
  cases action with
  | tty tty =>
    obtain ⟨-, rfl⟩ := of_guard taken
    exact ⟨output, input⟩
  | ioctl =>
    obtain ⟨-, rfl⟩ := of_guard taken
    exact ⟨output, input⟩
  | write =>
    obtain ⟨outside, rfl⟩ := of_guard taken
    refine ⟨followInhibited_ok output (outside_away outside).1 sound, ?_⟩
    change l.followInhibited.input.Ok
    rw [input_followInhibited]
    exact input
  | echo =>
    obtain ⟨terminal, done⟩ := Option.ite_none_right_eq_some.mp taken
    have away : l.output.writer = .away := inTerminal_away terminal
    split at done
    · obtain rfl := some.inj done
      exact ⟨output, input⟩
    · rename_i full
      obtain rfl := some.inj done
      have counts : 0 ≤ l.rs.ocount ∧ l.rs.ocount ≤ rsObufsize := output.count
      exact ⟨output.goTo away (by simp) rfl ⟨by decide, by omega, le_rfl⟩, input⟩
  | ocancel =>
    obtain ⟨terminal, rfl⟩ := of_guard taken
    exact ⟨rsOcancel_ok output (inTerminal_away terminal), input⟩
  | read =>
    obtain ⟨outside, rfl⟩ := of_guard taken
    have reader := (outside_away outside).2
    refine ⟨checkHangup_output output, ?_⟩
    have looping : InputSide.Ok { l.input with reader := .looping } :=
      input.goTo reader rfl trivial
    unfold Line.checkHangup
    dsimp only
    split
    · split
      · exact input
      · exact looping
    · exact looping
  | icancel =>
    obtain ⟨outside, rfl⟩ := of_guard taken
    exact ⟨output, rsIcancel_ok input (outside_away outside).2⟩
  | drain =>
    obtain ⟨deciding, done⟩ := Option.ite_none_right_eq_some.mp taken
    have deciding : l.output.writer = .deciding := deciding
    split at done
    · split at done
      · obtain rfl := some.inj done
        exact ⟨output.goTo deciding (by simp) rfl trivial, input⟩
      · rename_i none
        obtain rfl := some.inj done
        have counts : 0 ≤ l.rs.ocount ∧ l.rs.ocount ≤ rsObufsize := output.count
        have empty : l.output.ocount = 0 := by
          change l.rs.ocount = 0
          omega
        exact ⟨output.goTo deciding (by simp) rfl empty, input⟩
    · obtain rfl := some.inj done
      exact ⟨output.goTo deciding (by simp) rfl trivial, input⟩
  | takeStop =>
    obtain ⟨configuring, rfl⟩ := of_guard taken
    exact ⟨takeStop_ok output configuring, input⟩
  | takeClocal =>
    obtain ⟨attaching, rfl⟩ := of_guard taken
    exact ⟨takeClocal_ok output attaching, input⟩
  | latch cts =>
    obtain ⟨latching, rfl⟩ := of_guard taken
    refine ⟨latch_ok output latching sound, ?_⟩
    change (l.latch cts).input.Ok
    rw [input_latch]
    exact input
  | measure =>
    obtain ⟨looping, rfl⟩ := of_guard taken
    exact ⟨measure_ok output looping, by rwa [input_measure]⟩
  | store bytes =>
    dsimp only [Line.step] at taken
    split at taken
    · rename_i measured
      obtain ⟨length, rfl⟩ := of_guard taken
      exact ⟨store_ok output measured length, input⟩
    · cases taken
  | process =>
    dsimp only [Line.step] at taken
    split at taken
    · rename_i stored
      obtain rfl := some.inj taken
      exact ⟨process_ok output stored, by rwa [input_process]⟩
    · cases taken
  | count txready =>
    dsimp only [Line.step] at taken
    split at taken
    · rename_i processed
      obtain rfl := some.inj taken
      exact ⟨count_ok output processed sound, by rwa [input_count]⟩
    · cases taken
  | advance =>
    dsimp only [Line.step] at taken
    split at taken
    · rename_i counted
      obtain rfl := some.inj taken
      exact ⟨advance_ok output counted, by rwa [input_advance]⟩
    · cases taken
  | offer =>
    obtain ⟨⟨-, looping⟩, rfl⟩ := of_guard taken
    exact ⟨by rwa [output_offer], offer_ok input looping⟩
  | take taken' =>
    dsimp only [Line.step] at taken
    split at taken
    · rename_i offered
      obtain ⟨⟨-, atMost⟩, rfl⟩ := of_guard taken
      have accepted := take_ok input offered atMost
      exact ⟨output, accepted⟩
    · cases taken
  | release =>
    dsimp only [Line.step] at taken
    split at taken
    · rename_i consumed
      obtain rfl := some.inj taken
      exact ⟨by rwa [output_release], release_ok input consumed⟩
    · cases taken
  | retire =>
    dsimp only [Line.step] at taken
    split at taken
    · rename_i behind
      obtain rfl := some.inj taken
      exact ⟨output, retire_ok input behind⟩
    · cases taken
  | inInt c txready =>
    obtain rfl := some.inj taken
    refine ⟨?_, inStore_ok ?_⟩
    · rw [Line.inInt, output_inStore]
      exact inControl_ok output sound
    · rw [input_inControl]
      exact input
  | outInt =>
    obtain rfl := some.inj taken
    exact ⟨outInt_ok output sound, by rwa [input_outInt]⟩
  | modemInt hangup cts txready =>
    obtain rfl := some.inj taken
    exact ⟨modemInt_ok output sound, by rwa [input_modemInt]⟩
  | lineInt status =>
    obtain rfl := some.inj taken
    exact ⟨output, input⟩

end Steps

/-! ### Runs -/

section Runs

variable {l : Line} {tty : Tty} {cts cts' : Bool} {actions : List Action}

/-- The output side of a line that has not been configured. -/
def OutputSide.blank : OutputSide where
  ostate := 0
  oxoff := 0
  cts := 0
  inhibited := false
  ocount := 0
  ohead := 0
  otail := 0
  obuf := fun _ => 0
  writer := .configuring
  history := []

theorem blank_ok : OutputSide.blank.Ok := by
  refine ⟨by decide, by decide, ⟨le_rfl, by decide⟩, rfl, by decide, ?_, ?_, ?_, rfl, rfl, rfl,
    rfl, .nil⟩
  · intro set
    exact absurd set (by decide)
  · intro set
    exact absurd set (by decide)
  · intro stopped
    exact absurd stopped (by decide)

theorem latch_writer {writer : Writer} :
    ({ l with writer } : Line).latch cts = { l.latch cts with writer } := by
  unfold Line.latch
  split <;> rfl

theorem latch_rs : (l.latch cts).rs = { l.rs with ostate := (l.latch cts).rs.ostate } := by
  unfold Line.latch
  split <;> rfl

/-- An initialized line is in order: it is configured like a line that is empty, and reads the modem
status last. -/
theorem rsInit_ok : (Line.rsInit tty cts cts').Ok := by
  let plain : Line := ({ rs := {}, tty } : Line).istop.takeStop.takeClocal
  have stop := takeStop_ok (l := { ({ rs := {}, tty } : Line).istop with writer := .configuring })
    blank_ok rfl
  have attached := takeClocal_ok
    (l := { ({ rs := {}, tty } : Line).istop.takeStop with writer := .attaching }) stop rfl
  have latched := @latch_ok { plain with writer := .latching } cts attached rfl (by
    dsimp only [Line.Sound]
    split
    · exact fun set => (set (show (0 : BitVec 8) &&& odevready = 0 by decide)).elim
    · exact ⟨rfl, fun stopped => by cases stopped⟩)
  rw [latch_writer] at latched
  have configured : OutputSide.Ok { (plain.latch cts).output with writer := .looping } := latched
  have empty : (plain.latch cts).rs.ocount = 0 := by rw [latch_rs]; rfl
  have held : (plain.latch cts).rs.inhibited = false := by rw [latch_rs]; rfl
  have started : (conditionsAfter (plain.latch cts).history).stopped = false := by
    unfold Line.latch
    split <;> rfl
  have none : (plain.latch cts).rs.ostate.getLsbD 5 = false := by
    have queued : (plain.latch cts).rs.ostate.getLsbD 5 = true ↔ 0 < (plain.latch cts).rs.ocount :=
      configured.queued
    rw [Bool.eq_false_iff, Ne, queued, empty]
    decide
  have bits : flags ((plain.latch cts).devready cts' ||| oraw ||| oswready) =
      (((plain.latch cts).devready cts').getLsbD 4, (plain.latch cts).rs.ostate.getLsbD 5,
        true) := by
    rw [flags_set_soft, flags_devready.1, none]
  have writer : (plain.latch cts).writer = .away := by
    unfold Line.latch
    split <;> rfl
  have read := configured.note (.cts cts') rfl bits
    (fun _ => ⟨started, configured.inhibited.trans held⟩)
    (fun set => (flags_devready.2 set).imp_right fun on => Or.inl (configured.clocal.trans on))
    configured.flow configured.stopChar configured.clocal configured.inhibited
    (show (plain.latch cts).writer.lead = _ by rw [writer]; rfl) (by rw [writer]; trivial)
  refine ⟨read, ?_⟩
  change InputSide.Ok { (plain.latch cts).input with
    idevready := true, modemCtl := mcOut2 ||| mcRts ||| mcDtr }
  rw [input_latch]
  change InputSide.Ok ⟨0, 0, 0, true, mcOut2 ||| mcRts ||| mcDtr, .away⟩
  exact ⟨by decide, by decide, by decide, rfl, (fun waits => by cases waits),
    fun _ => istart_raised, trivial⟩

theorem Line.Ok.correct (ok : l.Ok) : l.Correct := by
  obtain ⟨output, input⟩ := ok
  have outputs : 0 ≤ l.rs.ocount ∧ l.rs.ocount ≤ rsObufsize := output.count
  have inputs : 0 ≤ l.rs.icount ∧ l.rs.icount ≤ rsIbufsize := input.count
  refine ⟨outputs, inputs, ?_, ?_, ?_, output.accepted, fun low => ?_⟩
  · have distance : (l.rs.otail + l.rs.ocount.toNat) % rsObufsize =
      (l.rs.ohead + l.writer.lead) % rsObufsize := output.distance
    unfold rsObufsize at distance ⊢
    omega
  · have distance : (l.rs.itail + l.reader.lag + l.rs.icount.toNat) % rsIbufsize =
      l.rs.ihead % rsIbufsize := input.distance
    unfold rsIbufsize at distance ⊢
    omega
  · rw [Ne, and_oqueued, Bool.not_eq_false]
    exact output.queued
  · refine input.raised ?_
    by_contra waits
    have high : rsIlowwater ≤ l.rs.icount := input.told (Bool.not_eq_true _ ▸ waits)
    omega

/-- A serial line is in order after any steps at which the driver does not go wrong, wherever
interrupts occur. -/
theorem serial_line_correct (run : Run Line.step Line.Sound (Line.rsInit tty cts cts') actions l) :
    l.Correct :=
  (run.invariant rsInit_ok fun _ _ _ ok sound taken => step_ok ok sound taken).correct

/-- The default attributes. -/
def ttyDefaults : Tty where
  cIflag := 0x0A03
  cOflag := 0x0003
  cCflag := 0x002E
  cLflag := 0x0073
  cOspeed := 0xD000
  vstop := 0x13

/-- Two characters are written: the first is sent at once and the rest by interrupts, one of them
before the head has moved. A character arrives and is read. -/
def writeAndRead : List Action :=
  [.outInt, .tty { ttyDefaults with outleft := 2 }, .write, .drain, .measure, .store [104, 10],
    .process, .count true, .outInt, .advance, .measure, .outInt, .inInt 97 true, .read, .offer,
    .take 1, .release, .retire, .offer]

/-- The line is correct after a write, a read and the interrupts between them. -/
theorem serial_line_correct_write : ∃ l,
    execute Line.step Line.Sound writeAndRead (Line.rsInit ttyDefaults true true) = some l ∧
      l.Correct := by
  have done : (execute Line.step Line.Sound writeAndRead
      (Line.rsInit ttyDefaults true true)).isSome = true := by decide
  obtain ⟨l, executed⟩ := Option.isSome_iff_exists.mp done
  exact ⟨l, executed, serial_line_correct (Run.of_execute executed)⟩

/-- The carrier drops while the line is idle, and the transmitter becomes ready: a character that
was never queued is sent. -/
theorem serial_line_sends_unqueued : ∃ l,
    Run Line.step (fun _ _ => True) (Line.rsInit ttyDefaults true true)
      [.modemInt true true false, .outInt] l ∧ l.rs.ocount = -1 ∧ ¬l.Correct := by
  refine ⟨_, .cons trivial rfl (.cons trivial rfl .nil), by decide, fun correct => ?_⟩
  exact absurd correct.outputCount.1 (by decide)

end Runs

end Minix.Kernel.Serial
