/-
This file proves that the output side of a serial line stays in order: the fields that output uses,
whatever happens to those of input.

In the middle of an update the count is ahead of the head, which follows it. The flags say what is
known of the conditions for output, as long as the driver keeps them up to date.
-/

import Minix.Kernel.Wire

namespace Minix.Kernel.Serial

open Ring Transition

/-! ### The flags -/

section Flags

variable {ostate : BitVec 8}

@[simp] theorem and_odevready : ostate &&& odevready = 0 ↔ ostate.getLsbD 4 = false := by
  revert ostate
  decide

@[simp] theorem and_oqueued : ostate &&& oqueued = 0 ↔ ostate.getLsbD 5 = false := by
  revert ostate
  decide

@[simp] theorem and_odevhup : ostate &&& odevhup = 0 ↔ ostate.getLsbD 7 = false := by
  revert ostate
  decide

theorem and_outputFlags : ostate &&& outputFlags = outputFlags ↔
    ostate.getLsbD 4 = true ∧ ostate.getLsbD 5 = true ∧ ostate.getLsbD 6 = true := by
  revert ostate
  decide

theorem outputFlags_le : outputFlags ≤ ostate ↔ ostate.getLsbD 7 = true ∨
    ostate.getLsbD 4 = true ∧ ostate.getLsbD 5 = true ∧ ostate.getLsbD 6 = true := by
  revert ostate
  decide

theorem Compares.flags (compares : Compares ostate) (found : outputFlags ≤ ostate) :
    ostate.getLsbD 4 = true ∧ ostate.getLsbD 5 = true ∧ ostate.getLsbD 6 = true := by
  rcases outputFlags_le.mp found with hangup | flags
  · refine and_outputFlags.mp (compares ?_)
    rw [Ne, and_odevhup, hangup]
    decide
  · exact flags

/-- The flags that output depends on. -/
def flags (ostate : BitVec 8) : Bool × Bool × Bool :=
  (ostate.getLsbD 4, ostate.getLsbD 5, ostate.getLsbD 6)

theorem flags_set_oqueued :
    flags (ostate ||| oqueued) = (ostate.getLsbD 4, true, ostate.getLsbD 6) := by
  revert ostate
  decide

theorem flags_clear_oqueued : flags (ostate &&& ~~~(odone ||| oqueued)) =
    (ostate.getLsbD 4, false, ostate.getLsbD 6) := by
  revert ostate
  decide

theorem flags_toggle_oqueued : flags (ostate ^^^ (odone ||| oqueued)) =
    (ostate.getLsbD 4, !ostate.getLsbD 5, ostate.getLsbD 6) := by
  revert ostate
  decide

theorem flags_set_oswready :
    flags (ostate ||| oswready) = (ostate.getLsbD 4, ostate.getLsbD 5, true) := by
  revert ostate
  decide

theorem flags_clear_oswready :
    flags (ostate &&& ~~~oswready) = (ostate.getLsbD 4, ostate.getLsbD 5, false) := by
  revert ostate
  decide

theorem flags_set_odevready :
    flags (ostate ||| odevready) = (true, ostate.getLsbD 5, ostate.getLsbD 6) := by
  revert ostate
  decide

theorem flags_clear_odevready :
    flags (ostate &&& ~~~odevready) = (false, ostate.getLsbD 5, ostate.getLsbD 6) := by
  revert ostate
  decide

theorem flags_set_odevhup : flags (ostate ||| odevhup) = flags ostate := by
  revert ostate
  decide

theorem flags_clear_odevhup : flags (ostate &&& ~~~odevhup) = flags ostate := by
  revert ostate
  decide

theorem flags_clear_oraw : flags (ostate &&& ~~~oraw) = flags ostate := by
  revert ostate
  decide

theorem flags_set_soft : flags (ostate ||| oraw ||| oswready) =
    (ostate.getLsbD 4, ostate.getLsbD 5, true) := by
  revert ostate
  decide

end Flags
/-! ### The output side -/

/-- What output uses. -/
structure OutputSide where
  ostate : BitVec 8
  oxoff : UInt8
  cts : BitVec 8
  inhibited : Bool
  ocount : Int
  ohead : Nat
  otail : Nat
  obuf : Nat → UInt8
  writer : Writer
  history : List Event

def Line.output (l : Line) : OutputSide where
  ostate := l.rs.ostate
  oxoff := l.rs.oxoff
  cts := l.rs.cts
  inhibited := l.rs.inhibited
  ocount := l.rs.ocount
  ohead := l.rs.ohead
  otail := l.rs.otail
  obuf := l.rs.obuf
  writer := l.writer
  history := l.history

/-- What is known of the task's variables, wherever it is in an output function. The room it has
measured can only grow, and there is no output while the line is configured. -/
def Writer.Ok (ocount : Int) : Writer → Prop
  | .configuring | .attaching | .latching => ocount = 0
  | .measured _ count space => count ≠ 0 ∧ count ≤ space ∧ space ≤ rsObufsize - ocount
  | .stored _ count space => 0 < count ∧ count ≤ space ∧ space ≤ rsObufsize - ocount
  | .processed _ _ used => 0 < used ∧ used ≤ rsObufsize - ocount
  | .counted _ _ used => 0 < used ∧ used ≤ rsObufsize
  | .away | .deciding | .looping => True

/-- What holds of the output side in every state. -/
structure OutputSide.Ok (o : OutputSide) : Prop where
  ohead : o.ohead < rsObufsize
  otail : o.otail < rsObufsize
  count : 0 ≤ o.ocount ∧ o.ocount ≤ rsObufsize
  distance : (o.otail + o.ocount.toNat) % rsObufsize =
    (o.ohead + o.writer.lead) % rsObufsize
  queued : o.ostate.getLsbD 5 = true ↔ 0 < o.ocount
  software : o.ostate.getLsbD 6 = true →
    (conditionsAfter o.history).stopped = false ∧ (conditionsAfter o.history).inhibited = false
  device : o.ostate.getLsbD 4 = true → (conditionsAfter o.history).cts = true ∨
    (conditionsAfter o.history).clocal = true ∨ o.writer = .latching
  flow : (conditionsAfter o.history).stopped = true → (conditionsAfter o.history).flow = true
  stopChar : (conditionsAfter o.history).stopChar = o.oxoff
  clocal : (conditionsAfter o.history).clocal = o.cts.getLsbD 4
  inhibited : (conditionsAfter o.history).inhibited = o.inhibited
  writer : o.writer.Ok o.ocount
  accepted : Accepted o.history (contents rsObufsize o.obuf o.otail o.ocount.toNat)

/-! ### Output -/

section Output

variable {o : OutputSide} {l : Line} {ostate : BitVec 8} {writer : Writer} {cts : Bool}

theorem OutputSide.Ok.goTo (ok : o.Ok) {here : Writer} (standing : o.writer = here)
    (leaves : here ≠ .latching) (lead : writer.lead = here.lead) (arrives : writer.Ok o.ocount) :
    OutputSide.Ok { o with writer } := by
  subst standing
  refine { ok with distance := ?_, device := fun set => ?_, writer := arrives }
  · rw [ok.distance, lead]
  · rcases ok.device set with up | on | latching
    · exact Or.inl up
    · exact Or.inr (Or.inl on)
    · exact absurd latching leaves

/-- `out_int` sends a character. -/
def OutputSide.transmit (o : OutputSide) : OutputSide :=
  { o with
    ostate := if o.ocount - 1 = 0 then o.ostate ^^^ (odone ||| oqueued) else o.ostate
    otail := next rsObufsize o.otail
    ocount := o.ocount - 1
    history := o.history ++ [.sent (o.obuf o.otail)] }

theorem output_outInt : l.outInt.output =
    if outputFlags ≤ l.rs.ostate then l.output.transmit else l.output := by
  unfold Line.outInt
  change (if outputFlags ≤ l.rs.ostate then _ else _ : Line).output = _
  split
  · by_cases last : l.send.rs.ocount = 0
    · rw [if_pos last, OutputSide.transmit, if_pos (show l.output.ocount - 1 = 0 from last)]
      rfl
    · rw [if_neg last, OutputSide.transmit, if_neg (show ¬l.output.ocount - 1 = 0 from last)]
      split <;> rfl
  · rfl

theorem Writer.Ok.transmit {ocount : Int} (ok : writer.Ok ocount) (positive : 0 < ocount) :
    writer.Ok (ocount - 1) := by
  cases writer <;> simp only [Writer.Ok] at ok ⊢ <;> omega

/-- Sending one byte keeps the output side. -/
theorem OutputSide.Ok.transmit (ok : o.Ok) (flags : o.ostate.getLsbD 4 = true ∧
    o.ostate.getLsbD 5 = true ∧ o.ostate.getLsbD 6 = true) : o.transmit.Ok := by
  obtain ⟨device, queued, software⟩ := flags
  have positive := ok.queued.mp queued
  obtain ⟨left, counted⟩ : ∃ left : Nat, o.ocount = left + 1 := ⟨(o.ocount - 1).toNat, by omega⟩
  have ready : (conditionsAfter o.history).ready = true := by
    obtain ⟨started, allowed⟩ := ok.software software
    have able : (conditionsAfter o.history).cts = true ∨
        (conditionsAfter o.history).clocal = true := by
      rcases ok.device device with up | on | latching
      · exact Or.inl up
      · exact Or.inr on
      · have empty : o.ocount = 0 := by simpa only [latching, Writer.Ok] using ok.writer
        omega
    simp [Conditions.ready, started, allowed, able]
  have accepted : Accepted (o.history ++ [.sent (o.obuf o.otail)])
      (contents rsObufsize o.obuf (next rsObufsize o.otail) left) := by
    have before := ok.accepted
    rw [counted, show ((left : Int) + 1).toNat = left + 1 from rfl, contents_pop ok.otail] at before
    exact before.snoc (if_pos ⟨ready, rfl⟩)
  have same : conditionsAfter (o.history ++ [.sent (o.obuf o.otail)]) = conditionsAfter o.history :=
    conditionsAfter_snoc
  have bits : flags o.transmit.ostate =
      (o.ostate.getLsbD 4, decide (0 < o.ocount - 1), o.ostate.getLsbD 6) := by
    unfold OutputSide.transmit
    split
    · rw [flags_toggle_oqueued, queued, decide_eq_false (by omega)]
      rfl
    · rw [flags, queued, decide_eq_true (by omega)]
  simp only [flags, Prod.mk.injEq] at bits
  have atMost := ok.count
  refine ⟨ok.ohead, next_lt ok.otail, ⟨?_, ?_⟩, ?_, by
      rw [bits.2.1, decide_eq_true_eq]
      rfl, ?_, ?_,
    ?_, ?_, ?_, ?_,
    ok.writer.transmit positive, ?_⟩
  · change 0 ≤ o.ocount - 1
    omega
  · change o.ocount - 1 ≤ rsObufsize
    omega
  · change (next rsObufsize o.otail + (o.ocount - 1).toNat) % rsObufsize =
      (o.ohead + o.writer.lead) % rsObufsize
    rw [← ok.distance, next_eq ok.otail, Nat.mod_add_mod]
    exact congrArg (· % rsObufsize) (by omega)
  · intro set
    exact same ▸ ok.software (bits.2.2 ▸ set)
  · intro set
    exact same ▸ ok.device (bits.1 ▸ set)
  · exact same ▸ ok.flow
  · exact same ▸ ok.stopChar
  · exact same ▸ ok.clocal
  · exact same ▸ ok.inhibited
  · change Accepted _ (contents _ _ _ (o.ocount - 1).toNat)
    rw [counted, show ((left : Int) + 1 - 1).toNat = left by omega]
    exact accepted

theorem outInt_ok (ok : l.output.Ok) (compares : Compares l.rs.ostate) : l.outInt.output.Ok := by
  rw [output_outInt]
  split
  · rename_i found
    exact ok.transmit (compares.flags found)
  · exact ok

/-- An event that changes the conditions is noted, and the driver's variables with it. -/
theorem OutputSide.Ok.note (ok : o.Ok) (event : Event) {oxoff : UInt8} {cts : BitVec 8}
    {inhibited device software : Bool}
    (plain : Wire.step ⟨contents rsObufsize o.obuf o.otail o.ocount.toNat,
        conditionsAfter o.history⟩ event =
      some ⟨contents rsObufsize o.obuf o.otail o.ocount.toNat,
        (conditionsAfter o.history).after event⟩)
    (bits : flags ostate = (device, o.ostate.getLsbD 5, software))
    (allowed : software = true →
      ((conditionsAfter o.history).after event).stopped = false ∧
        ((conditionsAfter o.history).after event).inhibited = false)
    (able : device = true → ((conditionsAfter o.history).after event).cts = true ∨
      ((conditionsAfter o.history).after event).clocal = true ∨ writer = .latching)
    (flow : ((conditionsAfter o.history).after event).stopped = true →
      ((conditionsAfter o.history).after event).flow = true)
    (stopChar : ((conditionsAfter o.history).after event).stopChar = oxoff)
    (clocal : ((conditionsAfter o.history).after event).clocal = cts.getLsbD 4)
    (inhibits : ((conditionsAfter o.history).after event).inhibited = inhibited)
    (lead : writer.lead = o.writer.lead) (arrives : writer.Ok o.ocount) :
    OutputSide.Ok { o with
      ostate, oxoff, cts, inhibited, writer, history := o.history ++ [event] } := by
  have same : conditionsAfter (o.history ++ [event]) = (conditionsAfter o.history).after event :=
    conditionsAfter_snoc
  simp only [flags, Prod.mk.injEq] at bits
  exact {
    ohead := ok.ohead
    otail := ok.otail
    count := ok.count
    distance := by rw [lead, ok.distance]
    queued := by rw [bits.2.1, ok.queued]
    software := fun set => same ▸ allowed (bits.2.2 ▸ set)
    device := fun set => same ▸ able (bits.1 ▸ set)
    flow := same ▸ flow
    stopChar := same ▸ stopChar
    clocal := same ▸ clocal
    inhibited := same ▸ inhibits
    writer := arrives
    accepted := ok.accepted.snoc plain }

/-! ### What interrupts do to output -/

/-- A character arrives. Output may only be started by a character that does not stop it. -/
theorem OutputSide.Ok.receive (ok : o.Ok) (c : UInt8) {software : Bool}
    (bits : flags ostate = (o.ostate.getLsbD 4, o.ostate.getLsbD 5, software))
    (allowed : software = true → (conditionsAfter o.history).inhibited = false ∧
      ((conditionsAfter o.history).flow = true → c ≠ (conditionsAfter o.history).stopChar)) :
    OutputSide.Ok { o with ostate, history := o.history ++ [.received c] } := by
  refine ok.note (.received c) rfl bits (fun set => ?_) (fun set => ?_) (fun stopped => ?_)
    (by simpa using ok.stopChar) (by simpa using ok.clocal) (by simpa using ok.inhibited) rfl
    ok.writer
  · obtain ⟨released, other⟩ := allowed set
    refine ⟨?_, by simpa using released⟩
    rw [Conditions.after_received]
    split
    · rename_i controlled
      simpa using other controlled
    · rename_i free
      by_contra stopped
      exact free (ok.flow (by simpa using stopped))
  · simpa using ok.device set
  · rw [Conditions.after_received_flow]
    rw [Conditions.after_received] at stopped
    split at stopped
    · assumption
    · exact ok.flow stopped

theorem inControl_ok {c : UInt8} {txready : Bool} (ok : l.output.Ok)
    (sound : l.Sound (.inInt c txready)) : (l.inControl c txready).output.Ok := by
  dsimp only [Line.Sound] at sound
  unfold Line.inControl
  -- OSWREADY is set already: then the terminal does not hold output back.
  have unchanged (other : l.conditions.flow = true → c ≠ l.conditions.stopChar) :
      OutputSide.Ok { l.output with
        ostate := l.rs.ostate, history := l.history ++ [.received c] } :=
    ok.receive c rfl fun set => ⟨(ok.software set).2, other⟩
  by_cases controlled : l.rs.ostate &&& oraw = 0
  · rw [if_pos controlled] at sound
    rw [if_pos (show (l.emit [.received c]).rs.ostate &&& oraw = 0 from controlled)]
    split
    · rename_i stops
      exact ok.receive c flags_clear_oswready fun set => absurd set Bool.false_ne_true
    · rename_i other
      have different : l.conditions.flow = true → c ≠ l.conditions.stopChar :=
        fun _ same => other (same.trans ok.stopChar)
      split
      · rename_i clear
        obtain ⟨released, compares⟩ := sound other clear
        have started : OutputSide.Ok { l.output with
            ostate := l.rs.ostate ||| oswready, history := l.history ++ [.received c] } :=
          ok.receive c flags_set_oswready fun _ => ⟨released, different⟩
        split
        · rename_i ready
          exact outInt_ok (l := (l.emit [.received c]).setOstate (l.rs.ostate ||| oswready))
            started (compares ready)
        · exact started
      · exact unchanged different
  · rw [if_neg controlled] at sound
    rw [if_neg (show ¬(l.emit [.received c]).rs.ostate &&& oraw = 0 from controlled)]
    exact unchanged sound

theorem devready_eq_zero :
    l.devready cts = 0 ↔ cts = false ∧ l.rs.cts.getLsbD 4 = false := by
  unfold Line.devready
  generalize l.rs.cts = status
  revert cts status
  decide

/-- The level of CTS is read, and ODEVREADY says whether the device is ready. -/
theorem OutputSide.Ok.readCts (ok : o.Ok) (up : Bool) {device : Bool}
    (bits : flags ostate = (device, o.ostate.getLsbD 5, o.ostate.getLsbD 6))
    (able : device = true → up = true ∨ o.cts.getLsbD 4 = true) :
    OutputSide.Ok { o with ostate, history := o.history ++ [.cts up] } := by
  refine ok.note (.cts up) rfl bits ok.software (fun set => ?_) ok.flow ok.stopChar ok.clocal
    ok.inhibited rfl ok.writer
  rcases able set with raised | ignored
  · exact Or.inl raised
  · exact Or.inr (Or.inl (ok.clocal.trans ignored))

theorem output_modemCarrier {hangup : Bool} : (l.modemCarrier hangup).output =
    { l.output with ostate := l.rs.ostate ||| (if hangup then odevhup else 0) } := by
  cases hangup
  · simp [Line.modemCarrier, Line.output]
  · rfl

theorem modemCarrier_ok {hangup : Bool} (ok : l.output.Ok) :
    (l.modemCarrier hangup).output.Ok := by
  rw [output_modemCarrier]
  have bits : flags (l.rs.ostate ||| (if hangup then odevhup else 0)) = flags l.rs.ostate := by
    cases hangup
    · simp
    · exact flags_set_odevhup
  simp only [flags, Prod.mk.injEq] at bits
  exact { ok with
    queued := bits.2.1 ▸ ok.queued
    software := fun set => ok.software (bits.2.2 ▸ set)
    device := fun set => ok.device (bits.1 ▸ set) }

theorem modemReady_ok {cts txready : Bool} (ok : l.output.Ok)
    (compares : l.devready cts ≠ 0 → l.rs.ostate &&& odevready = 0 → txready = true →
      Compares (l.rs.ostate ||| odevready)) : (l.modemReady cts txready).output.Ok := by
  unfold Line.modemReady
  change ((if l.devready cts = 0 then _ else _ : Line).output).Ok
  split
  · exact ok.readCts cts flags_clear_odevready fun set => absurd set Bool.false_ne_true
  · rename_i ready
    have able : cts = true ∨ l.output.cts.getLsbD 4 = true := by
      by_contra neither
      rw [not_or, Bool.not_eq_true, Bool.not_eq_true] at neither
      exact ready (devready_eq_zero.mpr neither)
    split
    · rename_i clear
      have started : OutputSide.Ok { l.output with
          ostate := l.rs.ostate ||| odevready, history := l.history ++ [.cts cts] } :=
        ok.readCts cts flags_set_odevready fun _ => able
      split
      · rename_i transmits
        exact outInt_ok (l := (l.emit [.cts cts]).setOstate (l.rs.ostate ||| odevready)) started
          (compares ready clear transmits)
      · exact started
    · exact ok.readCts cts rfl fun _ => able

theorem modemInt_ok {hangup cts txready : Bool} (ok : l.output.Ok)
    (sound : l.Sound (.modemInt hangup cts txready)) :
    (l.modemInt hangup cts txready).output.Ok := by
  dsimp only [Line.Sound] at sound
  have ostate : (l.modemCarrier hangup).rs.ostate =
      l.rs.ostate ||| (if hangup then odevhup else 0) :=
    congrArg OutputSide.ostate output_modemCarrier
  have same : (l.modemCarrier hangup).devready cts = l.devready cts := by
    cases hangup <;> rfl
  refine modemReady_ok (modemCarrier_ok ok) ?_
  rw [ostate, same]
  intro ready clear transmits
  refine sound ready ?_ transmits
  rw [and_odevready, BitVec.getLsbD_or, Bool.or_eq_false_iff] at clear
  exact and_odevready.mpr clear.1

/-! ### What the task does to output -/

theorem followInhibited_ok (ok : l.output.Ok) (outside : l.writer = .away)
    (sound : l.Sound .write) :
    OutputSide.Ok { l.followInhibited.output with writer := .deciding } := by
  unfold Line.followInhibited
  have leaves : l.output.writer = .away := outside
  split
  · exact ok.goTo leaves (by simp) rfl trivial
  · rename_i differ
    have lead : Writer.deciding.lead = l.output.writer.lead := by simp [leaves, Writer.lead]
    have able (set : l.output.ostate.getLsbD 4 = true) :
        (conditionsAfter l.output.history).cts = true ∨
          (conditionsAfter l.output.history).clocal = true ∨ Writer.deciding = .latching := by
      rcases ok.device set with up | on | latching
      · exact Or.inl up
      · exact Or.inr (Or.inl on)
      · simp [leaves] at latching
    cases stops : l.tty.inhibited
    · -- The terminal starts output again, and the driver must have stopped it.
      have held : l.rs.inhibited = true := by simpa [stops] using differ
      refine ok.note (.inhibited false) rfl flags_set_oswready (fun _ => ?_) able ok.flow
        ok.stopChar ok.clocal rfl lead trivial
      exact ⟨sound held stops, rfl⟩
    · refine ok.note (.inhibited true) rfl ?_ (fun set => absurd set Bool.false_ne_true) able
        ok.flow ok.stopChar ok.clocal rfl lead trivial
      change flags ((l.rs.ostate ||| oswready) &&& ~~~oswready) = _
      rw [flags_clear_oswready]
      exact congrArg (fun bits => (bits.1, bits.2.1, false)) flags_set_oswready

theorem takeStop_ok (ok : l.output.Ok) (configuring : l.writer = .configuring) :
    OutputSide.Ok { l.takeStop.output with writer := .attaching } := by
  have leaves : l.output.writer = .configuring := configuring
  have empty : l.output.ocount = 0 := by simpa only [leaves, Writer.Ok] using ok.writer
  refine ok.note (.stopChar l.tty.vstop) rfl rfl ok.software (fun set => ?_) ok.flow rfl ok.clocal
    ok.inhibited (by simp [leaves, Writer.lead]) empty
  rcases ok.device set with up | on | latching
  · exact Or.inl up
  · exact Or.inr (Or.inl on)
  · simp [leaves] at latching

theorem takeClocal_ok (ok : l.output.Ok) (attaching : l.writer = .attaching) :
    OutputSide.Ok { l.takeClocal.output with writer := .latching } := by
  have leaves : l.output.writer = .attaching := attaching
  have empty : l.output.ocount = 0 := by simpa only [leaves, Writer.Ok] using ok.writer
  refine ok.note (.clocal (l.tty.cCflag &&& clocal ≠ 0)) rfl rfl ok.software
    (fun _ => Or.inr (Or.inr rfl)) ok.flow ok.stopChar ?_ ok.inhibited
    (by simp [leaves, Writer.lead]) empty
  change decide (l.tty.cCflag &&& clocal ≠ 0) =
    (if l.tty.cCflag &&& clocal ≠ 0 then msCts else 0).getLsbD 4
  split
  · rename_i on
    exact decide_eq_true on
  · rename_i off
    exact decide_eq_false off

theorem flags_devready : (l.devready cts).getLsbD 5 = false ∧
    ((l.devready cts).getLsbD 4 = true → cts = true ∨ l.rs.cts.getLsbD 4 = true) := by
  unfold Line.devready
  generalize l.rs.cts = status
  revert cts status
  decide

theorem flags_configured :
    flags (l.configured cts) = ((l.devready cts).getLsbD 4, false, true) := by
  unfold Line.configured
  split
  · rw [flags_clear_oraw, flags_set_soft, flags_devready.1]
  · rw [flags_set_soft, flags_devready.1]

theorem latch_ok (ok : l.output.Ok) (latching : l.writer = .latching)
    (sound : l.Sound (.latch cts)) :
    OutputSide.Ok { (l.latch cts).output with writer := .looping } := by
  dsimp only [Line.Sound] at sound
  have leaves : l.output.writer = .latching := latching
  have lead : Writer.looping.lead = l.output.writer.lead := by simp [leaves, Writer.lead]
  unfold Line.latch
  split
  · rename_i unknown
    rw [if_pos unknown] at sound
    refine { ok with
      distance := by rw [ok.distance, ← lead]
      device := fun set => ?_
      writer := trivial }
    have set : l.rs.ostate.getLsbD 4 = true := set
    rcases sound (by rw [Ne, and_odevready, set]; decide) with up | on
    · exact Or.inl up
    · exact Or.inr (Or.inl on)
  · rename_i known
    rw [if_neg known] at sound
    obtain ⟨released, started⟩ := sound
    have empty : l.output.ocount = 0 := by simpa only [leaves, Writer.Ok] using ok.writer
    have none : l.output.ostate.getLsbD 5 = false := by
      rw [Bool.eq_false_iff, Ne, ok.queued, empty]
      decide
    have read := ok.note (.cts cts) rfl rfl
      ok.software (fun _ => Or.inr (Or.inr rfl)) ok.flow ok.stopChar ok.clocal ok.inhibited
      (by simp [leaves]) empty
    have bits : flags (l.configured cts) =
        ((l.devready cts).getLsbD 4, l.output.ostate.getLsbD 5, true) := by
      rw [flags_configured, none]
    refine read.note (.flow (Line.flowControl l.tty)) rfl bits
      (fun _ => ⟨?_, by rw [conditionsAfter_snoc]; exact released⟩) (fun set => ?_)
      (fun stopped => ?_) read.stopChar read.clocal read.inhibited rfl trivial
    · have stays : (l.conditions.stopped && Line.flowControl l.tty) = false := by
        cases stopped : l.conditions.stopped
        · rfl
        · exact started stopped
      rw [conditionsAfter_snoc]
      exact stays
    · rcases flags_devready.2 set with up | on
      · exact Or.inl (by rw [conditionsAfter_snoc]; exact up)
      · exact Or.inr (Or.inl (read.clocal.trans on))
    · exact (Bool.and_eq_true_iff.mp stopped).2

theorem OutputSide.Ok.write (ok : o.Ok) {used : Nat} {obuf : Nat → UInt8}
    (ahead : Ahead rsObufsize o.ohead used o.obuf obuf) (free : used + o.ocount ≤ rsObufsize)
    (still : o.writer.lead = 0) : OutputSide.Ok { o with obuf } := by
  have counts := ok.count
  have behind : (o.otail + o.ocount.toNat) % rsObufsize = o.ohead % rsObufsize := by
    rw [ok.distance, still, Nat.add_zero]
  have same := ahead.contents_eq behind (by omega)
  exact { ok with accepted := same ▸ ok.accepted }

section

variable (ok : l.output.Ok)
include ok

theorem measure_ok (looping : l.writer = .looping) : l.measure.output.Ok := by
  have leaves : l.output.writer = .looping := looping
  unfold Line.measure
  dsimp only
  split
  · exact ok.goTo leaves (by simp) rfl trivial
  · rename_i room
    refine ok.goTo leaves (by simp) rfl ⟨?_, ?_, le_rfl⟩
    · exact fun none => room (Or.inl none)
    · omega

theorem store_ok {echo : Bool} {count space : Int} {bytes : List UInt8}
    (measured : l.writer = .measured echo count space) (length : bytes.length = count) :
    OutputSide.Ok { l.output with
      obuf := fill rsObufsize l.rs.obuf l.rs.ohead bytes, writer := .stored echo count space } := by
  have leaves : l.output.writer = .measured echo count space := measured
  have room : count ≠ 0 ∧ count ≤ space ∧ space ≤ rsObufsize - l.output.ocount := by
    simpa only [leaves, Writer.Ok] using ok.writer
  have still : l.output.writer.lead = 0 := by
    rw [leaves]
    rfl
  refine (ok.write (ahead_fill ok.ohead) (by omega) still).goTo leaves (by simp) rfl
    ⟨?_, room.2.1, room.2.2⟩
  omega

theorem process_ok {echo : Bool} {count space : Int}
    (stored : l.writer = .stored echo count space) :
    (l.process echo count space).output.Ok := by
  have leaves : l.output.writer = .stored echo count space := stored
  have room : 0 < count ∧ count ≤ space ∧ space ≤ rsObufsize - l.output.ocount := by
    simpa only [leaves, Writer.Ok] using ok.writer
  have result := @outProcess_processed l.tty.cOflag rsObufsize count.toNat
    { buf := l.rs.obuf, bpos := l.rs.ohead, oct := space, pos := l.tty.position } ok.ohead
    (by dsimp only; omega)
  unfold Line.process
  revert result
  generalize outProcess l.tty.cOflag rsObufsize count.toNat
    { buf := l.rs.obuf, bpos := l.rs.ohead, oct := space, pos := l.tty.position } = result
  obtain ⟨left, out⟩ := result
  rintro ⟨leftLe, room', noneIff, used, ahead⟩
  dsimp only at leftLe room' noneIff used ahead ⊢
  have still : l.output.writer.lead = 0 := by
    rw [leaves]
    rfl
  have written : OutputSide.Ok { l.output with obuf := out.buf } := ok.write ahead (by omega) still
  split
  · have back : OutputSide.Ok { l.output with obuf := out.buf, writer := .away } :=
      written.goTo leaves (by simp) rfl trivial
    split <;> exact back
  · exact written.goTo leaves (by simp) rfl ⟨by omega, by dsimp only; omega⟩

theorem count_ok {echo txready : Bool} {count used : Int}
    (processed : l.writer = .processed echo count used) (sound : l.Sound (.count txready)) :
    (l.count echo count used txready).output.Ok := by
  have leaves : l.output.writer = .processed echo count used := processed
  have room : 0 < used ∧ used ≤ rsObufsize - l.output.ocount := by
    simpa only [leaves, Writer.Ok] using ok.writer
  have counts := ok.count
  have total : (l.output.ocount + used).toNat = l.output.ocount.toNat + used.toNat := by omega
  have behind : (l.output.otail + l.output.ocount.toNat) % rsObufsize =
      l.output.ohead % rsObufsize := by
    rw [ok.distance, leaves]
    rfl
  let queued : List UInt8 := contents rsObufsize l.rs.obuf l.rs.ohead used.toNat
  have counted : OutputSide.Ok { l.output with
      ostate := l.rs.ostate ||| oqueued
      ocount := l.rs.ocount + used
      writer := .counted echo count used
      history := l.history ++ [.queued queued] } := by
    have same : conditionsAfter (l.history ++ [.queued queued]) = conditionsAfter l.history :=
      conditionsAfter_snoc
    have bits := @flags_set_oqueued l.rs.ostate
    simp only [flags, Prod.mk.injEq] at bits
    refine ⟨ok.ohead, ok.otail, ⟨?_, ?_⟩, ?_, ?_, ?_, ?_, same ▸ ok.flow, same ▸ ok.stopChar,
      same ▸ ok.clocal, same ▸ ok.inhibited, ⟨room.1, ?_⟩, ?_⟩
    · change 0 ≤ l.output.ocount + used
      omega
    · change l.output.ocount + used ≤ rsObufsize
      omega
    · change (l.output.otail + (l.output.ocount + used).toNat) % rsObufsize =
        (l.output.ohead + used.toNat) % rsObufsize
      rw [total, ← Nat.add_assoc, ← Nat.mod_add_mod, behind, Nat.mod_add_mod]
    · refine iff_of_true bits.2.1 ?_
      change 0 < l.output.ocount + used
      omega
    · exact fun set => same ▸ ok.software (bits.2.2 ▸ set)
    · intro set
      rcases ok.device (bits.1 ▸ set) with up | on | latching
      · exact Or.inl (same ▸ up)
      · exact Or.inr (Or.inl (same ▸ on))
      · simp [leaves] at latching
    · omega
    · change Accepted _ (contents rsObufsize l.rs.obuf l.rs.otail (l.output.ocount + used).toNat)
      rw [total, contents_add, ← @contents_mod _ _ (l.rs.otail + _)]
      change Accepted _ (_ ++ contents _ _ ((l.output.otail + _) % _) _)
      rw [behind, contents_mod]
      exact ok.accepted.snoc rfl
  unfold Line.count Line.rsOstart
  split
  · rename_i ready
    exact outInt_ok counted (sound ready)
  · exact counted

theorem advance_ok {echo : Bool} {count used : Int}
    (counted : l.writer = .counted echo count used) :
    (l.advance echo count used).output.Ok := by
  have leaves : l.output.writer = .counted echo count used := counted
  have room : 0 < used ∧ used ≤ rsObufsize := by
    simpa only [leaves, Writer.Ok] using ok.writer
  have moved {writer : Writer} (lead : writer.lead = 0) (arrives : writer.Ok l.output.ocount) :
      OutputSide.Ok { l.output with
        ohead := if rsObufsize ≤ l.rs.ohead + used.toNat then
            l.rs.ohead + used.toNat - rsObufsize
          else l.rs.ohead + used.toNat
        writer } := by
    have place : (if rsObufsize ≤ l.rs.ohead + used.toNat then
        l.rs.ohead + used.toNat - rsObufsize else l.rs.ohead + used.toNat) =
          (l.rs.ohead + used.toNat) % rsObufsize := by
      have inside : l.rs.ohead < rsObufsize := ok.ohead
      split
      · rename_i wraps
        rw [Nat.mod_eq_sub_mod wraps, Nat.mod_eq_of_lt (by omega)]
      · exact (Nat.mod_eq_of_lt (by omega)).symm
    refine { ok with ohead := ?_, distance := ?_, device := fun set => ?_, writer := arrives }
    · rw [place]
      exact Nat.mod_lt _ (by decide)
    · rw [place, lead, Nat.add_zero, Nat.mod_mod, ok.distance, leaves]
      rfl
    · rcases ok.device set with up | on | latching
      · exact Or.inl up
      · exact Or.inr (Or.inl on)
      · simp [leaves] at latching
  unfold Line.advance
  dsimp only
  split
  · exact moved rfl trivial
  · exact moved rfl trivial

theorem rsOcancel_ok (away : l.writer = .away) : l.rsOcancel.output.Ok := by
  have leaves : l.output.writer = .away := away
  have same : conditionsAfter (l.history ++ [.cancelled]) = conditionsAfter l.history :=
    conditionsAfter_snoc
  have bits := @flags_clear_oqueued l.rs.ostate
  simp only [flags, Prod.mk.injEq] at bits
  refine ⟨ok.ohead, ok.ohead, ⟨le_rfl, Int.natCast_nonneg _⟩, ?_, ?_,
    fun set => same ▸ ok.software (bits.2.2 ▸ set), fun set => same ▸ ok.device (bits.1 ▸ set),
    same ▸ ok.flow, same ▸ ok.stopChar, same ▸ ok.clocal, same ▸ ok.inhibited, ?_, ?_⟩
  · change (l.rs.ohead + 0) % _ = (l.rs.ohead + l.output.writer.lead) % _
    rw [leaves]
    rfl
  · refine iff_of_false (fun set => ?_) (lt_irrefl 0)
    exact absurd (bits.2.1 ▸ set) Bool.false_ne_true
  · change l.output.writer.Ok 0
    rw [leaves]
    trivial
  · exact ok.accepted.snoc rfl

theorem checkHangup_output : l.checkHangup.output.Ok := by
  have cleared : OutputSide.Ok { l.output with ostate := l.rs.ostate &&& ~~~odevhup } := by
    have bits := @flags_clear_odevhup l.rs.ostate
    simp only [flags, Prod.mk.injEq] at bits
    exact { ok with
      queued := bits.2.1 ▸ ok.queued
      software := fun set => ok.software (bits.2.2 ▸ set)
      device := fun set => ok.device (bits.1 ▸ set) }
  unfold Line.checkHangup
  dsimp only
  split
  · split <;> exact cleared
  · exact ok

end

end Output
end Minix.Kernel.Serial
