/-
This file proves what the congestion window of a TCP connection does: when the sums that compute it
fit their types, and when it stays inside the window that the other side has offered.

The window is the number of bytes from `tc_SND_UNA` up to `tc_snd_cwnd`. It is compared with the
same computation on natural numbers.
-/

import Minix.Inet.RoundTrip
import Mathlib.Data.Nat.Bitwise

namespace Minix.Inet

open Transition (Run)
open Option (some.inj ite_none_right_eq_some ite_none_left_eq_some ite_some_none_eq_some)

/-! ### Sequence numbers -/

theorem negative_iff (n : UInt32) : n &&& 0x80000000 ≠ 0 ↔ 2 ^ 31 ≤ n.toNat := by
  have bound := n.toNat_lt
  rw [ne_eq, ← UInt32.toNat_inj, UInt32.toNat_and]
  change ¬n.toNat &&& 2 ^ 31 = 0 ↔ _
  rw [Nat.and_two_pow, Nat.testBit_eq_decide_div_mod_eq]
  by_cases high : n.toNat / 2 ^ 31 % 2 = 1
  · rw [decide_eq_true high]
    refine iff_of_true (by decide) ?_
    omega
  · rw [decide_eq_false high]
    refine iff_of_false (by decide) ?_
    omega

/-- Sequence numbers less than half the space apart compare as their distances do. -/
theorem tcpGmod4G_add {start first second : UInt32} (near : first.toNat < 2 ^ 31)
    (near' : second.toNat < 2 ^ 31) :
    tcpGmod4G (start + first) (start + second) ↔ second.toNat < first.toNat := by
  unfold tcpGmod4G
  rw [decide_eq_true_iff, negative_iff, UInt32.toNat_sub, UInt32.toNat_add, UInt32.toNat_add]
  omega

theorem toNat_add_sub (start first : UInt32) : (start + first - start).toNat = first.toNat := by
  rw [UInt32.add_comm, UInt32.add_sub_cancel]

/-! ### The ideal window -/

/-- The window of a connection. -/
def window (c : TcpConn) : Nat := (c.tcSndCwnd - c.tcSNDUNA).toNat

/-- What becomes of the threshold. -/
def raisedThreshold (c : TcpConn) : Nat :=
  if c.tcSndCthresh.toNat < window c + c.tcMss.toNat then c.tcSndCthresh.toNat + c.tcSndCinc.toNat
  else c.tcSndCthresh.toNat

/-- The segment acknowledges all that has been written. -/
def Completes (segAck : UInt32) (c : TcpConn) : Prop :=
  segAck = c.tcSNDNXT ∨ (c.finSent ∧ segAck + 1 = c.tcSNDNXT)

instance (segAck : UInt32) (c : TcpConn) : Decidable (Completes segAck c) :=
  inferInstanceAs (Decidable (_ ∨ _))

/-- What becomes of the window. -/
def openedWindow (segAck : UInt32) (newWin : UInt16) (c : TcpConn) : Nat :=
  if Completes segAck c then 2 * c.tcMss.toNat
  else if c.tcSndCthresh.toNat < window c + c.tcMss.toNat then
    min (c.tcSndCthresh.toNat + c.tcSndCinc.toNat) newWin.toNat
  else min (window c + c.tcMss.toNat) newWin.toNat

/-- What becomes of it with an acknowledgement that has no new data. -/
def reopenedWindow (newWin : UInt16) (c : TcpConn) : Nat :=
  if window c = 0 then min newWin.toNat (2 * c.tcMss.toNat)
  else if newWin = 0 then 0
  else window c

/-- The timer finds that nothing has been acknowledged since it was set. -/
def Retransmits (c : TcpConn) : Prop :=
  c.tcSNDNXT ≠ c.tcSNDUNA ∧ c.tcTransmitSeq = c.tcSNDUNA ∧ c.tcStt ≠ 0

instance (c : TcpConn) : Decidable (Retransmits c) := inferInstanceAs (Decidable (_ ∧ _))

/-- A closed window is opened for one byte. -/
def probedWindow (c : TcpConn) : Nat := if window c = 0 then 1 else window c

/-- What is left of the threshold after a retransmission. -/
def reducedThreshold (c : TcpConn) : Nat :=
  if 2 * c.tcMss.toNat < probedWindow c then max (c.tcSndCthresh.toNat / 2) (2 * c.tcMss.toNat)
  else c.tcSndCthresh.toNat

/-! ### The right window after an event -/

/-- The acknowledgement of new data computes the threshold and the window without truncation; the
window is open for a segment, if the other side offers as much, and not more than is offered; and
the threshold does not become smaller. -/
structure AckSound (segAck : UInt32) (newWin : UInt16) (c after : TcpConn) : Prop where
  una : after.tcSNDUNA = segAck
  threshold : after.tcSndCthresh.toNat = raisedThreshold c
  exactly : window after = openedWindow segAck newWin c
  least : min c.tcMss.toNat newWin.toNat ≤ window after
  most : window after ≤ newWin.toNat
  rises : c.tcSndCthresh.toNat ≤ after.tcSndCthresh.toNat

/-- A timeout computes them without truncation. -/
structure TimeoutSound (c after : TcpConn) : Prop where
  threshold : after.tcSndCthresh.toNat =
    if Retransmits c then reducedThreshold c else c.tcSndCthresh.toNat
  exactly : window after =
    if Retransmits c then min (probedWindow c) (2 * c.tcMss.toNat) else window c

structure Sound (c : TcpConn) (event : TcpEvent) : Prop where
  acks : ∀ currTime segAck newWin after, event = .acked currTime segAck newWin →
    AcksData segAck c → tcpStep c event = some after → AckSound segAck newWin c after
  reopens : ∀ currTime segAck newWin after, event = .acked currTime segAck newWin →
    c.tcState ≠ .synReceived → segAck = c.tcSNDUNA → tcpStep c event = some after →
    window after = reopenedWindow newWin c
  timeouts : ∀ currTime after, event = .timeout currTime → tcpStep c event = some after →
    TimeoutSound c after

/-- The increment does not carry the threshold out of 16 bits, and an acknowledgement of all that has
been written offers at least two segments. -/
def Fits (c : TcpConn) (event : TcpEvent) : Prop :=
  ∀ currTime segAck newWin, event = .acked currTime segAck newWin → AcksData segAck c →
    (c.tcSndCthresh.toNat < window c + c.tcMss.toNat →
      c.tcSndCthresh.toNat + c.tcSndCinc.toNat < 2 ^ 16) ∧
    (Completes segAck c → 2 * c.tcMss.toNat ≤ newWin.toNat)

instance (c : TcpConn) (event : TcpEvent) : Decidable (Fits c event) := by
  unfold Fits
  infer_instance

/-! ### The invariant -/

/-- The segment size and the increment are those of the configuration, the threshold and the window
fit into 16 bits, and before the SYN is acknowledged the window has its first size. -/
structure Bounded (c : TcpConn) : Prop where
  mss : c.tcMss.toNat = 1400
  cinc : c.tcSndCinc.toNat = 120
  low : 2 * 1400 ≤ c.tcSndCthresh.toNat
  high : c.tcSndCthresh.toNat < 2 ^ 16
  edge : window c < 2 ^ 16
  fresh : c.tcState ∈ [.listen, .synSent] → c.tcSNDUNA = c.tcISS ∧ c.tcSNDNXT = c.tcISS + 1 ∧
    window c = 2 * 1400

/-- A connection that is in use is bounded. -/
def Open (c : TcpConn) : Prop := c.tcState ≠ .closed → Bounded c

section Acknowledgements

variable {c middle after : TcpConn} {currTime : Int} {segAck : UInt32} {newWin : UInt16}

theorem updateRtt_alike (completed : updateRtt currTime segAck c = some middle) :
    ∃ seq rtt, middle = { c with tcRtSeq := seq, tcRtt := rtt } := by
  by_cases measures : c.tcRtSeq ≠ 0 ∧ tcpGmod4G segAck c.tcRtSeq
  · obtain ⟨-, rfl⟩ := updateRtt_eq measures completed
    exact ⟨_, _, rfl⟩
  · rw [updateRtt_quiet measures] at completed
    obtain rfl := some.inj completed
    exact ⟨c.tcRtSeq, c.tcRtt, rfl⟩

theorem sizeQueued_eq_zero : sizeQueued segAck c = 0 ↔ Completes segAck c := by
  unfold sizeQueued Completes
  cases fin : c.finSent with
  | false =>
    rw [if_neg Bool.false_ne_true, ← UInt32.toNat_inj, ← UInt32.toNat_inj, UInt32.toNat_sub]
    have small := segAck.toNat_lt
    have small' := c.tcSNDNXT.toNat_lt
    change _ = 0 ↔ _
    simp only [Bool.false_eq_true, false_and, or_false]
    omega
  | true =>
    rw [if_pos rfl]
    by_cases all : segAck = c.tcSNDNXT
    · rw [if_pos all, all, UInt32.sub_self]
      exact iff_of_true rfl (.inl rfl)
    · rw [if_neg all, or_iff_right all, ← UInt32.toNat_inj, ← UInt32.toNat_inj, UInt32.toNat_sub,
        UInt32.toNat_sub, UInt32.toNat_add]
      have small := segAck.toNat_lt
      have small' := c.tcSNDNXT.toNat_lt
      change (_ - _ + (_ - 1 + _) % _) % _ = 0 ↔ _ ∧ (_ + 1) % _ = _
      simp only [true_and]
      omega

theorem updateWindow_eq (bounded : Bounded c) (completed : updateWindow segAck newWin c = some after) :
    ∃ threshold opened : UInt32,
      after = { c with tcSndCthresh := threshold, tcSndCwnd := segAck + opened } ∧
      threshold.toNat = (if c.tcSndCthresh.toNat < window c + 1400 then
        (c.tcSndCthresh.toNat + 120) % 2 ^ 16 else c.tcSndCthresh.toNat) ∧
      opened.toNat = if c.tcSndCthresh.toNat < window c + 1400 then
        min ((c.tcSndCthresh.toNat + 120) % 2 ^ 16) newWin.toNat
        else min (window c + 1400) newWin.toNat := by
  obtain ⟨mss, cinc, low, high, edge, -⟩ := bounded
  have fits : c.tcSndCthresh.toUInt16.toUInt32 = c.tcSndCthresh := by
    rw [← UInt32.toNat_inj, UInt16.toNat_toUInt32, UInt32.toNat_toUInt16, Nat.mod_eq_of_lt high]
  have wider : (c.tcSndCwnd - c.tcSNDUNA + c.tcMss.toUInt32).toNat = window c + 1400 := by
    rw [UInt32.toNat_add, UInt16.toNat_toUInt32, mss]
    change (window c + 1400) % 2 ^ 32 = _
    omega
  have raised : ((c.tcSndCthresh + c.tcSndCinc).toUInt16.toUInt32).toNat =
      (c.tcSndCthresh.toNat + 120) % 2 ^ 16 := by
    rw [UInt16.toNat_toUInt32, UInt32.toNat_toUInt16, UInt32.toNat_add, cinc]
    omega
  have least (opened : UInt32) : (if newWin.toUInt32 < opened then newWin.toUInt32 else opened).toNat
      = min opened.toNat newWin.toNat := by
    have compare := @UInt32.lt_iff_toNat_lt newWin.toUInt32 opened
    rw [UInt16.toNat_toUInt32] at compare
    by_cases less : newWin.toUInt32 < opened
    · rw [if_pos less, UInt16.toNat_toUInt32]
      exact (Nat.min_eq_right (compare.mp less).le).symm
    · rw [if_neg less]
      exact (Nat.min_eq_left (Nat.not_lt.mp fun wrong => less (compare.mpr wrong))).symm
  obtain ⟨-, completed⟩ := ite_none_left_eq_some.mp completed
  dsimp only at completed
  rw [fits] at completed
  by_cases above : c.tcSndCthresh.toNat < window c + 1400
  · have above' : c.tcSndCthresh < c.tcSndCwnd - c.tcSNDUNA + c.tcMss.toUInt32 := by
      rw [UInt32.lt_iff_toNat_lt, wider]
      exact above
    rw [if_pos above', if_pos above'] at completed
    rw [if_pos above, if_pos above]
    refine ⟨_, _, (some.inj completed).symm, raised, ?_⟩
    rw [least, raised]
  · have below : ¬c.tcSndCthresh < c.tcSndCwnd - c.tcSNDUNA + c.tcMss.toUInt32 := by
      rw [UInt32.lt_iff_toNat_lt, wider]
      exact above
    rw [if_neg below, if_neg below] at completed
    rw [if_neg above, if_neg above]
    refine ⟨_, _, (some.inj completed).symm, rfl, ?_⟩
    rw [least, wider]

theorem releaseData_eq (completed : releaseData segAck c = some after) :
    after.tcSNDUNA = segAck ∧ after.tcMss = c.tcMss ∧ after.tcSndCinc = c.tcSndCinc ∧
      after.tcSndCthresh = c.tcSndCthresh ∧
      after.tcSndCwnd = (if Completes segAck c then segAck + 2 * c.tcMss.toUInt32
        else c.tcSndCwnd) ∧
      (after.tcState = c.tcState ∨ after.tcState = .closed) := by
  obtain ⟨reset, sets⟩ : ∃ reset, reset =
      limitTransmitted (resetWindow (sizeQueued segAck c) (advance segAck c)) := ⟨_, rfl⟩
  have alike : reset.tcSNDUNA = segAck ∧ reset.tcMss = c.tcMss ∧ reset.tcSndCinc = c.tcSndCinc ∧
      reset.tcSndCthresh = c.tcSndCthresh ∧
      reset.tcSndCwnd = (if Completes segAck c then segAck + 2 * c.tcMss.toUInt32
        else c.tcSndCwnd) ∧ reset.tcState = c.tcState := by
    rw [sets]
    unfold limitTransmitted resetWindow
    by_cases all : sizeQueued segAck c = 0
    · rw [if_pos all, if_pos (sizeQueued_eq_zero.mp all)]
      split_ifs <;> exact ⟨rfl, rfl, rfl, rfl, rfl, rfl⟩
    · rw [if_neg all, if_neg fun completes => all (sizeQueued_eq_zero.mpr completes)]
      split_ifs <;> exact ⟨rfl, rfl, rfl, rfl, rfl, rfl⟩
  obtain ⟨una, mss, cinc, cthresh, cwnd, state⟩ := alike
  unfold releaseData closeAbandoned at completed
  rw [← sets] at completed
  split_ifs at completed
  · obtain rfl := some.inj completed
    unfold tcpCloseConnection
    split
    case isTrue closed => exact ⟨una, mss, cinc, cthresh, cwnd, .inr closed⟩
    case isFalse => exact ⟨una, mss, cinc, cthresh, cwnd, .inr rfl⟩
  · obtain rfl := some.inj completed
    exact ⟨una, mss, cinc, cthresh, cwnd, .inl state⟩

/-- The threshold and the window after an acknowledgement of new data, as the types hold them. -/
theorem acked_eq (bounded : Bounded c) (acks : AcksData segAck c)
    (completed : acked currTime segAck newWin c = some after) :
    after.tcSNDUNA = segAck ∧ after.tcMss = c.tcMss ∧ after.tcSndCinc = c.tcSndCinc ∧
      after.tcState ∉ [.listen, .synSent] ∧
      after.tcSndCthresh.toNat = (if c.tcSndCthresh.toNat < window c + 1400 then
        (c.tcSndCthresh.toNat + 120) % 2 ^ 16 else c.tcSndCthresh.toNat) ∧
      window after = if Completes segAck c then 2 * 1400
        else if c.tcSndCthresh.toNat < window c + 1400 then
          min ((c.tcSndCthresh.toNat + 120) % 2 ^ 16) newWin.toNat
        else min (window c + 1400) newWin.toNat := by
  obtain ⟨-, state, dead, stt, active, release⟩ := acked_release acks completed
  obtain ⟨-, release⟩ := ite_none_right_eq_some.mp release
  rw [Option.bind_assoc] at release
  obtain ⟨middle, updated, rest⟩ := Option.bind_eq_some_iff.mp release
  obtain ⟨seq, rtt, rfl⟩ := updateRtt_alike updated
  obtain ⟨wide, updated, released⟩ := Option.bind_eq_some_iff.mp rest
  have bounded' : Bounded { c with
      tcState := state, tcRtDead := dead, tcStt := stt, tcRtSeq := seq, tcRtt := rtt } :=
    ⟨bounded.mss, bounded.cinc, bounded.low, bounded.high, bounded.edge, fun early => by
      rcases List.mem_pair.mp active with rfl | rfl <;> cases List.mem_pair.mp early <;>
        contradiction⟩
  obtain ⟨threshold, opened, rfl, thresholds, windows⟩ := updateWindow_eq bounded' updated
  obtain ⟨una, mss, cinc, cthresh, cwnd, states⟩ := releaseData_eq released
  refine ⟨una, mss, cinc, ?_, ?_, ?_⟩
  · intro early
    rcases states with same | closed
    · rw [same] at early
      rcases List.mem_pair.mp active with rfl | rfl <;> cases List.mem_pair.mp early <;>
        contradiction
    · rw [closed] at early
      revert early
      decide
  · rw [cthresh]
    exact thresholds
  · unfold window at windows ⊢
    rw [una, cwnd]
    change ((if Completes segAck c then segAck + 2 * c.tcMss.toUInt32 else segAck + opened) -
      segAck).toNat = _
    by_cases all : Completes segAck c
    · rw [if_pos all, if_pos all, toNat_add_sub, UInt32.toNat_mul, UInt16.toNat_toUInt32,
        bounded.mss]
      rfl
    · rw [if_neg all, if_neg all, toNat_add_sub]
      exact windows

/-- The acknowledgement of new data is sound exactly if the numbers fit. -/
theorem ackSound_iff (bounded : Bounded c) (acks : AcksData segAck c)
    (completed : acked currTime segAck newWin c = some after) :
    AckSound segAck newWin c after ↔
      (c.tcSndCthresh.toNat < window c + c.tcMss.toNat →
        c.tcSndCthresh.toNat + c.tcSndCinc.toNat < 2 ^ 16) ∧
      (Completes segAck c → 2 * c.tcMss.toNat ≤ newWin.toNat) := by
  obtain ⟨una, -, -, -, threshold, windows⟩ := acked_eq bounded acks completed
  obtain ⟨mss, cinc, low, high, edge, -⟩ := bounded
  have offered := newWin.toNat_lt
  constructor
  · intro sound
    refine ⟨fun above => ?_, fun all => ?_⟩
    · have exactly := sound.threshold
      unfold raisedThreshold at exactly
      rw [if_pos above, cinc] at exactly
      rw [mss] at above
      rw [threshold, if_pos above] at exactly
      omega
    · have most := sound.most
      rw [windows, if_pos all] at most
      rw [mss]
      exact most
  · rintro ⟨fits, offers⟩
    rw [mss, cinc] at fits
    rw [mss] at offers
    have thresholds : after.tcSndCthresh.toNat = raisedThreshold c := by
      unfold raisedThreshold
      rw [threshold, mss, cinc]
      split_ifs with above
      · exact Nat.mod_eq_of_lt (fits above)
      · rfl
    have exactly : window after = openedWindow segAck newWin c := by
      unfold openedWindow
      rw [windows, mss, cinc]
      split_ifs with all above
      · rfl
      · rw [Nat.mod_eq_of_lt (fits above)]
      · rfl
    refine ⟨una, thresholds, exactly, ?_, ?_, ?_⟩
    · rw [exactly, mss]
      unfold openedWindow
      rw [mss]
      split_ifs <;> omega
    · rw [exactly]
      unfold openedWindow
      rw [mss]
      split_ifs with all above
      · exact offers all
      · exact Nat.min_le_right _ _
      · exact Nat.min_le_right _ _
    · rw [thresholds]
      unfold raisedThreshold
      split_ifs <;> omega

theorem window_eq_zero : window c = 0 ↔ c.tcSndCwnd = c.tcSNDUNA := by
  unfold window
  rw [UInt32.toNat_sub, ← UInt32.toNat_inj]
  have small := c.tcSndCwnd.toNat_lt
  have small' := c.tcSNDUNA.toNat_lt
  omega

theorem window_updateZeroWindow (bounded : Bounded c) :
    window (updateZeroWindow newWin c) = reopenedWindow newWin c := by
  have twice : (2 * c.tcMss).toNat = 2 * c.tcMss.toNat := by
    rw [UInt16.toNat_mul, bounded.mss]
    rfl
  unfold updateZeroWindow reopenedWindow
  by_cases shut : c.tcSndCwnd = c.tcSNDUNA
  · rw [if_pos (window_eq_zero.mpr shut)]
    by_cases offers : newWin = 0
    · rw [if_neg (not_and_not_right.mpr fun _ => offers), if_pos offers, offers]
      exact (window_eq_zero.mpr rfl).trans (Nat.zero_min _).symm
    · rw [if_pos ⟨shut, offers⟩]
      change (c.tcSNDUNA + UInt16.toUInt32 _ - c.tcSNDUNA).toNat = _
      rw [toNat_add_sub, UInt16.toNat_toUInt32, apply_ite UInt16.toNat, twice]
      split_ifs <;> omega
  · rw [if_neg fun both => shut both.1, if_neg fun zero => shut (window_eq_zero.mp zero)]
    split_ifs
    · exact window_eq_zero.mpr rfl
    · rfl

theorem acked_idle_eq (idle : ¬AcksData segAck c)
    (completed : acked currTime segAck newWin c = some after) :
    c.tcState ∈ [.synReceived, .established, .closing] ∧
      ∃ stt, after = if c.tcState ≠ .synReceived ∧ segAck = c.tcSNDUNA then
        updateZeroWindow newWin { c with tcStt := stt } else { c with tcStt := stt } := by
  unfold acked at completed
  cases state : c.tcState with
  | closed | listen | synSent =>
    rw [state] at completed
    cases completed
  | synReceived =>
    rw [state] at completed
    rw [if_neg idle] at completed
    refine ⟨by decide, c.tcStt, ?_⟩
    rw [if_neg fun both => both.1 rfl, ← some.inj completed, ← state]
  | established =>
    rw [state] at completed
    dsimp only at completed
    have idle' : ¬AcksData segAck { c with tcStt := 0 } := idle
    rw [← state, ackedOpen_idle idle'] at completed
    refine ⟨by decide, 0, ?_⟩
    rw [← some.inj completed, state]
    by_cases same : segAck = c.tcSNDUNA
    · rw [if_pos same, if_pos ⟨by decide, same⟩]
    · rw [if_neg same, if_neg fun both => same both.2]
  | closing =>
    rw [state] at completed
    rw [ackedOpen_idle idle] at completed
    refine ⟨by decide, c.tcStt, ?_⟩
    rw [← some.inj completed, ← state]
    by_cases same : segAck = c.tcSNDUNA
    · rw [if_pos same, if_pos ⟨by rw [state]; decide, same⟩]
    · rw [if_neg same, if_neg fun both => same both.2]

end Acknowledgements

/-! ### Timeouts -/

section Timeouts

variable {c after : TcpConn} {currTime : Int}

theorem retransmit_eq (completed : retransmit currTime c = some after) :
    after.tcSndCthresh = c.tcSndCthresh ∧ after.tcSndCwnd = c.tcSndCwnd ∧
      after.tcSNDUNA = c.tcSNDUNA ∧ after.tcMss = c.tcMss ∧ after.tcSndCinc = c.tcSndCinc ∧
      (after.tcState ≠ .closed → after.tcState = c.tcState ∧ after.tcISS = c.tcISS ∧
        after.tcSNDNXT = c.tcSNDNXT) := by
  unfold retransmit tcpCloseConnection at completed
  split_ifs at completed with _ _ closed
  · obtain rfl := some.inj completed
    exact ⟨rfl, rfl, rfl, rfl, rfl, fun _ => ⟨rfl, rfl, rfl⟩⟩
  · obtain rfl := some.inj completed
    exact ⟨rfl, rfl, rfl, rfl, rfl, fun wrong => absurd rfl wrong⟩
  all_goals
    obtain rfl := some.inj completed
    exact ⟨rfl, rfl, rfl, rfl, rfl, fun _ => ⟨rfl, rfl, rfl⟩⟩

theorem limitTransmitted_eq : ∃ trm, limitTransmitted c = { c with tcSNDTRM := trm } := by
  unfold limitTransmitted
  split
  · exact ⟨_, rfl⟩
  · exact ⟨c.tcSNDTRM, rfl⟩

/-- What a timeout makes of the window and the threshold. -/
theorem reduceWindow_eq (bounded : Bounded c) :
    ∃ threshold opened trm rtThreshold : UInt32,
      reduceWindow (restartTransmission (updateThreshold c)) = { c with
        tcSNDTRM := trm
        tcRtThreshold := rtThreshold
        tcSndCwnd := c.tcSNDUNA + opened
        tcSndCthresh := threshold } ∧
      threshold.toNat = reducedThreshold c ∧
      opened.toNat = min (probedWindow c) (2 * c.tcMss.toNat) := by
  obtain ⟨mss, cinc, low, high, edge, -⟩ := bounded
  -- the window after the probe
  obtain ⟨probe, rtThreshold, restarted, probes⟩ : ∃ probe rtThreshold : UInt32,
      restartTransmission (updateThreshold c) = { c with
        tcSNDTRM := c.tcSNDUNA
        tcRtThreshold := rtThreshold
        tcSndCwnd := c.tcSNDUNA + probe } ∧ probe.toNat = probedWindow c := by
    have updated : ∃ rtThreshold, updateThreshold c = { c with tcRtThreshold := rtThreshold } := by
      unfold updateThreshold
      split
      · exact ⟨_, rfl⟩
      · exact ⟨c.tcRtThreshold, rfl⟩
    obtain ⟨rtThreshold, updated⟩ := updated
    rw [updated]
    unfold restartTransmission probedWindow
    by_cases shut : c.tcSndCwnd = c.tcSNDUNA
    · refine ⟨1, rtThreshold, ?_, ?_⟩
      · rw [if_pos shut, shut]
      · rw [if_pos (window_eq_zero.mpr shut)]
        rfl
    · refine ⟨c.tcSndCwnd - c.tcSNDUNA, rtThreshold, ?_, ?_⟩
      · rw [if_neg shut, UInt32.add_comm, UInt32.sub_add_cancel]
      · rw [if_neg fun zero => shut (window_eq_zero.mp zero)]
        rfl
  have twice : (2 * c.tcMss).toUInt32.toNat = 2 * c.tcMss.toNat := by
    rw [UInt16.toNat_toUInt32, UInt16.toNat_mul, mss]
    rfl
  have small : probedWindow c < 2 ^ 16 := by
    unfold probedWindow
    split <;> omega
  have reduces : tcpGmod4G (c.tcSNDUNA + probe) (c.tcSNDUNA + (2 * c.tcMss).toUInt32) ↔
      2 * c.tcMss.toNat < probedWindow c := by
    rw [tcpGmod4G_add (by omega) (by rw [twice, mss]; decide), probes, twice]
  rw [restarted]
  unfold reduceWindow reducedThreshold
  by_cases large : 2 * c.tcMss.toNat < probedWindow c
  · have half : (c.tcSndCthresh / 2).toNat = c.tcSndCthresh.toNat / 2 := UInt32.toNat_div _ _
    have least : (if c.tcSndCthresh / 2 < (2 * c.tcMss).toUInt32 then (2 * c.tcMss).toUInt32
        else c.tcSndCthresh / 2).toNat = max (c.tcSndCthresh.toNat / 2) (2 * c.tcMss.toNat) := by
      by_cases below : c.tcSndCthresh / 2 < (2 * c.tcMss).toUInt32
      · rw [if_pos below, twice]
        rw [UInt32.lt_iff_toNat_lt, half, twice] at below
        omega
      · rw [if_neg below, half]
        rw [UInt32.lt_iff_toNat_lt, half, twice] at below
        omega
    rw [if_pos (reduces.mpr large), if_pos large]
    obtain ⟨trm, limited⟩ := @limitTransmitted_eq { c with
      tcSNDTRM := c.tcSNDUNA
      tcRtThreshold := rtThreshold
      tcSndCwnd := c.tcSNDUNA + (2 * c.tcMss).toUInt32 }
    rw [limited]
    exact ⟨_, _, trm, rtThreshold, rfl, least, by rw [twice]; omega⟩
  · rw [if_neg fun wrong => large (reduces.mp wrong), if_neg large]
    exact ⟨c.tcSndCthresh, probe, c.tcSNDUNA, rtThreshold, rfl, rfl, by rw [probes]; omega⟩

theorem timeout_eq (bounded : Bounded c) (completed : tcpSendTimeout currTime c = some after) :
    TimeoutSound c after ∧ after.tcMss = c.tcMss ∧ after.tcSndCinc = c.tcSndCinc ∧
      (after.tcState ≠ .closed → after.tcState = c.tcState ∧ after.tcISS = c.tcISS ∧
        after.tcSNDNXT = c.tcSNDNXT ∧ after.tcSNDUNA = c.tcSNDUNA) := by
  unfold tcpSendTimeout at completed
  split_ifs at completed with _ none _ pending idle
  · obtain rfl := some.inj completed
    have settled : ¬Retransmits c := fun wrong => wrong.1 none
    exact ⟨⟨by rw [if_neg settled], by rw [if_neg settled]; rfl⟩, rfl, rfl,
      fun _ => ⟨rfl, rfl, rfl, rfl⟩⟩
  · obtain rfl := some.inj completed
    have settled : ¬Retransmits c := fun wrong => pending wrong.2.1
    exact ⟨⟨by rw [if_neg settled], by rw [if_neg settled]; rfl⟩, rfl, rfl,
      fun _ => ⟨rfl, rfl, rfl, rfl⟩⟩
  · obtain rfl := some.inj completed
    have settled : ¬Retransmits c := fun wrong => wrong.2.2 idle
    exact ⟨⟨by rw [if_neg settled], by rw [if_neg settled]; rfl⟩, rfl, rfl,
      fun _ => ⟨rfl, rfl, rfl, rfl⟩⟩
  case neg =>
    have again : Retransmits c := ⟨‹_›, not_not.mp pending, idle⟩
    obtain ⟨threshold, opened, trm, rtThreshold, reduced, thresholds, windows⟩ :=
      reduceWindow_eq bounded
    obtain ⟨cthresh, cwnd, una, mss, cinc, states⟩ := retransmit_eq completed
    rw [reduced] at cthresh cwnd una mss cinc states
    refine ⟨⟨?_, ?_⟩, mss, cinc, fun active => ?_⟩
    · rw [if_pos again, cthresh]
      exact thresholds
    · rw [if_pos again]
      unfold window
      rw [cwnd, una, ← windows]
      exact toNat_add_sub c.tcSNDUNA opened
    · obtain ⟨state, iss, nxt⟩ := states active
      exact ⟨state, iss, nxt, una⟩

end Timeouts

/-! ### Steps -/

section Steps

variable {c after : TcpConn} {event : TcpEvent} {currTime : Int} {timer : Option Int}

theorem sound_iff (holds : Open c) (completed : tcpStep c event = some after) :
    Sound c event ↔ Fits c event := by
  constructor
  · rintro sound currTime segAck newWin rfl acks
    obtain ⟨active, -⟩ := acked_release acks completed
    have bounded : Bounded c := holds fun closed => by rw [closed] at active; revert active; decide
    exact (ackSound_iff bounded acks completed).mp
      (sound.acks currTime segAck newWin after rfl acks completed)
  · intro fits
    refine ⟨?_, ?_, ?_⟩
    · rintro currTime segAck newWin after rfl acks completed
      obtain ⟨active, -⟩ := acked_release acks completed
      have bounded : Bounded c := holds fun closed => by rw [closed] at active; revert active; decide
      exact (ackSound_iff bounded acks completed).mpr (fits currTime segAck newWin rfl acks)
    · rintro currTime segAck newWin after rfl received same completed
      have idle : ¬AcksData segAck c := fun acks => acksData_ne acks same
      obtain ⟨active, stt, rfl⟩ := acked_idle_eq idle completed
      obtain ⟨mss, cinc, low, high, edge, fresh⟩ : Bounded c :=
        holds fun closed => by rw [closed] at active; revert active; decide
      have bounded : Bounded { c with tcStt := stt } := ⟨mss, cinc, low, high, edge, fresh⟩
      rw [if_pos ⟨received, same⟩, window_updateZeroWindow bounded]
      rfl
    · rintro currTime after rfl completed
      have active : c.tcState ≠ .closed := by
        intro closed
        change tcpSendTimeout currTime c = some after at completed
        unfold tcpSendTimeout at completed
        rw [if_pos (.inl closed)] at completed
        cases completed
      exact (timeout_eq (holds active) completed).1

/-- The step leaves the window and the threshold. -/
structure Kept (c after : TcpConn) : Prop where
  una : after.tcSNDUNA = c.tcSNDUNA
  cwnd : after.tcSndCwnd = c.tcSndCwnd
  cthresh : after.tcSndCthresh = c.tcSndCthresh
  cinc : after.tcSndCinc = c.tcSndCinc
  mss : after.tcMss = c.tcMss
  active : after.tcState ≠ .closed → c.tcState ≠ .closed
  early : after.tcState ∈ [.listen, .synSent] → after.tcState = c.tcState ∧
    after.tcISS = c.tcISS ∧ after.tcSNDNXT = c.tcSNDNXT

theorem Kept.window (kept : Kept c after) : window after = window c := by
  unfold Inet.window
  rw [kept.una, kept.cwnd]

theorem Kept.open (kept : Kept c after) (holds : Open c) : Open after := by
  intro active
  obtain ⟨mss, cinc, low, high, edge, fresh⟩ := holds (kept.active active)
  refine ⟨?_, ?_, ?_, ?_, ?_, fun early => ?_⟩
  · rw [kept.mss, mss]
  · rw [kept.cinc, cinc]
  · rw [kept.cthresh]
    exact low
  · rw [kept.cthresh]
    exact high
  · rw [kept.window]
    exact edge
  · obtain ⟨state, iss, nxt⟩ := kept.early early
    rw [kept.una, iss, nxt, kept.window]
    exact fresh (state ▸ early)

/-- A connection that is not being set up may change its state and what has been written. -/
theorem Kept.of_late {state : TcpState} {nxt trm : UInt32} {fd fin : Bool} {seq : UInt32}
    {stt dead : Int} (active : c.tcState ≠ .closed) (late : state ∉ [.listen, .synSent]) :
    Kept c { c with
      tcState := state, tcSNDNXT := nxt, tcSNDTRM := trm, tcFd := fd, finSent := fin,
      tcTransmitTimer := timer, tcTransmitSeq := seq, tcStt := stt, tcRtDead := dead } :=
  ⟨rfl, rfl, rfl, rfl, rfl, fun _ => active, fun early => absurd early late⟩

theorem kept_close : Kept c (tcpCloseConnection c) := by
  unfold tcpCloseConnection
  split
  case isTrue closed =>
    refine ⟨rfl, rfl, rfl, rfl, rfl, id, fun _ => ⟨rfl, rfl, rfl⟩⟩
  case isFalse =>
    refine ⟨rfl, rfl, rfl, rfl, rfl, fun wrong => absurd rfl wrong, fun early => ?_⟩
    change TcpState.closed ∈ _ at early
    exact absurd early (by decide)

theorem kept_makePack {totHdrSize : UInt32}
    (completed : makePack currTime totHdrSize c = some after) : Kept c after := by
  have same {trm seq threshold : UInt32} {time : Int} : Kept c { c with
      tcSNDTRM := trm, tcRtSeq := seq, tcRtThreshold := threshold, tcRtTime := time } :=
    ⟨rfl, rfl, rfl, rfl, rfl, id, fun _ => ⟨rfl, rfl, rfl⟩⟩
  have syn : Kept c (sendSyn c) := by
    unfold sendSyn
    split
    · exact same
    · exact same
  have data (completed : sendData currTime totHdrSize c = some after) : Kept c after := by
    unfold sendData at completed
    dsimp only at completed
    split_ifs at completed
    all_goals obtain rfl := some.inj completed
    · exact same
    · exact same
    · exact same
    · exact same
    · unfold sendSegment
      split
      · exact same
      · exact same
  unfold makePack at completed
  split at completed
  · exact some.inj completed ▸ syn
  · exact some.inj completed ▸ syn
  · exact data completed
  · exact data completed
  · cases completed

theorem kept_shutdown : Kept c (tcpShutdown currTime c) := by
  unfold tcpShutdown tcpSetSendTimer
  split_ifs with late
  · exact ⟨rfl, rfl, rfl, rfl, rfl, id, fun _ => ⟨rfl, rfl, rfl⟩⟩
  · refine ⟨rfl, rfl, rfl, rfl, rfl, id, fun early => ?_⟩
    change c.tcState ∈ _ at early
    rcases late with state | state <;> exact absurd (state ▸ early) (by decide)
  · exact kept_close

theorem Kept.trans {last : TcpConn} (first : Kept c after) (second : Kept after last) :
    Kept c last :=
  ⟨second.una.trans first.una, second.cwnd.trans first.cwnd, second.cthresh.trans first.cthresh,
    second.cinc.trans first.cinc, second.mss.trans first.mss,
    fun active => first.active (second.active active), fun early => by
      obtain ⟨state, iss, nxt⟩ := second.early early
      obtain ⟨state', iss', nxt'⟩ := first.early (state ▸ early)
      exact ⟨state.trans state', iss.trans iss', nxt.trans nxt'⟩⟩

theorem kept_tcpClose : Kept c (tcpClose currTime c) := by
  have freed : Kept c { c with tcFd := false } :=
    ⟨rfl, rfl, rfl, rfl, rfl, id, fun _ => ⟨rfl, rfl, rfl⟩⟩
  have shut := freed.trans (@kept_shutdown { c with tcFd := false } currTime)
  have dead (c : TcpConn) : Kept c { c with tcRtDead := tcpDefRtMaxClosing } :=
    ⟨rfl, rfl, rfl, rfl, rfl, id, fun _ => ⟨rfl, rfl, rfl⟩⟩
  have closing (c : TcpConn) (state : c.tcState = .established) :
      Kept c { c with tcState := .closing } := by
    refine ⟨rfl, rfl, rfl, rfl, rfl, fun _ => ?_, fun early => ?_⟩
    · rw [state]
      decide
    · change TcpState.closing ∈ _ at early
      exact absurd early (by decide)
  unfold tcpClose
  dsimp only
  generalize tcpShutdown currTime { c with tcFd := false } = middle at shut
  by_cases open' : middle.tcState = .established
  · rw [if_pos open']
    have closed := (shut.trans (closing middle open')).trans (dead _)
    split_ifs
    · exact closed.trans kept_close
    · exact closed
  · rw [if_neg open']
    have closed := shut.trans (dead _)
    split_ifs
    · exact closed.trans kept_close
    · exact closed

theorem bounded_setup {iss : UInt32} {listens : Bool} :
    Bounded (tcpSetupConn currTime iss listens) := by
  have first : window (tcpSetupConn currTime iss listens) = 2 * 1400 :=
    toNat_add_sub iss (2 * tcpDefMss.toUInt32)
  refine ⟨rfl, by change (120 : UInt32).toNat = 120; rfl, ?_, ?_, ?_, fun _ => ⟨rfl, rfl, first⟩⟩
  · change 2 * 1400 ≤ 16384
    decide
  · change 16384 < 2 ^ 16
    decide
  · rw [first]
    decide

theorem bounded_syn {state : TcpState} {una trm nxt : UInt32} {stt dead : Int} (bounded : Bounded c)
    (early : c.tcState ∈ [.listen, .synSent]) (late : state ∉ [.listen, .synSent])
    (acks : una = c.tcISS ∨ una = c.tcISS + 1) :
    Bounded { c with
      tcState := state, tcSNDUNA := una, tcSNDTRM := trm, tcSNDNXT := nxt,
      tcTransmitTimer := timer, tcStt := stt, tcRtDead := dead } := by
  obtain ⟨mss, cinc, low, high, edge, fresh⟩ := bounded
  obtain ⟨same, -, first⟩ := fresh early
  refine ⟨mss, cinc, low, high, ?_, fun wrong => absurd wrong late⟩
  unfold window at first ⊢
  rw [same] at first
  rcases acks with rfl | rfl
  · change (c.tcSndCwnd - c.tcISS).toNat < _
    rw [first]
    decide
  · change (c.tcSndCwnd - (c.tcISS + 1)).toNat < _
    rw [UInt32.toNat_sub] at first ⊢
    rw [UInt32.toNat_add]
    have small := c.tcISS.toNat_lt
    change (2 ^ 32 - (c.tcISS.toNat + 1) % 2 ^ 32 + c.tcSndCwnd.toNat) % 2 ^ 32 < 2 ^ 16
    omega

theorem synAcked_eq {iss segAck : UInt32} (above : ¬tcpLEmod4G segAck iss)
    (inside : ¬tcpGmod4G segAck (iss + 1)) : segAck = iss + 1 := by
  have small' := segAck.toNat_lt
  unfold tcpLEmod4G at above
  unfold tcpGmod4G at inside
  rw [decide_eq_true_iff] at above inside
  rw [← ne_eq, negative_iff, UInt32.toNat_sub] at above
  rw [negative_iff, UInt32.toNat_sub, UInt32.toNat_add] at inside
  rw [← UInt32.toNat_inj, UInt32.toNat_add]
  change ¬2 ^ 31 ≤ (2 ^ 32 - segAck.toNat + (iss.toNat + 1) % 2 ^ 32) % 2 ^ 32 at inside
  change _ = (iss.toNat + 1) % 2 ^ 32
  omega

/-- An acknowledgement of new data whose numbers fit keeps the connection bounded. -/
theorem bounded_acked {segAck : UInt32} {newWin : UInt16} (bounded : Bounded c)
    (acks : AcksData segAck c) (completed : acked currTime segAck newWin c = some after)
    (sound : AckSound segAck newWin c after) : Bounded after := by
  obtain ⟨-, mss, cinc, late, threshold, -⟩ := acked_eq bounded acks completed
  have offered := newWin.toNat_lt
  refine ⟨?_, ?_, ?_, ?_, ?_, fun early => absurd early late⟩
  · rw [mss, bounded.mss]
  · rw [cinc, bounded.cinc]
  · exact bounded.low.trans sound.rises
  · have high := bounded.high
    rw [threshold]
    split <;> omega
  · exact lt_of_le_of_lt sound.most offered

theorem bounded_idle {segAck : UInt32} {newWin : UInt16} (holds : Open c)
    (idle : ¬AcksData segAck c) (completed : acked currTime segAck newWin c = some after) :
    Open after := by
  obtain ⟨active, stt, rfl⟩ := acked_idle_eq idle completed
  obtain ⟨mss, cinc, low, high, edge, fresh⟩ : Bounded c :=
    holds fun closed => by rw [closed] at active; revert active; decide
  have bounded : Bounded { c with tcStt := stt } := ⟨mss, cinc, low, high, edge, fresh⟩
  intro _
  split
  case isFalse => exact bounded
  case isTrue =>
    have opened := @window_updateZeroWindow _ newWin bounded
    have alike : (updateZeroWindow newWin { c with tcStt := stt }).tcMss = c.tcMss ∧
        (updateZeroWindow newWin { c with tcStt := stt }).tcSndCinc = c.tcSndCinc ∧
        (updateZeroWindow newWin { c with tcStt := stt }).tcSndCthresh = c.tcSndCthresh ∧
        (updateZeroWindow newWin { c with tcStt := stt }).tcState = c.tcState := by
      unfold updateZeroWindow
      split_ifs <;> exact ⟨rfl, rfl, rfl, rfl⟩
    obtain ⟨mss', cinc', cthresh', state'⟩ := alike
    refine ⟨by rw [mss', mss], by rw [cinc', cinc], by rw [cthresh']; exact low,
      by rw [cthresh']; exact high, ?_, fun early => ?_⟩
    · rw [opened]
      have same : window { c with tcStt := stt } = window c := rfl
      unfold reopenedWindow
      rw [same, mss]
      split_ifs <;> omega
    · rw [state'] at early
      rcases List.mem_pair.mp early with state | state <;> rw [state] at active <;>
        exact absurd active (by decide)

theorem bounded_timeout (bounded : Bounded c) (completed : tcpSendTimeout currTime c = some after) :
    Open after := by
  obtain ⟨⟨thresholds, windows⟩, mss, cinc, states⟩ := timeout_eq bounded completed
  obtain ⟨mss', cinc', low, high, edge, fresh⟩ := bounded
  intro active
  obtain ⟨state, iss, nxt, una⟩ := states active
  refine ⟨by rw [mss, mss'], by rw [cinc, cinc'], ?_, ?_, ?_, fun early => ?_⟩
  · rw [thresholds]
    unfold reducedThreshold
    rw [mss']
    split_ifs <;> omega
  · rw [thresholds]
    unfold reducedThreshold
    rw [mss']
    split_ifs <;> omega
  · rw [windows, mss']
    split_ifs <;> omega
  · obtain ⟨same, next, first⟩ := fresh (state ▸ early)
    refine ⟨by rw [una, iss, same], by rw [nxt, iss, next], ?_⟩
    rw [windows, mss']
    unfold probedWindow
    rw [first, if_neg (show ¬2 * 1400 = 0 by decide)]
    split_ifs <;> rfl

/-- A step whose numbers fit keeps the bounds of a connection. -/
theorem step_open (holds : Open c) (fits : Fits c event)
    (completed : tcpStep c event = some after) : Open after := by
  cases event with
  | setup =>
    obtain ⟨-, rfl⟩ := ite_some_none_eq_some.mp completed
    exact fun _ => bounded_setup
  | synReceived currTime =>
    obtain ⟨state, rfl⟩ := ite_some_none_eq_some.mp completed
    have bounded : Bounded c := holds (by rw [state]; decide)
    exact fun _ => @bounded_syn c (some (currTime + c.tcRtt)) .synReceived c.tcISS
      c.tcISS (c.tcISS + 1) currTime c.tcRtDead bounded (by rw [state]; decide) (by decide)
      (.inl rfl)
  | synAcked segAck =>
    obtain ⟨state, completed⟩ := ite_none_right_eq_some.mp completed
    have bounded : Bounded c := holds (by rw [state]; decide)
    have early : c.tcState ∈ [.listen, .synSent] := by rw [state]; decide
    obtain ⟨same, next, -⟩ := bounded.fresh early
    unfold synAcked at completed
    split at completed
    · exact some.inj completed ▸ fun _ =>
        bounded_syn bounded early (by decide) (.inl same)
    · rename_i segAck
      split at completed
      case isTrue => exact some.inj completed ▸ holds
      case isFalse outside =>
        rw [not_or, next] at outside
        obtain rfl := synAcked_eq outside.1 outside.2
        dsimp only at completed
        split at completed <;>
        exact some.inj completed ▸ fun _ => bounded_syn bounded early (by decide) (.inr rfl)
  | acked currTime segAck newWin =>
    by_cases acks : AcksData segAck c
    · obtain ⟨active, -⟩ := acked_release acks completed
      have bounded : Bounded c := holds fun closed => by rw [closed] at active; revert active; decide
      have sound := (ackSound_iff bounded acks completed).mpr (fits currTime segAck newWin rfl acks)
      exact fun _ => bounded_acked bounded acks completed sound
    · exact bounded_idle holds acks completed
  | made => exact (kept_makePack completed).open holds
  | written currTime count urg =>
    obtain ⟨state, rfl⟩ := ite_some_none_eq_some.mp completed
    have kept : Kept c (tcpWrite currTime count urg c) := by
      unfold tcpWrite tcpFdWrite tcpSetSendTimer
      split_ifs <;> exact .of_late (by rw [state]; decide) (by rw [state]; decide)
    exact kept.open holds
  | continued count urg =>
    obtain ⟨state, rfl⟩ := ite_some_none_eq_some.mp completed
    have kept : Kept c (tcpFdWrite count urg c) :=
      .of_late (by rw [state]; decide) (by rw [state]; decide)
    exact kept.open holds
  | shutdown =>
    obtain ⟨-, completed⟩ := ite_none_left_eq_some.mp completed
    exact some.inj completed ▸ kept_shutdown.open holds
  | closed =>
    obtain ⟨-, rfl⟩ := ite_some_none_eq_some.mp completed
    exact kept_tcpClose.open holds
  | notreach =>
    have kept : Kept c { c with tcStt := 0, tcSNDTRM := c.tcSNDUNA } :=
      ⟨rfl, rfl, rfl, rfl, rfl, id, fun _ => ⟨rfl, rfl, rfl⟩⟩
    exact some.inj completed ▸ kept.open holds
  | failed => exact some.inj completed ▸ kept_close.open holds
  | timeout currTime =>
    change tcpSendTimeout currTime c = some after at completed
    have active : c.tcState ≠ .closed := by
      intro closed
      unfold tcpSendTimeout at completed
      rw [if_pos (.inl closed)] at completed
      cases completed
    exact bounded_timeout (holds active) completed

end Steps

/-! ### Runs -/

/-- The congestion window is right at every step of a run of a connection exactly if the numbers fit
at every step. -/
theorem window_follows (start : TcpConn) (unused : start.tcState = .closed)
    (events : List TcpEvent) (c : TcpConn) :
    Run tcpStep Sound start events c ↔ Run tcpStep Fits start events c :=
  @Run.exchange _ _ _ _ _ _ _ _ Open (fun active => absurd unused active)
    (fun _ _ _ holds fits completed => step_open holds fits completed)
    fun _ _ _ holds completed => sound_iff holds completed

/-- The events before an acknowledgement of all data. -/
def shortEvents : List TcpEvent :=
  [.setup 100 1000 false, .made 100 40, .synAcked (some 1001), .written 110 100 false, .made 110 40]

/-- The connection before this acknowledgement. -/
def shortConn : TcpConn :=
  { tcpSetupConn 100 1000 false with
    tcState := .established
    tcSNDUNA := 1001
    tcSNDTRM := 1101
    tcSNDNXT := 1101
    tcRtTime := 110
    tcRtSeq := 1001
    tcRtThreshold := 1001
    tcRtDead := tcpDefRtDead }

/-- The run with data that is acknowledged and a timeout. -/
theorem window_follows_timed : Run tcpStep Sound closedConn timedEvents timedConn :=
  (window_follows closedConn rfl timedEvents timedConn).mpr (Run.of_execute (by decide))

/-- An acknowledgement of all 100 bytes that offers 500 more opens the window for 2800. -/
theorem short_opens_too_far :
    Run tcpStep (fun _ _ => True) closedConn shortEvents shortConn ∧
      ¬Sound shortConn (.acked 116 1101 500) := by
  refine ⟨Run.of_execute (by decide), fun sound => ?_⟩
  have completed : ∃ after, tcpStep shortConn (.acked 116 1101 500) = some after ∧
      window after = 2800 := ⟨_, rfl, by decide⟩
  obtain ⟨after, completed, opened⟩ := completed
  have most := (sound.acks 116 1101 500 after rfl (by decide) completed).most
  rw [opened] at most
  revert most
  decide

end Minix.Inet
