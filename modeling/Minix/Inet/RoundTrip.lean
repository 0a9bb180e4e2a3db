/-
This file proves what the round trip estimate of a TCP connection does: it stays in its range, and
samples of one value bring it into the band of that value, in at most as many steps as the range is
wide.

The number of bytes that a full segment acknowledges is compared with the sequence number that is
measured after this has been cleared, so that an estimate that is too large shrinks slowly.
-/

import Minix.Inet.TcpSend

namespace Minix.Inet

open Transition (Run reached reached_run)
open Option (some.inj ite_none_left_eq_some ite_none_right_eq_some ite_some_none_eq_some)

/-! ### The estimate -/

/-- The estimate after a sample; with `quarter`, an estimate that is too large shrinks by a
quarter. -/
def adjusted (quarter : Prop) [Decidable quarter] (sample rtt : Int) : Int :=
  if rtt = tcpRttGran ∧ sample ≤ tcpRttGran then rtt
  else if sample ≤ rtt ∧ rtt ≤ 2 * sample then rtt
  else if rtt < sample then if tcpRttMax < rtt * 2 then tcpRttMax else rtt * 2
  else if quarter then atLeastGran (rtt * 3 / 4)
  else atLeastGran (rtt * 31 / 32)

/-- The range of the estimate. -/
def InRange (rtt : Int) : Prop := tcpRttGran ≤ rtt ∧ rtt ≤ tcpRttMax

/-- The estimate lies between the sample and twice the sample, or at the bound next to these. -/
def Near (sample rtt : Int) : Prop :=
  (sample ≤ rtt ∧ rtt ≤ 2 * sample) ∨ (2 * sample < tcpRttGran ∧ rtt = tcpRttGran) ∨
    (tcpRttMax < sample ∧ rtt = tcpRttMax)

/-- How many samples it may take at most. -/
def distance (sample rtt : Int) : Int :=
  if rtt < sample then tcpRttMax - rtt else rtt - tcpRttGran

section Estimate

variable {quarter : Prop} [Decidable quarter] {sample rtt : Int}

theorem tcpRttMax_eq : tcpRttMax = 600 := rfl

theorem adjusted_inRange (within : InRange rtt) : InRange (adjusted quarter sample rtt) := by
  obtain ⟨low, high⟩ := within
  unfold adjusted atLeastGran InRange
  rw [tcpRttMax_eq] at high ⊢
  unfold tcpRttGran at low ⊢
  split_ifs <;> constructor <;> omega

theorem near_adjusted (within : InRange rtt) (near : Near sample rtt) :
    Near sample (adjusted quarter sample rtt) := by
  obtain ⟨low, high⟩ := within
  unfold Near at near ⊢
  unfold adjusted atLeastGran
  rw [tcpRttMax_eq] at high near ⊢
  unfold tcpRttGran at low near ⊢
  split_ifs <;> omega

theorem distance_adjusted (within : InRange rtt) (pos : 0 ≤ sample) :
    Near sample (adjusted quarter sample rtt) ∨
      distance sample (adjusted quarter sample rtt) + 1 ≤ distance sample rtt := by
  obtain ⟨low, high⟩ := within
  unfold Near adjusted atLeastGran distance
  rw [tcpRttMax_eq] at high ⊢
  unfold tcpRttGran at low ⊢
  split_ifs <;> omega

end Estimate

/-! ### Samples -/

/-- The acknowledgement takes a sample. -/
def Measures (segAck : UInt32) (c : TcpConn) : Prop :=
  c.tcState ∈ [.synReceived, .established, .closing] ∧ AcksData segAck c ∧ c.tcRtSeq ≠ 0 ∧
    tcpGmod4G segAck c.tcRtSeq

instance (segAck : UInt32) (c : TcpConn) : Decidable (Measures segAck c) :=
  inferInstanceAs (Decidable (_ ∧ _))

/-- The sample that an event takes. -/
def sampled (c : TcpConn) : TcpEvent → Option Int
  | .acked currTime segAck _ => if Measures segAck c then some (currTime - c.tcRtTime) else none
  | _ => none

/-- The event does not set the connection up. -/
def Goes : TcpEvent → Prop
  | .setup _ _ _ => False
  | _ => True

/-- From `start`, this number of samples has been taken, all of one value. -/
inductive Sampled (sample : Int) (start : TcpConn) : Nat → TcpConn → Prop
  | start : Sampled sample start 0 start
  | quiet {count : Nat} {c after : TcpConn} {event : TcpEvent} : Sampled sample start count c →
      Goes event → sampled c event = none → tcpStep c event = some after →
      Sampled sample start count after
  | taken {count : Nat} {c after : TcpConn} {event : TcpEvent} : Sampled sample start count c →
      sampled c event = some sample → tcpStep c event = some after →
      Sampled sample start (count + 1) after

section Samples

variable {c after : TcpConn} {currTime : Int} {segAck : UInt32} {segWnd : UInt16}

theorem updateRtt_quiet (quiet : ¬(c.tcRtSeq ≠ 0 ∧ tcpGmod4G segAck c.tcRtSeq)) :
    updateRtt currTime segAck c = some c := if_neg quiet

/-- A sample is taken: the sequence number is cleared and the estimate adjusted. -/
theorem updateRtt_eq (measures : c.tcRtSeq ≠ 0 ∧ tcpGmod4G segAck c.tcRtSeq)
    (completed : updateRtt currTime segAck c = some after) :
    0 ≤ currTime - c.tcRtTime ∧ after = { c with
      tcRtSeq := 0
      tcRtt := adjusted (segAck = c.tcMss.toUInt32) (currTime - c.tcRtTime) c.tcRtt } := by
  unfold updateRtt at completed
  rw [if_pos measures] at completed
  obtain ⟨inTime, completed⟩ := ite_none_left_eq_some.mp completed
  have set {rtt : Int} {c : TcpConn} (set : setRtt rtt c = some after) :
      after = { c with tcRtt := rtt } := by
    obtain ⟨-, set⟩ := ite_none_left_eq_some.mp set
    exact (some.inj set).symm
  dsimp only at completed
  refine ⟨by omega, ?_⟩
  unfold adjusted
  rw [UInt32.sub_zero] at completed
  split at completed
  case isTrue least =>
    rw [if_pos least]
    exact (some.inj completed).symm
  case isFalse least =>
    rw [if_neg least]
    split at completed
    case isTrue fits =>
      rw [if_pos fits]
      exact (some.inj completed).symm
    case isFalse fits =>
      rw [if_neg fits]
      split at completed
      case isTrue small =>
        rw [if_pos small]
        exact set completed
      case isFalse large =>
        rw [if_neg large]
        split at completed
        case isTrue full =>
          rw [if_pos full]
          exact set completed
        case isFalse part =>
          rw [if_neg part]
          exact set completed

theorem closeConnection_rtt : (tcpCloseConnection c).tcRtt = c.tcRtt := by
  unfold tcpCloseConnection
  split <;> rfl

theorem release_rtt {middle : TcpConn}
    (completed : (updateWindow segAck segWnd middle).bind (releaseData segAck) = some after) :
    after.tcRtt = middle.tcRtt := by
  obtain ⟨opened, window, release⟩ := Option.bind_eq_some_iff.mp completed
  have kept : opened.tcRtt = middle.tcRtt := by
    obtain ⟨-, window⟩ := ite_none_left_eq_some.mp window
    obtain rfl := some.inj window
    split <;> rfl
  rw [← kept]
  have reset {size : UInt32} : (limitTransmitted (resetWindow size (advance segAck opened))).tcRtt =
      opened.tcRtt := by
    unfold limitTransmitted resetWindow
    split_ifs <;> rfl
  unfold releaseData closeAbandoned at release
  split_ifs at release
  · rw [← some.inj release, closeConnection_rtt, reset]
  · rw [← some.inj release, reset]

theorem tcpReleaseRetrans_rtt
    (completed : tcpReleaseRetrans currTime segAck segWnd c = some after) :
    ∃ middle, updateRtt currTime segAck c = some middle ∧ after.tcRtt = middle.tcRtt := by
  obtain ⟨-, completed⟩ := ite_none_right_eq_some.mp completed
  rw [Option.bind_assoc] at completed
  obtain ⟨middle, updated, release⟩ := Option.bind_eq_some_iff.mp completed
  exact ⟨middle, updated, release_rtt release⟩

theorem acksData_ne (acks : AcksData segAck c) : segAck ≠ c.tcSNDUNA := by
  rintro rfl
  have none : tcpLmod4G c.tcSNDUNA c.tcSNDUNA = false := by
    unfold tcpLmod4G
    rw [UInt32.sub_self]
    rfl
  rw [AcksData, none] at acks
  cases acks.1

theorem ackedOpen_release (acks : AcksData segAck c) :
    ackedOpen currTime segAck segWnd c = tcpReleaseRetrans currTime segAck segWnd c := by
  unfold ackedOpen
  rw [if_neg (acksData_ne acks), if_pos acks]

theorem ackedOpen_idle (idle : ¬AcksData segAck c) :
    ackedOpen currTime segAck segWnd c =
      some (if segAck = c.tcSNDUNA then updateZeroWindow segWnd c else c) := by
  unfold ackedOpen
  rw [if_neg idle, apply_ite some]

/-- A connection that gets an acknowledgement of new data goes through `tcp_release_retrans`. -/
theorem acked_release (acks : AcksData segAck c)
    (completed : acked currTime segAck segWnd c = some after) :
    c.tcState ∈ [.synReceived, .established, .closing] ∧
      ∃ state dead stt, state ∈ [.established, .closing] ∧ tcpReleaseRetrans currTime segAck segWnd
        { c with tcState := state, tcRtDead := dead, tcStt := stt } = some after := by
  unfold acked at completed
  cases state : c.tcState with
  | closed | listen | synSent =>
    rw [state] at completed
    cases completed
  | synReceived =>
    rw [state] at completed
    rw [if_pos acks] at completed
    exact ⟨by decide, .established, tcpDefRtDead, c.tcStt, by decide, completed⟩
  | established =>
    rw [state] at completed
    dsimp only at completed
    have acks' : AcksData segAck { c with tcStt := 0 } := acks
    rw [← state, ackedOpen_release acks'] at completed
    exact ⟨by decide, c.tcState, c.tcRtDead, 0, by rw [state]; decide, completed⟩
  | closing =>
    rw [state] at completed
    rw [ackedOpen_release acks] at completed
    exact ⟨by decide, c.tcState, c.tcRtDead, c.tcStt, by rw [state]; decide, completed⟩

theorem updateZeroWindow_rtt : (updateZeroWindow segWnd c).tcRtt = c.tcRtt := by
  unfold updateZeroWindow
  split_ifs <;> rfl

theorem acked_idle (idle : ¬AcksData segAck c)
    (completed : acked currTime segAck segWnd c = some after) : after.tcRtt = c.tcRtt := by
  unfold acked at completed
  cases state : c.tcState with
  | closed | listen | synSent =>
    rw [state] at completed
    cases completed
  | synReceived =>
    rw [state] at completed
    rw [if_neg idle] at completed
    rw [some.inj completed]
  | established =>
    rw [state] at completed
    dsimp only at completed
    have idle' : ¬AcksData segAck { c with tcStt := 0 } := idle
    rw [← state, ackedOpen_idle idle'] at completed
    rw [← some.inj completed]
    split
    · exact updateZeroWindow_rtt
    · rfl
  | closing =>
    rw [state] at completed
    rw [ackedOpen_idle idle] at completed
    rw [← some.inj completed]
    split
    · exact updateZeroWindow_rtt
    · rfl

theorem acked_measures (measures : Measures segAck c)
    (completed : acked currTime segAck segWnd c = some after) :
    0 ≤ currTime - c.tcRtTime ∧
      after.tcRtt = adjusted (segAck = c.tcMss.toUInt32) (currTime - c.tcRtTime) c.tcRtt := by
  obtain ⟨-, acks, pending⟩ := measures
  obtain ⟨-, state, dead, stt, -, release⟩ := acked_release acks completed
  obtain ⟨middle, updated, kept⟩ := tcpReleaseRetrans_rtt release
  have pending' : ({ c with tcState := state, tcRtDead := dead, tcStt := stt } : TcpConn).tcRtSeq ≠
      0 ∧ tcpGmod4G segAck c.tcRtSeq := pending
  obtain ⟨inTime, rfl⟩ := updateRtt_eq pending' updated
  exact ⟨inTime, kept⟩

theorem acked_quiet (quiet : ¬Measures segAck c)
    (completed : acked currTime segAck segWnd c = some after) : after.tcRtt = c.tcRtt := by
  by_cases acks : AcksData segAck c
  · obtain ⟨active, state, dead, stt, -, release⟩ := acked_release acks completed
    obtain ⟨middle, updated, kept⟩ := tcpReleaseRetrans_rtt release
    have idle : ¬(({ c with tcState := state, tcRtDead := dead, tcStt := stt } : TcpConn).tcRtSeq ≠
        0 ∧ tcpGmod4G segAck c.tcRtSeq) := fun pending => quiet ⟨active, acks, pending⟩
    rw [updateRtt_quiet idle] at updated
    rw [kept, ← some.inj updated]
  · exact acked_idle acks completed

theorem shutdown_rtt : (tcpShutdown currTime c).tcRtt = c.tcRtt := by
  unfold tcpShutdown tcpSetSendTimer
  split_ifs
  · rfl
  · rfl
  · exact closeConnection_rtt

theorem close_rtt : (tcpClose currTime c).tcRtt = c.tcRtt := by
  have kept : (tcpShutdown currTime { c with tcFd := false }).tcRtt = c.tcRtt := shutdown_rtt
  unfold tcpClose
  dsimp only
  split_ifs
  all_goals first
    | exact closeConnection_rtt.trans kept
    | exact kept

theorem makePack_rtt {totHdrSize : UInt32} (completed : makePack currTime totHdrSize c = some after) :
    after.tcRtt = c.tcRtt := by
  have syn : (sendSyn c).tcRtt = c.tcRtt := by
    unfold sendSyn
    split <;> rfl
  have data (completed : sendData currTime totHdrSize c = some after) : after.tcRtt = c.tcRtt := by
    unfold sendData at completed
    dsimp only at completed
    split_ifs at completed
    all_goals rw [← some.inj completed]
    unfold sendSegment
    split <;> rfl
  unfold makePack at completed
  split at completed
  · rw [← some.inj completed, syn]
  · rw [← some.inj completed, syn]
  · exact data completed
  · exact data completed
  · cases completed

theorem timeout_rtt (completed : tcpSendTimeout currTime c = some after) :
    after.tcRtt = c.tcRtt := by
  have reduced : (reduceWindow (restartTransmission (updateThreshold c))).tcRtt = c.tcRtt := by
    unfold reduceWindow limitTransmitted restartTransmission updateThreshold
    dsimp only
    split_ifs <;> rfl
  unfold tcpSendTimeout at completed
  split_ifs at completed
  · rw [← some.inj completed]
  · rw [← some.inj completed]
  · rw [← some.inj completed]
  · unfold retransmit at completed
    rw [← reduced]
    split_ifs at completed
    all_goals rw [← some.inj completed]
    exact closeConnection_rtt

end Samples

/-! ### Steps -/

section Steps

variable {c after : TcpConn} {event : TcpEvent}

theorem step_quiet (goes : Goes event) (quiet : sampled c event = none)
    (completed : tcpStep c event = some after) : after.tcRtt = c.tcRtt := by
  cases event with
  | setup => cases goes
  | acked currTime segAck segWnd =>
    refine acked_quiet (fun measures => ?_) completed
    rw [sampled, if_pos measures] at quiet
    cases quiet
  | made => exact makePack_rtt completed
  | timeout => exact timeout_rtt completed
  | notreach => rw [← some.inj completed]
  | failed => rw [← some.inj completed, closeConnection_rtt]
  | synReceived | written | continued | shutdown | closed =>
    unfold tcpStep at completed
    dsimp only at completed
    split at completed
    all_goals first
      | cases completed
        done
      | rw [← some.inj completed]
        first
        | rfl
        | exact shutdown_rtt
        | exact close_rtt
        | (unfold tcpWrite tcpFdWrite tcpSetSendTimer; dsimp only; split <;> rfl)
  | synAcked segAck =>
    unfold tcpStep synAcked at completed
    dsimp only at completed
    obtain ⟨-, completed⟩ := ite_none_right_eq_some.mp completed
    split at completed
    · rw [← some.inj completed]
    · split_ifs at completed
      all_goals rw [← some.inj completed]

theorem step_sampled {sample : Int} (takes : sampled c event = some sample)
    (completed : tcpStep c event = some after) :
    0 ≤ sample ∧ ∃ segAck : UInt32,
      after.tcRtt = adjusted (segAck = c.tcMss.toUInt32) sample c.tcRtt := by
  cases event with
  | acked currTime segAck segWnd =>
    rw [sampled] at takes
    obtain ⟨measures, rfl⟩ := ite_some_none_eq_some.mp takes
    obtain ⟨inTime, follows⟩ := acked_measures measures completed
    exact ⟨inTime, segAck, follows⟩
  | _ => cases takes

theorem step_inRange (within : InRange c.tcRtt) (completed : tcpStep c event = some after) :
    InRange after.tcRtt := by
  by_cases goes : Goes event
  · cases takes : sampled c event with
    | none =>
      rw [step_quiet goes takes completed]
      exact within
    | some sample =>
      obtain ⟨-, segAck, follows⟩ := step_sampled takes completed
      rw [follows]
      exact adjusted_inRange within
  · cases event with
    | setup currTime iss listens =>
      obtain ⟨-, completed⟩ := ite_none_right_eq_some.mp completed
      rw [← some.inj completed]
      change InRange tcpDefRtt
      exact ⟨by decide, by decide⟩
    | _ => exact absurd trivial goes

/-! ### Runs -/

/-- Samples of one value bring the estimate nearer, until it is in the band. -/
theorem sampled_near {sample : Int} {start : TcpConn} {count : Nat} (within : InRange start.tcRtt)
    (run : Sampled sample start count c) : InRange c.tcRtt ∧
      (Near sample c.tcRtt ∨ distance sample c.tcRtt + count ≤ distance sample start.tcRtt) := by
  induction run with
  | start => exact ⟨within, .inr (by omega)⟩
  | quiet _ goes quiet completed inductionHypothesis =>
    rw [step_quiet goes quiet completed]
    exact inductionHypothesis
  | taken _ takes completed inductionHypothesis =>
    obtain ⟨inside, reached⟩ := inductionHypothesis
    obtain ⟨pos, segAck, follows⟩ := step_sampled takes completed
    refine ⟨step_inRange inside completed, ?_⟩
    rw [follows]
    rcases reached with near | far
    · exact .inl (near_adjusted inside near)
    · refine (distance_adjusted inside pos).imp_right fun nearer => ?_
      omega

/-- The quarter rule for one event: if an acknowledgement from the measured sequence number on
is one full segment, then an estimate that is too large shrinks by a quarter. -/
def Quarters (full : UInt32) (c : TcpConn) (event : TcpEvent) : Prop :=
  ∀ currTime segAck segWnd after, event = .acked currTime segAck segWnd → Measures segAck c →
    segAck - c.tcRtSeq = full → 2 * (currTime - c.tcRtTime) < c.tcRtt →
    ¬(c.tcRtt = tcpRttGran ∧ currTime - c.tcRtTime ≤ tcpRttGran) →
    tcpStep c event = some after → after.tcRtt = atLeastGran (c.tcRtt * 3 / 4)

/-- No estimate above the least ones is too large for the acknowledgement of one full segment,
unless the acknowledgement number itself is the segment size. -/
def Spared (full : UInt32) (c : TcpConn) (event : TcpEvent) : Prop :=
  ∀ currTime segAck segWnd, event = .acked currTime segAck segWnd → Measures segAck c →
    segAck - c.tcRtSeq = full → 2 * (currTime - c.tcRtTime) < c.tcRtt → c.tcRtt ≤ 6 ∨
      segAck = c.tcMss.toUInt32

theorem shrunk_eq {quarter : Prop} [Decidable quarter] {sample rtt : Int}
    (least : ¬(rtt = tcpRttGran ∧ sample ≤ tcpRttGran)) (large : 2 * sample < rtt)
    (pos : 0 ≤ sample) :
    adjusted quarter sample rtt = atLeastGran (rtt * 3 / 4) ↔ rtt ≤ 6 ∨ quarter := by
  unfold adjusted
  rw [if_neg least, if_neg (by omega), if_neg (by omega)]
  by_cases full : quarter
  · rw [if_pos full]
    exact iff_of_true rfl (.inr full)
  · rw [if_neg full, or_iff_left full]
    unfold atLeastGran tcpRttGran
    split_ifs <;> omega

theorem quarters_iff {full : UInt32} (completed : tcpStep c event = some after) :
    Quarters full c event ↔ Spared full c event := by
  constructor
  · rintro rule currTime segAck segWnd rfl measures one large
    by_cases least : c.tcRtt = tcpRttGran ∧ currTime - c.tcRtTime ≤ tcpRttGran
    · left
      rw [least.1]
      decide
    · obtain ⟨pos, follows⟩ := acked_measures measures completed
      have shrunk := rule currTime segAck segWnd after rfl measures one large least completed
      rw [follows] at shrunk
      exact (shrunk_eq least large pos).mp shrunk
  · rintro spared currTime segAck segWnd after rfl measures one large least completed
    obtain ⟨pos, follows⟩ := acked_measures measures completed
    rw [follows]
    exact (shrunk_eq least large pos).mpr (spared currTime segAck segWnd rfl measures one large)

end Steps

/-- In every run the estimate stays in its range, and samples of one value bring it into the band of
this value. The acknowledgements of full segments shrink it by a quarter exactly in the runs in
which none of them finds it too large, but the least estimates and an acknowledgement number that
is the segment size apart. -/
theorem estimate_follows (start : TcpConn) (within : InRange start.tcRtt) :
    (∀ events c, Run tcpStep (fun _ _ => True) start events c → InRange c.tcRtt) ∧
    (∀ sample count c, Sampled sample start count c → 595 < count → Near sample c.tcRtt) ∧
    ∀ full events c,
      Run tcpStep (Quarters full) start events c ↔ Run tcpStep (Spared full) start events c := by
  refine ⟨fun events c run => ?_, fun sample count c run many => ?_, fun full events c => ?_⟩
  · exact @Run.invariant _ _ _ _ _ _ _ (fun c => InRange c.tcRtt) within
      (fun _ _ _ inside _ completed => step_inRange inside completed) run
  · obtain ⟨inside, near | far⟩ := sampled_near within run
    · exact near
    · obtain ⟨low, high⟩ := within
      obtain ⟨low', high'⟩ := inside
      unfold distance at far
      rw [tcpRttMax_eq] at high high' far
      unfold tcpRttGran at low low' far
      split_ifs at far <;> omega
  · exact @Run.exchange _ _ _ _ _ _ _ _ (fun _ => True) trivial (fun _ _ _ _ _ _ => trivial)
      fun _ _ _ _ completed => quarters_iff completed

/-- The events before an acknowledgement of 1400 bytes, six ticks after the first segment. -/
def quickEvents : List TcpEvent :=
  [.setup 100 1000 false, .made 100 40, .synAcked (some 1001), .written 110 4000 false,
    .made 110 40, .made 110 40]

/-- The connection before this acknowledgement. -/
def quickConn : TcpConn :=
  { tcpSetupConn 100 1000 false with
    tcState := .established
    tcSNDUNA := 1001
    tcSNDTRM := 3721
    tcSNDNXT := 5001
    tcRtTime := 110
    tcRtSeq := 1001
    tcRtThreshold := 1001
    tcRtDead := tcpDefRtDead }

instance {rule : Int → UInt32 → UInt16 → Prop} [∀ time ack wnd, Decidable (rule time ack wnd)]
    (event : TcpEvent) : Decidable (∀ currTime segAck segWnd,
      event = .acked currTime segAck segWnd → rule currTime segAck segWnd) := by
  cases event with
  | acked currTime segAck segWnd =>
    exact decidable_of_iff (rule currTime segAck segWnd)
      ⟨by rintro holds _ _ _ ⟨⟩; exact holds, fun all => all _ _ _ rfl⟩
  | _ => exact .isTrue nofun

instance (full : UInt32) (c : TcpConn) (event : TcpEvent) : Decidable (Spared full c event) := by
  unfold Spared
  infer_instance

/-- One segment and a little more is acknowledged, the rest is sent again after a timeout, and then
it is acknowledged too. -/
def timedEvents : List TcpEvent :=
  quickEvents ++ [.acked 116 2402 8000, .timeout 130, .timeout 150, .timeout 300, .made 300 40,
    .made 300 40, .acked 308 5001 8000]

/-- The connection after these events. -/
def timedConn : TcpConn := reached tcpStep (Spared 1400) closedConn timedEvents

/-- The estimate is in its range after this run, and the rule of the quarter has been kept. -/
theorem estimate_follows_timed : InRange timedConn.tcRtt ∧
    Run tcpStep (Quarters 1400) closedConn timedEvents timedConn := by
  obtain ⟨inside, -, rule⟩ := estimate_follows closedConn ⟨by decide, by decide⟩
  have run : Run tcpStep (Spared 1400) closedConn timedEvents timedConn := reached_run (by decide)
  exact ⟨inside _ _ (run.weaken fun _ _ _ _ => trivial), (rule _ _ _).mpr run⟩

/-- The acknowledgement of one full segment, well before half the estimate, does not shrink this by a
quarter. -/
theorem quick_shrinks_slowly :
    Run tcpStep (fun _ _ => True) closedConn quickEvents quickConn ∧
      ¬Quarters quickConn.tcMss.toUInt32 quickConn (.acked 116 2401 8000) := by
  refine ⟨Run.of_execute (by decide), fun rule => ?_⟩
  have completed : ∃ after, tcpStep quickConn (.acked 116 2401 8000) = some after ∧
      after.tcRtt = 14 := ⟨_, rfl, by decide⟩
  obtain ⟨after, completed, estimate⟩ := completed
  have shrunk := rule 116 2401 8000 after rfl (by decide) (by decide) (by decide) (by decide)
    completed
  rw [estimate] at shrunk
  revert shrunk
  decide

end Minix.Inet
