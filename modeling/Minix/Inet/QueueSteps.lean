/-
This file states when packets to one next hop leave in the order in which they were accepted, and
proves that `ipeth_send` and `ipeth_restart_send` keep that order and the queues right.

A packet is overtaken only by one that `ipeth_send` does not have to queue for ARP. ARP can learn an
address without telling anybody, so that this may happen while packets for the same next hop still
wait behind a packet for another.
-/

import Minix.Inet.SendQueues

namespace Minix.Inet

open Function (update update_of_ne update_self)
open LinkedList (Chain)

/-! ### What the steps keep -/

/-- A packet for the next hop. -/
def To (s : IpEth) (ipaddr : UInt32) (id : Nat) : Prop :=
  ∃ pack, s.packs id = some pack ∧ pack.hop = some ipaddr

/-- A packet for the next hop is on the ARP queue. -/
def WaitsFor (s : IpEth) (ipaddr : UInt32) : Prop :=
  ∃ nodes, Chain s.extLink (s.head .arp) nodes ∧ ∃ id ∈ nodes, To s ipaddr id

/-- ARP does not answer `ipeth_send` at once while a packet for the same next hop waits. -/
def NotOvertaken (s : IpEth) : EthInput → Prop
  | .send dest _ false _ answer _ => (∃ addr, answer.result = .ok addr) → ¬WaitsFor s dest
  | _ => True

/-- Packets to one next hop that need no fragmentation have left in the order in which they were
accepted: of those that Ethernet has taken, the last one comes first. -/
def InOrder (s : IpEth) : Prop := (s.handed.map Prod.fst).Pairwise fun later id => Before s id later

/-! ### Invariants -/

/-- What holds where the code is. In the search the packets that have been passed are for other
addresses. -/
def ControlRight (s : IpEth) (lists : EthQueue → List Nat) : EthControl → Prop
  | .idle => s.frame = none → lists .xmit = []
  | .restart _ => s.frame = none
  | .search ipaddr ethAddr prev ethPack => ∃ front back, lists .arp = front ++ back ∧
      prev = front.getLast? ∧ ethPack = back.head? ∧ (∀ id ∈ front, ¬To s ipaddr id) ∧
      ∀ addr ∈ ethAddr, (ipaddr, addr) ∈ s.told
  | .more => True

/-- The state between two steps. -/
structure Good (s : IpEth) (lists : EthQueue → List Nat) : Prop extends Held s lists [] where
  control : ControlRight s lists s.control

/-- What a step has to keep. -/
def StepRight (s : IpEth) (lists : EthQueue → List Nat) (allowed : Prop) (s' : IpEth) : Prop :=
  s'.failed ≠ some .queue ∧
    (s'.failed = none → ∃ lists', Good s' lists' ∧ (allowed → Ordered s lists → Ordered s' lists'))

section Steps

variable {s t : IpEth} {lists : EthQueue → List Nat} {hand rest : List Nat} {id : Nat}
  {pack : EthPack} {allowed : Prop} {port : EthPort} {now : Nat} {busy : Bool} {dst : EtherAddr}

theorem StepRight.failed {failure : EthFailure} (failed : t.failed = some failure)
    (other : failure ≠ .queue) : StepRight s lists allowed t := by
  unfold StepRight
  rw [failed]
  exact ⟨fun wrong => other (Option.some.inj wrong), fun none => by cases none⟩

theorem StepRight.failing (failure : EthFailure) (other : failure ≠ .queue) :
    StepRight s lists allowed (t.fail failure) :=
  .failed rfl other

theorem mem_places {other : Nat} (member : other ∈ line t lists) : other ∈ places t lists := by
  unfold line leaves at member
  unfold places
  simp only [List.mem_append, List.mem_reverse] at member ⊢
  tauto

theorem Held.line_ne (held : Held t lists (id :: hand)) {other : Nat}
    (member : other ∈ line t lists) : other ≠ id := by
  rintro rfl
  have distinct := held.placed.nodup_iff.mpr List.nodup_range
  rw [List.cons_append, List.nodup_cons] at distinct
  exact distinct.1 (List.mem_append_right _ (mem_places member))

theorem Held.line_lt (held : Held t lists (id :: hand)) (fresh : t.fresh = id + 1) {other : Nat}
    (member : other ∈ line t lists) : other < id := by
  have inside := List.mem_range.mp
    (held.placed.mem_iff.mp (List.mem_append_right _ (mem_places member)))
  have apart := held.line_ne member
  omega

theorem setPack_whole {other : Nat} (apart : other ≠ id) {hop : Option UInt32}
    (whole : Whole (t.setPack id pack) hop other) : Whole t hop other := by
  unfold Whole IpEth.setPack at whole
  dsimp only at whole
  rwa [update_of_ne apart] at whole

theorem Whole.congr {other : Nat} {hop : Option UInt32} (whole : Whole t hop other)
    (packs : t.packs = s.packs) : Whole s hop other := by
  unfold Whole at whole
  rwa [packs] at whole

theorem Held.setControl (held : Held t lists hand) (control : EthControl) :
    Held { t with control := control } lists hand :=
  ⟨⟨held.chains, held.tails⟩, held.placed, held.belong, held.writing, held.sent⟩

/-- A packet in the hand of the port is sent, or put on the transmit queue. -/
theorem launch_keeps (good : Good s lists) (held : Held t lists [id]) (idle : t.control = .idle)
    (idle' : s.control = .idle) (fresh : t.fresh = id + 1) (packs : t.packs = s.packs)
    (same : line t lists = line s lists) (frame : t.frame = s.frame) (alive : t.failed = none)
    (right : RightAddress t.told pack.hop dst)
    (clear : allowed → ∀ other ∈ lists .arp, ¬Whole s pack.hop other) :
    StepRight s lists allowed (launch id pack dst now busy t) := by
  have empty := good.control
  rw [idle'] at empty
  -- the other packets stay as they are
  have old {hdr : FrameHdr} {s' : IpEth} (changed : s'.packs = (t.setPack id { pack with hdr := hdr }).packs)
      {other : Nat} (member : other ∈ line t lists) {hop : Option UInt32} (whole : Whole s' hop other) :
      Whole s hop other :=
    (setPack_whole (held.line_ne member) (whole.congr changed)).congr packs
  -- those for the same next hop come before
  have first {s' : IpEth} {other : Nat} (member : other ∈ line t lists) : Before s' other id :=
    fun _ _ _ => held.line_lt fresh member
  have new {hdr : FrameHdr} {s' : IpEth} (changed : s'.packs = (t.setPack id { pack with hdr := hdr }).packs)
      {hop : Option UInt32} (whole : Whole s' hop id) : hop = pack.hop := by
    obtain ⟨pack', found, rfl, -⟩ := whole
    rw [changed] at found
    have updated := (update_self id _ t.packs).symm.trans found
    rw [← Option.some.inj updated]
  have waiting {other : Nat} (member : other ∈ lists .arp) : other ∈ line t lists :=
    List.mem_append_right _ (List.mem_append_right _ member)
  have last {hdr : FrameHdr} {s' : IpEth} (allow : allowed)
      (changed : s'.packs = (t.setPack id { pack with hdr := hdr }).packs) :
      ∀ other ∈ lists .arp, Before s' id other := by
    intro other member hop whole whole'
    have same := new changed whole
    exact absurd (same ▸ old changed (waiting member) whole') (clear allow other member)
  unfold launch
  split
  case isTrue free =>
    have set := held.setPack { pack with hdr := .eth dst none }
    have found : (t.setPack id { pack with hdr := .eth dst none }).packs id =
        some ⟨.eth dst none, pack.ip, pack.hop, pack.whole⟩ := update_self ..
    have none' : lists .xmit = [] := empty (frame ▸ free.1)
    obtain failed | left := set.transmit ⟨pack.size, pack.size⟩ busy now free.1 found right le_rfl
    · exact .failed failed EthFailure.noConfusion
    · refine ⟨notFailed (left.failed.trans alive) _, fun _ => ⟨lists, ⟨left.held, ?_⟩,
        fun allow ordered => ?_⟩⟩
      · have idle'' : (transmit id dst ⟨pack.size, pack.size⟩ busy now
            (t.setPack id { pack with hdr := .eth dst none })).control = .idle :=
          left.control.elim (fun stays => stays.2.trans idle) fun writes => writes.2
        rw [idle'']
        exact fun _ => none'
      · have before : line t lists = leaves t ++ lists .arp := by
          unfold line
          rw [none', List.nil_append]
        have place : line (transmit id dst ⟨pack.size, pack.size⟩ busy now
            (t.setPack id { pack with hdr := .eth dst none })) lists =
              leaves t ++ id :: lists .arp := by
          unfold line
          rw [left.left, none', List.nil_append, List.append_assoc]
          rfl
        refine ordered.insert place ?_ ?_ ?_ (last allow left.packs)
        · rw [← before, same]
        · rw [← before]
          exact fun other member hop whole => old left.packs member whole
        · exact fun other member => first (List.mem_append_left _ member)
  case isFalse =>
    have set := held.setPack { pack with hdr := .eth dst (some now) }
    have found : (t.setPack id { pack with hdr := .eth dst (some now) }).packs id =
        some ⟨.eth dst (some now), pack.ip, pack.hop, pack.whole⟩ := update_self ..
    have belongs : Belongs (t.setPack id { pack with hdr := .eth dst (some now) }) id .xmit :=
      ⟨dst, now, pack.ip, pack.hop, pack.whole, found, right⟩
    have queued := set.enqueue belongs
    obtain ⟨packs', frame', handed, -, -, -, -, -, control, failed⟩ :=
      @enqueue_keeps (t.setPack id { pack with hdr := .eth dst (some now) }) id .xmit
    dsimp only
    generalize enqueue .xmit id (t.setPack id { pack with hdr := .eth dst (some now) }) = q
      at packs' frame' handed control failed queued ⊢
    have alive' : q.failed = none := failed.trans alive
    have leaves' : leaves q = leaves t := leaves_congr handed frame'
    have behind : line t lists = (leaves t ++ lists .xmit) ++ lists .arp :=
      (List.append_assoc _ _ _).symm
    have ordered' (control : EthControl) (allow : allowed) (ordered : Ordered s lists) :
        Ordered { q with control := control }
          (update lists .xmit (lists .xmit ++ [id])) := by
      have place : line { q with control := control }
          (update lists .xmit (lists .xmit ++ [id])) =
            (leaves t ++ lists .xmit) ++ id :: lists .arp := by
        change leaves q ++ ((lists .xmit ++ [id]) ++ lists .arp) = _
        rw [leaves', List.append_assoc, List.append_assoc]
        rfl
      refine ordered.insert place ?_ ?_ ?_ (last allow packs')
      · rw [← behind, same]
      · rw [← behind]
        exact fun other member hop whole => old packs' member whole
      · refine fun other member => first ?_
        rw [behind]
        exact List.mem_append_left _ member
    split
    case isTrue none =>
      exact ⟨notFailed alive' _, fun _ => ⟨_, ⟨queued.setControl _, none⟩, ordered' _⟩⟩
    case isFalse some =>
      refine ⟨notFailed alive' _, fun _ => ⟨_, ⟨queued, ?_⟩, ordered' q.control⟩⟩
      rw [control]
      change ControlRight q _ t.control
      rw [idle]
      exact fun none => absurd none some

theorem arpAnswer_fields (ipaddr : UInt32) (answer : ArpAnswer) :
    (t.arpAnswer ipaddr answer).packs = t.packs ∧ (t.arpAnswer ipaddr answer).frame = t.frame ∧
      (t.arpAnswer ipaddr answer).handed = t.handed ∧
      (t.arpAnswer ipaddr answer).fresh = t.fresh ∧
      (t.arpAnswer ipaddr answer).control = t.control ∧
      (t.arpAnswer ipaddr answer).failed = t.failed ∧
      (∀ addr, answer.result = .ok addr → (ipaddr, addr) ∈ (t.arpAnswer ipaddr answer).told) := by
  unfold IpEth.arpAnswer
  split
  case h_1 addr told =>
    refine ⟨rfl, rfl, rfl, rfl, rfl, rfl, fun addr' told' => ?_⟩
    obtain rfl := ArpResult.ok.inj (told.symm.trans told')
    exact List.mem_cons_self
  case h_2 none =>
    exact ⟨rfl, rfl, rfl, rfl, rfl, rfl, fun addr told => absurd told (none addr)⟩

theorem Held.arpAnswer (held : Held t lists hand) (ipaddr : UInt32) (answer : ArpAnswer) :
    Held (t.arpAnswer ipaddr answer) lists hand := by
  unfold IpEth.arpAnswer
  split
  · exact held.congr ⟨held.chains, held.tails⟩ rfl rfl rfl rfl rfl
      (fun _ => List.mem_cons_of_mem _) rfl rfl
  · exact held.congr ⟨held.chains, held.tails⟩ rfl rfl rfl rfl rfl (fun _ told => told) rfl rfl

theorem Good.hop_of_arp (good : Good s lists) {other : Nat} (member : other ∈ lists .arp) :
    ∃ hop, To s hop other := by
  obtain ⟨xhTime, hop, ip, whole, found⟩ := good.belong .arp other member
  exact ⟨hop, _, found, rfl⟩

theorem suspended_keeps {dest : UInt32} {data : List UInt8} (good : Good s lists)
    (held : Held t lists [id]) (idle : t.control = .idle) (idle' : s.control = .idle)
    (fresh : t.fresh = id + 1) (packs : t.packs = s.packs) (same : line t lists = line s lists)
    (frame : t.frame = s.frame) (alive : t.failed = none) :
    StepRight s lists allowed (enqueue .arp id (t.setPack id (newPack port data (some dest) now))) := by
  have empty := good.control
  rw [idle'] at empty
  have set := held.setPack (newPack port data (some dest) now)
  have belongs : Belongs (t.setPack id (newPack port data (some dest) now)) id .arp :=
    ⟨now, dest, _, _, update_self ..⟩
  have queued := set.enqueue belongs
  obtain ⟨packs', frame', handed, -, -, -, -, -, control, failed⟩ :=
    @enqueue_keeps (t.setPack id (newPack port data (some dest) now)) id .arp
  generalize enqueue .arp id (t.setPack id (newPack port data (some dest) now)) = q
    at packs' frame' handed control failed queued ⊢
  have leaves' : leaves q = leaves t := leaves_congr handed frame'
  refine ⟨notFailed (failed.trans alive) _, fun _ => ⟨_, ⟨queued, ?_⟩, fun _ ordered => ?_⟩⟩
  · rw [control]
    change ControlRight q _ t.control
    rw [idle]
    exact fun none => empty ((frame'.trans frame).symm.trans none)
  · have place : line q (update lists .arp (lists .arp ++ [id])) = line t lists ++ [id] := by
      change leaves q ++ (lists .xmit ++ (lists .arp ++ [id])) = _
      rw [leaves']
      simp only [line, List.append_assoc]
    refine ordered.insert place ?_ ?_ ?_ ?_
    · rw [List.append_nil, same]
    · rw [List.append_nil]
      exact fun other member hop whole =>
        (setPack_whole (held.line_ne member) (whole.congr packs')).congr packs
    · exact fun other member _ _ _ => held.line_lt fresh member
    · exact fun other member => by cases member

theorem ipethSend_keeps {dest : UInt32} {data : List UInt8} {broadcast : Bool} {answer : ArpAnswer}
    (good : Good s lists) (idle : s.control = .idle) (alive : s.failed = none) :
    StepRight s lists (NotOvertaken s (.send dest data broadcast now answer busy))
      (ipethSend port dest data broadcast now answer busy s) := by
  have new := good.toHeld.new
  cases broadcast with
  | true =>
    refine launch_keeps good new idle idle rfl rfl rfl rfl alive rfl fun _ other member whole => ?_
    obtain ⟨hop, pack, found, next⟩ := good.hop_of_arp member
    obtain ⟨pack', found', none, -⟩ := whole
    obtain rfl := Option.some.inj (found.symm.trans found')
    exact absurd (next.symm.trans none) (Option.some_ne_none hop)
  | false =>
    unfold ipethSend
    rw [if_neg Bool.false_ne_true]
    split
    · exact StepRight.failing _ EthFailure.noConfusion
    split
    · exact StepRight.failing _ EthFailure.noConfusion
    have answered := new.arpAnswer dest answer
    obtain ⟨packs, frame, handed, fresh, control, failed, told⟩ :=
      @arpAnswer_fields { s with fresh := s.fresh + 1 } dest answer
    have same : line (({ s with fresh := s.fresh + 1 } : IpEth).arpAnswer dest answer) lists =
        line s lists := by
      unfold line
      rw [leaves_congr handed frame]
      rfl
    generalize ({ s with fresh := s.fresh + 1 } : IpEth).arpAnswer dest answer = t
      at answered packs frame handed fresh control failed told same ⊢
    have alive' : t.failed = none := failed.trans alive
    have idle'' : t.control = .idle := control.trans idle
    split
    case h_1 => exact suspended_keeps good answered idle'' idle fresh packs same frame alive'
    case h_2 =>
      refine ⟨notFailed alive' _, fun _ => ⟨lists, ⟨answered.drop, ?_⟩, fun _ ordered => ?_⟩⟩
      · have empty := good.control
        rw [idle] at empty
        change ControlRight (t.drop s.fresh) lists t.control
        rw [idle'']
        exact fun none => empty (frame ▸ none)
      · refine ordered.sublist (same ▸ List.Sublist.refl _) fun other _ hop whole => ?_
        exact whole.congr (s := s) packs
    case h_3 addr known =>
      refine launch_keeps good answered idle'' idle fresh packs same frame alive' (told addr known)
        fun allow other member whole => ?_
      obtain ⟨pack, found, next, -⟩ := whole
      exact allow ⟨addr, known⟩ ⟨lists .arp, good.chains.chain .arp, other, member, pack, found, next⟩

/-! ### `ipeth_restart_send` -/

/-- What becomes of a packet that was in the hand. -/
def Settles (order : Prop) (s' : IpEth) : Prop :=
  s'.failed ≠ some .queue ∧
    (s'.failed = none → ∃ lists', Good s' lists' ∧ (order → Ordered s' lists'))

theorem Settles.stepRight {order : Prop} {s' : IpEth} (settles : Settles order s')
    (enough : allowed → Ordered s lists → order) : StepRight s lists allowed s' :=
  ⟨settles.1, fun none => (settles.2 none).imp fun _ good =>
    ⟨good.1, fun allow ordered => good.2 (enough allow ordered)⟩⟩

theorem Settles.failed {order : Prop} {failure : EthFailure} (failed : t.failed = some failure)
    (other : failure ≠ .queue) : Settles order t := by
  unfold Settles
  rw [failed]
  exact ⟨fun wrong => other (Option.some.inj wrong), fun none => by cases none⟩

theorem Settles.failing {order : Prop} (failure : EthFailure) (other : failure ≠ .queue) :
    Settles order (t.fail failure) :=
  .failed rfl other

/-- The packet in the hand comes behind those that have left and before those that wait. -/
def HandOrdered (t : IpEth) (lists : EthQueue → List Nat) (id : Nat) : Prop :=
  (leaves t ++ id :: (lists .xmit ++ lists .arp)).Pairwise (Before t)

/-- A packet in the hand of `ipeth_restart_send`. -/
structure Restarting (t : IpEth) (lists : EthQueue → List Nat) (id : Nat) (pack : EthPack)
    (dst : EtherAddr) : Prop where
  held : Held t lists [id]
  free : t.frame = none
  control : ∃ now, t.control = .restart now
  alive : t.failed = none
  hdr : ∃ enqTime, pack.hdr = .eth dst (some enqTime)
  right : RightAddress t.told pack.hop dst
  here : ∃ ip, t.packs id = some ⟨pack.hdr, ip, pack.hop, pack.whole⟩

theorem restartOffer_settles (restarting : Restarting t lists id pack dst) :
    Settles (HandOrdered t lists id) (restartOffer port id pack dst now busy t) := by
  obtain ⟨held, free, ⟨since, control⟩, alive, ⟨enqTime, hdr⟩, right, ip, here⟩ := restarting
  unfold restartOffer
  have set := held.setPack (filledUp port pack)
  have found : (t.setPack id (filledUp port pack)).packs id =
      some ⟨.eth dst (some enqTime), (filledUp port pack).ip, pack.hop, pack.whole⟩ := by
    rw [← hdr]
    exact update_self ..
  have free' : (t.setPack id (filledUp port pack)).frame = none := free
  rw [if_neg (not_not.mpr free')]
  have less : pack.size ≤ ethHdrSize + (filledUp port pack).ip.length := by
    unfold filledUp EthPack.size
    rw [List.length_append]
    omega
  obtain failed | left := set.transmit ⟨pack.size, (filledUp port pack).size⟩ busy now free' found
    right less
  · exact .failed failed EthFailure.noConfusion
  · refine ⟨notFailed (left.failed.trans alive) _, fun _ => ⟨lists, ⟨left.held, ?_⟩,
      fun ordered => ?_⟩⟩
    · obtain ⟨none, same⟩ | ⟨writes, idle⟩ := left.control
      · rw [same]
        change ControlRight _ lists t.control
        rw [control]
        exact none
      · rw [idle]
        exact fun none => by
          rw [writes] at none
          cases none
    · have kept (other : Nat) (hop : Option UInt32) (whole : Whole (transmit id dst
          ⟨pack.size, (filledUp port pack).size⟩ busy now (t.setPack id (filledUp port pack))) hop
          other) : Whole t hop other := by
        have whole' := whole.congr left.packs
        by_cases same : other = id
        · subst same
          obtain ⟨pack', found', next, entire⟩ := whole'
          obtain rfl := Option.some.inj (found.symm.trans found')
          exact ⟨_, here, next, entire⟩
        · exact setPack_whole same whole'
      unfold Ordered line
      rw [left.left, List.append_assoc]
      exact ordered.imp fun before => before.kept (kept _) (kept _)

theorem drop_settles (restarting : Restarting t lists id pack dst) :
    Settles (HandOrdered t lists id) (t.drop id) := by
  obtain ⟨held, free, ⟨since, control⟩, alive, -⟩ := restarting
  refine ⟨notFailed alive _, fun _ => ⟨lists, ⟨held.drop, ?_⟩, fun ordered => ?_⟩⟩
  · change ControlRight _ lists t.control
    rw [control]
    exact free
  · exact List.Pairwise.sublist ((List.sublist_cons_self id _).append_left (leaves t)) ordered

theorem restartAged_settles {since : Nat} (restarting : Restarting t lists id pack dst) :
    Settles (HandOrdered t lists id) (restartAged port id pack dst since now busy t) := by
  unfold restartAged
  split
  case isFalse => exact restartOffer_settles restarting
  case isTrue =>
    split
    case h_1 => exact .failing _ EthFailure.noConfusion
    case h_2 => exact drop_settles restarting
    case h_3 ip updated =>
      have aged : Restarting t lists id { pack with ip := ip } dst := { restarting with }
      exact restartOffer_settles aged

/-- The second part of a packet goes behind those that wait. -/
theorem requeue_restarting (restarting : Restarting t lists id pack dst) (second : List UInt8) :
    Restarting (requeue pack second t)
      (update lists .xmit (lists .xmit ++ [t.fresh])) id pack dst ∧
    (HandOrdered t lists id → HandOrdered (requeue pack second t)
      (update lists .xmit (lists .xmit ++ [t.fresh])) id) := by
  obtain ⟨held, free, control, alive, ⟨enqTime, hdr⟩, right, ip, here⟩ := restarting
  have set := held.new.setPack { pack with ip := second, whole := false }
  obtain ⟨-, -, -, apart, -⟩ := set.notMem
  have different : id ≠ t.fresh := fun same => apart (same ▸ List.mem_singleton_self id)
  have belongs : Belongs (({ t with fresh := t.fresh + 1 } : IpEth).setPack t.fresh
      { pack with ip := second, whole := false }) t.fresh .xmit := by
    refine ⟨dst, enqTime, second, pack.hop, false, ?_, right⟩
    rw [← hdr]
    exact update_self ..
  have queued := set.enqueue belongs
  obtain ⟨packs, frame, handed, -, -, told, -, -, control', failed⟩ :=
    @enqueue_keeps (({ t with fresh := t.fresh + 1 } : IpEth).setPack t.fresh
      { pack with ip := second, whole := false }) t.fresh .xmit
  change Restarting (enqueue .xmit t.fresh (({ t with fresh := t.fresh + 1 } : IpEth).setPack t.fresh
      { pack with ip := second, whole := false })) _ id pack dst ∧ (_ → HandOrdered (enqueue .xmit
      t.fresh (({ t with fresh := t.fresh + 1 } : IpEth).setPack t.fresh
        { pack with ip := second, whole := false })) _ id)
  generalize enqueue .xmit t.fresh (({ t with fresh := t.fresh + 1 } : IpEth).setPack t.fresh
    { pack with ip := second, whole := false }) = q
    at packs frame handed told control' failed queued ⊢
  have old : q.packs id = t.packs id := (congrFun packs id).trans (update_of_ne different _ _)
  have leaves' : leaves q = leaves t := leaves_congr handed frame
  refine ⟨⟨queued, frame.trans free, control'.symm ▸ control, failed.trans alive, ⟨enqTime, hdr⟩,
    told.symm ▸ right, ip, old.trans here⟩, fun ordered => ?_⟩
  have kept {other : Nat} (ne : other ≠ t.fresh) (hop : Option UInt32) (whole : Whole q hop other) :
      Whole t hop other := setPack_whole (t := { t with fresh := t.fresh + 1 }) ne (whole.congr packs)
  -- the second part does not count
  have part (hop : Option UInt32) : ¬Whole q hop t.fresh := by
    rintro ⟨pack', found, -, entire⟩
    obtain rfl := Option.some.inj (((congrFun packs t.fresh).trans
      (update_self ..)).symm.trans found)
    cases entire
  have others {other : Nat} (member : other ∈ (leaves t ++ id :: lists .xmit) ++ lists .arp) :
      other ≠ t.fresh := by
    by_cases same : other = id
    · exact same ▸ different
    · refine Held.line_ne held.new ?_
      unfold line
      simp only [List.mem_append, List.mem_cons] at member ⊢
      tauto
  change (leaves q ++ id :: ((lists .xmit ++ [t.fresh]) ++ lists .arp)).Pairwise (Before q)
  rw [leaves', List.append_assoc, List.singleton_append, ← List.cons_append, ← List.append_assoc]
  refine pairwise_insert (r := Before t) ?_ (fun one member two member' before => before.kept
    (kept (others member)) (kept (others member'))) (fun other _ hop _ whole =>
      absurd whole (part hop)) fun other _ hop whole => absurd whole (part hop)
  rw [List.append_assoc, List.cons_append]
  exact ordered

theorem restartPack_settles {since : Nat} (restarting : Restarting t lists id pack dst) :
    Settles (HandOrdered t lists id) (restartPack port id pack dst since now busy t) := by
  unfold restartPack
  split
  case isFalse => exact restartAged_settles restarting
  case isTrue =>
    split
    case h_1 => exact .failing _ EthFailure.noConfusion
    case h_2 => exact .failing _ EthFailure.noConfusion
    case h_3 first second split =>
      obtain ⟨requeued, order⟩ := requeue_restarting restarting second
      have settles := @restartAged_settles _ _ id { pack with ip := first } port now busy dst since
        { requeued with }
      exact ⟨settles.1, fun none => (settles.2 none).imp fun _ good =>
        ⟨good.1, fun ordered => good.2 (order ordered)⟩⟩

theorem restartRound_keeps {since : Nat} (good : Good s lists)
    (control : s.control = .restart since) (alive : s.failed = none) :
    StepRight s lists allowed (restartRound port since busy s) := by
  have head := (good.chains.chain .xmit).head_eq
  have free := good.control
  rw [control] at free
  change s.frame = none at free
  unfold restartRound
  cases waits : lists .xmit with
  | nil =>
    rw [waits] at head
    rw [head]
    exact ⟨notFailed alive _, fun _ => ⟨lists, ⟨good.toHeld.setControl _, fun _ => waits⟩,
      fun _ ordered => ordered⟩⟩
  | cons id rest =>
    rw [waits] at head
    obtain ⟨dst, enqTime, ip, hop, whole, found, right⟩ := good.belong .xmit id (by
      rw [waits]
      exact List.mem_cons_self)
    rw [head]
    dsimp only [List.head?_cons]
    rw [found]
    have restarting : Restarting (dequeue .xmit id s) (update lists .xmit rest) id
        ⟨.eth dst (some enqTime), ip, hop, whole⟩ dst :=
      ⟨good.toHeld.dequeue waits, free, ⟨since, control⟩, alive, ⟨enqTime, rfl⟩, right, ip, found⟩
    refine Settles.stepRight (restartPack_settles restarting) fun _ ordered => ?_
    unfold Ordered line at ordered
    rw [waits] at ordered
    exact ordered

end Steps

end Minix.Inet
