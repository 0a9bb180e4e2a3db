/-
This file proves that the replies of ARP and the writes of the Ethernet port keep the queues of IP
over Ethernet right, and puts the steps together to what holds in every run.
-/

import Minix.Inet.QueueSteps

namespace Minix.Inet

open Function (update update_of_ne update_self)
open Option (some.inj ite_none_left_eq_some ite_none_right_eq_some ite_some_none_eq_some)
open Transition (Run execute)
open LinkedList (Chain)

section Steps

variable {s t : IpEth} {lists : EthQueue → List Nat} {hand rest : List Nat} {id : Nat}
  {pack : EthPack} {allowed : Prop} {port : EthPort} {now : Nat} {busy : Bool} {dst : EtherAddr}
  {ethAddr : Option EtherAddr}

/-! ### `ipeth_arp_reply` -/

theorem unqueue_fields (prev : Option Nat) : (unqueue prev id s).packs = s.packs ∧
    (unqueue prev id s).frame = s.frame ∧ (unqueue prev id s).handed = s.handed ∧
    (unqueue prev id s).dropped = s.dropped ∧ (unqueue prev id s).fresh = s.fresh ∧
    (unqueue prev id s).told = s.told ∧ (unqueue prev id s).writeSp = s.writeSp ∧
    (unqueue prev id s).writeIp = s.writeIp ∧ (unqueue prev id s).failed = s.failed := by
  unfold unqueue
  split
  · exact ⟨rfl, rfl, rfl, rfl, rfl, rfl, rfl, rfl, rfl⟩
  · dsimp only
    split <;> exact ⟨rfl, rfl, rfl, rfl, rfl, rfl, rfl, rfl, rfl⟩

/-- Taking an entry out of the ARP queue leaves the others in order. -/
theorem Queued.unqueue {front more : List Nat} (queued : Queued s lists)
    (here : lists .arp = front ++ id :: more) :
    Queued (unqueue front.getLast? id s) (update lists .arp (front ++ more)) := by
  have others {nodes : List Nat} {other : EthQueue} (apart : other ≠ .arp) :
      ∀ last ∈ (update lists .arp nodes other).getLast?, s.tail other = last := by
    rw [update_of_ne apart]
    exact queued.tails other
  have ends : ∀ last ∈ more.getLast?, s.tail .arp = last := by
    intro last member
    refine queued.tails .arp last ?_
    rw [here]
    cases more with
    | nil => cases member
    | cons next more => simpa using member
  obtain rfl | ⟨ahead, prev, rfl⟩ := List.eq_nil_or_concat front
  case inl =>
    refine ⟨queued.chains.pop here, fun other last member => ?_⟩
    by_cases same : other = .arp
    · subst same
      rw [update_self] at member
      exact ends last member
    · exact others same last member
  case inr =>
    rw [List.concat_eq_append, List.getLast?_concat] at *
    rw [List.append_assoc, List.singleton_append] at here ⊢
    have unlinked := queued.chains.unlink here
    have behind : s.extLink id = more.head? := by
      have chain := queued.chains.chain .arp
      rw [here] at chain
      exact chain.behind.2.head_eq
    have next : update s.extLink prev (s.extLink id) prev = more.head? :=
      (update_self ..).trans behind
    unfold Minix.Inet.unqueue
    dsimp only
    split
    case isTrue none =>
      rw [next, List.head?_eq_none_iff] at none
      refine ⟨unlinked, fun other last member => ?_⟩
      change update s.tail .arp prev other = last
      by_cases same : other = .arp
      · subst same
        rw [update_self] at member ⊢
        rw [none, List.getLast?_concat] at member
        exact some.inj member
      · rw [update_of_ne same]
        exact others same last member
    case isFalse some =>
      rw [next, List.head?_eq_none_iff] at some
      refine ⟨unlinked, fun other last member => ?_⟩
      by_cases same : other = .arp
      · subst same
        rw [update_self] at member
        refine ends last ?_
        cases more with
        | nil => exact absurd rfl some
        | cons first rest => simpa using member
      · exact others same last member

theorem Held.unqueue {front more : List Nat} (held : Held s lists [])
    (here : lists .arp = front ++ id :: more) :
    Held (unqueue front.getLast? id s) (update lists .arp (front ++ more)) [id] := by
  obtain ⟨packs, frame, handed, dropped, fresh, told, writeSp, writeIp, -⟩ :=
    @unqueue_fields s id front.getLast?
  have queued := held.toQueued.unqueue here
  generalize Minix.Inet.unqueue front.getLast? id s = t
    at packs frame handed dropped fresh told writeSp writeIp queued ⊢
  have same : ∀ entry ∈ s.told, entry ∈ t.told := by
    rw [told]
    exact fun _ member => member
  refine ⟨queued, ?_, fun other node member => ?_,
    held.writing.congr frame writeSp writeIp (fun id _ => congrFun packs id) same, ?_⟩
  · rw [fresh]
    refine List.Perm.trans (List.perm_iff_count.mpr fun other => ?_) held.placed
    unfold places
    rw [frame, handed, dropped, here]
    change List.count other ([id] ++ ((front ++ more) ++ (lists .xmit ++
      (s.frame.toList ++ (s.handed.map Prod.fst ++ s.dropped))))) = _
    simp only [List.count_append, List.count_cons, List.count_nil]
    omega
  · refine (held.belong other node ?_).congr (congrFun packs node) same
    by_cases arp : other = .arp
    · subst arp
      rw [update_self] at member
      rw [here]
      simp only [List.mem_append, List.mem_cons] at member ⊢
      tauto
    · rwa [update_of_ne arp] at member
  · rw [handed]
    exact (held.belongings packs same).2

/-- A packet that has come from the ARP queue into the hand, and where it is in order. -/
structure Resolved (t t' : IpEth) (lists lists' : EthQueue → List Nat) (id : Nat) : Prop where
  held : Held t' lists' []
  arp : lists' .arp = lists .arp
  frame : t'.frame = t.frame
  control : t'.control = t.control
  failed : t'.failed = t.failed
  told : t'.told = t.told
  order : (leaves t ++ (lists .xmit ++ id :: lists .arp)).Pairwise (Before t) → Ordered t' lists'

/-- A packet from the ARP queue goes to the end of the transmit queue, or away. -/
theorem deliver_resolved {xhTime : Nat} {ipaddr : UInt32} {ip : List UInt8} {whole : Bool}
    (held : Held t lists [id])
    (found : t.packs id = some ⟨.xmit xhTime ipaddr, ip, some ipaddr, whole⟩)
    (told : ∀ addr ∈ ethAddr, (ipaddr, addr) ∈ t.told) :
    ∃ lists', Resolved t (deliver id ⟨.xmit xhTime ipaddr, ip, some ipaddr, whole⟩ ethAddr xhTime t)
      lists lists' id := by
  cases ethAddr with
  | none =>
    refine ⟨lists, held.drop, rfl, rfl, rfl, rfl, rfl, fun ordered => ?_⟩
    refine List.Pairwise.sublist ?_ ordered
    exact ((List.sublist_cons_self id _).append_left (lists .xmit)).append_left (leaves t)
  | some addr =>
    have set := held.setPack ⟨.eth addr (some xhTime), ip, some ipaddr, whole⟩
    have updated : (t.setPack id ⟨.eth addr (some xhTime), ip, some ipaddr, whole⟩).packs id =
        some ⟨.eth addr (some xhTime), ip, some ipaddr, whole⟩ := update_self ..
    have belongs : Belongs (t.setPack id ⟨.eth addr (some xhTime), ip, some ipaddr, whole⟩) id .xmit :=
      ⟨addr, xhTime, ip, some ipaddr, whole, updated, told addr rfl⟩
    have queued := set.enqueue belongs
    obtain ⟨packs, frame, handed, -, -, told', -, -, control, failed⟩ :=
      @enqueue_keeps (t.setPack id ⟨.eth addr (some xhTime), ip, some ipaddr, whole⟩) id .xmit
    unfold deliver resolve
    dsimp only
    generalize enqueue .xmit id (t.setPack id ⟨.eth addr (some xhTime), ip, some ipaddr, whole⟩) = q
      at packs frame handed told' control failed queued ⊢
    have kept (other : Nat) (hop : Option UInt32) (entire : Whole q hop other) : Whole t hop other := by
      have before := entire.congr packs
      by_cases same : other = id
      · subst same
        obtain ⟨pack', found', next, all⟩ := before
        obtain rfl := some.inj (updated.symm.trans found')
        exact ⟨_, found, next, all⟩
      · exact setPack_whole same before
    refine ⟨_, queued, rfl, frame, control, failed, told', fun ordered => ?_⟩
    have leaves' : leaves q = leaves t := leaves_congr handed frame
    change (leaves q ++ ((lists .xmit ++ [id]) ++ lists .arp)).Pairwise (Before q)
    rw [leaves', List.append_assoc]
    exact ordered.imp fun before => before.kept (kept _) (kept _)

theorem order_resolved {front more : List Nat} {hop : UInt32} (here : lists .arp = front ++ id :: more)
    (ordered : Ordered s lists) (packs : t.packs = s.packs) (same : leaves t = leaves s)
    (passed : ∀ other ∈ front, ¬To s hop other) (found : To s hop id) :
    (leaves t ++ (lists .xmit ++ id :: (front ++ more))).Pairwise (Before t) := by
  have kept {a b : Nat} (before : Before s a b) : Before t a b :=
    before.kept (fun _ whole => whole.congr packs) fun _ whole => whole.congr packs
  unfold Ordered line at ordered
  rw [here, ← List.append_assoc] at ordered
  obtain ⟨-, tail, cross⟩ := List.pairwise_append.mp ordered
  obtain ⟨-, behind, -⟩ := List.pairwise_append.mp tail
  rw [same, ← List.append_assoc]
  refine pairwise_insert (r := Before s) (List.Pairwise.sublist ?_ ordered)
    (fun _ _ _ _ before => kept before) (fun other member => ?_) fun other member => ?_
  · exact ((List.sublist_cons_self id more).append_left front).append_left _
  · exact kept (cross other member id (List.mem_append_right _ List.mem_cons_self))
  · obtain before | after := List.mem_append.mp member
    · intro hop' whole whole'
      obtain ⟨pack, found, next⟩ := found
      obtain ⟨pack', found', rfl, -⟩ := whole.congr packs
      obtain ⟨other', at', next', -⟩ := whole'.congr packs
      obtain rfl := some.inj (found.symm.trans found')
      exact absurd ⟨other', at', next'.trans next⟩ (passed other before)
    · exact kept (List.rel_of_pairwise_cons behind after)

/-- One step of the search for packets to an address keeps the queues. -/
theorem searchRound_keeps {ipaddr : UInt32} {prev ethPack : Option Nat} (good : Good s lists)
    (control : s.control = .search ipaddr ethAddr prev ethPack) (alive : s.failed = none) :
    StepRight s lists allowed (searchRound ipaddr ethAddr prev ethPack s) := by
  have place := good.control
  rw [control] at place
  obtain ⟨front, back, here, rfl, rfl, passed, told⟩ := place
  have living : s.failed ≠ some .queue := notFailed alive _
  unfold searchRound
  cases back with
  | nil => exact ⟨living, fun _ => ⟨lists, ⟨good.toHeld.setControl _, trivial⟩, fun _ ordered => ordered⟩⟩
  | cons id more =>
    obtain ⟨xhTime, hop, ip, whole, found⟩ := good.belong .arp id (by
      rw [here]
      exact List.mem_append_right _ List.mem_cons_self)
    dsimp only [List.head?_cons]
    rw [found]
    dsimp only
    split
    case isFalse other =>
      refine ⟨living, fun _ => ⟨lists, ⟨good.toHeld.setControl _, front ++ [id], more, ?_, ?_, ?_, ?_,
        told⟩, fun _ ordered => ordered⟩⟩
      · rw [here, List.append_assoc]
        rfl
      · rw [List.getLast?_concat]
      · have chain := good.chains.chain .arp
        rw [here] at chain
        exact chain.behind.head_eq
      · intro node member
        obtain before | here := List.mem_append.mp member
        · exact passed node before
        · rintro ⟨pack, found', next⟩
          rw [List.mem_singleton.mp here] at found'
          obtain rfl := some.inj (found.symm.trans found')
          exact other (some.inj next)
    case isTrue same =>
      subst same
      have taken := good.toHeld.unqueue here
      obtain ⟨packs, frame, handed, -, -, told', -, -, failed⟩ := @unqueue_fields s id front.getLast?
      generalize unqueue front.getLast? id s = t at packs frame handed told' failed taken ⊢
      obtain ⟨lists', resolved⟩ := @deliver_resolved t _ id ethAddr xhTime hop ip whole taken
        ((congrFun packs id).trans found) fun addr known => told'.symm ▸ told addr known
      refine ⟨?_, fun _ => ⟨lists', ⟨resolved.held.setControl _, [], lists' .arp, rfl, rfl,
        (resolved.held.chains.chain .arp).head_eq, fun _ none => (by cases none),
        fun addr known => ?_⟩, fun _ ordered => resolved.order ?_⟩⟩
      · change (deliver _ _ _ _ t).failed ≠ _
        rw [resolved.failed, failed]
        exact living
      · change (hop, addr) ∈ (deliver _ _ _ _ t).told
        rw [resolved.told, told']
        exact told addr known
      · have left : leaves t = leaves s := leaves_congr handed frame
        exact @order_resolved s t lists id front more hop here ordered packs left passed
          ⟨_, found, rfl⟩

theorem finishReply_keeps (held : Held t lists []) (alive : t.failed = none)
    (order : allowed → Ordered s lists → Ordered t lists) :
    StepRight s lists allowed (finishReply now t) := by
  refine ⟨notFailed alive _, fun _ => ⟨lists, ⟨held.setControl _, ?_⟩, order⟩⟩
  change ControlRight _ lists (if t.frame = none then .restart now else .idle)
  split
  case isTrue free => exact free
  case isFalse writes => exact fun none => absurd none writes

/-- One round of the loop that gets more ARPs in progress keeps the queues. -/
theorem moreRound_keeps {answer : ArpAnswer} (good : Good s lists) (control : s.control = .more)
    (alive : s.failed = none) : StepRight s lists allowed (moreRound answer now s) := by
  have head := (good.chains.chain .arp).head_eq
  unfold moreRound
  cases waits : lists .arp with
  | nil =>
    rw [waits] at head
    rw [head]
    exact finishReply_keeps good.toHeld alive fun _ ordered => ordered
  | cons id rest =>
    rw [waits] at head
    obtain ⟨xhTime, hop, ip, whole, found⟩ := good.belong .arp id (by
      rw [waits]
      exact List.mem_cons_self)
    rw [head]
    dsimp only [List.head?_cons]
    rw [found]
    dsimp only
    have answered := good.toHeld.arpAnswer hop answer
    obtain ⟨packs, frame, handed, -, control', failed, told⟩ := @arpAnswer_fields s hop answer
    generalize s.arpAnswer hop answer = t
      at answered packs frame handed control' failed told ⊢
    have alive' : t.failed = none := failed.trans alive
    have left : leaves t = leaves s := leaves_congr handed frame
    have kept {a b : Nat} (before : Before s a b) : Before t a b :=
      before.kept (fun _ whole => whole.congr packs) fun _ whole => whole.congr packs
    have ordered' (ordered : Ordered s lists) : Ordered t lists := by
      unfold Ordered line at ordered ⊢
      rw [left]
      exact ordered.imp kept
    have taken := answered.dequeue waits
    have settles {ethAddr : Option EtherAddr} (known : ∀ addr ∈ ethAddr, (hop, addr) ∈ t.told) :
        StepRight s lists allowed
          (deliver id ⟨.xmit xhTime hop, ip, some hop, whole⟩ ethAddr xhTime (dequeue .arp id t)) := by
      obtain ⟨lists', resolved⟩ := @deliver_resolved (dequeue .arp id t) _ id ethAddr xhTime hop ip
        whole taken ((congrFun packs id).trans found) known
      refine ⟨notFailed (resolved.failed.trans alive') _, fun _ => ⟨lists', ⟨resolved.held, ?_⟩,
        fun _ ordered => resolved.order ?_⟩⟩
      · rw [resolved.control]
        change ControlRight _ lists' t.control
        rw [control', control]
        trivial
      · have ordered'' := ordered' ordered
        unfold Ordered line at ordered''
        rw [waits] at ordered''
        exact ordered''
    split
    · exact finishReply_keeps answered alive' fun _ => ordered'
    · exact settles fun _ none => by cases none
    · exact settles fun addr same => by
        obtain rfl := some.inj same
        exact told _ ‹_›

/-! ### The other steps -/

theorem rewrite_keeps {count : Nat} (good : Good s lists) (alive : s.failed = none)
    (waits : s.writeIp = some count) :
    StepRight s lists allowed (rewrite count busy now { s with busy := false }) := by
  obtain ⟨-, -, none⟩ | ⟨id, count', on, sp, counted, dst, enqTime, ip, hop, whole, found, right,
    less⟩ := good.writing
  · rw [waits] at none
    cases none
  obtain rfl := some.inj (waits.symm.trans counted)
  have living : s.failed ≠ some .queue := notFailed alive _
  have placed := good.placed
  unfold places at placed
  rw [on] at placed
  unfold rewrite
  rw [on]
  dsimp only
  rw [found]
  dsimp only
  split
  case isTrue =>
    unfold writeReply IpEth.drop
    rw [if_pos sp]
    refine ⟨living, fun _ => ⟨lists, ⟨⟨⟨good.chains, good.tails⟩, ?_, good.belong,
      .inl ⟨rfl, rfl, rfl⟩, good.sent⟩, rfl⟩, fun _ ordered => ?_⟩⟩
    · refine List.Perm.trans (List.perm_iff_count.mpr fun other => ?_) placed
      unfold places
      simp only [List.count_append, List.count_cons, List.count_nil, Option.toList_some,
        Option.toList_none]
      omega
    · refine ordered.sublist ?_ fun _ _ _ whole => whole
      unfold line leaves
      rw [on]
      exact ((List.nil_sublist _).append_left _).append_right _
  case isFalse =>
    rw [if_neg (Nat.not_lt.mpr less)]
    unfold writeReply
    rw [if_pos sp]
    refine ⟨living, fun _ => ⟨lists, ⟨⟨⟨good.chains, good.tails⟩, ?_, good.belong,
      .inl ⟨rfl, rfl, rfl⟩, List.forall_mem_cons.mpr ⟨⟨_, found, right⟩, good.sent⟩⟩, rfl⟩,
      fun _ ordered => ?_⟩⟩
    · refine List.Perm.trans (List.perm_iff_count.mpr fun other => ?_) placed
      unfold places
      simp only [List.map_cons, List.count_append, List.count_cons, List.count_nil,
        Option.toList_some, Option.toList_none]
      omega
    · refine ordered.sublist ?_ fun _ _ _ whole => whole
      unfold line leaves
      rw [on]
      simp

theorem portWritten_keeps {others : Bool} (good : Good s lists) (alive : s.failed = none) :
    StepRight s lists allowed (portWritten others busy now s) := by
  have living : s.failed ≠ some .queue := notFailed alive _
  unfold portWritten
  split
  · exact ⟨living, fun _ => ⟨lists, good, fun _ ordered => ordered⟩⟩
  split
  case h_1 =>
    refine ⟨living, fun _ => ⟨lists, ⟨⟨⟨good.chains, good.tails⟩, good.placed, good.belong,
      good.writing, good.sent⟩, good.control⟩, fun _ ordered => ordered⟩⟩
  case h_2 count waits => exact rewrite_keeps good alive waits

/-- One step keeps the queues right, and the order if nothing is overtaken. -/
theorem step_keeps {input : EthInput} {s' : IpEth} (good : Good s lists)
    (completed : ethStep port s input = some s') :
    StepRight s lists (NotOvertaken s input) s' := by
  unfold ethStep at completed
  split at completed
  · cases completed
  rename_i alive
  rw [not_not] at alive
  have living : s.failed ≠ some .queue := notFailed alive _
  split at completed
  case h_1 idle =>
    obtain rfl := some.inj completed
    exact ipethSend_keeps good idle alive
  case h_2 ipaddr ethAddr idle =>
    obtain rfl := some.inj completed
    refine ⟨living, fun _ => ⟨lists, ⟨?_, [], lists .arp, rfl, rfl,
      (good.chains.chain .arp).head_eq, fun _ none => (by cases none), fun addr known => ?_⟩,
      fun _ ordered => ordered⟩⟩
    · exact good.toHeld.congr ⟨good.chains, good.tails⟩ rfl rfl rfl rfl rfl
        (fun _ => List.mem_append_right _) rfl rfl
    · refine List.mem_append_left _ (List.mem_map.mpr ⟨addr, ?_, rfl⟩)
      exact Option.mem_toList.mpr known
  case h_3 idle =>
    obtain ⟨-, completed⟩ := ite_none_left_eq_some.mp completed
    obtain rfl := some.inj completed
    exact ⟨living, fun _ => ⟨lists, ⟨⟨⟨good.chains, good.tails⟩, good.placed, good.belong,
      good.writing, good.sent⟩, good.control⟩, fun _ ordered => ordered⟩⟩
  case h_4 idle =>
    obtain ⟨-, rfl⟩ := ite_some_none_eq_some.mp completed
    exact portWritten_keeps good alive
  case h_5 control =>
    obtain rfl := some.inj completed
    exact restartRound_keeps good control alive
  case h_6 control =>
    obtain rfl := some.inj completed
    exact searchRound_keeps good control alive
  case h_7 control =>
    obtain rfl := some.inj completed
    exact moreRound_keeps good control alive
  case h_8 => cases completed

end Steps

/-- A state before a failure. -/
def SoundQueues (s : IpEth) : Prop := s.failed ≠ some .queue ∧ (s.failed = none → ∃ lists, Good s lists)

/-- A state before a failure, in which nothing has been overtaken. -/
def SoundOrder (s : IpEth) : Prop :=
  s.failed ≠ some .queue ∧ (s.failed = none → ∃ lists, Good s lists ∧ Ordered s lists)

theorem alive_of_step {port : EthPort} {s s' : IpEth} {input : EthInput}
    (completed : ethStep port s input = some s') : s.failed = none := by
  by_contra failed
  unfold ethStep at completed
  rw [if_pos failed] at completed
  cases completed

theorem queued_start : Queued {} (fun _ => []) where
  chains := ⟨fun _ => rfl, fun _ _ _ member => absurd member List.not_mem_nil⟩
  tails _ _ member := by cases member

theorem good_start : Good {} (fun _ => []) ∧ Ordered {} (fun _ => []) where
  left := {
    toQueued := queued_start
    placed := List.Perm.refl _
    belong := fun _ _ member => absurd member List.not_mem_nil
    writing := .inl ⟨rfl, rfl, rfl⟩
    sent := fun _ member => absurd member List.not_mem_nil
    control := fun _ => rfl }
  right := List.Pairwise.nil

theorem Good.queuesRight {s : IpEth} {lists : EthQueue → List Nat} (good : Good s lists) :
    QueuesRight s where
  placed := ⟨lists, good.toQueued, good.placed⟩
  empty idle none := by
    have empty := good.control
    rw [idle] at empty
    have head := (good.chains.chain .xmit).head_eq
    rw [empty none] at head
    exact head
  sent := good.sent

theorem Ordered.inOrder {s : IpEth} {lists : EthQueue → List Nat} (ordered : Ordered s lists) :
    InOrder s :=
  List.pairwise_reverse.mp (List.pairwise_append.mp (List.pairwise_append.mp ordered).1).1

/-- In every run each packet is in one place, the pointers of the queues are right, the transmit
queue is empty between two events while no frame is being written, no assertion about the queues
fails, and every packet goes to an address of its next hop. Packets to one next hop that need no
fragmentation leave in the order in which they were accepted, in every run in which ARP does not
answer `ipeth_send` at once while a packet for the same next hop waits on the ARP queue. -/
theorem queues_right (port : EthPort) (inputs : List EthInput) (s : IpEth)
    (run : Run (ethStep port) (fun _ _ => True) {} inputs s) :
    s.failed ≠ some .queue ∧ (s.failed = none → QueuesRight s) ∧
      (Run (ethStep port) NotOvertaken {} inputs s → s.failed = none → InOrder s) := by
  have sound : SoundQueues s := by
    refine run.invariant ⟨(fun wrong => by cases wrong), fun _ => ⟨_, good_start.1⟩⟩
      fun s input s' sound _ completed => ?_
    obtain ⟨lists, good⟩ := sound.2 (alive_of_step completed)
    have kept := step_keeps good completed
    exact ⟨kept.1, fun none => (kept.2 none).imp fun _ good => good.1⟩
  refine ⟨sound.1, fun none => ?_, fun calm none => ?_⟩
  · obtain ⟨lists, good⟩ := sound.2 none
    exact good.queuesRight
  · have ordered : SoundOrder s := by
      refine calm.invariant ⟨(fun wrong => by cases wrong), fun _ => ⟨_, good_start⟩⟩
        fun s input s' sound allowed completed => ?_
      obtain ⟨lists, good, ordered⟩ := sound.2 (alive_of_step completed)
      have kept := step_keeps good completed
      exact ⟨kept.1, fun none => (kept.2 none).imp fun _ good => ⟨good.1, good.2 allowed ordered⟩⟩
    obtain ⟨lists, -, ordered⟩ := ordered.2 none
    exact ordered.inOrder

/-! ### Two neighbours -/

/-- The port 10.0.0.1 of a class A network. -/
def neighbourPort : EthPort := ⟨0x0100000a, 0xff, 0, fun _ => 0⟩

/-- Two packets for a neighbour whose address is not known yet, and the reply of ARP. -/
def resolvedSends : List EthInput :=
  [.send 0x0300000a (List.replicate 64 0) false 0 ⟨.suspend, false⟩ false,
    .send 0x0300000a (List.replicate 65 0) false 0 ⟨.suspend, false⟩ false,
    .arpReply 0x0300000a (some 3), .search, .search, .search, .more ⟨.suspend, false⟩ 1, .loop false,
    .loop false, .loop false]

/-- The packets leave in order. -/
theorem resolved_in_order : ∃ s, Run (ethStep neighbourPort) NotOvertaken {} resolvedSends s ∧
    s.handed = [(1, 3), (0, 3)] ∧ QueuesRight s ∧ InOrder s := by
  have completed : (execute (ethStep neighbourPort) (fun _ _ => True) resolvedSends {}).map
      (fun s => (s.handed, s.failed)) = some ([(1, 3), (0, 3)], none) := by decide +kernel
  obtain ⟨s, executed, result⟩ := Option.map_eq_some_iff.mp completed
  obtain ⟨handed, failed⟩ := Prod.mk.inj result
  have run := Run.of_execute executed
  have calm : Run (ethStep neighbourPort) NotOvertaken {} resolvedSends s := by
    refine run.weaken fun state input member _ => ?_
    unfold resolvedSends at member
    simp only [List.mem_cons, List.not_mem_nil, or_false] at member
    obtain rfl | rfl | rfl | rfl | rfl | rfl | rfl | rfl | rfl | rfl := member
    · exact fun ⟨addr, wrong⟩ => by cases wrong
    · exact fun ⟨addr, wrong⟩ => by cases wrong
    all_goals trivial
  have right := queues_right neighbourPort resolvedSends s run
  exact ⟨s, calm, handed, right.2.1 failed, right.2.2 calm failed⟩

/-- A packet for a second neighbour waits behind one for a first, and ARP learns the address of the
second in the meantime. -/
def overtakingSends : List EthInput :=
  [.send 0x0300000a (List.replicate 64 0) false 0 ⟨.suspend, false⟩ false,
    .send 0x0200000a (List.replicate 64 0) false 0 ⟨.suspend, false⟩ false,
    .send 0x0200000a (List.replicate 64 0) false 0 ⟨.ok 2, false⟩ false,
    .arpReply 0x0300000a (some 3), .search, .search, .search, .more ⟨.ok 2, false⟩ 1,
    .more ⟨.suspend, false⟩ 1, .loop false, .loop false, .loop false]

/-- The next hop of a packet that was accepted as it is. -/
def wholeHop (s : IpEth) (id : Nat) : Option (Option UInt32) :=
  match s.packs id with
  | some ⟨_, _, hop, true⟩ => some hop
  | _ => none

theorem whole_of_wholeHop {s : IpEth} {id : Nat} {hop : Option UInt32}
    (found : wholeHop s id = some hop) : Whole s hop id := by
  unfold wholeHop at found
  split at found
  case h_1 at' => exact ⟨_, at', some.inj found, rfl⟩
  case h_2 => cases found

/-- The packet that was accepted last overtakes the one before it. -/
theorem packet_overtaken : ∃ s, Run (ethStep neighbourPort) (fun _ _ => True) {} overtakingSends s ∧
    s.failed = none ∧ s.handed = [(1, 2), (0, 3), (2, 2)] ∧ ¬InOrder s := by
  have completed : (execute (ethStep neighbourPort) (fun _ _ => True) overtakingSends {}).map
      (fun s => (s.handed, s.failed)) = some ([(1, 2), (0, 3), (2, 2)], none) := by decide +kernel
  have hops : (execute (ethStep neighbourPort) (fun _ _ => True) overtakingSends {}).map
      (fun s => (wholeHop s 1, wholeHop s 2)) =
        some (some (some 0x0200000a), some (some 0x0200000a)) := by decide +kernel
  obtain ⟨s, executed, result⟩ := Option.map_eq_some_iff.mp completed
  obtain ⟨handed, failed⟩ := Prod.mk.inj result
  rw [executed, Option.map_some] at hops
  obtain ⟨one, two⟩ := Prod.mk.inj (some.inj hops)
  refine ⟨s, .of_execute executed, failed, handed, fun ordered => ?_⟩
  unfold InOrder at ordered
  rw [handed] at ordered
  have before := List.rel_of_pairwise_cons ordered (show 2 ∈ [0, 2] by decide)
  exact absurd (before _ (whole_of_wholeHop two) (whole_of_wholeHop one)) (by decide)

end Minix.Inet
