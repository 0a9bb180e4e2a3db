/-
This file proves what the queues of IP over Ethernet keep: where each packet is, that the pointers
are right, that nothing waits for Ethernet while no frame is being written, and which Ethernet
address a packet is sent to.

What a function does with a packet is told apart into the moves of that packet: it is taken off a
queue into the hand of the function, and from there it goes to the end of a queue, to Ethernet, or
away.
-/

import Minix.Inet.IpEth
import Minix.Library.Chains

namespace Minix.Inet

open Function (update update_of_ne update_self)
open LinkedList (Chains)

/-! ### The right address -/

/-- The Ethernet address is one that ARP has told for the next hop, or the one of everybody. -/
def RightAddress (told : List (UInt32 × EtherAddr)) : Option UInt32 → EtherAddr → Prop
  | none, dst => dst = BitVec.allOnes 48
  | some hop, dst => (hop, dst) ∈ told

/-- Every packet that Ethernet has taken went to an address of its next hop. -/
def SentRight (s : IpEth) (sent : Nat × EtherAddr) : Prop :=
  ∃ pack, s.packs sent.1 = some pack ∧ RightAddress s.told pack.hop sent.2

/-- The queues hold the given packets, and their pointers are right. -/
structure Queued (s : IpEth) (lists : EthQueue → List Nat) : Prop where
  chains : Chains s.extLink s.head lists
  tails : ∀ queue, ∀ last ∈ (lists queue).getLast?, s.tail queue = last

/-- Where the packets are: on the two queues, in the frame, with Ethernet, or gone. -/
def places (s : IpEth) (lists : EthQueue → List Nat) : List Nat :=
  lists .arp ++ (lists .xmit ++ (s.frame.toList ++ (s.handed.map Prod.fst ++ s.dropped)))

/-- Every packet is in one place, the pointers are right, the transmit queue is empty between two
events while no frame is being written, and what was sent went to the right address. -/
structure QueuesRight (s : IpEth) : Prop where
  placed : ∃ lists, Queued s lists ∧ (places s lists).Perm (List.range s.fresh)
  empty : s.control = .idle → s.frame = none → s.head .xmit = none
  sent : ∀ sent ∈ s.handed, SentRight s sent

/-! ### Invariants -/

/-- What a packet on a queue looks like: on the ARP queue it names its next hop, on the transmit
queue it has a right Ethernet address. -/
def Belongs (s : IpEth) (id : Nat) : EthQueue → Prop
  | .arp => ∃ xhTime hop ip whole, s.packs id = some ⟨.xmit xhTime hop, ip, some hop, whole⟩
  | .xmit => ∃ dst enqTime ip hop whole,
      s.packs id = some ⟨.eth dst (some enqTime), ip, hop, whole⟩ ∧ RightAddress s.told hop dst

/-- The frame of a packet that is being written. -/
def Written (s : IpEth) (id : Nat) (count : Nat) : Prop :=
  ∃ dst enqTime ip hop whole, s.packs id = some ⟨.eth dst enqTime, ip, hop, whole⟩ ∧
    RightAddress s.told hop dst ∧ count ≤ ethHdrSize + ip.length

/-- A frame is being written, or none is. -/
def Writing (s : IpEth) : Prop :=
  (s.frame = none ∧ s.writeSp = false ∧ s.writeIp = none) ∨
    ∃ id count, s.frame = some id ∧ s.writeSp = true ∧ s.writeIp = some count ∧ Written s id count

/-- The packets are where they belong, or in the hand of a function. -/
structure Held (s : IpEth) (lists : EthQueue → List Nat) (hand : List Nat) : Prop
    extends Queued s lists where
  placed : (hand ++ places s lists).Perm (List.range s.fresh)
  belong : ∀ queue, ∀ id ∈ lists queue, Belongs s id queue
  writing : Writing s
  sent : ∀ sent ∈ s.handed, SentRight s sent

section Moves

variable {s s' : IpEth} {lists : EthQueue → List Nat} {hand rest : List Nat} {id count : Nat}
  {queue : EthQueue} {pack : EthPack} {dst : EtherAddr} {hop : Option UInt32}

theorem RightAddress.mono {told told' : List (UInt32 × EtherAddr)}
    (right : RightAddress told hop dst) (more : ∀ entry ∈ told, entry ∈ told') :
    RightAddress told' hop dst := by
  cases hop with
  | none => exact right
  | some hop => exact more _ right

theorem Belongs.congr (belongs : Belongs s id queue) (packs : s'.packs id = s.packs id)
    (told : ∀ entry ∈ s.told, entry ∈ s'.told) : Belongs s' id queue := by
  cases queue with
  | arp =>
    unfold Belongs
    rw [packs]
    exact belongs
  | xmit =>
    obtain ⟨dst, enqTime, ip, hop, whole, found, right⟩ := belongs
    exact ⟨dst, enqTime, ip, hop, whole, packs.trans found, right.mono told⟩

theorem Written.congr (written : Written s id count) (packs : s'.packs id = s.packs id)
    (told : ∀ entry ∈ s.told, entry ∈ s'.told) : Written s' id count := by
  obtain ⟨dst, enqTime, ip, hop, whole, found, right, less⟩ := written
  exact ⟨dst, enqTime, ip, hop, whole, packs.trans found, right.mono told, less⟩

theorem SentRight.congr {sent : Nat × EtherAddr} (right : SentRight s sent)
    (packs : s'.packs sent.1 = s.packs sent.1) (told : ∀ entry ∈ s.told, entry ∈ s'.told) :
    SentRight s' sent := by
  obtain ⟨pack, found, address⟩ := right
  exact ⟨pack, packs.trans found, address.mono told⟩

theorem Held.notMem (held : Held s lists (id :: hand)) :
    (∀ queue, id ∉ lists queue) ∧ id ∉ s.frame.toList ∧ id ∉ s.handed.map Prod.fst ∧
      id ∉ hand ∧ id < s.fresh := by
  have distinct := held.placed.nodup_iff.mpr List.nodup_range
  have inside : id < s.fresh :=
    List.mem_range.mp (held.placed.mem_iff.mp (List.mem_append_left _ List.mem_cons_self))
  rw [List.cons_append, List.nodup_cons] at distinct
  have apart := distinct.1
  unfold places at apart
  simp only [List.mem_append, not_or] at apart
  refine ⟨fun queue => ?_, apart.2.2.2.1, apart.2.2.2.2.1, apart.1, inside⟩
  cases queue
  · exact apart.2.1
  · exact apart.2.2.1

theorem Held.belongings (held : Held s lists hand) (packs : s'.packs = s.packs)
    (told : ∀ entry ∈ s.told, entry ∈ s'.told) :
    (∀ queue, ∀ id ∈ lists queue, Belongs s' id queue) ∧
      ∀ sent ∈ s.handed, SentRight s' sent :=
  ⟨fun queue id member => (held.belong queue id member).congr (congrFun packs id) told,
    fun sent member => (held.sent sent member).congr (congrFun packs _) told⟩

theorem Writing.congr (writing : Writing s) (frame : s'.frame = s.frame)
    (writeSp : s'.writeSp = s.writeSp) (writeIp : s'.writeIp = s.writeIp)
    (packs : ∀ id ∈ s.frame, s'.packs id = s.packs id)
    (told : ∀ entry ∈ s.told, entry ∈ s'.told) : Writing s' := by
  unfold Writing
  rw [frame, writeSp, writeIp]
  refine writing.imp_right ?_
  rintro ⟨id, count, on, sp, counted, written⟩
  exact ⟨id, count, on, sp, counted, written.congr (packs id on) told⟩

theorem Held.setPack (held : Held s lists (id :: hand)) (pack : EthPack) :
    Held (s.setPack id pack) lists (id :: hand) := by
  obtain ⟨absent, frame, handed, -⟩ := held.notMem
  have others {other : Nat} (apart : other ≠ id) : (s.setPack id pack).packs other = s.packs other :=
    update_of_ne apart _ _
  refine ⟨⟨held.chains, held.tails⟩, held.placed, fun queue other member => ?_, ?_,
    fun sent member => ?_⟩
  · exact (held.belong queue other member).congr (others fun same => absent queue (same ▸ member))
      fun _ told => told
  · refine held.writing.congr rfl rfl rfl (fun other on => others fun same => frame ?_) fun _ told => told
    rw [on, same]
    exact List.mem_singleton_self id
  · refine (held.sent sent member).congr (others fun same => handed ?_) fun _ told => told
    exact List.mem_map.mpr ⟨sent, member, same⟩

theorem Held.congr (held : Held s lists hand) (queues : Queued s' lists) (packs : s'.packs = s.packs)
    (frame : s'.frame = s.frame) (handed : s'.handed = s.handed) (dropped : s'.dropped = s.dropped)
    (fresh : s'.fresh = s.fresh) (told : ∀ entry ∈ s.told, entry ∈ s'.told)
    (writeSp : s'.writeSp = s.writeSp) (writeIp : s'.writeIp = s.writeIp) : Held s' lists hand where
  toQueued := queues
  placed := by
    unfold places
    rw [frame, handed, dropped, fresh]
    exact held.placed
  belong := (held.belongings packs told).1
  writing := held.writing.congr frame writeSp writeIp (fun id _ => congrFun packs id) told
  sent := by
    rw [handed]
    exact (held.belongings packs told).2

theorem Held.new (held : Held s lists hand) :
    Held { s with fresh := s.fresh + 1 } lists (s.fresh :: hand) := by
  refine ⟨⟨held.chains, held.tails⟩, ?_, held.belong, held.writing, held.sent⟩
  rw [List.range_succ]
  exact (held.placed.cons s.fresh).trans (List.perm_append_singleton _ _).symm

theorem Held.drop (held : Held s lists (id :: hand)) : Held (s.drop id) lists hand := by
  refine ⟨⟨held.chains, held.tails⟩, ?_, held.belong, held.writing, held.sent⟩
  refine List.Perm.trans (List.perm_iff_count.mpr fun other => ?_) held.placed
  change List.count other (hand ++ (lists .arp ++ (lists .xmit ++ (s.frame.toList ++
    (s.handed.map Prod.fst ++ id :: s.dropped))))) = List.count other (id :: hand ++ places s lists)
  unfold places
  simp only [List.count_append, List.count_cons]
  omega

theorem Held.dequeue (held : Held s lists hand) (here : lists queue = id :: rest) :
    Held (dequeue queue id s) (update lists queue rest) (id :: hand) := by
  have fewer {other : EthQueue} {node : Nat} (member : node ∈ update lists queue rest other) :
      node ∈ lists other := by
    by_cases same : other = queue
    · subst same
      rw [update_self] at member
      rw [here]
      exact List.mem_cons_of_mem _ member
    · rwa [update_of_ne same] at member
  refine ⟨⟨held.chains.pop here, fun other last member => ?_⟩, ?_,
    fun other node member => held.belong other node (fewer member), held.writing, held.sent⟩
  · by_cases same : other = queue
    · subst same
      rw [update_self] at member
      refine held.tails other last ?_
      rw [here]
      cases rest with
      | nil => cases member
      | cons next more => exact member
    · rw [update_of_ne same] at member
      exact held.tails other last member
  · refine List.Perm.trans (List.perm_iff_count.mpr fun other => ?_) held.placed
    unfold places
    cases queue
    · change List.count other (id :: hand ++ (rest ++ (lists .xmit ++
        (s.frame.toList ++ (s.handed.map Prod.fst ++ s.dropped))))) = _
      rw [here]
      simp only [List.count_append, List.count_cons]
      omega
    · change List.count other (id :: hand ++ (lists .arp ++ (rest ++
        (s.frame.toList ++ (s.handed.map Prod.fst ++ s.dropped))))) = _
      rw [here]
      simp only [List.count_append, List.count_cons]
      omega

theorem enqueue_keeps : (enqueue queue id s).packs = s.packs ∧
    (enqueue queue id s).frame = s.frame ∧ (enqueue queue id s).handed = s.handed ∧
    (enqueue queue id s).dropped = s.dropped ∧ (enqueue queue id s).fresh = s.fresh ∧
    (enqueue queue id s).told = s.told ∧ (enqueue queue id s).writeSp = s.writeSp ∧
    (enqueue queue id s).writeIp = s.writeIp ∧ (enqueue queue id s).control = s.control ∧
    (enqueue queue id s).failed = s.failed := by
  unfold enqueue
  split <;> exact ⟨rfl, rfl, rfl, rfl, rfl, rfl, rfl, rfl, rfl, rfl⟩

theorem Held.enqueue_queued (held : Held s lists (id :: hand)) (queue : EthQueue) :
    Queued (enqueue queue id s) (update lists queue (lists queue ++ [id])) := by
  obtain ⟨absent, -⟩ := held.notMem
  have cleared : Chains (update s.extLink id none) s.head lists :=
    held.chains.congr fun queue node member =>
      update_of_ne (fun same => absent queue (by rwa [← same])) _ _
  have ends : update s.extLink id none id = none := update_self ..
  have head := (held.chains.chain queue).head_eq
  constructor
  case tails =>
    intro other last member
    have tail : (enqueue queue id s).tail = update s.tail queue id := by
      unfold enqueue
      split <;> rfl
    rw [tail]
    by_cases same : other = queue
    · subst same
      rw [update_self] at member ⊢
      rw [List.getLast?_concat] at member
      exact Option.some.inj member
    · rw [update_of_ne same] at member ⊢
      exact held.tails other last member
  case chains =>
    unfold enqueue
    split
    case h_1 none =>
      rw [none] at head
      rw [List.head?_eq_none_iff.mp head.symm]
      exact cleared.single absent ends
    case h_2 first some =>
      rw [some] at head
      have last : (lists queue).getLast? = .some (s.tail queue) := by
        cases found : (lists queue).getLast? with
        | none =>
          rw [List.getLast?_eq_none_iff.mp found] at head
          cases head
        | some last => rw [held.tails queue last found]
      exact cleared.append last absent ends

theorem Held.enqueue (held : Held s lists (id :: hand)) (belongs : Belongs s id queue) :
    Held (enqueue queue id s) (update lists queue (lists queue ++ [id])) hand := by
  have queued := held.enqueue_queued queue
  obtain ⟨packs, frame, handed, dropped, fresh, told, writeSp, writeIp, -⟩ :=
    @enqueue_keeps s id queue
  have more : ∀ entry ∈ s.told, entry ∈ (Minix.Inet.enqueue queue id s).told := by
    rw [told]
    exact fun _ member => member
  refine ⟨queued, ?_, fun other node member => ?_,
    held.writing.congr frame writeSp writeIp (fun id _ => congrFun packs id) more, ?_⟩
  · rw [fresh]
    refine List.Perm.trans (List.perm_iff_count.mpr fun other => ?_) held.placed
    unfold places
    rw [frame, handed, dropped]
    cases queue
    · change List.count other (hand ++ ((lists .arp ++ [id]) ++ (lists .xmit ++
        (s.frame.toList ++ (s.handed.map Prod.fst ++ s.dropped))))) = _
      simp only [List.count_append, List.count_cons, List.count_nil]
      omega
    · change List.count other (hand ++ (lists .arp ++ ((lists .xmit ++ [id]) ++
        (s.frame.toList ++ (s.handed.map Prod.fst ++ s.dropped))))) = _
      simp only [List.count_append, List.count_cons, List.count_nil]
      omega
  · by_cases same : other = queue
    · subst same
      rw [update_self] at member
      obtain before | here := List.mem_append.mp member
      · exact (held.belong other node before).congr (congrFun packs node) more
      · rw [List.mem_singleton.mp here]
        exact belongs.congr (congrFun packs id) more
    · rw [update_of_ne same] at member
      exact (held.belong other node member).congr (congrFun packs node) more
  · rw [handed]
    exact (held.belongings packs more).2

/-- What `transmit` does while no frame is being written: the frame is taken, or has to wait, or it
is not legal. -/
theorem transmit_eq {offer : Offer} {busy : Bool} {now : Nat} (free : s.writeSp = false) :
    transmit id dst offer busy now s =
      if illegalSize offer.count then { s with offers := offer :: s.offers }.fail .result
      else if s.busy then
        { s with
          offers := offer :: offer :: s.offers
          frame := some id
          writeIp := some offer.count
          writeSp := true
          control := .idle }
      else { s with offers := offer :: s.offers, busy := busy, handed := (id, dst) :: s.handed } := by
  unfold transmit ethSend startWrite ethWrite
  cases illegalSize offer.count with
  | true => rfl
  | false =>
    cases s.busy with
    | false => rfl
    | true =>
      change (if s.writeSp then _ else _) = _
      rw [free]
      rfl

/-- The packets that have left, and the one that is being written. -/
def leaves (s : IpEth) : List Nat := (s.handed.map Prod.fst).reverse ++ s.frame.toList

theorem leaves_congr (handed : s'.handed = s.handed) (frame : s'.frame = s.frame) :
    leaves s' = leaves s := by
  unfold leaves
  rw [handed, frame]

theorem notFailed (alive : s.failed = none) (failure : EthFailure) : s.failed ≠ some failure :=
  alive.trans_ne (Option.some_ne_none failure).symm

/-- What becomes of a packet in the hand while no frame is being written: it is sent, or it becomes
the frame, and the function returns. -/
structure Leaves (s s' : IpEth) (lists : EthQueue → List Nat) (id : Nat) : Prop where
  held : Held s' lists []
  left : leaves s' = leaves s ++ [id]
  packs : s'.packs = s.packs
  fresh : s'.fresh = s.fresh
  failed : s'.failed = s.failed
  control : s'.frame = none ∧ s'.control = s.control ∨ s'.frame = some id ∧ s'.control = .idle

theorem Held.transmit (held : Held s lists [id]) (offer : Offer) (busy : Bool) (now : Nat)
    (free : s.frame = none) {enqTime : Option Nat} {ip : List UInt8} {whole : Bool}
    (found : s.packs id = some ⟨.eth dst enqTime, ip, hop, whole⟩)
    (right : RightAddress s.told hop dst) (less : offer.count ≤ ethHdrSize + ip.length) :
    (transmit id dst offer busy now s).failed = some .result ∨
      Leaves s (transmit id dst offer busy now s) lists id := by
  have quiet : s.writeSp = false ∧ s.writeIp = none := by
    obtain ⟨-, quiet⟩ | ⟨other, count, on, -⟩ := held.writing
    · exact quiet
    · rw [free] at on
      cases on
  rw [transmit_eq quiet.1]
  split
  · exact .inl rfl
  split
  · refine .inr ⟨⟨⟨held.chains, held.tails⟩, ?_, held.belong, ?_, held.sent⟩, ?_, rfl, rfl, rfl,
      .inr ⟨rfl, rfl⟩⟩
    · refine List.Perm.trans (List.perm_iff_count.mpr fun other => ?_) held.placed
      change List.count other ([] ++ (lists .arp ++ (lists .xmit ++ ([id] ++
        (s.handed.map Prod.fst ++ s.dropped))))) = List.count other ([id] ++ places s lists)
      unfold places
      rw [free]
      simp only [List.count_append, List.count_nil, Option.toList_none]
      omega
    · exact .inr ⟨id, offer.count, rfl, rfl, rfl, dst, enqTime, ip, hop, whole, found, right, less⟩
    · unfold leaves
      rw [free]
      simp
  · refine .inr ⟨⟨⟨held.chains, held.tails⟩, ?_, held.belong,
      .inl ⟨free, quiet⟩, ?_⟩, ?_, rfl, rfl, rfl, .inl ⟨free, rfl⟩⟩
    · refine List.Perm.trans (List.perm_iff_count.mpr fun other => ?_) held.placed
      change List.count other ([] ++ (lists .arp ++ (lists .xmit ++ (s.frame.toList ++
        (id :: s.handed.map Prod.fst ++ s.dropped))))) = List.count other ([id] ++ places s lists)
      unfold places
      simp only [List.count_append, List.count_cons, List.count_nil]
      omega
    · refine List.forall_mem_cons.mpr ⟨⟨_, found, right⟩, held.sent⟩
    · unfold leaves
      rw [free]
      simp

end Moves

/-! ### Order -/

/-- A packet for the next hop that was accepted as it is. -/
def Whole (s : IpEth) (hop : Option UInt32) (id : Nat) : Prop :=
  ∃ pack, s.packs id = some pack ∧ pack.hop = hop ∧ pack.whole = true

/-- Of two packets that need no fragmentation to the same next hop, the first was accepted first. -/
def Before (s : IpEth) (id id' : Nat) : Prop := ∀ hop, Whole s hop id → Whole s hop id' → id < id'

/-- The packets that have left and those that wait, in the order in which they leave. -/
def line (s : IpEth) (lists : EthQueue → List Nat) : List Nat :=
  leaves s ++ (lists .xmit ++ lists .arp)

def Ordered (s : IpEth) (lists : EthQueue → List Nat) : Prop := (line s lists).Pairwise (Before s)

section Order

variable {s s' : IpEth} {lists lists' : EthQueue → List Nat} {id : Nat} {front back : List Nat}

theorem Before.kept {id' : Nat} (before : Before s id id')
    (kept : ∀ hop, Whole s' hop id → Whole s hop id)
    (kept' : ∀ hop, Whole s' hop id' → Whole s hop id') : Before s' id id' :=
  fun hop first second => before hop (kept hop first) (kept' hop second)

theorem Ordered.sublist (ordered : Ordered s lists)
    (sub : (line s' lists').Sublist (line s lists))
    (kept : ∀ id ∈ line s' lists', ∀ hop, Whole s' hop id → Whole s hop id) : Ordered s' lists' :=
  (List.Pairwise.sublist sub ordered).imp_of_mem fun first second before =>
    before.kept (kept _ first) (kept _ second)

theorem pairwise_insert {r r' : Nat → Nat → Prop} (pairs : (front ++ back).Pairwise r)
    (kept : ∀ a ∈ front ++ back, ∀ b ∈ front ++ back, r a b → r' a b)
    (first : ∀ other ∈ front, r' other id) (last : ∀ other ∈ back, r' id other) :
    (front ++ id :: back).Pairwise r' := by
  have both : (front ++ back).Pairwise r' :=
    pairs.imp_of_mem fun one two before => kept _ one _ two before
  obtain ⟨one, two, cross⟩ := List.pairwise_append.mp both
  refine List.pairwise_append.mpr ⟨one, List.pairwise_cons.mpr ⟨last, two⟩,
    fun other member other' member' => ?_⟩
  obtain rfl | behind := List.mem_cons.mp member'
  · exact first other member
  · exact cross other member other' behind

theorem Ordered.insert (ordered : Ordered s lists) (place : line s' lists' = front ++ id :: back)
    (sub : (front ++ back).Sublist (line s lists))
    (kept : ∀ id ∈ front ++ back, ∀ hop, Whole s' hop id → Whole s hop id)
    (first : ∀ other ∈ front, Before s' other id) (last : ∀ other ∈ back, Before s' id other) :
    Ordered s' lists' := by
  unfold Ordered
  rw [place]
  exact pairwise_insert (List.Pairwise.sublist sub ordered)
    (fun one member two member' before => before.kept (kept one member) (kept two member')) first last

end Order

end Minix.Inet
