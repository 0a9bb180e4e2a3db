/-
This file proves when `udp_ip_arrived` gives a datagram to the channels that it is for, in every
state that the table of channels reaches.

The loop runs over two chains, and these hold the channels with complete options; so what is said of
the loop on lists is said of all channels.
-/

import Minix.Inet.UdpChains
import Minix.Library.Dispatch

namespace Minix.Inet

open Minix.Library (dispatch Fair)

variable {n : Nat}

/-! ### Who is to get a datagram -/

/-- The options of a channel let it have the datagram. There are two groups: the channels with any
local port, and those with the one of the datagram. -/
structure Matches (s : UdpTable n) (nr : Nat) (ipaddr : UInt32) (hdr : UdpIoHdr) (bound : Bool)
    (fd : Fin n) : Prop where
  optset : (s.fd fd).optset = true
  port : (s.fd fd).port = nr
  locport : if bound then (s.fd fd).udpopt.flags &&& nwuoLocportMask ≠ nwuoLpAny ∧
      (s.fd fd).udpopt.locport = hdr.dstPort
    else (s.fd fd).udpopt.flags &&& nwuoLocportMask = nwuoLpAny
  dst : (s.fd fd).udpopt.flags &&&
    (if hdr.dstAddr = ipaddr then nwuoLocaddrMask else nwuoBroadMask) ≠ 0
  remport : (s.fd fd).udpopt.flags &&& nwuoRemportMask ≠ 0 →
    (s.fd fd).udpopt.remport = hdr.srcPort
  remaddr : (s.fd fd).udpopt.flags &&& nwuoRemaddrMask ≠ 0 →
    (s.fd fd).udpopt.remaddr = hdr.srcAddr

/-- `NWUO_SHARED` -/
def UdpTable.shares (s : UdpTable n) (fd : Fin n) : Bool :=
  (s.fd fd).udpopt.flags &&& nwuoAccMask = 2

/-- Each channel that does not share gets one copy if it matches, and no channel gets one that does
not match. In each group, if some matching channel shares, one of these gets one copy and the others
none; nothing waits for that one if there is such a channel. -/
structure DeliversRight (s : UdpTable n) (nr : Nat) (ipaddr : UInt32) (hdr : UdpIoHdr)
    (got : List Nat) : Prop where
  alone : ∀ bound fd, Matches s nr ipaddr hdr bound fd → s.shares fd = false →
    got.count ↑fd = 1
  others : ∀ fd : Fin n, (∀ bound, ¬Matches s nr ipaddr hdr bound fd) → got.count ↑fd = 0
  shared : ∀ bound, (∃ fd, Matches s nr ipaddr hdr bound fd ∧ s.shares fd = true) →
    ∃ fd, Matches s nr ipaddr hdr bound fd ∧ s.shares fd = true ∧ got.count ↑fd = 1 ∧
      (∀ other, Matches s nr ipaddr hdr bound other → s.shares other = true → other ≠ fd →
        got.count ↑other = 0) ∧
      ((∃ other, Matches s nr ipaddr hdr bound other ∧ s.shares other = true ∧
        (s.fd other).waiting = false) → (s.fd fd).waiting = false)

/-- The chain of a group. -/
def groupChain (nr : Nat) (hdr : UdpIoHdr) (bound : Bool) : UdpChain :=
  (nr, if bound then some (udpHash hdr.dstPort) else none)

/-- The tests of the loop. -/
def UdpTable.wants (s : UdpTable n) (nr : Nat) (ipaddr : UInt32) (hdr : UdpIoHdr) (bound : Bool)
    (fd : Fin n) : Bool :=
  (s.udpFd fd).wants (s.udpPort nr ipaddr) bound hdr

/-- In each chain, nothing waits for the matching channels that share, but for the first. -/
def SharedIdle (s : UdpTable n) (nr : Nat) (ipaddr : UInt32) (hdr : UdpIoHdr) : Prop :=
  ∀ bound, ∀ fd ∈ ((s.members (groupChain nr hdr bound)).filter fun fd =>
    s.wants nr ipaddr hdr bound fd && s.shares fd).tail, (s.fd fd).waiting = false

/-! ### The loop over the channels -/

section Loop

variable {wants : UdpFd → Bool} {fds : List UdpFd} {shareFd : Option UdpFd} {s : UdpTable n}
  {lists : UdpChain → List (Fin n)} {nr packSize : Nat} {ipaddr : UInt32} {hdr : UdpIoHdr}
  {bound : Bool} {fd : Fin n} {noIpoptPack ipoptPack : UserPack} {unreachable : Option (List Acc)}
  {locals : UdpLocals} {buffers : Buffers}

theorem udpDeliver_eq : udpDeliver wants fds shareFd =
    dispatch wants (·.access = .shared) (·.waiting) fds shareFd := by
  induction fds generalizing shareFd with
  | nil => rfl
  | cons fd rest inductionHypothesis =>
    have same : (fd.access = .shared ∧ (shareFd.isNone ∨ fd.waiting = false)) ↔
        (decide (fd.access = .shared) && (shareFd.isNone || !fd.waiting)) = true := by
      simp
    rw [udpDeliver, dispatch, inductionHypothesis, inductionHypothesis]
    simp only [same]

/-- The channels of a group that get the datagram. -/
def delivered (s : UdpTable n) (nr : Nat) (ipaddr : UInt32) (hdr : UdpIoHdr) (bound : Bool) :
    List (Fin n) :=
  dispatch (s.wants nr ipaddr hdr bound) s.shares (fun fd => (s.fd fd).waiting)
    (s.members (groupChain nr hdr bound)) none

theorem udpDeliver_members : udpDeliver (·.wants (s.udpPort nr ipaddr) bound hdr)
    ((s.members (groupChain nr hdr bound)).map s.udpFd) none =
      (delivered s nr ipaddr hdr bound).map s.udpFd := by
  have shares (fd : Fin n) : decide ((s.udpFd fd).access = .shared) = s.shares fd := by
    unfold UdpTable.udpFd UdpTable.shares
    dsimp only
    split
    case isTrue two => simp [two]
    case isFalse other =>
      split <;> simp [other]
  have mapped := @Minix.Library.dispatch_map _ (·.wants (s.udpPort nr ipaddr) bound hdr)
    (fun fd : UdpFd => decide (fd.access = .shared)) UdpFd.waiting _ s.udpFd
    (s.members (groupChain nr hdr bound)) none
  rw [udpDeliver_eq]
  refine mapped.trans ?_
  simp only [shares]
  rfl

theorem wants_iff : s.wants nr ipaddr hdr bound fd = true ↔
    (bound = true → (s.fd fd).udpopt.locport = hdr.dstPort) ∧ (s.fd fd).port = nr ∧
      (s.fd fd).udpopt.flags &&&
        (if hdr.dstAddr = ipaddr then nwuoLocaddrMask else nwuoBroadMask) ≠ 0 ∧
      ((s.fd fd).udpopt.flags &&& nwuoRemportMask ≠ 0 →
        (s.fd fd).udpopt.remport = hdr.srcPort) ∧
      ((s.fd fd).udpopt.flags &&& nwuoRemaddrMask ≠ 0 →
        (s.fd fd).udpopt.remaddr = hdr.srcAddr) := by
  unfold UdpTable.wants UdpFd.wants UdpTable.udpFd UdpTable.udpPort
  simp only [Bool.and_eq_true, Bool.or_eq_true, Bool.not_eq_true', decide_eq_true_eq,
    decide_eq_false_iff_not]
  have dst : (if hdr.dstAddr = ipaddr then
      decide ((s.fd fd).udpopt.flags &&& nwuoLocaddrMask ≠ 0)
        else decide ((s.fd fd).udpopt.flags &&& nwuoBroadMask ≠ 0)) = true ↔
      (s.fd fd).udpopt.flags &&&
        (if hdr.dstAddr = ipaddr then nwuoLocaddrMask else nwuoBroadMask) ≠ 0 := by
    split <;> exact decide_eq_true_iff
  have hashed : bound = false ∨ (s.fd fd).udpopt.locport = hdr.dstPort ↔
      (bound = true → (s.fd fd).udpopt.locport = hdr.dstPort) := by
    rw [← Bool.not_eq_true, ← imp_iff_not_or]
  rw [dst, hashed, ← imp_iff_not_or, ← imp_iff_not_or, and_assoc, and_assoc, and_assoc]

section

variable (chained : Chained s lists)
include chained

/-- The channels that match are those on the chain of their group that pass the tests. -/
theorem matches_iff : Matches s nr ipaddr hdr bound fd ↔
    fd ∈ s.members (groupChain nr hdr bound) ∧ s.wants nr ipaddr hdr bound fd = true := by
  rw [chained.members_eq, chained.member, wants_iff]
  constructor
  · rintro ⟨optset, port, locport, dst, remport, remaddr⟩
    refine ⟨⟨optset, Prod.ext port ?_⟩, fun isBound => ?_, port, dst, remport, remaddr⟩
    · cases bound with
      | false => exact if_pos locport
      | true =>
        obtain ⟨bound, same⟩ : _ ∧ _ := locport
        change (if _ then _ else _) = _
        rw [if_neg bound, same]
        rfl
    · rw [isBound] at locport
      exact locport.2
  · rintro ⟨⟨optset, chain⟩, local', port, dst, remport, remaddr⟩
    refine ⟨optset, port, ?_, dst, remport, remaddr⟩
    have any := (Prod.mk.inj chain).2
    cases bound with
    | false =>
      change (s.fd fd).udpopt.flags &&& nwuoLocportMask = nwuoLpAny
      by_contra other
      rw [if_neg other] at any
      cases any
    | true =>
      refine ⟨fun same => ?_, local' rfl⟩
      rw [if_pos same] at any
      cases any

theorem Matches.unique {bound bound' : Bool} (member : fd ∈ s.members (groupChain nr hdr bound))
    (member' : fd ∈ s.members (groupChain nr hdr bound')) : bound = bound' := by
  rw [chained.members_eq] at member member'
  have same := (Prod.mk.inj (chained.chains.apart _ _ fd member member')).2
  cases bound <;> cases bound' <;> first | rfl | cases same

theorem count_delivered (member : fd ∈ s.members (groupChain nr hdr bound)) :
    ((delivered s nr ipaddr hdr false ++ delivered s nr ipaddr hdr true).map Fin.val).count ↑fd =
      (delivered s nr ipaddr hdr bound).count fd := by
  have other (bound' : Bool) (distinct : bound ≠ bound') :
      (delivered s nr ipaddr hdr bound').count fd = 0 := by
    refine List.count_eq_zero.mpr fun gets => distinct ?_
    rcases Minix.Library.mem_dispatch gets with wrong | inside
    · cases wrong
    · exact Matches.unique chained member inside.1
  rw [List.count_map_of_injective _ _ Fin.val_injective, List.count_append]
  cases bound with
  | false => rw [other true (by decide), Nat.add_zero]
  | true => rw [other false (by decide), Nat.zero_add]

/-- The datagram goes where it should exactly if it is handed out fairly in both groups. -/
theorem deliversRight_iff :
    DeliversRight s nr ipaddr hdr
        ((delivered s nr ipaddr hdr false ++ delivered s nr ipaddr hdr true).map Fin.val) ↔
      ∀ bound, Fair (s.wants nr ipaddr hdr bound) s.shares (fun fd => (s.fd fd).waiting)
        (s.members (groupChain nr hdr bound)) (delivered s nr ipaddr hdr bound) := by
  constructor
  · intro right bound
    refine ⟨fun fd member wanted alone => ?_, fun fd other => ?_, ?_⟩
    · rw [← count_delivered chained member]
      exact right.alone bound fd ((matches_iff chained).mpr ⟨member, wanted⟩) alone
    · refine List.count_eq_zero.mpr fun gets => other ?_
      rcases Minix.Library.mem_dispatch gets with wrong | inside
      · cases wrong
      · exact inside
    · rintro ⟨fd, member, wanted, shares⟩
      obtain ⟨one, matched, shares', once, rest, free⟩ :=
        right.shared bound ⟨fd, (matches_iff chained).mpr ⟨member, wanted⟩, shares⟩
      have inside := (matches_iff chained).mp matched
      refine ⟨one, inside.1, inside.2, shares', ?_, fun other member' wanted' shared' apart => ?_,
        ?_⟩
      · rw [← count_delivered chained inside.1]
        exact once
      · rw [← count_delivered chained member']
        exact rest other ((matches_iff chained).mpr ⟨member', wanted'⟩) shared' apart
      · rintro ⟨other, member', wanted', both⟩
        exact free ⟨other, (matches_iff chained).mpr ⟨member', wanted'⟩, both⟩
  · intro fair
    refine ⟨fun bound fd matched alone => ?_, fun fd none => ?_, fun bound => ?_⟩
    · have inside := (matches_iff chained).mp matched
      rw [count_delivered chained inside.1]
      exact (fair bound).alone fd inside.1 inside.2 alone
    · refine List.count_eq_zero.mpr fun gets => ?_
      obtain ⟨fd', inside, same⟩ := List.mem_map.mp gets
      obtain rfl := Fin.val_injective same
      have out (bound : Bool) : fd' ∉ delivered s nr ipaddr hdr bound := by
        refine List.count_eq_zero.mp ((fair bound).others fd' fun inside => ?_)
        exact none bound ((matches_iff chained).mpr inside)
      exact (List.mem_append.mp inside).elim (out false) (out true)
    · rintro ⟨fd, matched, shares⟩
      have inside := (matches_iff chained).mp matched
      obtain ⟨one, member, wanted, shares', once, rest, free⟩ :=
        (fair bound).shared ⟨fd, inside.1, inside.2, shares⟩
      refine ⟨one, (matches_iff chained).mpr ⟨member, wanted⟩, shares', ?_,
        fun other matched' shared' apart => ?_, ?_⟩
      · rw [count_delivered chained member]
        exact once
      · have inside' := (matches_iff chained).mp matched'
        rw [count_delivered chained inside'.1]
        exact rest other inside'.1 inside'.2 shared' apart
      · rintro ⟨other, matched', both⟩
        have inside' := (matches_iff chained).mp matched'
        exact free ⟨other, inside'.1, inside'.2, both⟩

end

theorem exists_udpQueue {port : UdpPort} {pack : List Acc} {queued : List (Nat × UserPack)}
    (arrived : udpIpArrived buffers locals port pack packSize =
      some (.passed noIpoptPack ipoptPack queued unreachable)) :
    ∃ acc udpAcc, udpQueue buffers port acc udpAcc noIpoptPack ipoptPack =
      .passed noIpoptPack ipoptPack queued unreachable := by
  obtain ⟨⟨acc, ipHdr⟩, -, arrived⟩ := Option.bind_eq_some_iff.mp arrived
  obtain ⟨udpAcc, -, arrived⟩ := Option.bind_eq_some_iff.mp arrived
  dsimp only at arrived
  split at arrived
  · cases arrived
  unfold udpCheck at arrived
  split at arrived
  · cases arrived
  case h_2 udpHdr next =>
    split at arrived
    · cases arrived
    split at arrived
    · cases arrived
    split at arrived
    · cases arrived
    obtain ⟨wrong, -, arrived⟩ := Option.bind_eq_some_iff.mp arrived
    split at arrived
    · cases arrived
    obtain ⟨data, -, arrived⟩ := Option.bind_eq_some_iff.mp arrived
    obtain ⟨ipopt, -, queuing⟩ := Option.map_eq_some_iff.mp arrived
    have same := queuing
    obtain ⟨rfl, rfl, -, -⟩ := UdpArrival.passed.inj same
    exact ⟨acc, _, queuing⟩

theorem queued_eq {pack : List Acc} {queued : List (Nat × UserPack)}
    (arrived : udpIpArrived buffers locals (s.udpPort nr ipaddr) pack packSize =
      some (.passed noIpoptPack ipoptPack queued unreachable)) :
    queued.map Prod.fst = (delivered s nr ipaddr noIpoptPack.hdr false ++
      delivered s nr ipaddr noIpoptPack.hdr true).map Fin.val := by
  obtain ⟨acc, udpAcc, same⟩ := exists_udpQueue arrived
  obtain ⟨-, -, rfl, -⟩ := UdpArrival.passed.inj same
  have any := @udpDeliver_members n s nr ipaddr noIpoptPack.hdr false
  have bound := @udpDeliver_members n s nr ipaddr noIpoptPack.hdr true
  change udpDeliver _ (s.udpPort nr ipaddr).portAny none = _ at any
  change udpDeliver _ ((s.udpPort nr ipaddr).portHash (udpHash noIpoptPack.hdr.dstPort)) none = _
    at bound
  rw [any, bound, ← List.map_append, List.map_map, List.map_map]
  rfl

/-- In a state with right chains, a datagram goes where it should exactly if nothing waits for those
who share, but for the first. -/
theorem delivery_iff (chained : Chained s lists) {pack : List Acc} {queued : List (Nat × UserPack)}
    (arrived : udpIpArrived buffers locals (s.udpPort nr ipaddr) pack packSize =
      some (.passed noIpoptPack ipoptPack queued unreachable)) :
    DeliversRight s nr ipaddr noIpoptPack.hdr (queued.map Prod.fst) ↔
      SharedIdle s nr ipaddr noIpoptPack.hdr := by
  rw [queued_eq arrived, deliversRight_iff chained]
  refine forall_congr' fun bound => Minix.Library.fair_dispatch_iff ?_
  rw [chained.members_eq]
  exact (chained.chains.chain _).nodup

end Loop

/-! ### Runs -/

/-- In every state that operations on channels lead to, the chains hold the channels with complete
options, and a datagram goes where it should exactly if nothing waits for the matching channels that
share, but for the first of each chain. -/
theorem udp_delivery_iff (labels : List (UdpStep n)) (s : UdpTable n)
    (run : Transition.Run UdpTable.step (fun _ _ => True) {} labels s) :
    ChainsRight s ∧
      ∀ (buffers : Buffers) (locals : UdpLocals) (nr : Nat) (ipaddr : UInt32) (pack : List Acc)
        (packSize : Nat) (noIpoptPack ipoptPack : UserPack) (queued : List (Nat × UserPack))
        (unreachable : Option (List Acc)),
        udpIpArrived buffers locals (s.udpPort nr ipaddr) pack packSize =
            some (.passed noIpoptPack ipoptPack queued unreachable) →
          (DeliversRight s nr ipaddr noIpoptPack.hdr (queued.map Prod.fst) ↔
            SharedIdle s nr ipaddr noIpoptPack.hdr) := by
  obtain ⟨lists, chained⟩ := exists_chained run
  exact ⟨chained.right, fun _ _ _ _ _ _ _ _ _ _ arrived => delivery_iff chained arrived⟩

/-- Two channels share port 53, and something waits for the first one. -/
def sharedSteps : List (UdpStep 2) :=
  [.open 0, .open 0,
    .setopt ⟨0, Nat.zero_lt_two⟩ (some { flags := 0x3320001a, locport := 0x3500 }),
    .setopt ⟨1, Nat.one_lt_two⟩ (some { flags := 0x3320001a, locport := 0x3500 }),
    .queues fun fd => fd.val == 0]

theorem executed_sharedSteps :
    (Transition.execute UdpTable.step (fun _ _ => True) sharedSteps {}).isSome = true := by
  decide

/-- The table with the two channels. -/
def sharedTable : UdpTable 2 :=
  (Transition.execute UdpTable.step (fun _ _ => True) sharedSteps {}).get executed_sharedSteps

theorem run_sharedTable :
    Transition.Run UdpTable.step (fun _ _ => True) {} sharedSteps sharedTable :=
  Transition.Run.of_execute (Option.some_get executed_sharedSteps).symm

deriving instance DecidableEq for UdpArrival

/-- What is told of the datagram. -/
def sharedPack : UserPack := ⟨⟨0x0100000a, 0x0200000a, 4, 0x3500, 0, 0⟩, [], []⟩

theorem arrived_sharedPack :
    udpIpArrived buffers512 ⟨0, 0, 0, 0⟩ (sharedTable.udpPort 0 0x0200000a) [emptyDatagram 8] 28 =
      some (.passed sharedPack sharedPack [(0, sharedPack), (1, sharedPack)] none) := by
  decide

/-- Both channels get the datagram: the second one is remembered, and the first one is busy. -/
theorem both_sharers_get :
    ¬∀ (labels : List (UdpStep 2)) (s : UdpTable 2),
      Transition.Run UdpTable.step (fun _ _ => True) {} labels s →
        ChainsRight s ∧
          ∀ (buffers : Buffers) (locals : UdpLocals) (nr : Nat) (ipaddr : UInt32) (pack : List Acc)
            (packSize : Nat) (noIpoptPack ipoptPack : UserPack) (queued : List (Nat × UserPack))
            (unreachable : Option (List Acc)),
            udpIpArrived buffers locals (s.udpPort nr ipaddr) pack packSize =
                some (.passed noIpoptPack ipoptPack queued unreachable) →
              DeliversRight s nr ipaddr noIpoptPack.hdr (queued.map Prod.fst) := by
  intro right
  have delivers := (right sharedSteps sharedTable run_sharedTable).2 buffers512 ⟨0, 0, 0, 0⟩ 0
    0x0200000a [emptyDatagram 8] 28 sharedPack sharedPack _ none arrived_sharedPack
  obtain ⟨lists, chained⟩ := exists_chained run_sharedTable
  have idle := (delivery_iff chained arrived_sharedPack).mp delivers true 0 (by decide)
  exact absurd idle (by decide)

/-- The delivery with two channels that share. -/
theorem udp_delivery_shared :
    ChainsRight sharedTable ∧
      (DeliversRight sharedTable 0 0x0200000a sharedPack.hdr [0, 1] ↔
        SharedIdle sharedTable 0 0x0200000a sharedPack.hdr) :=
  (udp_delivery_iff sharedSteps sharedTable run_sharedTable).imp_right fun delivery =>
    delivery buffers512 ⟨0, 0, 0, 0⟩ 0 0x0200000a [emptyDatagram 8] 28 sharedPack sharedPack
      [(0, sharedPack), (1, sharedPack)] none arrived_sharedPack

end Minix.Inet
