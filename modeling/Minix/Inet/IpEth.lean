/-
This file models the sending side of IP over Ethernet (`inet/generic/ip_eth.c`), with
`ip_split_pack` (`inet/generic/ip_write.c`) and what `eth_send` and `eth_write`
(`inet/generic/eth.c`) make of their frames.

A packet is given by the bytes behind its Ethernet header. The two queues are linked by
`acc_ext_link`. The loops are taken round by round, so that what happens between two events is a
sequence of steps; the answers of ARP, the clock and the state of the device are inputs.
-/

import Minix.Inet.IpSend
import Minix.Inet.OptionWalk

namespace Minix.Inet

open Function (update)

/-! ### Sizes -/

/-- `ETH_MIN_PACK_SIZE` -/
def ethMinPackSize : Nat := 60

/-- `ETH_MAX_PACK_SIZE` -/
def ethMaxPackSize : Nat := 1514

/-- `ETH_HDR_SIZE` -/
def ethHdrSize : Nat := 14

/-- `ip_mss` -/
def ethMss : Nat := ethMaxPackSize - ethHdrSize

/-- `IH_DONT_FRAG` -/
def ihDontFrag : UInt16 := 0x4000

/-! ### Fragments -/

/-- The header of the second part, with its options. -/
def secondHdr (firstHdr opts : List UInt8) (dataLen blocks : Nat) : List UInt8 :=
  let hdrLen := 20 + opts.length
  let hdr := setNet16 (firstHdr.take 20) 6 (ntohs (getU16 firstHdr 6) + .ofNat blocks)
  -- the length is added to the mask, not to the version
  let hdr := hdr.set 0 (hdr.getD 0 0 &&& .ofNat (0xf0 + hdrLen / 4))
  setNet16 hdr 2 (.ofNat (dataLen + hdrLen)) ++ opts

/-- The first part: a packet that is cut off, with more fragments to come. -/
def firstPart (address hdrLen : Nat) (pack : List UInt8) : List UInt8 :=
  let pack := pack.set 6 (pack.getD 6 0 ||| 0x20)
  sendChksum address [] hdrLen (setNet16 pack 2 (.ofNat pack.length))

/-- The second part has its checksum if it is not split again. -/
def secondPart (address firstSize hdrLen : Nat) (pack : List UInt8) : List UInt8 :=
  if pack.length ≤ firstSize then sendChksum address [] hdrLen pack else pack

/-- `ip_split_pack`: nothing if the packet must not be fragmented, or the two parts. -/
def ipSplitPack (address firstSize : Nat) (pack : List UInt8) :
    Option (Option (List UInt8 × List UInt8)) :=
  if pack.length < 20 ∨ pack.length ≤ firstSize then none
  else if ntohs (getU16 pack 6) &&& ihDontFrag ≠ 0 then some none
  else
    let firstHdrLen := hdrLen pack
    let firstDataLen := (firstSize - firstHdrLen) / 8 * 8
    let first := pack.take (firstHdrLen + firstDataLen)
    if totalLength pack < firstHdrLen + firstDataLen ∨ pack.length < totalLength pack then none
    else if (ntohs (getU16 pack 6) + .ofNat (firstDataLen / 8)) &&& ihDontFrag ≠ 0 then none
    else
      let secondData := (pack.take (totalLength pack)).drop (firstHdrLen + firstDataLen)
      match splitOptions ((pack.take firstHdrLen).drop 20) (firstHdrLen + 1) with
      | some (.finished opts) =>
        let second := secondHdr pack opts secondData.length (firstDataLen / 8) ++ secondData
        some (some (firstPart address firstHdrLen first,
          secondPart address firstSize (20 + opts.length) second))
      | _ => none

/-! ### The state -/

abbrev EtherAddr := BitVec 48

/-- What is in the place of the Ethernet header: `xmit_hdr_t`, or the header, with the time in the
place of the source. -/
inductive FrameHdr
  | xmit (xhTime : Nat) (xhIpaddr : UInt32)
  | eth (ehDst : EtherAddr) (enqTime : Option Nat)
deriving DecidableEq

/-- A packet with room for an Ethernet header. The next hop, and whether the packet is one that was
accepted and needs no fragmentation, are kept for the proofs. -/
structure EthPack where
  hdr : FrameHdr
  ip : List UInt8
  hop : Option UInt32
  whole : Bool
deriving DecidableEq

/-- `bf_bufsize(eth_pack)` -/
def EthPack.size (pack : EthPack) : Nat := ethHdrSize + pack.ip.length

inductive EthQueue
  /-- `de_arp_head` and `de_arp_tail` -/
  | arp
  /-- `de_q_head` and `de_q_tail` -/
  | xmit
deriving DecidableEq

/-- What is called for a frame: the count that is passed, and the bytes in the chain. -/
structure Offer where
  count : Nat
  size : Nat
deriving DecidableEq

inductive EthFailure
  /-- An assertion on a result of `eth_send` or `eth_write`. -/
  | result
  /-- A panic or an assertion on a packet, or a packet that is released twice. -/
  | packet
  /-- An assertion on the frame, or a packet that is not where the pointers lead. -/
  | queue
deriving DecidableEq

/-- Where the code is. -/
inductive EthControl
  | idle
  /-- In `ipeth_restart_send`, since the given time. -/
  | restart (now : Nat)
  /-- In `ipeth_arp_reply`, at `prev` and `eth_pack`. -/
  | search (ipaddr : UInt32) (ethAddr : Option EtherAddr) (prev ethPack : Option Nat)
  /-- In `ipeth_arp_reply`, trying to get more ARPs in progress. -/
  | more
deriving DecidableEq

/-- What is constant: the address of the port, where headers lie, and what new accessors hold. -/
structure EthPort where
  ipaddr : UInt32
  subnetmask : UInt32
  address : Nat
  fresh : Nat → UInt8

/-- The state of a port. The log of offers, the packets that Ethernet has taken (the last one first),
those that were dropped, and what ARP has told are kept for the proofs. -/
structure IpEth where
  packs : Nat → Option EthPack := fun _ => none
  extLink : Nat → Option Nat := fun _ => none
  head : EthQueue → Option Nat := fun _ => none
  tail : EthQueue → Nat := fun _ => 0
  /-- `de_frame` -/
  frame : Option Nat := none
  /-- `IEF_WRITE_SP` -/
  writeSp : Bool := false
  /-- `etp_wr_pack` is not empty. -/
  busy : Bool := false
  /-- `EFF_WRITE_IP`, with `ef_write_count` -/
  writeIp : Option Nat := none
  control : EthControl := .idle
  fresh : Nat := 0
  offers : List Offer := []
  handed : List (Nat × EtherAddr) := []
  dropped : List Nat := []
  told : List (UInt32 × EtherAddr) := []
  failed : Option EthFailure := none

inductive ArpResult
  | ok (addr : EtherAddr)
  | suspend
  /-- `EDSTNOTRCH` -/
  | unreachable
deriving DecidableEq

/-- The result of `arp_ip_eth`, and whether ARP has taken the port for a packet of its own. -/
structure ArpAnswer where
  result : ArpResult
  took : Bool

inductive EthInput
  /-- `ipeth_send` -/
  | send (dest : UInt32) (pack : List UInt8) (broadcast : Bool) (now : Nat) (answer : ArpAnswer)
      (busy : Bool)
  /-- One round of `ipeth_restart_send`. -/
  | loop (busy : Bool)
  /-- `ipeth_arp_reply` -/
  | arpReply (ipaddr : UInt32) (ethAddr : Option EtherAddr)
  /-- One step along the ARP queue. -/
  | search
  /-- One more ARP. -/
  | more (answer : ArpAnswer) (now : Nat)
  /-- Another descriptor takes the Ethernet port. -/
  | taken
  /-- The port has written, and the descriptors that wait are served; others may come first. -/
  | written (others busy : Bool) (now : Nat)

/-! ### Queues -/

/-- Put a packet at the end of a queue. -/
def enqueue (queue : EthQueue) (id : Nat) (s : IpEth) : IpEth :=
  let extLink := update s.extLink id none
  match s.head queue with
  | none =>
    { s with
      extLink := extLink
      head := update s.head queue (some id)
      tail := update s.tail queue id }
  | some _ =>
    { s with
      extLink := update extLink (s.tail queue) (some id)
      tail := update s.tail queue id }

/-- Take the first packet off a queue. -/
def dequeue (queue : EthQueue) (id : Nat) (s : IpEth) : IpEth :=
  { s with head := update s.head queue (s.extLink id) }

def IpEth.setPack (s : IpEth) (id : Nat) (pack : EthPack) : IpEth :=
  { s with packs := update s.packs id (some pack) }

def IpEth.drop (s : IpEth) (id : Nat) : IpEth := { s with dropped := id :: s.dropped }

def IpEth.fail (s : IpEth) (failure : EthFailure) : IpEth := { s with failed := some failure }

/-! ### Ethernet -/

def illegalSize (count : Nat) : Bool := count < ethMinPackSize || ethMaxPackSize < count

inductive EthReply
  | ok | wouldblock | packsize

/-- `eth_send` -/
def ethSend (id : Nat) (dst : EtherAddr) (offer : Offer) (busy : Bool) (s : IpEth) :
    EthReply × IpEth :=
  let s := { s with offers := offer :: s.offers }
  if illegalSize offer.count then (.packsize, s)
  else if s.busy then (.wouldblock, s)
  else (.ok, { s with busy := busy, handed := (id, dst) :: s.handed })

/-- `get_eth_data` at the end of a write. -/
def writeReply (now : Nat) (s : IpEth) : IpEth :=
  let s := { s with frame := none }
  if s.writeSp then { s with writeSp := false, control := .restart now } else s

/-- `eth_write`: whether it suspends. -/
def ethWrite (id : Nat) (dst : EtherAddr) (offer : Offer) (busy : Bool) (now : Nat) (s : IpEth) :
    Bool × IpEth :=
  let s := { s with offers := offer :: s.offers }
  if illegalSize offer.count then (false, writeReply now (s.drop id))
  else if s.busy then (true, { s with writeIp := some offer.count })
  else (false, writeReply now { s with busy := busy, handed := (id, dst) :: s.handed })

/-- A non-blocking send is not possible: start a regular send. -/
def startWrite (id : Nat) (dst : EtherAddr) (offer : Offer) (busy : Bool) (now : Nat) (s : IpEth) :
    IpEth :=
  let (suspended, s) := ethWrite id dst offer busy now { s with frame := some id }
  if suspended then
    if s.writeSp then s.fail .queue else { s with writeSp := true, control := .idle }
  else s

/-- The frame is sent without blocking, or written. -/
def transmit (id : Nat) (dst : EtherAddr) (offer : Offer) (busy : Bool) (now : Nat) (s : IpEth) :
    IpEth :=
  match ethSend id dst offer busy s with
  | (.ok, s) => s
  | (.wouldblock, s) => startWrite id dst offer busy now s
  | (.packsize, s) => s.fail .result

/-! ### `ipeth_send` -/

/-- A short frame is filled up. -/
def filledUp (port : EthPort) (pack : EthPack) : EthPack :=
  { pack with ip := pack.ip ++ (List.range (ethMinPackSize - pack.size)).map port.fresh }

/-- From the Ethernet address on. -/
def launch (id : Nat) (pack : EthPack) (dst : EtherAddr) (now : Nat) (busy : Bool) (s : IpEth) :
    IpEth :=
  if s.frame = none ∧ pack.size ≤ ethMss + ethHdrSize then
    transmit id dst ⟨pack.size, pack.size⟩ busy now
      (s.setPack id { pack with hdr := .eth dst none })
  else
    let s := enqueue .xmit id (s.setPack id { pack with hdr := .eth dst (some now) })
    if s.frame = none then { s with control := .restart now } else s

/-- A new packet, as it is first. The header is written later. -/
def newPack (port : EthPort) (pack : List UInt8) (hop : Option UInt32) (now : Nat) : EthPack :=
  filledUp port ⟨.xmit now (hop.getD 0), pack, hop, pack.length ≤ ethMss⟩

/-- What ARP has answered. -/
def IpEth.arpAnswer (s : IpEth) (ipaddr : UInt32) (answer : ArpAnswer) : IpEth :=
  match answer.result with
  | .ok addr => { s with busy := s.busy || answer.took, told := (ipaddr, addr) :: s.told }
  | _ => { s with busy := s.busy || answer.took }

def ipethSend (port : EthPort) (dest : UInt32) (pack : List UInt8) (broadcast : Bool) (now : Nat)
    (answer : ArpAnswer) (busy : Bool) (s : IpEth) : IpEth :=
  let id := s.fresh
  let s := { s with fresh := s.fresh + 1 }
  if broadcast then launch id (newPack port pack none now) (BitVec.allOnes 48) now busy s
  else if dest &&& port.subnetmask ≠ port.ipaddr &&& port.subnetmask then s.fail .packet
  else if dest &&& ~~~port.subnetmask = 0 ∨ dest = port.ipaddr then s.fail .packet
  else
    let s := s.arpAnswer dest answer
    let ethPack := newPack port pack (some dest) now
    match answer.result with
    | .suspend => enqueue .arp id (s.setPack id ethPack)
    | .unreachable => s.drop id
    | .ok addr => launch id ethPack addr now busy s

/-! ### `ipeth_restart_send` -/

/-- The frame is filled up, but `pack_size` stays. -/
def restartOffer (port : EthPort) (id : Nat) (pack : EthPack) (dst : EtherAddr) (now : Nat)
    (busy : Bool) (s : IpEth) : IpEth :=
  let packSize := pack.size
  let pack := filledUp port pack
  let s := s.setPack id pack
  if s.frame ≠ none then s.fail .queue
  else transmit id dst ⟨packSize, pack.size⟩ busy now s

/-- The time to live of a packet that has waited. -/
def restartAged (port : EthPort) (id : Nat) (pack : EthPack) (dst : EtherAddr) (enqTime now : Nat)
    (busy : Bool) (s : IpEth) : IpEth :=
  if enqTime + hz < now then
    match ipethUpdateTtl enqTime now pack.ip with
    | none => s.fail .packet
    | some (.error _) => s.drop id
    | some (.ok ip) => restartOffer port id { pack with ip := ip } dst now busy s
  else restartOffer port id pack dst now busy s

/-- The second part of a packet goes to the end of the queue. -/
def requeue (pack : EthPack) (second : List UInt8) (s : IpEth) : IpEth :=
  enqueue .xmit s.fresh
    ({ s with fresh := s.fresh + 1 }.setPack s.fresh { pack with ip := second, whole := false })

/-- A packet that has been taken off the queue. -/
def restartPack (port : EthPort) (id : Nat) (pack : EthPack) (dst : EtherAddr) (enqTime now : Nat)
    (busy : Bool) (s : IpEth) : IpEth :=
  if ethMss + ethHdrSize < pack.size then
    match ipSplitPack port.address ethMss pack.ip with
    | none => s.fail .packet
    -- `icmp_snd_unreachable` has released the packet already
    | some none => s.fail .packet
    | some (some (first, second)) =>
      restartAged port id { pack with ip := first } dst enqTime now busy (requeue pack second s)
  else restartAged port id pack dst enqTime now busy s

/-- One round of the loop. -/
def restartRound (port : EthPort) (now : Nat) (busy : Bool) (s : IpEth) : IpEth :=
  match s.head .xmit with
  | none => { s with control := .idle }
  | some id =>
    match s.packs id with
    | some ⟨.eth dst (some enqTime), ip, hop, whole⟩ =>
      restartPack port id ⟨.eth dst (some enqTime), ip, hop, whole⟩ dst enqTime now busy
        (dequeue .xmit id s)
    | _ => s.fail .queue

/-! ### `ipeth_arp_reply` -/

/-- Delete a packet from the middle of the ARP queue. -/
def unqueue (prev : Option Nat) (id : Nat) (s : IpEth) : IpEth :=
  match prev with
  | none => dequeue .arp id s
  | some prev =>
    let s := { s with extLink := update s.extLink prev (s.extLink id) }
    if s.extLink prev = none then { s with tail := update s.tail .arp prev } else s

/-- Fill in the Ethernet address and put the packet on the transmit queue. -/
def resolve (id : Nat) (pack : EthPack) (addr : EtherAddr) (xhTime : Nat) (s : IpEth) : IpEth :=
  enqueue .xmit id (s.setPack id { pack with hdr := .eth addr (some xhTime) })

/-- What becomes of a packet whose next hop has been found. -/
def deliver (id : Nat) (pack : EthPack) (ethAddr : Option EtherAddr) (xhTime : Nat) (s : IpEth) :
    IpEth :=
  match ethAddr with
  | none => s.drop id
  | some addr => resolve id pack addr xhTime s

/-- One step of the search for packets to the address. -/
def searchRound (ipaddr : UInt32) (ethAddr : Option EtherAddr) (prev ethPack : Option Nat)
    (s : IpEth) : IpEth :=
  match ethPack with
  | none => { s with control := .more }
  | some id =>
    match s.packs id with
    | some ⟨.xmit xhTime xhIpaddr, ip, hop, whole⟩ =>
      if xhIpaddr = ipaddr then
        let s := deliver id ⟨.xmit xhTime xhIpaddr, ip, hop, whole⟩ ethAddr xhTime
          (unqueue prev id s)
        { s with control := .search ipaddr ethAddr none (s.head .arp) }
      else { s with control := .search ipaddr ethAddr (some id) (s.extLink id) }
    | _ => s.fail .queue

/-- The end of `ipeth_arp_reply`. -/
def finishReply (now : Nat) (s : IpEth) : IpEth :=
  { s with control := if s.frame = none then .restart now else .idle }

/-- One round of the loop that tries to get more ARPs in progress. -/
def moreRound (answer : ArpAnswer) (now : Nat) (s : IpEth) : IpEth :=
  match s.head .arp with
  | none => finishReply now s
  | some id =>
    match s.packs id with
    | some ⟨.xmit xhTime xhIpaddr, ip, hop, whole⟩ =>
      let s := s.arpAnswer xhIpaddr answer
      match answer.result with
      | .suspend => finishReply now s
      | .unreachable => deliver id ⟨.xmit xhTime xhIpaddr, ip, hop, whole⟩ none xhTime
          (dequeue .arp id s)
      | .ok addr => deliver id ⟨.xmit xhTime xhIpaddr, ip, hop, whole⟩ (some addr) xhTime
          (dequeue .arp id s)
    | _ => s.fail .queue

/-! ### Steps -/

/-- `eth_write` of `eth_restart_write`: the frame is fetched and sent. -/
def rewrite (count : Nat) (busy : Bool) (now : Nat) (s : IpEth) : IpEth :=
  match s.frame with
  | none => s.fail .queue
  | some id =>
    match s.packs id with
    | some ⟨.eth dst _, ip, _, _⟩ =>
      if illegalSize count then writeReply now ({ s with writeIp := none }.drop id)
      else if ethHdrSize + ip.length < count then s.fail .queue
      else
        writeReply now { s with writeIp := none, busy := busy, handed := (id, dst) :: s.handed }
    | _ => s.fail .queue

/-- The port has written a packet: `eth_restart_write`. -/
def portWritten (others busy : Bool) (now : Nat) (s : IpEth) : IpEth :=
  if others then s
  else
    match s.writeIp with
    | none => { s with busy := false }
    | some count => rewrite count busy now { s with busy := false }

/-- One step of a port. An input that does not belong to the place where the code is, or any after a
failure, is no step. -/
def ethStep (port : EthPort) (s : IpEth) (input : EthInput) : Option IpEth :=
  if s.failed ≠ none then none
  else
    match s.control, input with
    | .idle, .send dest pack broadcast now answer busy =>
      some (ipethSend port dest pack broadcast now answer busy s)
    | .idle, .arpReply ipaddr ethAddr =>
      let told := ethAddr.toList.map fun addr => (ipaddr, addr)
      some { s with
        control := .search ipaddr ethAddr none (s.head .arp)
        told := told ++ s.told }
    | .idle, .taken => if s.busy then none else some { s with busy := true }
    | .idle, .written others busy now => if s.busy then some (portWritten others busy now s) else none
    | .restart now, .loop busy => some (restartRound port now busy s)
    | .search ipaddr ethAddr prev ethPack, .search =>
      some (searchRound ipaddr ethAddr prev ethPack s)
    | .more, .more answer now => some (moreRound answer now s)
    | _, _ => none

end Minix.Inet
