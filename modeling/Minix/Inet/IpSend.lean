/-
This file models `ip_send` (`inet/generic/ip_write.c`), with `oroute_frag` (`inet/generic/ipr.c`).

What a new accessor holds and where it lies, what lies in memory behind a header, and whether other
chains share the first accessor of a packet are parameters. A result that is `none` is a failed
assertion or a chain that is released twice.
-/

import Minix.Inet.Buffers
import Minix.Inet.IcmpRoutes

namespace Minix.Inet

/-! ### Options and ports -/

/-- `IP_MAX_PACKSIZE`, the most that `ip_write` takes. -/
def ipMaxPacksize : Nat := 40000

/-- `EPACKSIZE` -/
def epacksize : Int := -50

/-- `EBADMODE` -/
def ebadmode : Int := -53

/-- `EBADDEST` -/
def ebaddest : Int := -55

/-- `EDSTNOTRCH` -/
def edstnotrch : Int := -56

/-- A channel: `if_ipopt`. -/
structure IpChannel where
  /-- `IFF_OPTSET` -/
  optset : Bool
  /-- `NWIO_RWDATONLY` -/
  rwdatonly : Bool
  /-- `NWIO_HDR_O_SPEC` -/
  hdrOSpec : Bool
  /-- The `iho_opt_siz` bytes of `iho_data`. -/
  hdropt : List UInt8
  tos : UInt8
  ttl : UInt8
  df : Bool
  /-- `nwio_proto`, with `NWIO_PROTOSPEC` -/
  proto : Option UInt8
  /-- `nwio_rem`, with `NWIO_REMSPEC` -/
  rem : Option UInt32

/-- What is read of a port. -/
structure SendPort where
  nr : Nat
  /-- `IPF_IPADDRSET` -/
  ipaddrset : Bool
  ipaddr : UInt32
  subnetmask : UInt32
  frameId : UInt16

/-- The new accessors and the memory around the header. -/
structure SendLocals where
  hdr : Nat
  copied : Nat
  opts : Nat
  fresh : Nat → UInt8
  beyond : List UInt8
  /-- `acc_linkC` or `buf_linkC` is not 1. -/
  shared : Bool

/-- The chains that are in use: the one of the user, and those that take its place. -/
inductive SendChain
  | data | copied | spliced
deriving DecidableEq

/-- The packet in `data`, and the chains. -/
structure Sending where
  pack : List Acc
  chain : SendChain
  inUse : List SendChain

/-- Where a packet goes. -/
inductive IpVia
  /-- To the loopback queue, with the addresses exchanged. -/
  | swapped
  | loopback
  | device (nexthop : UInt32) (broadcast : Bool)

/-- What becomes of a packet. -/
inductive IpSent
  | refused (error : Int)
  | handed (via : IpVia) (pack : List Acc)

structure SendResult where
  sent : IpSent
  inUse : List SendChain
  frameId : UInt16
  routes : Orouting

/-! ### The header -/

/-- Write a word in the network byte order. -/
def setNet16 (data : List UInt8) (i : Nat) (w : UInt16) : List UInt8 :=
  (data.set i (w >>> 8).toUInt8).set (i + 1) w.toUInt8

/-- Write a long word. -/
def setU32 (data : List UInt8) (i : Nat) (x : UInt32) : List UInt8 :=
  (((data.set i x.toUInt8).set (i + 1) (x >>> 8).toUInt8).set (i + 2) (x >>> 16).toUInt8).set (i + 3)
    (x >>> 24).toUInt8

/-- The fields that a channel with `NWIO_HDR_O_SPEC` sets. -/
def channelFields (channel : IpChannel) (hdrLen : Nat) (ipHdr : List UInt8) : List UInt8 :=
  ((((ipHdr.set 0 (.ofNat (hdrLen / 4))).set 1 channel.tos).set 6 (if channel.df then 0x40 else 0)).set
    7 0).set 8 channel.ttl

/-- The destination, if the channel has one. -/
def setRem (channel : IpChannel) (ipHdr : List UInt8) : List UInt8 :=
  match channel.rem with
  | some rem => setU32 ipHdr 16 rem
  | none => ipHdr

/-- The protocol, if the channel has one. -/
def setProto (channel : IpChannel) (ipHdr : List UInt8) : List UInt8 :=
  match channel.proto with
  | some proto => ipHdr.set 9 proto
  | none => ipHdr

/-- The fields that are always set: version, length, flags, identification and source. -/
def fillFields (channel : IpChannel) (port : SendPort) (dataLen : Nat) (ipHdr : List UInt8) :
    List UInt8 :=
  let ipHdr := ipHdr.set 0 (ipHdr.getD 0 0 &&& 0xf ||| 0x40)
  let ipHdr := setNet16 ipHdr 2 (.ofNat dataLen)
  let ipHdr := (ipHdr.set 6 (ipHdr.getD 6 0 &&& 0x40)).set 7 0
  let ipHdr := setProto channel ipHdr
  let ipHdr := setNet16 ipHdr 4 port.frameId
  let ipHdr := setU32 ipHdr 12 port.ipaddr
  setRem channel ipHdr

/-- `ip_hdr_chksum(ip_hdr, hdr_len)`, where the header may reach behind its accessor. -/
def sendChksum (address : Nat) (beyond : List UInt8) (hdrLen : Nat) (ipHdr : List UInt8) :
    List UInt8 :=
  let ipHdr := setU16 ipHdr 10 0
  setU16 ipHdr 10 (~~~oneCSum 0 address ((ipHdr ++ beyond).take hdrLen))

/-- Exchange the addresses. -/
def swapAddresses (ipHdr : List UInt8) : List UInt8 :=
  setU32 (setU32 ipHdr 16 (getU32 ipHdr 12)) 12 (getU32 ipHdr 16)

/-- Edit the header in the first accessor. -/
def editFirst (edit : List UInt8 → List UInt8) : List Acc → List Acc
  | [] => []
  | first :: next => { first with data := edit first.data } :: next

/-! ### Destinations -/

/-- The tests of the destination: `EBADDEST` or not. -/
def badDest (port : SendPort) (dstaddr : UInt32) : Bool :=
  let hostrepDst := ntohl dstaddr
  if hostrepDst = 0xffffffff then false -- local broadcast
  else if hostrepDst &&& 0xe0000000 = 0xe0000000 then false -- multicast
  else if hostrepDst &&& 0xf0000000 = 0xf0000000 then true -- bad class
  else if (dstaddr ^^^ port.ipaddr) &&& port.subnetmask ≠ 0 then false -- remote destination
  else dstaddr &&& ~~~port.subnetmask = 0 -- zero host part

def orouteFrag (s : Orouting) (currtim portNr : Nat) (dest : UInt32) (ttl : Int) :
    Option (Orouting × Except Int UInt32) :=
  (orouteFindEnt s currtim portNr dest).map fun (s, route) =>
    match route with
    | none => (s, .error edstnotrch)
    | some oroute =>
      if ttl < (s.table oroute).dist then (s, .error edstnotrch)
      else (s, .ok (s.table oroute).gateway)

/-- The end of `ip_send`: where the packet goes. -/
def sendVia (port : SendPort) (s : Orouting) (currtim : Nat) (dstaddr : UInt32) (ttl : Int) :
    Option (Orouting × Except Int IpVia) :=
  if dstaddr &&& 0xff = 0x7f then some (s, .ok .swapped)
  else if dstaddr = 0xffffffff then some (s, .ok (.device dstaddr true))
  else if dstaddr = port.ipaddr then some (s, .ok .loopback)
  else if (dstaddr ^^^ port.ipaddr) &&& port.subnetmask = 0 then
    some (s, .ok (.device dstaddr (dstaddr = port.ipaddr ||| ~~~port.subnetmask)))
  else
    (orouteFrag s currtim port.nr dstaddr ttl).map fun (s, nexthop) =>
      (s, nexthop.map fun nexthop =>
        if nexthop = port.ipaddr then .loopback else .device nexthop false)

/-! ### `ip_send` -/

/-- Release the packet. -/
def refuse (error : Int) (sending : Sending) (frameId : UInt16) (routes : Orouting) :
    Option SendResult :=
  (bfAfree sending.chain sending.inUse).map fun inUse => ⟨.refused error, inUse, frameId, routes⟩

/-- With `NWIO_RWDATONLY`, a new header comes first. -/
def addHdr (channel : IpChannel) (locals : SendLocals) (data : List Acc) : List Acc :=
  if channel.rwdatonly then ⟨locals.hdr, (List.range 20).map locals.fresh⟩ :: data else data

/-- A header that others share is copied. -/
def unshare (locals : SendLocals) (sending : Sending) : Option Sending :=
  match sending.pack with
  | [] => none
  | ipHdr :: _ =>
    if ipHdr.data.length < 20 then none
    else if locals.shared then
      (bfCut sending.pack 20 (sizeSub (bytes sending.pack).length 20)).bind fun rest =>
        (bfAfree sending.chain (.copied :: sending.inUse)).map fun inUse =>
          ⟨⟨locals.copied, ipHdr.data.take 20⟩ :: rest, .copied, inUse⟩
    else some sending

/-- The options of the channel are put behind the header. -/
def spliceOptions (buffers : Buffers) (locals : SendLocals) (channel : IpChannel)
    (sending : Sending) : Option Sending :=
  if channel.hdropt = [] then some sending
  else
    (bfCut sending.pack 0 20).bind fun tmpPack =>
      (bfCut sending.pack 20 (sizeSub (bytes sending.pack).length 20)).bind fun tmpPack1 =>
        (bfAfree sending.chain (.spliced :: sending.inUse)).bind fun inUse =>
          match bfPackIffLess buffers.toPacking tmpPack 20 with
          | [] => none
          | ipHdr :: _ => some ⟨ipHdr :: ⟨locals.opts, channel.hdropt⟩ :: tmpPack1, .spliced, inUse⟩

/-- The packet after the part of `ip_send` that depends on `NWIO_HDR_O_SPEC`, with the length of its
header and its time to live. -/
abbrev Prepared := Sending × Nat × Int

/-- The channel specifies the header. -/
def prepareSpec (buffers : Buffers) (locals : SendLocals) (channel : IpChannel)
    (sending : Sending) : Option (Except Int Prepared) :=
  (spliceOptions buffers locals channel sending).map fun sending =>
    let hdrLen := 20 + channel.hdropt.length
    .ok ({ sending with pack := editFirst (channelFields channel hdrLen) sending.pack }, hdrLen,
      ortdUnreachable + 1)

/-- The header is in the packet. -/
def prepareAny (buffers : Buffers) (locals : SendLocals) (sending : Sending) (dataLen : Nat) :
    Option (Except Int Prepared) :=
  match sending.pack with
  | [] => none
  | ipHdr :: _ =>
    let hdrLen := hdrLen ipHdr.data
    if hdrLen < 20 then some (.error einval)
    else if dataLen < hdrLen then some (.error epacksize)
    else if ipHdr.data.getD 8 0 = 0 then some (.error einval)
    else
      match bfPackIffLess buffers.toPacking sending.pack hdrLen with
      | [] => none
      | ipHdr :: next =>
        let r := ipChkHdropt (ipHdr.data.drop hdrLen ++ locals.beyond)
          ((ipHdr.data.take hdrLen).drop 20)
        if hdrLen ≠ 20 ∧ r ≠ 0 then some (.error r)
        else
          some (.ok ({ sending with pack := ipHdr :: next }, hdrLen, (ipHdr.data.getD 8 0).toNat))

def prepare (buffers : Buffers) (locals : SendLocals) (channel : IpChannel) (sending : Sending)
    (dataLen : Nat) : Option (Except Int Prepared) :=
  if channel.hdrOSpec then prepareSpec buffers locals channel sending
  else prepareAny buffers locals sending dataLen

/-- The addresses are exchanged on the way to the loopback network. -/
def viaEdit : IpVia → List UInt8 → List UInt8
  | .swapped => swapAddresses
  | _ => id

/-- From the checksum on. -/
def sendOff (buffers : Buffers) (locals : SendLocals) (port : SendPort) (s : Orouting)
    (currtim : Nat) (sending : Sending) (hdrLen : Nat) (ttl : Int) : Option SendResult :=
  match sending.pack with
  | [] => none
  | ipHdr :: next =>
    let dstaddr := getU32 ipHdr.data 16
    let summed := { ipHdr with data := sendChksum ipHdr.address locals.beyond hdrLen ipHdr.data }
    match bfPackIffLess buffers.toPacking (summed :: next) 20 with
    | [] => none
    | ipHdr :: next =>
      if ipHdr.data.length < 20 then none
      else
        (sendVia port s currtim dstaddr ttl).bind fun (s, via) =>
          match via with
          | .error r => refuse r sending (port.frameId + 1) s
          | .ok via =>
            some ⟨.handed via ({ ipHdr with data := viaEdit via ipHdr.data } :: next),
              sending.inUse, port.frameId + 1, s⟩

/-- From `ih_vers_ihl` on. -/
def sendFilled (buffers : Buffers) (locals : SendLocals) (channel : IpChannel) (port : SendPort)
    (s : Orouting) (currtim dataLen : Nat) (prepared : Prepared) : Option SendResult :=
  let (sending, hdrLen, ttl) := prepared
  let sending := { sending with
    pack := editFirst (fillFields channel port dataLen) sending.pack }
  match sending.pack with
  | [] => none
  | ipHdr :: _ =>
    if badDest port (getU32 ipHdr.data 16) then refuse ebaddest sending (port.frameId + 1) s
    else sendOff buffers locals port s currtim sending hdrLen ttl

def ipSend (buffers : Buffers) (locals : SendLocals) (channel : IpChannel) (port : SendPort)
    (s : Orouting) (currtim : Nat) (data : List Acc) : Option SendResult :=
  if !channel.optset then refuse ebadmode ⟨data, .data, [.data]⟩ port.frameId s
  else if !port.ipaddrset then none
  else
    let pack := addHdr channel locals data
    let dataLen := (bytes pack).length
    if dataLen < 20 then refuse epacksize ⟨pack, .data, [.data]⟩ port.frameId s
    else
      (unshare locals ⟨bfPackIffLess buffers.toPacking pack 20, .data, [.data]⟩).bind
        fun sending =>
          (prepare buffers locals channel sending dataLen).bind fun prepared =>
            match prepared with
            | .error r => refuse r sending port.frameId s
            | .ok prepared => sendFilled buffers locals channel port s currtim dataLen prepared

/-! ### What is to be sent -/

/-- The packet, with a header. -/
def userPacket (channel : IpChannel) (locals : SendLocals) (data : List Acc) : List UInt8 :=
  bytes (addHdr channel locals data)

/-- Where the packet is to go. -/
def destination (channel : IpChannel) (packet : List UInt8) : UInt32 :=
  channel.rem.getD (getU32 packet 16)

/-- The size of the header with its options. -/
def headerSize (channel : IpChannel) (packet : List UInt8) : Nat :=
  if channel.hdrOSpec then 20 + channel.hdropt.length else hdrLen packet

/-- The sum of the words of a header is right. -/
def HdrSumRight (ipHdr : List UInt8) : Prop :=
  wordSum ipHdr ≡ 0 [MOD 2 ^ 16 - 1] ∧ wordSum ipHdr ≠ 0

/-- The source is the port; in the loopback network the destination is. -/
def AddressesRight (port : SendPort) (dstaddr : UInt32) (data : List UInt8) : IpVia → Prop
  | .swapped => getU32 data 16 = port.ipaddr ∧ getU32 data 12 = dstaddr
  | _ => getU32 data 12 = port.ipaddr

/-- A packet that is handed over has a right header, before the data that the user gave. -/
structure HeaderRight (port : SendPort) (dstaddr : UInt32) (size : Nat) (packet data : List UInt8)
    (via : IpVia) : Prop where
  version : version data = 4
  ihl : hdrLen data = size
  length : totalLength data = data.length
  fragment : ntohs (getU16 data 6) &&& (ihFragoffMask ||| ihMoreFrags) = 0
  addresses : AddressesRight port dstaddr data via
  chksum : HdrSumRight (data.take size)
  rest : data.drop 20 = packet.drop 20

/-- A class E address other than all ones, or a zero host part on the own subnet. -/
def Unsendable (port : SendPort) (dstaddr : UInt32) : Prop :=
  (ntohl dstaddr &&& 0xf0000000 = 0xf0000000 ∧ dstaddr ≠ 0xffffffff) ∨
    ((dstaddr ^^^ port.ipaddr) &&& port.subnetmask = 0 ∧ dstaddr &&& ~~~port.subnetmask = 0)

/-- What is handed over is right, and what cannot be sent is refused and released. -/
def SendRight (buffers : Buffers) (locals : SendLocals) (channel : IpChannel) (port : SendPort)
    (s : Orouting) (currtim : Nat) (data : List Acc) : Prop :=
  let packet := userPacket channel locals data
  let dstaddr := destination channel packet
  ∀ result, ipSend buffers locals channel port s currtim data = some result →
    (∀ via pack, result.sent = .handed via pack →
      HeaderRight port dstaddr (headerSize channel packet) packet (bytes pack) via) ∧
    (Unsendable port dstaddr → ∃ error, result.sent = .refused error ∧ result.inUse = [])

/-- A header that is accepted in a packet. -/
structure HeaderGiven (packet : List UInt8) : Prop where
  least : 20 ≤ hdrLen packet
  inside : hdrLen packet ≤ packet.length
  ttl : packet.getD 8 0 ≠ 0
  options : OptionList [] ((packet.take (hdrLen packet)).drop 20)

/-- The time to live that the route has to respect. -/
def routeTtl (channel : IpChannel) (packet : List UInt8) : Int :=
  if channel.hdrOSpec then ortdUnreachable + 1 else (packet.getD 8 0).toNat

/-- There is a way to a destination: in the loopback network, on the own subnet, or by a route. -/
def WayTo (port : SendPort) (s : Orouting) (currtim : Nat) (dstaddr : UInt32) (ttl : Int) : Prop :=
  dstaddr &&& 0xff = 0x7f ∨ dstaddr = 0xffffffff ∨ dstaddr = port.ipaddr ∨
    (dstaddr ^^^ port.ipaddr) &&& port.subnetmask = 0 ∨
    ∃ s' nexthop, orouteFrag s currtim port.nr dstaddr ttl = some (s', .ok nexthop)

/-- A packet passes the tests, and there is a way to its destination. -/
structure SendGoes (channel : IpChannel) (port : SendPort) (s : Orouting) (currtim : Nat)
    (packet : List UInt8) : Prop where
  optset : channel.optset = true
  address : port.ipaddrset = true
  complete : 20 ≤ packet.length
  header : channel.hdrOSpec = true ∨ HeaderGiven packet
  dest : badDest port (destination channel packet) = false
  reaches : WayTo port s currtim (destination channel packet) (routeTtl channel packet)

/-- If a packet goes, then the channel specifies no options, and the destination can be sent to. -/
def SendFits (channel : IpChannel) (port : SendPort) (s : Orouting) (currtim : Nat)
    (packet : List UInt8) : Prop :=
  SendGoes channel port s currtim packet →
    (channel.hdrOSpec = true → channel.hdropt = []) ∧
      ¬Unsendable port (destination channel packet)

end Minix.Inet
