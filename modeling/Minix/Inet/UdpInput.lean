/-
This file models `udp_ip_arrived` (`inet/generic/udp.c`), which takes the datagrams from the IP
layer, and proves for which packets all that it cuts out and reads lies in what was received.

The packet is a chain of accessors; sizes are numbers of 32 bits. Which descriptors get the datagram
is the result; their queues, with the time at which a datagram expires, are left out. A result that
is `none` is a failed assertion or a header that is read outside the accessor.
-/

import Minix.Inet.Buffers

namespace Minix.Inet

open OnesComplement (Same)
open Option (bind_some map_some)

/-! ### The model -/

/-- `ntohs(uh_length)` -/
def udpLength (udpHdr : List UInt8) : Nat :=
  256 * (udpHdr.getD 4 0).toNat + (udpHdr.getD 5 0).toNat

/-- The addresses of the local variables that a checksum is taken of. -/
structure UdpLocals where
  byteBuf : Nat
  srcAddr : Nat
  dstAddr : Nat
  u16 : Nat

/-- `udp_io_hdr_t` -/
structure UdpIoHdr where
  srcAddr : UInt32
  dstAddr : UInt32
  srcPort : UInt16
  dstPort : UInt16
  ipOptLen : UInt16
  dataLen : UInt16
deriving DecidableEq

/-- What a user gets: the header, the IP options and the data. -/
structure UserPack where
  hdr : UdpIoHdr
  opts : List UInt8
  data : List UInt8
deriving DecidableEq

/-- `NWUO_ACC_MASK` -/
inductive UdpAccess
  | excl | shared | copy
deriving DecidableEq

/-- What is read of a descriptor. -/
structure UdpFd where
  nr : Nat
  port : Nat
  access : UdpAccess
  enLoc : Bool
  enBroad : Bool
  rpSet : Bool
  raSet : Bool
  enIpopt : Bool
  locport : UInt16
  remport : UInt16
  remaddr : UInt32
  /-- `uf_rdbuf_head` is not null. -/
  waiting : Bool

/-- What is read of a port: its address and the lists of descriptors. -/
structure UdpPort where
  nr : Nat
  ipaddr : UInt32
  portAny : List UdpFd
  portHash : UInt16 → List UdpFd

/-- What becomes of a packet. -/
inductive UdpArrival
  | dropped
  /-- The datagram goes to descriptors, or is sent back as unreachable. -/
  | passed (noIpoptPack ipoptPack : UserPack) (queued : List (Nat × UserPack))
      (unreachable : Option (List Acc))

/-- The tests of the loop over the descriptors. -/
def UdpFd.wants (fd : UdpFd) (port : UdpPort) (hashed : Bool) (hdr : UdpIoHdr) : Bool :=
  (!hashed || fd.locport = hdr.dstPort) && fd.port = port.nr &&
    (if hdr.dstAddr = port.ipaddr then fd.enLoc else fd.enBroad) &&
    (!fd.rpSet || fd.remport = hdr.srcPort) && (!fd.raSet || fd.remaddr = hdr.srcAddr)

/-- The loop over the descriptors; of those that share the datagrams, one gets it. -/
def udpDeliver (wants : UdpFd → Bool) : List UdpFd → Option UdpFd → List UdpFd
  | [], shareFd => shareFd.toList
  | fd :: rest, shareFd =>
    if !wants fd then udpDeliver wants rest shareFd
    else if fd.access = .shared ∧ (shareFd.isNone ∨ fd.waiting = false) then
      udpDeliver wants rest (some fd)
    else fd :: udpDeliver wants rest shareFd

/-- `UDP_PORT_HASH_NR` lists. -/
def udpHash (dstPort : UInt16) : UInt16 := (dstPort ^^^ dstPort >>> 8) &&& 15

/-- `ip_hdr_acc` for a header of some size. -/
def ipHdrAcc (buffers : Buffers) (pack : List Acc) (size : Nat) : Option (List Acc) :=
  (bfCut pack 0 size).map (bfPackIffLess buffers.toPacking · size)

/-- `ip_hdr_acc`, and what lies at `ip_hdr`. A header that claims less than 20 bytes is not copied:
behind it lies the rest of the accessor that it is cut off from. -/
def findIpHdr (buffers : Buffers) (pack : List Acc) : Option (List Acc × List UInt8) :=
  (ipHdrAcc buffers pack 20).bind fun acc =>
    match acc, pack with
    | ipHdr :: _, first :: _ =>
      if ipHdr.data.length < 20 then none
      else if hdrLen ipHdr.data = 20 then some (acc, ipHdr.data)
      else
        (ipHdrAcc buffers pack (hdrLen ipHdr.data)).bind fun acc' =>
          match acc' with
          | [] => none
          | ipHdr' :: _ =>
            some (acc', if hdrLen ipHdr.data < 20 then first.data else ipHdr'.data)
    | _, _ => none

/-- The checksum over the datagram and the pseudo header. -/
def udpChksum (locals : UdpLocals) (ipHdr : List UInt8) (udpHdr : Acc) (next : List Acc) :
    Option UInt16 :=
  (udpPackOneCsum locals.byteBuf (udpHdr :: next)).map fun chksum =>
    let chksum := oneCSum chksum locals.srcAddr (field ipHdr 12 4)
    let chksum := oneCSum chksum locals.dstAddr (field ipHdr 16 4)
    let chksum := oneCSum chksum locals.u16 [0, ipHdr.getD 9 0]
    oneCSum chksum (udpHdr.address + 4) (field udpHdr.data 4 2)

/-- Whether a datagram with a checksum is dropped because of it. -/
def udpWrong (locals : UdpLocals) (ipHdr : List UInt8) (udpHdr : Acc) (next : List Acc) :
    Option Bool :=
  if getU16 udpHdr.data 6 = 0 then some false
  else (udpChksum locals ipHdr udpHdr next).map fun chksum => ~~~chksum ≠ 0

/-- The header of the datagram for the users. -/
def udpIoHdr (ipHdr udpHdr : List UInt8) : UdpIoHdr where
  srcAddr := getU32 ipHdr 12
  dstAddr := getU32 ipHdr 16
  srcPort := getU16 udpHdr 0
  dstPort := getU16 udpHdr 2
  ipOptLen := 0
  dataLen := .ofNat (sizeSub (udpLength udpHdr) 8)

/-- `ipopt_pack`, made of `no_ipopt_pack` and the options. -/
def addOptions (acc : List Acc) (ipHdrSize : Nat) (noIpoptPack : UserPack) : Option UserPack :=
  if ipHdrSize = 20 then some noIpoptPack
  else
    (bfCut acc 20 (sizeSub ipHdrSize 20)).bind fun tmpAcc =>
      match tmpAcc with
      | [opts] =>
        some { noIpoptPack with
          hdr := { noIpoptPack.hdr with ipOptLen := .ofNat (sizeSub ipHdrSize 20) }
          opts := opts.data }
      | _ => none

/-- The end of `udp_ip_arrived`: the datagram is queued for the descriptors, or sent back. -/
def udpQueue (buffers : Buffers) (port : UdpPort) (acc udpAcc : List Acc)
    (noIpoptPack ipoptPack : UserPack) : UdpArrival :=
  let hdr := noIpoptPack.hdr
  let hashed := port.portHash (udpHash hdr.dstPort)
  let fds := udpDeliver (·.wants port false hdr) port.portAny none ++
    udpDeliver (·.wants port true hdr) hashed none
  let delivered := hdr.dstAddr ≠ port.ipaddr ∨ hashed.any (·.wants port true hdr)
  .passed noIpoptPack ipoptPack
    (fds.map fun fd => (fd.nr, if fd.enIpopt then ipoptPack else noIpoptPack))
    (if delivered then none else some (buffers.append acc udpAcc))

/-- From the copy of the addresses on; the checksum is right, or there is none. -/
def udpPass (buffers : Buffers) (port : UdpPort) (acc : List Acc) (ipHdr : List UInt8)
    (udpHdr : Acc) (next : List Acc) : Option UdpArrival :=
  (bfCut (udpHdr :: next) 8 (sizeSub (udpLength udpHdr.data) 8)).bind fun data =>
    let noIpoptPack : UserPack := ⟨udpIoHdr ipHdr udpHdr.data, [], bytes data⟩
    (addOptions acc (hdrLen ipHdr) noIpoptPack).map
      (udpQueue buffers port acc (udpHdr :: next) noIpoptPack)

/-- From the header of the datagram on. -/
def udpCheck (buffers : Buffers) (locals : UdpLocals) (port : UdpPort) (acc : List Acc)
    (ipHdr : List UInt8) (udpAcc : List Acc) (packSize : Nat) : Option UdpArrival :=
  match udpAcc with
  | [] => none
  | udpHdr :: next =>
    if udpHdr.data.length < 8 then none
    else if packSize < udpLength udpHdr.data then some .dropped -- packet too large
    else if ipHdr.length < 20 then none
    else
      (udpWrong locals ipHdr udpHdr next).bind fun wrong =>
        if wrong then some .dropped -- checksum error
        else udpPass buffers port acc ipHdr udpHdr next

def udpIpArrived (buffers : Buffers) (locals : UdpLocals) (port : UdpPort) (pack : List Acc)
    (packSize : Nat) : Option UdpArrival :=
  (findIpHdr buffers pack).bind fun (acc, ipHdr) =>
    (bfDelhead pack (hdrLen ipHdr)).bind fun udpAcc =>
      let packSize := sizeSub packSize (hdrLen ipHdr)
      if packSize < 8 then some .dropped -- packet too small
      else
        udpCheck buffers locals port acc ipHdr (bfPackIffLess buffers.toPacking udpAcc 8) packSize

/-! ### What the users are to get -/

/-- The datagram has no checksum, or the right one. -/
def UdpSumRight (data : List UInt8) : Prop :=
  getU16 (ipPayload data) 6 = 0 ∨
    wordSum (padded (ipPayload data)) + wordSum (field data 12 4) + wordSum (field data 16 4) +
      wordSum [0, data.getD 9 0] + wordSum (field (ipPayload data) 4 2) ≡ 0 [MOD 2 ^ 16 - 1]

/-- What the users get is cut out of the packet, and the sizes that they are told are right. -/
structure UdpRight (data : List UInt8) (noIpoptPack ipoptPack : UserPack) : Prop where
  cut : noIpoptPack.data = ((ipPayload data).drop 8).take (udpLength (ipPayload data) - 8)
  dataLen : noIpoptPack.hdr.dataLen.toNat + 8 = udpLength (ipPayload data)
  noOpts : noIpoptPack.opts = [] ∧ noIpoptPack.hdr.ipOptLen = 0
  opts : ipoptPack.opts = (data.take (hdrLen data)).drop 20
  optLen : ipoptPack.hdr.ipOptLen.toNat + 20 = hdrLen data
  same : ipoptPack.data = noIpoptPack.data ∧
    ipoptPack.hdr = { noIpoptPack.hdr with ipOptLen := ipoptPack.hdr.ipOptLen }

/-- No assertion fails and nothing outside is read, datagrams of a wrong size are dropped, and the
others are right for the users. -/
def UdpSafe (buffers : Buffers) (locals : UdpLocals) (port : UdpPort) (pack : List Acc) : Prop :=
  ∃ arrival, udpIpArrived buffers locals port pack (bytes pack).length = some arrival ∧
    ((ipPayload (bytes pack)).length < 8 ∨ udpLength (ipPayload (bytes pack)) < 8 ∨
      (ipPayload (bytes pack)).length < udpLength (ipPayload (bytes pack)) →
        arrival = .dropped) ∧
    ∀ noIpoptPack ipoptPack queued unreachable,
      arrival = .passed noIpoptPack ipoptPack queued unreachable →
        UdpRight (bytes pack) noIpoptPack ipoptPack

/-- Something follows the header; and a datagram that is as long as it says and passes the test of
the checksum has the length of a header at least, in a packet with a complete header. -/
structure UdpFits (data : List UInt8) : Prop where
  payload : ipPayload data ≠ []
  sizes : 8 ≤ (ipPayload data).length → udpLength (ipPayload data) ≤ (ipPayload data).length →
    UdpSumRight data → 8 ≤ udpLength (ipPayload data) ∧ 20 ≤ hdrLen data

theorem udpLength_lt (udpHdr : List UInt8) : udpLength udpHdr < 2 ^ 16 := by
  have high := (udpHdr.getD 4 0).toNat_lt
  have low := (udpHdr.getD 5 0).toNat_lt
  unfold udpLength
  omega

/-! ### Headers -/

section Headers

variable {buffers : Buffers} {locals : UdpLocals} {pack udpHdr : Acc} {next : List Acc}
  {ipHdr data : List UInt8} {size : Nat}

theorem ipHdrAcc_eq (inside : size ≤ pack.data.length) :
    ipHdrAcc buffers (pack :: next) size = some [⟨pack.address, pack.data.take size⟩] := by
  have cut : bfCut (pack :: next) 0 size = some [⟨pack.address, pack.data.take size⟩] := by
    rcases Nat.eq_zero_or_pos size with rfl | some'
    · rfl
    · exact bfCut_inside some' (by omega)
  have long : size ≤ (pack.data.take size).length := by
    rw [List.length_take]
    exact le_min le_rfl inside
  rw [ipHdrAcc, cut, map_some, bfPackIffLess]
  rw [if_pos long]

theorem findIpHdr_eq (handed : Handed pack next) :
    ∃ ipHdr, findIpHdr buffers (pack :: next) =
        some ([⟨pack.address, pack.data.take (hdrLen pack.data)⟩], ipHdr) ∧
      20 ≤ ipHdr.length ∧ SameBytes 20 ipHdr (bytes (pack :: next)) := by
  have complete := handed.complete
  have front : ∀ {count}, 20 ≤ count → 20 ≤ (pack.data.take count).length ∧
      SameBytes 20 (pack.data.take count) (bytes (pack :: next)) := by
    intro count long
    refine ⟨by rw [List.length_take]; omega, fun i less => ?_⟩
    rw [getD_bytes (by omega), List.getD_eq_getElem?_getD, List.getElem?_take_of_lt (by omega),
      List.getD_eq_getElem?_getD]
  have length : hdrLen (pack.data.take 20) = hdrLen pack.data := by
    unfold hdrLen
    rw [(front le_rfl).2 0 (by omega), getD_bytes (by omega)]
  unfold findIpHdr
  rw [ipHdrAcc_eq complete, bind_some]
  dsimp only
  rw [if_neg (Nat.not_lt.mpr (front le_rfl).1), length]
  split
  case isTrue twenty =>
    rw [twenty]
    exact ⟨_, rfl, front le_rfl⟩
  case isFalse =>
    rw [ipHdrAcc_eq handed.inside, bind_some]
    refine ⟨_, rfl, ?_⟩
    split
    case isTrue => exact ⟨complete, sameBytes_bytes complete⟩
    case isFalse long => exact front (Nat.le_of_not_lt long)

end Headers

/-! ### The checksum -/

section Checksum

variable {buffers : Buffers} {locals : UdpLocals} {udpHdr : Acc} {next : List Acc}
  {ipHdr data : List UInt8} {odd : Bool}

theorem udpWrong_eq (header : SameBytes 20 ipHdr data) (long : 8 ≤ udpHdr.data.length)
    (payload : bytes (udpHdr :: next) = ipPayload data) (small : Buffered (udpHdr :: next)) :
    ∃ wrong, udpWrong locals ipHdr udpHdr next = some wrong ∧
      (wrong = true ↔ ¬UdpSumRight data) := by
  have front : SameBytes 8 udpHdr.data (ipPayload data) := payload ▸ sameBytes_bytes long
  unfold udpWrong UdpSumRight
  rw [front.getU16 (by decide)]
  split
  case isTrue none => exact ⟨false, rfl, iff_of_false Bool.false_ne_true (not_not.mpr (.inl none))⟩
  case isFalse some' =>
    obtain ⟨sum, summed, -, same⟩ := @same_udpPackOneCsum locals.byteBuf udpHdr next
      fun acc member => (small acc member).trans (by decide)
    rw [payload, ← wordSum_padded] at same
    have continued {prev : UInt16} {total : Nat} (so : Same 256 prev.toNat total) (address i size : Nat)
        (hdr : List UInt8) (short : size ≤ 60) (even : size % 2 = 0) :
        Same 256 (oneCSum prev address (field hdr i size)).toNat
          (total + wordSum (field hdr i size)) := by
      refine same_continued so ?_ ?_
      · rwa [length_field]
      · rwa [length_field]
    have total := continued same locals.srcAddr 12 4 data (by decide) (by decide)
    have total := continued total locals.dstAddr 16 4 data (by decide) (by decide)
    have total := @same_continued [0, data.getD 9 0] _ _ locals.u16 total
      (show 2 ≤ 60 by decide) (show 2 % 2 = 0 from rfl)
    have total := continued total (udpHdr.address + 4) 4 2 (ipPayload data) (by decide)
      (by decide)
    rw [udpChksum, summed, map_some, map_some, header.field (by decide),
      header.field (by decide), header 9 (by decide), front.field (by decide)]
    refine ⟨_, rfl, ?_⟩
    rw [decide_eq_true_iff, complement_ne_zero, ne_eq, ones_iff total, or_iff_right some', not_iff_not]
    refine and_iff_left fun zero => some' ?_
    -- the checksum itself is not zero
    have none : weighBytes false (ipPayload data) = 0 := by
      rw [wordSum_padded] at zero
      omega
    unfold getU16
    rw [weighBytes_eq_zero none, weighBytes_eq_zero none]
    rfl

end Checksum

/-! ### The datagram -/

section Datagram

variable {buffers : Buffers} {locals : UdpLocals} {port : UdpPort} {pack udpHdr : Acc}
  {next rest : List Acc} {ipHdr : List UInt8} {noIpoptPack : UserPack}

section

variable (handed : Handed pack next)
include handed

theorem addOptions_eq (long : 20 ≤ hdrLen pack.data)
    (plain : noIpoptPack.opts = [] ∧ noIpoptPack.hdr.ipOptLen = 0) :
    ∃ ipoptPack, addOptions [⟨pack.address, pack.data.take (hdrLen pack.data)⟩]
        (hdrLen pack.data) noIpoptPack = some ipoptPack ∧
      ipoptPack.opts = ((bytes (pack :: next)).take (hdrLen pack.data)).drop 20 ∧
      ipoptPack.hdr.ipOptLen.toNat + 20 = hdrLen pack.data ∧
      ipoptPack.data = noIpoptPack.data ∧
      ipoptPack.hdr = { noIpoptPack.hdr with ipOptLen := ipoptPack.hdr.ipOptLen } := by
  have inside := handed.inside
  have short := hdrLen_le pack.data
  have header : (bytes (pack :: next)).take (hdrLen pack.data) =
      pack.data.take (hdrLen pack.data) := by
    rw [bytes_cons, List.take_append_of_le_length inside]
  have length : (pack.data.take (hdrLen pack.data)).length = hdrLen pack.data := by
    rw [List.length_take]
    exact Nat.min_eq_left inside
  rw [header]
  unfold addOptions
  split
  case isTrue twenty =>
    refine ⟨noIpoptPack, rfl, ?_, ?_, rfl, rfl⟩
    · rw [plain.1, List.drop_eq_nil_of_le (by omega)]
    · rw [plain.2, twenty]
      rfl
  case isFalse more =>
    have size : sizeSub (hdrLen pack.data) 20 = hdrLen pack.data - 20 :=
      sizeSub_eq long (by omega)
    rw [size, bfCut_inside (by omega) (by change _ ≤ (pack.data.take _).length; omega),
      bind_some]
    refine ⟨_, rfl, ?_, ?_, rfl, rfl⟩
    · refine List.take_of_length_le ?_
      rw [List.length_drop]
      exact (congrArg (· - 20) length).le
    · change (UInt16.ofNat (hdrLen pack.data - 20)).toNat + 20 = hdrLen pack.data
      rw [UInt16.toNat_ofNat']
      omega

theorem addOptions_none (short : hdrLen pack.data < 20) :
    addOptions [⟨pack.address, pack.data.take (hdrLen pack.data)⟩] (hdrLen pack.data)
      noIpoptPack = none := by
  have length : (pack.data.take (hdrLen pack.data)).length = hdrLen pack.data := by
    rw [List.length_take]
    exact Nat.min_eq_left handed.inside
  unfold addOptions
  rw [if_neg short.ne, Option.bind_eq_none_iff]
  intro cut found
  have some' : 0 < sizeSub (hdrLen pack.data) 20 := by
    rw [sizeSub_wraps short]
    omega
  have inside := le_of_bfCut some' found
  rw [length_bytes_cons] at inside
  change _ ≤ (pack.data.take (hdrLen pack.data)).length + 0 at inside
  omega

/-- The datagram is passed to the users if its length is that of a header at least, and so is the
one of the header of the packet. -/
theorem udpPass_eq (header : SameBytes 20 ipHdr (bytes (pack :: next)))
    (long : 8 ≤ udpHdr.data.length)
    (payload : bytes (udpHdr :: rest) = ipPayload (bytes (pack :: next)))
    (inside : udpLength udpHdr.data ≤ (ipPayload (bytes (pack :: next))).length) :
    (8 ≤ udpLength udpHdr.data ∧ 20 ≤ hdrLen pack.data →
      ∃ noIpoptPack ipoptPack queued unreachable,
        udpPass buffers port [⟨pack.address, pack.data.take (hdrLen pack.data)⟩] ipHdr udpHdr
            rest = some (.passed noIpoptPack ipoptPack queued unreachable) ∧
          UdpRight (bytes (pack :: next)) noIpoptPack ipoptPack) ∧
    (¬(8 ≤ udpLength udpHdr.data ∧ 20 ≤ hdrLen pack.data) →
      udpPass buffers port [⟨pack.address, pack.data.take (hdrLen pack.data)⟩] ipHdr udpHdr
        rest = none) := by
  have front : SameBytes 8 udpHdr.data (ipPayload (bytes (pack :: next))) :=
    payload ▸ sameBytes_bytes long
  have length : udpLength udpHdr.data = udpLength (ipPayload (bytes (pack :: next))) := by
    unfold udpLength
    rw [front 4 (by decide), front 5 (by decide)]
  have claimed : hdrLen ipHdr = hdrLen pack.data := by
    rw [← @hdrLen_bytes pack next handed.complete]
    unfold hdrLen
    rw [header 0 (by decide)]
  have small := udpLength_lt udpHdr.data
  have total : (ipPayload (bytes (pack :: next))).length < 2 ^ 32 := by
    unfold ipPayload
    rw [List.length_drop]
    exact (Nat.sub_le _ _).trans_lt handed.small
  unfold udpPass
  dsimp only
  rw [claimed]
  constructor
  · rintro ⟨least, complete⟩
    have size : sizeSub (udpLength udpHdr.data) 8 = udpLength udpHdr.data - 8 :=
      sizeSub_eq least (by omega)
    obtain ⟨cut, found⟩ := @exists_bfCut udpHdr rest 8 (udpLength udpHdr.data - 8)
      (by rw [payload]; omega)
    obtain ⟨ipoptPack, added, opts, optLen, same⟩ :=
      @addOptions_eq _ _ ⟨udpIoHdr ipHdr udpHdr.data, [], bytes cut⟩ handed complete ⟨rfl, rfl⟩
    rw [size, found, bind_some, added, map_some]
    refine ⟨_, _, _, _, rfl, ?_, ?_, ⟨rfl, rfl⟩, ?_, ?_, same⟩
    · change bytes cut = _
      rw [bfCut_eq found, payload, length]
    · change (UInt16.ofNat (sizeSub (udpLength udpHdr.data) 8)).toNat + 8 = _
      rw [size, UInt16.toNat_ofNat', ← length]
      omega
    · rw [opts, hdrLen_bytes handed.complete]
    · rw [optLen, hdrLen_bytes handed.complete]
  · intro wrong
    rw [Option.bind_eq_none_iff]
    intro cut found
    by_cases least : 8 ≤ udpLength udpHdr.data
    · have short : hdrLen pack.data < 20 := by omega
      rw [addOptions_none handed short]
      rfl
    · -- the size of the data wraps, and is larger than any chain
      have wraps := @sizeSub_wraps (udpLength udpHdr.data) 8 (by omega)
      have inside := le_of_bfCut (by omega) found
      rw [payload] at inside
      omega

end

theorem safe_of_dropped
    (dropped : udpIpArrived buffers locals port (pack :: next) (bytes (pack :: next)).length =
      some .dropped) : UdpSafe buffers locals port (pack :: next) :=
  ⟨.dropped, dropped, fun _ => rfl, fun _ _ _ _ wrong => by cases wrong⟩

theorem not_safe_of_none
    (failed : udpIpArrived buffers locals port (pack :: next) (bytes (pack :: next)).length =
      none) : ¬UdpSafe buffers locals port (pack :: next) := by
  rintro ⟨arrival, arrived, -⟩
  rw [failed] at arrived
  cases arrived

theorem udpIpArrived_eq (handed : Handed pack next) :
    ∃ ipHdr, 20 ≤ ipHdr.length ∧ SameBytes 20 ipHdr (bytes (pack :: next)) ∧
      udpIpArrived buffers locals port (pack :: next) (bytes (pack :: next)).length =
        (bfDelhead (pack :: next) (hdrLen (bytes (pack :: next)))).bind fun udpAcc =>
          if (ipPayload (bytes (pack :: next))).length < 8 then some .dropped
          else
            udpCheck buffers locals port [⟨pack.address, pack.data.take (hdrLen pack.data)⟩] ipHdr
              (bfPackIffLess buffers.toPacking udpAcc 8)
              (ipPayload (bytes (pack :: next))).length := by
  obtain ⟨ipHdr, found, complete, header⟩ := @findIpHdr_eq buffers pack next handed
  refine ⟨ipHdr, complete, header, ?_⟩
  have claimed : hdrLen ipHdr = hdrLen (bytes (pack :: next)) := by
    unfold hdrLen
    rw [header 0 (by decide)]
  have inside : hdrLen (bytes (pack :: next)) ≤ (bytes (pack :: next)).length := by
    rw [hdrLen_bytes handed.complete, length_bytes_cons]
    exact handed.inside.trans (Nat.le_add_right _ _)
  have size : sizeSub (bytes (pack :: next)).length (hdrLen (bytes (pack :: next))) =
      (ipPayload (bytes (pack :: next))).length := by
    rw [sizeSub_eq inside handed.small, ipPayload, List.length_drop]
  unfold udpIpArrived
  rw [found, bind_some]
  dsimp only
  rw [claimed, size]

theorem exists_udpHdr {udpAcc : List Acc} (handed : Handed pack next)
    (left : bfDelhead (pack :: next) (hdrLen (bytes (pack :: next))) = some udpAcc)
    (long : 8 ≤ (ipPayload (bytes (pack :: next))).length) :
    ∃ udpHdr rest, bfPackIffLess buffers.toPacking udpAcc 8 = udpHdr :: rest ∧
      8 ≤ udpHdr.data.length ∧ bytes (udpHdr :: rest) = ipPayload (bytes (pack :: next)) ∧
      Buffered (udpHdr :: rest) := by
  obtain ⟨payload, first, others, rfl⟩ := bfDelhead_eq left
  change _ = ipPayload (bytes (pack :: next)) at payload
  obtain ⟨udpHdr, rest, packed, complete⟩ := @bfPackIffLess_first buffers first others 8
    (by rw [payload]; exact long) (by decide)
  refine ⟨udpHdr, rest, packed, complete, ?_, ?_⟩
  · rw [← packed, bytes_bfPackIffLess, payload]
  · exact packed ▸ bfPackIffLess_buffered (bfDelhead_buffered handed.buffered left)

/-- A datagram that is longer than its packet, or has a wrong checksum, is dropped; the others are
passed on. -/
theorem udpIpArrived_long (buffers : Buffers) (locals : UdpLocals) (port : UdpPort)
    (handed : Handed pack next) (long : 8 ≤ (ipPayload (bytes (pack :: next))).length) :
    ∃ ipHdr udpHdr rest, SameBytes 20 ipHdr (bytes (pack :: next)) ∧ 8 ≤ udpHdr.data.length ∧
      bytes (udpHdr :: rest) = ipPayload (bytes (pack :: next)) ∧
      udpLength udpHdr.data = udpLength (ipPayload (bytes (pack :: next))) ∧
      ((ipPayload (bytes (pack :: next))).length < udpLength (ipPayload (bytes (pack :: next))) ∨
          ¬UdpSumRight (bytes (pack :: next)) →
        udpIpArrived buffers locals port (pack :: next) (bytes (pack :: next)).length =
          some .dropped) ∧
      (udpLength (ipPayload (bytes (pack :: next))) ≤ (ipPayload (bytes (pack :: next))).length →
          UdpSumRight (bytes (pack :: next)) →
        udpIpArrived buffers locals port (pack :: next) (bytes (pack :: next)).length =
          udpPass buffers port [⟨pack.address, pack.data.take (hdrLen pack.data)⟩] ipHdr udpHdr
            rest) := by
  obtain ⟨ipHdr, complete, header, run⟩ :=
    @udpIpArrived_eq buffers locals port pack next handed
  have some' : hdrLen (bytes (pack :: next)) < (bytes (pack :: next)).length := by
    by_contra less
    rw [ipPayload, List.drop_eq_nil_of_le (Nat.le_of_not_lt less)] at long
    cases long
  obtain ⟨udpAcc, left⟩ := bfDelhead_isSome.mpr some'
  rw [left, bind_some, if_neg (Nat.not_lt.mpr long)] at run
  obtain ⟨udpHdr, rest, packed, first, payload, small⟩ :=
    @exists_udpHdr buffers pack next udpAcc handed left long
  have front : SameBytes 8 udpHdr.data (ipPayload (bytes (pack :: next))) :=
    payload ▸ sameBytes_bytes first
  have length : udpLength udpHdr.data = udpLength (ipPayload (bytes (pack :: next))) := by
    unfold udpLength
    rw [front 4 (by decide), front 5 (by decide)]
  obtain ⟨wrong, tested, meaning⟩ := @udpWrong_eq locals udpHdr rest ipHdr _ header first payload
    small
  rw [packed] at run
  unfold udpCheck at run
  dsimp only at run
  rw [if_neg (Nat.not_lt.mpr first), if_neg (Nat.not_lt.mpr complete), tested, bind_some,
    length] at run
  refine ⟨ipHdr, udpHdr, rest, header, first, payload, length, ?_, fun inside right => ?_⟩
  · rintro (large | sum)
    · rwa [if_pos large] at run
    · rwa [if_pos (meaning.mpr sum), ite_self] at run
  · rwa [if_neg (Nat.not_lt.mpr inside), if_neg fun dropped => meaning.mp dropped right] at run

/-- What was received is handled safely exactly if something follows the header, and a datagram that
passes the other tests has at least the length of a header and comes in a packet with a complete
one. -/
theorem udpInput_iff (buffers : Buffers) (locals : UdpLocals) (port : UdpPort) (pack : Acc)
    (next : List Acc) (handed : Handed pack next) :
    UdpSafe buffers locals port (pack :: next) ↔ UdpFits (bytes (pack :: next)) := by
  by_cases short : (ipPayload (bytes (pack :: next))).length < 8
  · obtain ⟨ipHdr, -, -, run⟩ := @udpIpArrived_eq buffers locals port pack next handed
    by_cases some' : ipPayload (bytes (pack :: next)) = []
    · refine iff_of_false (not_safe_of_none ?_) fun fits => fits.payload some'
      rw [run, Option.bind_eq_none_iff]
      intro udpAcc left
      have less := bfDelhead_isSome.mp ⟨udpAcc, left⟩
      exact absurd (List.drop_eq_nil_iff.mp some') (Nat.not_le.mpr less)
    · obtain ⟨udpAcc, left⟩ :=
        (@bfDelhead_isSome (pack :: next) (hdrLen (bytes (pack :: next)))).mpr
          (Nat.lt_of_not_le fun all => some' (List.drop_eq_nil_of_le all))
      rw [left, bind_some, if_pos short] at run
      exact iff_of_true (safe_of_dropped run)
        ⟨some', fun long => absurd short (Nat.not_lt.mpr long)⟩
  have some' : ipPayload (bytes (pack :: next)) ≠ [] := fun none => short (by rw [none]; decide)
  obtain ⟨ipHdr, udpHdr, rest, header, first, payload, length, drops, keeps⟩ :=
    @udpIpArrived_long pack next buffers locals port handed (Nat.le_of_not_lt short)
  by_cases large : (ipPayload (bytes (pack :: next))).length <
      udpLength (ipPayload (bytes (pack :: next)))
  · exact iff_of_true (safe_of_dropped (drops (.inl large)))
      ⟨some', fun _ less => absurd large (Nat.not_lt.mpr less)⟩
  have inside := Nat.le_of_not_lt large
  by_cases sum : UdpSumRight (bytes (pack :: next))
  case neg =>
    exact iff_of_true (safe_of_dropped (drops (.inr sum)))
      ⟨some', fun _ _ right => absurd right sum⟩
  obtain ⟨passes, fails⟩ := @udpPass_eq buffers port pack udpHdr next rest ipHdr handed header first
    payload (length ▸ inside)
  rw [length, ← @hdrLen_bytes pack next handed.complete] at passes fails
  by_cases fits : 8 ≤ udpLength (ipPayload (bytes (pack :: next))) ∧
      20 ≤ hdrLen (bytes (pack :: next))
  · obtain ⟨noIpoptPack, ipoptPack, queued, unreachable, passed, right⟩ := passes fits
    rw [hdrLen_bytes handed.complete] at passed
    refine iff_of_true ⟨_, (keeps inside sum).trans passed, ?_, ?_⟩ ⟨some', fun _ _ _ => fits⟩
    · omega
    · intro _ _ _ _ same
      obtain ⟨rfl, rfl, -, -⟩ := UdpArrival.passed.inj same
      exact right
  · have failed := fails fits
    rw [hdrLen_bytes handed.complete] at failed
    exact iff_of_false (not_safe_of_none ((keeps inside sum).trans failed)) fun safe =>
      fits (safe.sizes (Nat.le_of_not_lt short) inside sum)

end Datagram

/-- A packet with a datagram of no data, whose header claims a length. -/
def emptyDatagram (length : UInt8) : Acc :=
  ⟨0, [0x45, 0, 0, 28, 0, 0, 0, 0, 64, 17, 0, 0, 10, 0, 0, 1, 10, 0, 0, 2] ++
    [4, 0, 0, 53, 0, length, 0, 0]⟩

theorem handed_emptyDatagram (length : UInt8) : Handed (emptyDatagram length) [] where
  complete := by
    change 20 ≤ 28
    omega
  inside := by
    change ((0x45 : UInt8) &&& 0xf).toNat * 4 ≤ 28
    decide
  small := by
    change 28 < 2 ^ 32
    omega
  buffered := List.forall_mem_singleton.mpr (by change 28 ≤ 32 * 1024; omega)

/-- A datagram with the length 4 makes the cut of its data fail. -/
theorem short_datagram_fails :
    ¬∀ (buffers : Buffers) (locals : UdpLocals) (port : UdpPort) (pack : Acc) (next : List Acc),
      Handed pack next → UdpSafe buffers locals port (pack :: next) := by
  intro safe
  refine not_safe_of_none (Option.isNone_iff_eq_none.mp ?_) (safe buffers512 ⟨0, 0, 0, 0⟩
    ⟨0, 0, [], fun _ => []⟩ (emptyDatagram 4) [] (handed_emptyDatagram 4))
  decide

/-- A datagram with the length 8 is handled safely. -/
theorem empty_datagram_safe :
    UdpSafe buffers512 ⟨0, 0, 0, 0⟩ ⟨0, 0, [], fun _ => []⟩ [emptyDatagram 8] :=
  (udpInput_iff buffers512 ⟨0, 0, 0, 0⟩ ⟨0, 0, [], fun _ => []⟩ (emptyDatagram 8) []
    (handed_emptyDatagram 8)).mpr ⟨by decide, fun _ _ _ => by decide⟩

end Minix.Inet
