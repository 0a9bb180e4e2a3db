/-
This file models how ICMP errors are made, `icmp_err_pack` and the functions that send its result
(`inet/generic/icmp.c`), and proves that they and the replies to echo requests are well formed.

What a new buffer holds before it is filled in is a parameter.
-/

import Minix.Inet.IcmpInput

namespace Minix.Inet

open OnesComplement (Same)

/-! ### The model -/

/-- `icmp_hdr_t`, as far as `ih_dun`. -/
structure IcmpHdr where
  ihType : UInt8
  ihCode : UInt8
  ihChksum : UInt16
  ihHun : UInt32

def IcmpHdr.toBytes (hdr : IcmpHdr) : List UInt8 :=
  [hdr.ihType, hdr.ihCode, hdr.ihChksum.toUInt8, (hdr.ihChksum >>> 8).toUInt8] ++
    longBytes hdr.ihHun

/-- What `icmp_err_pack` makes: the IP header, and the accessor with the ICMP header, whose address
is kept for the sums that are still to be taken of it. -/
structure IcmpErr where
  ipPack : Acc
  address : Nat
  icmpHdr : IcmpHdr
  body : List UInt8
  next : List Acc

def IcmpErr.pack (err : IcmpErr) : List Acc :=
  err.ipPack :: ⟨err.address, err.icmpHdr.toBytes ++ err.body⟩ :: err.next

/-- Networks with hosts. -/
def Nettype.hosts : Nettype → Bool
  | .classA | .local' | .classB | .classC => true
  | _ => false

/-- The source of the packet is no address of a host. -/
def invalidSource (dest : UInt32) : Bool :=
  let netmask := ipNetmask (ipNettype dest)
  !(ipNettype dest).hosts || dest &&& ~~~netmask = 0 || dest &&& ~~~netmask = ~~~netmask

/-- How much of a packet is taken: the header and 64 bits. -/
def quotedSize (ipHdr : List UInt8) : Nat :=
  if hdrLen ipHdr + 8 < totalLength ipHdr then hdrLen ipHdr + 8 else totalLength ipHdr

/-- The IP header of an error. -/
def errIpHdr (fresh : Nat → UInt8) (size : Nat) (ipHdr : List UInt8) : List UInt8 :=
  [5, 0, .ofNat (size / 256), .ofNat size, fresh 4, fresh 5, 0, 0, 60, 1, fresh 10, fresh 11,
    fresh 12, fresh 13, fresh 14, fresh 15] ++ field ipHdr 12 4

/-- The end of `icmp_err_pack`: the headers are put before what is quoted. -/
def icmpErrHdrs (buffers : Buffers) (locals : IcmpLocals) (ipHdr : List UInt8)
    (quoted : List Acc) : Option IcmpErr :=
  match bfPackIffLess buffers.toPacking
      (buffers.append [⟨locals.replIcmp, (List.range 8).map locals.fresh⟩] quoted) 8 with
  | [] => none
  | icmpPack :: next =>
    if icmpPack.data.length < 8 then none
    else
      let zero : IcmpHdr := ⟨0, 0, 0, 0⟩
      let body := icmpPack.data.drop 8
      (icmpPackOneCsum locals.byteBuf (⟨icmpPack.address, zero.toBytes ++ body⟩ :: next)).map
        fun sum =>
          { ipPack := ⟨locals.replIpHdr, errIpHdr locals.fresh (20 + (quotedSize ipHdr + 8)) ipHdr⟩
            address := icmpPack.address
            icmpHdr := { zero with ihChksum := ~~~sum }
            body := body
            next := next }

/-- `icmp_err_pack`; the inner result is `none` if the packet is dropped. -/
def icmpErrPack (buffers : Buffers) (locals : IcmpLocals) (pack : List Acc) :
    Option (Option IcmpErr) :=
  match bfPackIffLess buffers.toPacking pack 20 with
  | [] => none
  | ipHdr :: next =>
    if ipHdr.data.length < 20 then none
    else if ipHdr.data.getD 9 0 = 1 ∨ ntohs (getU16 ipHdr.data 6) &&& ihFragoffMask ≠ 0 then
      some none
    else if invalidSource (getU32 ipHdr.data 12) then some none
    else if totalLength ipHdr.data < hdrLen ipHdr.data ∨
        (bytes (ipHdr :: next)).length < totalLength ipHdr.data then some none -- wrong size
    else
      (bfCut (ipHdr :: next) 0 (quotedSize ipHdr.data)).bind fun quoted =>
        (icmpErrHdrs buffers locals ipHdr.data quoted).map some

/-- Set the type and the code, and add them to the sum. -/
def IcmpErr.setType (err : IcmpErr) (type code : UInt8) : IcmpErr :=
  { err with icmpHdr := { err.icmpHdr with
      ihType := type
      ihCode := code
      ihChksum := ~~~oneCSum (~~~err.icmpHdr.ihChksum) err.address [type, code] } }

/-- Set the gateway, and add it to the sum. -/
def IcmpErr.setGateway (err : IcmpErr) (gw : UInt32) : IcmpErr :=
  { err with icmpHdr := { err.icmpHdr with
      ihHun := gw
      ihChksum := ~~~oneCSum (~~~err.icmpHdr.ihChksum) (err.address + 4) (longBytes gw) } }

/-- What the functions that send errors hand to `enqueue_pack`. -/
def icmpSnd (buffers : Buffers) (locals : IcmpLocals) (pack : List Acc)
    (fill : IcmpErr → IcmpErr) : Option (Option (List Acc)) :=
  (icmpErrPack buffers locals pack).map (Option.map fun err => (fill err).pack)

def icmpSndTimeExceeded (buffers : Buffers) (locals : IcmpLocals) (pack : List Acc)
    (code : UInt8) : Option (Option (List Acc)) :=
  icmpSnd buffers locals pack (·.setType 11 code)

def icmpSndRedirect (buffers : Buffers) (locals : IcmpLocals) (pack : List Acc) (code : UInt8)
    (gw : UInt32) : Option (Option (List Acc)) :=
  icmpSnd buffers locals pack fun err => (err.setType 5 code).setGateway gw

def icmpSndUnreachable (buffers : Buffers) (locals : IcmpLocals) (pack : List Acc)
    (code : UInt8) : Option (Option (List Acc)) :=
  icmpSnd buffers locals pack (·.setType 3 code)

/-- The errors that are sent. -/
inductive IcmpError
  | timeExceeded (code : UInt8)
  | redirect (code : UInt8) (gw : UInt32)
  | unreachable (code : UInt8)

def IcmpError.snd (buffers : Buffers) (locals : IcmpLocals) (pack : List Acc) :
    IcmpError → Option (Option (List Acc))
  | .timeExceeded code => icmpSndTimeExceeded buffers locals pack code
  | .redirect code gw => icmpSndRedirect buffers locals pack code gw
  | .unreachable code => icmpSndUnreachable buffers locals pack code

/-- The type and the code of an error. -/
def IcmpError.type : IcmpError → UInt8 × UInt8
  | .timeExceeded code => (11, code)
  | .redirect code _ => (5, code)
  | .unreachable code => (3, code)

/-! ### Well-formed replies -/

/-- A valid echo request. -/
structure EchoRequest (message : List UInt8) : Prop where
  type : message.getD 0 0 = 8
  code : message.getD 1 0 = 0
  complete : 8 ≤ message.length
  chksum : IcmpSumRight message

/-- A reply to the echo request in a packet: behind type, code and checksum, it is what was sent. -/
structure EchoAnswers (data : List UInt8) (ipHdr : Acc) (icmp : List Acc) : Prop where
  hdr : ipHdr.data.length = 20
  proto : ipHdr.data.getD 9 0 = 1
  dst : getU32 ipHdr.data 16 = getU32 data 12
  type : (bytes icmp).getD 0 0 = 0 ∧ (bytes icmp).getD 1 0 = 0
  same : (bytes icmp).drop 4 = (ipPayload data).drop 4
  chksum : IcmpSumRight (bytes icmp)

/-- An error about a packet: it goes to the source, and quotes the header and eight bytes more, or
the whole packet if that is shorter. The packet is no ICMP message itself. -/
structure ErrorQuotes (data : List UInt8) (type : UInt8 × UInt8) (ipHdr : Acc) (icmp : List Acc) :
    Prop where
  other : data.getD 9 0 ≠ 1
  hdr : ipHdr.data.length = 20
  proto : ipHdr.data.getD 9 0 = 1
  dst : getU32 ipHdr.data 16 = getU32 data 12
  type : (bytes icmp).getD 0 0 = type.1 ∧ (bytes icmp).getD 1 0 = type.2
  whole : hdrLen data ≤ totalLength data ∧ totalLength data ≤ data.length
  quoted : (bytes icmp).drop 8 = data.take (min (totalLength data) (hdrLen data + 8))
  chksum : IcmpSumRight (bytes icmp)

/-! ### Checksums -/

section Checksums

variable {message quote : List UInt8} {chksum : UInt16} {hdr : IcmpHdr} {total : Nat}

theorem sumRight_of_same (same : Same 256 (~~~chksum).toNat total)
    (whole : weighBytes false message = total + chksum.toNat) : IcmpSumRight message := by
  have complement := toNat_complement chksum
  have small := chksum.toNat_lt
  obtain ⟨congruent, zero⟩ := same
  change (~~~chksum).toNat % 65535 = total % 65535 at congruent
  unfold IcmpSumRight
  rw [wordSum_padded, whole]
  constructor
  · change _ % 65535 = 0 % 65535
    omega
  · omega

theorem weighBytes_toBytes (hdr : IcmpHdr) (quote : List UInt8) :
    weighBytes false (hdr.toBytes ++ quote) =
      (wordSum [hdr.ihType, hdr.ihCode] + wordSum (longBytes hdr.ihHun) + weighBytes false quote) +
        hdr.ihChksum.toNat := by
  have length : hdr.toBytes.length = 8 := rfl
  have even : (false ^^ hdr.toBytes.length % 2 == 1) = false := by
    rw [length]
    rfl
  have written := toNat_low hdr.ihChksum
  rw [weighBytes_append, even, ← wordSum_eq (by rw [length] : hdr.toBytes.length % 2 = 0)]
  unfold IcmpHdr.toBytes longBytes
  simp only [List.cons_append, List.nil_append, wordSum]
  omega

/-- The checksum in a header stands for the words of the rest. -/
def Sums (hdr : IcmpHdr) (quote : List UInt8) : Prop :=
  Same 256 (~~~hdr.ihChksum).toNat
    (wordSum [hdr.ihType, hdr.ihCode] + wordSum (longBytes hdr.ihHun) + weighBytes false quote)

theorem Sums.right (sums : Sums hdr quote) : IcmpSumRight (hdr.toBytes ++ quote) :=
  sumRight_of_same sums (weighBytes_toBytes hdr quote)

theorem Sums.setType {err : IcmpErr} (sums : Sums err.icmpHdr quote)
    (first : err.icmpHdr.ihType = 0 ∧ err.icmpHdr.ihCode = 0) (type code : UInt8) :
    Sums (err.setType type code).icmpHdr quote := by
  unfold Sums IcmpErr.setType
  dsimp only
  rw [UInt16.not_not]
  have added := @same_continued [type, code] _ _ err.address sums (show 2 ≤ 60 by decide)
    (show 2 % 2 = 0 from rfl)
  rw [first.1, first.2] at added
  have none : wordSum [0, 0] = 0 := rfl
  rw [none] at added
  refine Eq.mp (congrArg (Same 256 _) ?_) added
  omega

theorem Sums.setGateway {err : IcmpErr} (sums : Sums err.icmpHdr quote)
    (first : err.icmpHdr.ihHun = 0) (gw : UInt32) :
    Sums (err.setGateway gw).icmpHdr quote := by
  unfold Sums IcmpErr.setGateway
  dsimp only
  rw [UInt16.not_not]
  have added := @same_continued (longBytes gw) _ _ (err.address + 4) sums
    (show 4 ≤ 60 by decide) (show 4 % 2 = 0 from rfl)
  rw [first] at added
  have none : wordSum (longBytes 0) = 0 := rfl
  rw [none] at added
  refine Eq.mp (congrArg (Same 256 _) ?_) added
  omega

theorem toNat_echoChksum (chksum : UInt16) :
    (echoChksum chksum 8 0).toNat =
      if chksum.toNat ≤ 65527 then chksum.toNat + 8 else chksum.toNat + 8 - 65535 := by
  have small := chksum.toNat_lt
  have complement := toNat_complement chksum
  unfold echoChksum
  rw [complement]
  simp only [Int.shiftRight_eq_div_pow]
  change (UInt16.ofNat _).toNat = _
  rw [UInt16.toNat_ofNat']
  have eight : (8 : UInt16).toNat = 8 := rfl
  have zero : (0 : UInt16).toNat = 0 := rfl
  rw [eight, zero]
  split <;> omega

end Checksums

/-! ### Echo requests -/

section Echo

variable {buffers : Buffers} {locals : IcmpLocals} {pack icmpHdr : Acc} {next rest : List Acc}
  {message : List UInt8}

theorem icmpSwitch_echo {ipHdr : List UInt8} {icmpLen : Nat} {inUse : List IcmpChain}
    (echo : icmpHdr.data.getD 0 0 = 8) :
    icmpSwitch buffers locals ipHdr icmpHdr next icmpLen inUse =
      icmpEchoRequest locals ipHdr icmpHdr next icmpLen inUse := by
  unfold icmpSwitch
  exact if_pos echo

theorem exists_front (long : 4 ≤ message.length) :
    ∃ type code low high, message = type :: code :: low :: high :: message.drop 4 := by
  match message with
  | type :: code :: low :: high :: rest => exact ⟨type, code, low, high, rfl⟩

theorem weighBytes_front (a b c d : UInt8) (rest : List UInt8) :
    weighBytes false (a :: b :: c :: d :: rest) =
      (a.toNat + 256 * b.toNat) + (c.toNat + 256 * d.toNat) + weighBytes false rest := by
  have length : [a, b, c, d].length = 4 := rfl
  have even : (false ^^ [a, b, c, d].length % 2 == 1) = false := by
    rw [length]
    rfl
  have split := @weighBytes_append [a, b, c, d] rest false
  rw [even, ← wordSum_eq (by rw [length] : [a, b, c, d].length % 2 = 0)] at split
  refine split.trans ?_
  simp only [wordSum]
  omega

theorem echoReplHdr_right {icmp : List UInt8} (request : EchoRequest message)
    (front : SameBytes 4 icmp message) :
    IcmpSumRight (echoReplHdr icmp ++ message.drop 4) := by
  obtain ⟨type, code, low, high, same⟩ := exists_front (request.complete.trans' (by decide))
  obtain ⟨multiple, -⟩ := request.chksum
  have kind := request.type
  have code' := request.code
  rw [same] at kind code'
  change type = 8 at kind
  change code = 0 at code'
  subst kind code'
  have field : getU16 icmp 0 = 8 ∧ (getU16 icmp 2).toNat = low.toNat + 256 * high.toNat := by
    rw [front.getU16 (by decide), front.getU16 (by decide), same]
    have type : getU16 [8, 0] 0 = 8 := by decide
    exact ⟨type, toNat_getWord low high⟩
  rw [wordSum_padded, same, weighBytes_front] at multiple
  change _ % 65535 = 0 % 65535 at multiple
  unfold echoReplHdr IcmpSumRight
  rw [field.1]
  have reply := toNat_echoChksum (getU16 icmp 2)
  have small := (getU16 icmp 2).toNat_lt
  rw [field.2] at reply small
  generalize echoChksum (getU16 icmp 2) 8 0 = chksum at reply
  have written := toNat_low chksum
  have sum : weighBytes false (setU16 [0, 0, 0, 0] 2 chksum ++ message.drop 4) =
      (0 : UInt8).toNat + 256 * (0 : UInt8).toNat + chksum.toNat +
        weighBytes false (message.drop 4) := by
    rw [← written]
    exact weighBytes_front 0 0 _ _ _
  rw [wordSum_padded, sum, reply]
  change _ % 65535 = 0 % 65535 ∧ _
  have eight : (8 : UInt8).toNat = 8 := rfl
  have zero : (0 : UInt8).toNat = 0 := rfl
  rw [eight, zero] at multiple
  rw [zero]
  split <;> omega

theorem makeReplIp_fields {fresh : Nat → UInt8} {ipHdr data : List UInt8}
    (same : SameBytes 20 ipHdr data) :
    (makeReplIp fresh ipHdr).length = 20 ∧ (makeReplIp fresh ipHdr).getD 9 0 = 1 ∧
      getU32 (makeReplIp fresh ipHdr) 16 = getU32 data 12 := by
  refine ⟨rfl, rfl, ?_⟩
  change getU32 ipHdr 12 = _
  unfold getU32
  rw [same 12 (by decide), same 13 (by decide), same 14 (by decide), same 15 (by decide)]

theorem processData_answers (handed : Handed pack next)
    (request : EchoRequest (ipPayload (bytes (pack :: next)))) :
    ∃ ipHdr icmp, processData buffers locals (pack :: next) =
        some (.replied (ipHdr :: icmp), []) ∧
      EchoAnswers (bytes (pack :: next)) ipHdr icmp := by
  obtain ⟨ipHdr, icmpHdr, rest, header, whole, least, -, -, run⟩ :=
    @processData_eq buffers locals pack next handed (request.complete.trans' (by decide))
  have front : SameBytes 4 icmpHdr.data (ipPayload (bytes (pack :: next))) :=
    whole ▸ sameBytes_bytes least
  obtain ⟨cut, same, replied⟩ := @icmpEchoRequest_replies locals icmpHdr rest ipHdr _
    (ipPayload_lt handed) (congrArg _ whole) ((front 1 (by decide)).trans request.code)
    request.complete
  rw [whole] at same
  rw [if_pos request.chksum, icmpSwitch_echo ((front 0 (by decide)).trans request.type),
    replied] at run
  obtain ⟨length, proto, dst⟩ := @makeReplIp_fields locals.fresh ipHdr _ header
  have message : bytes (⟨locals.replIcmp, echoReplHdr icmpHdr.data⟩ :: cut) =
      echoReplHdr icmpHdr.data ++ (ipPayload (bytes (pack :: next))).drop 4 := by
    rw [bytes_cons, same]
  refine ⟨_, _, run, length, proto, dst, ?_, ?_, ?_⟩
  · rw [message]
    exact ⟨rfl, rfl⟩
  · rw [message]
    rfl
  · rw [message]
    exact echoReplHdr_right request front

end Echo

/-! ### Errors -/

section Errors

variable {buffers : Buffers} {locals : IcmpLocals} {pack : Acc} {next quoted : List Acc}
  {data ipHdr : List UInt8} {err : IcmpErr}

/-- The headers that are put before what is quoted. -/
structure Filled (ipHdr quote : List UInt8) (err : IcmpErr) : Prop where
  hdr : err.ipPack.data.length = 20
  proto : err.ipPack.data.getD 9 0 = 1
  dst : getU32 err.ipPack.data 16 = getU32 ipHdr 12
  quoted : err.body ++ bytes err.next = quote
  sums : Sums err.icmpHdr quote

/-- The headers before their type is set. -/
def Blank (err : IcmpErr) : Prop :=
  (err.icmpHdr.ihType = 0 ∧ err.icmpHdr.ihCode = 0) ∧ err.icmpHdr.ihHun = 0

theorem icmpErrHdrs_filled (small : Buffered quoted) :
    ∃ err, icmpErrHdrs buffers locals ipHdr quoted = some err ∧ Filled ipHdr (bytes quoted) err ∧
      Blank err := by
  have length : ((List.range 8).map locals.fresh).length = 8 := by
    rw [List.length_map, List.length_range]
  have front : Buffered [⟨locals.replIcmp, (List.range 8).map locals.fresh⟩] :=
    List.forall_mem_singleton.mpr (by dsimp only; rw [length]; decide)
  have same := buffers.bytes_append [⟨locals.replIcmp, (List.range 8).map locals.fresh⟩] quoted
  have buffered := buffers.append_buffered _ _ front small
  unfold icmpErrHdrs
  generalize buffers.append [⟨locals.replIcmp, (List.range 8).map locals.fresh⟩] quoted = chain
    at same buffered
  rw [bytes_singleton] at same
  have total := congrArg List.length same
  rw [List.length_append, length] at total
  cases chain with
  | nil =>
    change 0 = _ at total
    omega
  | cons first rest =>
    obtain ⟨icmpPack, next, packed, long⟩ := @bfPackIffLess_first buffers first rest 8
      (by omega) (by decide)
    have buffered' : Buffered (icmpPack :: next) := packed ▸ bfPackIffLess_buffered buffered
    have whole : bytes (icmpPack :: next) = bytes (first :: rest) := packed ▸ bytes_bfPackIffLess
    have quote : icmpPack.data.drop 8 ++ bytes next = bytes quoted := by
      have dropped := congrArg (List.drop 8) (whole.trans same)
      rw [bytes_cons, List.drop_append_of_le_length long, List.drop_left' length] at dropped
      exact dropped
    obtain ⟨here, behind⟩ := List.forall_mem_cons.mp buffered'
    have zeros : Buffered (⟨icmpPack.address,
        (⟨0, 0, 0, 0⟩ : IcmpHdr).toBytes ++ icmpPack.data.drop 8⟩ :: next) := by
      refine List.forall_mem_cons.mpr ⟨?_, behind⟩
      change ((⟨0, 0, 0, 0⟩ : IcmpHdr).toBytes ++ icmpPack.data.drop 8).length ≤ _
      rw [List.length_append, List.length_drop]
      change 8 + (icmpPack.data.length - 8) ≤ _
      omega
    obtain ⟨sum, -, summed, sums⟩ := @same_udpPackOneCsum locals.byteBuf _ next
      fun acc member => (zeros acc member).trans (by decide)
    rw [packed]
    dsimp only
    rw [if_neg (Nat.not_lt.mpr long), summed, Option.map_some]
    refine ⟨_, rfl, ⟨rfl, rfl, ?_, quote, ?_⟩, ⟨rfl, rfl⟩, rfl⟩
    · rfl
    · rw [bytes_cons, List.append_assoc, quote, weighBytes_toBytes] at sums
      unfold Sums
      rw [UInt16.not_not]
      exact sums

theorem quotedSize_eq (same : SameBytes 20 ipHdr data) :
    quotedSize ipHdr = min (totalLength data) (hdrLen data + 8) ∧
      totalLength ipHdr = totalLength data ∧ hdrLen ipHdr = hdrLen data := by
  have total : totalLength ipHdr = totalLength data := by
    unfold totalLength
    rw [same 2 (by decide), same 3 (by decide)]
  have length : hdrLen ipHdr = hdrLen data := by
    unfold hdrLen
    rw [same 0 (by decide)]
  refine ⟨?_, total, length⟩
  unfold quotedSize
  rw [total, length]
  split <;> omega

/-- An error message quotes the header and eight bytes of its packet. -/
theorem icmpErrPack_filled (complete : 20 ≤ (bytes (pack :: next)).length)
    (small : Buffered (pack :: next)) :
    ∃ result, icmpErrPack buffers locals (pack :: next) = some result ∧
      ∀ err, result = some err → (bytes (pack :: next)).getD 9 0 ≠ 1 ∧
        (hdrLen (bytes (pack :: next)) ≤ totalLength (bytes (pack :: next)) ∧
          totalLength (bytes (pack :: next)) ≤ (bytes (pack :: next)).length) ∧
        Filled (bytes (pack :: next)) ((bytes (pack :: next)).take
          (min (totalLength (bytes (pack :: next))) (hdrLen (bytes (pack :: next)) + 8))) err ∧
        Blank err := by
  obtain ⟨ipHdr, rest, packed, long⟩ := @bfPackIffLess_first buffers pack next 20 complete
    (by decide)
  have whole : bytes (ipHdr :: rest) = bytes (pack :: next) := packed ▸ bytes_bfPackIffLess
  have buffered : Buffered (ipHdr :: rest) := packed ▸ bfPackIffLess_buffered small
  have same : SameBytes 20 ipHdr.data (bytes (pack :: next)) := whole ▸ sameBytes_bytes long
  obtain ⟨size, total, header⟩ := quotedSize_eq same
  have dropped : ∀ err, (none : Option IcmpErr) = some err →
      (bytes (pack :: next)).getD 9 0 ≠ 1 ∧
        (hdrLen (bytes (pack :: next)) ≤ totalLength (bytes (pack :: next)) ∧
          totalLength (bytes (pack :: next)) ≤ (bytes (pack :: next)).length) ∧
        Filled (bytes (pack :: next)) ((bytes (pack :: next)).take
          (min (totalLength (bytes (pack :: next))) (hdrLen (bytes (pack :: next)) + 8))) err ∧
        Blank err := fun err wrong => by cases wrong
  unfold icmpErrPack
  rw [packed]
  dsimp only
  rw [if_neg (Nat.not_lt.mpr long)]
  split
  case isTrue => exact ⟨none, rfl, dropped⟩
  case isFalse other =>
    split
    case isTrue => exact ⟨none, rfl, dropped⟩
    case isFalse =>
      split
      case isTrue => exact ⟨none, rfl, dropped⟩
      case isFalse sizes =>
        rw [total, header, whole] at sizes
        obtain ⟨least, most⟩ := not_or.mp sizes
        obtain ⟨quoted, cut⟩ := @exists_bfCut ipHdr rest 0 (quotedSize ipHdr.data)
          (by rw [size, whole]; omega)
        have quote := bfCut_eq cut
        rw [whole, List.drop_zero, size] at quote
        obtain ⟨err, made, filled, blank⟩ :=
          @icmpErrHdrs_filled buffers locals quoted ipHdr.data (bfCut_buffered buffered cut)
        rw [cut, Option.bind_some, made, Option.map_some]
        refine ⟨some err, rfl, fun err' found => ?_⟩
        obtain rfl := Option.some.inj found
        refine ⟨?_, by omega, ⟨filled.hdr, filled.proto, ?_, ?_, ?_⟩, blank⟩
        · rw [← same 9 (by decide)]
          exact fun icmp => other (.inl icmp)
        · rw [filled.dst]
          unfold getU32
          rw [same 12 (by decide), same 13 (by decide), same 14 (by decide), same 15 (by decide)]
        · rw [filled.quoted, quote]
        · rw [← quote]
          exact filled.sums

/-- What is done to the headers before they are sent keeps the sum. -/
def Fills (fill : IcmpErr → IcmpErr) (type : UInt8 × UInt8) : Prop :=
  ∀ err ipHdr quote, Filled ipHdr quote err → Blank err →
    Filled ipHdr quote (fill err) ∧ (fill err).icmpHdr.ihType = type.1 ∧
      (fill err).icmpHdr.ihCode = type.2

theorem fills_setType (type code : UInt8) : Fills (·.setType type code) (type, code) :=
  fun _ _ _ filled blank => ⟨{ filled with sums := filled.sums.setType blank.1 type code }, rfl, rfl⟩

theorem fills_setGateway (type code : UInt8) (gw : UInt32) :
    Fills (fun err => (err.setType type code).setGateway gw) (type, code) :=
  fun _ _ _ filled blank => ⟨{ filled with
    sums := (filled.sums.setType blank.1 type code).setGateway blank.2 gw }, rfl, rfl⟩

theorem icmpSnd_quotes {fill : IcmpErr → IcmpErr} {type : UInt8 × UInt8} (fills : Fills fill type)
    (complete : 20 ≤ (bytes (pack :: next)).length) (small : Buffered (pack :: next)) :
    ∃ result, icmpSnd buffers locals (pack :: next) fill = some result ∧
      ∀ reply, result = some reply → ∃ ipHdr icmp, reply = ipHdr :: icmp ∧
        ErrorQuotes (bytes (pack :: next)) type ipHdr icmp := by
  obtain ⟨result, made, quotes⟩ := @icmpErrPack_filled buffers locals pack next complete small
  unfold icmpSnd
  rw [made, Option.map_some]
  refine ⟨_, rfl, fun reply sent => ?_⟩
  obtain ⟨err, found, rfl⟩ := Option.map_eq_some_iff.mp sent
  obtain ⟨other, whole, blank', blank⟩ := quotes err found
  obtain ⟨filled, type', code⟩ := fills err _ _ blank' blank
  have message : bytes (⟨(fill err).address, (fill err).icmpHdr.toBytes ++ (fill err).body⟩ ::
      (fill err).next) = (fill err).icmpHdr.toBytes ++ (bytes (pack :: next)).take
        (min (totalLength (bytes (pack :: next))) (hdrLen (bytes (pack :: next)) + 8)) := by
    rw [bytes_cons, List.append_assoc, filled.quoted]
  refine ⟨_, _, rfl, other, filled.hdr, filled.proto, filled.dst, ?_, whole, ?_, ?_⟩
  · rw [message]
    exact ⟨type', code⟩
  · rw [message]
    rfl
  · rw [message]
    exact filled.sums.right

theorem IcmpError.snd_quotes (error : IcmpError)
    (complete : 20 ≤ (bytes (pack :: next)).length) (small : Buffered (pack :: next)) :
    ∃ result, error.snd buffers locals (pack :: next) = some result ∧
      ∀ reply, result = some reply → ∃ ipHdr icmp, reply = ipHdr :: icmp ∧
        ErrorQuotes (bytes (pack :: next)) error.type ipHdr icmp := by
  cases error with
  | timeExceeded code => exact icmpSnd_quotes (fills_setType 11 code) complete small
  | redirect code gw => exact icmpSnd_quotes (fills_setGateway 5 code gw) complete small
  | unreachable code => exact icmpSnd_quotes (fills_setType 3 code) complete small

end Errors

/-- Each valid echo request is answered with its own data and a right checksum, wherever its bytes
lie, and an error quotes the header and at most eight bytes more of a packet that is no ICMP message,
with a right checksum. -/
theorem icmpReplies_wellFormed (buffers : Buffers) (locals : IcmpLocals) (pack : Acc)
    (next : List Acc) (complete : 20 ≤ (bytes (pack :: next)).length)
    (small : Buffered (pack :: next)) :
    (Handed pack next → EchoRequest (ipPayload (bytes (pack :: next))) →
      ∃ ipHdr icmp, processData buffers locals (pack :: next) =
          some (.replied (ipHdr :: icmp), []) ∧
        EchoAnswers (bytes (pack :: next)) ipHdr icmp) ∧
    ∀ error : IcmpError, ∃ result, error.snd buffers locals (pack :: next) = some result ∧
      ∀ reply, result = some reply → ∃ ipHdr icmp, reply = ipHdr :: icmp ∧
        ErrorQuotes (bytes (pack :: next)) error.type ipHdr icmp :=
  ⟨processData_answers, fun error => error.snd_quotes complete small⟩

/-- An echo request of 8 bytes is answered. -/
theorem short_echo_answered :
    ∃ ipHdr icmp, processData buffers512 ⟨0, 0, 0, fun _ => 0⟩ [shortEcho] =
        some (.replied (ipHdr :: icmp), []) ∧
      EchoAnswers (bytes [shortEcho]) ipHdr icmp :=
  (icmpReplies_wellFormed buffers512 ⟨0, 0, 0, fun _ => 0⟩ shortEcho [] (by decide)
    (List.forall_mem_singleton.mpr (by decide))).1
    ⟨by decide, by decide, by decide, List.forall_mem_singleton.mpr (by decide)⟩
    ⟨by decide, by decide, by decide, by decide⟩

end Minix.Inet
