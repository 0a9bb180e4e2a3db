/-
This file proves when `ip_send` hands over packets with a right header only, and refuses the
destinations that it should.

The header is edited field by field; what each edit leaves is read off a header whose bytes are
named. The fields and the checksum of the result then depend on the length alone, and that is wrong
exactly if the channel has put options behind it.
-/

import Minix.Inet.IpSend

namespace Minix.Inet

open OnesComplement (Same)
open Option (some.inj bind_some)

/-! ### Bytes -/

section Bytes

variable {d : List UInt8} {i : Nat}

theorem exists_header (complete : 20 ≤ d.length) :
    ∃ b0 b1 b2 b3 b4 b5 b6 b7 b8 b9 b10 b11 b12 b13 b14 b15 b16 b17 b18 b19 t,
      d = b0 :: b1 :: b2 :: b3 :: b4 :: b5 :: b6 :: b7 :: b8 :: b9 :: b10 :: b11 :: b12 :: b13 ::
        b14 :: b15 :: b16 :: b17 :: b18 :: b19 :: t := by
  obtain ⟨b0, b1, b2, b3, b4, b5, b6, b7, b8, b9, b10, b11, rest, rfl⟩ := exists_fields complete
  change 20 ≤ rest.length + 12 at complete
  have more : 8 ≤ rest.length := by omega
  match rest with
  | b12 :: b13 :: b14 :: b15 :: b16 :: b17 :: b18 :: b19 :: t =>
    exact ⟨b0, b1, b2, b3, b4, b5, b6, b7, b8, b9, b10, b11, b12, b13, b14, b15, b16, b17, b18, b19,
      t, rfl⟩

theorem toNat_long (a b c d : UInt8) : (word a b ||| word c d <<< 16).toNat =
    a.toNat + 256 * b.toNat + 65536 * (c.toNat + 256 * d.toNat) := by
  have low := toNat_word a b
  have high := toNat_word c d
  have one := a.toNat_lt
  have two := b.toNat_lt
  have three := c.toNat_lt
  have four := d.toNat_lt
  rw [UInt32.toNat_or, UInt32.toNat_shiftLeft]
  change _ ||| ((word c d).toNat <<< 16) % 2 ^ 32 = _
  rw [Nat.shiftLeft_eq, Nat.mod_eq_of_lt (by omega), Nat.or_comm, Nat.mul_comm,
    ← Nat.two_pow_add_eq_or_of_lt (by omega)]
  omega

theorem toNat_longByte (x : UInt32) :
    x.toUInt8.toNat = x.toNat % 256 ∧ (x >>> 8).toUInt8.toNat = x.toNat / 2 ^ 8 % 256 ∧
      (x >>> 16).toUInt8.toNat = x.toNat / 2 ^ 16 % 256 ∧
      (x >>> 24).toUInt8.toNat = x.toNat / 2 ^ 24 % 256 := by
  have byte (k : UInt32) (few : k.toNat < 32) :
      (x >>> k).toUInt8.toNat = x.toNat / 2 ^ k.toNat % 256 := by
    rw [UInt32.toNat_toUInt8, UInt32.toNat_shiftRight, Nat.mod_eq_of_lt few,
      Nat.shiftRight_eq_div_pow]
  exact ⟨UInt32.toNat_toUInt8 x, byte 8 (by decide), byte 16 (by decide), byte 24 (by decide)⟩

theorem word_longBytes (x : UInt32) :
    word x.toUInt8 (x >>> 8).toUInt8 ||| word (x >>> 16).toUInt8 (x >>> 24).toUInt8 <<< 16 = x := by
  have small := x.toNat_lt
  obtain ⟨zero, one, two, three⟩ := toNat_longByte x
  refine UInt32.toNat_inj.mp ?_
  rw [toNat_long]
  omega

theorem longByte_word (a b c d : UInt8) :
    (word a b ||| word c d <<< 16).toUInt8 = a ∧ ((word a b ||| word c d <<< 16) >>> 8).toUInt8 = b ∧
      ((word a b ||| word c d <<< 16) >>> 16).toUInt8 = c ∧
      ((word a b ||| word c d <<< 16) >>> 24).toUInt8 = d := by
  have whole := toNat_long a b c d
  have smallA := a.toNat_lt
  have smallB := b.toNat_lt
  have smallC := c.toNat_lt
  have smallD := d.toNat_lt
  obtain ⟨zero, one, two, three⟩ := toNat_longByte (word a b ||| word c d <<< 16)
  refine ⟨UInt8.toNat_inj.mp ?_, UInt8.toNat_inj.mp ?_, UInt8.toNat_inj.mp ?_,
    UInt8.toNat_inj.mp ?_⟩
  all_goals omega

theorem forall_bytes {p : UInt8 → Prop} (all : ∀ f : Fin 256, p (UInt8.ofFin f)) (b : UInt8) : p b :=
  all b.toFin

theorem first_byte (b : UInt8) :
    (b &&& 0xf ||| 0x40) >>> 4 &&& 0xf = 4 ∧ (b &&& 0xf ||| 0x40) &&& 0xf = b &&& 0xf :=
  forall_bytes (p := fun b => (b &&& 0xf ||| 0x40) >>> 4 &&& 0xf = 4 ∧
    (b &&& 0xf ||| 0x40) &&& 0xf = b &&& 0xf) (by decide +kernel) b

theorem fragment_byte (b : UInt8) :
    ntohs (word (b &&& 0x40) 0).toUInt16 &&& (ihFragoffMask ||| ihMoreFrags) = 0 :=
  forall_bytes (p := fun b => ntohs (word (b &&& 0x40) 0).toUInt16 &&&
    (ihFragoffMask ||| ihMoreFrags) = 0) (by decide +kernel) b

theorem toNat_net16 (n : Nat) :
    256 * (UInt16.ofNat n >>> 8).toUInt8.toNat + (UInt16.ofNat n).toUInt8.toNat = n % 2 ^ 16 := by
  have low := toNat_low (UInt16.ofNat n)
  rw [UInt16.toNat_ofNat'] at low
  omega

end Bytes

/-! ### The edits -/

section Edits

variable {d h t : List UInt8} {channel : IpChannel} {port : SendPort} {dataLen size address : Nat}
  {dstaddr : UInt32} {beyond : List UInt8}

/-- What the edits of `ip_send` leave in a header: the fields are those of the packet to be sent,
the checksum apart. -/
structure Edited (port : SendPort) (dataLen : Nat) (dstaddr : UInt32) (d h : List UInt8) :
    Prop where
  size : h.length = d.length
  rest : h.drop 20 = d.drop 20
  version : version h = 4
  ihl : hdrLen h = hdrLen d
  length : totalLength h = dataLen % 2 ^ 16
  fragment : ntohs (getU16 h 6) &&& (ihFragoffMask ||| ihMoreFrags) = 0
  src : getU32 h 12 = port.ipaddr
  dst : getU32 h 16 = dstaddr

theorem edited_cons {b0 b1 b2 b3 b4 b5 b6 b7 b8 b9 b10 b11 b12 b13 b14 b15 b16 b17 b18 b19 : UInt8}
    {c1 c4 c5 c8 c9 c10 c11 c16 c17 c18 c19 : UInt8}
    (dst : word c16 c17 ||| word c18 c19 <<< 16 = dstaddr) :
    Edited port dataLen dstaddr (b0 :: b1 :: b2 :: b3 :: b4 :: b5 :: b6 :: b7 :: b8 :: b9 :: b10 ::
      b11 :: b12 :: b13 :: b14 :: b15 :: b16 :: b17 :: b18 :: b19 :: t)
      ((b0 &&& 0xf ||| 0x40) :: c1 :: (UInt16.ofNat dataLen >>> 8).toUInt8 ::
        (UInt16.ofNat dataLen).toUInt8 :: c4 :: c5 :: (b6 &&& 0x40) :: 0 :: c8 :: c9 :: c10 ::
        c11 :: port.ipaddr.toUInt8 :: (port.ipaddr >>> 8).toUInt8 ::
        (port.ipaddr >>> 16).toUInt8 :: (port.ipaddr >>> 24).toUInt8 :: c16 :: c17 :: c18 :: c19 ::
        t) where
  size := rfl
  rest := rfl
  version := (first_byte b0).1
  ihl := congrArg (·.toNat * 4) (first_byte b0).2
  length := toNat_net16 dataLen
  fragment := fragment_byte b6
  src := word_longBytes port.ipaddr
  dst := dst

section

variable (complete : 20 ≤ d.length)
include complete

theorem fillFields_edited :
    Edited port dataLen (channel.rem.getD (getU32 d 16)) d (fillFields channel port dataLen d) := by
  obtain ⟨b0, b1, b2, b3, b4, b5, b6, b7, b8, b9, b10, b11, b12, b13, b14, b15, b16, b17, b18, b19,
    t, rfl⟩ := exists_header complete
  unfold fillFields setProto setRem
  cases channel.proto <;> cases channel.rem
  all_goals
    simp only [setNet16, setU32, List.set_cons_zero, List.set_cons_succ, List.getD_cons_zero,
      List.getD_cons_succ]
    first | exact edited_cons rfl | exact edited_cons (word_longBytes _)

theorem Edited.setU16 (edited : Edited port dataLen dstaddr d h) (w : UInt16) :
    Edited port dataLen dstaddr d (setU16 h 10 w) := by
  obtain ⟨size, rest, version, ihl, length, fragment, src, dst⟩ := edited
  rw [← size] at complete
  obtain ⟨b0, b1, b2, b3, b4, b5, b6, b7, b8, b9, b10, b11, b12, b13, b14, b15, b16, b17, b18, b19,
    t, rfl⟩ := exists_header complete
  exact ⟨size, rest, version, ihl, length, fragment, src, dst⟩

theorem Edited.sendChksum (edited : Edited port dataLen dstaddr d h) :
    Edited port dataLen dstaddr d (sendChksum address beyond size h) :=
  (edited.setU16 complete 0).setU16 complete _

theorem ipHdrChksum_right (short : d.length ≤ 60) (even : d.length % 2 = 0) :
    HdrSumRight (ipHdrChksum address d) := by
  obtain ⟨b0, b1, b2, b3, b4, b5, b6, b7, ttl, proto, low, high, rest, rfl⟩ :=
    exists_fields complete
  have length : (b0 :: b1 :: b2 :: b3 :: b4 :: b5 :: b6 :: b7 :: ttl :: proto :: 0 :: 0 ::
    rest).length = rest.length + 12 := rfl
  change rest.length + 12 ≤ 60 at short
  change (rest.length + 12) % 2 = 0 at even
  have computed := @same_oneCSum 0 address
    (b0 :: b1 :: b2 :: b3 :: b4 :: b5 :: b6 :: b7 :: ttl :: proto :: 0 :: 0 :: rest)
    (by omega)
  rw [UInt16.toNat_zero, Nat.zero_add, ← wordSum_eq (by omega), wordSum_fields] at computed
  change HdrSumRight (b0 :: b1 :: b2 :: b3 :: b4 :: b5 :: b6 :: b7 :: ttl :: proto ::
    (~~~oneCSum 0 address
      (b0 :: b1 :: b2 :: b3 :: b4 :: b5 :: b6 :: b7 :: ttl :: proto :: 0 :: 0 :: rest)).toUInt8 ::
    (~~~oneCSum 0 address
      (b0 :: b1 :: b2 :: b3 :: b4 :: b5 :: b6 :: b7 :: ttl :: proto :: 0 :: 0 :: rest) >>>
      8).toUInt8 :: rest)
  generalize oneCSum 0 address
    (b0 :: b1 :: b2 :: b3 :: b4 :: b5 :: b6 :: b7 :: ttl :: proto :: 0 :: 0 :: rest) = sum
    at computed
  have written := toNat_low (~~~sum)
  rw [toNat_complement] at written
  have small := sum.toNat_lt
  obtain ⟨congruent, zero⟩ := computed
  change sum.toNat % 65535 = _ % 65535 at congruent
  rw [UInt8.toNat_zero] at congruent zero
  unfold HdrSumRight
  rw [wordSum_fields, written]
  constructor
  · change _ % 65535 = 0 % 65535
    omega
  · omega

end

theorem take_setU16 (w : UInt16) : (setU16 d 10 w).take size = setU16 (d.take size) 10 w := by
  unfold Minix.Inet.setU16
  rw [List.take_set, List.take_set]

theorem take_sendChksum (inside : size ≤ h.length) :
    (sendChksum address beyond size h).take size = ipHdrChksum address (h.take size) := by
  have within : size ≤ (setU16 h 10 0).length := by
    unfold Minix.Inet.setU16
    rwa [List.length_set, List.length_set]
  unfold Minix.Inet.sendChksum ipHdrChksum
  rw [take_setU16, List.take_append_of_le_length within, take_setU16]

theorem swapAddresses_cons
    {b0 b1 b2 b3 b4 b5 b6 b7 b8 b9 b10 b11 b12 b13 b14 b15 b16 b17 b18 b19 : UInt8} :
    swapAddresses (b0 :: b1 :: b2 :: b3 :: b4 :: b5 :: b6 :: b7 :: b8 :: b9 :: b10 :: b11 :: b12 ::
      b13 :: b14 :: b15 :: b16 :: b17 :: b18 :: b19 :: t) =
      b0 :: b1 :: b2 :: b3 :: b4 :: b5 :: b6 :: b7 :: b8 :: b9 :: b10 :: b11 :: b16 :: b17 :: b18 ::
        b19 :: b12 :: b13 :: b14 :: b15 :: t := by
  obtain ⟨src0, src1, src2, src3⟩ := longByte_word b12 b13 b14 b15
  obtain ⟨dst0, dst1, dst2, dst3⟩ := longByte_word b16 b17 b18 b19
  unfold swapAddresses setU32 getU32
  simp only [List.set_cons_zero, List.set_cons_succ, List.getD_cons_zero, List.getD_cons_succ, src0,
    src1, src2, src3, dst0, dst1, dst2, dst3]

theorem wordSum_swapped
    {b0 b1 b2 b3 b4 b5 b6 b7 b8 b9 b10 b11 b12 b13 b14 b15 b16 b17 b18 b19 : UInt8} :
    wordSum (b0 :: b1 :: b2 :: b3 :: b4 :: b5 :: b6 :: b7 :: b8 :: b9 :: b10 :: b11 :: b16 :: b17 ::
      b18 :: b19 :: b12 :: b13 :: b14 :: b15 :: t) =
    wordSum (b0 :: b1 :: b2 :: b3 :: b4 :: b5 :: b6 :: b7 :: b8 :: b9 :: b10 :: b11 :: b12 :: b13 ::
      b14 :: b15 :: b16 :: b17 :: b18 :: b19 :: t) := by
  simp only [wordSum]
  omega

/-- An edited header whose length and checksum are right is right, also after the exchange of the
addresses. -/
theorem Edited.right {packet rest : List UInt8} (via : IpVia)
    (edited : Edited port dataLen dstaddr d h) (ihl : hdrLen d = size) (least : 20 ≤ size)
    (inside : size ≤ h.length) (total : dataLen % 2 ^ 16 = h.length + rest.length)
    (chksum : HdrSumRight (h.take size)) (body : d.drop 20 ++ rest = packet.drop 20) :
    HeaderRight port dstaddr size packet (viaEdit via h ++ rest) via := by
  obtain ⟨long, same, version, ihl', length, fragment, src, dst⟩ := edited
  obtain ⟨b0, b1, b2, b3, b4, b5, b6, b7, b8, b9, b10, b11, b12, b13, b14, b15, b16, b17, b18, b19,
    t, rfl⟩ := exists_header (least.trans inside)
  obtain ⟨more, rfl⟩ := Nat.exists_eq_add_of_le' least
  have within : more ≤ t.length := Nat.le_of_add_le_add_right inside
  have taken : (t ++ rest).take more = t.take more := List.take_append_of_le_length within
  have whole : (t ++ rest).length + 20 = t.length + 20 + rest.length := by
    rw [List.length_append]
    omega
  have length' := (length.trans total).trans whole.symm
  change t = _ at same
  rw [← same] at body
  have right : HdrSumRight (b0 :: b1 :: b2 :: b3 :: b4 :: b5 :: b6 :: b7 :: b8 :: b9 :: b10 ::
      b11 :: b12 :: b13 :: b14 :: b15 :: b16 :: b17 :: b18 :: b19 :: (t ++ rest).take more) := by
    rw [taken]
    exact chksum
  cases via
  case swapped =>
    unfold HdrSumRight at right
    rw [← wordSum_swapped] at right
    rw [viaEdit, swapAddresses_cons]
    exact ⟨version, ihl'.trans ihl, length', fragment, ⟨src, dst⟩, right, body⟩
  case loopback => exact ⟨version, ihl'.trans ihl, length', fragment, src, right, body⟩
  case device => exact ⟨version, ihl'.trans ihl, length', fragment, src, right, body⟩

end Edits

/-! ### The parts of `ip_send` -/

section Parts

variable {buffers : Buffers} {locals : SendLocals} {channel : IpChannel} {port : SendPort}
  {s s' : Orouting} {currtim dataLen : Nat} {ttl : Int} {packet d : List UInt8} {sending : Sending}
  {pack : List Acc} {via : IpVia} {r : Int}

/-- A packet whose header is in its first accessor, and that is in use once. -/
structure HeaderFirst (packet : List UInt8) (sending : Sending) : Prop where
  same : bytes sending.pack = packet
  inUse : sending.inUse = [sending.chain]
  first : ∃ acc next, sending.pack = acc :: next ∧ 20 ≤ acc.data.length

theorem bfAfree_single (chain : SendChain) : bfAfree chain [chain] = some [] := by
  cases chain <;> rfl

theorem bfAfree_pair {chain other : SendChain} (different : chain ≠ other) :
    bfAfree chain [other, chain] = some [other] := by
  unfold bfAfree
  rw [if_pos (List.mem_cons_of_mem _ (List.mem_singleton_self _)),
    List.erase_cons_tail (by simpa using different.symm), List.erase_cons_head]

theorem refuse_eq (ready : sending.inUse = [sending.chain]) (error : Int) (frameId : UInt16)
    (routes : Orouting) :
    refuse error sending frameId routes = some ⟨.refused error, [], frameId, routes⟩ := by
  unfold refuse
  rw [ready, bfAfree_single]
  rfl

theorem exists_rest {first : Acc} {next : List Acc} (complete : 20 ≤ (bytes (first :: next)).length)
    (small : (bytes (first :: next)).length < 2 ^ 16) :
    ∃ rest, bfCut (first :: next) 20 (sizeSub (bytes (first :: next)).length 20) = some rest ∧
      bytes rest = (bytes (first :: next)).drop 20 := by
  rw [sizeSub_eq complete (small.trans (by decide))]
  obtain ⟨rest, found⟩ := @exists_bfCut first next 20 ((bytes (first :: next)).length - 20)
    (by omega)
  refine ⟨rest, found, ?_⟩
  rw [bfCut_eq found, ← List.length_drop, List.take_length]

theorem exists_unshare (complete : 20 ≤ (bytes pack).length) (small : (bytes pack).length < 2 ^ 16) :
    ∃ sending, unshare locals ⟨bfPackIffLess buffers.toPacking pack 20, .data, [.data]⟩ =
      some sending ∧ HeaderFirst (bytes pack) sending ∧ sending.chain ≠ .spliced := by
  cases pack with
  | nil => cases complete
  | cons acc next =>
    obtain ⟨first, rest, packed, long⟩ := @bfPackIffLess_first buffers acc next 20 complete (by decide)
    have same : bytes (first :: rest) = bytes (acc :: next) := by
      rw [← packed, bytes_bfPackIffLess]
    rw [← same] at complete small ⊢
    rw [packed]
    unfold unshare
    dsimp only
    rw [if_neg (Nat.not_lt.mpr long)]
    split
    case isFalse => exact ⟨_, rfl, ⟨rfl, rfl, _, _, rfl, long⟩, SendChain.noConfusion⟩
    case isTrue =>
      obtain ⟨cut, found, tail⟩ := exists_rest complete small
      rw [found, bind_some, bfAfree_pair (by decide)]
      refine ⟨_, rfl, ⟨?_, rfl, _, _, rfl, (List.length_take_of_le long).ge⟩,
        SendChain.noConfusion⟩
      change bytes (⟨locals.copied, first.data.take 20⟩ :: cut) = _
      rw [bytes_cons, tail, bytes_cons, List.drop_append_of_le_length long, ← List.append_assoc,
        List.take_append_drop]

/-- A packet before its header is filled in: the header is complete, and unless the channel has
options, all of it is in the first accessor. -/
structure Prepares (channel : IpChannel) (packet : List UInt8) (prepared : Prepared) : Prop where
  inUse : prepared.1.inUse = [prepared.1.chain]
  first : ∃ acc next, prepared.1.pack = acc :: next ∧ 20 ≤ acc.data.length ∧
    getU32 acc.data 16 = getU32 packet 16 ∧
    acc.data.length + (bytes next).length =
      packet.length + (if channel.hdrOSpec then channel.hdropt.length else 0) ∧
    ((channel.hdrOSpec = true → channel.hdropt = []) →
      acc.data.drop 20 ++ bytes next = packet.drop 20 ∧ hdrLen acc.data = prepared.2.1 ∧
        prepared.2.1 ≤ acc.data.length)
  size : prepared.2.1 = headerSize channel packet
  least : 20 ≤ prepared.2.1
  ttl : prepared.2.2 = routeTtl channel packet

theorem channelFields_eq {size : Nat} (complete : 20 ≤ d.length) :
    (channelFields channel size d).length = d.length ∧
      (channelFields channel size d).drop 20 = d.drop 20 ∧
      getU32 (channelFields channel size d) 16 = getU32 d 16 ∧
      hdrLen (channelFields channel 20 d) = 20 := by
  obtain ⟨b0, b1, b2, b3, b4, b5, b6, b7, b8, b9, b10, b11, b12, b13, b14, b15, b16, b17, b18, b19,
    t, rfl⟩ := exists_header complete
  have ihl : (UInt8.ofNat (20 / 4) &&& 0xf).toNat * 4 = 20 := by decide
  exact ⟨rfl, rfl, rfl, ihl⟩

theorem dst_append (complete : 20 ≤ d.length) (rest : List UInt8) :
    getU32 (d ++ rest) 16 = getU32 d 16 := by
  obtain ⟨b0, b1, b2, b3, b4, b5, b6, b7, b8, b9, b10, b11, b12, b13, b14, b15, b16, b17, b18, b19,
    t, rfl⟩ := exists_header complete
  rfl

section

variable (ready : HeaderFirst packet sending)
include ready

theorem exists_spliceOptions (complete : 20 ≤ packet.length) (small : packet.length < 2 ^ 16)
    (unspliced : sending.chain ≠ .spliced) (given : channel.hdropt ≠ []) :
    ∃ acc next, spliceOptions buffers locals channel sending =
      some ⟨acc :: next, .spliced, [.spliced]⟩ ∧ acc.data = packet.take 20 ∧
        bytes next = channel.hdropt ++ packet.drop 20 := by
  obtain ⟨same, inUse, acc, next, pack, long⟩ := ready
  rw [pack] at same
  subst same
  obtain ⟨head, found⟩ := @exists_bfCut acc next 0 20 (by omega)
  obtain ⟨rest, found', tail⟩ := exists_rest complete small
  obtain ⟨first, others, rfl⟩ := bfCut_cons found
  have bytesHead := bfCut_eq found
  rw [List.drop_zero] at bytesHead
  have length : (bytes (first :: others)).length = 20 := by
    rw [bytesHead, List.length_take_of_le complete]
  obtain ⟨ipHdr, more, packed, enough⟩ := @bfPackIffLess_first buffers first others 20 length.ge
    (by decide)
  have same : bytes (ipHdr :: more) = (bytes (acc :: next)).take 20 := by
    rw [← packed, bytes_bfPackIffLess, bytesHead]
  have whole := congrArg List.length same
  rw [List.length_take_of_le complete, length_bytes_cons] at whole
  rw [bytes_cons, List.length_eq_zero_iff.mp (by omega : (bytes more).length = 0),
    List.append_nil] at same
  refine ⟨ipHdr, ⟨locals.opts, channel.hdropt⟩ :: rest, ?_, same, ?_⟩
  · unfold spliceOptions
    rw [if_neg given, pack, found, bind_some, found', bind_some, inUse,
      bfAfree_pair unspliced, bind_some, packed]
  · rw [bytes_cons, tail]

theorem exists_prepareSpec (complete : 20 ≤ packet.length) (small : packet.length < 2 ^ 16)
    (unspliced : sending.chain ≠ .spliced) (spec : channel.hdrOSpec = true) :
    ∃ prepared, prepareSpec buffers locals channel sending = some (.ok prepared) ∧
      Prepares channel packet prepared := by
  have size : headerSize channel packet = 20 + channel.hdropt.length := if_pos spec
  have ttl : routeTtl channel packet = ortdUnreachable + 1 := if_pos spec
  by_cases given : channel.hdropt = []
  case pos =>
    obtain ⟨same, inUse, acc, next, pack, long⟩ := ready
    have spliced : spliceOptions buffers locals channel sending = some sending := if_pos given
    obtain ⟨length, tail, dst, ihl⟩ := @channelFields_eq channel acc.data
      (20 + channel.hdropt.length) long
    rw [pack] at same
    subst same
    refine ⟨_, by rw [prepareSpec, spliced]; rfl, inUse, ?_, size.symm, Nat.le_add_right _ _,
      ttl.symm⟩
    refine ⟨⟨acc.address, channelFields channel (20 + channel.hdropt.length) acc.data⟩, next,
      by rw [pack]; rfl, length.ge.trans' long, ?_, ?_, fun _ => ⟨?_, ?_, ?_⟩⟩
    · rw [dst, bytes_cons, dst_append long]
    · rw [if_pos spec, length, length_bytes_cons, given, List.length_nil, Nat.add_zero]
    · rw [tail, bytes_cons, List.drop_append_of_le_length long]
    · rw [given]
      exact ihl
    · change 20 + channel.hdropt.length ≤ (channelFields _ _ _).length
      rw [length, given]
      exact long
  case neg =>
    obtain ⟨acc, next, spliced, header, behind⟩ :=
      @exists_spliceOptions buffers locals channel packet sending ready complete small unspliced given
    have long : acc.data.length = 20 := by rw [header, List.length_take_of_le complete]
    obtain ⟨length, tail, dst, ihl⟩ := @channelFields_eq channel acc.data
      (20 + channel.hdropt.length) long.ge
    refine ⟨_, by rw [prepareSpec, spliced]; rfl, rfl, ?_, size.symm, Nat.le_add_right _ _,
      ttl.symm⟩
    refine ⟨⟨acc.address, channelFields channel (20 + channel.hdropt.length) acc.data⟩, next, rfl,
      length.ge.trans' long.ge, ?_, ?_, fun fits => absurd (fits spec) given⟩
    · rw [dst, header, ← dst_append (List.length_take_of_le complete).ge (packet.drop 20),
        List.take_append_drop]
    · rw [if_pos spec, length, long, behind, List.length_append, List.length_drop]
      omega

/-- The first accessor holds a header in the packet whose length passes the tests; the options are
still to be tested. -/
theorem exists_prepareAny (least : 20 ≤ hdrLen packet) (inside : hdrLen packet ≤ packet.length)
    (ttl : packet.getD 8 0 ≠ 0) :
    ∃ first rest r, bytes (first :: rest) = packet ∧ hdrLen packet ≤ first.data.length ∧
      (r = 0 ↔ OptionList [] ((packet.take (hdrLen packet)).drop 20)) ∧
      prepareAny buffers locals sending packet.length =
        if hdrLen packet ≠ 20 ∧ r ≠ 0 then some (.error r)
        else some (.ok ({ sending with pack := first :: rest }, hdrLen packet,
          (packet.getD 8 0).toNat)) := by
  obtain ⟨same, inUse, acc, next, pack, long⟩ := ready
  rw [pack] at same
  have small : hdrLen packet ≤ bufS := (hdrLen_le packet).trans (by decide)
  obtain ⟨first, rest, packed, enough⟩ :=
    @bfPackIffLess_first buffers acc next (hdrLen packet) (by rwa [same]) small
  have same' : bytes (first :: rest) = packet := by
    rw [← packed, bytes_bfPackIffLess, same]
  have ihl : hdrLen acc.data = hdrLen packet := by
    rw [← same, hdrLen_bytes long]
  have time : acc.data.getD 8 0 = packet.getD 8 0 := by
    rw [← same, getD_bytes (by omega)]
  have time' : first.data.getD 8 0 = packet.getD 8 0 := by
    rw [← same', getD_bytes (by omega)]
  have front (n : Nat) (within : n ≤ first.data.length) : first.data.take n = packet.take n := by
    rw [← same', bytes_cons, List.take_append_of_le_length within]
  refine ⟨first, rest, ipChkHdropt (first.data.drop (hdrLen packet) ++ locals.beyond)
    ((packet.take (hdrLen packet)).drop 20), same', enough, ipChkHdropt_iff, ?_⟩
  unfold prepareAny
  rw [pack]
  dsimp only
  rw [ihl, time, packed, if_neg (Nat.not_lt.mpr least), if_neg (Nat.not_lt.mpr inside), if_neg ttl]
  dsimp only
  rw [front _ enough, time']

theorem prepareAny_accepts (spec : channel.hdrOSpec = false) (given : HeaderGiven packet) :
    ∃ prepared, prepareAny buffers locals sending packet.length = some (.ok prepared) ∧
      Prepares channel packet prepared := by
  have spec' : ¬channel.hdrOSpec = true := by
    rw [spec]
    decide
  obtain ⟨first, rest, r, same, enough, options, result⟩ :=
    @exists_prepareAny buffers locals packet sending ready given.least given.inside given.ttl
  rw [if_neg fun wrong => wrong.2 (options.mpr given.options)] at result
  have long := given.least.trans enough
  refine ⟨_, result, ready.inUse, ⟨first, rest, rfl, long, ?_, ?_, fun _ => ⟨?_, ?_, enough⟩⟩,
    (if_neg spec').symm, given.least, (if_neg spec').symm⟩
  · rw [← same, bytes_cons, dst_append long]
  · rw [if_neg spec', ← same, length_bytes_cons, Nat.add_zero]
  · rw [← same, bytes_cons, List.drop_append_of_le_length long]
  · rw [← same, hdrLen_bytes long]

theorem prepareAny_refuses (bad : ¬HeaderGiven packet) :
    ∃ r, prepareAny buffers locals sending packet.length = some (.error r) := by
  by_cases tests : 20 ≤ hdrLen packet ∧ hdrLen packet ≤ packet.length ∧ packet.getD 8 0 ≠ 0
  case pos =>
    obtain ⟨least, inside, ttl⟩ := tests
    obtain ⟨first, rest, r, same, enough, options, result⟩ :=
      @exists_prepareAny buffers locals packet sending ready least inside ttl
    have wrong : r ≠ 0 := fun right => bad ⟨least, inside, ttl, options.mp right⟩
    have more : hdrLen packet ≠ 20 := by
      intro same
      refine bad ⟨least, inside, ttl, ?_⟩
      rw [same, List.drop_eq_nil_of_le (List.length_take_le _ _)]
      exact .nil
    exact ⟨r, result.trans (if_pos ⟨more, wrong⟩)⟩
  case neg =>
    obtain ⟨same, inUse, acc, next, pack, long⟩ := ready
    rw [pack] at same
    have ihl : hdrLen acc.data = hdrLen packet := by
      rw [← same, hdrLen_bytes long]
    have time : acc.data.getD 8 0 = packet.getD 8 0 := by
      rw [← same, getD_bytes (by omega)]
    unfold prepareAny
    rw [pack]
    dsimp only
    rw [ihl, time]
    split
    · exact ⟨_, rfl⟩
    split
    · exact ⟨_, rfl⟩
    split
    · exact ⟨_, rfl⟩
    · exact absurd ⟨Nat.le_of_not_lt ‹_›, Nat.le_of_not_lt ‹_›, ‹_›⟩ tests

end

/-- A packet that is refused and released. -/
def Released (result : SendResult) : Prop :=
  (∃ error, result.sent = .refused error) ∧ result.inUse = []

theorem exists_refused (once : sending.inUse = [sending.chain]) {frameId : UInt16} :
    ∃ result, refuse r sending frameId s = some result ∧ Released result :=
  ⟨_, refuse_eq once r frameId s, ⟨r, rfl⟩, rfl⟩

theorem sendOff_eq {acc : Acc} {next : List Acc} {size : Nat} (pack : sending.pack = acc :: next)
    (long : 20 ≤ acc.data.length) :
    (sendVia port s currtim (getU32 acc.data 16) ttl = none →
      sendOff buffers locals port s currtim sending size ttl = none) ∧
    (sendVia port s currtim (getU32 acc.data 16) ttl = some (s', .error r) →
      sendOff buffers locals port s currtim sending size ttl =
        refuse r sending (port.frameId + 1) s') ∧
    (sendVia port s currtim (getU32 acc.data 16) ttl = some (s', .ok via) →
      sendOff buffers locals port s currtim sending size ttl =
        some ⟨.handed via (⟨acc.address,
          viaEdit via (sendChksum acc.address locals.beyond size acc.data)⟩ :: next),
          sending.inUse, port.frameId + 1, s'⟩) := by
  have length : 20 ≤ (sendChksum acc.address locals.beyond size acc.data).length := by
    unfold Minix.Inet.sendChksum Minix.Inet.setU16
    simp only [List.length_set]
    exact long
  have packed : bfPackIffLess buffers.toPacking (⟨acc.address,
      sendChksum acc.address locals.beyond size acc.data⟩ :: next) 20 =
      ⟨acc.address, sendChksum acc.address locals.beyond size acc.data⟩ :: next :=
    if_pos length
  unfold sendOff
  rw [pack]
  dsimp only
  rw [packed]
  dsimp only
  rw [if_neg (Nat.not_lt.mpr length)]
  refine ⟨fun found => ?_, fun found => ?_, fun found => ?_⟩
  all_goals
    rw [found]
    rfl

/-- What is handed over. -/
structure Delivers (channel : IpChannel) (port : SendPort) (packet : List UInt8) (via : IpVia)
    (pack : List Acc) : Prop where
  size : (bytes pack).length =
    packet.length + (if channel.hdrOSpec then channel.hdropt.length else 0)
  length : totalLength (bytes pack) = packet.length % 2 ^ 16
  right : (channel.hdrOSpec = true → channel.hdropt = []) → packet.length < 2 ^ 16 →
    HeaderRight port (destination channel packet) (headerSize channel packet) packet (bytes pack) via

theorem viaEdit_length (complete : 20 ≤ d.length) (via : IpVia) :
    (viaEdit via d).length = d.length ∧ totalLength (viaEdit via d) = totalLength d := by
  obtain ⟨b0, b1, b2, b3, b4, b5, b6, b7, b8, b9, b10, b11, b12, b13, b14, b15, b16, b17, b18, b19,
    t, rfl⟩ := exists_header complete
  cases via <;> exact ⟨rfl, rfl⟩

/-- A prepared packet whose header is filled in and summed is handed over right, unless there are
options of the channel. -/
theorem delivers {acc : Acc} {next : List Acc} {size address : Nat} {beyond : List UInt8}
    (long : 20 ≤ acc.data.length) (dst : getU32 acc.data 16 = getU32 packet 16)
    (whole : acc.data.length + (bytes next).length =
      packet.length + (if channel.hdrOSpec then channel.hdropt.length else 0))
    (fits : (channel.hdrOSpec = true → channel.hdropt = []) →
      acc.data.drop 20 ++ bytes next = packet.drop 20 ∧ hdrLen acc.data = size ∧
        size ≤ acc.data.length)
    (exact' : size = headerSize channel packet) (least : 20 ≤ size) :
    Delivers channel port packet via (⟨address, viaEdit via (sendChksum acc.address beyond size
      (fillFields channel port packet.length acc.data))⟩ :: next) := by
  have filled := @fillFields_edited acc.data channel port packet.length long
  have edited := @Edited.sendChksum _ _ port packet.length size acc.address _ beyond long filled
  have length := edited.size
  generalize given : sendChksum acc.address beyond size
    (fillFields channel port packet.length acc.data) = h at edited length
  rw [dst] at edited
  have long' : 20 ≤ h.length := length.ge.trans' long
  obtain ⟨kept, kept'⟩ := viaEdit_length long' via
  refine ⟨?_, ?_, fun free small => ?_⟩
  · rw [length_bytes_cons, kept, length, whole]
  · rw [(header_bytes (kept.ge.trans' long')).2.2, kept']
    exact edited.length
  · obtain ⟨tail, ihl, inside⟩ := fits free
    have none : (if channel.hdrOSpec then channel.hdropt.length else 0) = 0 := by
      split
      case isTrue spec => rw [free spec, List.length_nil]
      case isFalse => rfl
    rw [none, Nat.add_zero] at whole
    rw [← exact', bytes_cons]
    refine edited.right via ihl least (inside.trans length.ge) ?_ ?_ tail
    · rw [length, whole, Nat.mod_eq_of_lt small]
    · rw [← given, take_sendChksum (inside.trans filled.size.ge)]
      have taken : ((fillFields channel port packet.length acc.data).take size).length = size :=
        List.length_take_of_le (inside.trans filled.size.ge)
      have short := hdrLen_le acc.data
      refine ipHdrChksum_right (least.trans taken.ge) ?_ ?_
      · rw [taken, ← ihl]
        exact short
      · rw [taken, ← ihl, hdrLen]
        omega

/-- What becomes of a prepared packet depends on its destination and on the search for the way. -/
theorem sendFilled_eq {prepared : Prepared} (prepares : Prepares channel packet prepared) :
    (badDest port (destination channel packet) = true →
      ∃ result, sendFilled buffers locals channel port s currtim packet.length prepared =
        some result ∧ Released result) ∧
    (badDest port (destination channel packet) = false →
      (sendVia port s currtim (destination channel packet) (routeTtl channel packet) = none →
        sendFilled buffers locals channel port s currtim packet.length prepared = none) ∧
      (sendVia port s currtim (destination channel packet) (routeTtl channel packet) =
          some (s', .error r) →
        ∃ result, sendFilled buffers locals channel port s currtim packet.length prepared =
          some result ∧ Released result) ∧
      (sendVia port s currtim (destination channel packet) (routeTtl channel packet) =
          some (s', .ok via) →
        ∃ result pack, sendFilled buffers locals channel port s currtim packet.length prepared =
          some result ∧ result.sent = .handed via pack ∧
            Delivers channel port packet via pack)) := by
  obtain ⟨sending, size, ttl⟩ := prepared
  obtain ⟨once, ⟨acc, next, pack, long, dst, whole, fits⟩, exact', least, time⟩ := prepares
  have filled := @fillFields_edited acc.data channel port packet.length long
  rw [dst] at filled
  have dest : getU32 (fillFields channel port packet.length acc.data) 16 =
      destination channel packet := filled.dst
  have long' := filled.size.ge.trans' long
  unfold sendFilled
  dsimp only
  rw [pack, editFirst]
  dsimp only
  rw [dest]
  constructor
  · intro bad
    rw [if_pos bad]
    exact exists_refused once
  · intro good
    rw [if_neg (by rw [good]; decide)]
    obtain ⟨lost, failed, found⟩ := @sendOff_eq buffers locals port s s' currtim ttl
      ⟨⟨acc.address, fillFields channel port packet.length acc.data⟩ :: next, sending.chain,
        sending.inUse⟩ via r _ _ size rfl long'
    rw [dest] at lost failed found
    subst time
    refine ⟨lost, fun error => ?_, fun way => ⟨_, _, found way, rfl, ?_⟩⟩
    · rw [failed error]
      exact exists_refused once
    · exact delivers long dst whole fits exact' least

end Parts

/-! ### The way -/

section Way

variable {port : SendPort} {s : Orouting} {currtim : Nat} {dstaddr : UInt32} {ttl : Int}

theorem sendVia_iff :
    (∃ s' via, sendVia port s currtim dstaddr ttl = some (s', .ok via)) ↔
      WayTo port s currtim dstaddr ttl := by
  unfold sendVia WayTo
  split
  case isTrue loopback => exact iff_of_true ⟨_, _, rfl⟩ (.inl loopback)
  split
  case isTrue ones => exact iff_of_true ⟨_, _, rfl⟩ (.inr (.inl ones))
  split
  case isTrue own => exact iff_of_true ⟨_, _, rfl⟩ (.inr (.inr (.inl own)))
  split
  case isTrue near => exact iff_of_true ⟨_, _, rfl⟩ (.inr (.inr (.inr (.inl near))))
  rename_i far ones own near
  constructor
  · rintro ⟨s', via, found⟩
    obtain ⟨⟨routes, nexthop⟩, route, same⟩ := Option.map_eq_some_iff.mp found
    cases nexthop with
    | error r => cases same
    | ok nexthop => exact .inr (.inr (.inr (.inr ⟨routes, nexthop, route⟩)))
  · rintro (wrong | wrong | wrong | wrong | ⟨s', nexthop, route⟩)
    · exact absurd wrong far
    · exact absurd wrong ones
    · exact absurd wrong own
    · exact absurd wrong near
    · rw [route]
      exact ⟨_, _, rfl⟩

theorem orouteFindEnt_of_sendVia (lost : sendVia port s currtim dstaddr ttl = none) :
    orouteFindEnt s currtim port.nr dstaddr = none := by
  unfold sendVia at lost
  split at lost
  · cases lost
  split at lost
  · cases lost
  split at lost
  · cases lost
  split at lost
  · cases lost
  exact Option.map_eq_none_iff.mp (Option.map_eq_none_iff.mp lost)

end Way

/-! ### `ip_send` -/

section Whole

variable {buffers : Buffers} {locals : SendLocals} {channel : IpChannel} {port : SendPort}
  {s s' : Orouting} {currtim : Nat} {data : List Acc}

theorem exists_prepare (set : channel.optset = true) (address : port.ipaddrset = true)
    (complete : 20 ≤ (userPacket channel locals data).length)
    (small : (userPacket channel locals data).length < 2 ^ 16) :
    ∃ sending, HeaderFirst (userPacket channel locals data) sending ∧ sending.chain ≠ .spliced ∧
      (∀ r, prepare buffers locals channel sending (userPacket channel locals data).length =
          some (.error r) →
        ∃ result, ipSend buffers locals channel port s currtim data = some result ∧
          Released result) ∧
      (∀ prepared, prepare buffers locals channel sending (userPacket channel locals data).length =
          some (.ok prepared) →
        ipSend buffers locals channel port s currtim data =
          sendFilled buffers locals channel port s currtim (userPacket channel locals data).length
            prepared) := by
  obtain ⟨sending, unshared, ready, unspliced⟩ :=
    @exists_unshare buffers locals (addHdr channel locals data) complete small
  refine ⟨sending, ready, unspliced, fun r failed => ?_, fun prepared done => ?_⟩
  all_goals
    unfold userPacket at complete
    unfold ipSend
    rw [if_neg (by rw [set]; decide), if_neg (by rw [address]; decide),
      if_neg (Nat.not_lt.mpr complete), unshared, bind_some]
  · unfold userPacket at failed
    rw [failed, bind_some]
    exact exists_refused ready.inUse
  · unfold userPacket at done
    rw [done]
    rfl

/-- The tests before the destination. -/
structure PassesTests (channel : IpChannel) (port : SendPort) (packet : List UInt8) : Prop where
  optset : channel.optset = true
  address : port.ipaddrset = true
  complete : 20 ≤ packet.length
  header : channel.hdrOSpec = true ∨ HeaderGiven packet

section

variable (small : (userPacket channel locals data).length < 2 ^ 16)
include small

theorem ipSend_accepted (accepted : PassesTests channel port (userPacket channel locals data)) :
    ∃ prepared, Prepares channel (userPacket channel locals data) prepared ∧
      ipSend buffers locals channel port s currtim data =
        sendFilled buffers locals channel port s currtim (userPacket channel locals data).length
          prepared := by
  obtain ⟨set, address, complete, header⟩ := accepted
  obtain ⟨sending, ready, unspliced, -, done⟩ :=
    @exists_prepare buffers locals channel port s currtim data set address complete small
  unfold prepare at done
  cases spec : channel.hdrOSpec with
  | true =>
    rw [if_pos spec] at done
    obtain ⟨prepared, found, prepares⟩ :=
      @exists_prepareSpec buffers locals channel _ sending ready complete small unspliced spec
    exact ⟨prepared, prepares, done prepared found⟩
  | false =>
    have off : ¬channel.hdrOSpec = true := by
      rw [spec]
      decide
    rw [if_neg off] at done
    obtain ⟨prepared, found, prepares⟩ :=
      @prepareAny_accepts buffers locals channel _ sending ready spec (header.resolve_left off)
    exact ⟨prepared, prepares, done prepared found⟩

theorem ipSend_refuses (address : port.ipaddrset = true)
    (bad : ¬PassesTests channel port (userPacket channel locals data)) :
    ∃ result, ipSend buffers locals channel port s currtim data = some result ∧ Released result := by
  by_cases set : channel.optset = true
  case neg =>
    unfold ipSend
    rw [if_pos (by rw [Bool.not_eq_true] at set; rw [set]; rfl)]
    exact exists_refused rfl
  by_cases complete : 20 ≤ (userPacket channel locals data).length
  case neg =>
    unfold userPacket at complete
    unfold ipSend
    rw [if_neg (by rw [set]; decide), if_neg (by rw [address]; decide),
      if_pos (Nat.lt_of_not_le complete)]
    exact exists_refused rfl
  obtain ⟨sending, ready, -, failed, -⟩ :=
    @exists_prepare buffers locals channel port s currtim data set address complete small
  have off : ¬channel.hdrOSpec = true := fun spec => bad ⟨set, address, complete, .inl spec⟩
  obtain ⟨r, refused⟩ := @prepareAny_refuses buffers locals _ sending ready
    fun given => bad ⟨set, address, complete, .inr given⟩
  exact failed r ((if_neg off).trans refused)

theorem ipSend_goes (goes : SendGoes channel port s currtim (userPacket channel locals data)) :
    ∃ result via pack, ipSend buffers locals channel port s currtim data = some result ∧
      result.sent = .handed via pack ∧
        Delivers channel port (userPacket channel locals data) via pack := by
  obtain ⟨set, address, complete, header, dest, reaches⟩ := goes
  obtain ⟨s', via, way⟩ := sendVia_iff.mpr reaches
  obtain ⟨prepared, prepares, sent⟩ :=
    @ipSend_accepted buffers locals channel port s currtim data small
      ⟨set, address, complete, header⟩
  obtain ⟨-, -, handed⟩ := (@sendFilled_eq buffers locals channel port s s' currtim _ via 0 prepared
    prepares).2 dest
  obtain ⟨result, pack, filled, kind, delivers⟩ := handed way
  exact ⟨result, via, pack, sent.trans filled, kind, delivers⟩

/-- A packet that does not go is refused and released, unless an assertion fails, or the search of
the routes does. -/
theorem ipSend_stays (stays : ¬SendGoes channel port s currtim (userPacket channel locals data)) :
    (∃ result, ipSend buffers locals channel port s currtim data = some result ∧ Released result) ∨
      (ipSend buffers locals channel port s currtim data = none ∧
        (port.ipaddrset = false ∨
          sendVia port s currtim (destination channel (userPacket channel locals data))
            (routeTtl channel (userPacket channel locals data)) = none)) := by
  by_cases accepted : PassesTests channel port (userPacket channel locals data)
  case neg =>
    cases address : port.ipaddrset with
    | true => exact .inl (ipSend_refuses small address accepted)
    | false =>
      cases set : channel.optset with
      | true =>
        refine .inr ⟨?_, .inl rfl⟩
        unfold ipSend
        rw [if_neg (by rw [set]; decide), if_pos (by rw [address]; rfl)]
      | false =>
        refine .inl ?_
        unfold ipSend
        rw [if_pos (by rw [set]; rfl)]
        exact exists_refused rfl
  case pos =>
    obtain ⟨prepared, prepares, sent⟩ :=
      @ipSend_accepted buffers locals channel port s currtim data small accepted
    rw [sent]
    obtain ⟨set, address, complete, header⟩ := accepted
    have cases' (s' : Orouting) (via : IpVia) (r : Int) := @sendFilled_eq buffers locals channel port
      s s' currtim _ via r prepared prepares
    cases dest : badDest port (destination channel (userPacket channel locals data)) with
    | true => exact .inl ((cases' s .loopback 0).1 dest)
    | false =>
      cases way : sendVia port s currtim (destination channel (userPacket channel locals data))
        (routeTtl channel (userPacket channel locals data)) with
      | none => exact .inr ⟨((cases' s .loopback 0).2 dest).1 way, .inr rfl⟩
      | some found =>
        obtain ⟨s', r | via⟩ := found
        · exact .inl (((cases' s' .loopback r).2 dest).2.1 way)
        · exact absurd ⟨set, address, complete, header, dest, sendVia_iff.mp ⟨s', via, way⟩⟩ stays

end

end Whole

/-- Every packet that `ip_send` hands over has a right header, and every packet to a class E address
or with a zero host part is refused and released, exactly if no packet that goes carries options of
the channel behind its header or has such a destination. `ip_send` fails only for a port without an
address, or if the search of the routes does. -/
theorem ipSend_right_iff (buffers : Buffers) (locals : SendLocals) (channel : IpChannel)
    (port : SendPort) (s : Orouting) (currtim : Nat) (data : List Acc)
    (few : (bytes data).length ≤ ipMaxPacksize) :
    (ipSend buffers locals channel port s currtim data = none → port.ipaddrset = false ∨
      orouteFindEnt s currtim port.nr (destination channel (userPacket channel locals data)) =
        none) ∧
    (SendRight buffers locals channel port s currtim data ↔
      SendFits channel port s currtim (userPacket channel locals data)) := by
  have small : (userPacket channel locals data).length < 2 ^ 16 := by
    unfold ipMaxPacksize at few
    unfold userPacket addHdr
    split
    · rw [length_bytes_cons, List.length_map, List.length_range]
      omega
    · omega
  by_cases goes : SendGoes channel port s currtim (userPacket channel locals data)
  case neg =>
    have stays := @ipSend_stays buffers locals channel port s currtim data small goes
    refine ⟨fun none => ?_, iff_of_true (fun result sent => ?_) fun wrong => absurd wrong goes⟩
    · obtain ⟨result, sent, -⟩ | ⟨-, reason⟩ := stays
      · rw [none] at sent
        cases sent
      · exact reason.imp_right orouteFindEnt_of_sendVia
    · obtain ⟨result', sent', ⟨error, refused⟩, released⟩ | ⟨none, -⟩ := stays
      · obtain rfl := some.inj (sent.symm.trans sent')
        refine ⟨fun via pack handed => ?_, fun _ => ⟨error, refused, released⟩⟩
        rw [refused] at handed
        cases handed
      · rw [none] at sent
        cases sent
  case pos =>
    obtain ⟨result, via, pack, sent, handed, delivers⟩ :=
      @ipSend_goes buffers locals channel port s currtim data small goes
    refine ⟨fun none => ?_, fun right _ => ?_, fun fits result' sent' => ?_⟩
    · rw [none] at sent
      cases sent
    · obtain ⟨headers, unsendable⟩ := right result sent
      refine ⟨fun spec => ?_, fun wrong => ?_⟩
      · -- the length in the header is the one before the options
        have length := (headers via pack handed).length
        rw [delivers.length, delivers.size, if_pos spec, Nat.mod_eq_of_lt small] at length
        exact List.length_eq_zero_iff.mp (by omega)
      · obtain ⟨error, refused, -⟩ := unsendable wrong
        rw [refused] at handed
        cases handed
    · obtain rfl := some.inj (sent.symm.trans sent')
      obtain ⟨free, sendable⟩ := fits goes
      refine ⟨fun via' pack' handed' => ?_, fun wrong => absurd wrong sendable⟩
      rw [handed] at handed'
      cases handed'
      exact delivers.right free small

/-! ### A channel with options -/

/-- A channel of raw IP with three no-operations as options, to a neighbour. -/
def optionChannel : IpChannel where
  optset := true
  rwdatonly := true
  hdrOSpec := true
  hdropt := [1, 1, 1, 0]
  tos := 0
  ttl := 30
  df := false
  proto := some 1
  rem := some 0x0200000a

/-- The port 10.0.0.1 of a class A network. -/
def classAPort : SendPort := ⟨0, true, 0x0100000a, 0xff, 7⟩

/-- New accessors that are zero. -/
def zeroLocals : SendLocals := ⟨0, 0, 0, fun _ => 0, [], false⟩

/-- Four bytes that go to a neighbour without options go right. -/
theorem plain_packet_right :
    SendRight buffers512 zeroLocals { optionChannel with hdropt := [] } classAPort {} 0
      [⟨0, [8, 0, 0xf7, 0xff]⟩] :=
  (ipSend_right_iff buffers512 zeroLocals { optionChannel with hdropt := [] } classAPort {} 0
    [⟨0, [8, 0, 0xf7, 0xff]⟩] (by decide)).2.mpr fun _ =>
    ⟨fun _ => rfl, by unfold Unsendable; decide⟩

/-- The length of a packet that is handed over. -/
def handedLength : Option SendResult → Option (Nat × Nat)
  | some ⟨.handed _ pack, _, _, _⟩ => some (totalLength (bytes pack), (bytes pack).length)
  | _ => none

/-- With options of the channel the length in the header is 24, and the packet has 28 bytes. -/
theorem options_length_wrong :
    ¬SendRight buffers512 zeroLocals optionChannel classAPort {} 0 [⟨0, [8, 0, 0xf7, 0xff]⟩] := by
  intro right
  have lengths : handedLength (ipSend buffers512 zeroLocals optionChannel classAPort {} 0
    [⟨0, [8, 0, 0xf7, 0xff]⟩]) = some (24, 28) := by decide
  generalize sent : ipSend buffers512 zeroLocals optionChannel classAPort {} 0
    [⟨0, [8, 0, 0xf7, 0xff]⟩] = result at lengths
  unfold handedLength at lengths
  split at lengths
  case h_1 via pack inUse frameId routes =>
    obtain ⟨given, whole⟩ := Prod.mk.inj (some.inj lengths)
    have length := ((right _ sent).1 via pack rfl).length
    rw [given, whole] at length
    cases length
  case h_2 => cases lengths

/-! ### The way to the receiver -/

section Good

variable {beyond packet padding : List UInt8} {pack : Acc} {next : List Acc}

theorem header_append (complete : 20 ≤ packet.length) (padding : List UInt8) :
    version (packet ++ padding) = version packet ∧ hdrLen (packet ++ padding) = hdrLen packet ∧
      totalLength (packet ++ padding) = totalLength packet := by
  have parts := @header_bytes ⟨0, packet⟩ [⟨0, padding⟩] complete
  rwa [bytes_cons, bytes_singleton] at parts

theorem GoodHeader.complete (good : GoodHeader packet) : 20 ≤ packet.length :=
  good.least.trans (good.inside.trans good.received)

/-- A good packet passes the tests if its header is in the first accessor. -/
theorem ipFragChk_good (same : bytes (pack :: next) = packet) (good : GoodHeader packet)
    (whole : totalLength packet = packet.length) (first : hdrLen packet ≤ pack.data.length) :
    ipFragChk beyond pack next = true := by
  subst same
  have complete := good.least.trans first
  obtain ⟨version, ihl, total⟩ := @header_bytes pack next complete
  have header : (bytes (pack :: next)).take (hdrLen (bytes (pack :: next))) =
      pack.data.take (hdrLen pack.data) := by
    rw [ihl, bytes_cons, List.take_append_of_le_length (ihl ▸ first)]
  have checksum := good.checksum
  have options := good.options
  rw [header] at checksum options
  have taken : (pack.data.take (hdrLen pack.data)).length = hdrLen pack.data :=
    List.length_take_of_le (ihl ▸ first)
  refine ipFragChk_iff.mpr ⟨⟨complete, version ▸ good.version, total ▸ whole, ?_⟩, ihl ▸ first,
    options⟩
  refine (oneCSum_ones ?_ ?_).mpr checksum
  · rw [taken]
    exact hdrLen_le pack.data
  · rw [taken, hdrLen]
    omega

theorem trimAndCheck_good (good : GoodHeader packet) (whole : totalLength packet = packet.length)
    (same : bytes (pack :: next) = packet ++ padding) (first : hdrLen packet ≤ pack.data.length) :
    ∃ acc rest, trimAndCheck beyond (packet ++ padding).length (pack :: next) =
      some (.accepted acc rest) ∧ bytes (acc :: rest) = packet := by
  have total : totalLength pack.data = packet.length := by
    rw [← (@header_bytes pack next (good.least.trans first)).2.2, same,
      (header_append good.complete padding).2.2, whole]
  unfold trimAndCheck
  dsimp only
  rw [total]
  split
  case isTrue longer =>
    have size := good.complete
    obtain ⟨count, length⟩ := Nat.exists_eq_add_one_of_ne_zero (show packet.length ≠ 0 by omega)
    obtain ⟨cut, found⟩ := @exists_bfCut pack next 0 packet.length (by rw [same]; omega)
    have packet' := bfCut_eq found
    rw [same, List.drop_zero, List.take_left] at packet'
    rw [length] at found
    have least := good.least
    obtain ⟨rest, rfl⟩ := bfCut_head (by omega) found
    have first' : hdrLen packet ≤ ((pack.data.drop 0).take (count + 1)).length := by
      rw [List.length_take, List.drop_zero, ← length]
      exact le_min (good.inside.trans good.received) first
    refine ⟨_, rest, ?_, packet'⟩
    rw [length, found, bind_some]
    exact if_pos (ipFragChk_good packet' good whole first')
  case isFalse same' =>
    have none : padding = [] := by
      rw [List.length_append] at same'
      exact List.length_eq_zero_iff.mp (by omega)
    rw [none, List.append_nil] at same
    exact ⟨pack, next, if_pos (ipFragChk_good same good whole first), same⟩

end Good

theorem ipArrived_good {buffers : Buffers} {beyond packet padding : List UInt8} {frame : List Acc}
    (good : GoodHeader packet) (whole : totalLength packet = packet.length)
    (same : bytes frame = packet ++ padding) :
    ∃ acc next, ipArrived buffers.toPacking beyond frame = some (.accepted acc next) ∧
      bytes (acc :: next) = packet := by
  have complete : 20 ≤ (packet ++ padding).length := by
    rw [List.length_append]
    exact good.complete.trans (Nat.le_add_right _ _)
  unfold ipArrived
  rw [same, if_neg (Nat.not_lt.mpr complete)]
  cases frame with
  | nil =>
    rw [← same] at complete
    cases complete
  | cons pack next =>
    have filled : packet ++ padding ≠ [] := List.length_pos_iff.mp (by omega)
    obtain ⟨acc, rest, aligned, size, -⟩ := @exists_bfAlign buffers 20 pack next 4 (by decide)
      (by decide) (same ▸ filled)
    have long : 20 ≤ acc.data.length := by
      rw [same] at size
      split_ifs at size <;> omega
    have same' := (bytes_bfAlign aligned).trans same
    have ihl : hdrLen acc.data = hdrLen packet := by
      rw [← (@header_bytes acc rest long).2.1, same', (header_append good.complete padding).2.1]
    have packed : bfPackIffLess buffers.toPacking (acc :: rest) 20 = acc :: rest := if_pos long
    rw [aligned, bind_some, packed]
    dsimp only
    rw [if_neg (Nat.not_lt.mpr long), ihl]
    split
    case isTrue =>
      obtain ⟨acc', rest', aligned', -⟩ := @exists_bfAlign buffers 20 acc rest 4 (by decide)
        (by decide) (same' ▸ filled)
      have again := (bytes_bfAlign aligned').trans same'
      obtain ⟨first, others, packed', long'⟩ := @bfPackIffLess_first buffers acc' rest'
        (hdrLen packet) (by
          rw [again, List.length_append]
          exact (good.inside.trans good.received).trans (Nat.le_add_right _ _))
        ((hdrLen_le packet).trans (by decide))
      rw [aligned', bind_some, packed']
      refine trimAndCheck_good good whole ?_ long'
      rw [← packed', bytes_bfPackIffLess, again]
    case isFalse short => exact trimAndCheck_good good whole same' (by omega)

/-- What `ip_send` hands over has a good header, without options of the channel. -/
theorem Delivers.good {channel : IpChannel} {port : SendPort} {s : Orouting} {currtim : Nat}
    {packet : List UInt8} {via : IpVia} {pack : List Acc}
    (delivers : Delivers channel port packet via pack)
    (goes : SendGoes channel port s currtim packet)
    (free : channel.hdrOSpec = true → channel.hdropt = []) (small : packet.length < 2 ^ 16) :
    GoodHeader (bytes pack) ∧ totalLength (bytes pack) = (bytes pack).length := by
  have right := delivers.right free small
  have size : headerSize channel packet = hdrLen packet ∧ HeaderGiven packet ∨
      headerSize channel packet = 20 := by
    unfold headerSize
    split
    case isTrue spec => exact .inr (by rw [free spec, List.length_nil])
    case isFalse any => exact .inl ⟨rfl, goes.header.resolve_left any⟩
  have length : (bytes pack).length = packet.length := by
    have given := delivers.length
    rwa [right.length, Nat.mod_eq_of_lt small] at given
  have complete := goes.complete
  refine ⟨⟨right.version, ?_, ?_, right.length.le, ?_, ?_⟩, right.length⟩
  · rw [right.ihl]
    rcases size with ⟨same, given⟩ | same
    · exact same ▸ given.least
    · exact same.ge
  · rw [right.ihl, right.length, length]
    rcases size with ⟨same, given⟩ | same
    · exact same ▸ given.inside
    · exact same ▸ complete
  · rw [right.ihl]
    exact right.chksum
  · rw [right.ihl, List.drop_take, right.rest, ← List.drop_take]
    rcases size with ⟨same, given⟩ | same
    · exact same ▸ given.options
    · rw [same, List.drop_eq_nil_of_le (List.length_take_le _ _)]
      exact .nil

/-- What `ip_send` hands over is accepted by `ip_arrived`, unchanged, however it is split into
accessors and whatever padding is behind it in its frame, unless the channel has options of its own. -/
theorem sent_packet_accepted (buffers : Buffers) (locals : SendLocals) (channel : IpChannel)
    (port : SendPort) (s : Orouting) (currtim : Nat) (data : List Acc)
    (few : (bytes data).length ≤ ipMaxPacksize)
    (free : channel.hdrOSpec = true → channel.hdropt = [])
    (goes : SendGoes channel port s currtim (userPacket channel locals data)) :
    ∃ result via pack, ipSend buffers locals channel port s currtim data = some result ∧
      result.sent = .handed via pack ∧
      ∀ (receiver : Buffers) (beyond padding : List UInt8) (frame : List Acc),
        bytes frame = bytes pack ++ padding → ∃ acc next,
          ipArrived receiver.toPacking beyond frame = some (.accepted acc next) ∧
          bytes (acc :: next) = bytes pack := by
  have small : (userPacket channel locals data).length < 2 ^ 16 := by
    unfold ipMaxPacksize at few
    unfold userPacket addHdr
    split
    · rw [length_bytes_cons, List.length_map, List.length_range]
      omega
    · omega
  obtain ⟨result, via, pack, sent, handed, delivers⟩ :=
    @ipSend_goes buffers locals channel port s currtim data small goes
  obtain ⟨good, whole⟩ := delivers.good goes free small
  exact ⟨result, via, pack, sent, handed, fun receiver beyond padding frame same =>
    ipArrived_good good whole same⟩

/-- Four bytes to a neighbour arrive in a frame with two bytes of padding. -/
theorem sent_packet_accepted_four : ∃ result via pack acc next,
    ipSend buffers512 zeroLocals { optionChannel with hdropt := [] } classAPort {} 0
        [⟨0, [8, 0, 0xf7, 0xff]⟩] = some result ∧ result.sent = .handed via pack ∧
      ipArrived buffers512.toPacking [] (pack ++ [⟨0, [0, 0]⟩]) = some (.accepted acc next) ∧
      bytes (acc :: next) = bytes pack := by
  obtain ⟨result, via, pack, sent, handed, arrives⟩ :=
    sent_packet_accepted buffers512 zeroLocals { optionChannel with hdropt := [] } classAPort {} 0
      [⟨0, [8, 0, 0xf7, 0xff]⟩] (by decide) (fun _ => rfl)
      ⟨rfl, rfl, by decide, .inl rfl, by decide,
        .inr (.inr (.inr (.inl (by decide))))⟩
  obtain ⟨acc, next, accepted, same⟩ :=
    arrives buffers512 [] [0, 0] (pack ++ [⟨0, [0, 0]⟩]) (by rw [bytes, List.flatMap_append]; rfl)
  exact ⟨result, via, pack, acc, next, sent, handed, accepted, same⟩

end Minix.Inet
