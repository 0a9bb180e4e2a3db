/-
This file proves which datagrams are accepted and sent as the protocol of the UDP checksum asks.

The receiver sums everything that the packet holds behind its header, and so also what follows the
datagram. The sender takes the complement of every sum, also of the one that is all ones, whose
complement stands for no checksum.
-/

import Minix.Inet.OutputHeader
import Minix.Inet.UdpWrite

namespace Minix.Inet

open OnesComplement (Same)

/-! ### Right checksums -/

/-- A datagram with a complete header, in a packet that holds all of it. -/
structure Datagram (data : List UInt8) : Prop where
  hdr : 20 ≤ hdrLen data
  least : 8 ≤ udpLength (ipPayload data)
  whole : udpLength (ipPayload data) ≤ (ipPayload data).length

/-- The packet is passed to the users. -/
def Accepted (buffers : Buffers) (locals : UdpLocals) (port : UdpPort) (pack : List Acc) : Prop :=
  ∃ noIpoptPack ipoptPack queued unreachable,
    udpIpArrived buffers locals port pack (bytes pack).length =
      some (.passed noIpoptPack ipoptPack queued unreachable)

/-- The sum over the pseudo header and the first `uh_length` bytes. -/
def datagramSum (data : List UInt8) : Nat :=
  wordSum (padded ((ipPayload data).take (udpLength (ipPayload data)))) +
    wordSum (field data 12 4) + wordSum (field data 16 4) + wordSum [0, data.getD 9 0] +
    wordSum (field (ipPayload data) 4 2)

/-- A datagram is accepted if it has no checksum or the right one, and only then. -/
def ReceivesRight (buffers : Buffers) (locals : UdpLocals) (port : UdpPort) (pack : List Acc) :
    Prop :=
  Accepted buffers locals port pack ↔
    getU16 (ipPayload (bytes pack)) 6 = 0 ∨ datagramSum (bytes pack) ≡ 0 [MOD 2 ^ 16 - 1]

/-- What the bytes behind the datagram add, in the places where they lie. -/
def trailingSum (data : List UInt8) : Nat :=
  weighBytes (udpLength (ipPayload data) % 2 == 1)
    ((ipPayload data).drop (udpLength (ipPayload data)))

/-- The bytes behind a datagram with a checksum do not change whether it is right: they add nothing,
or it is wrong without them and with them. -/
def TrailerHarmless (data : List UInt8) : Prop :=
  getU16 (ipPayload data) 6 = 0 ∨ trailingSum data ≡ 0 [MOD 2 ^ 16 - 1] ∨
    (¬datagramSum data ≡ 0 [MOD 2 ^ 16 - 1] ∧
      ¬datagramSum data + trailingSum data ≡ 0 [MOD 2 ^ 16 - 1])

/-- A packet brings a datagram that was sent, from the address of the port. -/
structure Carries (ipaddr : UInt32) (sending : UdpSending) (data : List UInt8) : Prop where
  hdr : 20 ≤ hdrLen data
  src : field data 12 4 = longBytes ipaddr
  dst : field data 16 4 = field sending.ipHdr.data 16 4
  proto : data.getD 9 0 = sending.ipHdr.data.getD 9 0
  payload : ipPayload data = bytes (sending.udpHdr :: sending.userData)

/-- The datagram has a checksum, and whoever receives it accepts it. -/
def SendsRight (ipaddr : UInt32) (sending : UdpSending) : Prop :=
  getU16 sending.udpHdr.data 6 ≠ 0 ∧
    ∀ buffers locals port pack next, Handed pack next →
      Carries ipaddr sending (bytes (pack :: next)) →
        Accepted buffers locals port (pack :: next)

/-- The sum over the pseudo header and a datagram without a checksum. -/
def writtenSum (ipaddr dst : UInt32) (srcPort dstPort : UInt16) (user : UdpUser) : Nat :=
  wordSum (padded (newUdpHdr srcPort dstPort user.userDataSize 0 ++ bytes user.userData)) +
    wordSum (longBytes ipaddr) + wordSum (longBytes dst) + wordSum [0, 17] +
    wordSum (udpLengthBytes user.userDataSize)

/-! ### Datagrams that are received -/

section Received

variable {buffers : Buffers} {locals : UdpLocals} {port : UdpPort} {pack : Acc} {next : List Acc}
  {data : List UInt8}

/-- A datagram is accepted if the sum over all that the packet holds is right. -/
theorem accepted_iff (handed : Handed pack next) (datagram : Datagram (bytes (pack :: next))) :
    Accepted buffers locals port (pack :: next) ↔ UdpSumRight (bytes (pack :: next)) := by
  obtain ⟨hdr, least, whole⟩ := datagram
  obtain ⟨ipHdr, udpHdr, rest, header, first, payload, length, drops, keeps⟩ :=
    @udpIpArrived_long pack next buffers locals port handed (least.trans whole)
  constructor
  · rintro ⟨_, _, _, _, passed⟩
    by_contra wrong
    rw [drops (.inr wrong)] at passed
    cases passed
  · intro right
    obtain ⟨passes, -⟩ := @udpPass_eq buffers port pack udpHdr next rest ipHdr handed header first
      payload (length ▸ whole)
    rw [length, ← @hdrLen_bytes pack next handed.complete] at passes
    obtain ⟨noIpoptPack, ipoptPack, queued, unreachable, passed, -⟩ := passes ⟨least, hdr⟩
    rw [hdrLen_bytes handed.complete] at passed
    exact ⟨_, _, _, _, (keeps whole right).trans passed⟩

theorem udpSumRight_iff (whole : udpLength (ipPayload data) ≤ (ipPayload data).length) :
    UdpSumRight data ↔ getU16 (ipPayload data) 6 = 0 ∨
      datagramSum data + trailingSum data ≡ 0 [MOD 2 ^ 16 - 1] := by
  have split : weighBytes false (ipPayload data) =
      weighBytes false ((ipPayload data).take (udpLength (ipPayload data))) + trailingSum data := by
    have append := @weighBytes_append ((ipPayload data).take (udpLength (ipPayload data)))
      ((ipPayload data).drop (udpLength (ipPayload data))) false
    rwa [List.take_append_drop, List.length_take, Nat.min_eq_left whole, Bool.false_xor] at append
  unfold UdpSumRight datagramSum
  rw [wordSum_padded, wordSum_padded, split]
  have order : ∀ a b c d e f : Nat, a + f + b + c + d + e = a + b + c + d + e + f := by
    intros
    omega
  rw [order]

/-- A datagram is treated as its first `uh_length` bytes say exactly if the bytes behind do not
matter. -/
theorem receivesRight_iff (handed : Handed pack next)
    (datagram : Datagram (bytes (pack :: next))) :
    ReceivesRight buffers locals port (pack :: next) ↔ TrailerHarmless (bytes (pack :: next)) := by
  unfold ReceivesRight TrailerHarmless
  rw [accepted_iff handed datagram, udpSumRight_iff datagram.whole]
  by_cases none : getU16 (ipPayload (bytes (pack :: next))) 6 = 0
  · exact iff_of_true (iff_of_true (.inl none) (.inl none)) (.inl none)
  rw [or_iff_right none, or_iff_right none, or_iff_right none]
  generalize datagramSum (bytes (pack :: next)) = sum
  generalize trailingSum (bytes (pack :: next)) = trailing
  change ((sum + trailing) % 65535 = 0 % 65535 ↔ sum % 65535 = 0 % 65535) ↔
    trailing % 65535 = 0 % 65535 ∨
      (¬sum % 65535 = 0 % 65535 ∧ ¬(sum + trailing) % 65535 = 0 % 65535)
  omega

end Received

/-! ### Datagrams that are sent -/

section Sent

variable {buffers : Buffers} {locals : WriteLocals} {ipaddr dst : UInt32} {opt : UdpOpt}
  {wrCount : Nat} {pack ipOpts userData : List Acc} {user : UdpUser}
  {srcPort dstPort chksum : UInt16} {sending : UdpSending} {userDataSize : Nat} {data : List UInt8}

theorem exists_of_handed
    (split : splitUserdata buffers opt wrCount pack = some (.ok user))
    (ends : udpEnds opt user.ioHdr = some (dst, srcPort, dstPort))
    (written : restartWriteFd buffers locals ipaddr opt wrCount pack = some (.handed sending)) :
    ∃ chksum ipOpts,
      writeChksum locals ipaddr dst ⟨locals.udpHdr, newUdpHdr srcPort dstPort user.userDataSize 0⟩
        user.userDataSize user.userData = some chksum ∧
      sending = ⟨⟨locals.ipHdr, newIpHdr locals.fresh user.ipOptSize dst⟩, ipOpts,
        ⟨locals.udpHdr, newUdpHdr srcPort dstPort user.userDataSize
          (complementUnlessZero chksum)⟩, user.userData⟩ := by
  unfold restartWriteFd at written
  split at written
  · cases written
  rw [split, Option.bind_some] at written
  obtain ⟨made, making, same⟩ := Option.map_eq_some_iff.mp written
  obtain rfl := UdpWritten.handed.inj same
  unfold makeDatagram at making
  rw [ends, Option.bind_some] at making
  obtain ⟨chksum, summed, making⟩ := Option.bind_eq_some_iff.mp making
  obtain ⟨ipOpts, -, rfl⟩ := Option.map_eq_some_iff.mp making
  exact ⟨chksum, ipOpts, summed, rfl⟩

theorem length_userData (split : splitUserdata buffers opt wrCount pack = some (.ok user))
    (count : (bytes pack).length = wrCount) :
    (bytes user.userData).length = user.userDataSize := by
  unfold splitUserdata at split
  split at split
  case isFalse =>
    obtain rfl := Except.ok.inj (Option.some.inj split)
    exact count
  case isTrue =>
    have same : bytes (bfPackIffLess buffers.toPacking pack 16) = bytes pack :=
      bytes_bfPackIffLess
    split at split
    · cases split
    case h_2 udpIoHdr next packed =>
      rw [packed] at same
      dsimp only at split
      split at split
      · cases split
      split at split
      · cases split
      case isFalse inside _ =>
        obtain ⟨ipOptPack, -, split⟩ := Option.bind_eq_some_iff.mp split
        obtain ⟨userData, cut, made⟩ := Option.map_eq_some_iff.mp split
        obtain rfl := Except.ok.inj made
        change (bytes userData).length = wrCount - 16 - _
        rw [bfCut_eq cut, same, List.length_take, List.length_drop, count]
        omega

theorem complementUnlessZero_eq (chksum : UInt16) : complementUnlessZero chksum = ~~~chksum := by
  have some' : ~~~chksum.toUInt32 ≠ 0 := by
    intro zero
    have ones : chksum.toUInt32 = 0xffffffff := by
      rw [← UInt32.not_not (a := chksum.toUInt32), zero]
      rfl
    have small := chksum.toNat_lt
    rw [← UInt16.toNat_toUInt32, ones] at small
    exact absurd small (by decide)
  unfold complementUnlessZero
  rw [if_pos some']
  rw [UInt32.toUInt16_not, UInt16.toUInt16_toUInt32]

theorem weighBytes_newUdpHdr :
    weighBytes false (newUdpHdr srcPort dstPort userDataSize chksum ++ data) =
      weighBytes false (newUdpHdr srcPort dstPort userDataSize 0 ++ data) + chksum.toNat := by
  have written := toNat_low chksum
  have split (w : UInt16) : weighBytes false (newUdpHdr srcPort dstPort userDataSize w ++ data) =
      wordSum (newUdpHdr srcPort dstPort userDataSize w) + weighBytes false data := by
    have length : (newUdpHdr srcPort dstPort userDataSize w).length = 8 := rfl
    rw [weighBytes_append, wordSum_eq (by rw [length]), length]
    rfl
  rw [split, split]
  unfold newUdpHdr shortBytes udpLengthBytes
  simp only [List.cons_append, List.nil_append, wordSum]
  have zero : (0 : UInt16).toUInt8.toNat + 256 * ((0 : UInt16) >>> 8).toUInt8.toNat = 0 := rfl
  omega

/-- The sender's checksum is the one's complement sum of the pseudo header and the datagram. -/
theorem same_writeChksum
    (summed : writeChksum locals ipaddr dst
      ⟨locals.udpHdr, newUdpHdr srcPort dstPort user.userDataSize 0⟩ user.userDataSize
        user.userData = some chksum)
    (short : (bytes user.userData).length ≤ 40000) :
    Same 256 chksum.toNat (writtenSum ipaddr dst srcPort dstPort user) := by
  obtain ⟨sum, found, rfl⟩ := Option.map_eq_some_iff.mp summed
  have whole : (bytes (⟨locals.udpHdr, newUdpHdr srcPort dstPort user.userDataSize 0⟩ ::
      user.userData)).length ≤ 65600 := by
    rw [length_bytes_cons]
    change 8 + _ ≤ _
    omega
  obtain ⟨sum', found', -, same⟩ := same_udpPackOneCsum
    fun acc member => (length_le_bytes member).trans whole
  obtain rfl := Option.some.inj (found'.symm.trans found)
  unfold writtenSum
  rw [wordSum_padded]
  have total := @same_continued (longBytes ipaddr) _ _ locals.ipaddr same (show 4 ≤ 60 by decide)
    (show 4 % 2 = 0 from rfl)
  have total := @same_continued (longBytes dst) _ _ (locals.ipHdr + 16) total
    (show 4 ≤ 60 by decide) (show 4 % 2 = 0 from rfl)
  have total := @same_continued [0, 17] _ _ locals.u16 total (show 2 ≤ 60 by decide)
    (show 2 % 2 = 0 from rfl)
  exact @same_continued (udpLengthBytes user.userDataSize) _ _ (locals.udpHdr + 4) total
    (show 2 ≤ 60 by decide) (show 2 % 2 = 0 from rfl)

theorem payload_eq {udpHdr : Nat} {ipHdr : Acc}
    (carries :
      Carries ipaddr ⟨ipHdr, ipOpts, ⟨udpHdr, newUdpHdr srcPort dstPort userDataSize chksum⟩,
      userData⟩ data) :
    ipPayload data = newUdpHdr srcPort dstPort userDataSize chksum ++ bytes userData := by
  rw [carries.payload, bytes_cons]

theorem Carries.datagram {udpHdr : Nat} {ipHdr : Acc}
    (carries :
      Carries ipaddr ⟨ipHdr, ipOpts, ⟨udpHdr, newUdpHdr srcPort dstPort userDataSize chksum⟩,
      userData⟩ data) (size : (bytes userData).length = userDataSize)
    (short : userDataSize ≤ 40000) :
    Datagram data := by
  have length : udpLength (ipPayload data) = 8 + userDataSize := by
    rw [payload_eq carries]
    refine (toNat_net16 (8 + userDataSize)).trans ?_
    omega
  have whole : (ipPayload data).length = 8 + userDataSize := by
    rw [payload_eq carries, List.length_append, size]
    rfl
  refine ⟨carries.hdr, ?_, ?_⟩ <;> omega

theorem Carries.sumRight {locals : WriteLocals} {ipOpts : List Acc}
    (carries : Carries ipaddr
      ⟨⟨locals.ipHdr, newIpHdr locals.fresh user.ipOptSize dst⟩, ipOpts,
        ⟨locals.udpHdr, newUdpHdr srcPort dstPort user.userDataSize (~~~chksum)⟩,
        user.userData⟩ data)
    (same : Same 256 chksum.toNat (writtenSum ipaddr dst srcPort dstPort user)) :
    UdpSumRight data := by
  have payload := payload_eq carries
  have src := carries.src
  have dst' : field data 16 4 = longBytes dst := carries.dst
  have proto : data.getD 9 0 = 17 := carries.proto
  have length : field (ipPayload data) 4 2 = udpLengthBytes user.userDataSize := by
    rw [payload]
    rfl
  have complement := toNat_complement chksum
  have small := chksum.toNat_lt
  have congruent : chksum.toNat % 65535 = writtenSum ipaddr dst srcPort dstPort user % 65535 :=
    same.1
  refine .inr ?_
  rw [src, dst', proto, length, wordSum_padded, payload, weighBytes_newUdpHdr, complement]
  unfold writtenSum at congruent
  rw [wordSum_padded] at congruent
  change _ % 65535 = 0 % 65535
  omega

/-- A datagram is sent with a checksum that the receiver accepts exactly if its sum is not all ones:
then the complement is taken for no checksum. -/
theorem sendsRight_iff (split : splitUserdata buffers opt wrCount pack = some (.ok user))
    (ends : udpEnds opt user.ioHdr = some (dst, srcPort, dstPort))
    (count : (bytes pack).length = wrCount)
    (written : restartWriteFd buffers locals ipaddr opt wrCount pack = some (.handed sending))
    (takes : ipWriteTakes sending.wrPack = true) :
    SendsRight ipaddr sending ↔
      ¬writtenSum ipaddr dst srcPort dstPort user ≡ 0 [MOD 2 ^ 16 - 1] := by
  have size := length_userData split count
  obtain ⟨chksum, ipOpts, summed, rfl⟩ := exists_of_handed split ends written
  have short : (bytes user.userData).length ≤ 40000 := by
    have few : (bytes _).length ≤ 40000 := of_decide_eq_true takes
    unfold UdpSending.wrPack bytes at few
    rw [List.flatMap_cons, List.flatMap_append, List.flatMap_cons] at few
    simp only [List.length_append] at few
    unfold bytes
    omega
  have same := same_writeChksum summed short
  have some' : writtenSum ipaddr dst srcPort dstPort user ≠ 0 := by
    unfold writtenSum
    have proto : wordSum [0, 17] = 4352 := by decide
    omega
  have stored : getU16 (newUdpHdr srcPort dstPort user.userDataSize (~~~chksum)) 6 = ~~~chksum :=
    UInt16.toNat_inj.mp ((toNat_getWord _ _).trans (toNat_low _))
  have ones := ones_iff same
  rw [and_iff_left some'] at ones
  rw [complementUnlessZero_eq]
  unfold SendsRight
  rw [stored, complement_ne_zero, ← ones]
  refine and_iff_left_iff_imp.mpr fun _ buffers' locals' port first next handed carries => ?_
  exact (accepted_iff handed (carries.datagram size (size ▸ short))).mpr (carries.sumRight same)

end Sent

/-! ### Both directions -/

/-- Datagrams that are received are treated right exactly if what follows them in their packets does
not matter, and those that are sent are right exactly if their sum is not all ones. -/
theorem udp_checksums_iff (buffers : Buffers) (locals : UdpLocals) (port : UdpPort) (pack : Acc)
    (next : List Acc) (handed : Handed pack next) (datagram : Datagram (bytes (pack :: next)))
    (buffers' : Buffers) (writeLocals : WriteLocals) (ipaddr dst : UInt32) (opt : UdpOpt)
    (wrCount : Nat) (userdata : List Acc) (user : UdpUser) (srcPort dstPort : UInt16)
    (sending : UdpSending) (count : (bytes userdata).length = wrCount)
    (split : splitUserdata buffers' opt wrCount userdata = some (.ok user))
    (ends : udpEnds opt user.ioHdr = some (dst, srcPort, dstPort))
    (written : restartWriteFd buffers' writeLocals ipaddr opt wrCount userdata =
      some (.handed sending))
    (takes : ipWriteTakes sending.wrPack = true) :
    (ReceivesRight buffers locals port (pack :: next) ↔
      TrailerHarmless (bytes (pack :: next))) ∧
    (SendsRight ipaddr sending ↔
      ¬writtenSum ipaddr dst srcPort dstPort user ≡ 0 [MOD 2 ^ 16 - 1]) :=
  ⟨receivesRight_iff handed datagram, sendsRight_iff split ends count written takes⟩

/-- A datagram of no data with the right checksum, and two bytes behind it. -/
def trailedDatagram : Acc :=
  ⟨0, [0x45, 0, 0, 30, 0, 0, 0, 0, 64, 17, 0, 0, 10, 0, 0, 1, 10, 0, 0, 2] ++
    [4, 0, 0, 53, 0, 8, 0xe7, 0xa6] ++ [1, 0]⟩

theorem handed_trailedDatagram : Handed trailedDatagram [] where
  complete := by
    change 20 ≤ 30
    omega
  inside := by
    change ((0x45 : UInt8) &&& 0xf).toNat * 4 ≤ 30
    decide
  small := by
    change 30 < 2 ^ 32
    omega
  buffered := List.forall_mem_singleton.mpr (by change 30 ≤ 32 * 1024; omega)

theorem datagram_trailedDatagram : Datagram (bytes [trailedDatagram]) := by
  refine ⟨?_, ?_, ?_⟩ <;> decide

/-- A channel with both ports and the remote address. -/
def connectedOpt : UdpOpt := ⟨false, true, false, true, 0x0004, 0x3500, 0x0200000a⟩

/-- The datagram with two bytes of data. -/
def shortSending (data : List UInt8) (chksum : UInt16) : UdpSending :=
  ⟨⟨0, newIpHdr (fun _ => 0) 0 0x0200000a⟩, [],
    ⟨0, newUdpHdr 0x0004 0x3500 2 chksum⟩, [⟨0, data⟩]⟩

/-- Two bytes behind a right datagram make it dropped; and a datagram whose sum is all ones is sent
without a checksum. -/
theorem udp_checksums_fail :
    (¬∀ (buffers : Buffers) (locals : UdpLocals) (port : UdpPort) (pack : Acc) (next : List Acc),
      Handed pack next → Datagram (bytes (pack :: next)) →
        ReceivesRight buffers locals port (pack :: next)) ∧
    ¬∀ (buffers : Buffers) (locals : WriteLocals) (ipaddr : UInt32) (opt : UdpOpt) (wrCount : Nat)
      (userdata : List Acc) (sending : UdpSending), (bytes userdata).length = wrCount →
        restartWriteFd buffers locals ipaddr opt wrCount userdata = some (.handed sending) →
          ipWriteTakes sending.wrPack = true → SendsRight ipaddr sending := by
  refine ⟨fun right => ?_, fun right => ?_⟩
  · have harmless := (receivesRight_iff handed_trailedDatagram datagram_trailedDatagram).mp
      (right buffers512 ⟨0, 0, 0, 0⟩ ⟨0, 0, [], fun _ => []⟩ trailedDatagram []
        handed_trailedDatagram datagram_trailedDatagram)
    rcases harmless with none | nothing | ⟨wrong, -⟩
    · exact absurd none (by decide)
    · exact absurd nothing (by decide)
    · exact absurd wrong (not_not.mpr (by decide))
  · obtain ⟨some', -⟩ := right buffers512 ⟨0, 0, 0, 0, 0, fun _ => 0⟩ 0x0100000a connectedOpt 2
      [⟨0, [0xe7, 0xa2]⟩] (shortSending [0xe7, 0xa2] 0) rfl rfl (by decide)
    exact some' (by decide)

/-- A datagram without a checksum is received, and one with the data 1 and 2 is sent. -/
theorem udp_checksums_right :
    (ReceivesRight buffers512 ⟨0, 0, 0, 0⟩ ⟨0, 0, [], fun _ => []⟩ [emptyDatagram 8] ↔
      TrailerHarmless (bytes [emptyDatagram 8])) ∧
    (SendsRight 0x0100000a (shortSending [1, 2] 0xa0e6) ↔
      ¬writtenSum 0x0100000a 0x0200000a 0x0004 0x3500 ⟨none, 0, [], 2, [⟨0, [1, 2]⟩]⟩ ≡ 0
        [MOD 2 ^ 16 - 1]) :=
  udp_checksums_iff buffers512 ⟨0, 0, 0, 0⟩ ⟨0, 0, [], fun _ => []⟩ (emptyDatagram 8) []
    (handed_emptyDatagram 8) (by refine ⟨?_, ?_, ?_⟩ <;> decide) buffers512
    ⟨0, 0, 0, 0, 0, fun _ => 0⟩ 0x0100000a 0x0200000a connectedOpt 2 [⟨0, [1, 2]⟩]
    ⟨none, 0, [], 2, [⟨0, [1, 2]⟩]⟩ 0x0004 0x3500 (shortSending [1, 2] 0xa0e6) rfl rfl rfl rfl
    (by decide)

end Minix.Inet
