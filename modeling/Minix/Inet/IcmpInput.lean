/-
This file models `process_data` (`inet/generic/icmp.c`) with what the handlers of the messages read
from the chain of accessors that a datagram came in, and proves when all of it lies in the accessor
that is read from, each chain is released once, and no assertion of the buffer library fails.

What the handlers do with the fields is in the model of the output routes. A result that is `none`
is a failed assertion, a read outside the accessor, or a chain that is released twice.
-/

import Minix.Inet.Buffers
import Minix.Inet.IcmpUpdates

namespace Minix.Inet

open Option (bind_some)

/-! ### The model -/

/-- The chains of accessors that are in use. -/
inductive IcmpChain
  | data | icmpData | oldIpPack
deriving DecidableEq

/-- What becomes of a datagram. -/
inductive IcmpOutcome
  | dropped
  /-- The fields go to the handler of the message. -/
  | message (pack : IcmpPacket)
  /-- A packet goes to `enqueue_pack`. -/
  | replied (pack : List Acc)

/-- An outcome, with the chains that are still in use. -/
abbrev IcmpRun := Option (IcmpOutcome × List IcmpChain)

/-- Release two chains. -/
def releaseBoth (outcome : IcmpOutcome) (inUse : List IcmpChain) : IcmpRun :=
  (bfAfree .data inUse).bind fun inUse =>
    (bfAfree .icmpData inUse).map fun inUse => (outcome, inUse)

/-- The address of a local buffer, the addresses of two new accessors, and what these hold. -/
structure IcmpLocals where
  byteBuf : Nat
  replIpHdr : Nat
  replIcmp : Nat
  fresh : Nat → UInt8

/-- What the handlers read of the two headers. -/
def icmpFields (ipHdr icmpHdr : List UInt8) (icmpLen : Nat) : IcmpPacket where
  ihSrc := getU32 ipHdr 12
  ihDst := getU32 ipHdr 16
  icmpLen := icmpLen
  ihType := icmpHdr.getD 0 0
  ihCode := icmpHdr.getD 1 0
  gateway := getU32 icmpHdr 4
  oldSrc := 0
  oldDst := 0
  iramNa := icmpHdr.getD 4 0
  iramAes := icmpHdr.getD 5 0
  iramLt := getU16 icmpHdr 6
  entry := fun _ => (0, 0)

/-- What the handlers of messages about an older packet read: some bytes of the header of the
message, and the header of the older packet, which is cut out and released again. -/
def readOldIpHdr (buffers : Buffers) (needed : Nat) (ipHdr : List UInt8) (icmpHdr : Acc)
    (next : List Acc) (icmpLen : Nat) (inUse : List IcmpChain) : IcmpRun :=
  let fields := icmpFields ipHdr icmpHdr.data icmpLen
  if icmpLen < 8 + 20 then some (.message fields, inUse)
  else
    (bfCut (icmpHdr :: next) 8 (sizeSub icmpLen 8)).bind fun oldIpPack =>
      match bfPackIffLess buffers.toPacking oldIpPack 20 with
      | [] => none
      | oldIpHdr :: _ =>
        if oldIpHdr.data.length < 20 ∨ icmpHdr.data.length < needed then none
        else
          (bfAfree .oldIpPack (.oldIpPack :: inUse)).map fun inUse =>
            (.message { fields with
              oldSrc := getU32 oldIpHdr.data 12, oldDst := getU32 oldIpHdr.data 16 }, inUse)

/-- `icmp_dst_unreach` reads the code. -/
def readDstUnreach (buffers : Buffers) := readOldIpHdr buffers 2

/-- `icmp_time_exceeded` reads the code. -/
def readTimeExceeded (buffers : Buffers) := readOldIpHdr buffers 2

/-- `icmp_redirect` reads the gateway too. -/
def readRedirect (buffers : Buffers) := readOldIpHdr buffers 8

/-- The tests of `icmp_router_advertisement`. -/
def advertises (pack : IcmpPacket) : Bool :=
  let entries := pack.iramNa.toNat
  let entrySize := pack.iramAes.toNat * 4
  !(pack.icmpLen < 8 || pack.ihCode ≠ 0 || entries < 1 || entrySize < 8 ||
    pack.icmpLen < 8 + entries * entrySize || 9000 < (ntohs pack.iramLt).toNat)

/-- Where `bufp` points to for an entry. -/
def entryAt (pack : IcmpPacket) (i : Nat) : Nat := 8 + i * (pack.iramAes.toNat * 4)

/-- The loop of `icmp_router_advertisement` reads 8 bytes of each entry. -/
def readRouterAdvertisement (ipHdr : List UInt8) (icmpHdr : Acc) (icmpLen : Nat)
    (inUse : List IcmpChain) : IcmpRun :=
  let fields := icmpFields ipHdr icmpHdr.data icmpLen
  if icmpLen < 8 then some (.message fields, inUse)
  else if icmpHdr.data.length < 8 then none
  else if advertises fields then
    if ∃ i < fields.iramNa.toNat, icmpHdr.data.length < entryAt fields i + 8 then none
    else
      some (.message { fields with
        entry := fun i => (getU32 icmpHdr.data (entryAt fields i),
          getU32 icmpHdr.data (entryAt fields i + 4)) }, inUse)
  else some (.message fields, inUse)

/-- `make_repl_ip`; the other fields hold what the new buffer does. -/
def makeReplIp (fresh : Nat → UInt8) (ipHdr : List UInt8) : List UInt8 :=
  [5, ipHdr.getD 1 0, fresh 2, fresh 3, fresh 4, fresh 5, 0, 0, 60, 1, fresh 10, fresh 11,
    fresh 12, fresh 13, fresh 14, fresh 15] ++ field ipHdr 12 4

/-- The checksum of the reply: the words of type and code are exchanged in the sum. -/
def echoChksum (chksum request reply : UInt16) : UInt16 :=
  let tmpChksum : Int := (~~~chksum).toNat - request.toNat + reply.toNat
  let tmpChksum := tmpChksum >>> (16 : Nat) + tmpChksum % 2 ^ 16
  let tmpChksum := tmpChksum >>> (16 : Nat) + tmpChksum % 2 ^ 16
  .ofInt (-tmpChksum - 1)

/-- The header of the reply, of type `ICMP_TYPE_ECHO_REPL`. -/
def echoReplHdr (icmpHdr : List UInt8) : List UInt8 :=
  setU16 [0, 0, 0, 0] 2 (echoChksum (getU16 icmpHdr 2) (getU16 icmpHdr 0) 0)

def icmpEchoRequest (locals : IcmpLocals) (ipHdr : List UInt8) (icmpHdr : Acc) (next : List Acc)
    (icmpLen : Nat) (inUse : List IcmpChain) : IcmpRun :=
  if icmpHdr.data.getD 1 0 ≠ 0 then releaseBoth .dropped inUse -- unknown code
  else if icmpLen < 4 + 4 then releaseBoth .dropped inUse -- incomplete
  else
    (bfCut (icmpHdr :: next) 4 (sizeSub icmpLen 4)).bind fun rest =>
      releaseBoth (.replied (⟨locals.replIpHdr, makeReplIp locals.fresh ipHdr⟩ ::
        ⟨locals.replIcmp, echoReplHdr icmpHdr.data⟩ :: rest)) inUse

/-- `switch (icmp_hdr->ih_type)` -/
def icmpSwitch (buffers : Buffers) (locals : IcmpLocals) (ipHdr : List UInt8) (icmpHdr : Acc)
    (next : List Acc) (icmpLen : Nat) (inUse : List IcmpChain) : IcmpRun :=
  let type := icmpHdr.data.getD 0 0
  if type = 8 then icmpEchoRequest locals ipHdr icmpHdr next icmpLen inUse
  else
    (if type = 3 then readDstUnreach buffers ipHdr icmpHdr next icmpLen inUse
    else if type = 5 then readRedirect buffers ipHdr icmpHdr next icmpLen inUse
    else if type = 9 then readRouterAdvertisement ipHdr icmpHdr icmpLen inUse
    else if type = 11 then readTimeExceeded buffers ipHdr icmpHdr next icmpLen inUse
    else some (.dropped, inUse)).bind fun (outcome, inUse) => releaseBoth outcome inUse

/-- The message, from `icmp_data` on. -/
def icmpMessage (buffers : Buffers) (locals : IcmpLocals) (ipHdr : List UInt8)
    (icmpData : List Acc) (packLen : Nat) (inUse : List IcmpChain) : IcmpRun :=
  match icmpData with
  | [] => none
  | icmpHdr :: next =>
    if icmpHdr.data.length < 4 then none
    else
      (icmpPackOneCsum locals.byteBuf (icmpHdr :: next)).bind fun sum =>
        if ~~~sum ≠ 0 then releaseBoth .dropped inUse -- bad checksum
        else icmpSwitch buffers locals ipHdr icmpHdr next packLen inUse

/-- `data` with a header that lies in one accessor. -/
def icmpIpHdr (buffers : Buffers) (data : List Acc) : Option (Acc × List Acc) :=
  (bfAlign buffers.toPacking data bufS 4).bind fun data =>
    match bfPackIffLess buffers.toPacking data 20 with
    | [] => none
    | ipHdr :: next =>
      if ipHdr.data.length < 20 then none
      else if 20 < hdrLen ipHdr.data then
        match bfPackIffLess buffers.toPacking (ipHdr :: next) (hdrLen ipHdr.data) with
        | [] => none
        | ipHdr' :: next' => some (ipHdr', next')
      else some (ipHdr, next)

def processData (buffers : Buffers) (locals : IcmpLocals) (data : List Acc) : IcmpRun :=
  (icmpIpHdr buffers data).bind fun (ipHdr, next) =>
    let ipHdrLen := hdrLen ipHdr.data
    let packLen := sizeSub (bytes (ipHdr :: next)).length ipHdrLen
    if packLen < 4 then -- incomplete
      (bfAfree .data [.data]).map fun inUse => (.dropped, inUse)
    else
      (bfCut (ipHdr :: next) ipHdrLen packLen).bind fun icmpData =>
        icmpMessage buffers locals ipHdr.data (bfPackIffLess buffers.toPacking icmpData 4) packLen
          [.icmpData, .data]

/-! ### Safety -/

/-- Nothing fails, nothing outside an accessor is read, and no chain stays in use. -/
def IcmpSafe (buffers : Buffers) (locals : IcmpLocals) (data : List Acc) : Prop :=
  ∃ outcome, processData buffers locals data = some (outcome, [])

/-- How many bytes lie in one accessor after `process_data` has aligned the packet. -/
def contiguous (pack : Acc) (next : List Acc) : Nat :=
  if bufS ≤ pack.data.length ∧ pack.address % 4 = 0 then pack.data.length
  else min bufS (bytes (pack :: next)).length

/-- The checksum of a message is right. -/
def IcmpSumRight (message : List UInt8) : Prop :=
  wordSum (padded message) ≡ 0 [MOD 2 ^ 16 - 1] ∧ wordSum (padded message) ≠ 0

instance (message : List UInt8) : Decidable (IcmpSumRight message) :=
  inferInstanceAs (Decidable (_ ∧ _))

/-- The fields of a router advertisement. -/
def advertised (message : List UInt8) : IcmpPacket := icmpFields [] message message.length

/-- The entries of a router advertisement that passes all tests lie in the first accessor. -/
def AdvertisementInside (pack : Acc) (next : List Acc) : Prop :=
  let data := bytes (pack :: next)
  let message := ipPayload data
  IcmpSumRight message → message.getD 0 0 = 9 → advertises (advertised message) = true →
    hdrLen data + entryAt (advertised message) ((advertised message).iramNa.toNat - 1) + 8 ≤
      contiguous pack next

/-! ### The headers -/

section Headers

variable {buffers : Buffers} {locals : IcmpLocals} {pack ipHdr icmpHdr : Acc}
  {next rest : List Acc}

theorem bfAlign_contiguous (handed : Handed pack next) :
    ∃ acc rest, bfAlign buffers.toPacking (pack :: next) bufS 4 = some (acc :: rest) ∧
      acc.data.length = contiguous pack next ∧ Buffered (acc :: rest) := by
  have complete := handed.complete
  obtain ⟨acc, rest, aligned, size, buffered⟩ := @exists_bfAlign buffers bufS pack next 4 (by decide)
    le_rfl (List.length_pos_iff.mp (by rw [length_bytes_cons]; omega))
  exact ⟨acc, rest, aligned, size, buffered handed.buffered⟩

theorem min_le_contiguous (pack : Acc) (next : List Acc) :
    min bufS (bytes (pack :: next)).length ≤ contiguous pack next := by
  unfold contiguous
  split
  case isTrue long => exact (Nat.min_le_left _ _).trans long.1
  case isFalse => exact le_rfl

theorem hdrLen_le_bytes (handed : Handed pack next) :
    hdrLen (bytes (pack :: next)) ≤ (bytes (pack :: next)).length := by
  rw [hdrLen_bytes handed.complete, length_bytes_cons]
  exact handed.inside.trans (Nat.le_add_right _ _)

theorem icmpIpHdr_eq (handed : Handed pack next) :
    ∃ ipHdr rest, icmpIpHdr buffers (pack :: next) = some (ipHdr, rest) ∧
      ipHdr.data.length = contiguous pack next ∧ bytes (ipHdr :: rest) = bytes (pack :: next) ∧
      Handed ipHdr rest := by
  obtain ⟨acc, rest, aligned, size, small⟩ := @bfAlign_contiguous buffers pack next handed
  have same := bytes_bfAlign aligned
  have least := min_le_contiguous pack next
  have short := hdrLen_le (bytes (pack :: next))
  have inside := hdrLen_le_bytes handed
  have total : 20 ≤ (bytes (pack :: next)).length := by
    rw [length_bytes_cons]
    exact handed.complete.trans (Nat.le_add_right _ _)
  have complete : 20 ≤ acc.data.length := by
    rw [size]
    refine le_trans (le_min ?_ total) least
    decide
  have length : hdrLen acc.data = hdrLen (bytes (pack :: next)) := by
    rw [← same, hdrLen_bytes complete]
  have enough : hdrLen acc.data ≤ acc.data.length := by
    rw [length, size]
    refine le_trans (le_min (short.trans ?_) inside) least
    decide
  have kept {least : Nat} (enough : least ≤ acc.data.length) :
      bfPackIffLess buffers.toPacking (acc :: rest) least = acc :: rest := if_pos enough
  refine ⟨acc, rest, ?_, size, same, complete, enough, same ▸ handed.small, small⟩
  unfold icmpIpHdr
  rw [aligned, bind_some, kept complete]
  dsimp only
  rw [if_neg (Nat.not_lt.mpr complete), kept enough]
  split <;> rfl

/-- The message, with as much of it in its first accessor as is left of that of the packet. -/
theorem icmpData_eq (handed : Handed ipHdr rest)
    (least : min bufS (bytes (ipHdr :: rest)).length ≤ ipHdr.data.length)
    (long : 4 ≤ (ipPayload (bytes (ipHdr :: rest))).length) :
    ∃ icmpHdr next,
      (bfCut (ipHdr :: rest) (hdrLen (bytes (ipHdr :: rest)))
        (ipPayload (bytes (ipHdr :: rest))).length).map
          (bfPackIffLess buffers.toPacking · 4) = some (icmpHdr :: next) ∧
      4 ≤ icmpHdr.data.length ∧
      hdrLen (bytes (ipHdr :: rest)) + icmpHdr.data.length = ipHdr.data.length ∧
      bytes (icmpHdr :: next) = ipPayload (bytes (ipHdr :: rest)) ∧
      Buffered (icmpHdr :: next) := by
  have inside := hdrLen_le_bytes handed
  have short := hdrLen_le (bytes (ipHdr :: rest))
  have length : (ipPayload (bytes (ipHdr :: rest))).length =
      (bytes (ipHdr :: rest)).length - hdrLen (bytes (ipHdr :: rest)) := by
    rw [ipPayload, List.length_drop]
  have part : ipHdr.data.length ≤ (bytes (ipHdr :: rest)).length := by
    rw [length_bytes_cons]
    exact Nat.le_add_right _ _
  have room : hdrLen (bytes (ipHdr :: rest)) + 4 ≤ ipHdr.data.length := by
    refine le_trans (le_min ?_ ?_) least
    · exact (Nat.add_le_add_right short 4).trans (by decide)
    · omega
  obtain ⟨cut, found⟩ := @exists_bfCut ipHdr rest (hdrLen (bytes (ipHdr :: rest)))
    (ipPayload (bytes (ipHdr :: rest))).length (by omega)
  obtain ⟨count, same⟩ := Nat.exists_eq_add_one_of_ne_zero
    (show (ipPayload (bytes (ipHdr :: rest))).length ≠ 0 by omega)
  have first := found
  rw [same] at first
  obtain ⟨next, rfl⟩ := bfCut_head (by omega) first
  have size : ((ipHdr.data.drop (hdrLen (bytes (ipHdr :: rest)))).take (count + 1)).length =
      ipHdr.data.length - hdrLen (bytes (ipHdr :: rest)) := by
    rw [List.length_take, List.length_drop]
    omega
  refine ⟨_, next, ?_, ?_, ?_, ?_, bfCut_buffered handed.buffered found⟩
  · rw [found, Option.map_some]
    exact congrArg some (if_pos (by dsimp only; omega))
  · dsimp only
    omega
  · dsimp only
    omega
  · rw [bfCut_eq found]
    exact List.take_of_length_le le_rfl

end Headers

/-! ### The handlers -/

section Handlers

variable {buffers : Buffers} {locals : IcmpLocals} {icmpHdr : Acc} {next : List Acc}
  {ipHdr message : List UInt8} {icmpLen needed : Nat} {inUse : List IcmpChain}

theorem releaseBoth_eq (outcome : IcmpOutcome) :
    releaseBoth outcome [.icmpData, .data] = some (outcome, []) := rfl

theorem readOldIpHdr_message (few : needed ≤ 8) (small : icmpLen < 2 ^ 32)
    (whole : (bytes (icmpHdr :: next)).length = icmpLen)
    (front : min 8 icmpLen ≤ icmpHdr.data.length) :
    ∃ fields, readOldIpHdr buffers needed ipHdr icmpHdr next icmpLen inUse =
      some (.message fields, inUse) := by
  unfold readOldIpHdr
  split
  case isTrue => exact ⟨_, rfl⟩
  case isFalse long =>
    have size : sizeSub icmpLen 8 = icmpLen - 8 := sizeSub_eq (by omega) small
    obtain ⟨oldIpPack, cut⟩ := @exists_bfCut icmpHdr next 8 (icmpLen - 8) (by omega)
    have length : (bytes oldIpPack).length = icmpLen - 8 := by
      rw [bfCut_eq cut, List.length_take, List.length_drop, whole]
      exact Nat.min_self _
    obtain ⟨first, rest, rfl⟩ := bfCut_cons cut
    obtain ⟨oldIpHdr, others, packed, complete⟩ := @bfPackIffLess_first buffers first rest 20
      (by omega) (by decide)
    rw [size, cut, bind_some, packed]
    dsimp only
    rw [if_neg (by omega), bfAfree, if_pos List.mem_cons_self, List.erase_cons_head]
    exact ⟨_, rfl⟩

theorem icmpEchoRequest_replies (small : icmpLen < 2 ^ 32)
    (whole : (bytes (icmpHdr :: next)).length = icmpLen) (code : icmpHdr.data.getD 1 0 = 0)
    (long : 8 ≤ icmpLen) :
    ∃ rest, bytes rest = (bytes (icmpHdr :: next)).drop 4 ∧
      icmpEchoRequest locals ipHdr icmpHdr next icmpLen [.icmpData, .data] =
        some (.replied (⟨locals.replIpHdr, makeReplIp locals.fresh ipHdr⟩ ::
          ⟨locals.replIcmp, echoReplHdr icmpHdr.data⟩ :: rest), []) := by
  have size : sizeSub icmpLen 4 = icmpLen - 4 := sizeSub_eq (by omega) small
  obtain ⟨rest, cut⟩ := @exists_bfCut icmpHdr next 4 (icmpLen - 4) (by omega)
  refine ⟨rest, ?_, ?_⟩
  · rw [bfCut_eq cut]
    refine List.take_of_length_le ?_
    rw [List.length_drop, whole]
  · unfold icmpEchoRequest
    rw [if_neg (not_not.mpr code), if_neg (by omega), size, cut, bind_some]
    rfl

theorem icmpEchoRequest_settles (small : icmpLen < 2 ^ 32)
    (whole : (bytes (icmpHdr :: next)).length = icmpLen) :
    ∃ outcome, icmpEchoRequest locals ipHdr icmpHdr next icmpLen [.icmpData, .data] =
      some (outcome, []) := by
  by_cases code : icmpHdr.data.getD 1 0 = 0
  · by_cases long : 8 ≤ icmpLen
    · obtain ⟨rest, -, replied⟩ :=
        @icmpEchoRequest_replies locals _ _ ipHdr _ small whole code long
      exact ⟨_, replied⟩
    · unfold icmpEchoRequest
      rw [if_neg (not_not.mpr code), if_pos (by omega)]
      exact ⟨_, rfl⟩
  · unfold icmpEchoRequest
    rw [if_pos code]
    exact ⟨_, rfl⟩

theorem advertises_congr (same : SameBytes 8 icmpHdr.data message) :
    advertises (icmpFields ipHdr icmpHdr.data icmpLen) =
        advertises (icmpFields [] message icmpLen) ∧
      (icmpFields ipHdr icmpHdr.data icmpLen).iramNa = (icmpFields [] message icmpLen).iramNa ∧
      ∀ i, entryAt (icmpFields ipHdr icmpHdr.data icmpLen) i =
        entryAt (icmpFields [] message icmpLen) i := by
  unfold advertises entryAt icmpFields
  rw [same 1 (by decide), same 4 (by decide), same 5 (by decide), same.getU16 (by decide)]
  exact ⟨rfl, rfl, fun _ => rfl⟩

theorem one_le_of_advertises {pack : IcmpPacket} (used : advertises pack = true) :
    8 ≤ pack.icmpLen ∧ 1 ≤ pack.iramNa.toNat := by
  unfold advertises at used
  simp only [Bool.not_eq_true', Bool.or_eq_false_iff, decide_eq_false_iff_not] at used
  omega

theorem exists_outside_iff {pack : IcmpPacket} {length : Nat} (some' : 1 ≤ pack.iramNa.toNat) :
    (∃ i < pack.iramNa.toNat, length < entryAt pack i + 8) ↔
      ¬entryAt pack (pack.iramNa.toNat - 1) + 8 ≤ length := by
  constructor
  · rintro ⟨i, less, outside⟩ inside
    have before : i * (pack.iramAes.toNat * 4) ≤
        (pack.iramNa.toNat - 1) * (pack.iramAes.toNat * 4) :=
      Nat.mul_le_mul_right _ (by omega)
    unfold entryAt at outside inside
    omega
  · intro outside
    exact ⟨pack.iramNa.toNat - 1, by omega, by omega⟩

/-- The entries of an advertisement that is used are read as far as they lie in the accessor. -/
theorem readRouterAdvertisement_iff (front : min 8 icmpLen ≤ icmpHdr.data.length)
    (same : ∀ count, count ≤ icmpHdr.data.length → SameBytes count icmpHdr.data message) :
    ((advertises (icmpFields [] message icmpLen) = true →
        entryAt (icmpFields [] message icmpLen)
          ((icmpFields [] message icmpLen).iramNa.toNat - 1) + 8 ≤ icmpHdr.data.length) →
      ∃ fields, readRouterAdvertisement ipHdr icmpHdr icmpLen inUse =
        some (.message fields, inUse)) ∧
    (¬(advertises (icmpFields [] message icmpLen) = true →
        entryAt (icmpFields [] message icmpLen)
          ((icmpFields [] message icmpLen).iramNa.toNat - 1) + 8 ≤ icmpHdr.data.length) →
      readRouterAdvertisement ipHdr icmpHdr icmpLen inUse = none) := by
  unfold readRouterAdvertisement
  by_cases short : icmpLen < 8
  · rw [if_pos short]
    refine ⟨fun _ => ⟨_, rfl⟩, fun wrong => (wrong fun used => ?_).elim⟩
    exact absurd (one_le_of_advertises used).1 (Nat.not_le.mpr short)
  obtain ⟨used, na, entries⟩ := @advertises_congr icmpHdr ipHdr message icmpLen (same 8 (by omega))
  rw [if_neg short, if_neg (by omega), used, na]
  by_cases uses : advertises (icmpFields [] message icmpLen) = true
  · have outside := @exists_outside_iff _ icmpHdr.data.length (one_le_of_advertises uses).2
    rw [if_pos uses]
    simp only [entries, outside]
    constructor
    · intro inside
      rw [if_neg (not_not.mpr (inside uses))]
      exact ⟨_, rfl⟩
    · intro wrong
      rw [if_pos fun inside => wrong fun _ => inside]
  · rw [if_neg uses]
    exact ⟨fun _ => ⟨_, rfl⟩, fun wrong => (wrong fun used => absurd used uses).elim⟩

theorem bind_releaseBoth {run : IcmpRun} {fields : IcmpPacket}
    (read : run = some (.message fields, [.icmpData, .data])) :
    ∃ outcome, (run.bind fun (outcome, inUse) => releaseBoth outcome inUse) =
      some (outcome, []) := by
  rw [read]
  exact ⟨_, releaseBoth_eq _⟩

/-- Each message is handled, and the chains are released, unless an advertisement reaches behind the
accessor. -/
theorem icmpSwitch_iff (small : message.length < 2 ^ 32)
    (whole : bytes (icmpHdr :: next) = message) (least : 4 ≤ icmpHdr.data.length)
    (front : min 8 message.length ≤ icmpHdr.data.length) :
    (∃ outcome, icmpSwitch buffers locals ipHdr icmpHdr next message.length [.icmpData, .data] =
        some (outcome, [])) ↔
      (message.getD 0 0 = 9 → advertises (advertised message) = true →
        entryAt (advertised message) ((advertised message).iramNa.toNat - 1) + 8 ≤
          icmpHdr.data.length) := by
  have same (count : Nat) (inside : count ≤ icmpHdr.data.length) :
      SameBytes count icmpHdr.data message := whole ▸ sameBytes_bytes inside
  have length : (bytes (icmpHdr :: next)).length = message.length := congrArg _ whole
  unfold icmpSwitch
  rw [same 4 least 0 (by decide)]
  by_cases advertisement : message.getD 0 0 = 9
  · obtain ⟨reads, fails⟩ :=
      @readRouterAdvertisement_iff icmpHdr ipHdr message message.length [.icmpData, .data] front same
    rw [advertisement, if_neg (by decide), if_neg (by decide), if_neg (by decide), if_pos rfl]
    constructor
    · rintro ⟨outcome, settled⟩ - used
      by_contra outside
      rw [fails fun inside => outside (inside used)] at settled
      cases settled
    · intro inside
      obtain ⟨fields, read⟩ := reads (inside rfl)
      exact bind_releaseBoth read
  · refine iff_of_true ?_ fun wrong => absurd wrong advertisement
    by_cases echo : message.getD 0 0 = 8
    · rw [if_pos echo]
      exact icmpEchoRequest_settles small length
    rw [if_neg echo]
    have about {needed : Nat} (few : needed ≤ 8) :
        ∃ outcome, ((readOldIpHdr buffers needed ipHdr icmpHdr next message.length
          [.icmpData, .data]).bind fun (outcome, inUse) => releaseBoth outcome inUse) =
            some (outcome, []) := by
      obtain ⟨fields, read⟩ :=
        @readOldIpHdr_message buffers icmpHdr next ipHdr _ _ [.icmpData, .data] few small length front
      exact bind_releaseBoth read
    by_cases unreachable : message.getD 0 0 = 3
    · rw [if_pos unreachable]
      exact about (by decide)
    rw [if_neg unreachable]
    by_cases redirect : message.getD 0 0 = 5
    · rw [if_pos redirect]
      exact about le_rfl
    rw [if_neg redirect, if_neg advertisement]
    by_cases exceeded : message.getD 0 0 = 11
    · rw [if_pos exceeded]
      exact about (by decide)
    · rw [if_neg exceeded]
      exact ⟨.dropped, rfl⟩

theorem icmpMessage_eq (whole : bytes (icmpHdr :: next) = message)
    (least : 4 ≤ icmpHdr.data.length) (buffered : Buffered (icmpHdr :: next)) :
    icmpMessage buffers locals ipHdr (icmpHdr :: next) icmpLen [.icmpData, .data] =
      if IcmpSumRight message then
        icmpSwitch buffers locals ipHdr icmpHdr next icmpLen [.icmpData, .data]
      else some (.dropped, []) := by
  obtain ⟨sum, -, summed, same⟩ := @same_udpPackOneCsum locals.byteBuf icmpHdr next
    fun acc member => (buffered acc member).trans (by decide)
  rw [whole, ← wordSum_padded] at same
  unfold icmpMessage
  dsimp only
  rw [if_neg (Nat.not_lt.mpr least), summed, bind_some]
  by_cases right : IcmpSumRight message
  · rw [if_pos right, if_neg fun wrong => complement_ne_zero.mp wrong ((ones_iff same).mpr right)]
  · rw [if_neg right, if_pos (complement_ne_zero.mpr fun ones => right ((ones_iff same).mp ones))]
    rfl

end Handlers

section Packets

variable {buffers : Buffers} {locals : IcmpLocals} {pack : Acc} {next : List Acc}

theorem length_ipPayload (data : List UInt8) :
    (ipPayload data).length = data.length - hdrLen data := List.length_drop

section

variable (handed : Handed pack next)
include handed

theorem ipPayload_lt :
    (ipPayload (bytes (pack :: next))).length < 2 ^ 32 := by
  rw [length_ipPayload]
  exact (Nat.sub_le _ _).trans_lt handed.small

theorem processData_short (short : (ipPayload (bytes (pack :: next))).length < 4) :
    processData buffers locals (pack :: next) = some (.dropped, []) := by
  obtain ⟨ipHdr, rest, found, -, same, handed'⟩ := @icmpIpHdr_eq buffers pack next handed
  have length : hdrLen ipHdr.data = hdrLen (bytes (pack :: next)) := by
    rw [← same, hdrLen_bytes handed'.complete]
  unfold processData
  rw [found, bind_some]
  dsimp only
  rw [same, length, sizeSub_eq (hdrLen_le_bytes handed) handed.small, ← length_ipPayload,
    if_pos short]
  rfl

theorem processData_eq (long : 4 ≤ (ipPayload (bytes (pack :: next))).length) :
    ∃ ipHdr icmpHdr rest, SameBytes 20 ipHdr (bytes (pack :: next)) ∧
      bytes (icmpHdr :: rest) = ipPayload (bytes (pack :: next)) ∧ 4 ≤ icmpHdr.data.length ∧
      min 8 (ipPayload (bytes (pack :: next))).length ≤ icmpHdr.data.length ∧
      hdrLen (bytes (pack :: next)) + icmpHdr.data.length = contiguous pack next ∧
      processData buffers locals (pack :: next) =
        if IcmpSumRight (ipPayload (bytes (pack :: next))) then
          icmpSwitch buffers locals ipHdr icmpHdr rest (ipPayload (bytes (pack :: next))).length
            [.icmpData, .data]
        else some (.dropped, []) := by
  obtain ⟨ipHdr, others, found, size, same, handed'⟩ := @icmpIpHdr_eq buffers pack next handed
  have length : hdrLen ipHdr.data = hdrLen (bytes (pack :: next)) := by
    rw [← same, hdrLen_bytes handed'.complete]
  have enough := min_le_contiguous pack next
  obtain ⟨icmpHdr, rest, cut, least, split, whole, buffered⟩ :=
    @icmpData_eq buffers ipHdr others handed' (by rw [same, size]; exact enough)
      (by rw [same]; exact long)
  rw [same] at cut split whole
  obtain ⟨icmpData, found', packed⟩ := Option.map_eq_some_iff.mp cut
  have front : min 8 (ipPayload (bytes (pack :: next))).length ≤ icmpHdr.data.length := by
    have header := hdrLen_le (bytes (pack :: next))
    rw [length_ipPayload]
    unfold bufS at enough
    omega
  refine ⟨ipHdr.data, icmpHdr, rest, same ▸ sameBytes_bytes handed'.complete, whole, least, front,
    by rw [split, size], ?_⟩
  unfold processData
  rw [found, bind_some]
  dsimp only
  rw [same, length, sizeSub_eq (hdrLen_le_bytes handed) handed.small, ← length_ipPayload,
    if_neg (Nat.not_lt.mpr long), found', bind_some, packed,
    icmpMessage_eq whole least buffered]

end

end Packets

/-- Every datagram is handled safely, and each chain released once, exactly if the entries of a
router advertisement that passes all tests lie in the accessor in which the packet begins. -/
theorem icmpInput_iff (buffers : Buffers) (locals : IcmpLocals) (pack : Acc) (next : List Acc)
    (handed : Handed pack next) :
    IcmpSafe buffers locals (pack :: next) ↔ AdvertisementInside pack next := by
  unfold IcmpSafe AdvertisementInside
  dsimp only
  by_cases short : (ipPayload (bytes (pack :: next))).length < 4
  · refine iff_of_true ⟨.dropped, processData_short handed short⟩ fun _ _ used => ?_
    have long : 8 ≤ (ipPayload (bytes (pack :: next))).length := (one_le_of_advertises used).1
    omega
  obtain ⟨ipHdr, icmpHdr, rest, -, whole, least, front, split, run⟩ :=
    @processData_eq buffers locals pack next handed (Nat.le_of_not_lt short)
  rw [run]
  by_cases right : IcmpSumRight (ipPayload (bytes (pack :: next)))
  · rw [if_pos right, icmpSwitch_iff (ipPayload_lt handed) whole least front, ← split]
    constructor
    · intro inside _ advertisement used
      have less := inside advertisement used
      omega
    · intro inside advertisement used
      have less := inside right advertisement used
      omega
  · rw [if_neg right]
    exact iff_of_true ⟨.dropped, rfl⟩ fun right' => absurd right' right

/-- The first 512 bytes of a packet with a router advertisement of 62 entries. -/
def advertisementFront : Acc :=
  ⟨0, [0x45, 0, 2, 12, 0, 0, 0, 0, 64, 1, 0, 0, 10, 0, 0, 1, 10, 0, 0, 2] ++
    [9, 0, 0xb8, 0xfd, 62, 2, 0, 0] ++ List.replicate 484 0⟩

/-- The last 12 bytes. -/
def advertisementBack : Acc := ⟨0, List.replicate 12 0⟩

theorem handed_advertisement : Handed advertisementFront [advertisementBack] where
  complete := by decide +kernel
  inside := by decide +kernel
  small := by decide +kernel
  buffered := by
    unfold Buffered
    decide +kernel

/-- The last entries of an advertisement that is longer than a buffer are read behind it. -/
theorem long_advertisement_unsafe :
    ¬∀ (buffers : Buffers) (locals : IcmpLocals) (pack : Acc) (next : List Acc),
      Handed pack next → IcmpSafe buffers locals (pack :: next) := by
  intro safe
  obtain ⟨outcome, settled⟩ := safe buffers512 ⟨0, 0, 0, fun _ => 0⟩ advertisementFront
    [advertisementBack] handed_advertisement
  have failed : (processData buffers512 ⟨0, 0, 0, fun _ => 0⟩
      [advertisementFront, advertisementBack]).isNone = true := by decide +kernel
  rw [settled] at failed
  cases failed

/-- An echo request of 8 bytes. -/
def shortEcho : Acc :=
  ⟨0, [0x45, 0, 0, 28, 0, 0, 0, 0, 64, 1, 0, 0, 10, 0, 0, 1, 10, 0, 0, 2] ++
    [8, 0, 0xf7, 0xff, 0, 0, 0, 0]⟩

/-- An echo request is handled safely. -/
theorem short_echo_safe : IcmpSafe buffers512 ⟨0, 0, 0, fun _ => 0⟩ [shortEcho] :=
  (icmpInput_iff buffers512 ⟨0, 0, 0, fun _ => 0⟩ shortEcho []
    ⟨by decide, by decide, by decide, by unfold Buffered; decide⟩).mpr
      fun _ advertisement => absurd advertisement (by decide)

end Minix.Inet
