/-
This file models the checksums of the network server: `oneC_sum` (`lib/ip/oneC_sum.c`), and
`tcp_pack_oneCsum` (`inet/generic/tcp_lib.c`), `pack_oneCsum` (`inet/generic/udp.c`) and
`icmp_pack_oneCsum` (`inet/generic/icmp.c`), which add up the bytes of a chain of accessors.

An accessor is the address of its data and the bytes that are there. The machine stores the low byte
of a word first. Where the bytes of a local buffer lie is a parameter.
-/

import Mathlib.Data.UInt

namespace Minix.Inet

/-! ### Constants that several parts share -/

/-- `IP_MIN_HDR_SIZE`. -/
def ipMinHdrSize : Nat := 20

/-- `IP_MAX_TTL`. -/
def ipMaxTtl : Nat := 255

/-- `IH_FRAGOFF_MASK`. -/
def ihFragoffMask : UInt16 := 0x1fff

/-- `IH_MORE_FRAGS`. -/
def ihMoreFrags : UInt16 := 0x2000

/-- `HZ`. -/
def hz : Nat := 60

/-! ### `oneC_sum` -/

/-- The word that two bytes in memory make. -/
def word (first second : UInt8) : UInt32 := first.toUInt32 ||| second.toUInt32 <<< 8

/-- `((sum & 0xFF) << 8) | ((sum & 0xFF00) >> 8)` -/
def swapBytes (sum : UInt32) : UInt32 := (sum &&& 0xff) <<< 8 ||| (sum &&& 0xff00) >>> 8

/-- `while (n >= 8)` -/
def sumEights : UInt32 → List UInt8 → UInt32 × List UInt8
  | sum, a :: b :: c :: d :: e :: f :: g :: h :: dptr =>
    sumEights (sum + (word a b + word c d + word e f + word g h)) dptr
  | sum, dptr => (sum, dptr)

/-- `while (n >= 2)` -/
def sumTwos : UInt32 → List UInt8 → UInt32 × List UInt8
  | sum, a :: b :: dptr => sumTwos (sum + word a b) dptr
  | sum, dptr => (sum, dptr)

/-- The byte that may be left over. -/
def sumLast : UInt32 → List UInt8 → UInt32
  | sum, [] => sum
  | sum, a :: _ => sum + word a 0

/-- The sum of the words from an even address on. -/
def sumWords (sum : UInt32) (dptr : List UInt8) : UInt32 :=
  let eights := sumEights sum dptr
  let twos := sumTwos eights.1 eights.2
  sumLast twos.1 twos.2

/-- The sum of the words from an odd address on: the first byte is the high byte of a word. -/
def sumOdd : UInt32 → List UInt8 → UInt32
  | sum, [] => sumWords sum []
  | sum, first :: dptr => sumWords (sum + word 0 first) dptr

/-- Add the carries. -/
def addCarries (sum : UInt32) : UInt32 :=
  let sum := (sum &&& (0xffff : UInt32)) + sum >>> 16
  if 0xffff < sum then sum + 1 else sum

/-- One's complement checksum of the bytes at an address. -/
def oneCSum (prev : UInt16) (address : Nat) (data : List UInt8) : UInt16 :=
  if address % 2 = 1 then
    (swapBytes (addCarries (sumOdd (swapBytes prev.toUInt32) data))).toUInt16
  else (addCarries (sumWords prev.toUInt32 data)).toUInt16

/-! ### Chains of accessors -/

/-- An accessor: `ptr2acc_data` and the bytes. -/
structure Acc where
  address : Nat
  data : List UInt8
deriving DecidableEq

/-- The bytes of a chain of accessors. -/
def bytes (pack : List Acc) : List UInt8 := pack.flatMap Acc.data

/-- The loop of `tcp_pack_oneCsum` over the accessors, with the last swap undone. -/
def tcpSum : UInt16 → Bool → List Acc → UInt16
  | sum, oddLength, [] => if oddLength then (swapBytes sum.toUInt32).toUInt16 else sum
  | sum, oddLength, pack :: next =>
    if pack.data.length = 0 then tcpSum sum oddLength next
    else
      let sum := oneCSum sum pack.address pack.data
      if pack.data.length % 2 = 1 then
        tcpSum (swapBytes sum.toUInt32).toUInt16 (!oddLength) next
      else tcpSum sum oddLength next

/-- `word_buf`, with the addresses, the protocol and the length of the segment, as bytes; the header
is given by its bytes. -/
def tcpWordBuf (ipHdr : Nat → UInt8) : List UInt8 :=
  let ipHdrLen := (ipHdr 0 &&& 0xf).toUInt16 <<< 2
  let length := ((ipHdr 2).toUInt16 <<< 8 ||| (ipHdr 3).toUInt16) - ipHdrLen
  (List.range 8).map (fun i => ipHdr (12 + i)) ++
    ([0, 6, (length >>> 8).toUInt8, length.toUInt8] : List UInt8)

def tcpPackOneCsum (wordBuf : Nat) (ipHdr : Nat → UInt8) (tcpPack : List Acc) : UInt16 :=
  tcpSum (oneCSum 0 wordBuf (tcpWordBuf ipHdr)) false tcpPack

/-- Add the bytes of an accessor up to an odd one, which is kept in `byte_buf[0]`. -/
def addEven (prev : UInt16) (address : Nat) (data : List UInt8) : UInt16 × Option UInt8 :=
  if data.length % 2 = 1 then
    if data.dropLast.length = 0 then (prev, data.getLast?)
    else (oneCSum prev address data.dropLast, data.getLast?)
  else if data.length = 0 then (prev, none)
  else (oneCSum prev address data, none)

/-- One accessor in the loops of `pack_oneCsum` and `icmp_pack_oneCsum`. With the sum goes the byte
in `byte_buf[0]`, if there is an odd one. -/
def addPack (byteBuf : Nat) (state : UInt16 × Option UInt8) (pack : Acc) : UInt16 × Option UInt8 :=
  match pack.data, state.2 with
  | [], _ => state
  | first :: rest, none => addEven state.1 pack.address (first :: rest)
  | first :: rest, some odd =>
    addEven (oneCSum state.1 byteBuf [odd, first]) (pack.address + 1) rest

/-- `pack_oneCsum` of `udp.c`; there has to be an accessor. -/
def udpPackOneCsum (byteBuf : Nat) : List Acc → Option UInt16
  | [] => none
  | pack :: next =>
    let (prev, odd) := (pack :: next).foldl (addPack byteBuf) (0, none)
    match odd with
    | none => some prev
    | some odd => some (oneCSum prev byteBuf ([odd, 0].take 1))

/-- `icmp_pack_oneCsum` -/
def icmpPackOneCsum (byteBuf : Nat) : List Acc → Option UInt16
  | [] => none
  | pack :: next =>
    let (prev, odd) := (pack :: next).foldl (addPack byteBuf) (0, none)
    match odd with
    | none => some prev
    | some odd => some (oneCSum prev byteBuf [odd])

end Minix.Inet
