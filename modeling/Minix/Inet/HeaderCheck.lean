/-
This file models what the network server checks of a received IP packet: `ip_chk_hdropt`
(`inet/generic/ip_lib.c`), `ip_frag_chk` and the beginning of `ip_arrived`
(`inet/generic/ip_read.c`), with `bf_cut`, `bf_align` and `bf_packIffLess` (`inet/buf.c`).

`bf_pack` copies the bytes of a chain to new buffers; which buffers these are depends on what is
free, and is a parameter. What lies in memory behind the data of an accessor is another one. A
result that is `none` is a failed assertion.
-/

import Minix.Inet.OneCsum
import Minix.Inet.Sr

namespace Minix.Inet

/-! ### Header options -/

/-- The length of an option, and the flags of a time stamp. -/
def optionFits (opt length flags : UInt8) : Bool :=
  if opt = 0x82 then length = 11 -- security
  else if opt = 0x88 then length = 4 && (flags = 0 || flags = 1 || flags = 3) -- time stamp
  else 3 ≤ length -- source routes and record route

/-- The loop of `ip_chk_hdropt`: `opts` are the options that are left, with `beyond` behind them in
memory. Each option is at least one byte, so that the number of bytes bounds the steps. -/
def chkHdropt (beyond : List UInt8) : Nat → List UInt8 → List UInt8 → Int
  | 0, _, opts => if opts = [] then 0 else einval
  | _ + 1, _, [] => 0
  | steps + 1, present, opt :: rest =>
    if opt = 0 then 0 -- end of option list
    else if opt = 1 then chkHdropt beyond steps present rest -- no operation
    else if opt ∈ [0x82, 0x83, 0x89, 0x7, 0x88] then
      let length := (rest ++ beyond).getD 0 0
      if opt ∈ present then einval
      else if optionFits opt length ((rest ++ beyond).getD 2 0) then
        -- the last option may end behind the options
        if rest.length + 1 < length.toNat then einval
        else chkHdropt beyond steps (opt :: present) (rest.drop (length.toNat - 1))
      else einval
    else einval

def ipChkHdropt (beyond opts : List UInt8) : Int := chkHdropt beyond opts.length [] opts

/-! ### The header -/

/-- `(ih_vers_ihl & IH_IHL_MASK) * 4` -/
def hdrLen (ipHdr : List UInt8) : Nat := (ipHdr.getD 0 0 &&& 0xf).toNat * 4

/-- `(ih_vers_ihl >> 4) & IH_VERSION_MASK` -/
def version (ipHdr : List UInt8) : UInt8 := ipHdr.getD 0 0 >>> 4 &&& 0xf

/-- `ntohs(ih_length)` -/
def totalLength (ipHdr : List UInt8) : Nat :=
  256 * (ipHdr.getD 2 0).toNat + (ipHdr.getD 3 0).toNat

def ipFragChk (beyond : List UInt8) (pack : Acc) (next : List Acc) : Bool :=
  let ipHdr := pack.data
  if ipHdr.length < 20 then false -- wrong length
  else if ipHdr.length < hdrLen ipHdr then false -- wrong length
  else if version ipHdr ≠ 4 then false -- wrong version
  else if totalLength ipHdr ≠ (bytes (pack :: next)).length then false -- wrong size
  else if ~~~oneCSum 0 pack.address (ipHdr.take (hdrLen ipHdr)) ≠ 0 then false -- wrong checksum
  else if 20 < hdrLen ipHdr ∧ ipChkHdropt (ipHdr.drop (hdrLen ipHdr) ++ beyond)
      ((ipHdr.take (hdrLen ipHdr)).drop 20) ≠ 0 then false -- wrong options
  else true

/-! ### Buffers -/

/-- What `bf_pack` makes of a chain: new buffers with the same bytes. -/
structure Packing where
  pack : List Acc → List Acc
  bytes_pack : ∀ chain, bytes (pack chain) = bytes chain

/-- The end of `bf_cut`: the accessors are shared until the length is used up. -/
def bfTake : List Acc → Nat → Option (List Acc)
  | _, 0 => some []
  | [], _ + 1 => none
  | data :: next, length + 1 =>
    if data.data.length ≤ length + 1 then
      (bfTake next (length + 1 - data.data.length)).map (data :: ·)
    else some [⟨data.address, data.data.take (length + 1)⟩]

/-- `bf_cut` after the accessors in front are passed over. -/
def bfCutHead : List Acc → Nat → Nat → Option (List Acc)
  | [], _, _ => none
  | data :: next, offset, length =>
    if data.data.length ≤ offset then bfCutHead next (offset - data.data.length) length
    else bfTake (⟨data.address + offset, data.data.drop offset⟩ :: next) length

def bfCut (data : List Acc) (offset length : Nat) : Option (List Acc) :=
  match data with
  | [] => if offset = 0 ∧ length = 0 then some [] else none
  | acc :: _ =>
    if length = 0 then some [⟨acc.address, []⟩]
    else bfCutHead data offset length

def bfPackIffLess (packing : Packing) (pack : List Acc) (minLen : Nat) : List Acc :=
  match pack with
  | [] => []
  | acc :: _ => if minLen ≤ acc.data.length then pack else packing.pack pack

def bfAlign (packing : Packing) (acc : List Acc) (size alignment : Nat) : Option (List Acc) :=
  match acc with
  | [] => none
  | first :: _ =>
    if size ≤ first.data.length ∧ first.address % alignment = 0 then some acc
    else if size = 0 ∨ (bytes acc).length = 0 then none
    else if (bytes acc).length ≤ size then some (packing.pack acc)
    else
      (bfCut acc 0 size).bind fun head =>
        (bfCut acc size ((bytes acc).length - size)).bind fun tail =>
          match packing.pack head with
          | [head] => some (head :: tail)
          | _ => none

/-! ### Arrival -/

/-- Whether a packet is dropped, or accepted for local delivery or routing. -/
inductive Arrival
  | dropped
  | accepted (pack : Acc) (next : List Acc)

/-- The end of the checks in `ip_arrived`: what is behind the packet is cut off. -/
def trimAndCheck (beyond : List UInt8) (packSize : Nat) (pack : List Acc) : Option Arrival :=
  match pack with
  | [] => none
  | ipHdr :: _ =>
    let ipFragLen := totalLength ipHdr.data
    (if ipFragLen < packSize then bfCut pack 0 ipFragLen else some pack).bind fun pack =>
      match pack with
      | [] => none
      | pack :: next =>
        if ipFragChk beyond pack next then some (.accepted pack next) else some .dropped

/-- The beginning of `ip_arrived`. -/
def ipArrived (packing : Packing) (beyond : List UInt8) (pack : List Acc) : Option Arrival :=
  let packSize := (bytes pack).length
  if packSize < 20 then some .dropped
  else
    (bfAlign packing pack 20 4).bind fun pack =>
      match bfPackIffLess packing pack 20 with
      | [] => none
      | pack :: next =>
        if pack.data.length < 20 then none
        else if 20 < hdrLen pack.data then
          (bfAlign packing (pack :: next) 20 4).bind fun aligned =>
            trimAndCheck beyond packSize (bfPackIffLess packing aligned (hdrLen pack.data))
        else trimAndCheck beyond packSize (pack :: next)

end Minix.Inet
