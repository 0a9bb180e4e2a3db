/-
This file models `restart_write_fd` (`inet/generic/udp.c`), which makes datagrams of what users
write, for a port that is not writing yet.

What `uf_get_userdata` returns, where the new accessors lie and what they hold are parameters. A
result that is `none` is a failed assertion.
-/

import Minix.Inet.IpSend
import Minix.Inet.UdpInput

namespace Minix.Inet

/-! ### The model -/

/-- `EFAULT` -/
def efault : Int := -14

/-- `UDP_TTL` -/
def udpTtl : UInt8 := 30

/-- What is read of `nwio_udpopt`. -/
structure UdpOpt where
  /-- `NWUO_RWDATALL` -/
  rwdatall : Bool
  /-- `NWUO_RA_SET` -/
  raSet : Bool
  /-- `NWUO_LP_ANY` -/
  lpAny : Bool
  /-- `NWUO_RP_SET` -/
  rpSet : Bool
  locport : UInt16
  remport : UInt16
  remaddr : UInt32

/-- The addresses of the local variables and of the new accessors, and what the header of the packet
holds. -/
structure WriteLocals where
  byteBuf : Nat
  ipaddr : Nat
  u16 : Nat
  ipHdr : Nat
  udpHdr : Nat
  fresh : Nat → UInt8

/-- What a user wrote: `udp_io_hdr`, which may be null, the options and the data. -/
structure UdpUser where
  ioHdr : Option (List UInt8)
  ipOptSize : Nat
  ipOptPack : List Acc
  userDataSize : Nat
  userData : List Acc

/-- The parts of `up_wr_pack`. -/
structure UdpSending where
  ipHdr : Acc
  ipOpts : List Acc
  udpHdr : Acc
  userData : List Acc

/-- `up_wr_pack` -/
def UdpSending.wrPack (sending : UdpSending) : List Acc :=
  sending.ipHdr :: (sending.ipOpts ++ sending.udpHdr :: sending.userData)

inductive UdpWritten
  | refused (error : Int)
  /-- The packet is written to `up_ipfd`. -/
  | handed (sending : UdpSending)

/-- With `NWUO_RWDATALL`, the header, the options and the data are divided. -/
def splitUserdata (buffers : Buffers) (opt : UdpOpt) (wrCount : Nat) (pack : List Acc) :
    Option (Except Int UdpUser) :=
  if opt.rwdatall then
    match bfPackIffLess buffers.toPacking pack 16 with
    | [] => none
    | udpIoHdr :: next =>
      let ipOptSize := (getU16 udpIoHdr.data 12).toNat
      if wrCount < 16 + ipOptSize then some (.error einval)
      else if ipOptSize % 4 ≠ 0 then some (.error efault)
      else
        let userDataSize := wrCount - 16 - ipOptSize
        (if ipOptSize = 0 then some [] else bfCut (udpIoHdr :: next) 16 ipOptSize).bind fun
          ipOptPack =>
            (bfCut (udpIoHdr :: next) (16 + ipOptSize) userDataSize).map fun userData =>
              .ok ⟨some udpIoHdr.data, ipOptSize, ipOptPack, userDataSize, userData⟩
  else some (.ok ⟨none, 0, [], wrCount, pack⟩)

/-- `ih_dst`, `uh_src_port` and `uh_dst_port` -/
def udpEnds (opt : UdpOpt) (ioHdr : Option (List UInt8)) : Option (UInt32 × UInt16 × UInt16) :=
  (if opt.raSet then some opt.remaddr else ioHdr.map (getU32 · 4)).bind fun dst =>
    (if !opt.lpAny then some opt.locport else ioHdr.map (getU16 · 8)).bind fun srcPort =>
      (if opt.rpSet then some opt.remport else ioHdr.map (getU16 · 10)).map fun dstPort =>
        (dst, srcPort, dstPort)

/-- The header of the packet, as far as it is filled in. -/
def newIpHdr (fresh : Nat → UInt8) (ipOptSize : Nat) (dst : UInt32) : List UInt8 :=
  let ipHdr := ((List.range 20).map fresh).set 0 (.ofNat ((20 + ipOptSize) / 4))
  let ipHdr := (((ipHdr.set 1 0).set 6 0).set 7 0).set 8 udpTtl
  setU32 (ipHdr.set 9 17) 16 dst

/-- `htons(UDP_HDR_SIZE+user_data_size)`, as bytes -/
def udpLengthBytes (userDataSize : Nat) : List UInt8 :=
  [(UInt16.ofNat (8 + userDataSize) >>> 8).toUInt8, (UInt16.ofNat (8 + userDataSize)).toUInt8]

/-- A short word in memory. -/
def shortBytes (x : UInt16) : List UInt8 := [x.toUInt8, (x >>> 8).toUInt8]

/-- `udp_hdr_t` -/
def newUdpHdr (srcPort dstPort : UInt16) (userDataSize : Nat) (chksum : UInt16) : List UInt8 :=
  shortBytes srcPort ++ shortBytes dstPort ++ udpLengthBytes userDataSize ++ shortBytes chksum

/-- The sum over the pseudo header and the datagram, whose checksum is zero. -/
def writeChksum (locals : WriteLocals) (ipaddr dst : UInt32) (udpHdr : Acc)
    (userDataSize : Nat) (userData : List Acc) : Option UInt16 :=
  (udpPackOneCsum locals.byteBuf (udpHdr :: userData)).map fun chksum =>
    let chksum := oneCSum chksum locals.ipaddr (longBytes ipaddr)
    let chksum := oneCSum chksum (locals.ipHdr + 16) (longBytes dst)
    let chksum := oneCSum chksum locals.u16 [0, 17]
    oneCSum chksum (locals.udpHdr + 4) (udpLengthBytes userDataSize)

/-- `if (~chksum) chksum= ~chksum;`, where the complement is that of an `int`. -/
def complementUnlessZero (chksum : UInt16) : UInt16 :=
  if ~~~chksum.toUInt32 ≠ 0 then (~~~chksum.toUInt32).toUInt16 else chksum

/-- The options go into one accessor, whose link is set. -/
def linkOptions (buffers : Buffers) (user : UdpUser) : Option (List Acc) :=
  if user.ipOptPack = [] then some []
  else ((bfPackIffLess buffers.toPacking user.ipOptPack user.ipOptSize).head?).map fun acc => [acc]

/-- From the header of the packet on. -/
def makeDatagram (buffers : Buffers) (locals : WriteLocals) (ipaddr : UInt32) (opt : UdpOpt)
    (user : UdpUser) : Option UdpSending :=
  (udpEnds opt user.ioHdr).bind fun (dst, srcPort, dstPort) =>
    let udpHdr := newUdpHdr srcPort dstPort user.userDataSize
    (writeChksum locals ipaddr dst ⟨locals.udpHdr, udpHdr 0⟩ user.userDataSize
      user.userData).bind fun chksum =>
        (linkOptions buffers user).map fun ipOpts =>
          ⟨⟨locals.ipHdr, newIpHdr locals.fresh user.ipOptSize dst⟩, ipOpts,
            ⟨locals.udpHdr, udpHdr (complementUnlessZero chksum)⟩, user.userData⟩

def restartWriteFd (buffers : Buffers) (locals : WriteLocals) (ipaddr : UInt32) (opt : UdpOpt)
    (wrCount : Nat) (pack : List Acc) : Option UdpWritten :=
  if pack = [] then some (.refused efault)
  else
    (splitUserdata buffers opt wrCount pack).bind fun
      | .error error => some (.refused error)
      | .ok user => (makeDatagram buffers locals ipaddr opt user).map .handed

/-- `ip_write` takes packets up to a size. -/
def ipWriteTakes (pack : List Acc) : Bool := (bytes pack).length ≤ ipMaxPacksize

end Minix.Inet
