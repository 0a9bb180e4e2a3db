/-
This file models how ICMP messages update the output routes: `ipr_gateway_down`, `ipr_destunrch`,
`ipr_redirect` and `ipr_ttl_exc` of `inet/generic/ipr.c`, and the handlers of the messages in
`inet/generic/icmp.c`.

A packet is given by the fields that the handlers read. A result that is `none` is a failed
assertion.
-/

import Minix.Inet.Oroute
import Minix.Inet.OneCsum

namespace Minix.Inet

/-! ### Updates -/

/-- `ORTD_UNREACHABLE` -/
def ortdUnreachable : Int := 512

/-- `IPR_UNRCH_TIMEOUT` -/
def iprUnrchTimeout : Nat := 60 * hz

/-- `IPR_TTL_TIMEOUT` -/
def iprTtlTimeout : Nat := 60 * hz

/-- `IPR_REDIRECT_TIMEOUT` -/
def iprRedirectTimeout : Nat := 20 * 60 * hz

/-- An `int` of 32 bits. -/
def int32 (x : Int) : Int := x.bmod (2 ^ 32)

/-- `ipr_add_oroute`, and the assertion that its result is `NW_OK`. -/
def addAsserted (ports : Nat → IpPort) (s : Orouting) (currtim : Nat) (new : NewRoute) :
    Option Orouting :=
  (iprAddOroute ports s currtim new).bind fun (s, result) =>
    match result with
    | .ok _ => some s
    | .error _ => none

/-- The loop of `ipr_gateway_down` over the table. -/
def gatewayDownLoop (ports : Nat → IpPort) (currtim portNr : Nat) (gateway : UInt32)
    (timeout : Nat) : List OrouteNr → Orouting → Option Orouting
  | [], s => some s
  | i :: rest, s =>
    if (s.table i).inuse && (s.table i).gateway = gateway && !(s.table i).expired currtim then
      (addAsserted ports s currtim ⟨portNr, (s.table i).dest, (s.table i).subnetmask, gateway,
        timeout, ortdUnreachable, false, 0⟩).bind
        (gatewayDownLoop ports currtim portNr gateway timeout rest)
    else gatewayDownLoop ports currtim portNr gateway timeout rest s

def iprGatewayDown (ports : Nat → IpPort) (s : Orouting) (currtim portNr : Nat) (gateway : UInt32)
    (timeout : Nat) : Option Orouting :=
  gatewayDownLoop ports currtim portNr gateway timeout (List.finRange orouteNr) s

/-- The route that marks an address as unreachable through the gateway of a route. -/
def unreachableRoute (oroute : Oroute) (portNr : Nat) (dest netmask : UInt32) (timeout : Nat) :
    NewRoute :=
  ⟨portNr, dest, netmask, oroute.gateway, timeout, ortdUnreachable, false, 0⟩

/-- The common beginning of the updates: without a route there is nothing to do. -/
def withRoute (s : Orouting) (currtim portNr : Nat) (dest : UInt32)
    (update : Orouting → OrouteNr → Option Orouting) : Option Orouting :=
  (orouteFindEnt s currtim portNr dest).bind fun (s, route) =>
    match route with
    | none => some s
    | some oroute => update s oroute

def iprDestunrch (ports : Nat → IpPort) (s : Orouting) (currtim portNr : Nat)
    (dest netmask : UInt32) (timeout : Nat) : Option Orouting :=
  withRoute s currtim portNr dest fun s oroute =>
    addAsserted ports s currtim (unreachableRoute (s.table oroute) portNr dest netmask timeout)

/-- The route of a redirect. -/
def redirectRoute (portNr : Nat) (dest netmask newGateway : UInt32) (timeout : Nat) : NewRoute :=
  ⟨portNr, dest, netmask, newGateway, timeout, 1, false, 0⟩

def iprRedirect (ports : Nat → IpPort) (s : Orouting) (currtim portNr : Nat)
    (dest netmask oldGateway newGateway : UInt32) (timeout : Nat) : Option Orouting :=
  withRoute s currtim portNr dest fun s oroute =>
    if (s.table oroute).gateway ≠ oldGateway then some s
    else if (s.table oroute).static then
      if (s.table oroute).dest = dest then some s
      else addAsserted ports s currtim (redirectRoute portNr dest netmask newGateway timeout)
    else
      (addAsserted ports s currtim
        (unreachableRoute (s.table oroute) portNr dest netmask hz)).bind fun s =>
      addAsserted ports s currtim (redirectRoute portNr dest netmask newGateway timeout)

/-- The greater distance of a route on which a packet was lost; `none` if it cannot grow. -/
def ttlDist (dist : Int) : Option Int :=
  if int32 (dist * 2) ≤ ipMaxTtl then some (int32 (dist * 2))
  else if int32 (dist + 1) ≤ ipMaxTtl then some (int32 (dist + 1))
  else none

def iprTtlExc (ports : Nat → IpPort) (s : Orouting) (currtim portNr : Nat)
    (dest netmask : UInt32) (timeout : Nat) : Option Orouting :=
  withRoute s currtim portNr dest fun s oroute =>
    match ttlDist (s.table oroute).dist with
    | none => some s
    | some newDist =>
      addAsserted ports s currtim
        ⟨portNr, dest, netmask, (s.table oroute).gateway, timeout, newDist, false, 0⟩

/-! ### Messages -/

/-- `nettype_t` -/
inductive Nettype
  | zero | classA | local' | classB | classC | classD | classE | martian | broadcast

def ipNettype (ipaddr : UInt32) : Nettype :=
  let ipaddr := ntohl ipaddr
  let highbyte := ipaddr >>> 24 &&& (0xff : UInt32)
  if highbyte = 0 then if ipaddr = 0 then .zero else .martian
  else if highbyte < 127 then .classA
  else if highbyte = 127 then .local'
  else if highbyte < 192 then .classB
  else if highbyte < 224 then .classC
  else if highbyte < 240 then .classD
  else if highbyte < 248 then .classE
  else if highbyte < 255 then .martian
  else if ipaddr = 0xffffffff then .broadcast
  else .martian

/-- `ip_netmask`; the masks are in the network byte order. -/
def ipNetmask : Nettype → UInt32
  | .zero => 0
  | .classA => 0xff
  | .local' => 0xff
  | .classB => 0xffff
  | .classC => 0xffffff
  | _ => 0xffffffff

def ipGetNetmask (hostaddr : UInt32) : UInt32 := ipNetmask (ipNettype hostaddr)

/-- What the handlers read of a packet: `ip_hdr` is its own header, and `old_ip_hdr` the header of
the packet that it is about. -/
structure IcmpPacket where
  ihSrc : UInt32
  ihDst : UInt32
  icmpLen : Nat
  ihType : UInt8
  ihCode : UInt8
  /-- `ihh_gateway` -/
  gateway : UInt32
  oldSrc : UInt32
  oldDst : UInt32
  iramNa : UInt8
  iramAes : UInt8
  iramLt : UInt16
  /-- The address and the preference of an entry of a router advertisement. -/
  entry : Nat → UInt32 × UInt32

/-- `IP_MIN_HDR_SIZE` bytes of the old packet follow the header of eight bytes. -/
def IcmpPacket.short (pack : IcmpPacket) : Bool := pack.icmpLen < 8 + ipMinHdrSize

def icmpDstUnreach (ports : Nat → IpPort) (s : Orouting) (currtim ipPortNr : Nat)
    (pack : IcmpPacket) : Option Orouting :=
  if pack.short ∨ pack.oldSrc ≠ pack.ihDst then some s
  else if pack.ihCode = 0 then -- `ICMP_NET_UNRCH`
    let mask := ipGetNetmask pack.oldDst
    iprDestunrch ports s currtim ipPortNr (pack.oldDst &&& mask) mask iprUnrchTimeout
  else if pack.ihCode = 1 then -- `ICMP_HOST_UNRCH`
    iprDestunrch ports s currtim ipPortNr pack.oldDst 0xffffffff iprUnrchTimeout
  else some s

def icmpTimeExceeded (ports : Nat → IpPort) (s : Orouting) (currtim ipPortNr : Nat)
    (pack : IcmpPacket) : Option Orouting :=
  if pack.short ∨ pack.oldSrc ≠ pack.ihDst then some s
  else if pack.ihCode = 0 then -- `ICMP_TTL_EXC`
    iprTtlExc ports s currtim ipPortNr pack.oldDst 0xffffffff iprTtlTimeout
  else some s

/-- `ntohs` -/
def ntohs (x : UInt16) : UInt16 := x >>> 8 ||| x <<< 8

/-- The default route that an entry of a router advertisement asks for. -/
def advertisedRoute (ipPortNr : Nat) (pack : IcmpPacket) (i : Nat) : NewRoute :=
  ⟨ipPortNr, 0, 0, (pack.entry i).1, (ntohs pack.iramLt).toNat * hz, 1, false,
    (ntohl (pack.entry i).2).toBitVec.toInt⟩

/-- The loop over the entries. -/
def advertise (ports : Nat → IpPort) (currtim ipPortNr : Nat) (pack : IcmpPacket) :
    List Nat → Orouting → Option Orouting
  | [], s => some s
  | i :: rest, s =>
    (iprAddOroute ports s currtim (advertisedRoute ipPortNr pack i)).bind fun (s, _) =>
      advertise ports currtim ipPortNr pack rest s

def icmpRouterAdvertisement (ports : Nat → IpPort) (s : Orouting) (currtim ipPortNr : Nat)
    (pack : IcmpPacket) : Option Orouting :=
  let entries := pack.iramNa.toNat
  let entrySize := pack.iramAes.toNat * 4
  if pack.icmpLen < 8 ∨ pack.ihCode ≠ 0 ∨ entries < 1 ∨ entrySize < 8 ∨
      pack.icmpLen < 8 + entries * entrySize ∨ 9000 < (ntohs pack.iramLt).toNat then some s
  else advertise ports currtim ipPortNr pack (List.range entries) s

def icmpRedirect (ports : Nat → IpPort) (s : Orouting) (currtim ipPortNr : Nat)
    (pack : IcmpPacket) : Option Orouting :=
  if pack.short then some s
  else if pack.ihCode = 0 then -- `ICMP_REDIRECT_NET`
    let mask := ipGetNetmask pack.oldDst
    iprRedirect ports s currtim ipPortNr (pack.oldDst &&& mask) mask pack.ihSrc pack.gateway
      iprRedirectTimeout
  else if pack.ihCode = 1 then -- `ICMP_REDIRECT_HOST`
    iprRedirect ports s currtim ipPortNr pack.oldDst 0xffffffff pack.ihSrc pack.gateway
      iprRedirectTimeout
  else some s

/-- The messages of `process_data` that change routes. -/
def icmpProcessData (ports : Nat → IpPort) (s : Orouting) (currtim ipPortNr : Nat)
    (pack : IcmpPacket) : Option Orouting :=
  if pack.ihType = 3 then icmpDstUnreach ports s currtim ipPortNr pack
  else if pack.ihType = 5 then icmpRedirect ports s currtim ipPortNr pack
  else if pack.ihType = 9 then icmpRouterAdvertisement ports s currtim ipPortNr pack
  else if pack.ihType = 11 then icmpTimeExceeded ports s currtim ipPortNr pack
  else some s

/-! ### Runs -/

/-- What changes the output routes. -/
inductive RouteEvent
  /-- `NWIOSIPOROUTE` -/
  | add (currtim : Nat) (new : NewRoute)
  /-- `NWIOGIPOROUTE` -/
  | get (currtim : Nat) (entNo : OrouteNr)
  /-- A packet is sent. -/
  | send (currtim portNr : Nat) (dest : UInt32)
  /-- An ICMP message arrives. -/
  | icmp (currtim portNr : Nat) (pack : IcmpPacket)
  | gatewayDown (currtim portNr : Nat) (gateway : UInt32) (timeout : Nat)

/-- One event; `none` if an assertion fails. -/
def Orouting.receive (ports : Nat → IpPort) (s : Orouting) : RouteEvent → Option Orouting
  | .add currtim new => (iprAddOroute ports s currtim new).map Prod.fst
  | .get currtim entNo => iprGetOroute s currtim entNo
  | .send currtim portNr dest => (orouteFindEnt s currtim portNr dest).map Prod.fst
  | .icmp currtim portNr pack => icmpProcessData ports s currtim portNr pack
  | .gatewayDown currtim portNr gateway timeout =>
    iprGatewayDown ports s currtim portNr gateway timeout

/-- There are fewer than `IP_PORT_MAX` ports. -/
def RouteEvent.PortFits : RouteEvent → Prop
  | .send _ portNr _ => portNr < 32
  | .icmp _ portNr _ => portNr < 32
  | _ => True

end Minix.Inet
