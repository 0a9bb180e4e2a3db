/-
This file models the routing of packets that leave (`inet/generic/ipr.c`): `oroute_find_ent` with its
hash cache, `ipr_add_oroute`, `ipr_get_oroute`, `oroute_del`, `sort_dists` and `sort_gws`.

The routes lie in a table. They are linked on three levels: the first routes of the networks, the
first routes of the gateways of a network, and the routes through a gateway. A `nil` pointer is
`none`, the bits of `ort_flags` are two fields, and the time does not wrap. A result that is `none`
is a failed assertion.
-/

import Minix.Inet.Iroute
import Minix.Inet.Sr
import Minix.Library.BestFirst

namespace Minix.Inet

open Function (update)
open LinkedList (scan takeOut putFirst sortBest)

/-! ### The table -/

/-- `OROUTE_NR` -/
def orouteNr : Nat := 32

/-- An entry of `oroute_table`. -/
abbrev OrouteNr := Fin orouteNr

/-- `OROUTE_STATIC_NR` -/
def orouteStaticNr : Nat := 16

/-- The fields of `oroute_t` except the pointers. -/
structure Oroute where
  port : Nat := 0
  dest : UInt32 := 0
  subnetmask : UInt32 := 0
  dist : Int := 0
  pref : Int := 0
  gateway : UInt32 := 0
  expTim : Nat := 0
  timestamp : Nat := 0
  /-- `ORTF_INUSE` -/
  inuse : Bool := false
  /-- `ORTF_STATIC` -/
  static : Bool := false

/-- The output routes with their pointers, and `oroute_hash_table`. -/
structure Orouting where
  table : OrouteNr → Oroute := fun _ => {}
  nextnw : OrouteNr → Option OrouteNr := fun _ => none
  nextgw : OrouteNr → Option OrouteNr := fun _ => none
  nextdist : OrouteNr → Option OrouteNr := fun _ => none
  head : Option OrouteNr := none
  staticNr : Nat := 0
  hash : UInt32 → List (Memo.Way UInt32 OrouteNr) := fun _ => List.replicate 4 ⟨0, none⟩

/-- The address and the netmask of an IP port. -/
structure IpPort where
  ipaddr : UInt32
  subnetmask : UInt32

/-- The arguments of `ipr_add_oroute`. -/
structure NewRoute where
  portNr : Nat
  dest : UInt32
  subnetmask : UInt32
  gateway : UInt32
  timeout : Nat
  dist : Int
  staticRoute : Bool
  preference : Int

/-- `exp_tim && exp_tim < currtim` -/
def Oroute.expired (oroute : Oroute) (currtim : Nat) : Bool :=
  oroute.expTim ≠ 0 && oroute.expTim < currtim

/-- The route leads to the network. -/
def Oroute.leadsTo (oroute : Oroute) (portNr : Nat) (dest subnetmask : UInt32) : Bool :=
  oroute.port = portNr && oroute.dest = dest && oroute.subnetmask = subnetmask

/-- The route has a smaller distance, or the same distance and a greater preference. -/
def Oroute.better (r best : Oroute) : Bool :=
  if r.dist ≠ best.dist then r.dist < best.dist else best.pref < r.pref

/-- The loops of `sort_dists` and `sort_gws`, on `ort_nextdist` and `ort_nextgw`. -/
def sortRoutes (table : OrouteNr → Oroute) (next : OrouteNr → Option OrouteNr)
    (oroute : Option OrouteNr) : Option ((OrouteNr → Option OrouteNr) × Option OrouteNr) :=
  sortBest next (fun r best => (table r).better (table best)) orouteNr oroute

/-- `oroute_uncache_nw` -/
def orouteUncacheNw (s : Orouting) (dest netmask : UInt32) : Orouting :=
  { s with hash := fun hash =>
      Memo.forget 0 (fun addr => (addr ^^^ dest) &&& netmask == 0) (s.hash hash) }

/-! ### `oroute_del` -/

def orouteDel (s : Orouting) (oroute : OrouteNr) : Option Orouting :=
  let entry := s.table oroute
  (takeOut s.nextnw (fun r => (s.table r).leadsTo entry.port entry.dest entry.subnetmask)
    orouteNr s.head).bind fun (nwRoute, nextnw, head) =>
  nwRoute.bind fun prevRoute =>
  (takeOut s.nextgw (fun r => (s.table r).gateway = entry.gateway) orouteNr
    (some prevRoute)).bind fun (gwRoute, nextgw, nwRoute) =>
  gwRoute.bind fun gwRoute =>
  (takeOut s.nextdist (fun r => r = oroute) orouteNr
    (some gwRoute)).bind fun (distRoute, nextdist, gwRoute) =>
  distRoute.bind fun _ =>
  (sortRoutes s.table nextdist gwRoute).bind fun (nextdist, gwRoute) =>
  let gws := putFirst nextgw gwRoute nwRoute
  (sortRoutes s.table gws.1 gws.2).bind fun (nextgw, nwRoute) =>
  let nws := putFirst nextnw nwRoute head
  let s' : Orouting :=
    { s with nextnw := nws.1, nextgw := nextgw, nextdist := nextdist, head := nws.2 }
  some (if nwRoute ≠ some prevRoute then
      orouteUncacheNw s' (s.table prevRoute).dest (s.table prevRoute).subnetmask
    else s')

/-- `oroute_del(oroute); oroute->ort_flags= 0;` -/
def release (s : Orouting) (oroute : OrouteNr) : Option Orouting :=
  (orouteDel s oroute).map fun s =>
    { s with table := update s.table oroute { s.table oroute with inuse := false, static := false } }

/-! ### `ipr_add_oroute` -/

/-- The route that a loop over a list stops at. -/
def searchRoutes (next : OrouteNr → Option OrouteNr) (found : OrouteNr → Bool)
    (start : Option OrouteNr) : Option (Option OrouteNr) :=
  (scan next found orouteNr none start).map (·.map Prod.snd)

/-- Try to track down any old routes. -/
def trackDown (s : Orouting) (new : NewRoute) : Option (Option OrouteNr) :=
  (searchRoutes s.nextnw (fun r => (s.table r).leadsTo new.portNr new.dest new.subnetmask)
    s.head).bind fun nw =>
  (searchRoutes s.nextgw (fun r => (s.table r).gateway = new.gateway) nw).bind fun gw =>
  searchRoutes s.nextdist (fun r => !(s.table r).static && (s.table r).dist ≤ new.dist) gw

/-- What the loop over the table finds: an entry that is not in use, one that has expired, or else
the oldest one that may be removed. -/
inductive Entry
  | unused (i : OrouteNr)
  | expired (i : OrouteNr)
  | oldest (i : Option OrouteNr)

/-- Look for an unused entry, or remove an existing one. -/
def findEntry (table : OrouteNr → Oroute) (currtim : Nat) :
    List OrouteNr → Option OrouteNr → Entry
  | [], oldestRoute => .oldest oldestRoute
  | i :: rest, oldestRoute =>
    if !(table i).inuse then .unused i
    else if (table i).expired currtim then .expired i
    else if (table i).static ∨ (table i).dest = 0 then findEntry table currtim rest oldestRoute
    else
      match oldestRoute with
      | none => findEntry table currtim rest (some i)
      | some oldest =>
        findEntry table currtim rest
          (if (table i).timestamp < (table oldest).timestamp then some i else some oldest)

/-- An entry for a new route. -/
def takeEntry (s : Orouting) (currtim : Nat) : Option (Orouting × OrouteNr) :=
  match findEntry s.table currtim (List.finRange orouteNr) none with
  | .unused i => some (s, i)
  | .expired i => (release s i).map fun s => (s, i)
  | .oldest oldestRoute =>
    oldestRoute.bind fun i => (release s i).map fun s => (s, i)

/-- The time when a route with a timeout expires. -/
def expTime (currtim timeout : Nat) : Nat := if timeout ≠ 0 then currtim + timeout else 0

/-- The contents of the entry of a new route. -/
def NewRoute.entry (new : NewRoute) (currtim : Nat) : Oroute :=
  { dest := new.dest, gateway := new.gateway, subnetmask := new.subnetmask
    expTim := expTime currtim new.timeout, timestamp := currtim, dist := new.dist
    port := new.portNr, inuse := true, pref := new.preference, static := new.staticRoute }

/-- Insert the route by tearing apart the routing table, and insert the entry during the
reconstruction. -/
def insertRoute (s : Orouting) (currtim : Nat) (new : NewRoute) (i : OrouteNr) : Option Orouting :=
  let table := update s.table i (new.entry currtim)
  (takeOut s.nextnw (fun r => (table r).leadsTo new.portNr new.dest new.subnetmask) orouteNr
    s.head).bind fun (prevRoute, nextnw, head) =>
  (takeOut s.nextgw (fun r => (table r).gateway = new.gateway) orouteNr
    prevRoute).bind fun (gwRoute, nextgw, nwRoute) =>
  (sortRoutes table (update s.nextdist i gwRoute) (some i)).bind fun (nextdist, gwRoute) =>
  gwRoute.bind fun gwRoute =>
  (sortRoutes table (update nextgw gwRoute nwRoute) (some gwRoute)).bind fun (nextgw, nwRoute) =>
  nwRoute.bind fun nwRoute =>
  let s' : Orouting := { s with
    table := table, nextnw := update nextnw nwRoute head, nextgw := nextgw
    nextdist := nextdist, head := some nwRoute }
  some (if some nwRoute ≠ prevRoute then
      orouteUncacheNw s' (table nwRoute).dest (table nwRoute).subnetmask
    else s')

/-- The gateway is not in the network of the port. -/
def invalidGateway (ports : Nat → IpPort) (portNr : Nat) (gateway : UInt32) : Bool :=
  (gateway ^^^ (ports portNr).ipaddr) &&& (ports portNr).subnetmask != 0

/-- Take an entry and insert the route. -/
def addRoute (s : Orouting) (currtim : Nat) (new : NewRoute) :
    Option (Orouting × Except Int OrouteNr) :=
  (takeEntry s currtim).bind fun (s, i) =>
    (insertRoute s currtim new i).map fun s => (s, .ok i)

def iprAddOroute (ports : Nat → IpPort) (s : Orouting) (currtim : Nat) (new : NewRoute) :
    Option (Orouting × Except Int OrouteNr) :=
  if invalidGateway ports new.portNr new.gateway then some (s, .error einval)
  else if new.staticRoute then
    if orouteStaticNr ≤ s.staticNr then some (s, .error enomem)
    else addRoute { s with staticNr := s.staticNr + 1 } currtim new
  else
    (trackDown s new).bind fun old =>
      match old with
      | none => addRoute s currtim new
      | some oroute =>
        if (s.table oroute).port ≠ new.portNr then none
        else if (s.table oroute).dist = new.dist ∧ (s.table oroute).pref = new.preference then
          let refreshed : Oroute :=
            { s.table oroute with expTim := expTime currtim new.timeout, timestamp := currtim }
          some ({ s with table := update s.table oroute refreshed }, .ok oroute)
        else
          (release s oroute).bind fun s =>
            (insertRoute s currtim new oroute).map fun s => (s, .ok oroute)

/-! ### Looking up -/

/-- `hash_oroute` -/
def hashOroute (portNr : Nat) (ipaddr : UInt32) : UInt32 :=
  (hashAddr ipaddr + UInt32.ofNat portNr) &&& 31

/-- The route serves the port and its network contains the address. -/
def Oroute.serves (oroute : Oroute) (portNr : Nat) (dest : UInt32) : Bool :=
  (dest ^^^ oroute.dest) &&& oroute.subnetmask == 0 && oroute.port = portNr

/-- The loop over the networks, for the most specific one. -/
def searchNetworks (s : Orouting) (portNr : Nat) (dest : UInt32) :
    Nat → Option OrouteNr → Option OrouteNr → Option (Option OrouteNr)
  | _, none, bestroute => some bestroute
  | 0, some _, _ => none
  | fuel + 1, some r, bestroute =>
    if (s.table r).serves portNr dest then
      match bestroute with
      | none => searchNetworks s portNr dest fuel (s.nextnw r) (some r)
      | some best =>
        if (s.table r).dest = (s.table best).dest then none
        else
          searchNetworks s portNr dest fuel (s.nextnw r)
            (if ntohl (s.table best).subnetmask < ntohl (s.table r).subnetmask then some r
              else some best)
    else searchNetworks s portNr dest fuel (s.nextnw r) bestroute

/-- The search behind the cache. -/
def findNetwork (s : Orouting) (portNr : Nat) (dest : UInt32) :
    Option (Orouting × Option OrouteNr) :=
  (searchNetworks s portNr dest orouteNr s.head none).map fun bestroute =>
    match bestroute with
    | none => (s, none)
    | some best =>
      let hash := hashOroute portNr dest
      ({ s with hash := update s.hash hash (Memo.remember (s.hash hash) dest best) }, some best)

/-- `oroute_del(oroute); oroute->ort_flags &= ~ORTF_INUSE;` -/
def expire (s : Orouting) (oroute : OrouteNr) : Option Orouting :=
  (orouteDel s oroute).map fun s =>
    { s with table := update s.table oroute { s.table oroute with inuse := false } }

/-- What the cache gives. A way that is used moves to the front. -/
def consult (s : Orouting) (portNr : Nat) (dest : UInt32) : Orouting × Option OrouteNr :=
  let hash := hashOroute portNr dest
  let used := Memo.use dest (s.hash hash)
  ({ s with hash := update s.hash hash used.1 }, used.2)

def orouteFindEnt (s : Orouting) (currtim portNr : Nat) (dest : UInt32) :
    Option (Orouting × Option OrouteNr) :=
  let (s, route) := consult s portNr dest
  match route with
  | none => findNetwork s portNr dest
  | some oroute =>
    if (s.table oroute).port ≠ portNr then none
    else if (s.table oroute).expired currtim then
      (expire s oroute).bind fun s => findNetwork s portNr dest
    else some (s, some oroute)

/-- The part of `ipr_get_oroute` that changes the table. -/
def iprGetOroute (s : Orouting) (currtim : Nat) (entNo : OrouteNr) : Option Orouting :=
  if (s.table entNo).inuse && (s.table entNo).expired currtim then expire s entNo else some s

end Minix.Inet
