/-
This file models the routing of packets that arrive (`inet/generic/ipr.c`): `iroute_frag` with its
hash cache, `ipr_add_iroute`, `ipr_del_iroute` and `iroute_uncache_nw`.

A `nil` pointer to a route is `none`. The bits of `irt_flags` are two fields.
-/

import Minix.Library.Memo
import Mathlib.Data.UInt

namespace Minix.Inet

open Function (update)

/-! ### The table -/

/-- `IROUTE_NR` -/
def irouteNr : Nat := 512

/-- An entry of `iroute_table`. -/
abbrev IrouteNr := Fin irouteNr

/-- `iroute_t` -/
structure Iroute where
  dest : UInt32 := 0
  gateway : UInt32 := 0
  subnetmask : UInt32 := 0
  dist : Int := 0
  port : Nat := 0
  /-- `IRTF_INUSE` -/
  inuse : Bool := false
  /-- `IRTF_STATIC` -/
  static : Bool := false

/-- `iroute_table` and `iroute_hash_table`, whose sets are numbered by the hash value. -/
structure Irouting where
  table : IrouteNr → Iroute := fun _ => {}
  hash : UInt32 → List (Memo.Way UInt32 IrouteNr) := fun _ => List.replicate 4 ⟨0, none⟩

/-- `ENOMEM` -/
def enomem : Int := -12

/-- `ESRCH` -/
def esrch : Int := -3

/-- Convert a long from the network byte order. -/
def ntohl (x : UInt32) : UInt32 :=
  x >>> 24 ||| x >>> 8 &&& (0xff00 : UInt32) ||| x <<< 8 &&& (0xff0000 : UInt32) ||| x <<< 24

/-! ### `iroute_frag` -/

/-- The part of `hash_iroute` that depends on the address. -/
def hashAddr (ipaddr : UInt32) : UInt32 :=
  let hash := ipaddr >>> 20 ^^^ ipaddr
  let hash := hash >>> 10 ^^^ hash
  hash >>> 5 ^^^ hash

/-- `hash_iroute` -/
def hashIroute (portNr : Nat) (ipaddr : UInt32) : UInt32 :=
  (hashAddr ipaddr + UInt32.ofNat portNr) &&& 31

/-- The route is in use, and its network contains the destination. -/
def Iroute.covers (iroute : Iroute) (dest : UInt32) : Bool :=
  iroute.inuse && (dest ^^^ iroute.dest) &&& iroute.subnetmask == 0

/-- Whether a route replaces the best one so far. -/
def Iroute.better (iroute bestroute : Iroute) (portNr : Nat) : Bool :=
  -- More specific netmasks are better
  if iroute.subnetmask ≠ bestroute.subnetmask then
    ntohl bestroute.subnetmask < ntohl iroute.subnetmask
  -- Dynamic routes override static routes
  else if iroute.static ≠ bestroute.static then bestroute.static
  -- A route to the local interface gives an opportunity to send redirects.
  else if iroute.port ≠ bestroute.port then iroute.port = portNr
  else false

/-- One entry in the loop that looks for the best route. -/
def chooseIroute (table : IrouteNr → Iroute) (portNr : Nat) (dest : UInt32)
    (bestroute : Option IrouteNr) (i : IrouteNr) : Option IrouteNr :=
  if (table i).covers dest then
    match bestroute with
    | none => some i
    | some best => if (table i).better (table best) portNr then some i else some best
  else bestroute

/-- The loop over the table: the route without the cache. -/
def bestIroute (table : IrouteNr → Iroute) (portNr : Nat) (dest : UInt32) : Option IrouteNr :=
  (List.finRange irouteNr).foldl (chooseIroute table portNr dest) none

def irouteFrag (s : Irouting) (portNr : Nat) (dest : UInt32) : Irouting × Option IrouteNr :=
  let hash := hashIroute portNr dest
  let used := Memo.use dest (s.hash hash)
  let s := { s with hash := update s.hash hash used.1 }
  match used.2 with
  | some iroute => (s, some iroute)
  | none =>
    match bestIroute s.table portNr dest with
    | none => (s, none)
    | some bestroute =>
      ({ s with hash := update s.hash hash (Memo.remember used.1 dest bestroute) }, some bestroute)

/-! ### Changes of the table -/

/-- `iroute_uncache_nw` -/
def irouteUncacheNw (s : Irouting) (dest netmask : UInt32) : Irouting :=
  { s with hash := fun hash =>
      Memo.forget 0 (fun addr => (addr ^^^ dest) &&& netmask == 0) (s.hash hash) }

/-- The route has the port and the addresses. -/
def Iroute.is (iroute : Iroute) (portNr : Nat) (dest subnetmask gateway : UInt32) : Bool :=
  iroute.port = portNr && iroute.dest = dest && iroute.subnetmask = subnetmask &&
    iroute.gateway = gateway

/-- The entry for a new route. A dynamic route takes the place of an old one. -/
def unusedIroute (table : IrouteNr → Iroute) (portNr : Nat)
    (dest subnetmask gateway : UInt32) (staticRoute : Bool) : Option IrouteNr :=
  let entries := List.finRange irouteNr
  if staticRoute then entries.find? fun i => !(table i).inuse
  else
    match entries.find? fun i => (table i).inuse && !(table i).static &&
        (table i).is portNr dest subnetmask gateway with
    | some i => some i
    | none => entries.reverse.find? fun i => !(table i).inuse

def iprAddIroute (s : Irouting) (portNr : Nat) (dest subnetmask gateway : UInt32) (dist : Int)
    (staticRoute : Bool) : Irouting × Except Int IrouteNr :=
  match unusedIroute s.table portNr dest subnetmask gateway staticRoute with
  | none => (s, .error enomem)
  | some iroute =>
    let table := update s.table iroute
      { port := portNr, dest, subnetmask, gateway, dist, inuse := true, static := staticRoute }
    (irouteUncacheNw { s with table := table } dest subnetmask, .ok iroute)

def iprDelIroute (s : Irouting) (portNr : Nat) (dest subnetmask gateway : UInt32)
    (staticRoute : Bool) : Irouting × Except Int Unit :=
  match (List.finRange irouteNr).find? fun i => (s.table i).inuse &&
      (s.table i).is portNr dest subnetmask gateway && (s.table i).static == staticRoute with
  | none => (s, .error esrch)
  | some i =>
    let s := irouteUncacheNw s (s.table i).dest (s.table i).subnetmask
    ({ s with table := update s.table i { s.table i with inuse := false, static := false } },
      .ok ())

/-! ### Runs -/

/-- What happens to the input routes. -/
inductive IrouteOp
  | add (portNr : Nat) (dest subnetmask gateway : UInt32) (dist : Int) (staticRoute : Bool)
  | del (portNr : Nat) (dest subnetmask gateway : UInt32) (staticRoute : Bool)
  | lookup (portNr : Nat) (dest : UInt32)

def Irouting.step (s : Irouting) : IrouteOp → Irouting
  | .add portNr dest subnetmask gateway dist staticRoute =>
    (iprAddIroute s portNr dest subnetmask gateway dist staticRoute).1
  | .del portNr dest subnetmask gateway staticRoute =>
    (iprDelIroute s portNr dest subnetmask gateway staticRoute).1
  | .lookup portNr dest => (irouteFrag s portNr dest).1

/-- The packets come from one of fewer than 32 ports. -/
def IrouteOp.PortFits : IrouteOp → Prop
  | .lookup portNr _ => portNr < 32
  | _ => True

end Minix.Inet
