/-
This file proves exactly when the updates of the output routes by ICMP messages violate no assertion.

The assertions assume that an update is never refused and that there is room for it. An update that
takes the gateway of a route of the same port is not refused, because the gateways of all routes are
in the networks of their ports. A redirect to a gateway outside the network of the port is refused,
and so is an update of a route of another port; a full table has no room; and the search may meet
two networks with one destination.
-/

import Minix.Inet.RouteRuns
import Minix.Inet.IcmpRoutes

namespace Minix.Inet

open Function (update update_of_ne update_self)

variable {ports : Nat → IpPort} {s s' : Orouting} {nws : List OrouteNr} {currtim portNr : Nat}
  {dest netmask : UInt32} {new : NewRoute}

/-! ### What holds of every table -/

/-- The lists are well formed, the cache knows the ports, and each gateway is in the network of its
port. -/
structure RoutesSound (ports : Nat → IpPort) (s : Orouting) : Prop where
  linked : ∃ nws, Linked s s.Inuse nws
  cache : CachePorts s
  valid : ∀ j, s.Inuse j → invalidGateway ports (s.table j).port (s.table j).gateway = false

theorem routesSound_init : RoutesSound ports {} := by
  refine ⟨⟨[], linked_init⟩, ?_, fun j used => absurd used Bool.false_ne_true⟩
  rintro hash addr r ⟨way, member, _, value⟩
  rw [List.eq_of_mem_replicate member] at value
  cases value

theorem RoutesSound.keeps (sound : RoutesSound ports s) (linked : ∃ nws, Linked s' s'.Inuse nws)
    (cache : CachePorts s') (keeps : Keeps s s') : RoutesSound ports s' := by
  refine ⟨linked, cache, fun j used => ?_⟩
  obtain ⟨before, same⟩ := keeps j used
  rw [same]
  exact sound.valid j before

theorem RoutesSound.gains (sound : RoutesSound ports s) (linked : ∃ nws, Linked s' s'.Inuse nws)
    (forgets : Forgets s s') (gains : Gains s s' new)
    (valid : invalidGateway ports new.portNr new.gateway = false) : RoutesSound ports s' := by
  refine ⟨linked, sound.cache.forgets forgets, fun j used => ?_⟩
  obtain ⟨before, port, gateway⟩ | ⟨port, gateway⟩ := gains j used
  · rw [port, gateway]
    exact sound.valid j before
  · rw [port, gateway]
    exact valid

/-- The computation fails an assertion unless the condition holds, and else gives a sound table. -/
def Decides (ports : Nat → IpPort) (result : Option Orouting) (condition : Prop) : Prop :=
  (condition → ∃ s', result = some s' ∧ RoutesSound ports s') ∧ (¬condition → result = none)

theorem Decides.pure (sound : RoutesSound ports s) : Decides ports (some s) True :=
  ⟨fun _ => ⟨s, rfl, sound⟩, fun wrong => absurd trivial wrong⟩

theorem Decides.bind {result : Option Orouting} {next : Orouting → Option Orouting}
    {first : Prop} {second : Orouting → Prop} (start : Decides ports result first)
    (rest : ∀ s', RoutesSound ports s' → Decides ports (next s') (second s')) :
    Decides ports (result.bind next) (first ∧ ∀ s', result = some s' → second s') := by
  constructor
  · rintro ⟨ok, later⟩
    obtain ⟨s', same, sound⟩ := start.1 ok
    rw [same, Option.bind_some]
    exact (rest s' sound).1 (later s' same)
  · intro fails
    by_cases ok : first
    · obtain ⟨s', same, sound⟩ := start.1 ok
      rw [same, Option.bind_some]
      refine (rest s' sound).2 fun later => fails ⟨ok, fun s'' same' => ?_⟩
      rw [← Option.some.inj (same.symm.trans same')]
      exact later
    · rw [start.2 ok]
      rfl

/-! ### Additions -/

theorem iprAddOroute_decides (sound : RoutesSound ports s) (currtim : Nat) (new : NewRoute) :
    Decides ports ((iprAddOroute ports s currtim new).map Prod.fst) (s.Room ports currtim new) := by
  obtain ⟨nws, linked⟩ := sound.linked
  constructor
  · intro room
    obtain ⟨s', result, nws', added, linked', forgets, refused, _, gains⟩ :=
      iprAddOroute_linked linked room
    refine ⟨s', by rw [added]; rfl, ?_⟩
    cases invalid : invalidGateway ports new.portNr new.gateway with
    | true => exact (refused invalid).1 ▸ sound
    | false => exact sound.gains ⟨nws', linked'⟩ forgets gains invalid
  · intro crowded
    rw [iprAddOroute_none linked crowded]
    rfl

/-- A dynamic route is accepted: its gateway is in the network of the port, and there is room. -/
def Orouting.Accepts (s : Orouting) (ports : Nat → IpPort) (currtim : Nat) (new : NewRoute) : Prop :=
  invalidGateway ports new.portNr new.gateway = false ∧ s.Room ports currtim new

theorem addAsserted_decides (sound : RoutesSound ports s) (currtim : Nat)
    (dynamic : new.staticRoute = false) :
    Decides ports (addAsserted ports s currtim new) (s.Accepts ports currtim new) := by
  obtain ⟨nws, linked⟩ := sound.linked
  unfold addAsserted
  by_cases room : s.Room ports currtim new
  · obtain ⟨s', result, nws', added, linked', forgets, refused, accepted, gains⟩ :=
      iprAddOroute_linked linked room
    rw [added, Option.bind_some]
    constructor
    · intro accepts
      obtain ⟨i, rfl⟩ := accepted accepts.1 dynamic
      exact ⟨s', rfl, sound.gains ⟨nws', linked'⟩ forgets gains accepts.1⟩
    · intro fails
      have invalid : invalidGateway ports new.portNr new.gateway = true := by
        by_contra valid
        exact fails ⟨Bool.eq_false_iff.mpr valid, room⟩
      rw [(refused invalid).2]
  · refine ⟨fun accepts => absurd accepts.2 room, fun _ => ?_⟩
    rw [iprAddOroute_none linked room]
    rfl

theorem addAsserted_derived (sound : RoutesSound ports s) (currtim : Nat)
    (dynamic : new.staticRoute = false) {i : OrouteNr} (used : s.Inuse i)
    (port : (s.table i).port = new.portNr) (gateway : (s.table i).gateway = new.gateway) :
    Decides ports (addAsserted ports s currtim new) (s.Room ports currtim new) := by
  have valid := sound.valid i used
  rw [port, gateway] at valid
  have decides := @addAsserted_decides _ _ new sound currtim dynamic
  exact ⟨fun room => decides.1 ⟨valid, room⟩, fun crowded => decides.2 fun both => crowded both.2⟩

/-- A look-up, and then an update that depends on the route that is found. -/
theorem withRoute_decides (sound : RoutesSound ports s) (currtim : Nat) (dest : UInt32)
    (fits : portNr < 32) {next : Orouting → OrouteNr → Option Orouting}
    {condition : Orouting → OrouteNr → Prop}
    (rest : ∀ s' i, RoutesSound ports s' → s'.Inuse i → (s'.table i).port = portNr →
      Decides ports (next s' i) (condition s' i)) :
    Decides ports (withRoute s currtim portNr dest next)
      (s.SearchOk currtim portNr dest ∧ ∀ s' i,
        orouteFindEnt s currtim portNr dest = some (s', some i) → condition s' i) := by
  obtain ⟨nws, linked⟩ := sound.linked
  unfold withRoute
  obtain none | ⟨s', route, found, finds⟩ := orouteFindEnt_linked linked currtim portNr dest
  · have fails := (orouteFindEnt_none_iff linked sound.cache fits).mp none
    refine ⟨fun ok => absurd ok.1 fails, fun _ => ?_⟩
    rw [none]
    rfl
  · have ok : s.SearchOk currtim portNr dest := by
      by_contra fails
      rw [(orouteFindEnt_none_iff linked sound.cache fits).mpr fails] at found
      cases found
    have sound' := sound.keeps finds.linked (finds.ports sound.cache fits) finds.keeps
    rw [found, Option.bind_some]
    cases route with
    | none =>
      refine ⟨fun _ => ⟨s', rfl, sound'⟩, fun wrong => absurd ⟨ok, ?_⟩ wrong⟩
      rintro s'' i wrong
      cases wrong
    | some i =>
      obtain ⟨used, port⟩ := finds.route i rfl
      obtain ⟨succeeds, fails⟩ := rest s' i sound' used port
      refine ⟨fun both => succeeds (both.2 s' i rfl), fun wrong => fails fun holds => wrong ⟨ok, ?_⟩⟩
      rintro s'' j same
      cases same
      exact holds

/-! ### When the updates succeed -/

/-- There is room for the route that marks the address as unreachable. -/
def DestunrchOk (ports : Nat → IpPort) (s : Orouting) (currtim portNr : Nat)
    (dest netmask : UInt32) (timeout : Nat) : Prop :=
  s.SearchOk currtim portNr dest ∧ ∀ s' i,
    orouteFindEnt s currtim portNr dest = some (s', some i) →
    s'.Room ports currtim (unreachableRoute (s'.table i) portNr dest netmask timeout)

theorem iprDestunrch_decides (sound : RoutesSound ports s) (fits : portNr < 32) (timeout : Nat) :
    Decides ports (iprDestunrch ports s currtim portNr dest netmask timeout)
      (DestunrchOk ports s currtim portNr dest netmask timeout) :=
  withRoute_decides sound currtim dest fits fun s' i sound' used port =>
    @addAsserted_derived ports s' (unreachableRoute (s'.table i) portNr dest netmask timeout) sound'
      currtim rfl i used port rfl

/-- There is room for the route with the greater distance. -/
def TtlExcOk (ports : Nat → IpPort) (s : Orouting) (currtim portNr : Nat)
    (dest netmask : UInt32) (timeout : Nat) : Prop :=
  s.SearchOk currtim portNr dest ∧ ∀ s' i,
    orouteFindEnt s currtim portNr dest = some (s', some i) →
    ∀ newDist, ttlDist (s'.table i).dist = some newDist →
      s'.Room ports currtim
        ⟨portNr, dest, netmask, (s'.table i).gateway, timeout, newDist, false, 0⟩

theorem iprTtlExc_decides (sound : RoutesSound ports s) (fits : portNr < 32) (timeout : Nat) :
    Decides ports (iprTtlExc ports s currtim portNr dest netmask timeout)
      (TtlExcOk ports s currtim portNr dest netmask timeout) := by
  refine withRoute_decides sound currtim dest fits fun s' i sound' used port => ?_
  cases ttlDist (s'.table i).dist with
  | none =>
    exact ⟨fun _ => ⟨s', rfl, sound'⟩, fun wrong => absurd (fun _ none => by cases none) wrong⟩
  | some newDist =>
    obtain ⟨succeeds, fails⟩ := @addAsserted_derived ports s'
      ⟨portNr, dest, netmask, (s'.table i).gateway, timeout, newDist, false, 0⟩ sound' currtim rfl i
      used port rfl
    refine ⟨fun room => succeeds (room newDist rfl), fun crowded => fails fun room => crowded ?_⟩
    rintro other same
    cases same
    exact room

/-- If the redirect comes from the gateway of the route, and the route is not fixed, the new gateway
is in the network of the port, and there is room for the old route and for the new one. -/
def RedirectOk (ports : Nat → IpPort) (s : Orouting) (currtim portNr : Nat)
    (dest netmask oldGateway newGateway : UInt32) (timeout : Nat) : Prop :=
  s.SearchOk currtim portNr dest ∧ ∀ s' i,
    orouteFindEnt s currtim portNr dest = some (s', some i) →
    (s'.table i).gateway = oldGateway →
    ((s'.table i).static = true → (s'.table i).dest ≠ dest →
      s'.Accepts ports currtim (redirectRoute portNr dest netmask newGateway timeout)) ∧
    ((s'.table i).static = false →
      s'.Room ports currtim (unreachableRoute (s'.table i) portNr dest netmask hz) ∧
      ∀ s'', addAsserted ports s' currtim (unreachableRoute (s'.table i) portNr dest netmask hz) =
          some s'' →
        s''.Accepts ports currtim (redirectRoute portNr dest netmask newGateway timeout))

theorem iprRedirect_decides (sound : RoutesSound ports s) (fits : portNr < 32)
    (oldGateway newGateway : UInt32) (timeout : Nat) :
    Decides ports (iprRedirect ports s currtim portNr dest netmask oldGateway newGateway timeout)
      (RedirectOk ports s currtim portNr dest netmask oldGateway newGateway timeout) := by
  refine withRoute_decides sound currtim dest fits fun s' i sound' used port => ?_
  have done : ∀ {condition : Prop}, condition → Decides ports (some s') condition :=
    fun holds => ⟨fun _ => ⟨s', rfl, sound'⟩, fun wrong => absurd holds wrong⟩
  split
  case isTrue other => exact done fun same => absurd same other
  case isFalse same =>
    have from' := not_not.mp same
    cases static : (s'.table i).static with
    | true =>
      rw [if_pos rfl]
      split
      case isTrue fixed =>
        exact done fun _ => ⟨fun _ apart => absurd fixed apart, fun wrong => (by cases wrong)⟩
      case isFalse apart =>
        obtain ⟨succeeds, fails⟩ := @addAsserted_decides ports s'
          (redirectRoute portNr dest netmask newGateway timeout) sound' currtim rfl
        refine ⟨fun ok => succeeds ((ok from').1 rfl apart), fun wrong => fails fun accepts =>
          wrong fun _ => ⟨fun _ _ => accepts, fun wrong => (by cases wrong)⟩⟩
    | false =>
      rw [if_neg Bool.false_ne_true]
      obtain ⟨succeeds, fails⟩ := Decides.bind
        (@addAsserted_derived ports s' (unreachableRoute (s'.table i) portNr dest netmask hz) sound'
          currtim rfl i used port rfl)
        fun s'' sound'' => @addAsserted_decides ports s''
          (redirectRoute portNr dest netmask newGateway timeout) sound'' currtim rfl
      refine ⟨fun ok => succeeds ((ok from').2 rfl), fun wrong => fails fun both =>
        wrong fun _ => ⟨fun wrong => (by cases wrong), fun _ => both⟩⟩

/-- Each route through the gateway that has not expired is one of the port, and there is room when
the loop comes to it. -/
def GatewayDownOk (ports : Nat → IpPort) (currtim portNr : Nat) (gateway : UInt32)
    (timeout : Nat) : List OrouteNr → Orouting → Prop
  | [], _ => True
  | i :: rest, s =>
    if (s.table i).inuse && (s.table i).gateway = gateway && !(s.table i).expired currtim then
      s.Accepts ports currtim ⟨portNr, (s.table i).dest, (s.table i).subnetmask, gateway, timeout,
        ortdUnreachable, false, 0⟩ ∧
      ∀ s', addAsserted ports s currtim ⟨portNr, (s.table i).dest, (s.table i).subnetmask, gateway,
          timeout, ortdUnreachable, false, 0⟩ = some s' →
        GatewayDownOk ports currtim portNr gateway timeout rest s'
    else GatewayDownOk ports currtim portNr gateway timeout rest s

theorem gatewayDownLoop_decides (gateway : UInt32) (timeout : Nat) (entries : List OrouteNr)
    (sound : RoutesSound ports s) :
    Decides ports (gatewayDownLoop ports currtim portNr gateway timeout entries s)
      (GatewayDownOk ports currtim portNr gateway timeout entries s) := by
  induction entries generalizing s with
  | nil => exact Decides.pure sound
  | cons i rest inductionHypothesis =>
    unfold gatewayDownLoop GatewayDownOk
    split
    case isTrue =>
      exact Decides.bind (addAsserted_decides sound currtim rfl) fun s' sound' =>
        inductionHypothesis sound'
    case isFalse => exact inductionHypothesis sound

/-- There is room for each advertised route when the loop comes to it. -/
def AdvertiseOk (ports : Nat → IpPort) (currtim ipPortNr : Nat) (pack : IcmpPacket) :
    List Nat → Orouting → Prop
  | [], _ => True
  | i :: rest, s =>
    s.Room ports currtim (advertisedRoute ipPortNr pack i) ∧
    ∀ s', (iprAddOroute ports s currtim (advertisedRoute ipPortNr pack i)).map Prod.fst = some s' →
      AdvertiseOk ports currtim ipPortNr pack rest s'

theorem advertise_decides (pack : IcmpPacket) (entries : List Nat) (sound : RoutesSound ports s) :
    Decides ports (advertise ports currtim portNr pack entries s)
      (AdvertiseOk ports currtim portNr pack entries s) := by
  induction entries generalizing s with
  | nil => exact Decides.pure sound
  | cons i rest inductionHypothesis =>
    unfold advertise AdvertiseOk
    have decides := Decides.bind
      (iprAddOroute_decides sound currtim (advertisedRoute portNr pack i)) fun s' sound' =>
      inductionHypothesis sound'
    rw [Option.bind_map] at decides
    exact decides

/-! ### Messages -/

def DstUnreachOk (ports : Nat → IpPort) (s : Orouting) (currtim portNr : Nat)
    (pack : IcmpPacket) : Prop :=
  ¬(pack.short = true ∨ pack.oldSrc ≠ pack.ihDst) →
    (pack.ihCode = 0 → DestunrchOk ports s currtim portNr
      (pack.oldDst &&& ipGetNetmask pack.oldDst) (ipGetNetmask pack.oldDst) iprUnrchTimeout) ∧
    (pack.ihCode = 1 →
      DestunrchOk ports s currtim portNr pack.oldDst 0xffffffff iprUnrchTimeout)

def TimeExceededOk (ports : Nat → IpPort) (s : Orouting) (currtim portNr : Nat)
    (pack : IcmpPacket) : Prop :=
  ¬(pack.short = true ∨ pack.oldSrc ≠ pack.ihDst) → pack.ihCode = 0 →
    TtlExcOk ports s currtim portNr pack.oldDst 0xffffffff iprTtlTimeout

/-- The router advertisement is used. -/
def IcmpPacket.Advertises (pack : IcmpPacket) : Prop :=
  ¬(pack.icmpLen < 8 ∨ pack.ihCode ≠ 0 ∨ pack.iramNa.toNat < 1 ∨ pack.iramAes.toNat * 4 < 8 ∨
    pack.icmpLen < 8 + pack.iramNa.toNat * (pack.iramAes.toNat * 4) ∨
    9000 < (ntohs pack.iramLt).toNat)

def RedirectMessageOk (ports : Nat → IpPort) (s : Orouting) (currtim portNr : Nat)
    (pack : IcmpPacket) : Prop :=
  ¬pack.short = true →
    (pack.ihCode = 0 → RedirectOk ports s currtim portNr
      (pack.oldDst &&& ipGetNetmask pack.oldDst) (ipGetNetmask pack.oldDst) pack.ihSrc pack.gateway
      iprRedirectTimeout) ∧
    (pack.ihCode = 1 → RedirectOk ports s currtim portNr pack.oldDst 0xffffffff pack.ihSrc
      pack.gateway iprRedirectTimeout)

/-- The condition for each type of message. -/
def IcmpOk (ports : Nat → IpPort) (s : Orouting) (currtim portNr : Nat) (pack : IcmpPacket) :
    Prop :=
  (pack.ihType = 3 → DstUnreachOk ports s currtim portNr pack) ∧
  (pack.ihType = 5 → RedirectMessageOk ports s currtim portNr pack) ∧
  (pack.ihType = 9 → pack.Advertises →
    AdvertiseOk ports currtim portNr pack (List.range pack.iramNa.toNat) s) ∧
  (pack.ihType = 11 → TimeExceededOk ports s currtim portNr pack)

theorem Decides.ignored (sound : RoutesSound ports s) {condition : Prop} (holds : condition) :
    Decides ports (some s) condition :=
  ⟨fun _ => ⟨s, rfl, sound⟩, fun wrong => absurd holds wrong⟩

theorem Decides.iff {result : Option Orouting} {condition condition' : Prop}
    (decides : Decides ports result condition) (same : condition' ↔ condition) :
    Decides ports result condition' :=
  ⟨fun holds => decides.1 (same.mp holds), fun fails => decides.2 fun holds => fails (same.mpr holds)⟩

section

variable (sound : RoutesSound ports s) (fits : portNr < 32) (pack : IcmpPacket)
include sound fits

omit fits pack in
/-- A message about a net or about a host, unless it is ignored. -/
theorem Decides.byCode {ignored net host : Prop} [Decidable ignored] {code : UInt8}
    {first second : Option Orouting} (net' : Decides ports first net)
    (host' : Decides ports second host) :
    Decides ports (if ignored then some s else if code = 0 then first
      else if code = 1 then second else some s)
      (¬ignored → (code = 0 → net) ∧ (code = 1 → host)) := by
  split_ifs with out isNet isHost
  · exact .ignored sound fun used => absurd out used
  · exact net'.iff ⟨fun ok => (ok out).1 isNet,
      fun ok _ => ⟨fun _ => ok, fun isHost => absurd (isNet.symm.trans isHost) (by decide)⟩⟩
  · exact host'.iff ⟨fun ok => (ok out).2 isHost,
      fun ok _ => ⟨fun wrong => absurd wrong isNet, fun _ => ok⟩⟩
  · exact .ignored sound fun _ =>
      ⟨fun wrong => absurd wrong isNet, fun wrong => absurd wrong isHost⟩

theorem icmpDstUnreach_decides :
    Decides ports (icmpDstUnreach ports s currtim portNr pack)
      (DstUnreachOk ports s currtim portNr pack) :=
  .byCode sound (iprDestunrch_decides sound fits iprUnrchTimeout)
    (iprDestunrch_decides sound fits iprUnrchTimeout)

theorem icmpTimeExceeded_decides :
    Decides ports (icmpTimeExceeded ports s currtim portNr pack)
      (TimeExceededOk ports s currtim portNr pack) := by
  unfold icmpTimeExceeded TimeExceededOk
  split
  case isTrue ignored => exact .ignored sound fun used => absurd ignored used
  case isFalse used =>
    split
    case isTrue ttl =>
      exact (iprTtlExc_decides sound fits iprTtlTimeout).iff
        ⟨fun ok => ok used ttl, fun ok _ _ => ok⟩
    case isFalse other => exact .ignored sound fun _ ttl => absurd ttl other

theorem icmpRedirect_decides :
    Decides ports (icmpRedirect ports s currtim portNr pack)
      (RedirectMessageOk ports s currtim portNr pack) :=
  .byCode sound (iprRedirect_decides sound fits pack.ihSrc pack.gateway iprRedirectTimeout)
    (iprRedirect_decides sound fits pack.ihSrc pack.gateway iprRedirectTimeout)

end

theorem icmpRouterAdvertisement_decides (sound : RoutesSound ports s) (pack : IcmpPacket) :
    Decides ports (icmpRouterAdvertisement ports s currtim portNr pack)
      (pack.Advertises → AdvertiseOk ports currtim portNr pack (List.range pack.iramNa.toNat) s) := by
  unfold icmpRouterAdvertisement IcmpPacket.Advertises
  dsimp only
  split
  case isTrue ignored => exact .ignored sound fun used => absurd ignored used
  case isFalse used =>
    exact (advertise_decides pack (List.range pack.iramNa.toNat) sound).iff
      ⟨fun ok => ok used, fun ok _ => ok⟩

theorem icmpProcessData_decides (sound : RoutesSound ports s) (fits : portNr < 32)
    (pack : IcmpPacket) :
    Decides ports (icmpProcessData ports s currtim portNr pack)
      (IcmpOk ports s currtim portNr pack) := by
  unfold icmpProcessData IcmpOk
  have apart {a b : UInt8} (type : pack.ihType = a) (ne : a ≠ b) {condition : Prop} :
      pack.ihType = b → condition := fun wrong => absurd (type.symm.trans wrong) ne
  split
  case isTrue type =>
    exact (icmpDstUnreach_decides sound fits pack).iff ⟨fun ok => ok.1 type, fun ok =>
      ⟨fun _ => ok, apart type (by decide), apart type (by decide), apart type (by decide)⟩⟩
  case isFalse not3 =>
    split
    case isTrue type =>
      exact (icmpRedirect_decides sound fits pack).iff ⟨fun ok => ok.2.1 type, fun ok =>
        ⟨apart type (by decide), fun _ => ok, apart type (by decide), apart type (by decide)⟩⟩
    case isFalse not5 =>
      split
      case isTrue type =>
        exact (icmpRouterAdvertisement_decides sound pack).iff ⟨fun ok => ok.2.2.1 type, fun ok =>
          ⟨apart type (by decide), apart type (by decide), fun _ => ok, apart type (by decide)⟩⟩
      case isFalse not9 =>
        split
        case isTrue type =>
          exact (icmpTimeExceeded_decides sound fits pack).iff ⟨fun ok => ok.2.2.2 type, fun ok =>
            ⟨apart type (by decide), apart type (by decide), apart type (by decide), fun _ => ok⟩⟩
        case isFalse not11 =>
          exact .ignored sound ⟨fun type => absurd type not3, fun type => absurd type not5,
            fun type => absurd type not9, fun type => absurd type not11⟩

/-! ### Runs -/

/-- What an event needs for no assertion to fail. -/
def RouteEvent.Ok (ports : Nat → IpPort) (s : Orouting) : RouteEvent → Prop
  | .add currtim new => s.Room ports currtim new
  | .get _ _ => True
  | .send currtim portNr dest => s.SearchOk currtim portNr dest
  | .icmp currtim portNr pack => IcmpOk ports s currtim portNr pack
  | .gatewayDown currtim portNr gateway timeout =>
    GatewayDownOk ports currtim portNr gateway timeout (List.finRange orouteNr) s

theorem receive_decides (sound : RoutesSound ports s) (event : RouteEvent)
    (fits : event.PortFits) : Decides ports (s.receive ports event) (event.Ok ports s) := by
  cases event with
  | add currtim new => exact iprAddOroute_decides sound currtim new
  | get currtim entNo =>
    refine ⟨fun _ => ?_, fun wrong => absurd trivial wrong⟩
    unfold Orouting.receive
    dsimp only
    unfold iprGetOroute
    split
    case isTrue old =>
      rw [Bool.and_eq_true] at old
      obtain ⟨nws, linked⟩ := sound.linked
      obtain ⟨s', nws', expired, linked', forgets, table, _⟩ := expire_linked linked old.1
      refine ⟨s', expired, sound.keeps ⟨nws', linked'⟩ (sound.cache.forgets forgets) fun j used => ?_⟩
      unfold Orouting.Inuse at used
      rw [table] at used ⊢
      by_cases same : j = entNo
      · subst same
        rw [update_self] at used
        cases used
      · rw [update_of_ne same] at used ⊢
        exact ⟨used, rfl⟩
    case isFalse => exact ⟨s, rfl, sound⟩
  | send currtim portNr dest =>
    obtain ⟨nws, linked⟩ := sound.linked
    have fails := @orouteFindEnt_none_iff s nws currtim portNr dest linked sound.cache fits
    unfold Orouting.receive
    dsimp only
    constructor
    · intro ok
      obtain none | ⟨s', route, found, finds⟩ := orouteFindEnt_linked linked currtim portNr dest
      · exact absurd ok (fails.mp none)
      · exact ⟨s', by rw [found]; rfl,
          sound.keeps finds.linked (finds.ports sound.cache fits) finds.keeps⟩
    · intro wrong
      rw [fails.mpr wrong]
      rfl
  | icmp currtim portNr pack => exact icmpProcessData_decides sound fits pack
  | gatewayDown currtim portNr gateway timeout =>
    exact gatewayDownLoop_decides gateway timeout (List.finRange orouteNr) sound

/-- Every event of a run meets its condition in the state before it. -/
def Meets (ports : Nat → IpPort) : Orouting → List RouteEvent → Prop
  | _, [] => True
  | s, event :: events =>
    event.Ok ports s ∧ ∀ s', s.receive ports event = some s' → Meets ports s' events

/-- No assertion fails in a run exactly if every event meets its condition. -/
theorem routeUpdates_safe (ports : Nat → IpPort) (events : List RouteEvent)
    (fits : ∀ event ∈ events, event.PortFits) :
    (events.foldlM (Orouting.receive ports) {}).isSome ↔ Meets ports {} events := by
  have start : RoutesSound ports {} := routesSound_init
  generalize ({} : Orouting) = s at start
  induction events generalizing s with
  | nil => exact iff_of_true rfl trivial
  | cons event events inductionHypothesis =>
    obtain ⟨first, others⟩ := List.forall_mem_cons.mp fits
    obtain ⟨succeeds, fails⟩ := receive_decides start event first
    rw [List.foldlM_cons]
    change ((s.receive ports event).bind fun s' =>
      events.foldlM (Orouting.receive ports) s').isSome ↔ _
    by_cases ok : event.Ok ports s
    · obtain ⟨s', received, sound⟩ := succeeds ok
      rw [received, Option.bind_some]
      refine (inductionHypothesis others s' sound).trans ⟨fun later => ⟨ok, fun s'' same => ?_⟩, fun both => both.2 s' received⟩
      rw [← Option.some.inj (received.symm.trans same)]
      exact later
    · rw [fails ok]
      exact iff_of_false Bool.false_ne_true fun both => ok both.1

/-- The host 10.0.0.2 in a network of 254 hosts. -/
def hostPorts : Nat → IpPort := fun _ => ⟨0x0200000a, 0xffffff⟩

/-- A static default route through 10.0.0.1. -/
def defaultRoute : RouteEvent := .add 1 ⟨0, 0, 0, 0x0100000a, 0, 1, true, 0⟩

/-- A redirect from that gateway for the host 1.2.3.4. -/
def redirectTo (gateway : UInt32) : RouteEvent :=
  .icmp 2 0
    { ihSrc := 0x0100000a, ihDst := 0x0200000a, icmpLen := 36, ihType := 5, ihCode := 1
      gateway, oldSrc := 0x0200000a, oldDst := 0x04030201, iramNa := 0, iramAes := 0
      iramLt := 0, entry := fun _ => (0, 0) }

/-- An advertisement of 10.0.0.4 and 10.0.0.5. -/
def twoRouters : RouteEvent :=
  .icmp 3 0
    { ihSrc := 0x0400000a, ihDst := 0x0200000a, icmpLen := 24, ihType := 9, ihCode := 0
      gateway := 0, oldSrc := 0, oldDst := 0, iramNa := 2, iramAes := 2, iramLt := 0x0807
      entry := fun i => (if i = 0 then 0x0400000a else 0x0500000a, 0) }

/-- The redirect names 10.0.0.3. Then 10.0.0.4 is advertised, and is down, and the route of the
redirect expires. -/
def goodUpdates : List RouteEvent :=
  [defaultRoute, redirectTo 0x0300000a, twoRouters, .gatewayDown 4 0 0x0400000a 100,
    .send 400000 0 0x04030201]

/-- Each of these updates does what it should. -/
theorem goodUpdates_meet : Meets hostPorts {} goodUpdates :=
  (routeUpdates_safe hostPorts goodUpdates
    (by simp [goodUpdates, defaultRoute, redirectTo, twoRouters, RouteEvent.PortFits])).mp
    (by decide)

/-- A redirect to 9.9.9.9, which is not in the network: the assertion of `ipr_redirect` fails. -/
theorem strayRedirect_fails :
    (∀ event ∈ [defaultRoute, redirectTo 0x09090909], event.PortFits) ∧
      [defaultRoute, redirectTo 0x09090909].foldlM (Orouting.receive hostPorts) {} = none :=
  ⟨by simp [defaultRoute, redirectTo, RouteEvent.PortFits], rfl⟩

end Minix.Inet
