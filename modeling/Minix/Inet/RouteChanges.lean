/-
This file proves that `oroute_del` and the insertion of a route keep the lists of output routes.

Both tear the lists apart at one network and one gateway and put them together again. The first
routes of the networks are the only ones in the hash cache; when the first route of a network
changes, the addresses in the network are forgotten.
-/

import Minix.Inet.RouteLists

namespace Minix.Inet

open Function (update update_of_ne update_self)
open Option (bind_some)
open LinkedList

variable {s s' : Orouting} {table' : OrouteNr → Oroute} {live live' : OrouteNr → Prop}
  {networks : List OrouteNr} {portNr : Nat} {dest subnetmask gateway : UInt32}
  {nextnw nextgw nextdist : OrouteNr → Option OrouteNr} {head prevRoute nwRoute : Option OrouteNr}

/-! ### The cache -/

/-- A route is remembered for an address in a set of the cache. -/
def Orouting.Cached (s : Orouting) (hash addr : UInt32) (r : OrouteNr) : Prop :=
  ∃ way ∈ s.hash hash, way.key = addr ∧ way.value = some r

/-- What is remembered are first routes of networks that contain the addresses. -/
def CacheServes (s : Orouting) (networks : List OrouteNr) : Prop :=
  ∀ hash addr r, s.Cached hash addr r →
    r ∈ networks ∧ (addr ^^^ (s.table r).dest) &&& (s.table r).subnetmask = 0

/-- `oroute_uncache_nw` only forgets, and it forgets the addresses in the network. -/
theorem cached_uncache {hash addr : UInt32} {r : OrouteNr}
    (cached : (orouteUncacheNw s dest subnetmask).Cached hash addr r) :
    s.Cached hash addr r ∧ (addr ^^^ dest) &&& subnetmask ≠ 0 := by
  obtain ⟨way, member, key, value⟩ := cached
  obtain ⟨old, inside, rfl⟩ := List.mem_map.mp member
  split at value
  case isTrue => cases value
  case isFalse outside =>
    rw [if_neg outside] at key
    subst key
    exact ⟨⟨old, inside, rfl, value⟩, by simpa using outside⟩

/-- The first route of a network is exchanged, and the cache forgets it if it is another one. -/
theorem CacheServes.exchange (serves : CacheServes s networks) (hash : s'.hash = s.hash)
    {previous route : Option OrouteNr} {rest : List OrouteNr}
    (split : ∀ n, n ∈ networks ↔ n ∈ previous ∨ n ∈ rest)
    (kept : ∀ n ∈ networks, s'.table n = s.table n)
    (keyed : ∀ n ∈ previous, (s.table n).network = (portNr, dest, subnetmask)) :
    CacheServes (if route ≠ previous then orouteUncacheNw s' dest subnetmask else s')
        (route.toList ++ rest) ∧
      ∀ hash addr r,
        (if route ≠ previous then orouteUncacheNw s' dest subnetmask else s').Cached hash addr r →
        s.Cached hash addr r := by
  have old : ∀ set addr r, s'.Cached set addr r → s.Cached set addr r := by
    intro set addr r cached
    unfold Orouting.Cached at cached
    rw [hash] at cached
    exact cached
  by_cases same : route = previous
  · subst same
    rw [if_neg (not_not_intro rfl)]
    refine ⟨fun set addr r cached => ?_, old⟩
    obtain ⟨top, inside⟩ := serves set addr r (old set addr r cached)
    rw [kept r top]
    refine ⟨?_, inside⟩
    rw [List.mem_append, Option.mem_toList]
    exact (split r).mp top
  · rw [if_pos same]
    refine ⟨fun set addr r cached => ?_, fun set addr r cached =>
      old set addr r (cached_uncache cached).1⟩
    obtain ⟨still, outside⟩ := cached_uncache cached
    obtain ⟨top, inside⟩ := serves set addr r (old set addr r still)
    change _ ∧ (addr ^^^ (s'.table r).dest) &&& (s'.table r).subnetmask = 0
    rw [kept r top]
    refine ⟨List.mem_append_right _ (((split r).mp top).resolve_left fun first => ?_), inside⟩
    obtain ⟨_, sameDest, sameMask⟩ := Oroute.network_eq.mp (keyed r first)
    rw [sameDest, sameMask] at inside
    exact outside inside

/-! ### Tearing the lists apart -/

/-- The networks without one of them. -/
def TornNetworks (s : Orouting) (live : OrouteNr → Prop) (network : Nat × UInt32 × UInt32)
    (nextnw : OrouteNr → Option OrouteNr) (head : Option OrouteNr) (rest : List OrouteNr) : Prop :=
  Level nextnw (fun i => (s.table i).network)
    (update
      (fun network first =>
        ∃ gateways, Gateways s.table s.nextgw s.nextdist live network first gateways)
      network fun first => first = none) head rest

/-- A network and a gateway of it are taken out. -/
structure TornAt (s : Orouting) (live : OrouteNr → Prop) (networks : List OrouteNr)
    (network : Nat × UInt32 × UInt32) (gateway : UInt32) (prevRoute head gwRoute nwRoute :
      Option OrouteNr) (nextnw nextgw : OrouteNr → Option OrouteNr) (tops gateways routes :
      List OrouteNr) : Prop where
  top : TornNetworks s live network nextnw head tops
  middle : Torn s.table nextgw s.nextdist live network gateway nwRoute gateways
  bottom : Routes s.table s.nextdist live network gateway gwRoute routes
  split : ∀ n, n ∈ networks ↔ n ∈ prevRoute ∨ n ∈ tops
  keyed : ∀ n ∈ prevRoute, (s.table n).network = network
  pointers : ∀ j, live j → (s.table j).network ≠ network → nextgw j = s.nextgw j

/-- The loops over the networks and over the gateways tear the lists apart. -/
theorem Networks.tear (linked : Networks s live networks) (portNr : Nat)
    (dest subnetmask gateway : UInt32) :
    ∃ prevRoute nextnw head gwRoute nextgw nwRoute tops gateways routes,
      takeOut s.nextnw (fun r => (s.table r).leadsTo portNr dest subnetmask) orouteNr s.head =
        some (prevRoute, nextnw, head) ∧
      takeOut s.nextgw (fun r => (s.table r).gateway = gateway) orouteNr prevRoute =
        some (gwRoute, nextgw, nwRoute) ∧
      TornAt s live networks (portNr, dest, subnetmask) gateway prevRoute head gwRoute nwRoute
        nextnw nextgw tops gateways routes := by
  obtain ⟨prevRoute, nextnw, head, tops, taken, torn, ⟨all, list⟩, keyed, split, _⟩ :=
    linked.takeOut_eq (orouteNr_enough linked.chain) (portNr, dest, subnetmask)
  obtain ⟨gwRoute, nextgw, nwRoute, gateways, takenGw, tornGw, ⟨routes, inside⟩, _, splitGw, _,
    frame⟩ := list.level.takeOut_eq (orouteNr_enough list.level.chain) gateway
  refine ⟨prevRoute, nextnw, head, gwRoute, nextgw, nwRoute, tops, gateways, routes, ?_, takenGw,
    torn, tornGw, inside, split, keyed, fun j used apart => frame j fun member => apart ?_⟩
  · simp only [Oroute.leadsTo_eq]
    exact taken
  · exact (list.member ((splitGw j).mpr (.inr member))).2

theorem TornNetworks.replace {network : Nat × UInt32 × UInt32}
    {nextnw nextgw' nextdist' : OrouteNr → Option OrouteNr} {head route : Option OrouteNr}
    {rest gateways : List OrouteNr} (torn : TornNetworks s live network nextnw head rest)
    (agree : Agree s.table table' live live' fun r => r.network ≠ network)
    (pointers : ∀ j, live j → (s.table j).network ≠ network →
      nextgw' j = s.nextgw j ∧ nextdist' j = s.nextdist j)
    (list : Gateways table' nextgw' nextdist' live' network route gateways) :
    Level (putFirst nextnw route head).1 (fun i => (table' i).network)
      (fun network first => ∃ gateways, Gateways table' nextgw' nextdist' live' network first
        gateways)
      (putFirst nextnw route head).2 (route.toList ++ rest) := by
  have member : ∀ j ∈ rest, live j ∧ (s.table j).network ≠ network := by
    intro j inside
    have right := Level.of_mem torn inside
    have apart : (s.table j).network ≠ network := by
      intro same
      rw [same, update_self] at right
      cases right
    rw [update_of_ne apart] at right
    obtain ⟨gateways, list⟩ := right
    have start := list.level.chain.head_eq
    exact ⟨(list.member (List.mem_of_mem_head? start.symm)).1, apart⟩
  have renamed : Level nextnw (fun i => (table' i).network) _ head rest :=
    torn.congr (fun _ _ => rfl) (fun j inside => by rw [(agree j (.inl (member j inside))).1])
      fun _ _ same => same
  refine renamed.putFirst ?_ ⟨gateways, list⟩ fun first start => ?_
  · rintro other apart first ⟨gateways, inside⟩
    have elsewhere : ∀ r : Oroute, r.network = other → r.network ≠ network :=
      fun r here same => apart (here.symm.trans same)
    exact ⟨gateways, inside.congr (agree.mono elsewhere) fun j used here =>
      pointers j used (elsewhere _ here)⟩
  · have top := list.level.chain.head_eq
    rw [start] at top
    exact (list.member (List.mem_of_mem_head? top.symm)).2

/-! ### Putting the lists together -/

/-- The live routes are linked, and what is remembered are first routes of networks. -/
structure Linked (s : Orouting) (live : OrouteNr → Prop) (networks : List OrouteNr) : Prop where
  lists : Networks s live networks
  cache : CacheServes s networks

/-- Nothing new is remembered, and what is remembered keeps its port. -/
def Forgets (s s' : Orouting) : Prop :=
  ∀ hash addr r, s'.Cached hash addr r →
    s.Cached hash addr r ∧ (s'.table r).port = (s.table r).port

theorem Forgets.trans {s'' : Orouting} (first : Forgets s s') (second : Forgets s' s'') :
    Forgets s s'' := by
  intro hash addr r cached
  obtain ⟨before, port⟩ := second hash addr r cached
  obtain ⟨start, port'⟩ := first hash addr r before
  exact ⟨start, port.trans port'⟩

/-- The lists after the changed list of routes has been put back. -/
def Orouting.putBack (s : Orouting) (table : OrouteNr → Oroute)
    (nextnw nextgw nextdist : OrouteNr → Option OrouteNr) (head prevRoute nwRoute : Option OrouteNr)
    (dest subnetmask : UInt32) : Orouting :=
  let nws := putFirst nextnw nwRoute head
  let s' : Orouting := { s with
    table := table, nextnw := nws.1, nextgw := nextgw, nextdist := nextdist, head := nws.2 }
  if nwRoute ≠ prevRoute then orouteUncacheNw s' dest subnetmask else s'

@[simp] theorem putBack_table {table : OrouteNr → Oroute} :
    (s.putBack table nextnw nextgw nextdist head prevRoute nwRoute dest subnetmask).table = table := by
  unfold Orouting.putBack
  split <;> rfl

@[simp] theorem putBack_staticNr {table : OrouteNr → Oroute} :
    (s.putBack table nextnw nextgw nextdist head prevRoute nwRoute dest subnetmask).staticNr =
      s.staticNr := by
  unfold Orouting.putBack
  split <;> rfl

/-- With a changed list of routes for the network and the gateway, everything is linked again. -/
theorem TornAt.putBack {prevRoute head gwRoute nwRoute route : Option OrouteNr}
    {nextnw nextgw nextdist' : OrouteNr → Option OrouteNr}
    {tops gateways routes routes' : List OrouteNr}
    (torn : TornAt s live networks (portNr, dest, subnetmask) gateway prevRoute head gwRoute nwRoute
      nextnw nextgw tops gateways routes)
    (cache : CacheServes s networks)
    (agree : Agree s.table table' live live' fun r =>
      ¬(r.network = (portNr, dest, subnetmask) ∧ r.gateway = gateway))
    (kept : ∀ n ∈ networks, table' n = s.table n)
    (pointers : ∀ j ∉ routes, live j → nextdist' j = s.nextdist j)
    (list : Routes table' nextdist' live' (portNr, dest, subnetmask) gateway route routes') :
    ∃ nextgw' nwRoute' networks',
      sortRoutes table' (putFirst nextgw route nwRoute).1 (putFirst nextgw route nwRoute).2 =
        some (nextgw', nwRoute') ∧
      (∀ n ∈ nwRoute', (table' n).network = (portNr, dest, subnetmask)) ∧
      (route ≠ none → nwRoute' ≠ none) ∧
      Linked (s.putBack table' nextnw nextgw' nextdist' head prevRoute nwRoute' dest subnetmask)
        live' networks' ∧
      ∀ hash addr r, (s.putBack table' nextnw nextgw' nextdist' head prevRoute nwRoute' dest
        subnetmask).Cached hash addr r → s.Cached hash addr r := by
  have away : ∀ j, live j →
      ¬((s.table j).network = (portNr, dest, subnetmask) ∧ (s.table j).gateway = gateway) →
      nextdist' j = s.nextdist j :=
    fun j used other => pointers j (fun inside => other ((torn.bottom.members j).mp inside).2) used
  obtain ⟨nextgw', gateways, sorted, listGw, frame⟩ := torn.middle.replace agree away list
  have agreeNw : Agree s.table table' live live' fun r =>
      r.network ≠ (portNr, dest, subnetmask) := agree.mono fun r other both => other both.1
  have level := torn.top.replace agreeNw (fun j used other => by
    refine ⟨?_, away j used fun both => other both.1⟩
    rw [← torn.pointers j used other]
    refine frame j fun both => other ?_
    rw [← (agreeNw j (.inl ⟨used, other⟩)).1]
    exact both.2) listGw
  have exchanged := @CacheServes.exchange s
    { s with
      table := table', nextnw := (putFirst nextnw gateways.head? head).1, nextgw := nextgw'
      nextdist := nextdist', head := (putFirst nextnw gateways.head? head).2 }
    networks portNr dest subnetmask cache rfl prevRoute gateways.head? tops torn.split kept torn.keyed
  refine ⟨nextgw', gateways.head?, gateways.head?.toList ++ tops, sorted, fun n first => ?_,
    fun some none => ?_, ⟨?_, exchanged.1⟩, exchanged.2⟩
  · exact (listGw.member (List.mem_of_mem_head? first)).2
  · obtain ⟨first, rfl⟩ := Option.ne_none_iff_exists'.mp some
    obtain ⟨used, here, _⟩ := list.first rfl
    obtain ⟨top, member, _⟩ := listGw.reached used here
    rw [List.head?_eq_none_iff.mp none] at member
    cases member
  · unfold Orouting.putBack
    split <;> exact level

/-! ### `oroute_del` -/

/-- `oroute_del` takes a live route out, and none of its assertions fails. -/
theorem orouteDel_linked (linked : Linked s live networks) {oroute : OrouteNr}
    (used : live oroute) :
    ∃ s' networks', orouteDel s oroute = some s' ∧
      Linked s' (fun j => live j ∧ j ≠ oroute) networks' ∧ Forgets s s' ∧ s'.table = s.table ∧
      s'.staticNr = s.staticNr := by
  obtain ⟨prevRoute, nextnw, head, gwRoute, nextgw, nwRoute, tops, gateways, routes, takenNw,
    takenGw, torn⟩ := linked.lists.tear (s.table oroute).port (s.table oroute).dest
      (s.table oroute).subnetmask (s.table oroute).gateway
  have member : oroute ∈ routes := (torn.bottom.members oroute).mpr ⟨used, rfl, rfl⟩
  obtain ⟨first, rfl⟩ : ∃ first, gwRoute = some first := by
    rw [torn.bottom.chain.head_eq]
    exact Option.ne_none_iff_exists'.mp fun empty =>
      List.ne_nil_of_mem member (List.head?_eq_none_iff.mp empty)
  obtain ⟨previous, rfl⟩ : ∃ previous, prevRoute = some previous := by
    refine Option.ne_none_iff_exists'.mp fun empty => ?_
    rw [empty, takeOut_empty] at takenGw
    cases takenGw
  obtain ⟨front, back, rfl⟩ := List.append_of_mem member
  have split : (front ++ oroute :: back).Perm (oroute :: (front ++ back)) := List.perm_middle
  have apart := (List.nodup_cons.mp (split.nodup_iff.mp torn.bottom.chain.nodup)).1
  obtain ⟨nextdist, rest, takenDist, chain, frame⟩ :=
    @Chain.takeOut_eq _ _ _ _ _ _ _ _ torn.bottom.chain (orouteNr_enough torn.bottom.chain)
      (fun r => r = oroute) (decide_eq_true rfl) fun other inside => decide_eq_false fun same =>
        apart (same ▸ List.mem_append_left _ inside)
  obtain ⟨nextdist', routes, sorted, chain', perm, frame', best⟩ := sortRoutes_eq chain s.table
  have list : Routes s.table nextdist' (fun j => live j ∧ j ≠ oroute)
      ((s.table oroute).port, (s.table oroute).dest, (s.table oroute).subnetmask)
      (s.table oroute).gateway routes.head? routes := by
    refine ⟨chain', fun j => ?_, fun b start j inside => best b start j (perm.mem_iff.mp inside)⟩
    rw [perm.mem_iff, and_right_comm, ← torn.bottom.members j, split.mem_iff, List.mem_cons]
    constructor
    · exact fun inside => ⟨.inr inside, fun same => apart (same ▸ inside)⟩
    · exact fun ⟨either, other⟩ => either.resolve_left other
  have agree : Agree s.table s.table live (fun j => live j ∧ j ≠ oroute) fun r =>
      ¬(r.network = ((s.table oroute).port, (s.table oroute).dest, (s.table oroute).subnetmask) ∧
        r.gateway = (s.table oroute).gateway) := by
    rintro j (⟨still, other⟩ | ⟨⟨still, away⟩, _⟩)
    · refine ⟨rfl, still, still, fun same => other ?_⟩
      rw [same]
      exact ⟨rfl, rfl⟩
    · exact ⟨rfl, still, still, away⟩
  have pointers : ∀ j ∉ front ++ oroute :: back, live j → nextdist' j = s.nextdist j := by
    intro j outside _
    rw [frame' j fun inside => outside (split.mem_iff.mpr (.tail _ inside)),
      frame j fun inside => outside (List.mem_append_left _ inside)]
  obtain ⟨nextgw', nwRoute', networks', sortedGw, _, _, linked', forgets⟩ :=
    torn.putBack linked.cache agree (fun _ _ => rfl) pointers list
  obtain ⟨_, sameDest, sameMask⟩ := Oroute.network_eq.mp (torn.keyed previous rfl)
  refine ⟨_, networks', ?_, linked', fun hash addr r cached => ⟨forgets hash addr r cached, ?_⟩,
    putBack_table, putBack_staticNr⟩
  swap
  · rw [putBack_table]
  unfold orouteDel
  dsimp only
  rw [takenNw, bind_some]
  rw [bind_some, takenGw, bind_some]
  rw [bind_some, takenDist, bind_some]
  rw [bind_some, sorted, bind_some]
  rw [sortedGw, bind_some, sameDest, sameMask]
  rfl

/-! ### Inserting a route -/

section

variable (linked : Linked s live networks)
include linked

theorem Linked.change {i : OrouteNr} (unused : ¬live i) (r : Oroute) :
    Linked { s with table := update s.table i r } live networks := by
  have same : ∀ j, live j → update s.table i r j = s.table j := fun j used =>
    update_of_ne (ne_of_apply_ne live fun wrong => unused (wrong ▸ used)) _ _
  have agree (property : Oroute → Prop) :
      Agree s.table (update s.table i r) live live property := by
    rintro j (⟨used, _⟩ | ⟨used, _⟩) <;> exact ⟨same j used, used, used⟩
  refine ⟨linked.lists.congr (fun _ _ => rfl) (fun j inside => ?_) ?_, fun hash addr j cached => ?_⟩
  · exact congrArg Oroute.network (same j (linked.lists.member inside))
  · rintro network first ⟨gateways, list⟩
    exact ⟨gateways, list.congr (agree _) fun _ _ _ => ⟨rfl, rfl⟩⟩
  · obtain ⟨top, inside⟩ := linked.cache hash addr j cached
    dsimp only
    rw [same j (linked.lists.member top)]
    exact ⟨top, inside⟩

theorem Linked.alike (same : Alike s.table table') :
    Linked { s with table := table' } live networks := by
  refine ⟨linked.lists.congr (fun _ _ => rfl) (fun j _ => same.network j) ?_,
    fun hash addr j cached => ?_⟩
  · rintro network first ⟨gateways, list⟩
    exact ⟨gateways, list.alike same⟩
  · obtain ⟨top, inside⟩ := linked.cache hash addr j cached
    obtain ⟨_, dest, subnetmask⟩ := Oroute.network_eq.mp (same.network j)
    rw [dest, subnetmask]
    exact ⟨top, inside⟩

/-- A route at an unused entry is linked to its network. -/
theorem insertRoute_linked {i : OrouteNr} (unused : ¬live i) (currtim : Nat) (new : NewRoute) :
    ∃ s' networks', insertRoute s currtim new i = some s' ∧
      Linked s' (fun j => live j ∨ j = i) networks' ∧ Forgets s s' ∧
      s'.table = update s.table i (new.entry currtim) ∧ s'.staticNr = s.staticNr := by
  have changed := linked.change unused (new.entry currtim)
  have here : update s.table i (new.entry currtim) i = new.entry currtim := update_self ..
  obtain ⟨prevRoute, nextnw, head, gwRoute, nextgw, nwRoute, tops, gateways, routes, takenNw,
    takenGw, torn⟩ := changed.lists.tear new.portNr new.dest new.subnetmask new.gateway
  have fresh : i ∉ routes := fun inside => unused ((torn.bottom.members i).mp inside).1
  obtain ⟨nextdist', routes', sorted, chain', perm, frame, best⟩ :=
    sortRoutes_eq (torn.bottom.chain.push fresh) (update s.table i (new.entry currtim))
  have list : Routes (update s.table i (new.entry currtim)) nextdist' (fun j => live j ∨ j = i)
      (new.portNr, new.dest, new.subnetmask) new.gateway routes'.head? routes' := by
    refine ⟨chain', fun j => ?_, fun b start j inside => best b start j (perm.mem_iff.mp inside)⟩
    rw [perm.mem_iff, List.mem_cons, torn.bottom.members j]
    constructor
    · rintro (rfl | ⟨used, both⟩)
      · rw [here]
        exact ⟨.inr rfl, rfl, rfl⟩
      · exact ⟨.inl used, both⟩
    · rintro ⟨used | rfl, both⟩
      · exact .inr ⟨used, both⟩
      · exact .inl rfl
  have agree : Agree (update s.table i (new.entry currtim)) (update s.table i (new.entry currtim))
      live (fun j => live j ∨ j = i) fun r =>
      ¬(r.network = (new.portNr, new.dest, new.subnetmask) ∧ r.gateway = new.gateway) := by
    rintro j (⟨used, _⟩ | ⟨used | rfl, away⟩)
    · exact ⟨rfl, used, .inl used⟩
    · exact ⟨rfl, used, .inl used⟩
    · rw [here] at away
      exact absurd ⟨rfl, rfl⟩ away
  have pointers : ∀ j ∉ routes, live j → nextdist' j = s.nextdist j := by
    intro j outside used
    have apart : j ≠ i := fun same => unused (same ▸ used)
    rw [frame j fun inside => outside ((List.mem_cons.mp inside).resolve_left apart),
      update_of_ne apart]
  obtain ⟨nextgw', nwRoute', networks', sortedGw, keyed, nonempty, linked', forgets⟩ :=
    torn.putBack changed.cache agree (fun _ _ => rfl) pointers list
  obtain ⟨first, start⟩ : ∃ first, routes'.head? = some first :=
    Option.ne_none_iff_exists'.mp fun empty => by
      have length := perm.length_eq
      rw [List.head?_eq_none_iff.mp empty] at length
      cases length
  rw [start] at sortedGw nonempty
  obtain ⟨top, rfl⟩ := Option.ne_none_iff_exists'.mp (nonempty (Option.some_ne_none first))
  obtain ⟨_, sameDest, sameMask⟩ := Oroute.network_eq.mp (keyed top rfl)
  refine ⟨_, networks', ?_, linked', fun hash addr r cached => ⟨forgets hash addr r cached, ?_⟩,
    putBack_table, putBack_staticNr⟩
  swap
  · have used := linked.lists.member (linked.cache hash addr r (forgets hash addr r cached)).1
    rw [putBack_table, update_of_ne (ne_of_apply_ne live fun same => unused (same ▸ used))]
  unfold insertRoute
  dsimp only
  rw [takenNw, bind_some]
  rw [takenGw, bind_some]
  rw [sorted, bind_some]
  rw [start, bind_some]
  dsimp only [putFirst] at sortedGw
  rw [sortedGw, bind_some]
  rw [bind_some, sameDest, sameMask]
  rfl

end

end Minix.Inet
