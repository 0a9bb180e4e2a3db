/-
This file proves that `ipr_add_oroute` and the deletion of routes keep the lists of output routes
well formed: the routes in use are linked, each of them once, and no other entry is.

The only assertion of `ipr_add_oroute` that can fail is the one that some route may be removed. It
fails exactly if there is no room for the route.
-/

import Minix.Inet.RouteChanges

namespace Minix.Inet

open Function (update update_of_ne update_self)
open LinkedList

variable {s s' : Orouting} {nws nodes : List OrouteNr} {currtim : Nat} {new : NewRoute}
  {ports : Nat → IpPort}

/-! ### What is well formed -/

/-- The nodes that one visits by following the successors. -/
def follow (next : OrouteNr → Option OrouteNr) : Nat → Option OrouteNr → List OrouteNr
  | fuel + 1, some i => i :: follow next fuel (next i)
  | _, _ => []

theorem follow_eq {next : OrouteNr → Option OrouteNr} {head : Option OrouteNr}
    (chain : Chain next head nodes) : follow next orouteNr head = nodes := by
  have enough := orouteNr_enough chain
  generalize orouteNr = fuel at enough
  induction nodes generalizing head fuel with
  | nil =>
    rw [chain_nil] at chain
    subst chain
    cases fuel <;> rfl
  | cons node rest inductionHypothesis =>
    obtain ⟨rfl, behind⟩ := chain
    cases fuel with
    | zero => cases enough
    | succ fuel =>
      rw [follow, inductionHypothesis behind fuel (Nat.le_of_succ_le_succ enough)]

/-- The first routes of the networks. -/
def Orouting.networks (s : Orouting) : List OrouteNr := follow s.nextnw orouteNr s.head

/-- The first routes of the gateways of a network. -/
def Orouting.gateways (s : Orouting) (nw : OrouteNr) : List OrouteNr :=
  follow s.nextgw orouteNr (some nw)

/-- The routes through a gateway of a network. -/
def Orouting.routes (s : Orouting) (gw : OrouteNr) : List OrouteNr :=
  follow s.nextdist orouteNr (some gw)

/-- All routes in the order in which they are reached. -/
def Orouting.reachable (s : Orouting) : List OrouteNr :=
  s.networks.flatMap fun nw => (s.gateways nw).flatMap s.routes

/-- The three levels of lists are well formed. -/
structure Orouting.WellFormed (s : Orouting) : Prop where
  /-- Every list ends. -/
  ends : Chain s.nextnw s.head s.networks ∧
    ∀ nw ∈ s.networks, Chain s.nextgw (some nw) (s.gateways nw) ∧
      ∀ gw ∈ s.gateways nw, Chain s.nextdist (some gw) (s.routes gw)
  /-- No route is reached twice. -/
  once : s.reachable.Nodup
  /-- The routes in use are reached, and no free entry is. -/
  inuse : ∀ i, i ∈ s.reachable ↔ (s.table i).inuse = true
  /-- The routes of a network have its port, destination and netmask, and the routes of a gateway
  have its address. -/
  shared : ∀ nw ∈ s.networks, ∀ gw ∈ s.gateways nw, ∀ i ∈ s.routes gw,
    (s.table i).network = (s.table nw).network ∧ (s.table i).gateway = (s.table gw).gateway
  /-- Different networks and different gateways of a network are different. -/
  distinct : (s.networks.map fun nw => (s.table nw).network).Nodup ∧
    ∀ nw ∈ s.networks, ((s.gateways nw).map fun gw => (s.table gw).gateway).Nodup
  /-- The first route of a list is the best. -/
  best : ∀ nw ∈ s.networks, ∀ gw ∈ s.gateways nw, (s.table gw).better (s.table nw) = false ∧
    ∀ i ∈ s.routes gw, (s.table i).better (s.table gw) = false

/-- The entry is in use. -/
def Orouting.Inuse (s : Orouting) (i : OrouteNr) : Prop := (s.table i).inuse = true

theorem Linked.visits {live : OrouteNr → Prop} (linked : Linked s live nws) :
    s.networks = nws ∧
    ∀ nw ∈ nws,
      Gateways s.table s.nextgw s.nextdist live (s.table nw).network (some nw) (s.gateways nw) ∧
      ∀ gw ∈ s.gateways nw,
        Routes s.table s.nextdist live (s.table nw).network (s.table gw).gateway (some gw)
          (s.routes gw) := by
  refine ⟨follow_eq linked.lists.chain, fun nw member => ?_⟩
  obtain ⟨gateways, list⟩ := Level.of_mem linked.lists member
  have same : s.gateways nw = gateways := follow_eq list.level.chain
  rw [same]
  refine ⟨list, fun gw inside => ?_⟩
  obtain ⟨routes, list'⟩ := list.level.of_mem inside
  have same' : s.routes gw = routes := follow_eq list'.chain
  rw [same']
  exact list'

theorem Linked.wellFormed (linked : Linked s s.Inuse nws) : s.WellFormed := by
  obtain ⟨rfl, lists⟩ := linked.visits
  refine ⟨⟨linked.lists.chain, fun nw member => ?_⟩, ?_, fun i => ?_, ?_, ?_, ?_⟩
  · exact ⟨(lists nw member).1.level.chain, fun gw inside => ((lists nw member).2 gw inside).chain⟩
  · refine List.nodup_flatMap.mpr ⟨fun nw member => List.nodup_flatMap.mpr
      ⟨fun gw inside => ((lists nw member).2 gw inside).chain.nodup, ?_⟩, ?_⟩
    · have distinct := (lists nw member).1.level.distinct
      refine (List.pairwise_map.mp distinct).imp_of_mem fun {a b} left right apart => ?_
      refine List.disjoint_left.mpr fun i inA inB => apart ?_
      obtain ⟨_, _, throughA⟩ := (((lists nw member).2 a left).members i).mp inA
      obtain ⟨_, _, throughB⟩ := (((lists nw member).2 b right).members i).mp inB
      exact throughA.symm.trans throughB
    · refine (List.pairwise_map.mp linked.lists.distinct).imp_of_mem fun {a b} left right apart => ?_
      refine List.disjoint_left.mpr fun i inA inB => apart ?_
      obtain ⟨gwA, insideA, inA⟩ := List.mem_flatMap.mp inA
      obtain ⟨gwB, insideB, inB⟩ := List.mem_flatMap.mp inB
      obtain ⟨_, hereA, _⟩ := (((lists a left).2 gwA insideA).members i).mp inA
      obtain ⟨_, hereB, _⟩ := (((lists b right).2 gwB insideB).members i).mp inB
      exact hereA.symm.trans hereB
  · constructor
    · intro reached
      obtain ⟨nw, member, reached⟩ := List.mem_flatMap.mp reached
      obtain ⟨gw, inside, reached⟩ := List.mem_flatMap.mp reached
      exact ((((lists nw member).2 gw inside).members i).mp reached).1
    · intro used
      obtain ⟨nw, member, here, _⟩ := linked.lists.reached used
      obtain ⟨list, gateways⟩ := lists nw member
      obtain ⟨gw, inside, through, _⟩ := list.reached used here.symm
      refine List.mem_flatMap.mpr ⟨nw, member, List.mem_flatMap.mpr ⟨gw, inside, ?_⟩⟩
      exact ((gateways gw inside).members i).mpr ⟨used, here.symm, through.symm⟩
  · intro nw member gw inside i reached
    exact ((((lists nw member).2 gw inside).members i).mp reached).2
  · exact ⟨linked.lists.distinct, fun nw member => (lists nw member).1.level.distinct⟩
  · intro nw member gw inside
    exact ⟨(lists nw member).1.best nw rfl gw inside,
      ((lists nw member).2 gw inside).best gw rfl⟩

/-! ### Entries that are given up -/

section

variable (linked : Linked s s.Inuse nws) {i : OrouteNr}
include linked

theorem unlink_linked (used : s.Inuse i) (free : Oroute → Oroute)
    (freed : ∀ r, (free r).inuse = false) :
    ∃ s' nws', (orouteDel s i).map (fun s =>
        { s with table := update s.table i (free (s.table i)) }) = some s' ∧
      Linked s' s'.Inuse nws' ∧ Forgets s s' ∧
      s'.table = update s.table i (free (s.table i)) ∧ s'.staticNr = s.staticNr := by
  obtain ⟨s', nws', deleted, linked', forgets, table, staticNr⟩ := orouteDel_linked linked used
  have changed := linked'.change (fun wrong => wrong.2 rfl) (free (s'.table i))
  have same : (fun j => s.Inuse j ∧ j ≠ i) =
      Orouting.Inuse { s' with table := update s'.table i (free (s'.table i)) } := by
    funext j
    refine propext ?_
    unfold Orouting.Inuse
    dsimp only
    by_cases here : j = i
    · subst here
      rw [update_self, freed]
      exact iff_of_false (fun wrong => wrong.2 rfl) Bool.false_ne_true
    · rw [update_of_ne here, table]
      exact and_iff_left here
  rw [same] at changed
  refine ⟨_, nws', by rw [deleted]; rfl, changed, fun hash addr r cached => ?_, ?_, staticNr⟩
  · obtain ⟨before, port⟩ := forgets hash addr r cached
    have used := linked'.lists.member (linked'.cache hash addr r cached).1
    refine ⟨before, ?_⟩
    dsimp only
    rw [update_of_ne used.2]
    exact port
  · dsimp only
    rw [table]

theorem release_linked (used : s.Inuse i) :
    ∃ s' nws', release s i = some s' ∧ Linked s' s'.Inuse nws' ∧ Forgets s s' ∧
      s'.table = update s.table i { s.table i with inuse := false, static := false } ∧
      s'.staticNr = s.staticNr :=
  unlink_linked linked used (fun r => { r with inuse := false, static := false }) fun _ => rfl

theorem expire_linked (used : s.Inuse i) :
    ∃ s' nws', expire s i = some s' ∧ Linked s' s'.Inuse nws' ∧ Forgets s s' ∧
      s'.table = update s.table i { s.table i with inuse := false } ∧ s'.staticNr = s.staticNr :=
  unlink_linked linked used (fun r => { r with inuse := false }) fun _ => rfl

end

/-- Every entry is in use, has not expired and may not be removed. -/
def Orouting.Full (s : Orouting) (currtim : Nat) : Prop :=
  ∀ i, s.Inuse i ∧ (s.table i).expired currtim = false ∧
    ((s.table i).static = true ∨ (s.table i).dest = 0)

/-- What the loop over the table may find. -/
def Entry.Right (table : OrouteNr → Oroute) (currtim : Nat) (entries : List OrouteNr)
    (oldestRoute : Option OrouteNr) : Entry → Prop
  | .unused i => (table i).inuse = false
  | .expired i => (table i).inuse = true ∧ (table i).expired currtim = true
  | .oldest (some i) =>
    (table i).inuse = true ∧ ¬((table i).static = true ∨ (table i).dest = 0)
  | .oldest none => oldestRoute = none ∧ ∀ i ∈ entries, (table i).inuse = true ∧
      (table i).expired currtim = false ∧ ((table i).static = true ∨ (table i).dest = 0)

theorem findEntry_right (table : OrouteNr → Oroute) (currtim : Nat) (entries : List OrouteNr)
    (oldestRoute : Option OrouteNr) (used : ∀ i ∈ oldestRoute,
      (table i).inuse = true ∧ ¬((table i).static = true ∨ (table i).dest = 0)) :
    (findEntry table currtim entries oldestRoute).Right table currtim entries oldestRoute := by
  induction entries generalizing oldestRoute with
  | nil =>
    cases oldestRoute with
    | none => exact ⟨rfl, fun i none => by cases none⟩
    | some i => exact used i rfl
  | cons i rest inductionHypothesis =>
    have later {next : Option OrouteNr} (used' : ∀ i ∈ next,
          (table i).inuse = true ∧ ¬((table i).static = true ∨ (table i).dest = 0))
        (nonempty : next = none → oldestRoute = none ∧ (table i).inuse = true ∧
          (table i).expired currtim = false ∧ ((table i).static = true ∨ (table i).dest = 0)) :
        (findEntry table currtim rest next).Right table currtim (i :: rest) oldestRoute := by
      have found := inductionHypothesis next used'
      revert found
      cases findEntry table currtim rest next with
      | unused j => exact id
      | expired j => exact id
      | oldest j =>
        cases j with
        | some j => exact id
        | none =>
          rintro ⟨empty, others⟩
          obtain ⟨start, here⟩ := nonempty empty
          exact ⟨start, List.forall_mem_cons.mpr ⟨here, others⟩⟩
    unfold findEntry
    cases inuse : (table i).inuse with
    | false => exact inuse
    | true =>
      rw [Bool.not_true, if_neg Bool.false_ne_true]
      cases expired : (table i).expired currtim with
      | true => exact ⟨inuse, expired⟩
      | false =>
        rw [if_neg Bool.false_ne_true]
        split
        case isTrue fixed => exact later used fun empty => ⟨empty, inuse, expired, fixed⟩
        case isFalse removable =>
          cases oldestRoute with
          | none =>
            refine later (fun j same => ?_) fun wrong => by cases wrong
            exact Option.some.inj same ▸ ⟨inuse, removable⟩
          | some oldest =>
            refine later (fun j same => ?_) fun wrong => ?_
            · split at same
              · exact Option.some.inj same ▸ ⟨inuse, removable⟩
              · exact used j same
            · split at wrong <;> cases wrong

theorem takeEntry_linked (linked : Linked s s.Inuse nws) (room : ¬s.Full currtim) :
    ∃ s' i nws', takeEntry s currtim = some (s', i) ∧
      Linked s' s'.Inuse nws' ∧ Forgets s s' ∧ ¬s'.Inuse i ∧
      (∀ j ≠ i, s'.table j = s.table j) ∧ s'.staticNr = s.staticNr := by
  have found := findEntry_right s.table currtim (List.finRange orouteNr) none
    fun i none => by cases none
  have removed {i : OrouteNr} (used : s.Inuse i) :
      ∃ s' nws', release s i = some s' ∧ Linked s' s'.Inuse nws' ∧ Forgets s s' ∧ ¬s'.Inuse i ∧
        (∀ j ≠ i, s'.table j = s.table j) ∧ s'.staticNr = s.staticNr := by
    obtain ⟨s', nws', released, linked', forgets, table, staticNr⟩ := release_linked linked used
    refine ⟨s', nws', released, linked', forgets, ?_, fun j other => ?_, staticNr⟩
    · unfold Orouting.Inuse
      rw [table, update_self]
      exact Bool.false_ne_true
    · rw [table, update_of_ne other]
  unfold takeEntry
  revert found
  cases findEntry s.table currtim (List.finRange orouteNr) none with
  | unused i =>
    intro free
    exact ⟨s, i, nws, rfl, linked, fun _ _ _ cached => ⟨cached, rfl⟩, Bool.eq_false_iff.mp free,
      fun _ _ => rfl, rfl⟩
  | expired i =>
    intro used
    obtain ⟨s', nws', released, rest⟩ := removed used.1
    exact ⟨s', i, nws', by dsimp only; rw [released]; rfl, rest⟩
  | oldest i =>
    cases i with
    | some i =>
      intro used
      obtain ⟨s', nws', released, rest⟩ := removed used.1
      exact ⟨s', i, nws', by dsimp only; rw [Option.bind_some, released]; rfl, rest⟩
    | none => exact fun full => absurd (fun i => full.2 i (List.mem_finRange i)) room

theorem takeEntry_full (full : s.Full currtim) : takeEntry s currtim = none := by
  have found := findEntry_right s.table currtim (List.finRange orouteNr) none
    fun i none => by cases none
  unfold takeEntry
  revert found
  cases findEntry s.table currtim (List.finRange orouteNr) none with
  | unused i => exact fun free => absurd (full i).1 (Bool.eq_false_iff.mp free)
  | expired i => exact fun used => absurd used.2 (Bool.eq_false_iff.mp (full i).2.1)
  | oldest i =>
    cases i with
    | some i => exact fun used => absurd (full i).2.2 used.2
    | none => exact fun _ => rfl

/-! ### `ipr_add_oroute` -/

theorem searchRoutes_eq {next : OrouteNr → Option OrouteNr} {start : Option OrouteNr}
    (chain : Chain next start nodes) (found : OrouteNr → Bool) :
    searchRoutes next found start = some (nodes.find? found) := by
  unfold searchRoutes
  rw [chain.scan_eq found (orouteNr_enough chain), Option.map_some]
  cases located : locate found none nodes with
  | none =>
    have missed := locate_eq_none.mp located
    rw [List.find?_eq_none.mpr fun node member => Bool.eq_false_iff.mp (missed node member)]
    rfl
  | some pair =>
    rw [find_of_locate located]
    rfl

/-- A dynamic route that the new one replaces. -/
def NewRoute.Replaces (new : NewRoute) (r : Oroute) : Prop :=
  r.network = (new.portNr, new.dest, new.subnetmask) ∧ r.gateway = new.gateway ∧
    r.static = false ∧ r.dist ≤ new.dist

theorem trackDown_right (linked : Linked s s.Inuse nws) (new : NewRoute) :
    ∃ old, trackDown s new = some old ∧
      (∀ i ∈ old, s.Inuse i ∧ new.Replaces (s.table i)) ∧
      (old = none → ∀ i, s.Inuse i → ¬new.Replaces (s.table i)) := by
  obtain ⟨gateways, list⟩ := linked.lists.right (new.portNr, new.dest, new.subnetmask)
  obtain ⟨routes, list'⟩ := list.level.right new.gateway
  refine ⟨routes.find? fun r => !(s.table r).static && (s.table r).dist ≤ new.dist, ?_,
    fun i found => ?_, fun missed i used replaces => ?_⟩
  · unfold trackDown
    rw [searchRoutes_eq linked.lists.chain, Option.bind_some]
    simp only [Oroute.leadsTo_eq]
    rw [searchRoutes_eq list.level.chain, Option.bind_some, searchRoutes_eq list'.chain]
  · obtain ⟨used, here, through⟩ := (list'.members i).mp (List.mem_of_find?_eq_some found)
    have fits := List.find?_some found
    rw [Bool.and_eq_true, Bool.not_eq_true', decide_eq_true_eq] at fits
    exact ⟨used, here, through, fits⟩
  · obtain ⟨here, through, dynamic, near⟩ := replaces
    refine List.find?_eq_none.mp missed i ((list'.members i).mpr ⟨used, here, through⟩) ?_
    rw [Bool.and_eq_true, Bool.not_eq_true', decide_eq_true_eq]
    exact ⟨dynamic, near⟩

theorem fill_linked (linked : Linked s s.Inuse nws) {i : OrouteNr} (free : ¬s.Inuse i)
    (currtim : Nat) (new : NewRoute) :
    ∃ s' nws', insertRoute s currtim new i = some s' ∧ Linked s' s'.Inuse nws' ∧ Forgets s s' ∧
      s'.table = update s.table i (new.entry currtim) ∧ s'.staticNr = s.staticNr := by
  obtain ⟨s', nws', inserted, linked', forgets, table, staticNr⟩ :=
    insertRoute_linked linked free currtim new
  have same : (fun j => s.Inuse j ∨ j = i) = s'.Inuse := by
    funext j
    refine propext ?_
    unfold Orouting.Inuse
    rw [table]
    by_cases here : j = i
    · subst here
      rw [update_self]
      exact iff_of_true (.inr rfl) rfl
    · rw [update_of_ne here]
      exact or_iff_left here
  rw [same] at linked'
  exact ⟨s', nws', inserted, linked', forgets, table, staticNr⟩

/-- The routes in use are old ones or the new one. -/
def Gains (s s' : Orouting) (new : NewRoute) : Prop :=
  ∀ j, s'.Inuse j →
    s.Inuse j ∧ (s'.table j).port = (s.table j).port ∧ (s'.table j).gateway = (s.table j).gateway ∨
    (s'.table j).port = new.portNr ∧ (s'.table j).gateway = new.gateway

/-- The new route is put into an entry in which there was an old one, or none. -/
theorem refill_linked (s₀ : Orouting) (linked : Linked s s.Inuse nws) {i : OrouteNr}
    (free : ¬s.Inuse i) (kept : ∀ j ≠ i, s.table j = s₀.table j) (currtim : Nat) (new : NewRoute) :
    ∃ s' nws', insertRoute s currtim new i = some s' ∧ Linked s' s'.Inuse nws' ∧ Forgets s s' ∧
      Gains s₀ s' new := by
  obtain ⟨s', nws', inserted, linked', forgets, table, _⟩ := fill_linked linked free currtim new
  refine ⟨s', nws', inserted, linked', forgets, fun j used => ?_⟩
  by_cases here : j = i
  · subst here
    rw [table, update_self]
    exact .inr ⟨rfl, rfl⟩
  · unfold Orouting.Inuse at used ⊢
    rw [table, update_of_ne here, kept j here] at used ⊢
    exact .inl ⟨used, rfl, rfl⟩

theorem addRoute_linked (linked : Linked s s.Inuse nws) (room : ¬s.Full currtim)
    (new : NewRoute) :
    ∃ s' i nws', addRoute s currtim new = some (s', .ok i) ∧ Linked s' s'.Inuse nws' ∧
      Forgets s s' ∧ Gains s s' new := by
  obtain ⟨s₁, i, nws₁, taken, linked₁, forgets₁, free, kept, _⟩ := takeEntry_linked linked room
  obtain ⟨s', nws', inserted, linked', forgets, gains⟩ := refill_linked s linked₁ free kept currtim new
  refine ⟨s', i, nws', ?_, linked', forgets₁.trans forgets, gains⟩
  unfold addRoute
  rw [taken, Option.bind_some]
  dsimp only
  rw [inserted]
  rfl

theorem refresh_linked (linked : Linked s s.Inuse nws) (i : OrouteNr) (expTim timestamp : Nat) :
    let refreshed : Oroute := { s.table i with expTim := expTim, timestamp := timestamp }
    let s' : Orouting := { s with table := update s.table i refreshed }
    Linked s' s'.Inuse nws ∧ Forgets s s' ∧ ∀ new, Gains s s' new := by
  intro refreshed s'
  have each {Field : Type} (field : Oroute → Field) (same : field refreshed = field (s.table i))
      (j : OrouteNr) : field (s'.table j) = field (s.table j) := by
    by_cases here : j = i
    · subst here
      change field (update s.table j refreshed j) = _
      rw [update_self]
      exact same
    · change field (update s.table i refreshed j) = _
      rw [update_of_ne here]
  have inuse : s'.Inuse = s.Inuse := by
    funext j
    exact congrArg (· = true) (each Oroute.inuse rfl j)
  refine ⟨?_, fun hash addr j cached => ⟨cached, each Oroute.port rfl j⟩, fun new j used => ?_⟩
  · rw [inuse]
    refine linked.alike ⟨each Oroute.network rfl, each Oroute.gateway rfl, fun a b => ?_⟩
    unfold Oroute.better
    rw [each Oroute.dist rfl a, each Oroute.dist rfl b, each Oroute.pref rfl a,
      each Oroute.pref rfl b]
  · rw [inuse] at used
    exact .inl ⟨used, each Oroute.port rfl j, each Oroute.gateway rfl j⟩

/-- The route is refused, it replaces an old one, or the table is not full. -/
def Orouting.Room (s : Orouting) (ports : Nat → IpPort) (currtim : Nat) (new : NewRoute) : Prop :=
  invalidGateway ports new.portNr new.gateway = true ∨
    (new.staticRoute = true ∧ orouteStaticNr ≤ s.staticNr) ∨
    (new.staticRoute = false ∧ ∃ i, s.Inuse i ∧ new.Replaces (s.table i)) ∨ ¬s.Full currtim

/-- With room for the route `ipr_add_oroute` refuses it or adds it, and keeps the lists. -/
theorem iprAddOroute_linked (linked : Linked s s.Inuse nws) (room : s.Room ports currtim new) :
    ∃ s' result nws', iprAddOroute ports s currtim new = some (s', result) ∧
      Linked s' s'.Inuse nws' ∧ Forgets s s' ∧
      (invalidGateway ports new.portNr new.gateway = true → s' = s ∧ result = .error einval) ∧
      (invalidGateway ports new.portNr new.gateway = false → new.staticRoute = false →
        ∃ i, result = .ok i) ∧ Gains s s' new := by
  have still : Gains s s new := fun j used => .inl ⟨used, rfl, rfl⟩
  have same : Forgets s s := fun _ _ _ cached => ⟨cached, rfl⟩
  unfold iprAddOroute
  cases invalid : invalidGateway ports new.portNr new.gateway with
  | true =>
    exact ⟨s, _, nws, rfl, linked, same, fun _ => ⟨rfl, rfl⟩, fun wrong => (by cases wrong), still⟩
  | false =>
    rw [if_neg Bool.false_ne_true]
    cases static : new.staticRoute with
    | true =>
      rw [if_pos rfl]
      split
      case isTrue =>
        exact ⟨s, _, nws, rfl, linked, same, fun wrong => (by cases wrong),
          fun _ wrong => (by cases wrong), still⟩
      case isFalse few =>
        have empty : ¬s.Full currtim := by
          obtain wrong | ⟨_, wrong⟩ | ⟨wrong, _⟩ | empty := room
          · exact absurd wrong (Bool.eq_false_iff.mp invalid)
          · exact absurd wrong few
          · exact absurd wrong (by rw [static]; exact Bool.noConfusion)
          · exact empty
        obtain ⟨s', i, nws', added, linked', forgets, gains⟩ :=
          @addRoute_linked { s with staticNr := s.staticNr + 1 } nws currtim
            ⟨linked.lists, linked.cache⟩ empty new
        exact ⟨s', _, nws', added, linked', forgets, fun wrong => (by cases wrong),
          fun _ wrong => (by cases wrong), gains⟩
    | false =>
      rw [if_neg Bool.false_ne_true]
      obtain ⟨old, tracked, found, missed⟩ := trackDown_right linked new
      rw [tracked, Option.bind_some]
      cases old with
      | none =>
        have empty : ¬s.Full currtim := by
          obtain wrong | ⟨wrong, _⟩ | ⟨_, i, used, replaces⟩ | empty := room
          · exact absurd wrong (Bool.eq_false_iff.mp invalid)
          · exact absurd wrong (by rw [static]; exact Bool.noConfusion)
          · exact absurd replaces (missed rfl i used)
          · exact empty
        obtain ⟨s', i, nws', added, linked', forgets, gains⟩ := addRoute_linked linked empty new
        exact ⟨s', _, nws', added, linked', forgets, fun wrong => (by cases wrong),
          fun _ _ => ⟨i, rfl⟩, gains⟩
      | some oroute =>
        obtain ⟨used, here, through, _⟩ := found oroute rfl
        obtain ⟨port, _, _⟩ := Oroute.network_eq.mp here
        dsimp only
        rw [if_neg (not_not_intro port)]
        split
        case isTrue =>
          obtain ⟨linked', forgets, gains⟩ :=
            refresh_linked linked oroute (expTime currtim new.timeout) currtim
          exact ⟨_, _, nws, rfl, linked', forgets, fun wrong => (by cases wrong),
            fun _ _ => ⟨oroute, rfl⟩, gains new⟩
        case isFalse =>
          obtain ⟨s₁, nws₁, released, linked₁, forgets₁, table, _⟩ := release_linked linked used
          have free : ¬s₁.Inuse oroute := by
            unfold Orouting.Inuse
            rw [table, update_self]
            exact Bool.false_ne_true
          obtain ⟨s', nws', inserted, linked', forgets, gains⟩ := refill_linked s linked₁ free
            (fun j other => by rw [table, update_of_ne other]) currtim new
          refine ⟨s', _, nws', ?_, linked', forgets₁.trans forgets, fun wrong => (by cases wrong),
            fun _ _ => ⟨oroute, rfl⟩, gains⟩
          rw [released, Option.bind_some, inserted]
          rfl

theorem iprAddOroute_none (linked : Linked s s.Inuse nws) (crowded : ¬s.Room ports currtim new) :
    iprAddOroute ports s currtim new = none := by
  obtain ⟨valid, statics, others, full⟩ : ¬invalidGateway ports new.portNr new.gateway = true ∧
      ¬(new.staticRoute = true ∧ orouteStaticNr ≤ s.staticNr) ∧
      ¬(new.staticRoute = false ∧ ∃ i, s.Inuse i ∧ new.Replaces (s.table i)) ∧ s.Full currtim := by
    unfold Orouting.Room at crowded
    rw [not_or, not_or, not_or, not_not] at crowded
    exact crowded
  unfold iprAddOroute
  rw [if_neg valid]
  split
  case isTrue static =>
    rw [if_neg fun many => statics ⟨static, many⟩]
    have taken : takeEntry { s with staticNr := s.staticNr + 1 } currtim = none :=
      takeEntry_full full
    unfold addRoute
    rw [taken]
    rfl
  case isFalse dynamic =>
    obtain ⟨old, tracked, found, _⟩ := trackDown_right linked new
    rw [tracked, Option.bind_some]
    cases old with
    | none =>
      dsimp only
      unfold addRoute
      rw [takeEntry_full full]
      rfl
    | some i => exact absurd ⟨Bool.eq_false_iff.mpr dynamic, i, found i rfl⟩ others

end Minix.Inet
