/-
This file says what the three levels of lists of output routes hold, and proves what a change of one
entry does to them.

An entry is live if it is linked. For a network and a gateway there is the list of the routes, whose
first one is the best; the first ones of the gateways of a network are a level, with the best one in
front; and the first ones of the networks are a level. `oroute_del` and `ipr_add_oroute` take a
network and then a gateway out, change the list of routes, and put the first ones back.
-/

import Minix.Inet.Oroute
import Minix.Library.Levels

namespace Minix.Inet

open Function (update update_of_ne update_self)
open LinkedList

theorem orouteNr_enough {next : OrouteNr → Option OrouteNr} {head : Option OrouteNr}
    {nodes : List OrouteNr} (chain : Chain next head nodes) : nodes.length ≤ orouteNr := by
  have bound := chain.length_le
  rw [Fintype.card_fin] at bound
  exact bound

/-! ### The order of the routes -/

theorem Oroute.better_irrefl (r : Oroute) : r.better r = false := by
  unfold Oroute.better
  rw [if_neg (not_not_intro rfl)]
  exact decide_eq_false (lt_irrefl _)

theorem Oroute.better_iff {r best : Oroute} :
    r.better best = true ↔ r.dist < best.dist ∨ r.dist = best.dist ∧ best.pref < r.pref := by
  unfold Oroute.better
  split
  case isTrue apart => simp [apart]
  case isFalse same =>
    have equal : r.dist = best.dist := not_not.mp same
    simp [equal]

theorem Oroute.better_trans {a b c : Oroute} (first : a.better b = true)
    (second : b.better c = true) : a.better c = true := by
  rw [Oroute.better_iff] at *
  omega

theorem sortRoutes_eq {next : OrouteNr → Option OrouteNr} {head : Option OrouteNr}
    {nodes : List OrouteNr} (chain : Chain next head nodes) (table : OrouteNr → Oroute) :
    ∃ next' nodes', sortRoutes table next head = some (next', nodes'.head?) ∧
      Chain next' nodes'.head? nodes' ∧ nodes'.Perm nodes ∧
      (∀ other ∉ nodes, next' other = next other) ∧
      ∀ b ∈ nodes'.head?, ∀ other ∈ nodes, (table other).better (table b) = false := by
  let better : OrouteNr → OrouteNr → Bool := fun r best => (table r).better (table best)
  have irreflexive : ∀ a, better a a = false := fun a => Oroute.better_irrefl _
  have transitive : ∀ a b c, better a b = true → better b c = true → better a c = true :=
    fun a b c => Oroute.better_trans
  exact chain.sortBest_eq irreflexive transitive (orouteNr_enough chain)

/-! ### Networks -/

/-- What tells the networks apart. -/
def Oroute.network (oroute : Oroute) : Nat × UInt32 × UInt32 :=
  (oroute.port, oroute.dest, oroute.subnetmask)

theorem Oroute.leadsTo_eq (r : Oroute) (portNr : Nat) (dest subnetmask : UInt32) :
    r.leadsTo portNr dest subnetmask = decide (r.network = (portNr, dest, subnetmask)) := by
  unfold Oroute.leadsTo Oroute.network
  simp only [Prod.mk.injEq, Bool.decide_and, Bool.and_assoc]

theorem Oroute.network_eq {r : Oroute} {portNr : Nat} {dest subnetmask : UInt32} :
    r.network = (portNr, dest, subnetmask) ↔
      r.port = portNr ∧ r.dest = dest ∧ r.subnetmask = subnetmask := by
  unfold Oroute.network
  rw [Prod.mk.injEq, Prod.mk.injEq]

/-! ### The lists -/

section Lists

variable {table table' : OrouteNr → Oroute} {nextgw nextdist nextgw' nextdist' :
  OrouteNr → Option OrouteNr} {live live' : OrouteNr → Prop} {network : Nat × UInt32 × UInt32}
  {gateway : UInt32} {head : Option OrouteNr} {routes gateways : List OrouteNr}
  {i : OrouteNr}

/-- The routes of a network through a gateway are linked, with the best one in front. -/
structure Routes (table : OrouteNr → Oroute) (nextdist : OrouteNr → Option OrouteNr)
    (live : OrouteNr → Prop) (network : Nat × UInt32 × UInt32) (gateway : UInt32)
    (head : Option OrouteNr) (routes : List OrouteNr) : Prop where
  chain : Chain nextdist head routes
  members : ∀ i, i ∈ routes ↔ live i ∧ (table i).network = network ∧ (table i).gateway = gateway
  best : ∀ first ∈ head, ∀ i ∈ routes, (table i).better (table first) = false

/-- The first routes of the gateways of a network are linked, with the best one in front. -/
structure Gateways (table : OrouteNr → Oroute) (nextgw nextdist : OrouteNr → Option OrouteNr)
    (live : OrouteNr → Prop) (network : Nat × UInt32 × UInt32) (head : Option OrouteNr)
    (gateways : List OrouteNr) : Prop where
  level : Level nextgw (fun i => (table i).gateway)
    (fun gateway first => ∃ routes, Routes table nextdist live network gateway first routes) head
    gateways
  best : ∀ first ∈ head, ∀ i ∈ gateways, (table i).better (table first) = false

theorem Routes.first_mem (list : Routes table nextdist live network gateway head routes)
    {first : OrouteNr} (same : first ∈ head) : first ∈ routes := by
  have start := list.chain.head_eq
  rw [same] at start
  exact List.mem_of_mem_head? start.symm

theorem Routes.first (list : Routes table nextdist live network gateway head routes)
    {first : OrouteNr} (same : first ∈ head) :
    live first ∧ (table first).network = network ∧ (table first).gateway = gateway :=
  (list.members first).mp (list.first_mem same)

theorem Gateways.member (list : Gateways table nextgw nextdist live network head gateways)
    (member : i ∈ gateways) : live i ∧ (table i).network = network := by
  obtain ⟨routes, inside⟩ := list.level.of_mem member
  obtain ⟨used, here, _⟩ := inside.first rfl
  exact ⟨used, here⟩

theorem Gateways.reached (list : Gateways table nextgw nextdist live network head gateways)
    (used : live i) (here : (table i).network = network) :
    ∃ first ∈ gateways, (table first).gateway = (table i).gateway ∧
      ∃ routes, Routes table nextdist live network (table i).gateway (some first) routes ∧
        i ∈ routes := by
  obtain ⟨routes, inside⟩ := list.level.right (table i).gateway
  have member := (inside.members i).mpr ⟨used, here, rfl⟩
  cases found : gateways.find? fun node => (table node).gateway = (table i).gateway with
  | none =>
    rw [found] at inside
    have empty := inside.chain.head_eq
    rw [List.head?_eq_none_iff.mp empty.symm] at member
    cases member
  | some first =>
    rw [found] at inside
    obtain ⟨firstMember, same⟩ := (find?_key_eq_some list.level.distinct).mp found
    exact ⟨first, firstMember, same, routes, inside, member⟩

/-! ### Entries that stay -/

/-- The live entries with a property stay as they are, and no others get it. -/
def Agree (table table' : OrouteNr → Oroute) (live live' : OrouteNr → Prop)
    (property : Oroute → Prop) : Prop :=
  ∀ j, live j ∧ property (table j) ∨ live' j ∧ property (table' j) →
    table' j = table j ∧ live j ∧ live' j

theorem Agree.mono {property stronger : Oroute → Prop}
    (agree : Agree table table' live live' property) (implies : ∀ r, stronger r → property r) :
    Agree table table' live live' stronger :=
  fun j either => agree j (either.imp (fun both => ⟨both.1, implies _ both.2⟩)
    fun both => ⟨both.1, implies _ both.2⟩)

theorem Routes.congr (list : Routes table nextdist live network gateway head routes)
    (agree : Agree table table' live live' fun r => r.network = network ∧ r.gateway = gateway)
    (pointers : ∀ j ∈ routes, nextdist' j = nextdist j) :
    Routes table' nextdist' live' network gateway head routes := by
  have same : ∀ j ∈ routes, table' j = table j := fun j inside =>
    (agree j (.inl ((list.members j).mp inside))).1
  refine ⟨list.chain.congr pointers, fun j => ?_, fun first start j inside => ?_⟩
  · rw [list.members j]
    constructor
    · intro here
      obtain ⟨entry, _, still⟩ := agree j (.inl here)
      exact ⟨still, entry ▸ here.2⟩
    · intro here
      obtain ⟨entry, used, _⟩ := agree j (.inr here)
      exact ⟨used, entry ▸ here.2⟩
  · rw [same j inside, same first (list.first_mem start)]
    exact list.best first start j inside

theorem Gateways.congr (list : Gateways table nextgw nextdist live network head gateways)
    (agree : Agree table table' live live' fun r => r.network = network)
    (pointers : ∀ j, live j → (table j).network = network →
      nextgw' j = nextgw j ∧ nextdist' j = nextdist j) :
    Gateways table' nextgw' nextdist' live' network head gateways := by
  have same : ∀ j ∈ gateways, table' j = table j := fun j inside =>
    (agree j (.inl (list.member inside))).1
  refine ⟨list.level.congr (fun j inside => ?_) (fun j inside => ?_) ?_,
    fun first start j inside => ?_⟩
  · obtain ⟨used, here⟩ := list.member inside
    exact (pointers j used here).1
  · rw [same j inside]
  · rintro through first ⟨routes, inside⟩
    refine ⟨routes, inside.congr (agree.mono fun _ both => both.1) fun j member => ?_⟩
    obtain ⟨used, here, _⟩ := (inside.members j).mp member
    exact (pointers j used here).2
  · have firstMember : first ∈ gateways := by
      have top := list.level.chain.head_eq
      rw [start] at top
      exact List.mem_of_mem_head? top.symm
    rw [same j inside, same first firstMember]
    exact list.best first start j inside

/-- The tables cannot be told apart by what orders the lists. -/
structure Alike (table table' : OrouteNr → Oroute) : Prop where
  network : ∀ j, (table' j).network = (table j).network
  gateway : ∀ j, (table' j).gateway = (table j).gateway
  better : ∀ i j, (table' i).better (table' j) = (table i).better (table j)

theorem Routes.alike (list : Routes table nextdist live network gateway head routes)
    (same : Alike table table') : Routes table' nextdist live network gateway head routes := by
  refine ⟨list.chain, fun i => ?_, fun first start i inside => ?_⟩
  · rw [same.network, same.gateway]
    exact list.members i
  · rw [same.better]
    exact list.best first start i inside

theorem Gateways.alike (list : Gateways table nextgw nextdist live network head gateways)
    (same : Alike table table') : Gateways table' nextgw nextdist live network head gateways := by
  refine ⟨list.level.congr (fun _ _ => rfl) (fun j _ => same.gateway j) ?_,
    fun first start i inside => ?_⟩
  · rintro gateway first ⟨routes, inside⟩
    exact ⟨routes, inside.alike same⟩
  · rw [same.better]
    exact list.best first start i inside

/-! ### Putting the lists together again -/

/-- The gateways of a network without one of them. -/
def Torn (table : OrouteNr → Oroute) (nextgw nextdist : OrouteNr → Option OrouteNr)
    (live : OrouteNr → Prop) (network : Nat × UInt32 × UInt32) (gateway : UInt32)
    (head : Option OrouteNr) (rest : List OrouteNr) : Prop :=
  Level nextgw (fun i => (table i).gateway)
    (update (fun gateway first => ∃ routes, Routes table nextdist live network gateway first routes)
      gateway fun first => first = none) head rest

theorem Torn.member {rest : List OrouteNr}
    (torn : Torn table nextgw nextdist live network gateway head rest) {j : OrouteNr}
    (inside : j ∈ rest) :
    live j ∧ (table j).network = network ∧ (table j).gateway ≠ gateway := by
  have right := Level.of_mem torn inside
  have apart : (table j).gateway ≠ gateway := by
    intro same
    rw [same, update_self] at right
    cases right
  rw [update_of_ne apart] at right
  obtain ⟨routes, list⟩ := right
  obtain ⟨used, here, _⟩ := list.first rfl
  exact ⟨used, here, apart⟩

/-- The changed list of routes is put in front of the other gateways, and the best one of all is
moved to the front. -/
theorem Torn.replace {rest : List OrouteNr} {route : Option OrouteNr}
    (torn : Torn table nextgw nextdist live network gateway head rest)
    (agree : Agree table table' live live' fun r => ¬(r.network = network ∧ r.gateway = gateway))
    (pointers : ∀ j, live j → ¬((table j).network = network ∧ (table j).gateway = gateway) →
      nextdist' j = nextdist j)
    (list : Routes table' nextdist' live' network gateway route routes) :
    ∃ nextgw' gateways,
      sortRoutes table' (putFirst nextgw route head).1 (putFirst nextgw route head).2 =
        some (nextgw', gateways.head?) ∧
      Gateways table' nextgw' nextdist' live' network gateways.head? gateways ∧
      ∀ j, ¬(live' j ∧ (table' j).network = network) → nextgw' j = nextgw j := by
  have untouched : ∀ j ∈ rest, table' j = table j ∧ live j ∧ live' j := by
    intro j inside
    obtain ⟨used, _, apart⟩ := torn.member inside
    exact agree j (.inl ⟨used, fun both => apart both.2⟩)
  have renamed : Level nextgw (fun i => (table' i).gateway) _ head rest :=
    torn.congr (fun _ _ => rfl) (fun j inside => by rw [(untouched j inside).1]) fun _ _ same => same
  have whole : Level (putFirst nextgw route head).1 (fun i => (table' i).gateway)
      (fun gateway first => ∃ routes, Routes table' nextdist' live' network gateway first routes)
      (putFirst nextgw route head).2 (route.toList ++ rest) := by
    refine renamed.putFirst ?_ ⟨routes, list⟩ fun first start => (list.first start).2.2
    rintro other apart first ⟨routes, inside⟩
    have elsewhere : ∀ r : Oroute, r.network = network ∧ r.gateway = other →
        ¬(r.network = network ∧ r.gateway = gateway) :=
      fun r here both => apart (here.2.symm.trans both.2)
    refine ⟨routes, inside.congr (agree.mono elsewhere) fun j member => ?_⟩
    obtain ⟨used, here⟩ := (inside.members j).mp member
    exact pointers j used (elsewhere _ here)
  let better : OrouteNr → OrouteNr → Bool := fun r best => (table' r).better (table' best)
  have irreflexive : ∀ a, better a a = false := fun a => Oroute.better_irrefl _
  have transitive : ∀ a b c, better a b = true → better b c = true → better a c = true :=
    fun a b c => Oroute.better_trans
  obtain ⟨nextgw', gateways, sorted, level, perm, frame, best⟩ :=
    whole.sortBest_eq irreflexive transitive (orouteNr_enough whole.chain)
  refine ⟨nextgw', gateways, sorted,
    ⟨level, fun first start j inside => best first start j (perm.mem_iff.mp inside)⟩,
    fun j outside => ?_⟩
  have absent : j ∉ route.toList ++ rest := by
    intro inside
    obtain first | other := List.mem_append.mp inside
    · obtain ⟨used, here, _⟩ := list.first (Option.mem_toList.mp first)
      exact outside ⟨used, here⟩
    · obtain ⟨used, here, _⟩ := torn.member other
      obtain ⟨same, _, still⟩ := untouched j other
      exact outside ⟨still, same ▸ here⟩
  rw [frame j absent]
  cases route with
  | none => rfl
  | some first => exact update_of_ne (fun same => absent (by simp [same])) _ _

end Lists

/-! ### All networks -/

/-- The first routes of the networks are linked. -/
def Networks (s : Orouting) (live : OrouteNr → Prop) (networks : List OrouteNr) : Prop :=
  Level s.nextnw (fun i => (s.table i).network)
    (fun network first =>
      ∃ gateways, Gateways s.table s.nextgw s.nextdist live network first gateways)
    s.head networks

variable {s s' : Orouting} {live live' : OrouteNr → Prop} {networks : List OrouteNr}

theorem Networks.member (linked : Networks s live networks) {i : OrouteNr}
    (inside : i ∈ networks) : live i := by
  obtain ⟨gateways, list⟩ := Level.of_mem linked inside
  have start := list.level.chain.head_eq
  exact (list.member (List.mem_of_mem_head? start.symm)).1

theorem Networks.reached (linked : Networks s live networks) {i : OrouteNr} (used : live i) :
    ∃ first ∈ networks, (s.table first).network = (s.table i).network ∧
      ∃ gateways, Gateways s.table s.nextgw s.nextdist live (s.table i).network (some first)
        gateways := by
  obtain ⟨gateways, list⟩ := linked.right (s.table i).network
  obtain ⟨first, member, _⟩ := list.reached used rfl
  cases found : networks.find? fun node => (s.table node).network = (s.table i).network with
  | none =>
    rw [found] at list
    rw [List.head?_eq_none_iff.mp list.level.chain.head_eq.symm] at member
    cases member
  | some top =>
    rw [found] at list
    obtain ⟨inside, same⟩ := (find?_key_eq_some linked.distinct).mp found
    exact ⟨top, inside, same, gateways, list⟩

end Minix.Inet
