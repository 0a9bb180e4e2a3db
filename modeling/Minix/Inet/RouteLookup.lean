/-
This file proves what `oroute_find_ent` finds and what it keeps.

With fewer than 32 ports the port that asked is determined by the set of the cache and the address,
so the assertion about the port of a remembered route holds. The assertion in the search fails when
two networks clash: the loop meets one with the destination of the most specific one before it.
-/

import Minix.Inet.RouteAdditions
import Minix.Inet.IrouteCache

namespace Minix.Inet

open Function (update update_of_ne update_self)
open LinkedList

variable {s s' : Orouting} {nws : List OrouteNr} {currtim portNr : Nat} {dest : UInt32}

/-! ### The search -/

/-- More specific netmasks are better. -/
def moreSpecific (table : OrouteNr → Oroute) (bestroute : Option OrouteNr) (r : OrouteNr) :
    Option OrouteNr :=
  match bestroute with
  | none => some r
  | some best =>
    if ntohl (table best).subnetmask < ntohl (table r).subnetmask then some r else some best

/-- The first one of the most specific networks. -/
def mostSpecific (table : OrouteNr → Oroute) (networks : List OrouteNr) : Option OrouteNr :=
  networks.foldl (moreSpecific table) none

/-- The networks of a port that contain an address. -/
def Orouting.matching (s : Orouting) (portNr : Nat) (dest : UInt32) : List OrouteNr :=
  s.networks.filter fun r => (s.table r).serves portNr dest

/-- Among the networks of the port that contain the address, one has the destination of the most
specific one before it. -/
def Orouting.Clash (s : Orouting) (portNr : Nat) (dest : UInt32) : Prop :=
  ∃ front r back best, s.matching portNr dest = front ++ r :: back ∧
    mostSpecific s.table front = some best ∧ (s.table r).dest = (s.table best).dest

theorem mostSpecific_concat (table : OrouteNr → Oroute) (front : List OrouteNr) (r : OrouteNr) :
    mostSpecific table (front ++ [r]) = moreSpecific table (mostSpecific table front) r := by
  unfold mostSpecific
  rw [List.foldl_append]
  rfl

theorem mostSpecific_mem (table : OrouteNr → Oroute) (networks : List OrouteNr) :
    ∀ best ∈ mostSpecific table networks, best ∈ networks := by
  induction networks using List.reverseRecOn with
  | nil => exact fun best none => by cases none
  | append_singleton front r inductionHypothesis =>
    intro best chosen
    rw [mostSpecific_concat] at chosen
    revert chosen
    cases before : mostSpecific table front with
    | none =>
      intro chosen
      rw [Option.some.inj chosen]
      exact List.mem_append_right _ List.mem_cons_self
    | some old =>
      intro chosen
      unfold moreSpecific at chosen
      dsimp only at chosen
      split at chosen
      · rw [Option.some.inj chosen]
        exact List.mem_append_right _ List.mem_cons_self
      · rw [← Option.some.inj chosen]
        exact List.mem_append_left _ (inductionHypothesis old before)

/-- One of the networks has the destination of the most specific one before it. -/
def ClashAfter (table : OrouteNr → Oroute) (front nodes : List OrouteNr) : Prop :=
  ∃ between r back best, nodes = between ++ r :: back ∧
    mostSpecific table (front ++ between) = some best ∧ (table r).dest = (table best).dest

theorem not_clashAfter_nil {table : OrouteNr → Oroute} {front : List OrouteNr} :
    ¬ClashAfter table front [] := by
  rintro ⟨between, r, back, _, wrong, _⟩
  exact absurd wrong.symm (List.append_ne_nil_of_right_ne_nil _ (List.cons_ne_nil r back))

theorem clashAfter_cons {table : OrouteNr → Oroute} {front rest : List OrouteNr}
    {node : OrouteNr} :
    ClashAfter table front (node :: rest) ↔
      (∃ best, mostSpecific table front = some best ∧ (table node).dest = (table best).dest) ∨
      ClashAfter table (front ++ [node]) rest := by
  constructor
  · rintro ⟨between, r, back, best, split, chosen, same⟩
    cases between with
    | nil =>
      obtain ⟨rfl, rfl⟩ := List.cons.inj split
      rw [List.append_nil] at chosen
      exact .inl ⟨best, chosen, same⟩
    | cons first between =>
      obtain ⟨rfl, rfl⟩ := List.cons.inj split
      refine .inr ⟨between, r, back, best, rfl, ?_, same⟩
      rw [List.append_assoc, List.singleton_append]
      exact chosen
  · rintro (⟨best, chosen, same⟩ | ⟨between, r, back, best, rfl, chosen, same⟩)
    · exact ⟨[], node, rest, best, rfl, by rw [List.append_nil]; exact chosen, same⟩
    · refine ⟨node :: between, r, back, best, rfl, ?_, same⟩
      rw [List.append_assoc, List.singleton_append] at chosen
      exact chosen

/-- The loop fails at the first network that has the destination of the most specific one before
it. -/
theorem searchNetworks_eq {nodes : List OrouteNr} {head : Option OrouteNr} {fuel : Nat}
    (chain : Chain s.nextnw head nodes) (enough : nodes.length ≤ fuel) (front : List OrouteNr) :
    (ClashAfter s.table front (nodes.filter fun r => (s.table r).serves portNr dest) →
      searchNetworks s portNr dest fuel head (mostSpecific s.table front) = none) ∧
    (¬ClashAfter s.table front (nodes.filter fun r => (s.table r).serves portNr dest) →
      searchNetworks s portNr dest fuel head (mostSpecific s.table front) =
        some (mostSpecific s.table
          (front ++ nodes.filter fun r => (s.table r).serves portNr dest))) := by
  induction nodes generalizing head fuel front with
  | nil =>
    rw [chain_nil] at chain
    subst chain
    refine ⟨fun wrong => absurd wrong not_clashAfter_nil, fun _ => ?_⟩
    rw [List.filter_nil, List.append_nil]
    cases fuel <;> rfl
  | cons node rest inductionHypothesis =>
    obtain ⟨rfl, behind⟩ := chain
    cases fuel with
    | zero => cases enough
    | succ fuel =>
      have later := inductionHypothesis behind (Nat.le_of_succ_le_succ enough)
      unfold searchNetworks
      rw [List.filter_cons]
      cases serves : (s.table node).serves portNr dest with
      | false =>
        rw [if_neg Bool.false_ne_true, if_neg Bool.false_ne_true]
        exact later front
      | true =>
        rw [if_pos rfl, if_pos rfl, clashAfter_cons]
        have next := later (front ++ [node])
        rw [mostSpecific_concat, List.append_assoc, List.singleton_append] at next
        cases before : mostSpecific s.table front with
        | none =>
          rw [before] at next
          refine ⟨fun clash => next.1 (clash.resolve_left ?_), fun clear => next.2 ?_⟩
          · rintro ⟨best, wrong, _⟩
            cases wrong
          · exact fun clash => clear (.inr clash)
        | some best =>
          rw [before] at next
          dsimp only
          by_cases same : (s.table node).dest = (s.table best).dest
          · rw [if_pos same]
            exact ⟨fun _ => rfl, fun clear => absurd (.inl ⟨best, rfl, same⟩) clear⟩
          · rw [if_neg same]
            refine ⟨fun clash => next.1 (clash.resolve_left ?_), fun clear => next.2 ?_⟩
            · rintro ⟨other, chosen, here⟩
              rw [← Option.some.inj chosen] at here
              exact same here
            · exact fun clash => clear (.inr clash)

/-- The search gives the most specific network, unless two networks clash. -/
theorem searchNetworks_linked {live : OrouteNr → Prop} (linked : Linked s live nws) (portNr : Nat)
    (dest : UInt32) :
    (s.Clash portNr dest → searchNetworks s portNr dest orouteNr s.head none = none) ∧
    (¬s.Clash portNr dest → searchNetworks s portNr dest orouteNr s.head none =
      some (mostSpecific s.table (s.matching portNr dest))) := by
  unfold Orouting.Clash Orouting.matching
  rw [linked.visits.1]
  exact searchNetworks_eq linked.lists.chain (orouteNr_enough linked.lists.chain) []

/-! ### The cache -/

/-- Each route that is remembered belongs to the port that asked for it. -/
def CachePorts (s : Orouting) : Prop :=
  ∀ hash addr r, s.Cached hash addr r → (s.table r).port = askingPort hash addr

theorem CachePorts.forgets (ports : CachePorts s) (forgets : Forgets s s') : CachePorts s' := by
  intro hash addr r cached
  obtain ⟨before, port⟩ := forgets hash addr r cached
  exact port.trans (ports hash addr r before)

theorem askingPort_hashOroute (fits : portNr < 32) :
    askingPort (hashOroute portNr dest) dest = portNr := askingPort_hashIroute fits

/-- The routes in use stay as they are. -/
def Keeps (s s' : Orouting) : Prop := ∀ j, s'.Inuse j → s.Inuse j ∧ s'.table j = s.table j

theorem serves_iff {r : Oroute} :
    r.serves portNr dest = true ↔ (dest ^^^ r.dest) &&& r.subnetmask = 0 ∧ r.port = portNr := by
  unfold Oroute.serves
  rw [Bool.and_eq_true, beq_iff_eq, decide_eq_true_eq]

theorem cached_remember {hash addr : UInt32} {best r : OrouteNr}
    (remembers : s'.hash = update s.hash (hashOroute portNr dest)
      (Memo.remember (s.hash (hashOroute portNr dest)) dest best))
    (cached : s'.Cached hash addr r) :
    hash = hashOroute portNr dest ∧ addr = dest ∧ r = best ∨ s.Cached hash addr r := by
  obtain ⟨way, member, key, value⟩ := cached
  rw [remembers] at member
  by_cases same : hash = hashOroute portNr dest
  · subst same
    rw [update_self] at member
    obtain rfl | old := List.mem_cons.mp member
    · exact .inl ⟨rfl, key.symm, (Option.some.inj value).symm⟩
    · exact .inr ⟨way, List.dropLast_subset _ old, key, value⟩
  · rw [update_of_ne same] at member
    exact .inr ⟨way, member, key, value⟩

theorem findNetwork_linked (linked : Linked s s.Inuse nws) (portNr : Nat) (dest : UInt32) :
    (s.Clash portNr dest → findNetwork s portNr dest = none) ∧
    (¬s.Clash portNr dest → ∃ s' route, findNetwork s portNr dest = some (s', route) ∧
      Linked s' s'.Inuse nws ∧ (∀ r ∈ route, s'.Inuse r ∧ (s'.table r).port = portNr) ∧
      s'.table = s.table ∧ s'.staticNr = s.staticNr ∧
      (CachePorts s → portNr < 32 → CachePorts s')) := by
  obtain ⟨fails, finds⟩ := searchNetworks_linked linked portNr dest
  unfold findNetwork
  refine ⟨fun clash => by rw [fails clash]; rfl, fun clear => ?_⟩
  rw [finds clear, Option.map_some]
  cases chosen : mostSpecific s.table (s.matching portNr dest) with
  | none =>
    exact ⟨s, none, rfl, linked, fun r none => (by cases none), rfl, rfl, fun ports _ => ports⟩
  | some best =>
    have member := mostSpecific_mem _ _ best chosen
    unfold Orouting.matching at member
    rw [linked.visits.1, List.mem_filter, serves_iff] at member
    obtain ⟨top, inside, port⟩ := member
    refine ⟨_, some best, rfl, ⟨linked.lists, ?_⟩, fun r same => ?_, rfl, rfl, fun ports fits => ?_⟩
    · intro hash addr r cached
      obtain ⟨rfl, rfl, rfl⟩ | before := cached_remember rfl cached
      · exact ⟨top, inside⟩
      · exact linked.cache hash addr r before
    · cases same
      exact ⟨linked.lists.member top, port⟩
    · intro hash addr r cached
      obtain ⟨rfl, rfl, rfl⟩ | before := cached_remember rfl cached
      · exact port.trans (askingPort_hashOroute fits).symm
      · exact ports hash addr r before

theorem consult_linked (linked : Linked s s.Inuse nws) (portNr : Nat) (dest : UInt32) :
    Linked (consult s portNr dest).1 s.Inuse nws ∧
      (∀ r ∈ (consult s portNr dest).2, s.Cached (hashOroute portNr dest) dest r) ∧
      Forgets s (consult s portNr dest).1 := by
  obtain ⟨members, answers⟩ := Memo.use_mem dest (s.hash (hashOroute portNr dest))
  have cached : ∀ hash addr r, (consult s portNr dest).1.Cached hash addr r → s.Cached hash addr r := by
    rintro hash addr r ⟨way, member, here⟩
    change way ∈ update s.hash (hashOroute portNr dest) _ hash at member
    by_cases same : hash = hashOroute portNr dest
    · subst same
      rw [update_self] at member
      exact ⟨way, (members way).mp member, here⟩
    · rw [update_of_ne same] at member
      exact ⟨way, member, here⟩
  exact ⟨⟨linked.lists, fun hash addr r inside => linked.cache hash addr r (cached hash addr r inside)⟩,
    answers, fun hash addr r inside => ⟨cached hash addr r inside, rfl⟩⟩

/-! ### `oroute_find_ent` -/

/-- The networks do not clash when the search is needed: when the cache gives no route, or one that
has expired and is deleted. -/
def Orouting.SearchOk (s : Orouting) (currtim portNr : Nat) (dest : UInt32) : Prop :=
  match (consult s portNr dest).2 with
  | none => ¬s.Clash portNr dest
  | some r => (s.table r).expired currtim = true →
    ∀ s', expire (consult s portNr dest).1 r = some s' → ¬s'.Clash portNr dest

/-- What `oroute_find_ent` gives when no assertion fails. -/
structure Finds (s : Orouting) (portNr : Nat) (s' : Orouting) (route : Option OrouteNr) : Prop where
  linked : ∃ nws, Linked s' s'.Inuse nws
  route : ∀ r ∈ route, s'.Inuse r ∧ (s'.table r).port = portNr
  keeps : Keeps s s'
  staticNr : s'.staticNr = s.staticNr
  ports : CachePorts s → portNr < 32 → CachePorts s'

/-- A failed assertion apart, `oroute_find_ent` keeps the lists and gives a route of the port. -/
theorem orouteFindEnt_linked (linked : Linked s s.Inuse nws) (currtim portNr : Nat)
    (dest : UInt32) :
    orouteFindEnt s currtim portNr dest = none ∨
      ∃ s' route, orouteFindEnt s currtim portNr dest = some (s', route) ∧ Finds s portNr s' route := by
  obtain ⟨linked₁, answers, forgets₁⟩ := consult_linked linked portNr dest
  unfold orouteFindEnt
  dsimp only
  cases consulted : (consult s portNr dest).2 with
  | none =>
    obtain ⟨fails, finds⟩ := findNetwork_linked linked₁ portNr dest
    by_cases clash : (consult s portNr dest).1.Clash portNr dest
    · exact .inl (fails clash)
    · obtain ⟨s', route, found, linked', inuse, table, staticNr, ports⟩ := finds clash
      refine .inr ⟨s', route, found, ⟨nws, linked'⟩, inuse, fun j used => ?_, staticNr,
        fun right fits => ports (right.forgets forgets₁) fits⟩
      unfold Orouting.Inuse at used
      rw [table] at used
      exact ⟨used, congrFun table j⟩
  | some r =>
    dsimp only
    split
    case isTrue => exact .inl rfl
    case isFalse port =>
      have used : (consult s portNr dest).1.Inuse r :=
        linked.lists.member (linked.cache _ _ r (answers r consulted)).1
      split
      case isTrue =>
        obtain ⟨s₂, nws₂, expired, linked₂, forgets₂, table₂, staticNr₂⟩ :=
          expire_linked linked₁ used
        rw [expired, Option.bind_some]
        obtain ⟨fails, finds⟩ := findNetwork_linked linked₂ portNr dest
        by_cases clash : s₂.Clash portNr dest
        · exact .inl (fails clash)
        · obtain ⟨s', route, found, linked', inuse, table, staticNr, ports⟩ := finds clash
          refine .inr ⟨s', route, found, ⟨nws₂, linked'⟩, inuse, fun j used' => ?_,
            staticNr.trans staticNr₂,
            fun right fits => ports (right.forgets (forgets₁.trans forgets₂)) fits⟩
          unfold Orouting.Inuse at used'
          rw [table, table₂] at used' ⊢
          by_cases same : j = r
          · subst same
            rw [update_self] at used'
            cases used'
          · rw [update_of_ne same] at used' ⊢
            exact ⟨used', rfl⟩
      case isFalse =>
        refine .inr ⟨_, some r, rfl, ⟨nws, linked₁⟩, fun r' same => ?_, fun j used => ⟨used, rfl⟩,
          rfl, fun right _ => right.forgets forgets₁⟩
        cases same
        exact ⟨used, not_not.mp port⟩

/-- With fewer than 32 ports an assertion fails only if networks clash in the search. -/
theorem orouteFindEnt_none_iff (linked : Linked s s.Inuse nws) (ports : CachePorts s)
    (fits : portNr < 32) :
    orouteFindEnt s currtim portNr dest = none ↔ ¬s.SearchOk currtim portNr dest := by
  obtain ⟨linked₁, answers, forgets₁⟩ := consult_linked linked portNr dest
  have decided {s₁ : Orouting} {nws₁ : List OrouteNr} (linked₁ : Linked s₁ s₁.Inuse nws₁) :
      findNetwork s₁ portNr dest = none ↔ s₁.Clash portNr dest := by
    obtain ⟨fails, finds⟩ := findNetwork_linked linked₁ portNr dest
    refine ⟨fun none => ?_, fails⟩
    by_contra clear
    obtain ⟨s', route, found, _⟩ := finds clear
    rw [none] at found
    cases found
  unfold orouteFindEnt Orouting.SearchOk
  dsimp only
  cases consulted : (consult s portNr dest).2 with
  | none =>
    dsimp only
    rw [not_not]
    exact decided linked₁
  | some r =>
    dsimp only
    have port : ((consult s portNr dest).1.table r).port = portNr :=
      (ports _ _ r (answers r consulted)).trans (askingPort_hashOroute fits)
    rw [if_neg (not_not_intro port)]
    change (if (s.table r).expired currtim = true then _ else _) = none ↔ _
    split
    case isTrue old =>
      have used : (consult s portNr dest).1.Inuse r :=
        linked.lists.member (linked.cache _ _ r (answers r consulted)).1
      obtain ⟨s₂, nws₂, expired, linked₂, _⟩ := expire_linked linked₁ used
      rw [expired, Option.bind_some, decided linked₂]
      constructor
      · exact fun clash clear => clear old s₂ rfl clash
      · intro clash
        by_contra clear
        refine clash fun _ s' same => ?_
        rw [← Option.some.inj same]
        exact clear
    case isFalse young =>
      exact iff_of_false (fun wrong => by cases wrong) (not_not_intro fun old => absurd old young)

end Minix.Inet
