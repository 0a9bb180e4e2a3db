/-
This file develops singly linked lists that live in a table: every node holds an optional
successor, and a list is what one visits by following the successors from a head pointer.

`Chain next head nodes` says that the pointers from `head` visit exactly `nodes` and then
stop. A chain is determined by its head, so it never repeats a node, and the four pointer
assignments that programs make (push, append, unlink, overwrite a foreign node) have one
lemma each. `scan` is the loop that walks a list until a node is found; it carries fuel,
and on a finite table the number of nodes is enough fuel for every walk that ends at all.
-/

import Mathlib.Data.Fintype.Card
import Mathlib.Data.List.Nodup
import Mathlib.Logic.Function.Basic
import Mathlib.Data.Fintype.EquivFin
import Mathlib.Logic.Relation
import Mathlib.Order.Fin.Basic
import Mathlib.Data.Fintype.Order

namespace LinkedList

open Function (update update_of_ne update_self)

variable {Node : Type*} {head previous : Option Node} {nodes : List Node} {node : Node}
  {fuel : Nat}

/-! ### Chains -/

/-- Following `next` from `head` visits exactly the given nodes, in order, and then stops. -/
def Chain (next : Node → Option Node) : Option Node → List Node → Prop
  | head, [] => head = none
  | head, node :: rest => head = some node ∧ Chain next (next node) rest

@[simp] theorem chain_nil {next : Node → Option Node} :
    Chain next head [] ↔ head = none := Iff.rfl

@[simp] theorem chain_cons {next : Node → Option Node} {rest : List Node} :
    Chain next head (node :: rest) ↔ head = some node ∧ Chain next (next node) rest := Iff.rfl

instance [DecidableEq Node] (next : Node → Option Node) :
    ∀ (head : Option Node) (nodes : List Node), Decidable (Chain next head nodes)
  | head, [] => inferInstanceAs (Decidable (head = none))
  | head, node :: rest =>
    have : Decidable (Chain next (next node) rest) :=
      instDecidableChainOfDecidableEq next (next node) rest
    inferInstanceAs (Decidable (head = some node ∧ Chain next (next node) rest))

theorem Chain.head_eq {next : Node → Option Node} (chain : Chain next head nodes) :
    head = nodes.head? := by
  cases nodes with
  | nil => simpa using chain
  | cons node rest => simpa using chain.1

theorem Chain.unique {next : Node → Option Node} {first second : List Node}
    (firstChain : Chain next head first) (secondChain : Chain next head second) :
    first = second := by
  induction first generalizing head second with
  | nil =>
    rw [chain_nil] at firstChain
    have empty := secondChain.head_eq
    rw [firstChain] at empty
    exact (List.head?_eq_none_iff.mp empty.symm).symm
  | cons node rest inductionHypothesis =>
    cases second with
    | nil =>
      rw [chain_nil] at secondChain
      exact absurd (firstChain.1.symm.trans secondChain) (by simp)
    | cons other others =>
      obtain ⟨firstHead, firstRest⟩ := firstChain
      obtain ⟨secondHead, secondRest⟩ := secondChain
      obtain rfl : node = other := Option.some.inj (firstHead.symm.trans secondHead)
      rw [inductionHypothesis firstRest secondRest]

/-- The part of a chain behind one of its nodes is the chain of that node's successor. -/
theorem Chain.behind {next : Node → Option Node} {front back : List Node}
    (chain : Chain next head (front ++ node :: back)) :
    Chain next (next node) back := by
  induction front generalizing head with
  | nil => exact chain.2
  | cons first rest inductionHypothesis => exact inductionHypothesis chain.2

/-- No node is visited twice: the two visits would have the same remaining chain. -/
theorem Chain.nodup {next : Node → Option Node} (chain : Chain next head nodes) : nodes.Nodup := by
  induction nodes generalizing head with
  | nil => exact List.nodup_nil
  | cons node rest inductionHypothesis =>
    refine List.nodup_cons.mpr ⟨fun member => ?_, inductionHypothesis chain.2⟩
    obtain ⟨front, back, split⟩ := List.append_of_mem member
    have shorter : Chain next (next node) back := by
      have whole := chain.2
      rw [split] at whole
      exact whole.behind
    have same := shorter.unique chain.2
    have lengths := congrArg List.length split
    rw [← same, List.length_append, List.length_cons] at lengths
    omega

theorem Chain.congr {next next' : Node → Option Node} (chain : Chain next head nodes)
    (agree : ∀ node ∈ nodes, next' node = next node) :
    Chain next' head nodes := by
  induction nodes generalizing head with
  | nil => exact chain
  | cons node rest inductionHypothesis =>
    refine ⟨chain.1, ?_⟩
    rw [agree node (by simp)]
    exact inductionHypothesis chain.2 fun other member => agree other (by simp [member])

theorem Chain.length_le [Fintype Node] {next : Node → Option Node} (chain : Chain next head nodes) :
    nodes.length ≤ Fintype.card Node :=
  chain.nodup.length_le_card

/-! ### Pointer assignments -/

section Assignments

variable [DecidableEq Node] {next : Node → Option Node}

/-- Writing the successor of a node that is not visited leaves the chain alone. -/
theorem Chain.update_of_notMem (chain : Chain next head nodes) (fresh : node ∉ nodes)
    (successor : Option Node) :
    Chain (update next node successor) head nodes :=
  chain.congr fun _ member =>
    update_of_ne (ne_of_mem_of_not_mem member fresh) successor next

theorem Chain.push (chain : Chain next head nodes) (fresh : node ∉ nodes) :
    Chain (update next node head) (some node) (node :: nodes) := by
  refine ⟨rfl, ?_⟩
  rw [update_self]
  exact chain.update_of_notMem fresh head

theorem chain_singleton (next : Node → Option Node) (node : Node) :
    Chain (update next node none) (some node) [node] := by simp

/-- Appending a fresh node behind the last node: the last node is linked to it, and its own
successor is cleared. -/
theorem Chain.append {front : List Node} {last : Node} (chain : Chain next head (front ++ [last]))
    (fresh : node ∉ front ++ [last]) :
    Chain (update (update next last (some node)) node none) head
      (front ++ [last] ++ [node]) := by
  induction front generalizing head with
  | nil =>
    have apart : last ≠ node := fun same => fresh (by simp [same])
    refine ⟨chain.1, ?_⟩
    rw [update_of_ne apart, update_self]
    simp
  | cons first rest inductionHypothesis =>
    have nodup := chain.nodup
    have apartNode : first ≠ node := fun same => fresh (by simp [same])
    have apartLast : first ≠ last := fun same => by simp [same] at nodup
    refine ⟨chain.1, ?_⟩
    rw [update_of_ne apartNode, update_of_ne apartLast]
    exact inductionHypothesis chain.2 fun member => fresh (by simp at member ⊢; tauto)

theorem Chain.unlink {front back : List Node} {previous node : Node}
    (chain : Chain next head (front ++ previous :: node :: back)) :
    Chain (update next previous (next node)) head (front ++ previous :: back) := by
  induction front generalizing head with
  | nil =>
    have nodup := chain.nodup
    refine ⟨chain.1, ?_⟩
    rw [update_self]
    refine Chain.update_of_notMem chain.2.2 (fun member => ?_) _
    simp [member] at nodup
  | cons first rest inductionHypothesis =>
    have nodup := chain.nodup
    have apart : first ≠ previous := fun same => by simp [same] at nodup
    refine ⟨chain.1, ?_⟩
    rw [update_of_ne apart]
    exact inductionHypothesis chain.2

end Assignments

/-! ### Walking a list -/

/-- The loop that walks a list until a node is found. It returns the node together with the
node before it, `some none` at the end of the list, and `none` when the fuel runs out. -/
def scan (next : Node → Option Node) (found : Node → Bool) :
    Nat → Option Node → Option Node → Option (Option (Option Node × Node))
  | _, _, none => some none
  | 0, _, some _ => none
  | fuel + 1, previous, some node =>
    if found node then some (some (previous, node))
    else scan next found fuel (some node) (next node)

/-- What a walk over the given nodes finds. -/
def locate (found : Node → Bool) : Option Node → List Node → Option (Option Node × Node)
  | _, [] => none
  | previous, node :: rest =>
    if found node then some (previous, node) else locate found (some node) rest

theorem Chain.scan_eq {next : Node → Option Node} (chain : Chain next head nodes)
    (found : Node → Bool) (enough : nodes.length ≤ fuel) (previous : Option Node) :
    scan next found fuel previous head = some (locate found previous nodes) := by
  induction nodes generalizing head fuel previous with
  | nil =>
    rw [chain_nil] at chain
    subst chain
    cases fuel <;> rfl
  | cons node rest inductionHypothesis =>
    obtain ⟨rfl, behind⟩ := chain
    cases fuel with
    | zero => simp at enough
    | succ fuel =>
      rw [scan, locate]
      split
      · rfl
      · exact inductionHypothesis behind (by simpa using enough) (some node)

theorem locate_eq_none {found : Node → Bool} :
    locate found previous nodes = none ↔ ∀ node ∈ nodes, found node = false := by
  induction nodes generalizing previous with
  | nil => simp [locate]
  | cons node rest inductionHypothesis =>
    cases hit : found node <;> simp [locate, hit, inductionHypothesis]

/-- A located node is the first one that is found, and it comes with the node before it. -/
theorem locate_eq_some {found : Node → Bool} {previous before : Option Node}
    (hit : locate found previous nodes = some (before, node)) :
    ∃ front back, nodes = front ++ node :: back ∧ found node = true ∧
      (∀ other ∈ front, found other = false) ∧ before = front.getLast?.or previous := by
  induction nodes generalizing previous with
  | nil => simp [locate] at hit
  | cons first rest inductionHypothesis =>
    rw [locate] at hit
    split at hit
    case isTrue firstFound =>
      obtain ⟨rfl, rfl⟩ : previous = before ∧ first = node := by simpa using hit
      exact ⟨[], rest, rfl, firstFound, by simp, rfl⟩
    case isFalse firstMissed =>
      obtain ⟨front, back, rfl, nodeFound, missed, rfl⟩ := inductionHypothesis hit
      refine ⟨first :: front, back, rfl, nodeFound, ?_, ?_⟩
      · simpa [firstMissed] using missed
      · cases front <;> simp [List.getLast?_cons]

theorem find_of_locate {found : Node → Bool} {previous before : Option Node}
    (hit : locate found previous nodes = some (before, node)) :
    nodes.find? found = some node := by
  obtain ⟨front, back, rfl, nodeFound, missed, -⟩ := locate_eq_some hit
  rw [List.find?_eq_some_iff_append]
  exact ⟨nodeFound, front, back, rfl, by simpa using missed⟩

/-- The walk for a node without a successor finds the last node of a chain. -/
theorem Chain.scan_last {next : Node → Option Node} {front : List Node} {last : Node}
    (chain : Chain next head (front ++ [last])) (enough : (front ++ [last]).length ≤ fuel)
    (previous : Option Node) :
    ∃ before, scan next (fun node => (next node).isNone) fuel previous head =
      some (some (before, last)) := by
  rw [chain.scan_eq _ enough]
  clear enough
  induction front generalizing head previous with
  | nil =>
    have atEnd : next last = none := chain.2
    exact ⟨previous, by simp [locate, atEnd]⟩
  | cons first rest inductionHypothesis =>
    have follows : (next first).isNone = false := by
      rw [chain.2.head_eq]
      cases rest <;> rfl
    obtain ⟨before, found⟩ := inductionHypothesis chain.2 (some first)
    refine ⟨before, ?_⟩
    rw [List.cons_append, locate, follows]
    exact found

/-- A walk that starts behind the first node of a list splits the list in front of the node it
locates. -/
theorem locate_behind {found : Node → Bool} {first node : Node} {rest : List Node}
    {before : Option Node} (hit : locate found (some first) rest = some (before, node)) :
    ∃ ahead previous back, first :: rest = ahead ++ previous :: node :: back ∧
      before = some previous ∧ found node = true := by
  obtain ⟨front, back, rfl, nodeFound, -, rfl⟩ := locate_eq_some hit
  rcases List.eq_nil_or_concat front with rfl | ⟨ahead, previous, rfl⟩
  · exact ⟨[], first, back, rfl, rfl, nodeFound⟩
  · exact ⟨first :: ahead, previous, back, by simp, by simp, nodeFound⟩

/-- Erasing a node of a list without repetitions removes it where it stands. -/
theorem erase_middle [DecidableEq Node] {front back : List Node}
    (nodup : (front ++ node :: back).Nodup) :
    (front ++ node :: back).erase node = front ++ back := by
  have absent : node ∉ front := fun member =>
    (List.nodup_append.mp nodup).2.2 node member node (by simp) rfl
  rw [List.erase_append_right _ absent, List.erase_cons_head]

/-! ### Termination of a walk -/

/-- The successor that a walk really follows: it stops at a node that is found. -/
def halting (next : Node → Option Node) (found : Node → Bool) (node : Node) : Option Node :=
  if found node then none else next node

/-- A walk ends within its fuel exactly when the pointers it follows form a chain that the
fuel covers. -/
theorem scan_isSome_iff {next : Node → Option Node} {found : Node → Bool} :
    (scan next found fuel previous head).isSome ↔
      ∃ nodes, Chain (halting next found) head nodes ∧ nodes.length ≤ fuel := by
  induction fuel generalizing previous head with
  | zero =>
    cases head with
    | none => simp [scan]
    | some node =>
      simp only [scan, Option.isSome_none, Bool.false_eq_true, false_iff, not_exists, not_and]
      intro nodes chain short
      rw [List.length_eq_zero_iff.mp (Nat.le_zero.mp short)] at chain
      simp at chain
  | succ fuel inductionHypothesis =>
    cases head with
    | none => exact ⟨fun _ => ⟨[], rfl, by simp⟩, fun _ => by simp [scan]⟩
    | some node =>
      rw [scan]
      split
      case isTrue hit =>
        refine ⟨fun _ => ⟨[node], ⟨rfl, ?_⟩, by simp⟩, fun _ => rfl⟩
        simp [halting, hit]
      case isFalse miss =>
        have follow : halting next found node = next node := by simp [halting, miss]
        rw [inductionHypothesis]
        constructor
        · rintro ⟨nodes, chain, short⟩
          refine ⟨node :: nodes, ⟨rfl, ?_⟩, by simpa using short⟩
          rwa [follow]
        · rintro ⟨nodes, chain, short⟩
          cases nodes with
          | nil => simp at chain
          | cons other rest =>
            obtain ⟨same, behind⟩ := chain
            obtain rfl := Option.some.inj same
            rw [follow] at behind
            exact ⟨rest, behind, by simpa using short⟩

/-- On a finite table a walk that outlasts the number of nodes never ends. -/
theorem scan_eq_none_of_card [Fintype Node] {next : Node → Option Node} {found : Node → Bool}
    (exhausted : scan next found (Fintype.card Node) previous head = none) (fuel : Nat) :
    scan next found fuel previous head = none := by
  rw [← Option.not_isSome_iff_eq_none, scan_isSome_iff] at exhausted ⊢
  rintro ⟨nodes, chain, -⟩
  exact exhausted ⟨nodes, chain, chain.length_le⟩

/-- What holds of the start of a walk and is kept along its pointers holds of what it finds, and of
the node in front of that. -/
theorem scan_found {next : Node → Option Node} {found : Node → Bool}
    {previous head before : Option Node} (property : Node → Prop)
    (start : ∀ p, previous = some p → property p) (first : ∀ p, head = some p → property p)
    (links : ∀ p q, property p → next p = some q → property q)
    (result : scan next found fuel previous head = some (some (before, node))) :
    found node = true ∧ property node ∧ ∀ p, before = some p → property p := by
  induction fuel generalizing previous head with
  | zero =>
    cases head with
    | none => simp [scan] at result
    | some p => simp [scan] at result
  | succ fuel inductionHypothesis =>
    cases head with
    | none => simp [scan] at result
    | some p =>
      rw [scan] at result
      split at result
      case isTrue hit =>
        simp only [Option.some.injEq, Prod.mk.injEq] at result
        obtain ⟨rfl, rfl⟩ := result
        exact ⟨hit, first p rfl, start⟩
      case isFalse =>
        refine inductionHypothesis (fun q same => ?_) (fun q => links p q (first p rfl)) result
        obtain rfl := Option.some.inj same
        exact first p rfl

/-- One pointer step. -/
def Link (next : Node → Option Node) (source target : Node) : Prop := next source = some target

/-- No node leads back to itself. -/
def Acyclic (next : Node → Option Node) : Prop := ∀ node, ¬ Relation.TransGen (Link next) node node

theorem Acyclic.fewer {next next' : Node → Option Node} (acyclic : Acyclic next)
    (fewer : ∀ a b, next' a = some b → next a = some b) : Acyclic next' :=
  fun a cycle => acyclic a (Relation.TransGen.mono fewer a a cycle)

/-- A path in a relation with one more edge either avoids the edge or leads to and from it. -/
theorem transGen_of_edge {relation relation' : Node → Node → Prop} {source target : Node}
    (added : ∀ a b, relation' a b → relation a b ∨ a = source ∧ b = target) {a b : Node}
    (path : Relation.TransGen relation' a b) :
    Relation.TransGen relation a b ∨
      Relation.ReflTransGen relation a source ∧ Relation.ReflTransGen relation target b := by
  induction path with
  | single edge =>
    rcases added _ _ edge with old | ⟨rfl, rfl⟩
    · exact .inl (.single old)
    · exact .inr ⟨.refl, .refl⟩
  | tail _ edge inductionHypothesis =>
    rcases added _ _ edge with old | ⟨rfl, rfl⟩
    · exact inductionHypothesis.imp (fun path => path.tail old)
        fun ⟨before, after⟩ => ⟨before, after.tail old⟩
    · rcases inductionHypothesis with path | ⟨before, -⟩
      · exact .inr ⟨path.to_reflTransGen, .refl⟩
      · exact .inr ⟨before, .refl⟩

/-- A new pointer closes no cycle when its target does not lead to its source. -/
theorem Acyclic.addEdge {next next' : Node → Option Node} (acyclic : Acyclic next)
    (source target : Node)
    (added : ∀ a b, next' a = some b → next a = some b ∨ a = source ∧ b = target)
    (apart : ¬ Relation.ReflTransGen (Link next) target source) : Acyclic next' := by
  intro a cycle
  rcases transGen_of_edge added cycle with old | ⟨before, after⟩
  · exact acyclic a old
  · exact apart (after.trans before)

theorem Chain.mem_of_link {next : Node → Option Node} (chain : Chain next head nodes)
    {source target : Node} (member : source ∈ nodes) (link : Link next source target) :
    target ∈ nodes := by
  obtain ⟨front, back, rfl⟩ := List.append_of_mem member
  have behind := chain.behind.head_eq
  rw [show next source = some target from link] at behind
  have first : target ∈ back := List.mem_of_head? behind.symm
  simp [first]

theorem not_transGen_of_scan [DecidableEq Node] {next : Node → Option Node} {source target : Node}
    (missed : scan next (· == target) fuel previous (next source) = some none) :
    ¬ Relation.TransGen (Link next) source target := by
  have visited : ∀ fuel previous head, scan next (· == target) fuel previous head = some none →
      ∃ nodes, Chain next head nodes ∧ target ∉ nodes := by
    intro fuel
    induction fuel with
    | zero =>
      intro previous head missed
      cases head with
      | none => exact ⟨[], rfl, by simp⟩
      | some node => simp [scan] at missed
    | succ fuel inductionHypothesis =>
      intro previous head missed
      cases head with
      | none => exact ⟨[], rfl, by simp⟩
      | some node =>
        rw [scan] at missed
        split at missed
        case isTrue => simp at missed
        case isFalse apart =>
          obtain ⟨nodes, chain, absent⟩ := inductionHypothesis _ _ missed
          refine ⟨node :: nodes, ⟨rfl, chain⟩, ?_⟩
          simp only [List.mem_cons, not_or]
          exact ⟨fun same => apart (by simp [same]), absent⟩
  obtain ⟨nodes, chain, absent⟩ := visited _ _ _ missed
  intro path
  refine absent ?_
  clear missed absent visited
  induction path with
  | single link =>
    have first := chain.head_eq
    rw [show next source = some _ from link] at first
    exact List.mem_of_head? first.symm
  | tail _ link inductionHypothesis => exact chain.mem_of_link inductionHypothesis link

theorem exists_chain_of_acyclic [Finite Node] {next : Node → Option Node}
    (acyclic : Acyclic next)
    (head : Option Node) : ∃ nodes, Chain next head nodes := by
  let Behind : Node → Node → Prop :=
    fun target source => Relation.TransGen (Link next) source target
  have : IsTrans Node Behind := ⟨fun _ _ _ first second => second.trans first⟩
  have : Std.Irrefl Behind := ⟨acyclic⟩
  have wellFounded : WellFounded Behind := Finite.wellFounded_of_trans_of_irrefl Behind
  have fromNode : ∀ node, ∃ nodes, Chain next (next node) nodes := by
    intro node
    induction node using wellFounded.induction with
    | _ node inductionHypothesis =>
      cases successor : next node with
      | none => exact ⟨[], rfl⟩
      | some other =>
        obtain ⟨nodes, chain⟩ := inductionHypothesis other (.single successor)
        exact ⟨other :: nodes, rfl, chain⟩
  cases head with
  | none => exact ⟨[], rfl⟩
  | some node =>
    obtain ⟨nodes, chain⟩ := fromNode node
    exact ⟨node :: nodes, rfl, chain⟩

/-- Without a cycle every walk ends, and the number of nodes is enough fuel. -/
theorem scan_isSome_of_acyclic [Fintype Node] {next : Node → Option Node}
    (acyclic : Acyclic next)
    (found : Node → Bool) (previous head : Option Node) :
    (scan next found (Fintype.card Node) previous head).isSome := by
  obtain ⟨nodes, chain⟩ := exists_chain_of_acyclic acyclic head
  rw [chain.scan_eq found chain.length_le previous]
  rfl

end LinkedList
