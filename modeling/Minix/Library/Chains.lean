/-
This file develops a family of singly linked lists that share one successor field, as when the
cells of one table are on several queues. No cell is on two lists.
-/

import Minix.Library.LinkedList

namespace LinkedList

open Function (update update_of_ne update_self update_eq_self update_eq_self_iff)

variable {Node Index : Type*}

/-- The nodes that the pointers from a head visit, as far as the fuel goes. -/
def visited (next : Node → Option Node) : Nat → Option Node → List Node
  | 0, _ => []
  | _ + 1, none => []
  | fuel + 1, some node => node :: visited next fuel (next node)

theorem Chain.visited_eq {next : Node → Option Node} {head : Option Node} {nodes : List Node}
    (chain : Chain next head nodes) {fuel : Nat} (enough : nodes.length ≤ fuel) :
    visited next fuel head = nodes := by
  induction nodes generalizing head fuel with
  | nil =>
    rw [chain_nil] at chain
    rw [chain]
    cases fuel <;> rfl
  | cons node rest inductionHypothesis =>
    obtain ⟨rfl, behind⟩ := chain
    cases fuel with
    | zero => cases enough
    | succ fuel =>
      rw [visited, inductionHypothesis behind (Nat.le_of_succ_le_succ enough)]

/-- From its head each list visits the given nodes, and the lists have no node in common. -/
structure Chains (next : Node → Option Node) (head : Index → Option Node)
    (lists : Index → List Node) : Prop where
  chain : ∀ index, Chain next (head index) (lists index)
  apart : ∀ index index' node, node ∈ lists index → node ∈ lists index' → index = index'

namespace Chains

variable {next next' : Node → Option Node} {head : Index → Option Node}
  {lists : Index → List Node} {index : Index} {node last : Node} {front back rest : List Node}

theorem congr (chains : Chains next head lists)
    (agree : ∀ index, ∀ node ∈ lists index, next' node = next node) : Chains next' head lists :=
  ⟨fun index => (chains.chain index).congr (agree index), chains.apart⟩

theorem notMem_of_mem (chains : Chains next head lists) (member : node ∈ lists index)
    {other : Index} (distinct : other ≠ index) : node ∉ lists other :=
  fun member' => distinct (chains.apart other index node member' member)

section Edit

variable [DecidableEq Index]

section

variable (chains : Chains next head lists)
include chains

/-- A list is replaced by another with some of its nodes and nodes of no other list. -/
theorem replace (index : Index) {nodes : List Node} {first : Option Node}
    (chain : Chain next' first nodes)
    (agree : ∀ other ≠ index, ∀ node ∈ lists other, next' node = next node)
    (apart : ∀ other ≠ index, ∀ node ∈ lists other, node ∉ nodes) :
    Chains next' (update head index first) (update lists index nodes) where
  chain other := by
    by_cases same : other = index
    · subst same
      rw [update_self, update_self]
      exact chain
    · rw [update_of_ne same, update_of_ne same]
      exact (chains.chain other).congr (agree other same)
  apart first second node member member' := by
    by_cases same : first = index
    · by_cases same' : second = index
      · rw [same, same']
      · rw [same, update_self] at member
        rw [update_of_ne same'] at member'
        exact absurd member (apart second same' node member')
    · rw [update_of_ne same] at member
      by_cases same' : second = index
      · rw [same', update_self] at member'
        exact absurd member' (apart first same node member)
      · rw [update_of_ne same'] at member'
        exact chains.apart first second node member member'

theorem pop (here : lists index = node :: rest) :
    Chains next (update head index (next node)) (update lists index rest) := by
  have chain := chains.chain index
  rw [here] at chain
  refine chains.replace index chain.2 (fun _ _ _ _ => rfl) fun other distinct node'
    member inside => ?_
  have inside' : node' ∈ lists index := here ▸ List.mem_cons_of_mem _ inside
  exact chains.notMem_of_mem inside' distinct member

theorem single (fresh : ∀ index, node ∉ lists index) (ends : next node = none) :
    Chains next (update head index (some node)) (update lists index [node]) := by
  refine chains.replace index ⟨rfl, ends⟩ (fun _ _ _ _ => rfl) fun other _ node' member inside => ?_
  obtain rfl := List.mem_singleton.mp inside
  exact fresh other member

end

variable [DecidableEq Node]

section

variable (chains : Chains next head lists)
include chains

theorem push (index : Index) (fresh : ∀ index, node ∉ lists index) :
    Chains (update next node (head index)) (update head index (some node))
      (update lists index (node :: lists index)) := by
  refine chains.replace index ((chains.chain index).push (fresh index))
    (fun other _ node' member => ?_) fun other distinct node' member inside => ?_
  · exact update_of_ne (ne_of_mem_of_not_mem member (fresh other)) _ _
  · rcases List.mem_cons.mp inside with rfl | inside
    · exact fresh other member
    · exact chains.notMem_of_mem inside distinct member

/-- A node that is on no chain is appended to one. -/
theorem append (ends : (lists index).getLast? = some last) (fresh : ∀ index, node ∉ lists index)
    (alone : next node = none) :
    Chains (update next last (some node)) head
      (update lists index (lists index ++ [node])) := by
  obtain ⟨front, here⟩ := List.getLast?_eq_some_iff.mp ends
  have chain := chains.chain index
  have fresh' := fresh index
  rw [here] at chain fresh'
  have member : last ∈ lists index := by simp [here]
  have apart : node ≠ last := fun same => fresh index (same ▸ member)
  have cleared : update (update next last (some node)) node none =
      update next last (some node) := by
    rw [update_eq_self_iff, update_of_ne apart, alone]
  have longer := chain.append fresh'
  rw [cleared, ← here] at longer
  have replaced := chains.replace index longer (fun other distinct node' member' => ?_)
    fun other distinct node' member' inside => ?_
  · rwa [update_eq_self] at replaced
  · refine update_of_ne (fun same => ?_) _ _
    exact chains.notMem_of_mem member distinct (same ▸ member')
  · rcases List.mem_append.mp inside with inside | inside
    · exact chains.notMem_of_mem inside distinct member'
    · exact fresh other (List.mem_singleton.mp inside ▸ member')

theorem unlink (here : lists index = front ++ last :: node :: back) :
    Chains (update next last (next node)) head
      (update lists index (front ++ last :: back)) := by
  have chain := chains.chain index
  rw [here] at chain
  have member : last ∈ lists index := by simp [here]
  have replaced := chains.replace index chain.unlink (fun other distinct node' member' => ?_)
    fun other distinct node' member' inside => ?_
  · rwa [update_eq_self] at replaced
  · refine update_of_ne (fun same => ?_) _ _
    exact chains.notMem_of_mem member distinct (same ▸ member')
  · have inside' : node' ∈ lists index := by
      rw [here]
      simp only [List.mem_append, List.mem_cons] at inside ⊢
      tauto
    exact chains.notMem_of_mem inside' distinct member'

end

end Edit

end Chains

end LinkedList
