/-
This file develops lists that are linked in both directions: one chain of pointers visits the nodes
from the front, and another chain visits the same nodes from the rear.

The assignments that programs make (unlink a node, put a fresh node at the front or at the rear)
have one lemma each, with the special cases of a node without a neighbour inside.
-/

import Minix.Library.LinkedList

namespace DoublyLinked

open LinkedList (Chain)
open Function (update update_comm)

variable {Node : Type*} {next prev : Node → Option Node} {front rear : Option Node}
  {nodes before behind : List Node} {node : Node}

/-- The nodes of a list, linked in both directions. -/
structure Linked (next prev : Node → Option Node) (front rear : Option Node)
    (nodes : List Node) : Prop where
  forward : Chain next front nodes
  backward : Chain prev rear nodes.reverse

section

variable (linked : Linked next prev front rear nodes)
include linked

theorem Linked.symm :
    Linked prev next rear front nodes.reverse :=
  ⟨linked.backward, by rw [List.reverse_reverse]; exact linked.forward⟩

theorem Linked.nodup : nodes.Nodup :=
  linked.forward.nodup

theorem Linked.front_eq : front = nodes.head? :=
  linked.forward.head_eq

end

theorem Linked.next_eq (linked : Linked next prev front rear (before ++ node :: behind)) :
    next node = behind.head? := linked.forward.behind.head_eq

theorem Linked.prev_eq (linked : Linked next prev front rear (before ++ node :: behind)) :
    prev node = before.getLast? := by
  have reversed : (before ++ node :: behind).reverse =
      behind.reverse ++ node :: before.reverse := by simp
  rw [← List.head?_reverse]
  exact Linked.next_eq (reversed ▸ linked.symm)

variable [DecidableEq Node]

/-! ### Unlinking -/

/-- Let the node in front of one that is unlinked point behind it: the successor of that node, or
the front. -/
def bypassNext (next : Node → Option Node) (previous : Option Node) (successor : Option Node) :
    Node → Option Node :=
  match previous with
  | some p => update next p successor
  | none => next

def bypassFront (front previous successor : Option Node) : Option Node :=
  match previous with
  | some _ => front
  | none => successor

theorem unlink_forward (chain : Chain next front (before ++ node :: behind)) :
    Chain (bypassNext next before.getLast? (next node))
      (bypassFront front before.getLast? (next node)) (before ++ behind) := by
  rcases List.eq_nil_or_concat before with rfl | ⟨ahead, last, rfl⟩
  · exact chain.behind
  · rw [List.concat_eq_append, List.getLast?_concat]
    rw [List.concat_eq_append, List.append_assoc] at *
    exact chain.unlink

/-- Unlinking a node: its neighbours, or the ends of the list, are made to point past it. -/
theorem Linked.unlink (linked : Linked next prev front rear (before ++ node :: behind)) :
    Linked (bypassNext next (prev node) (next node)) (bypassNext prev (next node) (prev node))
      (bypassFront front (prev node) (next node)) (bypassFront rear (next node) (prev node))
      (before ++ behind) := by
  have successor := linked.next_eq
  have predecessor := linked.prev_eq
  constructor
  · have forward := unlink_forward linked.forward
    rw [← predecessor] at forward
    exact forward
  · have chain := linked.backward
    rw [List.reverse_append, List.reverse_cons, List.append_assoc, List.singleton_append] at chain
    have backward := unlink_forward chain
    rw [List.getLast?_reverse, ← successor] at backward
    rw [List.reverse_append]
    exact backward

/-! ### Linking -/

/-- The old end of a list, if there is one, points at a node that is put next to it. -/
def attach (prev : Node → Option Node) (front : Option Node) (node : Node) : Node → Option Node :=
  match front with
  | some f => update prev f (some node)
  | none => prev

def attachRear (rear front : Option Node) (node : Node) : Option Node :=
  match front with
  | some _ => rear
  | none => some node

/-- A fresh node is put in front: it points at the old front, and is pointed at from there. -/
theorem Linked.pushFront (linked : Linked next prev front rear nodes) (fresh : node ∉ nodes) :
    Linked (update next node front) (attach (update prev node none) front node) (some node)
      (attachRear rear front node) (node :: nodes) := by
  refine ⟨linked.forward.push fresh, ?_⟩
  cases nodes with
  | nil =>
    obtain rfl : front = none := linked.front_eq
    exact LinkedList.chain_singleton prev node
  | cons first rest =>
    obtain rfl : front = some first := linked.front_eq
    have apart : first ≠ node := fun same => fresh (by simp [same])
    have chain := linked.backward
    rw [List.reverse_cons] at chain
    have appended := chain.append
      (fun member => fresh (List.mem_reverse.mp (List.reverse_cons ▸ member)))
    rw [update_comm apart] at appended
    rw [List.reverse_cons, List.reverse_cons]
    exact appended

theorem Linked.pushRear (linked : Linked next prev front rear nodes) (fresh : node ∉ nodes) :
    Linked (attach (update next node none) rear node) (update prev node rear)
      (attachRear front rear node) (some node) (nodes ++ [node]) := by
  have pushed := (linked.symm.pushFront fun member =>
    fresh (List.mem_reverse.mp member)).symm
  rwa [List.reverse_cons, List.reverse_reverse] at pushed

end DoublyLinked
