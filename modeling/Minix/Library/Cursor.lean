/-
This file develops singly linked lists that are edited through a cursor: a pointer to the pointer
that leads to the present node, which is the head of the list or the successor field of the node
before.

A walk moves the cursor until it points at a node that is looked for or at the end. A node is put
in where the cursor stands, or taken out there, and both are proved on the lists of nodes.
-/

import Minix.Library.LinkedList

namespace LinkedList

open Function (update update_of_ne update_self)

variable {Node : Type*}

theorem Chain.link_behind [DecidableEq Node] {next : Node → Option Node} {head : Option Node}
    {front back : List Node} {previous node : Node}
    (chain : Chain next head (front ++ previous :: back))
      (fresh : node ∉ front ++ previous :: back) :
    Chain (update (update next node (next previous)) previous (some node)) head
      (front ++ previous :: node :: back) := by
  induction front generalizing head with
  | nil =>
    have apart : node ≠ previous := fun same => fresh (by simp [same])
    have once : previous ∉ back := (List.nodup_cons.mp chain.nodup).1
    refine ⟨chain.1, ?_, ?_⟩
    · rw [update_self]
    · rw [update_of_ne apart, update_self]
      refine (chain.2.update_of_notMem (fun member => fresh ?_) _).update_of_notMem once _
      simp [member]
  | cons first front inductionHypothesis =>
    have nodup := chain.nodup
    have apart : first ≠ previous := fun same => by simp [same] at nodup
    have apart' : first ≠ node := fun same => fresh (by simp [same])
    refine ⟨chain.1, ?_⟩
    rw [update_of_ne apart, update_of_ne apart']
    exact inductionHypothesis chain.2 fun member => fresh (List.mem_cons_of_mem _ member)

/-- A list in a table: where it starts, and the successor of each node. -/
structure Links (Node : Type*) where
  head : Option Node
  next : Node → Option Node

namespace Links

/-- What a cursor points at. The cursor is the head of the list or the successor field of a
node. -/
def read (links : Links Node) : Option Node → Option Node
  | none => links.head
  | some node => links.next node

/-- The loop that moves a cursor until it points at a node to stop at, or at the end of the list.
There is no result when the fuel runs out. -/
def seek (links : Links Node) (stop : Node → Bool) : Nat → Option Node → Option (Option Node)
  | 0, _ => none
  | fuel + 1, cursor =>
    match links.read cursor with
    | none => some cursor
    | some node => if stop node then some cursor else links.seek stop fuel (some node)

/-- The list visits the given nodes. -/
def Lists (links : Links Node) (nodes : List Node) : Prop := Chain links.next links.head nodes

section Walk

variable {links : Links Node} {front back nodes : List Node} {node : Node}

theorem Lists.read_eq (lists : links.Lists (front ++ back)) :
    links.read front.getLast? = back.head? := by
  rcases List.eq_nil_or_concat front with rfl | ⟨start, last, rfl⟩
  · exact lists.head_eq
  · simp only [List.concat_eq_append, List.append_assoc, List.singleton_append] at lists
    simpa [read] using lists.behind.head_eq

theorem Lists.seek_from (lists : links.Lists (front ++ back)) (stop : Node → Bool) {fuel : Nat}
    (enough : back.length < fuel) :
    ∃ passed rest, back = passed ++ rest ∧
      links.seek stop fuel front.getLast? = some (front ++ passed).getLast? ∧
      (∀ node ∈ passed, stop node = false) ∧ ∀ node ∈ rest.head?, stop node = true := by
  induction back generalizing front fuel with
  | nil =>
    obtain ⟨fuel, rfl⟩ : ∃ more, fuel = more + 1 := ⟨fuel - 1, by simp at enough; omega⟩
    refine ⟨[], [], rfl, ?_, by simp, by simp⟩
    rw [seek, lists.read_eq]
    simp
  | cons node back inductionHypothesis =>
    obtain ⟨fuel, rfl⟩ : ∃ more, fuel = more + 1 := ⟨fuel - 1, by simp at enough; omega⟩
    rw [seek, lists.read_eq]
    cases stops : stop node with
    | true => exact ⟨[], node :: back, rfl, by simp [stops], by simp, by simpa using stops⟩
    | false =>
      have moved : links.Lists ((front ++ [node]) ++ back) := by simpa using lists
      obtain ⟨passed, rest, rfl, found, missed, next⟩ :=
        inductionHypothesis moved (by simpa using enough)
      refine ⟨node :: passed, rest, rfl, ?_, ?_, next⟩
      · simpa [stops] using found
      · simpa [stops] using missed

/-- The walk from the head of a list stops behind the nodes that it passes. -/
theorem Lists.seek_eq (lists : links.Lists nodes) (stop : Node → Bool) {fuel : Nat}
    (enough : nodes.length < fuel) :
    ∃ front back, nodes = front ++ back ∧ links.seek stop fuel none = some front.getLast? ∧
      (∀ node ∈ front, stop node = false) ∧ ∀ node ∈ back.head?, stop node = true := by
  have start : links.Lists ([] ++ nodes) := lists
  simpa using start.seek_from stop enough

end Walk

section Edit

variable [DecidableEq Node] {links : Links Node} {front back : List Node} {node : Node}
  {cursor : Option Node}

/-- Assign to the pointer that a cursor stands on. -/
def write (links : Links Node) (cursor target : Option Node) : Links Node :=
  match cursor with
  | none => { links with head := target }
  | some node => { links with next := update links.next node target }

theorem write_next_of_ne {cursor target : Option Node} (apart : cursor ≠ some node) :
    (links.write cursor target).next node = links.next node := by
  cases cursor with
  | none => rfl
  | some other => exact update_of_ne (fun same => apart (by rw [same])) _ _

/-- Take out the node that a cursor points at. -/
def remove (links : Links Node) (cursor : Option Node) (node : Node) : Links Node :=
  links.write cursor (links.next node)

/-- Put a node in where a cursor stands. -/
def insert (links : Links Node) (cursor : Option Node) (node : Node) : Links Node :=
  Links.write { links with next := update links.next node (links.read cursor) } cursor
    (some node)

theorem insert_next_cursor {previous : Node} :
    (links.insert (some previous) node).next previous = some node :=
  update_self _ _ _

theorem insert_next_self (apart : cursor ≠ some node) :
    (links.insert cursor node).next node = links.read cursor := by
  rw [insert, write_next_of_ne apart]
  exact update_self _ _ _

theorem insert_next_of_ne {other : Node} (apart : cursor ≠ some other) (distinct : other ≠ node) :
    (links.insert cursor node).next other = links.next other := by
  rw [insert, write_next_of_ne apart]
  exact update_of_ne distinct _ _

theorem remove_next_cursor {previous : Node} :
    (links.remove (some previous) node).next previous = links.next node :=
  update_self _ _ _

theorem remove_next_of_ne {other : Node} (apart : cursor ≠ some other) :
    (links.remove cursor node).next other = links.next other :=
  write_next_of_ne apart

theorem Lists.remove (lists : links.Lists (front ++ node :: back)) :
    (links.remove front.getLast? node).Lists (front ++ back) := by
  rcases List.eq_nil_or_concat front with rfl | ⟨start, last, rfl⟩
  · exact lists.2
  · simp only [List.concat_eq_append, List.append_assoc, List.singleton_append] at lists
    simpa [Lists, Links.remove, Links.write] using lists.unlink

theorem Lists.insert (lists : links.Lists (front ++ back)) (fresh : node ∉ front ++ back) :
    (links.insert front.getLast? node).Lists (front ++ node :: back) := by
  rcases List.eq_nil_or_concat front with rfl | ⟨start, last, rfl⟩
  · exact Chain.push lists fresh
  · simp only [List.concat_eq_append, List.append_assoc, List.singleton_append] at lists fresh
    simpa [Lists, Links.insert, Links.write, Links.read] using lists.link_behind fresh

end Edit

end Links

end LinkedList
