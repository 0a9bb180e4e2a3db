/-
This file develops a level of lists of lists: a list of nodes with different keys, where each node
leads to what belongs to its key.

What belongs to a key is a predicate of the node that leads to it, which is `none` where no node has
the key. One takes the node of a key out, changes what belongs to the key, puts the node that leads
to it now in front, and may then move the best node to the front.
-/

import Minix.Library.BestFirst

namespace LinkedList

open Function (update update_of_ne update_self)

variable {Node Key : Type*} [DecidableEq Node] [DecidableEq Key] {next : Node → Option Node}
  {head route : Option Node} {nodes : List Node} {node : Node} {fuel : Nat} {key : Node → Key}
  {right right' : Key → Option Node → Prop} {k : Key}

/-- The nodes of a list have different keys, and what belongs to each key is right. -/
structure Level (next : Node → Option Node) (key : Node → Key) (right : Key → Option Node → Prop)
    (head : Option Node) (nodes : List Node) : Prop where
  chain : Chain next head nodes
  distinct : (nodes.map key).Nodup
  right : ∀ k, right k (nodes.find? fun node => key node = k)

omit [DecidableEq Node] in
theorem find?_key_eq_some (distinct : (nodes.map key).Nodup) :
    (nodes.find? fun node => key node = k) = some node ↔ node ∈ nodes ∧ key node = k := by
  constructor
  · intro found
    exact ⟨List.mem_of_find?_eq_some found, by simpa using List.find?_some found⟩
  · rintro ⟨member, rfl⟩
    cases found : nodes.find? fun other => key other = key node with
    | none =>
      have missed := List.find?_eq_none.mp found node member
      simp at missed
    | some other =>
      have same : key other = key node := by simpa using List.find?_some found
      rw [List.inj_on_of_nodup_map distinct (List.mem_of_find?_eq_some found) member same]

omit [DecidableEq Node] in
theorem find?_key_eq_none :
    (nodes.find? fun node => key node = k) = none ↔ ∀ node ∈ nodes, key node ≠ k := by
  simp

namespace Level

omit [DecidableEq Node] in
theorem of_mem (level : Level next key right head nodes) (member : node ∈ nodes) :
    right (key node) (some node) := by
  rw [← (find?_key_eq_some level.distinct).mpr ⟨member, rfl⟩]
  exact level.right (key node)

omit [DecidableEq Node] in

omit [DecidableEq Node] in
/-- A change of the pointers of other nodes, and of what is right, keeps a level. -/
theorem congr (level : Level next key right head nodes) {next' : Node → Option Node}
    {key' : Node → Key} (pointers : ∀ node ∈ nodes, next' node = next node)
    (keys : ∀ node ∈ nodes, key' node = key node) (kept : ∀ k r, right k r → right' k r) :
    Level next' key' right' head nodes := by
  have map : nodes.map key' = nodes.map key := List.map_congr_left keys
  refine ⟨level.chain.congr pointers, map ▸ level.distinct, fun k => ?_⟩
  have same : (nodes.find? fun node => key' node = k) = nodes.find? fun node => key node = k := by
    cases found : nodes.find? fun node => key node = k with
    | none =>
      refine find?_key_eq_none.mpr fun node member => ?_
      rw [keys node member]
      exact find?_key_eq_none.mp found node member
    | some node =>
      obtain ⟨member, here⟩ := (find?_key_eq_some level.distinct).mp found
      exact (find?_key_eq_some (map ▸ level.distinct)).mpr ⟨member, keys node member ▸ here⟩
  rw [same]
  exact kept _ _ (level.right k)

/-- The node of a key is taken out, and the rest is a level without the key. -/
theorem takeOut_eq (level : Level next key right head nodes) (enough : nodes.length ≤ fuel)
    (k : Key) :
    ∃ route next' head' rest,
      takeOut next (fun node => key node = k) fuel head = some (route, next', head') ∧
      Level next' key (update right k fun r => r = none) head' rest ∧
      right k route ∧ (∀ node ∈ route, key node = k) ∧
      (∀ node, node ∈ nodes ↔ node ∈ route ∨ node ∈ rest) ∧ (∀ node ∈ rest, key node ≠ k) ∧
      ∀ other ∉ rest, next' other = next other := by
  have here := level.right k
  cases found : nodes.find? fun node => key node = k with
  | none =>
    have absent := find?_key_eq_none.mp found
    rw [found] at here
    refine ⟨none, next, head, nodes, level.chain.takeOut_none enough fun node member => ?_,
      ⟨level.chain, level.distinct, fun other => ?_⟩, here, fun node none => ?_, fun node => ?_,
      absent, fun _ _ => rfl⟩
    · exact decide_eq_false (absent node member)
    · by_cases same : other = k
      · subst same
        rw [update_self]
        exact found
      · rw [update_of_ne same]
        exact level.right other
    · cases none
    · exact ⟨Or.inr, fun either => either.resolve_left fun wrong => by cases wrong⟩
  | some node =>
    obtain ⟨member, keyed⟩ := (find?_key_eq_some level.distinct).mp found
    rw [found] at here
    obtain ⟨front, back, rfl⟩ := List.append_of_mem member
    have distinct := level.distinct
    have perm : (front ++ node :: back).Perm (node :: (front ++ back)) := List.perm_middle
    have apart := (perm.map key).nodup_iff.mp distinct
    rw [List.map_cons, List.nodup_cons] at apart
    have absent : ∀ other ∈ front ++ back, key other ≠ k := fun other inside same =>
      apart.1 (List.mem_map.mpr ⟨other, inside, same.trans keyed.symm⟩)
    have missed : ∀ other ∈ front, decide (key other = k) = false := fun other inside =>
      decide_eq_false (absent other (List.mem_append_left _ inside))
    obtain ⟨next', head', taken, chain, frame⟩ :=
      @Chain.takeOut_eq _ _ _ _ _ _ _ _ level.chain enough (fun node => key node = k)
        (decide_eq_true keyed) missed
    refine ⟨some node, next', head', front ++ back, taken, ⟨chain, apart.2, fun other => ?_⟩, here,
      fun node' same => ?_, fun other => ?_, absent, fun other outside => ?_⟩
    · by_cases same : other = k
      · subst same
        rw [update_self]
        exact find?_key_eq_none.mpr absent
      · rw [update_of_ne same]
        have others := level.right other
        rw [List.find?_append, List.find?_cons_of_neg, ← List.find?_append] at others
        · exact others
        · exact fun wrong => same ((of_decide_eq_true wrong).symm.trans keyed)
    · rw [← Option.some.inj same]
      exact keyed
    · rw [perm.mem_iff, List.mem_cons, Option.mem_some_iff]
      exact or_congr_left eq_comm
    · exact frame other fun inside => outside (List.mem_append_left _ inside)

/-- The node that leads to what belongs to a key is put in front of a level without the key. -/
theorem putFirst (level : Level next key (update right k fun r => r = none) head nodes)
    (kept : ∀ other ≠ k, ∀ r, right other r → right' other r) (here : right' k route)
    (keyed : ∀ node ∈ route, key node = k) :
    Level (putFirst next route head).1 key right' (LinkedList.putFirst next route head).2
      (route.toList ++ nodes) := by
  have absent : ∀ node ∈ nodes, key node ≠ k := by
    have none := level.right k
    rw [update_self] at none
    exact find?_key_eq_none.mp none
  have others : ∀ other ≠ k, right' other (nodes.find? fun node => key node = other) := by
    intro other apart
    have before := level.right other
    rw [update_of_ne apart] at before
    exact kept other apart _ before
  refine ⟨level.chain.putFirst fun node same inside => absent node inside (keyed node same), ?_,
    fun other => ?_⟩
  · cases route with
    | none => exact level.distinct
    | some node =>
      refine List.nodup_cons.mpr ⟨fun inside => ?_, level.distinct⟩
      obtain ⟨twin, member, same⟩ := List.mem_map.mp inside
      exact absent twin member (same.trans (keyed node rfl))
  · by_cases same : other = k
    · subst same
      cases route with
      | none =>
        rw [Option.toList_none, List.nil_append, find?_key_eq_none.mpr absent]
        exact here
      | some node =>
        rw [Option.toList_some, List.singleton_append, List.find?_cons_of_pos]
        · exact here
        · exact decide_eq_true (keyed node rfl)
    · cases route with
      | none => exact others other same
      | some node =>
        rw [Option.toList_some, List.singleton_append, List.find?_cons_of_neg]
        · exact others other same
        · exact fun wrong => same ((of_decide_eq_true wrong).symm.trans (keyed node rfl))

/-- The best node is moved to the front, and the level is the same otherwise. -/
theorem sortBest_eq (level : Level next key right head nodes) {better : Node → Node → Bool}
    (irreflexive : ∀ a, better a a = false)
    (transitive : ∀ a b c, better a b = true → better b c = true → better a c = true)
    (enough : nodes.length ≤ fuel) :
    ∃ next' nodes', sortBest next better fuel head = some (next', nodes'.head?) ∧
      Level next' key right nodes'.head? nodes' ∧ nodes'.Perm nodes ∧
      (∀ other ∉ nodes, next' other = next other) ∧
      ∀ b ∈ nodes'.head?, ∀ other ∈ nodes, better other b = false := by
  obtain ⟨next', nodes', sorted, chain, perm, frame, best⟩ :=
    level.chain.sortBest_eq irreflexive transitive enough
  have distinct := (perm.map key).nodup_iff.mpr level.distinct
  refine ⟨next', nodes', sorted, ⟨chain, distinct, fun k => ?_⟩, perm, frame, best⟩
  have same : (nodes'.find? fun node => key node = k) = nodes.find? fun node => key node = k := by
    refine Option.ext fun node => ?_
    rw [find?_key_eq_some distinct, find?_key_eq_some level.distinct, perm.mem_iff]
  rw [same]
  exact level.right k

end Level

end LinkedList
