/-
This file develops two loops over singly linked lists: one takes out the first node that is looked
for, the other moves the best node to the front.

Both leave the successors of nodes that are not in the list.
-/

import Minix.Library.LinkedList

namespace LinkedList

open Function (update update_of_ne)

variable {Node : Type*} [DecidableEq Node] {next : Node → Option Node} {head : Option Node}
  {nodes front back : List Node} {node : Node} {fuel : Nat}

/-! ### Taking out a node -/

/-- Take the first node that is found out of a list: the node, the pointers, and the new head. -/
def takeOut (next : Node → Option Node) (found : Node → Bool) (fuel : Nat) (head : Option Node) :
    Option (Option Node × (Node → Option Node) × Option Node) :=
  (scan next found fuel none head).map fun result =>
    match result with
    | none => (none, next, head)
    | some (none, node) => (some node, next, next node)
    | some (some previous, node) => (some node, update next previous (next node), head)

theorem takeOut_empty (found : Node → Bool) :
    takeOut next found fuel none = some (none, next, none) := by
  unfold takeOut
  cases fuel <;> rfl

theorem Chain.takeOut_none (chain : Chain next head nodes) (enough : nodes.length ≤ fuel)
    {found : Node → Bool} (missed : ∀ node ∈ nodes, found node = false) :
    takeOut next found fuel head = some (none, next, head) := by
  unfold takeOut
  rw [chain.scan_eq found enough, locate_eq_none.mpr missed]
  rfl

/-- The node is taken out of the chain, and only the successor of the node before it changes. -/
theorem Chain.takeOut_eq (chain : Chain next head (front ++ node :: back))
    (enough : (front ++ node :: back).length ≤ fuel) {found : Node → Bool}
    (hit : found node = true) (missed : ∀ other ∈ front, found other = false) :
    ∃ next' head', takeOut next found fuel head = some (some node, next', head') ∧
      Chain next' head' (front ++ back) ∧ ∀ other ∉ front, next' other = next other := by
  have located : ∀ previous, locate found previous (front ++ node :: back) =
      some (front.getLast?.or previous, node) := by
    clear chain enough
    induction front with
    | nil => exact fun previous => if_pos hit
    | cons first rest inductionHypothesis =>
      intro previous
      obtain ⟨firstMissed, restMissed⟩ := List.forall_mem_cons.mp missed
      rw [List.cons_append, locate, if_neg (by rw [firstMissed]; exact Bool.false_ne_true),
        inductionHypothesis restMissed, List.getLast?_cons]
      cases rest.getLast? <;> rfl
  unfold takeOut
  rw [chain.scan_eq found enough, located]
  rcases List.eq_nil_or_concat front with rfl | ⟨before, previous, rfl⟩
  · exact ⟨next, next node, rfl, chain.2, fun _ _ => rfl⟩
  · rw [List.concat_eq_append] at chain ⊢
    rw [List.append_assoc] at chain
    refine ⟨update next previous (next node), head, ?_, ?_, fun other apart => ?_⟩
    · rw [List.getLast?_append]
      rfl
    · rw [List.append_assoc]
      exact chain.unlink
    · refine update_of_ne (fun same => apart ?_) _ _
      rw [same]
      exact List.mem_append_right _ List.mem_cons_self

/-! ### Putting a node in front -/

/-- Put a node, if there is one, in front of a list. -/
def putFirst (next : Node → Option Node) (route first : Option Node) :
    (Node → Option Node) × Option Node :=
  match route with
  | none => (next, first)
  | some node => (update next node first, some node)

theorem Chain.putFirst {route : Option Node} (chain : Chain next head nodes)
    (fresh : ∀ node ∈ route, node ∉ nodes) :
    Chain (putFirst next route head).1 (LinkedList.putFirst next route head).2
      (route.toList ++ nodes) := by
  cases route with
  | none => exact chain
  | some node => exact chain.push (fresh node rfl)

/-! ### The best node -/

/-- The loop that looks for the best node; with the best one so far goes the node before it. -/
def findBest (next : Node → Option Node) (better : Node → Node → Bool) :
    Nat → Option Node → Option Node → Option (Node × Option Node) →
      Option (Option (Node × Option Node))
  | _, _, none, best => some best
  | 0, _, some _, _ => none
  | fuel + 1, previous, some node, best =>
    findBest next better fuel (some node) (next node)
      (match best with
        | none => some (node, previous)
        | some (b, before) => if better node b then some (node, previous) else some (b, before))

/-- Move the best node to the front. The result is `none` if an assertion fails. -/
def sortBest (next : Node → Option Node) (better : Node → Node → Bool) (fuel : Nat)
    (head : Option Node) : Option ((Node → Option Node) × Option Node) :=
  (findBest next better fuel none head none).bind fun best =>
    match best with
    | none => if head = none then some (next, head) else none
    | some (b, none) => if head = some b then some (next, head) else none
    | some (b, some previous) =>
      some (update (update next previous (next b)) b head, some b)

/-- The best node so far, in front of the rest, with the node before it. -/
def BestOf (better : Node → Node → Bool) (front : List Node) :
    Option (Node × Option Node) → Prop
  | none => front = []
  | some (b, before) => ∃ ahead behind, front = ahead ++ b :: behind ∧ before = ahead.getLast? ∧
      ∀ other ∈ front, better other b = false

omit [DecidableEq Node] in
theorem Chain.findBest_eq {better : Node → Node → Bool} {rest : List Node}
    (irreflexive : ∀ a, better a a = false)
    (transitive : ∀ a b c, better a b = true → better b c = true → better a c = true)
    (chain : Chain next head rest) (enough : rest.length ≤ fuel)
    {best : Option (Node × Option Node)} (so : BestOf better front best) :
    ∃ best', findBest next better fuel front.getLast? head best = some best' ∧
      BestOf better (front ++ rest) best' := by
  induction rest generalizing front fuel head best with
  | nil =>
    rw [chain_nil] at chain
    subst chain
    refine ⟨best, ?_, (List.append_nil front).symm ▸ so⟩
    cases fuel <;> rfl
  | cons node rest inductionHypothesis =>
    obtain ⟨rfl, behind⟩ := chain
    cases fuel with
    | zero => cases enough
    | succ fuel =>
      have last : some node = (front ++ [node]).getLast? := List.getLast?_concat.symm
      have split : front ++ node :: rest = (front ++ [node]) ++ rest := by
        rw [List.append_assoc, List.singleton_append]
      unfold findBest
      rw [last, split]
      refine inductionHypothesis behind (Nat.le_of_succ_le_succ enough) ?_
      cases best with
      | none =>
        cases so
        refine ⟨[], [], rfl, rfl, fun other member => ?_⟩
        rw [List.mem_singleton.mp member]
        exact irreflexive node
      | some pair =>
        obtain ⟨b, before⟩ := pair
        obtain ⟨ahead, others, whole, previous, least⟩ := so
        dsimp only
        split
        case isTrue wins =>
          refine ⟨front, [], rfl, rfl, fun other member => ?_⟩
          obtain old | new := List.mem_append.mp member
          · refine Bool.eq_false_iff.mpr fun beats => ?_
            have wrong := transitive other node b beats wins
            rw [least other old] at wrong
            cases wrong
          · rw [List.mem_singleton.mp new]
            exact irreflexive node
        case isFalse loses =>
          refine ⟨ahead, others ++ [node], ?_, previous, fun other member => ?_⟩
          · rw [whole, List.append_assoc, List.cons_append]
          · obtain old | new := List.mem_append.mp member
            · exact least other old
            · rw [List.mem_singleton.mp new]
              exact Bool.eq_false_iff.mpr loses

/-- The same nodes are in the chain, and no other is better than the first. -/
theorem Chain.sortBest_eq {better : Node → Node → Bool} (irreflexive : ∀ a, better a a = false)
    (transitive : ∀ a b c, better a b = true → better b c = true → better a c = true)
    (chain : Chain next head nodes) (enough : nodes.length ≤ fuel) :
    ∃ next' nodes', sortBest next better fuel head = some (next', nodes'.head?) ∧
      Chain next' nodes'.head? nodes' ∧ nodes'.Perm nodes ∧
      (∀ other ∉ nodes, next' other = next other) ∧
      ∀ b ∈ nodes'.head?, ∀ other ∈ nodes, better other b = false := by
  obtain ⟨best, found, so⟩ :=
    @Chain.findBest_eq _ _ _ [] fuel better nodes irreflexive transitive chain enough none rfl
  have start := chain.head_eq
  unfold sortBest
  rw [List.getLast?_nil] at found
  rw [found, Option.bind_some]
  rw [List.nil_append] at so
  cases best with
  | none =>
    cases so
    refine ⟨next, [], ?_, rfl, .refl _, fun _ _ => rfl, fun b none => by cases none⟩
    rw [start]
    rfl
  | some pair =>
    obtain ⟨b, before⟩ := pair
    obtain ⟨ahead, behind, rfl, rfl, least⟩ := so
    rcases List.eq_nil_or_concat ahead with rfl | ⟨front, previous, rfl⟩
    · rw [List.nil_append] at chain start least ⊢
      refine ⟨next, b :: behind, ?_, start ▸ chain, .refl _, fun _ _ => rfl, ?_⟩
      · rw [start]
        exact if_pos rfl
      · intro b' first
        obtain rfl := Option.some.inj first
        exact least
    · rw [List.concat_eq_append] at chain least ⊢
      have nodup := chain.nodup
      rw [List.append_assoc, List.singleton_append] at chain
      have unlinked := chain.unlink
      have fresh : b ∉ front ++ previous :: behind := by
        intro member
        rw [List.append_assoc, List.singleton_append] at nodup
        have moved : (front ++ previous :: b :: behind).Perm (b :: (front ++ previous :: behind)) :=
          ((List.Perm.swap b previous behind).append_left front).trans List.perm_middle
        exact (List.nodup_cons.mp (moved.nodup_iff.mp nodup)).1 member
      refine ⟨_, b :: (front ++ previous :: behind), ?_, unlinked.push fresh, ?_, ?_, ?_⟩
      · rw [List.getLast?_concat]
        rfl
      · rw [List.append_assoc, List.singleton_append]
        exact List.perm_middle.symm.trans ((List.Perm.swap previous b behind).append_left front)
      · intro other apart
        have notB : other ≠ b := fun same => apart (by simp [same])
        have notPrevious : other ≠ previous := fun same => apart (by simp [same])
        rw [update_of_ne notB, update_of_ne notPrevious]
      · intro b' first
        obtain rfl := Option.some.inj first
        exact least

end LinkedList
