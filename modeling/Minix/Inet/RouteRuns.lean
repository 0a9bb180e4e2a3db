/-
This file follows the output routes through any sequence of additions, deletions, look-ups and
expirations, and proves that the three levels of lists stay well formed.
-/

import Minix.Inet.RouteLookup

namespace Minix.Inet

open Function (update)
open LinkedList

/-- What happens to the output routes. -/
inductive OrouteOp
  | add (currtim : Nat) (new : NewRoute)
  | del (oroute : OrouteNr)
  | find (currtim portNr : Nat) (dest : UInt32)
  | get (currtim : Nat) (entNo : OrouteNr)

/-- One step; a failed assertion gives `none`. Only routes in use are deleted. -/
def Orouting.step (ports : Nat → IpPort) (s : Orouting) : OrouteOp → Option Orouting
  | .add currtim new => (iprAddOroute ports s currtim new).map Prod.fst
  | .del oroute => if (s.table oroute).inuse then release s oroute else some s
  | .find currtim portNr dest => (orouteFindEnt s currtim portNr dest).map Prod.fst
  | .get currtim entNo => iprGetOroute s currtim entNo

theorem linked_init : Linked {} (Orouting.Inuse {}) [] := by
  have empty : ∀ hash addr r, ¬Orouting.Cached {} hash addr r := by
    rintro hash addr r ⟨way, member, _, value⟩
    rw [List.eq_of_mem_replicate member] at value
    cases value
  refine ⟨⟨rfl, List.nodup_nil, fun network => ⟨[], ⟨rfl, List.nodup_nil, fun gateway =>
    ⟨[], rfl, fun i => ?_, fun _ none => (by cases none)⟩⟩, fun _ none => (by cases none)⟩⟩,
    fun hash addr r cached => absurd cached (empty hash addr r)⟩
  exact iff_of_false List.not_mem_nil fun wrong => Bool.false_ne_true wrong.1

variable {ports : Nat → IpPort} {s s' : Orouting} {nws : List OrouteNr}

theorem iprGetOroute_linked (linked : Linked s s.Inuse nws) (currtim : Nat) (entNo : OrouteNr) :
    ∃ s' nws', iprGetOroute s currtim entNo = some s' ∧ Linked s' s'.Inuse nws' := by
  unfold iprGetOroute
  split
  case isTrue old =>
    rw [Bool.and_eq_true] at old
    obtain ⟨s', nws', expired, linked', _⟩ := expire_linked linked old.1
    exact ⟨s', nws', expired, linked'⟩
  case isFalse => exact ⟨s, nws, rfl, linked⟩

theorem step_linked (linked : Linked s s.Inuse nws) {op : OrouteOp}
    (stepped : s.step ports op = some s') : ∃ nws', Linked s' s'.Inuse nws' := by
  cases op with
  | add currtim new =>
    obtain ⟨⟨s₁, result⟩, added, rfl⟩ := Option.map_eq_some_iff.mp stepped
    by_cases room : s.Room ports currtim new
    · obtain ⟨s₂, result', nws', added', linked', _⟩ := iprAddOroute_linked linked room
      rw [added] at added'
      cases added'
      exact ⟨nws', linked'⟩
    · rw [iprAddOroute_none linked room] at added
      cases added
  | del oroute =>
    unfold Orouting.step at stepped
    dsimp only at stepped
    split at stepped
    case isTrue used =>
      obtain ⟨s₁, nws', released, linked', _⟩ := release_linked linked used
      rw [released] at stepped
      exact Option.some.inj stepped ▸ ⟨nws', linked'⟩
    case isFalse => exact Option.some.inj stepped ▸ ⟨nws, linked⟩
  | find currtim portNr dest =>
    obtain ⟨⟨s₁, route⟩, found, rfl⟩ := Option.map_eq_some_iff.mp stepped
    obtain fails | ⟨s₂, route', found', finds⟩ := orouteFindEnt_linked linked currtim portNr dest
    · rw [fails] at found
      cases found
    · rw [found] at found'
      cases found'
      exact finds.linked
  | get currtim entNo =>
    obtain ⟨s₁, nws', got, linked'⟩ := iprGetOroute_linked linked currtim entNo
    exact Option.some.inj (got.symm.trans stepped) ▸ ⟨nws', linked'⟩

/-- In every state of a run the lists are well formed, deletions and look-ups of entries succeed,
and additions succeed unless every entry is in use and may not be removed. -/
theorem oroutes_wellFormed (ports : Nat → IpPort) (ops : List OrouteOp) (s : Orouting)
    (run : ops.foldlM (Orouting.step ports) {} = some s) :
    s.WellFormed ∧ (∀ i, (s.table i).inuse = true → (orouteDel s i).isSome) ∧
      (∀ currtim entNo, (iprGetOroute s currtim entNo).isSome) ∧
      ∀ currtim new, ¬s.Full currtim → (iprAddOroute ports s currtim new).isSome := by
  have kept : ∃ nws, Linked s s.Inuse nws := by
    have start : ∃ nws, Linked {} (Orouting.Inuse {}) nws := ⟨[], linked_init⟩
    generalize ({} : Orouting) = s₀ at start run
    induction ops generalizing s₀ with
    | nil => exact Option.some.inj run ▸ start
    | cons op ops inductionHypothesis =>
      obtain ⟨nws, linked⟩ := start
      obtain ⟨s₁, stepped, rest⟩ := Option.bind_eq_some_iff.mp run
      exact inductionHypothesis s₁ (step_linked linked stepped) rest
  obtain ⟨nws, linked⟩ := kept
  refine ⟨linked.wellFormed, fun i used => ?_, fun currtim entNo => ?_, fun currtim new room => ?_⟩
  · obtain ⟨_, _, deleted, _⟩ := orouteDel_linked linked used
    rw [deleted]
    rfl
  · obtain ⟨_, _, got, _⟩ := iprGetOroute_linked linked currtim entNo
    rw [got]
    rfl
  · obtain ⟨_, _, _, added, _⟩ :=
      @iprAddOroute_linked _ _ _ new ports linked (.inr (.inr (.inr room)))
    rw [added]
    rfl

/-- Two gateways for the default route, and the deletion of the better one. -/
def defaultRoutes : List OrouteOp :=
  [.add 1 ⟨0, 0, 0, 0x0100000a, 0, 1, true, 0⟩, .add 2 ⟨0, 0, 0, 0x0200000a, 60, 1, false, 5⟩,
    .del ⟨1, by decide⟩]

/-- The table is well formed after these operations. -/
theorem defaultRoutes_wellFormed :
    ((defaultRoutes.foldlM (Orouting.step fun _ => ⟨0x0300000a, 0xff⟩) {}).get
      (by decide)).WellFormed :=
  (oroutes_wellFormed (fun _ => ⟨0x0300000a, 0xff⟩) defaultRoutes _ (Option.some_get _).symm).1

end Minix.Inet
