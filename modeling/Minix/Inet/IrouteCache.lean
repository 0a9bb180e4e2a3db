/-
This file proves that the hash cache of the input routes never shows: as long as there are fewer
than 32 ports, `iroute_frag` gives the route that the search of the table gives, and that is the
longest match.

A set of the cache and an address determine the port that asked. What is remembered stays right,
because a change of an entry matters only for addresses in its network, and these are forgotten.
-/

import Minix.Inet.Iroute
import Mathlib.Tactic.IntervalCases
import Mathlib.Data.List.Induction

namespace Minix.Inet

open Function (update update_of_ne update_self update_idem)

variable {table : IrouteNr → Iroute} {s : Irouting} {k : IrouteNr} {r : Iroute} {portNr : Nat}
  {dest subnetmask gateway : UInt32}

/-! ### The longest match -/

/-- The answer to a search. A route covers the address, and of those that do it has the longest
netmask; of these it is a dynamic one, if there is one, of these one of the port, if there is one,
and of these the first. Without an answer nothing covers the address. -/
inductive LongestMatch (table : IrouteNr → Iroute) (portNr : Nat) (dest : UInt32) :
    Option IrouteNr → Prop
  | unreachable (uncovered : ∀ j, (table j).covers dest = false) : LongestMatch table portNr dest none
  | route {i : IrouteNr} (covers : (table i).covers dest = true)
      (others : ∀ j, (table j).covers dest = true →
        ntohl (table j).subnetmask < ntohl (table i).subnetmask ∨
        (table j).subnetmask = (table i).subnetmask ∧
          ((table j).static = true ∧ (table i).static = false ∨
          (table j).static = (table i).static ∧
            ((table j).port ≠ portNr ∧ (table i).port = portNr ∨
            ((table j).port = portNr ↔ (table i).port = portNr) ∧ i ≤ j))) :
      LongestMatch table portNr dest (some i)

theorem ntohl_ntohl (x : UInt32) : ntohl (ntohl x) = x := by
  rw [← UInt32.toBitVec_inj]
  unfold ntohl
  simp only [UInt32.toBitVec_or, UInt32.toBitVec_and, UInt32.toBitVec_shiftLeft,
    UInt32.toBitVec_shiftRight, UInt32.toBitVec_ofNat]
  generalize x.toBitVec = bits
  ext i inside
  simp
  interval_cases i <;> simp

theorem toNat_ntohl_inj {x y : UInt32} : (ntohl x).toNat = (ntohl y).toNat ↔ x = y :=
  UInt32.toNat_inj.trans ⟨fun same => by rw [← ntohl_ntohl x, same, ntohl_ntohl], congrArg ntohl⟩

/-- What a route is worth to a port: the netmask counts first, and the port last. -/
def Iroute.rank (r : Iroute) (portNr : Nat) : Nat :=
  4 * (ntohl r.subnetmask).toNat + (if r.static = true then 0 else 2) +
    if r.port = portNr then 1 else 0

theorem better_iff (best : Iroute) :
    r.better best portNr = true ↔ best.rank portNr < r.rank portNr := by
  unfold Iroute.better Iroute.rank
  by_cases masks : r.subnetmask = best.subnetmask
  · rw [if_neg (not_not_intro masks), masks]
    grind
  · rw [if_pos masks, decide_eq_true_eq, UInt32.lt_iff_toNat_lt]
    have apart := mt toNat_ntohl_inj.mp (Ne.symm masks)
    split_ifs <;> omega

theorem chooseIroute_best {entries : List IrouteNr} (sorted : entries.Pairwise (· < ·)) :
    match entries.foldl (chooseIroute table portNr dest) none with
    | none => ∀ j ∈ entries, (table j).covers dest = false
    | some i => i ∈ entries ∧ (table i).covers dest = true ∧ ∀ j ∈ entries,
        (table j).covers dest = true → (table j).rank portNr < (table i).rank portNr ∨
          (table j).rank portNr = (table i).rank portNr ∧ i ≤ j := by
  induction entries using List.reverseRecOn with
  | nil => simp
  | append_singleton entries last inductionHypothesis =>
    obtain ⟨before, -, behind⟩ := List.pairwise_append.mp sorted
    have found := inductionHypothesis before
    rw [List.foldl_append, List.foldl_cons, List.foldl_nil]
    generalize entries.foldl (chooseIroute table portNr dest) none = best at found ⊢
    unfold chooseIroute
    by_cases covered : (table last).covers dest = true
    · rw [if_pos covered]
      cases best with
      | none => grind
      | some b =>
        dsimp only at found ⊢
        have better := @better_iff (table last) portNr (table b)
        by_cases replaced : (table last).better (table b) portNr = true
        · rw [if_pos replaced]
          grind
        · rw [if_neg replaced]
          grind
    · rw [if_neg covered]
      cases best <;> grind

theorem bestIroute_longest (table : IrouteNr → Iroute) (portNr : Nat) (dest : UInt32) :
    LongestMatch table portNr dest (bestIroute table portNr dest) := by
  have all := @List.mem_finRange irouteNr
  have sorted := List.pairwise_lt_finRange irouteNr
  unfold bestIroute
  generalize List.finRange irouteNr = entries at all sorted ⊢
  have found := @chooseIroute_best table portNr dest _ sorted
  generalize entries.foldl (chooseIroute table portNr dest) none = best at found ⊢
  cases best with
  | none => exact .unreachable fun j => found j (all j)
  | some i =>
    obtain ⟨-, covers, others⟩ := found
    refine .route covers fun j covered => ?_
    have rank := others j (all j) covered
    have mask := @toNat_ntohl_inj (table j).subnetmask (table i).subnetmask
    unfold Iroute.rank at rank
    rw [UInt32.lt_iff_toNat_lt]
    grind

/-! ### The search -/

/-- An entry that does not cover an address, neither before nor after a change, does not matter. -/
theorem chooseIroute_update (before : (table k).covers dest = false)
    (after : r.covers dest = false) {best : Option IrouteNr} (other : best ≠ some k)
    (i : IrouteNr) :
    chooseIroute (update table k r) portNr dest best i = chooseIroute table portNr dest best i ∧
      chooseIroute table portNr dest best i ≠ some k := by
  unfold chooseIroute
  by_cases same : i = k
  · subst same
    rw [update_self, after, before]
    exact ⟨rfl, other⟩
  · rw [update_of_ne same]
    cases best with
    | none =>
      refine ⟨rfl, ?_⟩
      split
      · exact fun wrong => same (Option.some.inj wrong)
      · exact other
    | some b =>
      have ne : b ≠ k := fun wrong => other (congrArg some wrong)
      dsimp only
      rw [update_of_ne ne]
      refine ⟨rfl, ?_⟩
      split
      · split
        · exact fun wrong => same (Option.some.inj wrong)
        · exact other
      · exact other

theorem bestIroute_update (before : (table k).covers dest = false)
    (after : r.covers dest = false) :
    bestIroute (update table k r) portNr dest = bestIroute table portNr dest := by
  unfold bestIroute
  have other : (none : Option IrouteNr) ≠ some k := fun wrong => by cases wrong
  generalize (none : Option IrouteNr) = best at other ⊢
  induction List.finRange irouteNr generalizing best with
  | nil => rfl
  | cons i entries inductionHypothesis =>
    obtain ⟨same, next⟩ := @chooseIroute_update table k r portNr dest before after best other i
    rw [List.foldl_cons, List.foldl_cons, same]
    exact inductionHypothesis _ next

/-! ### The cache -/

/-- The port that asked for an address in a set of the cache. -/
def askingPort (hash addr : UInt32) : Nat := ((hash - hashAddr addr) &&& 31).toNat

theorem askingPort_hashIroute (fits : portNr < 32) :
    askingPort (hashIroute portNr dest) dest = portNr := by
  have mask (x : UInt32) : (x &&& 31).toNat = x.toNat % 32 :=
    Nat.and_two_pow_sub_one_eq_mod x.toNat 5
  have small := (hashAddr dest).toNat_lt
  have port : (UInt32.ofNat portNr).toNat = portNr := UInt32.toNat_ofNat_of_lt' (by
    change portNr < 4294967296
    omega)
  unfold askingPort hashIroute
  rw [mask, UInt32.toNat_sub, mask, UInt32.toNat_add, port]
  omega

/-- Each answer that is remembered is what the search of the table gives to the port that asked. -/
def CacheRight (s : Irouting) : Prop :=
  ∀ hash, Memo.Sound (fun addr => bestIroute s.table (askingPort hash addr) addr) (s.hash hash)

theorem cacheRight_init : CacheRight {} := by
  intro hash way member value same
  rw [List.eq_of_mem_replicate member] at same
  cases same

/-- `iroute_frag` keeps the cache right and gives the route of the search. -/
theorem irouteFrag_right (right : CacheRight s) (fits : portNr < 32) :
    CacheRight (irouteFrag s portNr dest).1 ∧
      (irouteFrag s portNr dest).2 = bestIroute s.table portNr dest ∧
      (irouteFrag s portNr dest).1.table = s.table := by
  obtain ⟨used, answered⟩ := (right (hashIroute portNr dest)).use dest
  rw [askingPort_hashIroute fits] at answered
  have set {ways : List (Memo.Way UInt32 IrouteNr)} (sound : Memo.Sound
      (fun addr => bestIroute s.table (askingPort (hashIroute portNr dest) addr) addr) ways) :
      CacheRight { s with hash := update s.hash (hashIroute portNr dest) ways } := by
    intro hash
    by_cases same : hash = hashIroute portNr dest
    · subst same
      dsimp only
      rw [update_self]
      exact sound
    · dsimp only
      rw [update_of_ne same]
      exact right hash
  unfold irouteFrag
  dsimp only
  cases remembered : (Memo.use dest (s.hash (hashIroute portNr dest))).2 with
  | some route => exact ⟨set used, (answered route remembered).symm, rfl⟩
  | none =>
    cases best : bestIroute s.table portNr dest with
    | none => exact ⟨set used, rfl, rfl⟩
    | some route =>
      refine ⟨?_, rfl, rfl⟩
      have sound := @Memo.Sound.remember _ _ dest route _ _ used (by
        rw [askingPort_hashIroute fits]
        exact best)
      have kept := set sound
      dsimp only
      rw [update_idem]
      exact kept

/-- A change of an entry keeps the cache right, if what the entry covers is forgotten, before or
after. -/
theorem cacheRight_change (right : CacheRight s)
    (before : ∀ addr, (table k).covers addr = true → (addr ^^^ dest) &&& subnetmask = 0)
    (after : ∀ addr, r.covers addr = true → (addr ^^^ dest) &&& subnetmask = 0)
    (same : s.table = table) :
    CacheRight { irouteUncacheNw s dest subnetmask with table := update table k r } := by
  subst same
  intro hash
  change Memo.Sound (fun addr => bestIroute (update s.table k r) (askingPort hash addr) addr)
    (Memo.forget 0 (fun addr => (addr ^^^ dest) &&& subnetmask == 0) (s.hash hash))
  refine (right hash).forget fun addr unaffected => ?_
  have outside : (addr ^^^ dest) &&& subnetmask ≠ 0 := by simpa using unaffected
  exact bestIroute_update (Bool.eq_false_iff.mpr fun covers => outside (before addr covers))
    (Bool.eq_false_iff.mpr fun covers => outside (after addr covers))

theorem covers_iff {addr : UInt32} : r.covers addr = true ↔
    r.inuse = true ∧ (addr ^^^ r.dest) &&& r.subnetmask = 0 := by
  unfold Iroute.covers
  rw [Bool.and_eq_true, beq_iff_eq]

theorem is_iff : r.is portNr dest subnetmask gateway = true ↔
    r.port = portNr ∧ r.dest = dest ∧ r.subnetmask = subnetmask ∧ r.gateway = gateway := by
  unfold Iroute.is
  simp only [Bool.and_eq_true, decide_eq_true_eq, and_assoc]

theorem unusedIroute_network {staticRoute : Bool}
    (found : unusedIroute table portNr dest subnetmask gateway staticRoute = some k) :
    (table k).inuse = false ∨ (table k).dest = dest ∧ (table k).subnetmask = subnetmask := by
  unfold unusedIroute at found
  dsimp only at found
  split at found
  · have unused := List.find?_some found
    exact .inl (by simpa using unused)
  · split at found
    case h_1 i old =>
      obtain rfl := Option.some.inj found
      have matches' := List.find?_some old
      rw [Bool.and_eq_true, is_iff] at matches'
      exact .inr ⟨matches'.2.2.1, matches'.2.2.2.1⟩
    case h_2 =>
      have unused := List.find?_some found
      exact .inl (by simpa using unused)

theorem cacheRight_step (right : CacheRight s) {op : IrouteOp} (fits : op.PortFits) :
    CacheRight (s.step op) := by
  cases op with
  | lookup portNr dest => exact (irouteFrag_right right fits).1
  | add portNr dest subnetmask gateway dist staticRoute =>
    unfold Irouting.step
    dsimp only
    unfold iprAddIroute
    cases found : unusedIroute s.table portNr dest subnetmask gateway staticRoute with
    | none => exact right
    | some i =>
      change CacheRight { irouteUncacheNw s dest subnetmask with
        table := update s.table i
          { port := portNr, dest, subnetmask, gateway, dist, inuse := true,
            static := staticRoute } }
      refine cacheRight_change right (fun addr covers => ?_) (fun addr covers => ?_) rfl
      · obtain ⟨inuse, inside⟩ := covers_iff.mp covers
        obtain unused | ⟨rfl, rfl⟩ := unusedIroute_network found
        · rw [unused] at inuse
          cases inuse
        · exact inside
      · exact (covers_iff.mp covers).2
  | del portNr dest subnetmask gateway staticRoute =>
    unfold Irouting.step
    dsimp only
    unfold iprDelIroute
    split
    case h_1 => exact right
    case h_2 i _ =>
      refine cacheRight_change right (fun addr covers => (covers_iff.mp covers).2)
        (fun addr covers => ?_) rfl
      exact absurd (covers_iff.mp covers).1 Bool.false_ne_true

/-- In every run, `iroute_frag` gives the route that the search of the table gives, which is the
longest match, if there are fewer than 32 ports. -/
theorem irouteFrag_uncached (ops : List IrouteOp) (fits : ∀ op ∈ ops, op.PortFits)
    (portNr : Nat) (port : portNr < 32) (dest : UInt32) :
    (irouteFrag (ops.foldl Irouting.step {}) portNr dest).2 =
        bestIroute (ops.foldl Irouting.step {}).table portNr dest ∧
      LongestMatch (ops.foldl Irouting.step {}).table portNr dest
        (irouteFrag (ops.foldl Irouting.step {}) portNr dest).2 := by
  have right : CacheRight (ops.foldl Irouting.step {}) := by
    have start := cacheRight_init
    generalize ({} : Irouting) = s at start ⊢
    induction ops generalizing s with
    | nil => exact start
    | cons op ops inductionHypothesis =>
      obtain ⟨first, others⟩ := List.forall_mem_cons.mp fits
      exact inductionHypothesis others _ (cacheRight_step start first)
  obtain ⟨-, same, -⟩ := @irouteFrag_right _ portNr dest right port
  exact ⟨same, same ▸ bestIroute_longest _ portNr dest⟩

/-- A default route, an answer, and a more specific route. -/
theorem specific_route_found :
    let s := [.add 0 0 0 0x0a00000a 1 true, .lookup 1 0x0100007f,
      .add 1 0x7f 0xff 0x0b00000a 1 false].foldl Irouting.step {}
    (irouteFrag s 1 0x0100007f).2 = bestIroute s.table 1 0x0100007f ∧
      LongestMatch s.table 1 0x0100007f (irouteFrag s 1 0x0100007f).2 := by
  refine irouteFrag_uncached _ ?_ 1 (by decide) _
  simp [IrouteOp.PortFits]

end Minix.Inet
