/-
This file proves that MM hands out memory as first fit on a sorted list of holes does: in every run
in which only what was handed out is given back, every point of memory is free or in one block, the
holes are those of the list, and nothing is swapped out as long as a hole is large enough.
-/

import Minix.Library.Transition
import Minix.Mm.HoleList
import Minix.Mm.Swap

namespace Minix.Mm.Memory

open Function (update update_of_ne update_self)
open Extents Kernel Transition

/-! ### What the calls are for -/

/-- The free memory and the blocks that are in use. -/
structure Store where
  free : List Extent
  live : List Extent

/-- A block is moved to the swap area, and the memory it had becomes free. -/
inductive Swaps (swapBase : Nat) : Store → Store → Prop
  | intro {free after live : List Extent} {block : Extent} {base : Nat} (member : block ∈ live)
      (found : take (HoleTable.swapFits swapBase block.len) block.len free = some (base, after)) :
      Swaps swapBase ⟨free, live⟩
        ⟨if block.len = 0 then after else release block after,
          { base := base, len := block.len } :: live.erase block⟩

/-- A block is taken from the lowest hole that is large enough. As long as there is none, blocks
are moved to the swap area; when none can be moved, there is no memory. -/
inductive Allocates (swapBase clicks : Nat) : Store → Store → Nat → Prop
  | fits {free after live : List Extent} {base : Nat}
      (found : take (HoleTable.fits swapBase clicks) clicks free = some (base, after)) :
      Allocates swapBase clicks ⟨free, live⟩ ⟨after, { base := base, len := clicks } :: live⟩ base
  | swaps {store middle after : Store} {base : Nat}
      (none : take (HoleTable.fits swapBase clicks) clicks store.free = none)
      (swap : Swaps swapBase store middle) (rest : Allocates swapBase clicks middle after base) :
      Allocates swapBase clicks store after base
  | fails {store : Store} (none : take (HoleTable.fits swapBase clicks) clicks store.free = none) :
      Allocates swapBase clicks store store noMem

/-! ### Sound stores -/

/-- The holes are a sorted list, and every point of the memory and the swap area, which lie inside
the address space, is either free or in exactly one block. -/
structure Sound (region : List Extent) (store : Store) : Prop where
  sorted : Sorted store.free
  splits : Splits region store.free store.live
  apart : store.live.Pairwise fun first second => ∀ x, first.Contains x → ¬ second.Contains x
  inside : HoleTable.Inside region

section Sound

variable {region free after live rest : List Extent} {block : Extent} {base clicks x : Nat}

theorem bounds_of_covers (inside : HoleTable.Inside region) (covered : Covers region x) :
    0 < x ∧ x < 2 ^ 32 := by
  obtain ⟨part, member, from_, to_⟩ := covered
  obtain ⟨low, high⟩ := inside part member
  exact ⟨by omega, by omega⟩

/-- An extent with points that all lie in the region lies inside the address space. -/
theorem inside_of_covers (inside : HoleTable.Inside region) (pos : 0 < block.len)
    (covered : ∀ x, block.Contains x → Covers region x) :
    0 < block.base ∧ block.stop ≤ 2 ^ 32 := by
  have first := bounds_of_covers inside (covered block.base ⟨le_rfl, Nat.lt_add_of_pos_right pos⟩)
  have last := bounds_of_covers inside (covered (block.stop - 1) ⟨by
    simp only [Extent.stop]
    omega, by
    simp only [Extent.stop]
    omega⟩)
  exact ⟨first.1, by omega⟩

section

variable (sound : Sound region ⟨free, live⟩)
include sound

theorem Sound.inside_free : HoleTable.Inside free :=
  fun extent member => inside_of_covers sound.inside (sound.sorted.pos extent member)
    fun x inside => (sound.splits.either x).mpr (.inl ⟨extent, member, inside⟩)

theorem Sound.inside_live (member : block ∈ live) (pos : 0 < block.len) :
    0 < block.base ∧ block.stop ≤ 2 ^ 32 :=
  inside_of_covers sound.inside pos fun x inside =>
    (sound.splits.either x).mpr (.inr ⟨block, member, inside⟩)

theorem Sound.disjoint (member : block ∈ live) (pos : 0 < block.len) :
    ∀ extent ∈ free, block.Disjoint extent := by
  intro extent member'
  refine Extent.disjoint_of_not_contains pos (sound.sorted.pos extent member')
    fun x inside inside' => ?_
  exact sound.splits.apart x ⟨extent, member', inside'⟩ ⟨block, member, inside⟩

theorem Sound.take {suits : Extent → Bool} (large : ∀ extent, suits extent → clicks ≤ extent.len)
    (found : Extents.take suits clicks free = some (base, after)) :
    Sound region ⟨after, { base := base, len := clicks } :: live⟩ where
  sorted := sound.sorted.take large found
  splits := by
    have covers (x : Nat) := @covers_take _ _ _ x _ _ sound.sorted large found
    refine ⟨fun x => ?_, fun x free' => ?_⟩
    · rw [sound.splits.either x, covers_cons, (covers x).1]
      have inside := (covers x).2
      tauto
    · obtain ⟨was, outside⟩ := (covers x).1.mp free'
      rw [covers_cons, not_or]
      exact ⟨outside, sound.splits.apart x was⟩
  apart := List.pairwise_cons.mpr ⟨fun other member x inside inside' =>
    sound.splits.apart x ((covers_take sound.sorted large found).2 inside) ⟨other, member, inside'⟩,
    sound.apart⟩
  inside := sound.inside

theorem Sound.release (perm : live.Perm (block :: rest)) :
    Sound region ⟨if block.len = 0 then free else Extents.release block free, rest⟩ := by
  have member : block ∈ live := perm.mem_iff.mpr List.mem_cons_self
  have live_iff (x : Nat) : Covers live x ↔ block.Contains x ∨ Covers rest x := by
    rw [← covers_cons]
    simp only [Covers, perm.mem_iff]
  have symmetric : ∀ {first second : Extent}, (∀ x, first.Contains x → ¬ second.Contains x) →
      ∀ x, second.Contains x → ¬ first.Contains x := fun apart x inside inside' =>
    apart x inside' inside
  have apart := List.pairwise_cons.mp ((perm.pairwise_iff symmetric).mp sound.apart)
  have free_iff (x : Nat) :
      Covers (if block.len = 0 then free else Extents.release block free) x ↔
        block.Contains x ∨ Covers free x := by
    split
    case isTrue empty =>
      simp only [Extent.Contains, Extent.stop, empty]
      simp
    case isFalse => exact covers_release
  refine ⟨?_, ⟨fun x => ?_, fun x inside => ?_⟩, apart.2, sound.inside⟩
  · show Sorted (if block.len = 0 then free else Extents.release block free)
    split
    · exact sound.sorted
    case isFalse pos =>
      exact sound.sorted.release (Nat.pos_of_ne_zero pos)
        (sound.disjoint member (Nat.pos_of_ne_zero pos))
  · rw [sound.splits.either x, live_iff, free_iff]
    tauto
  · rcases (free_iff x).mp inside with inBlock | wasFree
    · rintro ⟨other, member', inside'⟩
      exact apart.1 other member' x inBlock inside'
    · intro used
      exact sound.splits.apart x wasFree ((live_iff x).mpr (.inr used))

end

end Sound

/-! ### The table keeps the store -/

/-- The hole table holds the free memory of the store. -/
structure Kept (k : Memory) (region : List Extent) (store : Store) : Prop where
  table : ∃ nodes spare, k.holes.Keeps nodes spare store.free
  sound : Sound region store
  outswap : lowUser ≤ k.outswap

/-- The processes that may be swapped out have blocks of their own. -/
def Own (k : Memory) (live : List Extent) : Prop :=
  ∀ p, (k.mproc p).candidate →
    (k.mproc p).image ∈ live ∧
      ∀ q ≠ p, (k.mproc q).candidate → (k.mproc q).image ≠ (k.mproc p).image

instance (k : Memory) (live : List Extent) : Decidable (k.Own live) :=
  inferInstanceAs (Decidable (∀ p, (k.mproc p).candidate → _))

/-- What the blocks in use are after some of them have been moved. -/
def follow (live : List Extent) (moves : List (Extent × Extent)) : List Extent :=
  moves.foldl (fun live move => move.2 :: live.erase move.1) live

/-- Where the swap area is, and whether it is used. -/
def area (k : Memory) : Bool × Nat × Nat := (k.swapFd, k.swapBase, k.swapMaxsize)

theorem swapBase_of_area {k k' : Memory} (same : k'.area = k.area) : k'.swapBase = k.swapBase :=
  congrArg (fun area => area.2.1) same

section Kept

variable {k k' : Memory} {region free live : List Extent} {block : Extent} {clicks : Nat}
  {t : HoleTable (2 * nrProcs)} {nodes spare : List (Fin (2 * nrProcs))}

theorem freeBlock (keeps : t.Keeps nodes spare free) (sound : Sound region ⟨free, live⟩)
    (member : block ∈ live) (room : free.length < 2 * nrProcs) :
    ∃ t' nodes' spare', t.freeMem block.base block.len = some t' ∧
      t'.Keeps nodes' spare' (if block.len = 0 then free else release block free) := by
  by_cases empty : block.len = 0
  · rw [if_pos empty]
    exact ⟨t, nodes, spare, if_pos empty, keeps⟩
  · rw [if_neg empty]
    have pos := Nat.pos_of_ne_zero empty
    obtain ⟨low, high⟩ := sound.inside_live member pos
    refine keeps.freeMem sound.sorted sound.inside_free pos low high
      (sound.disjoint member pos) fun full => ?_
    have length := keeps.toHolds.length
    rw [full, ← List.length_map t.extent, keeps.free_eq] at length
    simp only [List.length_nil] at length
    omega

/-- Swapping one process out moves its block into the swap file. -/
theorem Kept.sendOut {p : Fin nrProcs} {newBase : Nat} {after : List Extent}
    (sound : Sound region ⟨free, live⟩) (own : k.Own live) (able : (k.mproc p).candidate)
    (user : lowUser ≤ p) (room : free.length < 2 * nrProcs)
    (found : take (HoleTable.swapFits k.swapBase (k.mproc p).size) (k.mproc p).size free =
      some (newBase, after)) (keeps : t.Keeps nodes spare after) :
    ∃ k' store, k.sendOut p t newBase = some k' ∧ Swaps k.swapBase ⟨free, live⟩ store ∧
      Kept k' region store ∧ k'.Own store.live ∧ k'.area = k.area ∧
      (∀ q, (k'.mproc q).candidate = true ↔ q ≠ p ∧ (k.mproc q).candidate = true) ∧
      ∃ moves, k'.moves = k.moves ++ moves ∧ store.live = follow live moves ∧
        store.live.length = live.length := by
  obtain ⟨member, others⟩ := own p able
  have taken := sound.take (fun extent suits => by
    simp only [HoleTable.swapFits, Bool.and_eq_true, decide_eq_true_eq] at suits
    exact suits.2) found
  have perm : (Extent.mk newBase (k.mproc p).size :: live).Perm
      ((k.mproc p).image :: Extent.mk newBase (k.mproc p).size :: live.erase (k.mproc p).image) :=
    ((List.perm_cons_erase member).cons _).trans (List.Perm.swap _ _ _)
  have released := taken.release perm
  obtain ⟨t', nodes', spare', freed, keeps'⟩ := freeBlock keeps taken
    (List.mem_cons_of_mem _ member) ((length_take found).trans_lt room)
  have candidates (q : Fin nrProcs) :
      (update k.mproc p { (k.mproc p).moved newBase with onswap := true } q).candidate = true ↔
        q ≠ p ∧ (k.mproc q).candidate = true := by
    by_cases same : q = p
    · subst same
      rw [update_self]
      simp [Mproc.candidate]
    · rw [update_of_ne same]
      simp [same]
  refine ⟨{ k with
      holes := t'
      mproc := update k.mproc p { (k.mproc p).moved newBase with onswap := true }
      outswap := p
      moves := k.moves ++ [((k.mproc p).image, { base := newBase, len := (k.mproc p).size })] },
    _, ?_, Swaps.intro member found, ⟨⟨nodes', spare', keeps'⟩, released, user⟩, ?_, rfl,
    candidates, _, rfl, rfl, ?_⟩
  · show (t.freeMem (k.mproc p).image.base (k.mproc p).image.len).map _ = _
    rw [freed]
    rfl
  · intro q able'
    obtain ⟨other, able'⟩ := (candidates q).mp able'
    have image (r : Fin nrProcs) (other' : r ≠ p) :
        (update k.mproc p { (k.mproc p).moved newBase with onswap := true } r).image =
          (k.mproc r).image := by rw [update_of_ne other']
    show (update k.mproc p { (k.mproc p).moved newBase with onswap := true } q).image ∈ _ ∧ _
    rw [image q other]
    refine ⟨List.mem_cons_of_mem _ ((List.mem_erase_of_ne (others q other able')).mpr
      (own q able').1), fun r distinct able'' => ?_⟩
    obtain ⟨other', able''⟩ := (candidates r).mp able''
    show (update k.mproc p { (k.mproc p).moved newBase with onswap := true } r).image ≠ _
    rw [image r other']
    exact (own q able').2 r distinct able''
  · show (live.erase (k.mproc p).image).length + 1 = live.length
    rw [List.length_erase_of_mem member]
    have pos := List.length_pos_of_mem member
    omega

end Kept

/-! ### The search for a process -/

section Search

/-- The steps from a process to the one where the search ends. -/
def distance (p last : Fin nrProcs) : Nat :=
  if p.val < last.val then last.val - p.val else nrProcs - p.val + last.val - lowUser.val

theorem nextUser_ge {p : Fin nrProcs} (user : lowUser ≤ p) : lowUser ≤ nextUser p := by
  rw [nextUser]
  split
  · rw [Fin.le_def] at user ⊢
    exact user.trans (Nat.le_succ _)
  · exact le_rfl

theorem nextUser_val (p : Fin nrProcs) :
    (nextUser p).val = if p.val + 1 < nrProcs then p.val + 1 else lowUser.val := by
  rw [nextUser]
  split <;> rfl

theorem distance_nextUser {p last : Fin nrProcs} (user : lowUser ≤ p) (user' : lowUser ≤ last)
    (other : nextUser p ≠ last) : distance (nextUser p) last + 1 = distance p last := by
  have next := nextUser_val p
  rw [Fin.le_def] at user user'
  rw [← Fin.val_ne_iff] at other
  rw [distance, distance]
  generalize (nextUser p).val = value at next other
  split at next <;> split <;> split <;> omega

theorem distance_pos {p last : Fin nrProcs} (user : lowUser ≤ last) : 0 < distance p last := by
  have small := p.isLt
  rw [Fin.le_def] at user
  have low : lowUser.val = 2 := rfl
  have many : nrProcs = 32 := rfl
  rw [distance]
  split <;> omega

theorem distance_le (p last : Fin nrProcs) (user : lowUser ≤ p) : distance p last ≤ nrProcs := by
  have small := last.isLt
  rw [Fin.le_def] at user
  have low : lowUser.val = 2 := rfl
  rw [distance]
  split <;> omega

variable {k : Memory} {region free live : List Extent} {result : Option (Option Memory)}

/-- `swap_out` has found no process, or has sent one to the swap area. -/
def Swapped (k : Memory) (region : List Extent) (store : Store)
    (result : Option (Option Memory)) : Prop :=
  result = some none ∨
    ∃ k' store', result = some (some k') ∧ Swaps k.swapBase store store' ∧
      Kept k' region store' ∧ k'.Own store'.live ∧ k'.area = k.area ∧
      (∃ p, (k.mproc p).candidate = true ∧
        ∀ q, (k'.mproc q).candidate = true ↔ q ≠ p ∧ (k.mproc q).candidate = true) ∧
      ∃ moves, k'.moves = k.moves ++ moves ∧ store'.live = follow store.live moves ∧
        store'.live.length = store.live.length

theorem Kept.swapOutFrom (kept : Kept k region ⟨free, live⟩) (own : k.Own live)
    (room : free.length < 2 * nrProcs) {fuel : Nat} {p : Fin nrProcs} (user : lowUser ≤ p)
    (enough : distance p k.outswap ≤ fuel) :
    k.Swapped region ⟨free, live⟩ (k.swapOutFrom fuel p) := by
  induction fuel generalizing p with
  | zero =>
    have pos : 0 < distance p k.outswap := distance_pos kept.outswap
    omega
  | succ fuel inductionHypothesis =>
    have user' := nextUser_ge user
    have again : k.Swapped region ⟨free, live⟩
        (if nextUser p = k.outswap then some none else k.swapOutFrom fuel (nextUser p)) := by
      by_cases last : nextUser p = k.outswap
      · rw [if_pos last]
        exact .inl rfl
      · rw [if_neg last]
        have closer := distance_nextUser user kept.outswap last
        exact inductionHypothesis user' (by omega)
    rw [Memory.swapOutFrom]
    by_cases able : (k.mproc (nextUser p)).candidate
    · rw [if_pos able]
      obtain ⟨nodes, spare, keeps⟩ := kept.table
      rcases keeps.swapFit kept.sound.inside_free k.swapBase (k.mproc (nextUser p)).size with
        ⟨-, nothing⟩ | ⟨base, after, t', nodes', spare', found, taken, keeps'⟩
      · rw [nothing, Option.bind_some]
        exact again
      · obtain ⟨k', store, sent, swaps, kept', own', area, candidates, moves⟩ :=
          Kept.sendOut kept.sound own able user' room found keeps'
        refine .inr ⟨k', store, ?_, swaps, kept', own', area, ⟨_, able, candidates⟩, moves⟩
        rw [taken, Option.bind_some]
        simp only [sent, Option.map_some]
    · rw [if_neg able]
      exact again

theorem Kept.swapOut (kept : Kept k region ⟨free, live⟩) (own : k.Own live)
    (room : free.length < 2 * nrProcs) : k.Swapped region ⟨free, live⟩ k.swapOut :=
  kept.swapOutFrom own room kept.outswap (distance_le _ _ kept.outswap)

/-- The processes that may be swapped out. -/
def candidates (k : Memory) : Finset (Fin nrProcs) :=
  Finset.univ.filter fun p => (k.mproc p).candidate = true

/-- The blocks in use when the loop of `alloc_mem` has ended. -/
def handedOut (live : List Extent) (base clicks : Nat) : List Extent :=
  if base = noMem then live else { base := base, len := clicks } :: live

theorem Kept.allocLoop (kept : Kept k region ⟨free, live⟩) (own : k.Own live)
    (room : region.length + live.length < 2 * nrProcs) {clicks fuel : Nat}
    (enough : k.candidates.card < fuel) :
    ∃ k' base store moves, allocLoop clicks fuel k = some (k', base) ∧
      Allocates k.swapBase clicks ⟨free, live⟩ store base ∧ Kept k' region store ∧
      k'.area = k.area ∧ k'.moves = k.moves ++ moves ∧
      store.live = handedOut (follow live moves) base clicks := by
  induction fuel generalizing k free live with
  | zero => exact absurd enough (Nat.not_lt_zero _)
  | succ fuel inductionHypothesis =>
    obtain ⟨nodes, spare, keeps⟩ := kept.table
    rw [Memory.allocLoop]
    rcases keeps.firstFit kept.sound.sorted kept.sound.inside_free k.swapBase clicks with
      ⟨none_fits, nothing⟩ | ⟨base, after, t', nodes', spare', found, taken, keeps'⟩
    · rw [nothing, Option.bind_some]
      have few := (kept.sound.splits.length_le kept.sound.sorted).trans_lt room
      rcases kept.swapOut own few with stays | ⟨k₁, store₁, swapped, swaps, kept₁, own₁, area₁,
        ⟨p, able, others⟩, moves₁, logged₁, live₁, length₁⟩
      · simp only [stays, Option.bind_some]
        exact ⟨k, noMem, _, [], rfl, .fails none_fits, kept, rfl, (List.append_nil _).symm, rfl⟩
      · have fewer : k₁.candidates.card < k.candidates.card := by
          refine Finset.card_lt_card
            ((Finset.ssubset_iff_of_subset fun q member => ?_).mpr ⟨p, ?_, ?_⟩)
          · simp only [candidates, Finset.mem_filter, Finset.mem_univ, true_and] at member ⊢
            exact ((others q).mp member).2
          · simpa [candidates] using able
          · simp [candidates, others]
        have length' : store₁.live.length = live.length := length₁
        obtain ⟨k', base, store, moves, done, allocates, kept', area', logged, live'⟩ :=
          @inductionHypothesis k₁ store₁.free store₁.live kept₁ own₁ (by omega) (by omega)
        simp only [swapped, Option.bind_some]
        rw [swapBase_of_area area₁] at allocates
        refine ⟨k', base, store, moves₁ ++ moves, done, .swaps none_fits swaps allocates, kept',
          area'.trans area₁, ?_, ?_⟩
        · rw [logged, logged₁, List.append_assoc]
        · rw [live', live₁, follow, follow, follow, List.foldl_append]
    · have large (extent : Extent) (suits : HoleTable.fits k.swapBase clicks extent = true) :
          clicks ≤ extent.len := by
        simp only [HoleTable.fits, Bool.and_eq_true, decide_eq_true_eq] at suits
        exact suits.2
      have sound' := kept.sound.take large found
      have some : base ≠ noMem := by
        obtain ⟨front, extent, rest, rfl, rfl, -⟩ := take_eq_some found
        exact Nat.pos_iff_ne_zero.mp (kept.sound.inside_free extent (by simp)).1
      refine ⟨{ k with holes := t' }, base, _, [], ?_, .fits found,
        ⟨⟨nodes', spare', keeps'⟩, sound', kept.outswap⟩, rfl, (List.append_nil _).symm, ?_⟩
      · rw [taken]
        rfl
      · exact (if_neg some).symm

theorem Kept.allocMem (kept : Kept k region ⟨free, live⟩) (own : k.Own live)
    (room : region.length + live.length < 2 * nrProcs) (clicks : Nat) :
    ∃ k' base store moves, k.allocMem clicks = some (k', base) ∧
      Allocates k.swapBase clicks ⟨free, live⟩ store base ∧ Kept k' region store ∧
      k'.area = k.area ∧ k'.moves = k.moves ++ moves ∧
      store.live = handedOut (follow live moves) base clicks := by
  refine kept.allocLoop own room (Nat.lt_succ_of_le ?_)
  exact (Finset.card_le_univ _).trans_eq (Fintype.card_fin _)

end Search

end Minix.Mm.Memory
