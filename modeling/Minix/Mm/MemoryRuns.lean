/-
This file proves what holds in every run of the memory allocator of MM, from the chunks of memory
that the kernel names on: the hole list is sorted, without neighbours that touch, its slots and the
free ones make up the table, and each call does what it is for. That the table has a slot left takes
a bound on the blocks in use; without it, blocks of one click fill the table.
-/

import Minix.Mm.Blocks

namespace Minix.Mm.Memory

open Function (update)
open Extents Kernel Transition

/-! ### The chunks of memory -/

/-- A chunk as an extent. -/
def chunkExtent (chunk : Nat × Nat) : Extent := { base := chunk.1, len := chunk.2 }

/-- The memory that `mem_init` finds, in separate parts. -/
def layout (free : List Extent) (chunks : List (Nat × Nat)) : List Extent :=
  chunks.foldl (fun free chunk => release (chunkExtent chunk) free) free

/-- The kernel names chunks that do not overlap, lie behind the first click and leave room for the
swap area, and are not more than the table has slots. -/
structure Chunks (chunks : List (Nat × Nat)) : Prop where
  size : ∀ chunk ∈ chunks, 0 < chunk.1 ∧ 0 < chunk.2 ∧ chunk.1 + chunk.2 < 2 ^ 32 - 1
  apart : chunks.Pairwise fun first second => (chunkExtent first).Disjoint (chunkExtent second)
  few : chunks.length ≤ 2 * nrProcs

section Init

variable {k : Memory} {free : List Extent} {nodes spare : List (Fin (2 * nrProcs))}
  {chunks : List (Nat × Nat)}

/-- What `mem_init` has built so far. -/
structure Built (k : Memory) (free : List Extent) : Prop where
  table : ∃ nodes spare, k.holes.Keeps nodes spare free
  sorted : Sorted free
  inside : HoleTable.Inside free
  below : ∀ extent ∈ free, extent.stop ≤ k.swapBase
  swapBase : k.swapBase < 2 ^ 32 - 1
  outswap : k.outswap = lowUser
  swapFd : k.swapFd = false

theorem Built.addChunk (built : Built k free) {chunk : Nat × Nat}
    (size : 0 < chunk.1 ∧ 0 < chunk.2 ∧ chunk.1 + chunk.2 < 2 ^ 32 - 1)
    (apart : ∀ x, (chunkExtent chunk).Contains x → ¬ Covers free x)
    (room : free.length < 2 * nrProcs) :
    ∃ k', k.addChunk chunk = some k' ∧ Built k' (release (chunkExtent chunk) free) := by
  obtain ⟨nodes, spare, keeps⟩ := built.table
  obtain ⟨low, pos, high⟩ := size
  have disjoint : ∀ extent ∈ free, (chunkExtent chunk).Disjoint extent := fun extent member =>
    Extent.disjoint_of_not_contains pos (built.sorted.pos extent member) fun x inside inside' =>
      apart x inside ⟨extent, member, inside'⟩
  have left : spare ≠ [] := by
    rintro rfl
    have length := keeps.toHolds.length
    rw [← List.length_map k.holes.extent, keeps.free_eq] at length
    simp only [List.length_nil] at length
    omega
  obtain ⟨t', nodes', spare', freed, keeps'⟩ := keeps.freeMem built.sorted built.inside pos low
    (by omega) disjoint left
  have sorted' := built.sorted.release pos disjoint
  have stop : Word.add 32 chunk.1 chunk.2 = chunk.1 + chunk.2 := Word.add_of_lt (by omega)
  have covered {bound : Nat} (big : k.swapBase ≤ bound) (big' : chunk.1 + chunk.2 ≤ bound) :
      ∀ extent ∈ release (chunkExtent chunk) free, extent.stop ≤ bound := fun extent member =>
    stop_le_of_mem_release member big' fun other member' => (built.below other member').trans big
  have swapBase := built.swapBase
  have inside' : HoleTable.Inside (release (chunkExtent chunk) free) := fun extent member =>
    ⟨bound_of_mem_release member low fun other member' => (built.inside other member').1,
      covered (by omega) (by omega) extent member⟩
  rw [Memory.addChunk, Memory.freeMem, freed, stop]
  simp only [Option.map_some]
  split
  case isTrue higher =>
    exact ⟨_, rfl, ⟨nodes', spare', keeps'⟩, sorted', inside', covered higher.le le_rfl, high,
      built.outswap, built.swapFd⟩
  case isFalse lower =>
    exact ⟨_, rfl, ⟨nodes', spare', keeps'⟩, sorted', inside', covered le_rfl (not_lt.mp lower),
      swapBase, built.outswap, built.swapFd⟩

theorem Built.addChunks (built : Built k free)
    (size : ∀ chunk ∈ chunks, 0 < chunk.1 ∧ 0 < chunk.2 ∧ chunk.1 + chunk.2 < 2 ^ 32 - 1)
    (apart : chunks.Pairwise fun first second => (chunkExtent first).Disjoint (chunkExtent second))
    (fresh : ∀ chunk ∈ chunks, ∀ x, (chunkExtent chunk).Contains x → ¬ Covers free x)
    (room : free.length + chunks.length ≤ 2 * nrProcs) :
    ∃ k', chunks.foldlM Memory.addChunk k = some k' ∧ Built k' (layout free chunks) := by
  induction chunks generalizing k free with
  | nil => exact ⟨k, rfl, built⟩
  | cons chunk chunks inductionHypothesis =>
    obtain ⟨first, apart'⟩ := List.pairwise_cons.mp apart
    rw [List.length_cons] at room
    obtain ⟨k₁, added, built₁⟩ := built.addChunk (size chunk List.mem_cons_self)
      (fresh chunk List.mem_cons_self) (by omega)
    obtain ⟨k', done, built'⟩ := inductionHypothesis built₁
      (fun other member => size other (List.mem_cons_of_mem _ member)) apart'
      (fun other member x inside => by
        rw [covers_release, not_or]
        exact ⟨(first other member).symm.not_contains inside,
          fresh other (List.mem_cons_of_mem _ member) x inside⟩)
      (by
        have length := @length_release_le free (chunkExtent chunk)
        omega)
    refine ⟨k', ?_, built'⟩
    rw [List.foldlM_cons, added]
    exact done

/-- The memory is free at the start, and the swap area starts behind all of it. -/
theorem Chunks.memInit (chunks_ok : Chunks chunks) :
    ∃ k, memInit chunks = some k ∧ Kept k (layout [] chunks) ⟨layout [] chunks, []⟩ ∧
      k.swapFd = false ∧ (∀ extent ∈ layout [] chunks, extent.stop < k.swapBase) ∧
      0 < k.swapBase ∧ k.swapBase + k.swapMaxsize = 2 ^ 32 := by
  obtain ⟨k, done, built⟩ := @Built.addChunks { holes := .empty _ } [] chunks
    ⟨⟨_, _, HoleTable.keeps_empty _⟩, .nil, by simp [HoleTable.Inside], by simp,
      (by decide : 0 < 2 ^ 32 - 1), rfl, rfl⟩ chunks_ok.size chunks_ok.apart (by simp)
    (by simpa using chunks_ok.few)
  have small := built.swapBase
  have next : Word.add 32 k.swapBase 1 = k.swapBase + 1 := Word.add_of_lt (by omega)
  have rest : Word.sub 32 0 (k.swapBase + 1) = 2 ^ 32 - (k.swapBase + 1) :=
    Word.sub_of_lt (Nat.succ_pos _) (by omega)
  refine ⟨{ k with
      swapBase := k.swapBase + 1
      swapMaxsize := 2 ^ 32 - (k.swapBase + 1) }, ?_, ⟨built.table, ⟨built.sorted, ?_, .nil,
    built.inside⟩, built.outswap ▸ le_rfl⟩, built.swapFd, fun extent member =>
      Nat.lt_succ_of_le (built.below extent member), Nat.succ_pos _, ?_⟩
  · rw [Memory.memInit, done]
    simp only [Option.map_some, next, rest]
  · exact ⟨fun x => by simp, fun x _ => by simp⟩
  · show k.swapBase + 1 + (2 ^ 32 - (k.swapBase + 1)) = 2 ^ 32
    omega

end Init

/-! ### Runs -/

/-- The allocator together with what its callers have got. -/
structure Session where
  memory : Memory
  /-- The blocks that were handed out and not given back, where they are now. -/
  live : List Extent := []
  /-- The memory and the swap area, in separate parts. -/
  region : List Extent
  /-- What `alloc_mem` returned last. -/
  answer : Nat := noMem

/-- The calls of `mm/alloc.c`, and a change to the process table by the rest of MM. -/
inductive Call
  | alloc (clicks : Nat)
  | free (block : Extent)
  | swapOn (opens : Bool) (size : Nat)
  | table (mproc : Fin nrProcs → Mproc)

namespace Session

/-- `mem_init` -/
def start (chunks : List (Nat × Nat)) : Option Session :=
  (memInit chunks).map fun memory => { memory, region := layout [] chunks }

def step (s : Session) : Call → Option Session
  | .alloc clicks =>
    (allocMem { s.memory with moves := [] } clicks).map fun done =>
      { s with
        memory := done.1
        live := handedOut (follow s.live done.1.moves) done.2 clicks
        answer := done.2 }
  | .free block =>
    (s.memory.freeMem block.base block.len).map fun memory =>
      { s with memory, live := s.live.erase block }
  | .swapOn opens size =>
    (s.memory.swapOn opens size).map fun done =>
      { s with
        memory := done.1
        region :=
          if done.1.swapFd = s.memory.swapFd ∨ min (size / clickSize) s.memory.swapMaxsize = 0 then
            s.region
          else
            release
              { base := s.memory.swapBase, len := min (size / clickSize) s.memory.swapMaxsize }
              s.region }
  | .table mproc => some { s with memory := { s.memory with mproc } }

/-- Only a block that was handed out is given back, and each process that may be swapped out has
such a block of its own. -/
def Conduct (s : Session) : Call → Prop
  | .alloc _ => s.memory.Own s.live
  | .free block => block ∈ s.live
  | .swapOn _ _ | .table _ => True

instance (s : Session) : (call : Call) → Decidable (s.Conduct call)
  | .alloc _ => inferInstanceAs (Decidable (s.memory.Own s.live))
  | .free block => inferInstanceAs (Decidable (block ∈ s.live))
  | .swapOn _ _ | .table _ => inferInstanceAs (Decidable True)

/-- The blocks in use and the separate parts of the memory and the swap area are fewer than the
slots of the hole table. -/
def Room (s : Session) : Prop := s.region.length + s.live.length < 2 * nrProcs

instance (s : Session) : Decidable s.Room := inferInstanceAs (Decidable (_ < _))

/-- The hole table of a session: its two lists, and the extents that it keeps. -/
structure Holes (s : Session) (nodes spare : List (Fin (2 * nrProcs))) (free : List Extent) :
    Prop where
  keeps : s.memory.holes.Keeps nodes spare free
  sound : Sound s.region ⟨free, s.live⟩

/-- What a call does to the holes and the blocks in use. -/
def Effect (s : Session) (free : List Extent) (s' : Session) (free' : List Extent) : Call → Prop
  | .alloc clicks =>
    Allocates s.memory.swapBase clicks ⟨free, s.live⟩ ⟨free', s'.live⟩ s'.answer
  | .free block =>
    (∀ x, Covers free' x ↔ block.Contains x ∨ Covers free x) ∧ s'.live = s.live.erase block
  | .swapOn _ _ =>
    (∀ x, Covers free' x ↔ Covers free x ∨ Covers s'.region x ∧ ¬ Covers s.region x) ∧
      s'.live = s.live
  | .table _ => free' = free ∧ s'.live = s.live

/-- What holds in every state that is reached. -/
structure Good (s : Session) : Prop where
  kept : ∃ free, Kept s.memory s.region ⟨free, s.live⟩
  apart : s.memory.swapFd = false → ∀ extent ∈ s.region, extent.stop < s.memory.swapBase
  swapBase : 0 < s.memory.swapBase
  swapMaxsize : s.memory.swapBase + s.memory.swapMaxsize = 2 ^ 32

variable {s : Session} {free : List Extent} {nodes spare : List (Fin (2 * nrProcs))}
  {chunks : List (Nat × Nat)}

theorem good_start (chunksOk : Chunks chunks) (begins : start chunks = some s) : Good s := by
  obtain ⟨k, done, kept, swapFd, below, low, high⟩ := chunksOk.memInit
  rw [start, done] at begins
  obtain rfl := Option.some.inj begins
  exact ⟨⟨_, kept⟩, fun _ => below, low, high⟩

theorem disjoint_behind {region live : List Extent} {piece : Extent}
    (sound : Sound region ⟨free, live⟩) (behind : ∀ extent ∈ region, extent.stop < piece.base)
    (pos : 0 < piece.len) : ∀ extent ∈ free, piece.Disjoint extent := fun extent member =>
  Extent.disjoint_of_not_contains pos (sound.sorted.pos extent member) fun x inside inside' => by
    obtain ⟨part, member', -, inside''⟩ :=
      (sound.splits.either x).mpr (.inl ⟨extent, member, inside'⟩)
    exact absurd inside.1 (not_le.mpr (inside''.trans (behind part member')))

theorem sound_grow {region live : List Extent} {piece : Extent} (sound : Sound region ⟨free, live⟩)
    (behind : ∀ extent ∈ region, extent.stop < piece.base) (pos : 0 < piece.len)
    (low : 0 < piece.base) (high : piece.stop ≤ 2 ^ 32) :
    Sound (release piece region) ⟨release piece free, live⟩ where
  sorted := sound.sorted.release pos (disjoint_behind sound behind pos)
  splits := by
    refine ⟨fun x => ?_, fun x inside used => ?_⟩
    · rw [covers_release, covers_release, sound.splits.either x, or_assoc]
    · rcases covers_release.mp inside with inside | inside
      · obtain ⟨part, member, -, inside'⟩ := (sound.splits.either x).mpr (.inr used)
        exact absurd inside.1 (not_le.mpr (inside'.trans (behind part member)))
      · exact sound.splits.apart x inside used
  apart := sound.apart
  inside := fun _ member =>
    ⟨bound_of_mem_release member low fun other member' => (sound.inside other member').1,
      stop_le_of_mem_release member high fun other member' => (sound.inside other member').2⟩

theorem spare_ne_nil {t : HoleTable (2 * nrProcs)} (keeps : t.Keeps nodes spare free)
    (few : free.length < 2 * nrProcs) : spare ≠ [] := by
  rintro rfl
  have length := keeps.toHolds.length
  rw [← List.length_map t.extent, keeps.free_eq] at length
  simp only [List.length_nil] at length
  omega

/-- Turning swapping on opens its area or changes nothing. -/
theorem Good.swapOn (good : Good s) (holes : s.Holes nodes spare free)
    (few : free.length < 2 * nrProcs) (opens : Bool) (size : Nat) :
    ∃ s' nodes' spare' free', s.step (.swapOn opens size) = some s' ∧ Good s' ∧
      s'.Holes nodes' spare' free' ∧ s.Effect free s' free' (.swapOn opens size) := by
  obtain ⟨free₀, kept⟩ := good.kept
  have kept := Kept.mk ⟨nodes, spare, holes.keeps⟩ holes.sound kept.outswap
  have same : s.Effect free s free (.swapOn opens size) := ⟨fun x => by tauto, rfl⟩
  by_cases used : s.memory.swapFd = true
  · refine ⟨s, nodes, spare, free, ?_, good, holes, same⟩
    simp [Session.step, Memory.swapOn, used]
  rw [Bool.not_eq_true] at used
  by_cases fails : opens = false
  · refine ⟨s, nodes, spare, free, ?_, good, holes, same⟩
    simp [Session.step, Memory.swapOn, used, fails]
  rw [Bool.not_eq_false] at fails
  by_cases empty : min (size / clickSize) s.memory.swapMaxsize = 0
  · refine ⟨{ s with memory := { s.memory with swapFd := true } }, nodes, spare, free, ?_,
      ⟨⟨free, ⟨nodes, spare, holes.keeps⟩, holes.sound, kept.outswap⟩, by simp, good.swapBase,
        good.swapMaxsize⟩, ⟨holes.keeps, holes.sound⟩, same⟩
    simp [Session.step, Memory.swapOn, used, fails, empty]
  · have pos := Nat.pos_of_ne_zero empty
    have high : s.memory.swapBase + min (size / clickSize) s.memory.swapMaxsize ≤ 2 ^ 32 := by
      have most := min_le_right (size / clickSize) s.memory.swapMaxsize
      have whole := good.swapMaxsize
      omega
    obtain ⟨piece, piece_eq⟩ : ∃ piece : Extent, piece =
        { base := s.memory.swapBase, len := min (size / clickSize) s.memory.swapMaxsize } :=
      ⟨_, rfl⟩
    have base : piece.base = s.memory.swapBase := by rw [piece_eq]
    have len : piece.len = min (size / clickSize) s.memory.swapMaxsize := by rw [piece_eq]
    have pos' : 0 < piece.len := len ▸ pos
    have low : 0 < piece.base := base ▸ good.swapBase
    have high' : piece.stop ≤ 2 ^ 32 := by
      rw [Extent.stop, base, len]
      exact high
    have behind : ∀ extent ∈ s.region, extent.stop < piece.base := base ▸ good.apart used
    obtain ⟨t', nodes', spare', freed, keeps'⟩ := holes.keeps.freeMem holes.sound.sorted
      holes.sound.inside_free pos' low high' (disjoint_behind holes.sound behind pos')
      (spare_ne_nil holes.keeps few)
    have sound' := sound_grow holes.sound behind pos' low high'
    refine ⟨{ s with
        memory := { s.memory with swapFd := true, holes := t' }
        region := release piece s.region }, nodes', spare', release piece free, ?_,
      ⟨⟨_, ⟨nodes', spare', keeps'⟩, sound', kept.outswap⟩, by simp, good.swapBase,
        good.swapMaxsize⟩, ⟨keeps', sound'⟩, fun x => ?_, rfl⟩
    · rw [base, len] at freed
      simp [Session.step, Memory.swapOn, used, fails, empty, pos, Memory.freeMem, freed, piece_eq]
    · rw [covers_release, covers_release]
      have outside (inside : piece.Contains x) : ¬ Covers s.region x := by
        rintro ⟨part, member, -, inside'⟩
        exact absurd inside.1 (not_le.mpr (inside'.trans (behind part member)))
      tauto

/-- Every call that is made as it should be completes, does what it is for, and keeps the table. -/
theorem Good.step (good : Good s) (holes : s.Holes nodes spare free) {call : Call}
    (conduct : s.Conduct call) (room : s.Room) :
    ∃ s' nodes' spare' free', s.step call = some s' ∧ Good s' ∧ s'.Holes nodes' spare' free' ∧
      s.Effect free s' free' call := by
  have few : free.length < 2 * nrProcs :=
    (holes.sound.splits.length_le holes.sound.sorted).trans_lt room
  obtain ⟨free₀, kept⟩ := good.kept
  have kept := Kept.mk ⟨nodes, spare, holes.keeps⟩ holes.sound kept.outswap
  cases call with
  | alloc clicks =>
    obtain ⟨k', base, store, moves, done, allocates, kept', area, logged, live⟩ :=
      @Kept.allocMem { s.memory with moves := [] } s.region free s.live
        ⟨⟨nodes, spare, holes.keeps⟩, holes.sound, kept.outswap⟩ conduct room clicks
    obtain ⟨nodes', spare', keeps'⟩ := kept'.table
    rw [List.nil_append] at logged
    have same : handedOut (follow s.live k'.moves) base clicks = store.live := by
      rw [logged, live]
    have swapFd : k'.swapFd = s.memory.swapFd := congrArg Prod.fst area
    have swapBase : k'.swapBase = s.memory.swapBase := swapBase_of_area area
    have swapMaxsize : k'.swapMaxsize = s.memory.swapMaxsize :=
      congrArg (fun area => area.2.2) area
    refine ⟨{ s with memory := k', live := store.live, answer := base }, nodes', spare', store.free,
      ?_, ⟨⟨store.free, kept'⟩, ?_, ?_, ?_⟩, ⟨keeps', kept'.sound⟩, allocates⟩
    · rw [Session.step, done]
      simp only [Option.map_some, same]
    · show k'.swapFd = false → ∀ extent ∈ s.region, extent.stop < k'.swapBase
      rw [swapFd, swapBase]
      exact good.apart
    · show 0 < k'.swapBase
      rw [swapBase]
      exact good.swapBase
    · show k'.swapBase + k'.swapMaxsize = 2 ^ 32
      rw [swapBase, swapMaxsize]
      exact good.swapMaxsize
  | free block =>
    obtain ⟨t', nodes', spare', freed, keeps'⟩ := freeBlock holes.keeps holes.sound conduct few
    have sound' := holes.sound.release (List.perm_cons_erase conduct)
    refine ⟨{ s with memory := { s.memory with holes := t' }, live := s.live.erase block }, nodes',
      spare', _, ?_, ⟨⟨_, ⟨nodes', spare', keeps'⟩, sound', kept.outswap⟩, good.apart,
        good.swapBase, good.swapMaxsize⟩, ⟨keeps', sound'⟩, fun x => ?_, rfl⟩
    · rw [Session.step, Memory.freeMem, freed]
      rfl
    · by_cases empty : block.len = 0
      · rw [if_pos empty]
        have nothing : ¬ block.Contains x := by
          simp only [Extent.Contains, Extent.stop]
          omega
        tauto
      · rw [if_neg empty]
        exact covers_release
  | swapOn opens size => exact good.swapOn holes few opens size
  | table mproc =>
    exact ⟨_, nodes, spare, free, rfl, ⟨⟨free, ⟨nodes, spare, holes.keeps⟩, holes.sound,
      kept.outswap⟩, good.apart, good.swapBase, good.swapMaxsize⟩, ⟨holes.keeps, holes.sound⟩,
      rfl, rfl⟩

theorem good_of_run {chunks : List (Nat × Nat)} {begin : Session} {calls : List Call}
    (chunksOk : Chunks chunks) (begins : start chunks = some begin)
    (run : Run step (fun s call => s.Conduct call ∧ s.Room) begin calls s) : Good s := by
  refine run.invariant (good_start chunksOk begins) fun s call after good allowed completed => ?_
  obtain ⟨free, kept⟩ := good.kept
  obtain ⟨nodes, spare, keeps⟩ := kept.table
  obtain ⟨s', -, -, -, completed', good', -⟩ := good.step ⟨keeps, kept.sound⟩ allowed.1 allowed.2
  exact Option.some.inj (completed.symm.trans completed') ▸ good'

/-- In every run in which only blocks that were handed out are given back, and in which the blocks
in use leave a slot of the hole table free, the table holds a sorted list of holes that do not
touch, its slots are those of the holes and the free ones, and the next call completes and does
what it is for: `alloc_mem` takes the clicks from the lowest hole that is large enough and swaps
only if there is none, and `free_mem` adds the block. -/
theorem hole_list_is_kept {chunks : List (Nat × Nat)} {begin : Session} {calls : List Call}
    (chunksOk : Chunks chunks) (begins : start chunks = some begin)
    (run : Run step (fun s call => s.Conduct call ∧ s.Room) begin calls s) :
    ∃ nodes spare free, s.Holes nodes spare free ∧ Sorted free ∧
      ∀ call, s.Conduct call → s.Room →
        ∃ s' nodes' spare' free', s.step call = some s' ∧ s'.Holes nodes' spare' free' ∧
          s.Effect free s' free' call := by
  have good := good_of_run chunksOk begins run
  obtain ⟨free, kept⟩ := good.kept
  obtain ⟨nodes, spare, keeps⟩ := kept.table
  refine ⟨nodes, spare, free, ⟨keeps, kept.sound⟩, kept.sound.sorted, fun call conduct room => ?_⟩
  obtain ⟨s', nodes', spare', free', completed, -, holes', effect⟩ :=
    good.step ⟨keeps, kept.sound⟩ conduct room
  exact ⟨s', nodes', spare', free', completed, holes', effect⟩

/-- What the allocator reaches from the given chunks of memory when it is called like this. -/
def reached (guard : Session → Call → Prop) [∀ s call, Decidable (guard s call)]
    (chunks : List (Nat × Nat)) (calls : List Call) : Option Session :=
  (start chunks).bind (execute step guard calls)

theorem run_of_reached {guard : Session → Call → Prop} [∀ s call, Decidable (guard s call)]
    {calls : List Call} (completes : (reached guard chunks calls).isSome = true) :
    ∃ begin s, start chunks = some begin ∧ reached guard chunks calls = some s ∧
      Run step guard begin calls s := by
  obtain ⟨s, reaches⟩ := Option.isSome_iff_exists.mp completes
  obtain ⟨begin, begins, executed⟩ := Option.bind_eq_some_iff.mp reaches
  exact ⟨begin, s, begins, reaches, .of_execute executed⟩

/-- Process 5 waits, and has the 100 clicks of memory that were handed out first. -/
def waiter (p : Fin nrProcs) : Mproc :=
  if p.val = 5 then
    { waiting := true
      seg :=
        { data := { vir := 0, phys := 1000, len := 40 }
          stack := { vir := 60, phys := 1060, len := 40 } } }
  else {}

/-- The memory is used up when a process is loaded, and the one that waits goes to the swap area;
then the new one ends. -/
def swapping : List Call :=
  [.alloc 100, .alloc 150, .swapOn true 512000, .table waiter, .alloc 80,
    .free { base := 1100, len := 150 }]

/-- A process has been sent to the swap area, and the list of holes is right. -/
theorem hole_list_is_kept_swapping :
    ∃ s nodes spare free,
      reached (fun s call => s.Conduct call ∧ s.Room) [(1000, 300)] swapping = some s ∧
        (s.answer, s.live) =
          (1000, [{ base := 1000, len := 80 }, { base := 1301, len := 100 }]) ∧
        s.Holes nodes spare free ∧ Sorted free := by
  have completes : ((reached (fun s call => s.Conduct call ∧ s.Room) [(1000, 300)] swapping).map
      fun s => (s.answer, s.live)) =
      some (1000, [{ base := 1000, len := 80 }, { base := 1301, len := 100 }]) := by decide
  obtain ⟨begin, s, begins, reaches, run⟩ := run_of_reached (Option.isSome_map.symm.trans
    (congrArg Option.isSome completes))
  obtain ⟨nodes, spare, free, holes, sorted, -⟩ := hole_list_is_kept
    ⟨by decide, by decide, by decide⟩ begins run
  rw [reaches] at completes
  exact ⟨s, nodes, spare, free, reaches, Option.some.inj completes, holes, sorted⟩

/-! ### A full table -/

/-- Blocks of one click are handed out, and every other one is given back. -/
def scattered : List Call :=
  List.replicate 130 (.alloc 1) ++
    (List.range 63).map fun i => .free { base := 228 - 2 * i, len := 1 }

/-- With a table full of holes, a block that was handed out cannot be given back. -/
theorem hole_table_full :
    ∃ begin s, start [(100, 300)] = some begin ∧ Run step Conduct begin scattered s ∧
      s.Conduct (.free { base := 102, len := 1 }) ∧
      s.step (.free { base := 102, len := 1 }) = none := by
  have completes : ((reached Conduct [(100, 300)] scattered).map fun s =>
      decide (s.Conduct (.free { base := 102, len := 1 })) &&
        (s.step (.free { base := 102, len := 1 })).isNone) = some true := by decide +kernel
  obtain ⟨begin, s, begins, reaches, run⟩ := run_of_reached (Option.isSome_map.symm.trans
    (congrArg Option.isSome completes))
  rw [reaches] at completes
  have facts := Option.some.inj completes
  rw [Bool.and_eq_true, decide_eq_true_eq, Option.isNone_iff_eq_none] at facts
  exact ⟨begin, s, begins, run, facts⟩

/-! ### The past of the hole list -/

/-- The hole list does not depend on the past: two runs that end with the same memory in use, and
with the same swap area, end with the same holes, whatever was handed out, given back and swapped
before. When all memory has been given back, they are the holes there were at the start. -/
theorem holes_forget_past {chunks : List (Nat × Nat)} {begin s' : Session} {calls calls' : List Call}
    (chunksOk : Chunks chunks) (begins : start chunks = some begin)
    (run : Run step (fun s call => s.Conduct call ∧ s.Room) begin calls s)
    (run' : Run step (fun s call => s.Conduct call ∧ s.Room) begin calls' s')
    (region : ∀ x, Covers s.region x ↔ Covers s'.region x)
    (live : ∀ x, Covers s.live x ↔ Covers s'.live x) :
    ∃ free nodes spare nodes' spare', s.Holes nodes spare free ∧ s'.Holes nodes' spare' free := by
  obtain ⟨free, ⟨nodes, spare, keeps⟩, sound, -⟩ := (good_of_run chunksOk begins run).kept
  obtain ⟨free', ⟨nodes', spare', keeps'⟩, sound', -⟩ := (good_of_run chunksOk begins run').kept
  have same : free = free' := sound.sorted.unique sound'.sorted fun x => by
    have either := sound.splits.either x
    have either' := sound'.splits.either x
    have apart := sound.splits.apart x
    have apart' := sound'.splits.apart x
    rw [region, live] at either
    rw [live] at apart
    tauto
  exact ⟨free, nodes, spare, nodes', spare', ⟨keeps, sound⟩, same ▸ ⟨keeps', sound'⟩⟩

/-- Three blocks are handed out and given back in another order. -/
def givenBack : List Call :=
  [.alloc 100, .alloc 50, .alloc 20, .free { base := 1100, len := 50 },
    .free { base := 1150, len := 20 }, .free { base := 1000, len := 100 }]

/-- What was allocated is given back in another order, and the holes are those of the start. -/
theorem holes_forget_past_given_back : ∃ begin s free nodes spare nodes' spare',
    start [(1000, 300)] = some begin ∧
      reached (fun s call => s.Conduct call ∧ s.Room) [(1000, 300)] givenBack = some s ∧
      s.Holes nodes spare free ∧ begin.Holes nodes' spare' free := by
  have completes : ((start [(1000, 300)]).bind fun begin =>
      (reached (fun s call => s.Conduct call ∧ s.Room) [(1000, 300)] givenBack).map fun s =>
        ((begin.region, begin.live), (s.region, s.live))) =
      some (([⟨1000, 300⟩], []), ([⟨1000, 300⟩], [])) := by decide
  obtain ⟨begin, begins, completes⟩ := Option.bind_eq_some_iff.mp completes
  obtain ⟨s, reaches, found⟩ := Option.map_eq_some_iff.mp completes
  obtain ⟨begun, ended⟩ := Prod.mk.inj found
  obtain ⟨region, live⟩ := Prod.mk.inj (ended.trans begun.symm)
  have run := reaches
  rw [reached, begins, Option.bind_some] at run
  obtain ⟨free, nodes, spare, nodes', spare', holes, holes'⟩ := holes_forget_past
    ⟨by decide, by decide, by decide⟩ begins (.of_execute run) .nil (fun x => by rw [region])
    fun x => by rw [live]
  exact ⟨begin, s, free, nodes, spare, nodes', spare', begins, reaches, holes, holes'⟩

end Session

end Minix.Mm.Memory
