/-
This file runs a program that uses the allocator: it calls `malloc`, `realloc` and `free` and
stores to the blocks it holds.

The main result is about every run in which no block is resized to more than `2 ^ 32 - 8` bytes:
the slots and the free list are as the comment in the source says, and the next call does what it
promises.
-/

import Minix.Malloc.Allocation

namespace Minix.Malloc

open Function (update update_of_ne update_eq_self)
open LinkedList Successor Transition

/-! ### What the heap should be -/

/-- The slots follow each other from `_bottom` to `_top`, the free list is in order and has exactly
the slots that are not live, and a live block fits in its slot, apart from all others. -/
structure Arranged (s : Heap) (live : Nat → Option Nat) (slots frees : List Nat) : Prop where
  linked : s.slots.Lists slots
  top : slots.getLast? = ptr s.top
  ascending : slots.Pairwise (· < ·)
  listed : s.frees.Lists frees
  sorted : frees.Pairwise (· < ·)
  free_iff : ∀ p, p ∈ frees ↔ p ∈ slots ∧ p ≠ s.top ∧ live p = none
  fits : ∀ p size, live p = some size →
    p ∈ slots ∧ p ≠ s.top ∧ p ≠ 0 ∧ p + size ≤ s.nextSlot p - ptrSize
  disjoint : ∀ p q size size', live p = some size → live q = some size' → p ≠ q →
    p + size ≤ q ∨ q + size' ≤ p

theorem Sound.arranged {s : Heap} {live : Nat → Option Nat} (sound : Sound s live) :
    ∃ slots frees, Arranged s live slots frees := by
  rcases sound with ⟨bottom, top, empty, dead⟩ | ⟨-, slot, laid⟩
  · refine ⟨[], [], congrArg ptr bottom, (congrArg ptr top).symm, .nil, congrArg ptr empty, .nil,
      fun p => by simp, fun p size lives => ?_, fun p q size size' lives => ?_⟩
    all_goals
      rw [dead p] at lives
      cases lives
  · have below (p : Nat) (member : slot p) : p < s.top + 1 := Nat.lt_succ_of_le
      (laid.le_top p member)
    obtain ⟨slots, linked, ascending, slots_iff⟩ := laid.slots.lists below
    obtain ⟨frees, listed, sorted, frees_iff⟩ := laid.free.lists fun p free => below p free.1
    refine ⟨slots, frees, linked, ?_, ascending, listed, sorted, fun p => ?_,
      fun p size lives => ?_, fun p q size size' lives lives' other => ?_⟩
    · have low := (laid.aligned s.top laid.slot_top).2
      rw [ptr_of_ne (by omega)]
      obtain ⟨front, back, split⟩ := List.append_of_mem ((slots_iff s.top).mpr laid.slot_top)
      cases back with
      | nil => simp [split]
      | cons next back =>
        have member := (slots_iff next).mp (by simp [split])
        have above : s.top < next := by
          rw [split] at ascending
          exact List.rel_of_pairwise_cons (List.pairwise_append.mp ascending).2.1 (by simp)
        exact absurd (laid.le_top next member) (Nat.not_le.mpr above)
    · rw [frees_iff, slots_iff, Free]
    · obtain ⟨member, notTop, enough⟩ := laid.fits p size lives
      have low := (laid.aligned p member).2
      exact ⟨(slots_iff p).mpr member, notTop, by omega, by simp only [ptrSize]; omega⟩
    · obtain ⟨member, notTop, enough⟩ := laid.fits p size lives
      obtain ⟨member', notTop', enough'⟩ := laid.fits q size' lives'
      rcases Nat.lt_or_gt_of_ne other with before | after
      · have := (laid.behind member notTop).2.2.2 q member' before
        exact .inl (by omega)
      · have := (laid.behind member' notTop').2.2.2 p member after
        exact .inr (by omega)

/-! ### The program -/

/-- What the program does next. -/
inductive Call where
  | malloc (env : Brk) (size : Nat)
  | realloc (env : Brk) (old size : Nat)
  | free (p : Nat)
  | store (p offset value : Nat)

/-- The heap, the blocks that the program holds with the sizes it asked for, and the result of the
last call. -/
structure State where
  heap : Heap := {}
  live : Nat → Option Nat := fun _ => none
  result : Nat := 0

namespace State

def step (state : State) : Call → Option State
  | .malloc env size =>
    (state.heap.malloc env size).map fun done =>
      { heap := done.1
        live := if done.2 = 0 then state.live else update state.live done.2 (some size)
        result := done.2 }
  | .realloc env old size =>
    (state.heap.realloc env old size).map fun done =>
      { heap := done.1
        live :=
          if done.2 = 0 then if size = 0 then update state.live old none else state.live
          else update (update state.live old none) done.2 (some size)
        result := done.2 }
  | .free p =>
    (state.heap.free p).map fun heap => { heap, live := update state.live p none }
  | .store p offset value =>
    some
      { heap := { state.heap with mem := update state.heap.mem (p + offset) value }
        live := state.live }

/-- Sizes are words, and only live blocks are freed, resized or written to. -/
def Allowed (state : State) : Call → Prop
  | .malloc env size => env.Ok ∧ size < 2 ^ 32
  | .realloc env old size =>
    env.Ok ∧ size < 2 ^ 32 ∧ (old = 0 ∨ (state.live old).isSome)
  | .free p => p = 0 ∨ (state.live p).isSome
  | .store p offset value => (∃ held ∈ state.live p, offset < held) ∧ value < 2 ^ 32

instance (env : Brk) : Decidable env.Ok :=
  inferInstanceAs (Decidable (∀ p ∈ env.sbrk, 0 < p ∧ p + 2 * ptrSize ≤ 2 ^ 32))

instance (state : State) : ∀ call, Decidable (state.Allowed call)
  | .malloc env size => inferInstanceAs (Decidable (env.Ok ∧ size < 2 ^ 32))
  | .realloc env old size =>
    inferInstanceAs (Decidable (env.Ok ∧ size < 2 ^ 32 ∧ (old = 0 ∨ (state.live old).isSome)))
  | .free p => inferInstanceAs (Decidable (p = 0 ∨ (state.live p).isSome))
  | .store p offset value =>
    inferInstanceAs (Decidable ((∃ held ∈ state.live p, offset < held) ∧ value < 2 ^ 32))

/-- The size of a block that is resized can be rounded up. -/
def Fitting : Call → Prop
  | .realloc _ old size => old = 0 ∨ size ≤ 2 ^ 32 - 8
  | _ => True

instance : ∀ call, Decidable (Fitting call)
  | .realloc _ old size => inferInstanceAs (Decidable (old = 0 ∨ size ≤ 2 ^ 32 - 8))
  | .malloc _ _ | .free _ | .store _ _ _ => .isTrue trivial

/-- The other live blocks hold what they held. A new block was not live; a block that is resized
keeps its first bytes, and if that fails all blocks stay as they are. -/
def Kept (state : State) : Call → State → Prop
  | .malloc _ _, after =>
    Untouched state.live state.heap after.heap ∧
      (after.result ≠ 0 → state.live after.result = none)
  | .realloc _ old size, after =>
    Untouched (update state.live old none) state.heap after.heap ∧
      if after.result = 0 then size ≠ 0 → Untouched state.live state.heap after.heap
      else (after.result = old ∨ state.live after.result = none) ∧
        ∀ held, state.live old = some held → ∀ offset < min held size,
          after.heap.mem (after.result + offset) = state.heap.mem (old + offset)
  | .free p, after | .store p _ _, after =>
    Untouched (update state.live p none) state.heap after.heap

/-! ### Every run -/

/-- An allowed call with fitting sizes succeeds and keeps the heap sound. -/
theorem step_spec {state : State} {call : Call} (sound : Sound state.heap state.live)
    (allowed : state.Allowed call) (fitting : Fitting call) :
    ∃ after, state.step call = some after ∧ Sound after.heap after.live ∧ state.Kept
      call after := by
  have null : state.live 0 = none := by
    rcases sound with ⟨-, -, -, dead⟩ | ⟨-, slot, laid⟩
    · exact dead 0
    · cases lives : state.live 0 with
      | none => rfl
      | some size =>
        have := (laid.aligned 0 (laid.fits 0 size lives).1).2
        omega
  have same : update state.live 0 none = state.live := by
    rw [← null, update_eq_self]
  cases call with
  | malloc env size =>
    obtain ⟨s', p, result, kept, outcome⟩ := malloc_spec allowed.1 allowed.2 sound
    refine ⟨_, congrArg (Option.map _) result, ?_, kept, fun found => ?_⟩
    · by_cases failed : p = 0
      · rw [if_pos failed] at outcome
        simpa only [if_pos failed] using outcome
      · rw [if_neg failed] at outcome
        simpa only [if_neg failed] using outcome.2
    · rw [if_neg found] at outcome
      exact outcome.1
  | realloc env old size =>
    obtain ⟨ok, word, holder⟩ := allowed
    by_cases null' : old = 0
    · subst null'
      obtain ⟨s', p, result, kept, outcome⟩ := malloc_spec ok word sound
      refine ⟨_, congrArg (Option.map _) ((if_pos rfl).trans result), ?_, ?_⟩
      · by_cases failed : p = 0
        · rw [if_pos failed] at outcome
          simpa only [if_pos failed, same, ite_self] using outcome
        · rw [if_neg failed] at outcome
          simpa only [if_neg failed, same] using outcome.2
      · rw [Kept, same]
        refine ⟨kept, ?_⟩
        by_cases failed : p = 0
        · simpa only [if_pos failed] using fun _ => kept
        · rw [if_neg failed] at outcome
          refine (if_neg failed).mpr ⟨.inr outcome.1, fun held lives => ?_⟩
          rw [null] at lives
          cases lives
    · obtain ⟨held, lives⟩ := Option.isSome_iff_exists.mp (holder.resolve_left null')
      by_cases zero : size = 0
      · rcases sound with ⟨-, -, -, dead⟩ | ⟨-, slot, laid⟩
        · rw [dead old] at lives
          cases lives
        obtain ⟨s', freed, sound', kept⟩ := laid.free_sound lives
        have result : state.heap.realloc env old size = some (s', 0) := by
          rw [Heap.realloc, if_neg null', if_pos zero, freed]
          rfl
        refine ⟨_, congrArg (Option.map _) result, ?_, kept, ?_⟩
        · simpa only [if_pos zero, if_true] using sound'
        · exact (if_pos rfl).mpr fun positive => absurd zero positive
      · obtain ⟨s', p, result, kept, outcome⟩ :=
          realloc_spec ok (fitting.resolve_left null') zero sound lives
        refine ⟨_, congrArg (Option.map _) result, ?_, kept, ?_⟩
        · by_cases failed : p = 0
          · rw [if_pos failed] at outcome
            simpa only [if_pos failed, if_neg zero] using outcome.1
          · rw [if_neg failed] at outcome
            simpa only [if_neg failed] using outcome.2.1
        · by_cases failed : p = 0
          · rw [if_pos failed] at outcome
            exact (if_pos failed).mpr fun _ => outcome.2
          · rw [if_neg failed] at outcome
            exact (if_neg failed).mpr ⟨outcome.1, outcome.2.2⟩
  | free p =>
    by_cases null' : p = 0
    · subst null'
      refine ⟨_, rfl, ?_, .refl _ _⟩
      simpa only [same] using sound
    · obtain ⟨held, lives⟩ := Option.isSome_iff_exists.mp (allowed.resolve_left null')
      rcases sound with ⟨-, -, -, dead⟩ | ⟨-, slot, laid⟩
      · rw [dead p] at lives
        cases lives
      obtain ⟨s', freed, sound', kept⟩ := laid.free_sound lives
      exact ⟨_, congrArg (Option.map _) freed, sound', kept⟩
  | store p offset value =>
    obtain ⟨⟨held, lives, inside⟩, -⟩ := allowed
    rcases sound with ⟨-, -, -, dead⟩ | ⟨used, slot, laid⟩
    · rw [dead p] at lives
      cases lives
    have enough := (laid.fits p held lives).2.2
    have written (q : Nat)
        (other : update state.heap.mem (p + offset) value q ≠ state.heap.mem q) :
        p ≤ q ∧ q + 4 < state.heap.nextSlot p := by
      by_cases here : q = p + offset
      · omega
      · exact absurd (update_of_ne here _ _) other
    obtain ⟨laid', kept⟩ := laid.scribble lives written
    exact ⟨_, rfl, .inr ⟨used, slot, laid'⟩, kept⟩

/-- In every run that resizes no block to more than `2 ^ 32 - 8` bytes the heap is arranged as it
should be, and the next call completes and does what it promises. -/
theorem heap_is_arranged {calls : List Call} {state : State}
    (run : Run step (fun state call => state.Allowed call ∧ Fitting call) {} calls state) :
    (∃ slots frees, Arranged state.heap state.live slots frees) ∧
      ∀ call, state.Allowed call → Fitting call →
        ∃ after, state.step call = some after ∧ state.Kept call after := by
  have sound : Sound state.heap state.live := by
    refine @Run.invariant State Call step _ {} state calls
      (fun state => Sound state.heap state.live)
      (.inl ⟨rfl, rfl, rfl, fun _ => rfl⟩) (fun state call after sound allowed completed => ?_) run
    obtain ⟨after', completed', sound', -⟩ := step_spec sound allowed.1 allowed.2
    obtain rfl := Option.some.inj (completed.symm.trans completed')
    exact sound'
  refine ⟨sound.arranged, fun call allowed fitting => ?_⟩
  obtain ⟨after, completed, -, kept⟩ := step_spec sound allowed fitting
  exact ⟨after, completed, kept⟩

/-- A program that gets 8 bytes and resizes them. -/
def resizing (size : Nat) : List Call :=
  [.malloc { sbrk := some 4096, brk := true } 8,
    .realloc { sbrk := none, brk := true } 4100 size]

/-- What the program reaches. -/
def resized (size : Nat) : State := reached step Allowed {} (resizing size)

/-- A block of 8 bytes that is resized to 5000 bytes. -/
theorem heap_is_arranged_resized :
    ∃ slots frees, Arranged (resized 5000).heap (resized 5000).live slots frees := by
  have fitting : ∀ call ∈ resizing 5000, Fitting call := by decide
  exact (heap_is_arranged ((reached_run (by decide)).weaken
    fun _ call member allowed => ⟨allowed, fitting call member⟩)).1

/-- The block is returned as resized, although nothing is left of its slot. -/
theorem resized_block_holds_nothing :
    Run step Allowed {} (resizing 0xFFFFFFFD) (resized 0xFFFFFFFD) ∧
      (resized 0xFFFFFFFD).result = 4100 ∧ (resized 0xFFFFFFFD).live 4100 = some 0xFFFFFFFD ∧
      (resized 0xFFFFFFFD).heap.nextSlot 4100 = 4104 ∧
      ¬ ∃ slots frees, Arranged (resized 0xFFFFFFFD).heap (resized 0xFFFFFFFD).live
        slots frees := by
  have lives : (resized 0xFFFFFFFD).live 4100 = some 0xFFFFFFFD := by decide
  have cut : (resized 0xFFFFFFFD).heap.nextSlot 4100 = 4104 := by decide
  refine ⟨reached_run (by decide), by decide, lives, cut, ?_⟩
  rintro ⟨slots, frees, arranged⟩
  have enough := (arranged.fits 4100 _ lives).2.2.2
  rw [cut] at enough
  simp only [ptrSize] at enough
  omega

end State

end Minix.Malloc
