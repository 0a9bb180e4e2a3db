/-
This file proves that any sequence of calls keeps the buffer cache well structured, as long as the
blocks that are released are in use and no block has more than 127 users, which is as far as
`b_count` counts.
-/

import Minix.Cache.Prefetch
import Minix.Library.Transition

namespace Minix.Cache

open DoublyLinked (Linked)
open Function (update update_self update_eq_self update_idem)
open LinkedList (Chain)
open Transition (Run)

variable {Data : Type} {c c' : Pool Data}

/-- The calls of the cache, with what the devices answer during each. -/
inductive CacheCall (Data : Type)
  | getBlock (io : Nat → Answer Data) (fuel : Nat) (dev : Dev) (block : BlockNr)
      (onlySearch : Search)
  | putBlock (io : Nat → Answer Data) (bp : BufNr) (oneShot writeImmed : Bool)
  | invalidate (device : Dev)
  | flushall (io : Nat → Answer Data) (fuel : Nat) (dev : Dev)
  | rahead (io : Nat → Answer Data) (fuel : Nat) (rip : AheadInode) (baseblock : BlockNr)
      (position bytesAhead : UInt32)

/-- One call; `none` is a panic, or a call that does not return. -/
def Pool.step (c : Pool Data) : CacheCall Data → Option (Pool Data)
  | .getBlock io fuel dev block onlySearch =>
    (Cache.getBlock io fuel c dev block onlySearch).map Prod.snd
  | .putBlock io bp oneShot writeImmed => some (Cache.putBlock io c bp oneShot writeImmed)
  | .invalidate device => some (Cache.invalidate c device)
  | .flushall io fuel dev => Cache.flushall io fuel c dev
  | .rahead io fuel rip baseblock position bytesAhead =>
    (Cache.rahead io fuel c rip baseblock position bytesAhead).map Prod.snd

/-- A block that is released is in use, and where a block may get a user it can be counted. -/
def Counted (c : Pool Data) : CacheCall Data → Prop
  | .getBlock .. => Bounded c
  | .putBlock _ bp _ _ => 0 < (c.count bp).toInt
  | .invalidate _ => True
  | .flushall .. => True
  | .rahead .. => Bounded c

/-- The structure of the buffer cache. -/
structure Structured (c : Pool Data) : Prop where
  /-- The LRU chain has the buffers that no one uses, each once, in both directions. -/
  lru : ∃ lru, Linked c.next c.prev c.front c.rear lru ∧ lru.Nodup ∧
    ∀ bp, bp ∈ lru ↔ c.count bp = 0
  inUse : c.bufsInUse = (Finset.univ.filter fun bp => 0 < (c.count bp).toInt).card
  /-- Each buffer is on one hash chain, that of its block number. -/
  hash : ∃ chain : HashNr → List BufNr, (∀ h, Chain c.hash (c.bufHash h) (chain h)) ∧
    ∀ bp h, bp ∈ chain h ↔ h = hashOf (c.blocknr bp)
  unique : ∀ bp bp', c.dev bp ≠ 0 → c.dev bp = c.dev bp' → c.blocknr bp = c.blocknr bp' → bp = bp'

theorem Sound.structured (sound : Sound c) : Structured c := by
  obtain ⟨lru, linked, members, inUse⟩ := sound.lru
  refine ⟨⟨lru, linked, linked.nodup, members⟩, ?_, ?_, sound.unique⟩
  · have free : (Finset.univ.filter fun bp => ¬ 0 < (c.count bp).toInt) = lru.toFinset := by
      ext bp
      rw [List.mem_toFinset, members, Finset.mem_filter, Set.mem_ofPred_eq, eq_zero_iff]
      have := sound.counts bp
      simp only [Finset.mem_univ, true_and]
      omega
    have parts := Finset.card_filter_add_card_filter_not (s := (Finset.univ : Finset BufNr))
      (fun bp => 0 < (c.count bp).toInt)
    rw [free, List.toFinset_card_of_nodup linked.nodup, Finset.card_univ, Fintype.card_fin] at parts
    omega
  · obtain ⟨chain, chains, members⟩ := sound.hashed
    refine ⟨chain, chains, fun bp h => ?_⟩
    rw [members, hashKey, Option.some.injEq, eq_comm]

theorem bufPool_sound (data : BufNr → Data) (disk : Dev → BlockNr → Data) :
    Sound (bufPool data disk) where
  lru := by
    have forward : Chain following (some 0) (List.finRange 80) := by decide
    have backward : Chain preceding (some 79) (List.finRange 80).reverse := by decide
    refine ⟨List.finRange 80, ⟨forward, backward⟩, fun bp => ?_, ?_⟩
    · exact iff_of_true (List.mem_finRange bp) rfl
    · rw [List.length_finRange]
      rfl
  hashed := by
    have forward : Chain following (some 0) (List.finRange 80) := by decide
    refine ⟨fun h => if h = 0 then List.finRange 80 else [], fun h => ?_, fun bp h => ?_⟩
    · dsimp only [bufPool]
      split
      · exact forward
      · rfl
    · have zero : hashKey (bufPool data disk) bp = some 0 := rfl
      rw [zero, Option.some.injEq, eq_comm]
      dsimp only
      split
      case isTrue same => exact iff_of_true (List.mem_finRange bp) same
      case isFalse different => exact iff_of_false (List.not_mem_nil) different
  counts _ := le_rfl
  unique _ _ valid := absurd rfl valid

/-- The step lemma. -/
theorem Sound.step {call : CacheCall Data} (sound : Sound c) (counted : Counted c call)
    (completed : c.step call = some c') : Sound c' := by
  cases call with
  | getBlock io fuel dev block onlySearch =>
    obtain ⟨⟨bp, after⟩, got, rfl⟩ := Option.map_eq_some_iff.mp completed
    exact (sound.getBlock counted got).sound
  | putBlock io bp oneShot writeImmed =>
    obtain rfl := Option.some.inj completed
    exact (sound.putBlock counted oneShot writeImmed).sound
  | invalidate device =>
    obtain rfl := Option.some.inj completed
    exact (invalidate_frame c device).sound sound
  | flushall io fuel dev => exact (flushall_frame completed).sound sound
  | rahead io fuel rip baseblock position bytesAhead =>
    obtain ⟨⟨bp, after⟩, read, rfl⟩ := Option.map_eq_some_iff.mp completed
    exact sound.rahead counted read

/-! ### Main results -/

/-- Every run of calls, each of which releases a block that is in use or gets one that can be
counted, leaves the buffer cache well structured. -/
theorem cache_structured {data : BufNr → Data} {disk : Dev → BlockNr → Data}
    {calls : List (CacheCall Data)} (run : Run Pool.step Counted (bufPool data disk) calls c) :
    Structured c := by
  have sound := run.invariant (bufPool_sound data disk)
    fun _ _ _ sound counted completed => sound.step counted completed
  exact sound.structured

instance (c : Pool Data) (call : CacheCall Data) : Decidable (Counted c call) := by
  cases call <;> dsimp only [Counted, Bounded] <;> infer_instance

/-- Devices that answer every request. -/
def quiet : Nat → Answer Unit := fun _ => { r := blockSize }

/-- A pool that has just been made. -/
def freshPool : Pool Unit := bufPool (fun _ => ()) fun _ _ => ()

/-- The buffer of the blocks that are got. -/
abbrev firstBuf : BufNr := ⟨0, by decide⟩

/-- A block is got twice and released twice, and then two blocks are read ahead. -/
def someCalls : List (CacheCall Unit) :=
  [.getBlock quiet 1 1 5 .normal, .getBlock quiet 1 1 5 .noRead, .putBlock quiet firstBuf false false,
    .putBlock quiet firstBuf true true, .invalidate 1,
    .rahead quiet 3 { blockSpec := false, dev := 1, size := 2048, noSeek := true, ndzones := 7,
                      scale := 0 } 8 0 1024,
    .flushall quiet 1 1]

/-- The cache is structured after these calls. -/
theorem cache_structured_some_calls : ∃ c, Run Pool.step Counted freshPool someCalls c ∧
    Structured c := by
  have done : (Transition.execute Pool.step Counted someCalls freshPool).isSome = true := by
    decide
  obtain ⟨c, executed⟩ := Option.isSome_iff_exists.mp done
  have run := Run.of_execute executed
  exact ⟨c, run, cache_structured run⟩

/-- A block that is got. -/
def getFive : CacheCall Unit := .getBlock quiet 0 1 5 .noRead

/-- The pool in which a block has a number of users. -/
def users (n : Nat) : Pool Unit :=
  let c := (freshPool.step getFive).getD freshPool
  { c with count := update c.count firstBuf (Int8.ofNat n) }

theorem freshPool_step : freshPool.step getFive = some (users 1) := by
  have got : (freshPool.step getFive).isSome = true := by decide
  obtain ⟨c, step⟩ := Option.isSome_iff_exists.mp got
  have one : c.count firstBuf = 1 := by
    have counted : (freshPool.step getFive).map (fun c => c.count firstBuf) = some 1 := by decide
    rw [step] at counted
    exact Option.some.inj counted
  rw [users, step, Option.getD_some, show Int8.ofNat 1 = c.count firstBuf from one.symm,
    update_eq_self]

theorem users_step {n : Nat} (used : Int8.ofNat n ≠ 0) :
    (users n).step getFive = some (users (n + 1)) := by
  have found : findBlock (users n) 1 5 = some (some (none, firstBuf)) := by
    have there : findBlock (users 1) 1 5 = some (some (none, firstBuf)) := by decide
    exact there
  have count : (users n).count firstBuf = Int8.ofNat n := by
    dsimp only [users]
    rw [update_self]
  have after : use (users n) firstBuf = users (n + 1) := by
    have more : Int8.ofNat n + 1 = Int8.ofNat (n + 1) := (Int8.ofNat_add n 1).symm
    rw [use, if_neg (by rwa [count]), count, more]
    dsimp only [users]
    rw [update_idem]
  change (getBlock quiet 0 (users n) 1 5 .noRead).map Prod.snd = some (users (n + 1))
  rw [← after, getBlock, if_neg (by decide), found]
  rfl

theorem users_run {n : Nat} (small : n < 128) :
    Run Pool.step (fun _ _ => True) freshPool (List.replicate (n + 1) getFive) (users (n + 1)) := by
  induction n with
  | zero => exact .snoc .nil trivial freshPool_step
  | succ n inductionHypothesis =>
    rw [List.replicate_succ']
    refine .snoc (inductionHypothesis (by omega)) trivial (users_step ?_)
    intro zero
    have numbers := congrArg Int8.toInt zero
    rw [Int8.toInt_ofNat_of_lt (by omega)] at numbers
    exact absurd numbers (by
      rw [show (0 : Int8).toInt = 0 from rfl]
      omega)

/-- With 128 users a block counts as having fewer than none. -/
theorem cache_not_structured :
    ∃ c, Run Pool.step (fun _ _ => True) freshPool (List.replicate 128 getFive) c ∧
      ¬ Structured c := by
  refine ⟨users 128, users_run (by decide), fun structured => ?_⟩
  have inUse := structured.inUse
  have one : (users 128).bufsInUse = 1 := by decide
  have none : (Finset.univ.filter fun bp => 0 < ((users 128).count bp).toInt) = ∅ := by
    decide
  rw [one, none] at inUse
  exact absurd inUse (by decide)

end Minix.Cache
