/-
This file proves what the pointer assignments of the buffer cache do to the LRU chain and to the
hash chains.

`Lru c free` says that the LRU chain links exactly the given buffers, in both directions, and that
the others are counted as in use. `Hashed c key` says on which hash chain each buffer is, if any:
a buffer that is being replaced is on none.
-/

import Minix.Cache.Buffers
import Minix.Library.DoublyLinked

namespace Minix.Cache

open DoublyLinked (Linked)
open LinkedList (Chain)
open Function (update update_of_ne update_self)

variable {Data : Type} {io : Nat → Answer Data} {c : Pool Data} {bp : BufNr} {free : Set BufNr}
  {key : BufNr → Option HashNr}

/-! ### The LRU chain -/

/-- The LRU chain links the given buffers, and the others are in use. -/
def Lru (c : Pool Data) (free : Set BufNr) : Prop :=
  ∃ lru, Linked c.next c.prev c.front c.rear lru ∧ (∀ bp, bp ∈ lru ↔ bp ∈ free) ∧
    c.bufsInUse = 80 - lru.length

theorem rmLru_eq (c : Pool Data) (bp : BufNr) : rmLru c bp =
    { c with
      bufsInUse := c.bufsInUse + 1
      next := DoublyLinked.bypassNext c.next (c.prev bp) (c.next bp)
      prev := DoublyLinked.bypassNext c.prev (c.next bp) (c.prev bp)
      front := DoublyLinked.bypassFront c.front (c.prev bp) (c.next bp)
      rear := DoublyLinked.bypassFront c.rear (c.next bp) (c.prev bp) } := by
  rw [rmLru]
  cases c.prev bp <;> cases c.next bp <;> rfl

theorem Lru.rmLru (lru : Lru c free) (member : bp ∈ free) : Lru (rmLru c bp) (free \ {bp}) := by
  obtain ⟨nodes, linked, members, inUse⟩ := lru
  obtain ⟨before, behind, rfl⟩ := List.append_of_mem ((members bp).mpr member)
  have nodup := linked.nodup
  refine ⟨before ++ behind, ?_, fun other => ?_, ?_⟩
  · rw [rmLru_eq]
    exact linked.unlink
  · rw [Set.mem_sdiff, Set.mem_singleton_iff, ← members other]
    have absent : bp ∉ before ++ behind := (List.nodup_middle.mp nodup).notMem
    constructor
    · intro found
      refine ⟨?_, fun same => absent (same ▸ found)⟩
      rcases List.mem_append.mp found with front | back
      · exact List.mem_append_left _ front
      · exact List.mem_append_right _ (List.mem_cons_of_mem _ back)
    · rintro ⟨found, different⟩
      rcases List.mem_append.mp found with front | back
      · exact List.mem_append_left _ front
      · exact List.mem_append_right _ ((List.mem_cons.mp back).resolve_left different)
  · rw [rmLru_eq]
    rw [List.length_append, List.length_cons] at inUse
    rw [List.length_append]
    dsimp only
    omega

theorem putFront_eq (c : Pool Data) (bp : BufNr) : putFront c bp =
    { c with
      next := update c.next bp c.front
      prev := DoublyLinked.attach (update c.prev bp none) c.front bp
      front := some bp
      rear := DoublyLinked.attachRear c.rear c.front bp } := by
  rw [putFront]
  cases c.front <;> rfl

theorem putRear_eq (c : Pool Data) (bp : BufNr) : putRear c bp =
    { c with
      next := DoublyLinked.attach (update c.next bp none) c.rear bp
      prev := update c.prev bp c.rear
      front := DoublyLinked.attachRear c.front c.rear bp
      rear := some bp } := by
  rw [putRear]
  cases c.rear <;> rfl

theorem Lru.putFront (lru : Lru c free) (absent : bp ∉ free) :
    Lru (putFront { c with bufsInUse := c.bufsInUse - 1 } bp) (insert bp free) := by
  obtain ⟨nodes, linked, members, inUse⟩ := lru
  rw [putFront_eq]
  refine ⟨bp :: nodes, linked.pushFront fun member => absent ((members bp).mp member),
    fun other => ?_, ?_⟩
  · rw [List.mem_cons, members other]
    rfl
  · rw [List.length_cons]
    dsimp only
    omega

theorem Lru.putRear (lru : Lru c free) (absent : bp ∉ free) :
    Lru (putRear { c with bufsInUse := c.bufsInUse - 1 } bp) (insert bp free) := by
  obtain ⟨nodes, linked, members, inUse⟩ := lru
  rw [putRear_eq]
  refine ⟨nodes ++ [bp], linked.pushRear fun member => absent ((members bp).mp member),
    fun other => ?_, ?_⟩
  · rw [List.mem_append, List.mem_singleton, members other, or_comm]
    rfl
  · rw [List.length_append, List.length_singleton]
    dsimp only
    omega

theorem Lru.front_mem (lru : Lru c free) (oldest : c.front = some bp) : bp ∈ free := by
  obtain ⟨nodes, linked, members, -⟩ := lru
  rw [linked.front_eq] at oldest
  exact (members bp).mp (List.mem_of_head? oldest)

/-! ### The hash chains -/

/-- Each buffer is on the hash chain that is its key and on no other one. -/
def Hashed (c : Pool Data) (key : BufNr → Option HashNr) : Prop :=
  ∃ chain : HashNr → List BufNr, (∀ h, Chain c.hash (c.bufHash h) (chain h)) ∧
    ∀ bp h, bp ∈ chain h ↔ key bp = some h

/-- The chain of each block number. -/
def hashKey (c : Pool Data) (bp : BufNr) : Option HashNr := some (hashOf (c.blocknr bp))

theorem chain_short {next : BufNr → Option BufNr} {head : Option BufNr} {nodes : List BufNr}
    (chain : Chain next head nodes) : nodes.length ≤ 80 := by
  have short := chain.length_le
  rwa [Fintype.card_fin] at short

/-- A buffer is taken off its hash chain. -/
theorem Hashed.unhash (hashed : Hashed c key) (here : key bp = hashKey c bp) :
    ∃ hash bufHash, unhash c bp = some { c with hash, bufHash } ∧
      Hashed { c with hash, bufHash } (update key bp none) := by
  obtain ⟨chain, chains, members⟩ := hashed
  obtain ⟨b, isB⟩ : ∃ b, b = hashOf (c.blocknr bp) := ⟨_, rfl⟩
  rw [hashKey, ← isB] at here
  have member : bp ∈ chain b := (members bp b).mpr here
  have found := (chains b).scan_eq (· == bp) (chain_short (chains b)) none
  have elsewhere (h : HashNr) (other : h ≠ b) : bp ∉ chain h := fun wrong =>
    other (Option.some.inj (((members bp h).mp wrong).symm.trans here))
  have apart (h : HashNr) (other : h ≠ b) (node : BufNr) (inChain : node ∈ chain b) :
      node ∉ chain h := fun wrong =>
    other (Option.some.inj (((members node h).mp wrong).symm.trans ((members node b).mp inChain)))
  cases located : LinkedList.locate (· == bp) none (chain b) with
  | none => simpa using LinkedList.locate_eq_none.mp located bp member
  | some hit =>
    obtain ⟨before, node⟩ := hit
    rw [located] at found
    obtain ⟨front, back, split, isBp, -, previous⟩ := LinkedList.locate_eq_some located
    obtain rfl : node = bp := beq_iff_eq.mp isBp
    rw [Option.or_none] at previous
    have nodup := (chains b).nodup
    rw [split] at nodup
    have absent : node ∉ front ++ back := (List.nodup_middle.mp nodup).notMem
    have membersAfter (hash : BufNr → Option BufNr) (bufHash : HashNr → Option BufNr)
        (chain' : Chain hash (bufHash b) (front ++ back))
        (others : ∀ h ≠ b, Chain hash (bufHash h) (chain h)) :
        Hashed { c with hash, bufHash } (update key node none) := by
      refine ⟨update chain b (front ++ back), fun h => ?_, fun other h => ?_⟩
      · by_cases same : h = b
        · rw [same, update_self]
          exact chain'
        · rw [update_of_ne same]
          exact others h same
      · by_cases same : h = b
        · rw [same, update_self]
          by_cases equal : other = node
          · rw [equal, update_self]
            exact ⟨fun wrong => absurd wrong absent, fun wrong => by cases wrong⟩
          · rw [update_of_ne equal, ← members other b, split]
            simp [equal]
        · rw [update_of_ne same]
          by_cases equal : other = node
          · rw [equal, update_self]
            exact ⟨fun wrong => absurd wrong (elsewhere h same), fun wrong => by cases wrong⟩
          · rw [update_of_ne equal, members other h]
    rcases List.eq_nil_or_concat front with rfl | ⟨ahead, last, rfl⟩
    · obtain rfl : before = none := previous
      refine ⟨c.hash, update c.bufHash b (c.hash node), ?_, ?_⟩
      · rw [Cache.unhash, ← isB, found]
        rfl
      · refine membersAfter _ _ ?_ fun h other => ?_
        · rw [update_self]
          have whole := chains b
          rw [split] at whole
          exact whole.behind
        · rw [update_of_ne other]
          exact chains h
    · rw [List.concat_eq_append] at *
      obtain rfl : before = some last := by rw [previous, List.getLast?_concat]
      refine ⟨update c.hash last (c.hash node), c.bufHash, ?_, ?_⟩
      · rw [Cache.unhash, ← isB, found]
        rfl
      · refine membersAfter _ _ ?_ fun h other => ?_
        · have whole := chains b
          rw [split, List.append_assoc] at whole
          rw [List.append_assoc]
          exact whole.unlink
        · refine (chains h).update_of_notMem (apart h other last ?_) _
          rw [split]
          simp

theorem Hashed.rename {dev : Dev} {block : BlockNr} (hashed : Hashed c key)
    (nowhere : key bp = none) :
    Hashed (rename c bp dev block) (update key bp (some (hashOf block))) := by
  obtain ⟨chain, chains, members⟩ := hashed
  have absent (h : HashNr) : bp ∉ chain h := fun wrong => by
    rw [members bp h, nowhere] at wrong
    cases wrong
  refine ⟨update chain (hashOf block) (bp :: chain (hashOf block)), fun h => ?_, fun other h => ?_⟩
  · rw [Cache.rename]
    dsimp only
    by_cases same : h = hashOf block
    · rw [same, update_self, update_self]
      exact (chains _).push (absent _)
    · rw [update_of_ne same, update_of_ne same]
      exact (chains h).update_of_notMem (absent h) _
  · by_cases same : h = hashOf block
    · subst same
      rw [update_self, List.mem_cons, members other]
      by_cases equal : other = bp
      · rw [equal, update_self]
        simp
      · rw [update_of_ne equal]
        simp [equal]
    · rw [update_of_ne same, members other h]
      by_cases equal : other = bp
      · rw [equal, update_self, nowhere]
        simp [Ne.symm same]
      · rw [update_of_ne equal]

theorem Hashed.findBlock (hashed : Hashed c (hashKey c)) (dev : Dev) (block : BlockNr) :
    (∃ before bp, findBlock c dev block = some (some (before, bp)) ∧ c.blocknr bp = block ∧
      c.dev bp = dev) ∨
    (findBlock c dev block = some none ∧ ∀ bp, c.dev bp = dev → c.blocknr bp ≠ block) := by
  obtain ⟨chain, chains, members⟩ := hashed
  have found := (chains (hashOf block)).scan_eq (fun bp => c.blocknr bp == block && c.dev bp == dev)
    (chain_short (chains _)) none
  cases located : LinkedList.locate (fun bp => c.blocknr bp == block && c.dev bp == dev) none
      (chain (hashOf block)) with
  | none =>
    rw [located] at found
    refine .inr ⟨found, fun bp here number => ?_⟩
    have member : bp ∈ chain (hashOf block) := (members bp _).mpr (by rw [hashKey, number])
    have missed := LinkedList.locate_eq_none.mp located bp member
    rw [number, here] at missed
    simp at missed
  | some hit =>
    obtain ⟨before, bp⟩ := hit
    rw [located] at found
    obtain ⟨-, -, -, isHere, -, -⟩ := LinkedList.locate_eq_some located
    obtain ⟨number, here⟩ := Bool.and_eq_true_iff.mp isHere
    exact .inl ⟨before, bp, found, beq_iff_eq.mp number, beq_iff_eq.mp here⟩

end Minix.Cache
