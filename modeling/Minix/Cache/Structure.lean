/-
This file proves that the calls of the buffer cache keep its structure: the LRU chain links the
buffers that are not in use, every buffer is on the hash chain of its block number, and no two
buffers hold the same block of a device.

Input and output change no pointers, and can only invalidate blocks. A block is marked valid either
when it has been looked for in vain, or after a prefetch, where it has waited in the queue: the
blocks of a queue have numbers of their own, which no valid block of the device has.
-/

import Minix.Cache.Lists
import Minix.Cache.Scatter

namespace Minix.Cache

open Function (update update_of_ne update_self update_eq_self update_idem)

variable {Data : Type} {io : Nat → Answer Data} {c c' c'' : Pool Data} {bp : BufNr} {dev : Dev}
  {block : BlockNr} {fuel : Nat} {x : Int8} {onlySearch : Search}

/-! ### Counts -/

theorem toInt_succ (low : 0 ≤ x.toInt) (high : x.toInt < 127) :
    (x + 1).toInt = x.toInt + 1 := by
  have one : (1 : Int8).toInt = 1 := rfl
  rw [Int8.toInt_add, one]
  exact Int.bmod_eq_of_le (by omega) (by omega)

theorem toInt_pred (low : 0 < x.toInt) : (x - 1).toInt = x.toInt - 1 := by
  have high := x.toInt_lt
  have one : (1 : Int8).toInt = 1 := rfl
  rw [Int8.toInt_sub, one]
  exact Int.bmod_eq_of_le (by omega) (by omega)

theorem eq_zero_iff : x = 0 ↔ x.toInt = 0 := by
  rw [← Int8.toInt_inj]
  rfl

/-! ### The invariant -/

/-- No two buffers hold the same block of a device. -/
def Unique (c : Pool Data) : Prop :=
  ∀ bp bp', c.dev bp ≠ 0 → c.dev bp = c.dev bp' → c.blocknr bp = c.blocknr bp' → bp = bp'

/-- The structure of the cache between calls. -/
structure Sound (c : Pool Data) : Prop where
  lru : Lru c {bp | c.count bp = 0}
  hashed : Hashed c (hashKey c)
  counts : ∀ bp, 0 ≤ (c.count bp).toInt
  unique : Unique c

/-- The number of users of a block can still grow. -/
def Bounded (c : Pool Data) : Prop := ∀ bp, (c.count bp).toInt < 127

/-- Blocks may have been invalidated. -/
def Fades (dev dev' : BufNr → Dev) : Prop := ∀ bp, dev' bp = dev bp ∨ dev' bp = 0

theorem Fades.refl (dev : BufNr → Dev) : Fades dev dev := fun _ => .inl rfl

theorem Fades.trans {dev dev' dev'' : BufNr → Dev} (first : Fades dev dev')
    (second : Fades dev' dev'') : Fades dev dev'' := by
  intro bp
  rcases second bp with same | gone
  · rw [same]
    exact first bp
  · exact .inr gone

theorem fades_update (dev : BufNr → Dev) (bp : BufNr) : Fades dev (update dev bp 0) := by
  intro other
  by_cases same : other = bp
  · rw [same, update_self]
    exact .inr rfl
  · exact .inl (update_of_ne same _ _)

theorem Fades.valid {dev dev' : BufNr → Dev} (fades : Fades dev dev') (valid : dev' bp ≠ 0) :
    dev' bp = dev bp := (fades bp).resolve_right valid

/-- What input and output change: contents, and blocks that become clean or invalid. -/
def IoFrame (c c' : Pool Data) : Prop :=
  ∃ data dev dirt rdwtErr disk asked, c' = { c with data, dev, dirt, rdwtErr, disk, asked } ∧
    Fades c.dev dev

theorem IoFrame.refl (c : Pool Data) : IoFrame c c :=
  ⟨_, _, _, _, _, _, rfl, .refl _⟩

theorem IoFrame.trans (first : IoFrame c c') (second : IoFrame c' c'') : IoFrame c c'' := by
  obtain ⟨_, _, _, _, _, _, rfl, fades⟩ := first
  obtain ⟨_, _, _, _, _, _, rfl, fades'⟩ := second
  exact ⟨_, _, _, _, _, _, rfl, fades.trans fades'⟩

theorem IoFrame.fades (frame : IoFrame c c') : Fades c.dev c'.dev := by
  obtain ⟨_, _, _, _, _, _, rfl, fades⟩ := frame
  exact fades

theorem IoFrame.count (frame : IoFrame c c') : c'.count = c.count := by
  obtain ⟨_, _, _, _, _, _, rfl, -⟩ := frame
  rfl

theorem IoFrame.blocknr (frame : IoFrame c c') : c'.blocknr = c.blocknr := by
  obtain ⟨_, _, _, _, _, _, rfl, -⟩ := frame
  rfl

theorem Unique.fades (unique : Unique c) (fades : Fades c.dev c'.dev)
    (numbers : c'.blocknr = c.blocknr) : Unique c' := by
  intro bp bp' valid same number
  rw [numbers] at number
  refine unique bp bp' ?_ ?_ number
  · rw [← fades.valid valid]
    exact valid
  · rw [← fades.valid valid, ← fades.valid (same ▸ valid), same]

theorem IoFrame.sound (frame : IoFrame c c') (sound : Sound c) : Sound c' := by
  have unique := sound.unique.fades frame.fades frame.blocknr
  obtain ⟨_, _, _, _, _, _, rfl, -⟩ := frame
  exact ⟨sound.lru, sound.hashed, sound.counts, unique⟩

/-! ### Input and output -/

theorem rwBlock_frame (c : Pool Data) (bp : BufNr) (rwFlag : RwFlag) :
    IoFrame c (rwBlock io c bp rwFlag) := by
  rw [rwBlock]
  split
  · exact ⟨_, _, _, _, _, _, rfl, .refl _⟩
  · cases rwFlag
    all_goals
      dsimp only
      split
      · exact ⟨_, _, _, _, _, _, rfl, .refl _⟩
      · exact ⟨_, _, _, _, _, _, rfl, fades_update _ _⟩

theorem deviceIo_ioFrame (a : Answer Data) (rwFlag : RwFlag) (i : Nat) (reqs : List BufNr) :
    IoFrame c (deviceIo a dev rwFlag i reqs c) := by
  obtain ⟨data, disk, same⟩ := deviceIo_frame (c := c) a i
  rw [same]
  exact ⟨_, _, _, _, _, _, rfl, .refl _⟩

theorem harvest_writing_frame (a : Answer Data) (i : Nat) (reqs : List BufNr) :
    IoFrame c (harvest io a dev .writing i reqs c).2 := by
  induction reqs generalizing c i with
  | nil => exact .refl c
  | cons bp reqs inductionHypothesis =>
    rw [harvest]
    split
    · dsimp only
      split
      · exact ⟨_, _, _, _, _, _, rfl, fades_update _ _⟩
      · exact .refl c
    · refine IoFrame.trans ?_ (inductionHypothesis (i + 1))
      exact ⟨_, _, _, _, _, _, rfl, .refl _⟩

theorem ioLoop_writing_frame {bufq : List BufNr}
    (returned : ioLoop io dev .writing fuel bufq c = some c') : IoFrame c c' := by
  induction fuel generalizing bufq c with
  | zero =>
    cases bufq with
    | nil =>
      obtain rfl := Option.some.inj returned
      exact .refl c
    | cons bp rest => cases returned
  | succ fuel inductionHypothesis =>
    cases bufq with
    | nil =>
      obtain rfl := Option.some.inj returned
      exact .refl c
    | cons bp rest =>
      rw [ioLoop_writing] at returned
      refine IoFrame.trans ?_ (inductionHypothesis returned)
      have asked : IoFrame c { c with asked := c.asked + 1 } :=
        ⟨_, _, _, _, _, _, rfl, .refl _⟩
      exact (asked.trans (deviceIo_ioFrame _ _ _ _)).trans (harvest_writing_frame _ _ _)

theorem flushall_frame (returned : flushall io fuel c dev = some c') :
    IoFrame c c' := by
  obtain ⟨sorted, -, looped⟩ := rwScattered_eq_some.mp returned
  exact ioLoop_writing_frame looped

theorem fetch_frame (c : Pool Data) (bp : BufNr) (onlySearch : Search) :
    IoFrame c (fetch io c bp onlySearch) := by
  have asked : IoFrame c { c with asked := c.asked + 1 } := ⟨_, _, _, _, _, _, rfl, .refl _⟩
  rw [fetch]
  split
  · exact .refl c
  · dsimp only
    split
    · exact ⟨_, _, _, _, _, _, rfl, .refl _⟩
    · exact ⟨_, _, _, _, _, _, rfl, fades_update _ _⟩
    · exact asked.trans (rwBlock_frame _ _ _)
    · exact asked

theorem invalidate_frame (c : Pool Data) (device : Dev) : IoFrame c (invalidate c device) := by
  refine ⟨_, _, _, _, _, _, rfl, fun bp => ?_⟩
  split
  · exact .inr rfl
  · exact .inl rfl

/-! ### Releasing blocks -/

theorem Lru.congr {free free' : Set BufNr} (lru : Lru c free) (same : free = free') :
    Lru c free' := same ▸ lru

/-- The pool after a user of a block has released it. -/
structure Released (c c' : Pool Data) (bp : BufNr) : Prop where
  sound : Sound c'
  count : c'.count = update c.count bp (c.count bp - 1)
  blocknr : c'.blocknr = c.blocknr
  fades : Fades c.dev c'.dev

section

variable (sound : Sound c) (used : 0 < (c.count bp).toInt)
include sound used

theorem Sound.counts_pred (other : BufNr) :
    0 ≤ (update c.count bp (c.count bp - 1) other).toInt := by
  by_cases same : other = bp
  · rw [same, update_self, toInt_pred used]
    omega
  · rw [update_of_ne same]
    exact sound.counts other

/-- The last user of a block has released it: the block is put on the LRU chain. -/
theorem Sound.relink (last : c.count bp - 1 = 0) (oneShot : Bool) :
    Released c (putBack { c with count := update c.count bp (c.count bp - 1) } bp oneShot) bp := by
  have absent : bp ∉ {other | c.count other = 0} := fun wrong => by
    have := eq_zero_iff.mp wrong
    omega
  have free : insert bp {other | c.count other = 0} =
      {other | update c.count bp (c.count bp - 1) other = 0} := by
    ext other
    simp only [Set.mem_insert_iff, Set.mem_ofPred_eq]
    by_cases same : other = bp
    · rw [same, update_self]
      exact iff_of_true (.inl rfl) last
    · rw [update_of_ne same]
      exact ⟨fun found => found.resolve_left same, .inr⟩
  have counts := sound.counts_pred used
  rw [putBack]
  split
  · have front := (sound.lru.putFront absent).congr free
    rw [putFront_eq] at front ⊢
    exact ⟨⟨front, sound.hashed, counts, sound.unique⟩, rfl, rfl, .refl _⟩
  · have rear := (sound.lru.putRear absent).congr free
    rw [putRear_eq] at rear ⊢
    exact ⟨⟨rear, sound.hashed, counts, sound.unique⟩, rfl, rfl, .refl _⟩

theorem Sound.putBlock (oneShot writeImmed : Bool) :
    Released c (putBlock io c bp oneShot writeImmed) bp := by
  rw [Cache.putBlock]
  dsimp only
  split
  case isTrue still =>
    rw [update_self] at still
    refine ⟨⟨sound.lru.congr ?_, sound.hashed, sound.counts_pred used, sound.unique⟩, rfl, rfl,
      .refl _⟩
    ext other
    simp only [Set.mem_ofPred_eq]
    by_cases same : other = bp
    · rw [same, update_self]
      exact iff_of_false (fun zero => by rw [eq_zero_iff] at zero; omega) still
    · rw [update_of_ne same]
  case isFalse last =>
    rw [update_self, not_not] at last
    have released := sound.relink used last oneShot
    split
    case isFalse => exact released
    case isTrue =>
      have frame : IoFrame _ (rwBlock io
          (putBack { c with count := update c.count bp (c.count bp - 1) } bp oneShot) bp .writing) :=
        rwBlock_frame _ bp .writing
      exact ⟨frame.sound released.sound, frame.count.trans released.count,
        frame.blocknr.trans released.blocknr, released.fades.trans frame.fades⟩

end

/-! ### Getting blocks -/

/-- The pool after a block has been got. -/
structure Got (c c' : Pool Data) (dev : Dev) (block : BlockNr) (bp : BufNr) : Prop where
  sound : Sound c'
  count : c'.count = update c.count bp (c.count bp + 1)
  blocknr : c'.blocknr = update c.blocknr bp block
  holds : c'.dev bp = dev ∨ c'.dev bp = 0
  fades : ∀ other ≠ bp, c'.dev other = c.dev other ∨ c'.dev other = 0
  /-- Either the block was in the cache, or its buffer was free and no buffer had it. -/
  source : (dev ≠ 0 ∧ c.dev bp = dev ∧ c.blocknr bp = block ∧ c'.dev bp = dev) ∨
    (c.count bp = 0 ∧ (dev ≠ 0 → ∀ other, c.dev other = dev → c.blocknr other ≠ block))

section

variable (sound : Sound c) (room : (c.count bp).toInt < 127)
include sound room

theorem Sound.counts_succ (other : BufNr) :
    0 ≤ (update c.count bp (c.count bp + 1) other).toInt := by
  by_cases same : other = bp
  · rw [same, update_self, toInt_succ (sound.counts bp) room]
    have := sound.counts bp
    omega
  · rw [update_of_ne same]
    exact sound.counts other

theorem free_succ :
    {other | update c.count bp (c.count bp + 1) other = 0} =
      {other | c.count other = 0} \ {bp} := by
  ext other
  simp only [Set.mem_sdiff, Set.mem_singleton_iff, Set.mem_ofPred_eq]
  by_cases same : other = bp
  · rw [same, update_self]
    refine iff_of_false (fun zero => ?_) (fun free => free.2 rfl)
    rw [eq_zero_iff, toInt_succ (sound.counts bp) room] at zero
    have := sound.counts bp
    omega
  · rw [update_of_ne same]
    exact ⟨fun free => ⟨free, same⟩, And.left⟩

theorem Sound.use (valid : dev ≠ 0) (here : c.dev bp = dev) (number : c.blocknr bp = block) :
    Got c (use c bp) dev block bp := by
  have counts := sound.counts_succ room
  have same : update c.blocknr bp block = c.blocknr := by rw [← number, update_eq_self]
  have fields : ∃ next prev front rear bufsInUse, Cache.use c bp =
      { c with next, prev, front, rear, bufsInUse, count := update c.count bp (c.count bp + 1) } ∧
      Lru { c with next, prev, front, rear, bufsInUse } ({other | c.count other = 0} \ {bp}) := by
    rw [Cache.use]
    split
    case isTrue free =>
      have lru := sound.lru.rmLru free
      rw [rmLru_eq] at lru ⊢
      exact ⟨_, _, _, _, _, rfl, lru⟩
    case isFalse busy =>
      have absent : bp ∉ {other | c.count other = 0} := busy
      exact ⟨_, _, _, _, _, rfl, sound.lru.congr (Set.sdiff_singleton_eq_self absent).symm⟩
  obtain ⟨next, prev, front, rear, bufsInUse, eq, lru⟩ := fields
  rw [eq]
  exact ⟨⟨lru.congr (free_succ sound room).symm, sound.hashed, counts, sound.unique⟩, rfl,
    same.symm, .inl here, fun _ _ => .inl rfl, .inl ⟨valid, here, number, here⟩⟩

end

theorem Got.ioFrame (got : Got c c' dev block bp) (frame : IoFrame c' c'')
    (source : c.count bp = 0 ∧ (dev ≠ 0 → ∀ other, c.dev other = dev → c.blocknr other ≠ block)) :
    Got c c'' dev block bp where
  sound := frame.sound got.sound
  count := frame.count.trans got.count
  blocknr := frame.blocknr.trans got.blocknr
  holds := by
    rcases frame.fades bp with same | gone
    · rw [same]
      exact got.holds
    · exact .inr gone
  fades other different := by
    rcases frame.fades other with same | gone
    · rw [same]
      exact got.fades other different
    · exact .inr gone
  source := .inr source

theorem Unique.rename {devs : BufNr → Dev} (unique : Unique c) (fades : Fades c.dev devs)
    (missed : dev ≠ 0 → ∀ other, c.dev other = dev → c.blocknr other ≠ block) :
    Unique { c with dev := update devs bp dev, blocknr := update c.blocknr bp block } := by
  have apart (other : BufNr) (valid : dev ≠ 0) (same : devs other = dev) :
      c.blocknr other ≠ block := by
    refine missed valid other ?_
    rw [← fades.valid (by rwa [same]), same]
  intro first second valid same number
  dsimp only at valid same number
  by_cases isFirst : first = bp
  · by_cases isSecond : second = bp
    · rw [isFirst, isSecond]
    · rw [isFirst, update_self] at valid same number
      rw [update_of_ne isSecond] at same number
      exact absurd number.symm (apart second valid same.symm)
  · rw [update_of_ne isFirst] at valid same number
    by_cases isSecond : second = bp
    · rw [isSecond, update_self] at same number
      exact absurd number (apart first (same ▸ valid) same)
    · rw [update_of_ne isSecond] at same number
      refine unique first second ?_ ?_ number
      · rw [← fades.valid valid]
        exact valid
      · rw [← fades.valid valid, ← fades.valid (same ▸ valid), same]

theorem hashKey_rename (c : Pool Data) (bp : BufNr) (block : BlockNr) :
    hashKey { c with blocknr := update c.blocknr bp block } =
      update (hashKey c) bp (some (hashOf block)) := by
  funext other
  by_cases same : other = bp
  · rw [same, update_self, hashKey]
    dsimp only
    rw [update_self]
  · rw [update_of_ne same, hashKey, hashKey]
    dsimp only
    rw [update_of_ne same]

theorem Sound.replaceFront (sound : Sound c)
    (missed : dev ≠ 0 → ∀ other, c.dev other = dev → c.blocknr other ≠ block)
    (replaced : replaceFront io fuel c dev block onlySearch = some (bp, c')) :
    Got c c' dev block bp := by
  obtain ⟨oldest, first, rest⟩ := Option.bind_eq_some_iff.mp replaced
  have free : c.count oldest = 0 := sound.lru.front_mem first
  have room : (c.count oldest).toInt < 127 := by
    rw [eq_zero_iff.mp free]
    decide
  have removed := sound.lru.rmLru free
  have hashed : Hashed (rmLru c oldest) (hashKey c) := by
    rw [rmLru_eq]
    exact sound.hashed
  have key : hashKey c oldest = hashKey (rmLru c oldest) oldest := by
    rw [rmLru_eq]
    rfl
  obtain ⟨hash, bufHash, unhashed, nowhere⟩ := hashed.unhash key
  obtain ⟨removedHash, unhashed', rest⟩ := Option.bind_eq_some_iff.mp rest
  obtain rfl := Option.some.inj (unhashed.symm.trans unhashed')
  obtain ⟨flushed, flush, rest⟩ := Option.bind_eq_some_iff.mp rest
  obtain ⟨rfl, rfl⟩ := Prod.mk.inj (Option.some.inj rest)
  have frame : IoFrame { rmLru c oldest with hash, bufHash } flushed := by
    rw [cleanTaken] at flush
    split at flush
    · exact flushall_frame flush
    · obtain rfl := Option.some.inj flush
      exact .refl _
  rw [rmLru_eq] at frame removed nowhere
  obtain ⟨data, devs, dirt, rdwtErr, disk, asked, rfl, fades⟩ := frame
  -- The buffer has its new name before the block is fetched.
  refine Got.ioFrame ?_ (fetch_frame _ oldest onlySearch) ⟨free, missed⟩
  refine ⟨⟨removed.congr (free_succ sound room).symm, ?_, sound.counts_succ room,
    sound.unique.rename fades missed⟩, rfl, rfl, .inl (update_self _ _ _),
    fun other different => ?_, .inr ⟨free, missed⟩⟩
  · have renamed := @Hashed.rename _ _ oldest _ dev block nowhere (update_self _ _ _)
    rw [update_idem, ← hashKey_rename] at renamed
    exact renamed
  · have named : update devs oldest dev other = devs other := update_of_ne different _ _
    exact (fades other).imp named.trans named.trans

theorem Sound.getBlock (sound : Sound c) (bounded : Bounded c)
    (got : getBlock io fuel c dev block onlySearch = some (bp, c')) : Got c c' dev block bp := by
  rw [Cache.getBlock] at got
  split at got
  case isTrue none => exact sound.replaceFront (fun valid => absurd none valid) got
  case isFalse valid =>
    rcases sound.hashed.findBlock dev block with
      ⟨before, here, found, number, isDev⟩ | ⟨found, missed⟩
    · rw [found] at got
      obtain ⟨rfl, rfl⟩ := Prod.mk.inj (Option.some.inj got)
      exact sound.use (bounded here) valid isDev number
    · rw [found] at got
      exact sound.replaceFront (fun _ => missed) got

end Minix.Cache
