/-
This file proves that reading ahead keeps the structure of the buffer cache.

The buffers of the queue are in use and not marked valid, and their blocks have numbers of their
own: each is one more than the one before, and none of them was in the cache when its buffer was
acquired. So every one of them can be validated.
-/

import Minix.Cache.Structure

namespace Minix.Cache

open Function (update update_of_ne update_self update_eq_self update_idem)
open Option (some.inj bind_eq_some_iff ite_none_right_eq_some ite_some_none_eq_some)

variable {Data : Type} {io : Nat → Answer Data} {c c' c'' : Pool Data} {bp : BufNr} {dev : Dev}
  {block : BlockNr} {q rest : List BufNr}

/-! ### Queues -/

/-- A queue of buffers that wait to be read. -/
structure Queued (c : Pool Data) (dev : Dev) (q : List BufNr) : Prop where
  nodup : q.Nodup
  inUse : ∀ bp ∈ q, (c.count bp).toInt = 1
  /-- No other buffer has the block, or is going to have it. -/
  alone : dev ≠ 0 → ∀ bp ∈ q, ∀ other ≠ bp, c.dev other = dev ∨ other ∈ q →
    c.blocknr other ≠ c.blocknr bp

section

variable (queued : Queued c dev q)
include queued

theorem Queued.sublist {fewer : List BufNr} (sublist : fewer.Sublist q) :
    Queued c dev fewer where
  nodup := queued.nodup.sublist sublist
  inUse bp member := queued.inUse bp (sublist.subset member)
  alone valid bp member other different named := queued.alone valid bp (sublist.subset member) other
    different (named.imp_right fun waits => sublist.subset waits)

theorem Queued.perm {q' : List BufNr} (perm : q'.Perm q) :
    Queued c dev q' where
  nodup := perm.nodup_iff.mpr queued.nodup
  inUse bp member := queued.inUse bp (perm.subset member)
  alone valid bp member other different named := queued.alone valid bp (perm.subset member) other
    different (named.imp_right fun waits => perm.subset waits)

theorem Queued.fades (fades : Fades c.dev c'.dev) (count : c'.count = c.count)
    (blocknr : c'.blocknr = c.blocknr) : Queued c' dev q where
  nodup := queued.nodup
  inUse bp member := by
    rw [count]
    exact queued.inUse bp member
  alone valid bp member other different named := by
    rw [blocknr]
    refine queued.alone valid bp member other different (named.imp_left fun same => ?_)
    rw [← fades.valid (by rwa [same]), same]

end

theorem IoFrame.queued (frame : IoFrame c c') (queued : Queued c dev q) : Queued c' dev q :=
  queued.fades frame.fades frame.count frame.blocknr

/-- No block has more users than before. -/
def Fewer (c c' : Pool Data) : Prop := ∀ bp, (c'.count bp).toInt ≤ (c.count bp).toInt

theorem Fewer.trans (first : Fewer c c') (second : Fewer c' c'') : Fewer c c'' :=
  fun bp => (second bp).trans (first bp)

theorem Fewer.bounded (fewer : Fewer c c') (bounded : Bounded c) : Bounded c' :=
  fun bp => lt_of_le_of_lt (fewer bp) (bounded bp)

theorem IoFrame.fewer (frame : IoFrame c c') : Fewer c c' := fun bp => by rw [frame.count]

theorem Released.fewer (released : Released c c' bp) (used : 0 < (c.count bp).toInt) :
    Fewer c c' := by
  intro other
  rw [released.count]
  by_cases same : other = bp
  · rw [same, update_self, toInt_pred used]
    omega
  · rw [update_of_ne same]

theorem Released.queued (released : Released c c' bp) (queued : Queued c dev q) (absent : bp ∉ q) :
    Queued c' dev q where
  nodup := queued.nodup
  inUse other member := by
    rw [released.count, update_of_ne (ne_of_mem_of_not_mem member absent)]
    exact queued.inUse other member
  alone valid other member another different named := by
    rw [released.blocknr]
    refine queued.alone valid other member another different (named.imp_left fun same => ?_)
    rw [← released.fades.valid (by rwa [same]), same]

/-! ### Reading a queue -/

theorem Queued.validate (queued : Queued c dev (bp :: q)) (sound : Sound c) :
    Sound { c with dev := update c.dev bp dev } ∧
      Queued { c with dev := update c.dev bp dev } dev (bp :: q) := by
  have alone (valid : dev ≠ 0) (other : BufNr) (different : other ≠ bp) (same : c.dev other = dev) :
      c.blocknr other ≠ c.blocknr bp :=
    queued.alone valid bp List.mem_cons_self other different (.inl same)
  refine ⟨⟨sound.lru, sound.hashed, sound.counts, ?_⟩, queued.nodup, queued.inUse, ?_⟩
  · intro first second valid same number
    dsimp only at valid same number
    by_cases isFirst : first = bp
    · by_cases isSecond : second = bp
      · rw [isFirst, isSecond]
      · rw [isFirst, update_self] at valid same
        rw [update_of_ne isSecond] at same
        rw [isFirst] at number
        exact absurd number.symm (alone valid second isSecond same.symm)
    · rw [update_of_ne isFirst] at valid same
      by_cases isSecond : second = bp
      · rw [isSecond, update_self] at same
        rw [isSecond] at number
        exact absurd number (alone (same ▸ valid) first isFirst same)
      · rw [update_of_ne isSecond] at same
        exact sound.unique first second valid same number
  · intro valid member waits other different named
    refine queued.alone valid member waits other different ?_
    rcases named with same | waits
    · by_cases isBp : other = bp
      · exact .inr (isBp ▸ List.mem_cons_self)
      · exact .inl ((update_of_ne isBp _ _).symm.trans same)
    · exact .inr waits

theorem Queued.put (queued : Queued c dev (bp :: q)) (sound : Sound c) :
    Sound (putDataBlock io c bp) ∧ Queued (putDataBlock io c bp) dev q ∧
      Fewer c (putDataBlock io c bp) := by
  have used : 0 < (c.count bp).toInt := by
    rw [queued.inUse bp List.mem_cons_self]
    exact Int.one_pos
  have released := @Sound.putBlock _ io _ _ sound used false false
  exact ⟨released.sound, released.queued (queued.sublist (List.sublist_cons_self bp q))
    (List.nodup_cons.mp queued.nodup).1, released.fewer used⟩

theorem Queued.putAll (queued : Queued c dev q) (sound : Sound c) :
    Sound (q.foldl (putDataBlock io) c) ∧ Fewer c (q.foldl (putDataBlock io) c) := by
  induction q generalizing c with
  | nil => exact ⟨sound, fun _ => le_rfl⟩
  | cons bp q inductionHypothesis =>
    obtain ⟨sound', queued', fewer⟩ := @Queued.put _ io _ _ _ _ queued sound
    obtain ⟨sound'', fewer'⟩ := inductionHypothesis queued' sound'
    exact ⟨sound'', fewer.trans fewer'⟩

/-- Harvesting a read takes the transferred blocks off the queue and validates them. -/
theorem Queued.harvest {reqs : List BufNr} (a : Answer Data) (i : Nat)
    (queued : Queued c dev (reqs ++ rest)) (sound : Sound c) :
    Sound (harvest io a dev .reading i reqs c).2 ∧
      Queued (harvest io a dev .reading i reqs c).2 dev
        ((reqs ++ rest).drop ((harvest io a dev .reading i reqs c).1 - i)) ∧
      Fewer c (harvest io a dev .reading i reqs c).2 := by
  induction reqs generalizing c i with
  | nil =>
    rw [Cache.harvest, Nat.sub_self]
    exact ⟨sound, queued, fun _ => le_rfl⟩
  | cons bp reqs inductionHypothesis =>
    rw [Cache.harvest]
    split
    · dsimp only
      rw [Nat.sub_self]
      split
      · have frame : IoFrame c { c with dev := update c.dev bp 0 } :=
          ⟨_, _, _, _, _, _, rfl, fades_update _ _⟩
        exact ⟨frame.sound sound, frame.queued queued, frame.fewer⟩
      · exact ⟨sound, queued, fun _ => le_rfl⟩
    · obtain ⟨valid, waiting⟩ := queued.validate sound
      obtain ⟨sound', queued', fewer⟩ := @Queued.put _ io _ _ _ _ waiting valid
      obtain ⟨sound'', queued'', fewer'⟩ := inductionHypothesis (i + 1) queued' sound'
      have more : i + 1 ≤ (Cache.harvest io a dev .reading (i + 1) reqs
          (harvestBlock io dev .reading c bp)).1 := harvest_ge a (i + 1)
      refine ⟨sound'', ?_, fewer.trans fewer'⟩
      rw [List.cons_append, show (Cache.harvest io a dev .reading (i + 1) reqs
        (harvestBlock io dev .reading c bp)).1 - i = (Cache.harvest io a dev .reading (i + 1) reqs
        (harvestBlock io dev .reading c bp)).1 - (i + 1) + 1 by omega, List.drop_succ_cons]
      exact queued''

theorem adjacent_prefix (blocknr : BufNr → BlockNr) (block : BlockNr) (reqs : Nat)
    (bufq : List BufNr) : ∃ rest, bufq = adjacent blocknr block reqs bufq ++ rest := by
  induction bufq generalizing reqs block with
  | nil => cases reqs <;> exact ⟨[], rfl⟩
  | cons bp bufq inductionHypothesis =>
    cases reqs with
    | zero => exact ⟨bp :: bufq, rfl⟩
    | succ reqs =>
      rw [adjacent]
      split
      · obtain ⟨rest, same⟩ := inductionHypothesis (block + 1) reqs
        exact ⟨rest, by rw [List.cons_append, ← same]⟩
      · exact ⟨bp :: bufq, rfl⟩

theorem Queued.rwScattered {fuel : Nat} (queued : Queued c dev q) (sound : Sound c)
    (returned : rwScattered io fuel c dev q .reading = some c') : Sound c' ∧ Fewer c c' := by
  obtain ⟨sorted, sort, looped⟩ := rwScattered_eq_some.mp returned
  obtain ⟨sorted', sort', perm, -⟩ := shellSort_some c.blocknr q
  obtain rfl := some.inj (sort.symm.trans sort')
  have waiting := queued.perm perm
  cases sorted with
  | nil =>
    have same : some c = some c' := by cases fuel <;> exact looped
    obtain rfl := some.inj same
    exact ⟨sound, fun _ => le_rfl⟩
  | cons bp rest =>
    cases fuel with
    | zero => cases looped
    | succ fuel =>
      rw [ioLoop_reading] at looped
      obtain rfl := some.inj looped
      obtain ⟨behind, whole⟩ : ∃ behind, bp :: rest = requests c (bp :: rest) ++ behind :=
        adjacent_prefix _ _ _ _
      have asked : IoFrame c { c with asked := c.asked + 1 } := ⟨_, _, _, _, _, _, rfl, .refl _⟩
      have frame : IoFrame c (deviceIo (io c.asked) dev .reading 0 (requests c (bp :: rest))
          { c with asked := c.asked + 1 }) := asked.trans (deviceIo_ioFrame _ _ 0 _)
      rw [whole] at waiting
      obtain ⟨sound', queued', fewer⟩ :=
        @Queued.harvest _ io _ _ _ _ (io c.asked) 0 (frame.queued waiting) (frame.sound sound)
      rw [Nat.sub_zero, ← whole] at queued'
      obtain ⟨sound'', fewer'⟩ := @Queued.putAll _ io _ _ _ queued' sound'
      exact ⟨sound'', (frame.fewer.trans fewer).trans fewer'⟩

/-! ### Acquiring buffers -/

/-- The blocks of a queue follow each other. -/
def Consecutive (c : Pool Data) (base : BlockNr) (q : List BufNr) : Prop :=
  ∀ i bp, q[i]? = some bp → c.blocknr bp = base + .ofNat i

theorem Consecutive.fresh {base : BlockNr} (consecutive : Consecutive c base q) (nodup : q.Nodup)
    (member : bp ∈ q) : c.blocknr bp ≠ base + .ofNat q.length := by
  have short : q.length ≤ 80 := by
    have short := nodup.length_le_card
    rwa [Fintype.card_fin] at short
  obtain ⟨i, inside, found⟩ := List.getElem_of_mem member
  rw [consecutive i bp (List.getElem?_eq_some_iff.mpr ⟨inside, found⟩)]
  intro same
  have numbers := congrArg UInt32.toNat (add_left_cancel same)
  rw [UInt32.toNat_ofNat', UInt32.toNat_ofNat', Nat.mod_eq_of_lt (by omega),
    Nat.mod_eq_of_lt (by omega)] at numbers
  omega

section

variable (got : Got c c' dev block bp)
include got

theorem Got.queued (queued : Queued c dev q) (absent : bp ∉ q)
    (fresh : ∀ other ∈ q, c.blocknr other ≠ block) : Queued c' dev q where
  nodup := queued.nodup
  inUse other member := by
    rw [got.count, update_of_ne (ne_of_mem_of_not_mem member absent)]
    exact queued.inUse other member
  alone valid other member another different named := by
    rw [got.blocknr, update_of_ne (ne_of_mem_of_not_mem member absent)]
    by_cases isBp : another = bp
    · rw [isBp, update_self]
      exact (fresh other member).symm
    · rw [update_of_ne isBp]
      refine queued.alone valid other member another different (named.imp_left fun same => ?_)
      rw [← (got.fades another isBp).resolve_right (by rwa [same]), same]

theorem Got.enqueue (queued : Queued c dev q) (free : c.count bp = 0)
    (missed : dev ≠ 0 → ∀ other, c.dev other = dev → c.blocknr other ≠ block)
    (fresh : ∀ other ∈ q, c.blocknr other ≠ block) : Queued c' dev (q ++ [bp]) := by
  have absent : bp ∉ q := fun member => by
    have used := queued.inUse bp member
    rw [eq_zero_iff.mp free] at used
    exact absurd used (by decide)
  have kept := got.queued queued absent fresh
  refine ⟨List.nodup_append.mpr ⟨queued.nodup, List.nodup_singleton bp, ?_⟩, ?_, ?_⟩
  · rintro other member another last rfl
    exact absent (List.mem_singleton.mp last ▸ member)
  · intro other member
    rcases List.mem_append.mp member with waits | last
    · exact kept.inUse other waits
    · rw [List.mem_singleton.mp last, got.count, update_self, free]
      rfl
  · intro valid other member another different named
    rcases List.mem_append.mp member with waits | last
    · by_cases isBp : another = bp
      · have apart : other ≠ bp := ne_of_mem_of_not_mem waits absent
        rw [got.blocknr, isBp, update_self, update_of_ne apart]
        exact (fresh other waits).symm
      · refine kept.alone valid other waits another different (named.imp_right fun found => ?_)
        exact (List.mem_append.mp found).resolve_right fun last => isBp (List.mem_singleton.mp last)
    · obtain rfl := List.mem_singleton.mp last
      rw [got.blocknr, update_self, update_of_ne different]
      rcases named with same | found
      · refine missed valid another ?_
        rw [← (got.fades another different).resolve_right (by rwa [same]), same]
      · exact fresh another ((List.mem_append.mp found).resolve_right fun last =>
          different (List.mem_singleton.mp last))

theorem Got.released (released : Released c' c'' bp) :
    c''.count = c.count := by
  rw [released.count, got.count, update_self, update_idem, Int8.add_sub_cancel,
    update_eq_self]

theorem Got.bounded (bounded : Bounded c) (free : c.count bp = 0) :
    Bounded c' := by
  intro other
  rw [got.count]
  by_cases same : other = bp
  · rw [same, update_self, free]
    decide
  · rw [update_of_ne same]
    exact bounded other

end

/-- The loop of `rahead` claims every buffer that it queues once. -/
theorem acquire_queued {flushFuel fuel : Nat} {ahead base : UInt32} {readQ q : List BufNr}
    (sound : Sound c) (bounded : Bounded c) (queued : Queued c dev (readQ ++ [bp]))
    (consecutive : Consecutive c base (readQ ++ [bp])) (last : block = base + .ofNat readQ.length)
    (acquired : acquire io flushFuel dev fuel ahead block bp readQ c = some (q, c')) :
    Sound c' ∧ Bounded c' ∧ Queued c' dev q := by
  induction fuel generalizing ahead block bp readQ c with
  | zero => cases acquired
  | succ fuel inductionHypothesis =>
    rw [acquire] at acquired
    split at acquired
    case isTrue =>
      obtain ⟨rfl, rfl⟩ := Prod.mk.inj (some.inj acquired)
      exact ⟨sound, bounded, queued⟩
    case isFalse =>
      split at acquired
      case isTrue =>
        obtain ⟨rfl, rfl⟩ := Prod.mk.inj (some.inj acquired)
        exact ⟨sound, bounded, queued⟩
      case isFalse =>
        obtain ⟨⟨bp', c1⟩, got, rest⟩ := bind_eq_some_iff.mp acquired
        have spec := sound.getBlock bounded got
        have length : (readQ ++ [bp]).length = readQ.length + 1 := List.length_append
        have following : block + 1 = base + .ofNat (readQ ++ [bp]).length := by
          rw [last, length, UInt32.ofNat_add, add_assoc]
          rfl
        have fresh : ∀ other ∈ readQ ++ [bp], c.blocknr other ≠ block + 1 := fun other member =>
          following ▸ consecutive.fresh queued.nodup member
        have absent : bp' ∉ readQ ++ [bp] := fun member => by
          rcases spec.source with ⟨-, -, number, -⟩ | ⟨free, -⟩
          · exact fresh bp' member number
          · have used := queued.inUse bp' member
            rw [eq_zero_iff.mp free] at used
            exact absurd used (by decide)
        have kept := spec.queued queued absent fresh
        dsimp only at rest
        split at rest
        case isTrue =>
          -- The block is in the cache already: it is released, and the queue ends.
          obtain ⟨rfl, rfl⟩ := Prod.mk.inj (some.inj rest)
          have used : 0 < (c1.count bp').toInt := by
            rw [spec.count, update_self, toInt_succ (sound.counts bp') (bounded bp')]
            have := sound.counts bp'
            omega
          have released := @Sound.putBlock _ io _ _ spec.sound used false false
          refine ⟨released.sound, fun other => ?_, released.queued kept absent⟩
          rw [putDataBlock, spec.released released]
          exact bounded other
        case isFalse unmarked =>
          rcases spec.source with ⟨valid, -, -, here⟩ | ⟨free, missed⟩
          · exact absurd (here ▸ valid) unmarked
          · refine inductionHypothesis spec.sound (spec.bounded bounded free)
              (spec.enqueue queued free missed fresh) ?_ following rest
            intro i other found
            rcases Nat.lt_or_ge i (readQ ++ [bp]).length with inside | outside
            · rw [List.getElem?_append_left inside] at found
              have member : other ∈ readQ ++ [bp] := List.mem_of_getElem? found
              rw [spec.blocknr, update_of_ne (ne_of_mem_of_not_mem member absent)]
              exact consecutive i other found
            · rw [List.getElem?_append_right outside, List.getElem?_singleton] at found
              obtain ⟨atEnd, rfl⟩ := ite_some_none_eq_some.mp found
              rw [spec.blocknr, update_self, following,
                show i = (readQ ++ [bp]).length by omega]

theorem Sound.rahead {fuel : Nat} {rip : AheadInode} {position bytesAhead : UInt32}
    (sound : Sound c) (bounded : Bounded c)
    (read : rahead io fuel c rip block position bytesAhead = some (bp, c')) : Sound c' := by
  obtain ⟨⟨first, c1⟩, got, rest⟩ := bind_eq_some_iff.mp read
  have spec := sound.getBlock bounded got
  dsimp only at rest
  split at rest
  case isTrue =>
    obtain ⟨rfl, rfl⟩ := Prod.mk.inj (some.inj rest)
    exact spec.sound
  case isFalse unmarked =>
    obtain ⟨⟨q, c2⟩, acquired, rest⟩ := bind_eq_some_iff.mp rest
    obtain ⟨c3, scattered, got'⟩ := bind_eq_some_iff.mp rest
    rcases spec.source with ⟨valid, -, -, here⟩ | ⟨free, missed⟩
    · exact absurd (here ▸ valid) unmarked
    · have empty : Queued c rip.dev [] :=
        ⟨List.nodup_nil, (fun _ member => by cases member), (fun _ _ member => by cases member)⟩
      have single : Consecutive c1 block [first] := by
        intro i other found
        cases i with
        | zero =>
          obtain rfl := some.inj found
          rw [spec.blocknr, update_self]
          exact (add_zero block).symm
        | succ i => cases found
      obtain ⟨sound2, bounded2, queued⟩ := acquire_queued spec.sound
        (spec.bounded bounded free)
        (spec.enqueue empty free missed (fun _ member => by cases member)) single
        (add_zero block).symm acquired
      obtain ⟨sound3, fewer⟩ := queued.rwScattered sound2 scattered
      exact (sound3.getBlock (fewer.bounded bounded2) got').sound

end Minix.Cache
