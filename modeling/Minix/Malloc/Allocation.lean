/-
This file proves what `malloc`, `realloc` and `free` do to a heap, and from it what holds in every
run of a program that resizes and frees live blocks only.

`realloc` rounds a size up without the check that `malloc` makes. For the last few sizes below
`2 ^ 32` the sum wraps to less than the size, and the old block is returned, cut down to nothing.
-/

import Minix.Malloc.Edits

namespace Minix.Malloc

open Function (update update_of_ne update_self update_eq_self update_idem update_comm)
open Option (some.inj bind_some)
open LinkedList Successor Transition

/-! ### Sizes -/

section Sizes

variable {s : Heap} {p len size : Nat}

theorem len_eq (small : size ≤ 2 ^ 32 - 8) :
    add (align size ptrSize) ptrSize = (size + 3) / 4 * 4 + 4 := by
  simp only [align, add, ptrSize]
  omega

theorem len_lt_iff (word : size < 2 ^ 32) :
    add (align size ptrSize) ptrSize < 2 * ptrSize ↔ size = 0 ∨ 2 ^ 32 - 8 < size := by
  simp only [align, add, ptrSize]
  omega

theorem fits_iff (below : p < 2 ^ 32) (word : len < 2 ^ 32) :
    s.fits len p = true ↔ 0 < len ∧ p + len ≤ s.nextSlot p ∧ p + len < 2 ^ 32 := by
  rw [Heap.fits, Bool.not_eq_true', Bool.or_eq_false_iff, decide_eq_false_iff_not,
    decide_eq_false_iff_not, add]
  omega

end Sizes

section Top

variable {s : Heap} {p len v : Nat}

theorem link_top (prev : Option Nat) : (s.link prev v).top = s.top := by
  cases prev <;> rfl

theorem splitFree_top : (s.splitFree p len).top = s.top := by
  rw [Heap.splitFree]
  split <;> rfl

end Top

/-- The heap before the first call, or one with slots. -/
def Sound (s : Heap) (live : Nat → Option Nat) : Prop :=
  (s.bottom = 0 ∧ s.top = 0 ∧ s.empty = 0 ∧ ∀ p, live p = none) ∨
    s.bottom ≠ 0 ∧ ∃ slot, Laid s s.top live slot

/-- What `_sbrk` returns is room for two pointers. -/
def Brk.Ok (env : Brk) : Prop := ∀ p ∈ env.sbrk, 0 < p ∧ p + 2 * ptrSize ≤ 2 ^ 32

namespace Laid

variable {s s' : Heap} {top p q new size len : Nat} {live live' : Nat → Option Nat}
  {slot : Nat → Prop} {prev : Option Nat}

/-! ### More memory -/

theorem bottom_ne (laid : Laid s top live slot) : s.bottom ≠ 0 := by
  intro none
  have follows : Follows slot 0 (ptr s.bottom) := laid.slots.head
  rw [none] at follows
  have := follows top laid.slot_top
  have := (laid.aligned top laid.slot_top).2
  omega

theorem setTop (laid : Laid s top live slot) : Laid { s with top := new } top live slot :=
  laid.congr rfl (fun _ _ => rfl) (laid.free.congr (fun _ => Iff.rfl) rfl fun _ _ => rfl) laid.fits

theorem sound (laid : Laid s s.top live slot) : Sound s live :=
  .inr ⟨laid.bottom_ne, slot, laid⟩

theorem top_dead (laid : Laid s top live slot) : live top = none := by
  cases lives : live top with
  | none => rfl
  | some size => exact absurd rfl (laid.fits top size lives).2.1

/-- A slot is added at the top of the heap. -/
theorem append (laid : Laid s top live slot) (above : top + 8 ≤ new) (aligned : new % 4 = 0)
    (below : new ≤ 2 ^ 32 - brkSize) :
    let s' := (s.setNextSlot top new).setNextSlot new 0
    Laid s' new (update live top (some 0)) (fun q => slot q ∨ q = new) ∧
      Untouched live s s' := by
  intro s'
  have low := (laid.aligned top laid.slot_top).2
  have beyond {q : Nat} (member : slot q) : q + 8 ≤ new := by
    have := laid.le_top q member
    omega
  have first : s'.nextSlot top = new := by
    rw [nextSlot_setNextSlot_of_ne (by omega) low (by omega), nextSlot_setNextSlot_self]
  have others (q : Nat) (member : slot q) (other : q ≠ top) : s'.nextSlot q = s.nextSlot q := by
    have low' := (laid.aligned q member).2
    have := beyond member
    rw [nextSlot_setNextSlot_of_ne (by omega) low' (by omega),
      nextSlot_setNextSlot_of_ne low low' other]
  have laid' : Laid s' new (update live top (some 0)) fun q => slot q ∨ q = new := by
    refine ⟨.inr rfl, fun q member => ?_, fun q r member member' less => ?_, fun q member => ?_,
      ?_, fun _ _ _ => below, ?_, ?_, fun q size lives => ?_⟩
    · rcases member with member | rfl
      · have := beyond member
        omega
      · exact le_rfl
    · rcases member with member | rfl
      · rcases member' with member' | rfl
        · exact laid.spaced q r member member' less
        · exact beyond member
      · rcases member' with member' | rfl
        · have := beyond member'
          omega
        · omega
    · rcases member with member | rfl
      · exact laid.aligned q member
      · exact ⟨aligned, by omega⟩
    · simp only [brkSize] at below
      omega
    · have read : s.slots.read (some top) = none := congrArg ptr laid.nextSlot_top
      refine (@Ascends.insert slot s.slots (some top) laid.slots
        (fun q same => some.inj same ▸ laid.slot_top) new (by simp; omega)
        (fun next found => by rw [read] at found; cases found)).congr (fun _ => Iff.rfl) rfl
        fun q member => ?_
      change ptr (s'.nextSlot q) = _
      by_cases isTop : q = top
      · subst isTop
        rw [first, ptr_of_ne (by omega), Links.insert_next_cursor]
      · have away : some top ≠ some q := fun same => isTop (some.inj same).symm
        rcases member with member | rfl
        · have := beyond member
          rw [others q member isTop, Links.insert_next_of_ne away (by omega)]
          rfl
        · rw [Links.insert_next_self away, read]
          exact congrArg ptr nextSlot_setNextSlot_self
    · refine laid.free.congr (fun q => ?_) rfl fun q free => ?_
      · rw [Free, Free]
        by_cases isTop : q = top
        · simp [isTop]
        · have (member : slot q) : q ≠ new := by
            have := beyond member
            omega
          simp only [update_of_ne isTop]
          tauto
      · have := beyond free.1
        exact congrArg ptr ((nextFree_setNextSlot (by omega) (by omega)).trans
          (nextFree_setNextSlot low (laid.apart free.1 laid.slot_top)))
    · by_cases isTop : q = top
      · subst isTop
        rw [update_self] at lives
        obtain rfl := some.inj lives
        exact ⟨.inl laid.slot_top, by omega, by rw [first]; omega⟩
      · rw [update_of_ne isTop] at lives
        obtain ⟨member, -, enough⟩ := laid.fits q size lives
        have := beyond member
        exact ⟨.inl member, by omega, by rwa [others q member isTop]⟩
  refine ⟨laid', ((laid'.keepsNextSlot (.inl laid.slot_top)).trans
    (laid'.keepsNextSlot (.inr rfl))).mono fun q size lives => ?_⟩
  rwa [update_of_ne fun same => by rw [same, laid.top_dead] at lives; cases lives]

theorem grow_spec (laid : Laid s s.top live slot) (env : Brk) (enough : 8 ≤ len)
    (word : len < 2 ^ 32) :
    s.grow env len = some none ∨
      ∃ s' slot', s.grow env len = some (some s') ∧ Laid s' s'.top live slot' ∧
        Untouched live s s' := by
  rw [Heap.grow]
  split
  case isTrue => exact .inl rfl
  case isFalse fine =>
    split
    case isTrue => exact .inl rfl
    case isFalse =>
      have under := laid.below
      have low := (laid.aligned s.top laid.slot_top).2
      generalize newTop : align (add s.top len) brkSize = new at fine ⊢
      simp only [align, add, brkSize] at newTop fine
      have placed : s.top + 8 ≤ new ∧ new % 4 = 0 ∧ new ≤ 2 ^ 32 - brkSize := by
        simp only [brkSize]
        omega
      obtain ⟨laid₁, kept₁⟩ := laid.append placed.1 placed.2.1 placed.2.2
      obtain ⟨s₂, slot₂, freed, laid₂, kept₂⟩ := laid₁.free_spec (update_self _ _ _)
      have same : update (update live s.top (some 0)) s.top none = live := by
        rw [update_idem, ← laid.top_dead, update_eq_self]
      rw [same] at laid₂ kept₂
      refine .inr ⟨{ s₂ with top := new }, slot₂, ?_, laid₂.setTop, kept₁.trans kept₂⟩
      have top : ((s.setNextSlot s.top new).setNextSlot new 0).free s.top = some s₂ := freed
      exact congrArg (Option.bind · fun s => some (some { s with top := new })) top

end Laid

variable {env : Brk} {s : Heap}

/-- The first call makes a heap with no slots but the top, if it gets memory. -/
theorem Sound.start {live : Nat → Option Nat} (sound : Sound s live) (ok : env.Ok) :
    s.start env = none ∨ ∃ s' slot, s.start env = some s' ∧ Laid s' s'.top live slot ∧
      Untouched live s s' := by
  rw [Heap.start]
  rcases sound with ⟨bottom, -, empty, dead⟩ | ⟨used, slot, laid⟩
  · rw [if_neg (not_not.mpr bottom)]
    cases got : env.sbrk with
    | none => exact .inl rfl
    | some p =>
      have room := ok p got
      obtain ⟨top, first⟩ : ∃ top, top = add (align p ptrSize) ptrSize := ⟨_, rfl⟩
      have placed : top % 4 = 0 ∧ 8 ≤ top ∧ top < 2 ^ 32 := by
        simp only [align, add, ptrSize] at first room
        omega
      refine .inr ⟨{ s with top := top, bottom := top }.setNextSlot top 0, (· = top), ?_, ?_, ?_⟩
      · rw [Option.map_some, ← first]
      · have none (q : Nat) (free : Free top live (· = top) q) : False := free.2.1 free.1
        refine ⟨rfl, fun q same => Nat.le_of_eq same, fun q r same same' less => ?_,
          fun q same => ?_, placed.2.2, fun q same notTop => absurd same notTop, ?_, ?_, ?_⟩
        · omega
        · rw [same]
          exact ⟨placed.1, placed.2.1⟩
        · refine ⟨fun q same => by omega, ?_, fun q same => ?_⟩
          · change Follows _ 0 (ptr top)
            rw [ptr_of_ne (by omega)]
            exact ⟨rfl, by omega, fun r same _ => Nat.le_of_eq same.symm⟩
          · subst same
            change Follows _ q (ptr _)
            rw [nextSlot_setNextSlot_self]
            exact fun r same => Nat.le_of_eq same
        · refine ⟨fun q free => (none q free).elim, ?_, fun q free => (none q free).elim⟩
          change Follows _ 0 (ptr s.empty)
          rw [empty]
          exact fun r free => (none r free).elim
        · intro q size lives
          rw [dead q] at lives
          cases lives
      · intro q size lives
        rw [dead q] at lives
        cases lives
  · rw [if_pos used]
    exact .inr ⟨s, slot, rfl, laid, .refl live s⟩

/-! ### `malloc` -/

/-- A call that asks for a block leaves the live blocks alone. It fails with the null pointer, or
returns a new block of the given size. -/
def Allocates (live : Nat → Option Nat) (size : Nat) (s s' : Heap) (p : Nat) : Prop :=
  Untouched live s s' ∧
    if p = 0 then Sound s' live
    else live p = none ∧ Sound s' (update live p (some size))

theorem Allocates.after {live : Nat → Option Nat} {size p : Nat} {s s' s'' : Heap}
    (kept : Untouched live s s') (allocates : Allocates live size s' s'' p) :
    Allocates live size s s'' p :=
  ⟨kept.trans allocates.1, allocates.2⟩

namespace Laid

variable {s s' : Heap} {top p q new size len : Nat} {live live' : Nat → Option Nat}
  {slot : Nat → Prop} {prev : Option Nat}

/-- A free slot that is large enough is split and handed out. -/
theorem allot (laid : Laid s top live slot) (valid : ∀ q ∈ prev, Free top live slot q)
    (found : s.linked prev = p) (used : p ≠ 0) (fits : s.fits len p = true)
    (word : len < 2 ^ 32) (aligned : len % 4 = 0) (least : 8 ≤ len) (enough : size + 4 ≤ len) :
    ∃ slot', Laid ((s.splitFree p len).link prev ((s.splitFree p len).nextFree p)) top
        (update live p (some size)) slot' ∧
      Untouched live s ((s.splitFree p len).link prev ((s.splitFree p len).nextFree p)) := by
  have here := laid.linked valid
  rw [found, ptr_of_ne used] at here
  obtain ⟨free, beyond, nearest⟩ := here
  obtain ⟨-, inside, small⟩ := (fits_iff (laid.free_lt free) word).mp fits
  have sum : add p len = p + len := Nat.mod_eq_of_lt small
  have sum' : add (p + len) ptrSize < s.nextSlot p ↔ p + len + 8 ≤ s.nextSlot p := by
    have onFour := (laid.aligned p free.1).1
    have onFour' := (laid.aligned _ (laid.behind free.1 free.2.1).1).1
    have under := Nat.lt_of_le_of_lt (laid.le_top _ (laid.behind free.1 free.2.1).1) laid.below
    have room := laid.room p free.1 free.2.1
    have topmost := laid.le_top _ (laid.behind free.1 free.2.1).1
    simp only [brkSize] at room
    simp only [add, ptrSize]
    omega
  by_cases big : add (p + len) ptrSize < s.nextSlot p
  · have below := sum'.mp big
    have onFour := (laid.aligned p free.1).1
    have fresh : live (p + len) = none := by
      cases lives : live (p + len) with
      | none => rfl
      | some size =>
        have member := (laid.fits (p + len) size lives).1
        rcases laid.gap free.1 free.2.1 (by omega) below member with near | near <;> omega
    obtain ⟨laid', kept, first, -⟩ :=
      laid.splitFree free (by omega) below (by omega) fresh
    have split : s.splitFree p len = (((s.setNextSlot (p + len) (s.nextSlot p)).setNextSlot p
        (p + len)).setNextFree (p + len) (s.nextFree p)).setNextFree p (p + len) := by
      have low := (laid.aligned p free.1).2
      have kept : ((s.setNextSlot (p + len) (s.nextSlot p)).setNextSlot p (p + len)).nextFree p =
          s.nextFree p :=
        (nextFree_setNextSlot low (by omega)).trans (nextFree_setNextSlot (by omega) (by omega))
      rw [Heap.splitFree, sum, if_pos big, ← kept]
    rw [← split] at laid' kept first
    have valid' : ∀ q ∈ prev, Free top live (fun q => slot q ∨ q = p + len) q := fun q cursor =>
      ⟨.inl (valid q cursor).1, (valid q cursor).2⟩
    have same : ptr ((s.splitFree p len).linked prev) = some p := by
      refine (laid'.linked valid').unique ⟨⟨.inl free.1, free.2⟩, beyond, fun r member above => ?_⟩
      rcases member.1 with member' | rfl
      · exact nearest r ⟨member', member.2⟩ above
      · omega
    have found' := (ptr_eq_some.mp same).1
    have enough' : p + size + 4 ≤ (s.splitFree p len).nextSlot p := by
      rw [first]
      omega
    exact ⟨_, laid'.take valid' found' used enough', kept.trans (laid'.keepsLink valid')⟩
  · have whole : s.splitFree p len = s := by
      rw [Heap.splitFree, sum]
      exact if_neg big
    rw [whole]
    exact ⟨slot, laid.take valid found used (by omega), laid.keepsLink valid⟩

end Laid

theorem mallocTries_spec (ok : env.Ok) {live : Nat → Option Nat} {size : Nat} (word : size < 2 ^ 32)
    (tries : Nat) (sound : Sound s live) :
    ∃ s' p, Heap.mallocTries env size tries s = some (s', p) ∧ Allocates live size s s' p := by
  induction tries generalizing s with
  | zero => exact ⟨s, 0, rfl, .refl live s, sound⟩
  | succ tries inductionHypothesis =>
    rw [Heap.mallocTries]
    by_cases huge : add (align size ptrSize) ptrSize < 2 * ptrSize
    · exact ⟨s, 0, if_pos huge, .refl live s, sound⟩
    · have small : size ≤ 2 ^ 32 - 8 := by
        rw [len_lt_iff word] at huge
        omega
      rw [if_neg huge]
      rcases sound.start ok with failed | ⟨s₁, slot, started, laid, kept⟩
      · rw [failed]
        exact ⟨s, 0, rfl, .refl live s, sound⟩
      · rw [started]
        obtain ⟨len, rounded⟩ : ∃ len, len = add (align size ptrSize) ptrSize := ⟨_, rfl⟩
        rw [← rounded] at huge ⊢
        rw [len_eq small] at rounded
        simp only [ptrSize] at huge
        have bounds : 8 ≤ len ∧ len < 2 ^ 32 ∧ len % 4 = 0 ∧ size + 4 ≤ len := by omega
        obtain ⟨prev, found, valid, -, stopped⟩ := laid.walk (s₁.fits len)
        simp only [found, Option.bind_eq_bind, bind_some]
        by_cases fitting : s₁.linked prev = 0
        · simp only [fitting, ne_eq, not_true_eq_false, if_false]
          rcases laid.grow_spec env bounds.1 bounds.2.1 with
            failed | ⟨s₂, slot₂, grown, laid₂, kept₂⟩
          · rw [failed]
            exact ⟨s₁, 0, rfl, kept, laid.sound⟩
          · rw [grown]
            obtain ⟨s₃, p, result, allocates⟩ := inductionHypothesis laid₂.sound
            exact ⟨s₃, p, result, .after (kept.trans kept₂) allocates⟩
        · simp only [ne_eq, fitting, not_false_eq_true, if_true]
          have fits := stopped _ (ptr_of_ne fitting)
          have dead : live (s₁.linked prev) = none := by
            have here := laid.linked valid
            rw [ptr_of_ne fitting] at here
            exact here.1.2.2
          obtain ⟨slot₂, laid₂, kept₂⟩ := laid.allot valid rfl fitting fits bounds.2.1
            bounds.2.2.1 bounds.1 bounds.2.2.2
          refine ⟨_, _, rfl, kept.trans kept₂, ?_⟩
          rw [if_neg fitting]
          refine ⟨dead, .inr ⟨laid₂.bottom_ne, slot₂, ?_⟩⟩
          rwa [link_top, splitFree_top]

theorem malloc_spec (ok : env.Ok) {live : Nat → Option Nat} {size : Nat} (word : size < 2 ^ 32)
    (sound : Sound s live) :
    ∃ s' p, s.malloc env size = some (s', p) ∧ Allocates live size s s' p := by
  rw [Heap.malloc]
  by_cases zero : size = 0
  · exact ⟨s, 0, if_pos zero, .refl live s, sound⟩
  · rw [if_neg zero]
    exact mallocTries_spec ok word 2 sound

/-! ### `realloc` -/

section Top

variable {s s' : Heap} {p q : Nat}

theorem mergeFree_top : (s.mergeFree p q).top = s.top := by
  rw [Heap.mergeFree]
  split <;> rfl

theorem free_top (freed : s.free p = some s') : s'.top = s.top := by
  rw [Heap.free] at freed
  split at freed
  · obtain rfl := some.inj freed
    rfl
  · obtain ⟨prev, -, rest⟩ := Option.bind_eq_some_iff.mp freed
    obtain rfl := some.inj rest
    cases prev with
    | none =>
      dsimp only
      split
      · exact link_top _
      · rw [mergeFree_top, link_top]
        rfl
    | some prev =>
      dsimp only
      rw [mergeFree_top]
      split
      · exact link_top _
      · rw [mergeFree_top, link_top]
        rfl

end Top

/-- A block is resized: it stays or moves, and the bytes it held and still holds move with it. If
there is no memory, all blocks are as they were. -/
def Resizes (live : Nat → Option Nat) (old size : Nat) (s s' : Heap) (p : Nat) : Prop :=
  Untouched (update live old none) s s' ∧
    if p = 0 then Sound s' live ∧ Untouched live s s'
    else (p = old ∨ live p = none) ∧
      Sound s' (update (update live old none) p (some size)) ∧
      ∀ held, live old = some held → ∀ offset < min held size,
        s'.mem (p + offset) = s.mem (old + offset)

namespace Laid

variable {s s' : Heap} {top p q old size held : Nat} {live live' : Nat → Option Nat}
  {slot : Nat → Prop} {prev : Option Nat}

theorem free_sound (laid : Laid s s.top live slot) (lives : live p = some size) :
    ∃ s', s.free p = some s' ∧ Sound s' (update live p none) ∧
      Untouched (update live p none) s s' := by
  obtain ⟨s', slot', freed, laid', kept⟩ := laid.free_spec lives
  rw [← free_top freed] at laid'
  exact ⟨s', freed, laid'.sound, kept⟩

theorem extend_spec (laid : Laid s top live slot) (lives : live old = some held) :
    ∃ s' slot', s.extend old = some s' ∧ Laid s' top live slot' ∧ Untouched live s s' ∧
      s.nextSlot old ≤ s'.nextSlot old ∧ s'.top = s.top := by
  obtain ⟨prev, found, valid, -, -⟩ := laid.walk fun p => decide (s.nextSlot old ≤ p)
  simp only [Heap.extend, found, Option.bind_eq_bind, bind_some]
  by_cases behind : s.linked prev ≠ 0 ∧ s.linked prev = s.nextSlot old
  · rw [if_pos behind, behind.2]
    obtain ⟨laid', kept, larger⟩ := laid.absorb lives valid behind.2
    have low := (laid.aligned old (laid.fits old held lives).1).2
    have member := (laid.behind (laid.fits old held lives).1 (laid.fits old held lives).2.1).1
    have same : (s.setNextSlot old (s.nextSlot (s.nextSlot old))).nextFree (s.nextSlot old) =
        s.nextFree (s.nextSlot old) :=
      nextFree_setNextSlot low (laid.apart member (laid.fits old held lives).1)
    rw [same]
    exact ⟨_, _, rfl, laid', kept, larger, link_top _⟩
  · rw [if_neg behind]
    exact ⟨s, slot, rfl, laid, .refl live s, le_rfl, rfl⟩

/-- A block that is large enough is kept, and what it does not need is freed. -/
theorem shrink (laid : Laid s s.top live slot) (lives : live old = some held) {len : Nat}
    (enough : size + 4 ≤ len) (least : 8 ≤ len) (aligned : len % 4 = 0)
    (fits : old + len ≤ s.nextSlot old) :
    ∃ s', (if add (old + len) ptrSize < s.nextSlot old then
          (((s.setNextSlot (old + len) (s.nextSlot old)).setNextSlot old (old + len)).free
            (old + len)).bind fun s => some (s, old)
        else some (s, old)) = some (s', old) ∧
      Sound s' (update live old (some size)) ∧
      Untouched (update live old (some size)) s s' := by
  obtain ⟨member, notTop, -⟩ := laid.fits old held lives
  have resized := laid.resize lives (show old + size + 4 ≤ s.nextSlot old by omega)
  have room := laid.room old member notTop
  have topmost := laid.le_top _ (laid.behind member notTop).1
  have onFour := (laid.aligned old member).1
  have onFour' := (laid.aligned _ (laid.behind member notTop).1).1
  simp only [brkSize] at room
  by_cases big : add (old + len) ptrSize < s.nextSlot old
  · rw [if_pos big]
    have below : old + len + 8 ≤ s.nextSlot old := by
      simp only [add, ptrSize] at big
      omega
    obtain ⟨carved, kept, fresh⟩ := resized.carve (update_self _ _ _)
      (show old + size + 4 ≤ old + len by omega) (by omega) below (by omega)
    obtain ⟨s', freed, sound, kept'⟩ := carved.free_sound (update_self _ _ _)
    rw [update_idem, ← fresh, update_eq_self] at sound kept'
    refine ⟨s', ?_, sound, kept.trans kept'⟩
    rw [freed]
    rfl
  · exact ⟨s, if_neg big, resized.sound, .refl _ s⟩

theorem move (laid : Laid s s.top live slot) (lives : live old = some held)
    (lives' : live p = some size) (apart : p ≠ old) {n : Nat}
    (inside : p + n + 4 ≤ s.nextSlot p) :
    ∃ s', (s.memcpy p old n).free old = some s' ∧ Sound s' (update live old none) ∧
      Untouched (update (update live old none) p none) s s' ∧
      ∀ offset < n, offset < size → s'.mem (p + offset) = s.mem (old + offset) := by
  have written (q : Nat) (other : (s.memcpy p old n).mem q ≠ s.mem q) :
      p ≤ q ∧ q + 4 < s.nextSlot p := by
    by_contra outside
    refine other (if_neg ?_)
    omega
  obtain ⟨laid', kept⟩ := laid.scribble lives' written
  obtain ⟨s', freed, sound, kept'⟩ := laid'.free_sound lives
  refine ⟨s', freed, sound, ?_, fun offset within within' => ?_⟩
  · refine (kept.mono fun q size' lives => ?_).trans (kept'.mono fun q size' lives => ?_)
    · by_cases same : q = p
      · simp [same] at lives
      · by_cases same' : q = old
        · simp [same', apart.symm] at lives
        · simpa [same, same'] using lives
    · by_cases same : q = p
      · simp [same] at lives
      · simpa [same] using lives
  · have copied := kept' p size (by rwa [update_of_ne apart]) offset within'
    refine copied.trans ((if_pos (by omega)).trans ?_)
    rw [Nat.add_sub_cancel_left]

end Laid

/-- `realloc` always returns, and does what it should if the size can be rounded up. -/
theorem realloc_spec (ok : env.Ok) {live : Nat → Option Nat} {old size held : Nat}
    (small : size ≤ 2 ^ 32 - 8) (positive : size ≠ 0) (sound : Sound s live)
    (lives : live old = some held) :
    ∃ s' p, s.realloc env old size = some (s', p) ∧ Resizes live old size s s' p := by
  rcases sound with ⟨-, -, -, dead⟩ | ⟨-, slot, laid⟩
  · rw [dead old] at lives
    cases lives
  obtain ⟨member, notTop, holds⟩ := laid.fits old held lives
  obtain ⟨member', behind, -⟩ := laid.behind member notTop
  obtain ⟨s₁, slot₁, extended, laid₁, kept₁, larger, sameTop⟩ := laid.extend_spec lives
  have low := (laid.aligned old member).2
  obtain ⟨len, rounded⟩ : ∃ len, len = add (align size ptrSize) ptrSize := ⟨_, rfl⟩
  have bounds : 8 ≤ len ∧ len < 2 ^ 32 ∧ len % 4 = 0 ∧ size + 4 ≤ len ∧ len < size + 8 := by
    rw [len_eq small] at rounded
    omega
  rw [Heap.realloc, if_neg (by omega), if_neg positive]
  simp only [extended, ← rounded, Option.bind_eq_bind, bind_some]
  rw [← sameTop] at laid₁
  obtain ⟨member₁, notTop₁, -⟩ := laid₁.fits old held lives
  have room := laid₁.room old member₁ notTop₁
  have topmost := laid₁.le_top _ (laid₁.behind member₁ notTop₁).1
  have under := laid.le_top _ member'
  have dies (q size' : Nat) (lives' : update live old none q = some size') :
      live q = some size' := by
    by_cases same : q = old
    · simp [same] at lives'
    · rwa [update_of_ne same] at lives'
  have kept₁' : Untouched (update live old none) s s₁ := kept₁.mono dies
  simp only [brkSize] at room
  by_cases fits : add old len ≤ s₁.nextSlot old ∧ old ≤ add old len
  · rw [if_pos fits]
    have sum : add old len = old + len := by
      simp only [add] at fits ⊢
      omega
    rw [sum] at fits ⊢
    obtain ⟨s₂, result, sound₂, kept₂⟩ :=
      laid₁.shrink lives bounds.2.2.2.1 bounds.1 bounds.2.2.1 fits.1
    refine ⟨s₂, old, result, kept₁'.trans (kept₂.mono fun q size' lives' => ?_), ?_⟩
    · by_cases same : q = old
      · simp [same] at lives'
      · simpa [same] using lives'
    · rw [if_neg (by omega), update_idem]
      refine ⟨.inl rfl, sound₂, fun held' lives' offset within => ?_⟩
      exact (kept₂ old size (update_self _ _ _) offset (by omega)).trans
        (kept₁ old held' lives' offset (by omega))
  · rw [if_neg fits]
    obtain ⟨s₂, p, result, kept₂, outcome⟩ := malloc_spec ok
      (show size < 2 ^ 32 by omega) laid₁.sound
    rw [result]
    by_cases failed : p = 0
    · subst failed
      refine ⟨s₂, 0, rfl, kept₁'.trans (kept₂.mono dies), outcome, kept₁.trans kept₂⟩
    · simp only [if_neg failed, bind_some] at outcome ⊢
      obtain ⟨fresh, sound₂⟩ := outcome
      rcases sound₂ with ⟨-, -, -, dead⟩ | ⟨-, slot₂, laid₂⟩
      · have := dead p
        rw [update_self] at this
        cases this
      have apart : p ≠ old := fun same => by
        rw [same, lives] at fresh
        cases fresh
      obtain ⟨memberP, notTopP, holdsP⟩ := laid₂.fits p size (update_self _ _ _)
      have inside : p + sub (s.nextSlot old) old + 4 ≤ s₂.nextSlot p := by
        have onFour := (laid.aligned old member).1
        have onFour' := (laid.aligned _ member').1
        have onFourP := (laid₂.aligned p memberP).1
        have onFourP' := (laid₂.aligned _ (laid₂.behind memberP notTopP).1).1
        simp only [add, sub] at fits ⊢
        omega
      obtain ⟨s₃, moved, sound₃, kept₃, copied⟩ := laid₂.move
        (by rwa [update_of_ne apart.symm]) (update_self _ _ _) apart inside
      have swap : update (update live p (some size)) old none =
          update (update live old none) p (some size) :=
        update_comm apart _ _ _
      rw [swap] at sound₃ kept₃
      rw [update_idem] at kept₃
      have kept₃' : Untouched (update live old none) s₂ s₃ := by
        refine kept₃.mono fun q size' lives' => ?_
        have other : q ≠ p := by
          rintro rfl
          simp [apart, fresh] at lives'
        rwa [update_of_ne other]
      refine ⟨s₃, p, ?_, (kept₁'.trans (kept₂.mono dies)).trans kept₃', ?_⟩
      · rw [moved]
        rfl
      · rw [if_neg failed]
        refine ⟨.inr fresh, sound₃, fun held' lives' offset within => ?_⟩
        obtain rfl := some.inj (lives.symm.trans lives')
        refine (copied offset (by simp only [sub]; omega) (by omega)).trans ?_
        exact (kept₂ old held lives offset (by omega)).trans
          (kept₁ old held lives offset (by omega))

end Minix.Malloc
