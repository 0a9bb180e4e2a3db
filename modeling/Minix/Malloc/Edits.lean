/-
This file proves what the parts of the allocator do to the slots of a heap, and that they leave the
contents of live blocks alone.
-/

import Minix.Malloc.Slots

namespace Minix.Malloc

open Function (update update_of_ne update_self)
open LinkedList Successor

/-! ### The contents of live blocks -/

/-- The live blocks hold what they held. -/
def Untouched (live : Nat → Option Nat) (s s' : Heap) : Prop :=
  ∀ q size, live q = some size → ∀ offset < size, s'.mem (q + offset) = s.mem (q + offset)

section Untouched

variable {s s' s'' t : Heap} {top p v size new : Nat} {live live' : Nat → Option Nat}
  {slot : Nat → Prop} {prev : Option Nat}

theorem Untouched.refl (live : Nat → Option Nat) (s : Heap) : Untouched live s s :=
  fun _ _ _ _ _ => rfl

theorem Untouched.trans (first : Untouched live s s') (second : Untouched live s' s'') :
    Untouched live s s'' := fun q size lives offset inside =>
  (second q size lives offset inside).trans (first q size lives offset inside)

theorem Untouched.mono (untouched : Untouched live s s')
    (fewer : ∀ q size, live' q = some size → live q = some size) : Untouched live' s s' :=
  fun q size lives => untouched q size (fewer q size lives)

section

variable (laid : Laid t top live slot)
include laid

theorem Laid.keepsNextSlot (member : slot p) :
    Untouched live s (s.setNextSlot p v) := by
  intro q size lives offset inside
  refine update_of_ne (fun same => ?_) _ _
  have low := (laid.aligned p member).2
  simp only [ptrSize] at same
  rcases laid.away lives inside member with far | rfl | ⟨before, -, -⟩ <;> omega

theorem Laid.keepsNextFree (member : slot p) (free : live p = none) :
    Untouched live s (s.setNextFree p v) := by
  intro q size lives offset inside
  refine update_of_ne (fun same => ?_) _ _
  rcases laid.away lives inside member with far | rfl | ⟨before, -, -⟩
  · omega
  · rw [free] at lives
    cases lives
  · omega

theorem Laid.keepsLink (valid : ∀ q ∈ prev, Free top live slot q) :
    Untouched live s (s.link prev v) := by
  cases prev with
  | none => exact .refl live s
  | some p => exact laid.keepsNextFree (valid p rfl).1 (valid p rfl).2.2

end

end Untouched

namespace Laid

variable {s s' : Heap} {top p q new size len : Nat} {live live' : Nat → Option Nat}
  {slot : Nat → Prop} {prev : Option Nat}

/-! ### Free slots -/

section

variable (laid : Laid s top live slot)
include laid

section

variable (free : Free top live slot p)
include free

theorem nextFree_of_nextSlot (free' : Free top live slot (s.nextSlot p)) :
    s.nextFree p = s.nextSlot p := by
  obtain ⟨-, above, used, least⟩ := laid.behind free.1 free.2.1
  have follows : Follows (Free top live slot) p (ptr (s.nextFree p)) := laid.free.next p free
  have same := @Follows.unique _ _ _ _ _ (some (s.nextSlot p)) follows
    ⟨free', by omega, fun r member => least r member.1⟩
  exact (ptr_eq_some.mp same).1

theorem mergeFree (free' : Free top live slot (s.nextSlot p)) :
    Laid (s.mergeFree p (s.nextSlot p)) top live fun q => slot q ∧ q ≠ s.nextSlot p := by
  obtain ⟨-, above, used, -⟩ := laid.behind free.1 free.2.1
  have low := (laid.aligned p free.1).2
  have listed := laid.nextFree_of_nextSlot free free'
  rw [Heap.mergeFree, if_pos rfl]
  refine laid.unite free.1 free.2.1 free'.2.1 rfl ?_ (fun q member other => ?_) ?_
    fun q size lives => ?_
  · rw [nextSlot_setNextFree low (by omega), nextSlot_setNextSlot_self]
  · rw [nextSlot_setNextFree (laid.aligned q member).2 (laid.apart free.1 member),
      nextSlot_setNextSlot_of_ne low (laid.aligned q member).2 other]
  · rw [frees_setNextFree, nextFree_setNextSlot low (by omega)]
    have read : s.frees.read (some p) = some (s.nextSlot p) :=
      (congrArg ptr listed).trans (ptr_of_ne used)
    have valid : ∀ q ∈ some p, Free top live slot q := fun q same => Option.some.inj same ▸ free
    refine (laid.free.remove valid read).congr (fun q => ?_) rfl fun q member => ?_
    · rw [Free, Free]
      tauto
    · by_cases same : q = p
      · subst same
        rw [Links.remove_next_cursor]
        exact update_self _ _ _
      · have away : some p ≠ some q := fun equal => same (Option.some.inj equal).symm
        rw [Links.remove_next_of_ne away, Links.write_next_of_ne away]
        exact congrArg ptr (nextFree_setNextSlot low (laid.apart member.1.1 free.1))
  · obtain ⟨member, notTop, enough⟩ := laid.fits q size lives
    have other : q ≠ p := fun same => by
      rw [same, free.2.2] at lives
      cases lives
    have other' : q ≠ s.nextSlot p := fun same => by
      rw [same, free'.2.2] at lives
      cases lives
    refine ⟨⟨member, other'⟩, notTop, ?_⟩
    rwa [nextSlot_setNextFree (laid.aligned q member).2 (laid.apart free.1 member),
      nextSlot_setNextSlot_of_ne low (laid.aligned q member).2 other]

theorem mergeFree_if (free' : Free top live slot q) :
    ∃ slot', Laid (s.mergeFree p q) top live slot' ∧ Untouched live s (s.mergeFree p q) ∧
      ∀ r, slot r → r ≠ q → slot' r := by
  by_cases next : s.nextSlot p = q
  · subst next
    refine ⟨_, laid.mergeFree free free', ?_, fun r member other => ⟨member, other⟩⟩
    rw [Heap.mergeFree, if_pos rfl]
    exact (laid.keepsNextSlot free.1).trans (laid.keepsNextFree free.1 free.2.2)
  · rw [Heap.mergeFree, if_neg next]
    exact ⟨slot, laid, .refl live s, fun r member _ => member⟩

end

/-- `free` puts a live slot on the free list and merges it with its free neighbours. -/
theorem free_spec (lives : live p = some size) :
    ∃ s' slot', s.free p = some s' ∧ Laid s' top (update live p none) slot' ∧
      Untouched (update live p none) s s' := by
  obtain ⟨member, notTop, -⟩ := laid.fits p size lives
  have low := (laid.aligned p member).2
  obtain ⟨prev, found, valid, passed, stopped⟩ := laid.walk fun next => decide (p < next)
  have above : prev.getD 0 < p := by
    cases prev with
    | none => exact Nat.lt_of_lt_of_le (by decide) low
    | some q =>
      have under := of_decide_eq_false (passed q (valid q rfl) le_rfl)
      refine Nat.lt_of_le_of_ne (Nat.not_lt.mp under) fun same => ?_
      have none := (valid q rfl).2.2
      rw [show q = p from same, lives] at none
      cases none
  have below : ∀ next ∈ ptr (s.linked prev), p < next := fun next here =>
    of_decide_eq_true (stopped next here)
  have released := laid.release lives valid above below
  have free : Free top (update live p none) slot p :=
    ⟨member, notTop, update_self _ _ _⟩
  have still (q : Nat) (free : Free top live slot q) :
      Free top (update live p none) slot q := by
    refine ⟨free.1, free.2.1, ?_⟩
    by_cases same : q = p
    · rw [same, update_self]
    · rw [update_of_ne same]
      exact free.2.2
  have kept : Untouched (update live p none) s
      ((s.setNextFree p (s.linked prev)).link prev p) :=
    (released.keepsNextFree member free.2.2).trans
      (released.keepsLink fun q here => still q (valid q here))
  rw [Heap.free, if_neg (by omega)]
  obtain ⟨s₁, slot₁, merged, laid₁, kept₁, stays⟩ : ∃ s₁ slot₁,
      (if s.linked prev = 0 then (s.setNextFree p (s.linked prev)).link prev p
        else ((s.setNextFree p (s.linked prev)).link prev p).mergeFree p (s.linked prev)) = s₁ ∧
      Laid s₁ top (update live p none) slot₁ ∧
      Untouched (update live p none) s s₁ ∧
      ∀ r, slot r → r ≠ s.linked prev → slot₁ r := by
    by_cases last : s.linked prev = 0
    · exact ⟨_, slot, if_pos last, released, kept, fun r member _ => member⟩
    · have follows := laid.linked valid
      rw [ptr_of_ne last] at follows
      obtain ⟨slot₁, laid₁, kept₁, stays⟩ := released.mergeFree_if free (still _ follows.1)
      exact ⟨_, slot₁, if_neg last, laid₁, kept.trans kept₁, stays⟩
  have next (r : Nat) (under : r ≤ p) (member : slot r) : slot₁ r := by
    refine stays r member fun same => ?_
    have := below r (by rw [← same]; exact ptr_of_ne (by have := (laid.aligned r member).2; omega))
    omega
  have free₁ : Free top (update live p none) slot₁ p :=
    ⟨next p le_rfl member, notTop, update_self _ _ _⟩
  cases prev with
  | none =>
    refine ⟨s₁, slot₁, ?_, laid₁, kept₁⟩
    simp only [found, Option.bind_eq_bind, Option.bind_some, merged]
  | some q =>
    have freeQ := still q (valid q rfl)
    have freeQ₁ : Free top (update live p none) slot₁ q :=
      ⟨next q (Nat.le_of_lt above) freeQ.1, freeQ.2⟩
    obtain ⟨slot₂, laid₂, kept₂, -⟩ := laid₁.mergeFree_if freeQ₁ free₁
    refine ⟨_, slot₂, ?_, laid₂, kept₁.trans kept₂⟩
    simp only [found, Option.bind_eq_bind, Option.bind_some, merged]

/-- A free slot is cut in two. -/
theorem splitFree (free : Free top live slot p) (above : p + 8 ≤ new)
    (below : new + 8 ≤ s.nextSlot p) (aligned : new % 4 = 0) (fresh : live new = none) :
    let s' := (((s.setNextSlot new (s.nextSlot p)).setNextSlot p new).setNextFree new
      (s.nextFree p)).setNextFree p new
    Laid s' top live (fun q => slot q ∨ q = new) ∧ Untouched live s s' ∧ s'.nextSlot p = new ∧
      s'.nextFree p = new := by
  intro s'
  have low := (laid.aligned p free.1).2
  have used : new ≠ 0 := by omega
  have apart {q : Nat} (member : slot q) : q + 4 ≠ new ∧ new + 4 ≠ q ∧ q ≠ new := by
    rcases laid.gap free.1 free.2.1 above below member with near | near <;> omega
  have first : s'.nextSlot p = new := by
    rw [nextSlot_setNextFree low (by omega), nextSlot_setNextFree low (by omega),
      nextSlot_setNextSlot_self]
  have others (q : Nat) (member : slot q) (other : q ≠ p) : s'.nextSlot q = s.nextSlot q := by
    have low' := (laid.aligned q member).2
    rw [nextSlot_setNextFree low' (laid.apart free.1 member),
      nextSlot_setNextFree low' (apart member).2.1, nextSlot_setNextSlot_of_ne low low' other,
      nextSlot_setNextSlot_of_ne (by omega) low' (apart member).2.2]
  have isFree : Free top live (fun q => slot q ∨ q = new) new := by
    refine ⟨.inr rfl, fun same => ?_, fresh⟩
    have := (apart laid.slot_top).2.2
    omega
  have laid' : Laid s' top live fun q => slot q ∨ q = new := by
    refine laid.divide free.1 free.2.1 above below aligned rfl first ?_ others ?_
      fun q size lives => ?_
    · rw [nextSlot_setNextFree (by omega) (by omega), nextSlot_setNextFree (by omega) (by omega),
        nextSlot_setNextSlot_of_ne low (by omega) (by omega), nextSlot_setNextSlot_self]
    · have valid : ∀ q ∈ some p, Free top live slot q := fun q same => Option.some.inj same ▸ free
      have read : s.frees.read (some p) = ptr (s.nextFree p) := rfl
      have beyond : ∀ next ∈ s.frees.read (some p), new < next := fun next here => by
        have follows := laid.free.read valid
        rw [here] at follows
        have := (laid.behind free.1 free.2.1).2.2.2 next follows.1.1 follows.2.1
        omega
      refine (laid.free.insert valid (show p < new by omega) beyond).congr (fun q => ?_) rfl
        fun q member => ?_
      · have notTop := isFree.2.1
        rw [Free, Free]
        by_cases same : q = new
        · simp [same, notTop, fresh]
        · simp [same]
      · by_cases same : q = p
        · subst same
          rw [Links.insert_next_cursor, ← ptr_of_ne used]
          exact congrArg ptr nextFree_setNextFree_self
        · have away : some p ≠ some q := fun equal => same (Option.some.inj equal).symm
          have skip : s'.frees.next q = ptr ((((s.setNextSlot new (s.nextSlot p)).setNextSlot p
              new).setNextFree new (s.nextFree p)).nextFree q) :=
            congrArg ptr (nextFree_setNextFree_of_ne same)
          rcases member with member | rfl
          · rw [Links.insert_next_of_ne away (apart member.1).2.2, skip,
              nextFree_setNextFree_of_ne (apart member.1).2.2,
              nextFree_setNextSlot low (laid.apart member.1 free.1),
              nextFree_setNextSlot (by omega) (apart member.1).1]
            rfl
          · rw [Links.insert_next_self away, skip, nextFree_setNextFree_self, read]
    · obtain ⟨member, notTop, enough⟩ := laid.fits q size lives
      have other : q ≠ p := fun same => by
        rw [same, free.2.2] at lives
        cases lives
      exact ⟨.inl member, notTop, by rwa [others q member other]⟩
  refine ⟨laid', ?_, first, nextFree_setNextFree_self⟩
  exact (((laid'.keepsNextSlot isFree.1).trans (laid'.keepsNextSlot (.inl free.1))).trans
    (laid'.keepsNextFree isFree.1 fresh)).trans (laid'.keepsNextFree (.inl free.1) free.2.2)

end

/-! ### Live slots -/

section

variable (laid : Laid s top live slot) (lives : live p = some size)
include laid lives

theorem absorb (valid : ∀ q ∈ prev, Free top live slot q) (found : s.linked prev = s.nextSlot p) :
    let s' := (s.setNextSlot p (s.nextSlot (s.nextSlot p))).link prev (s.nextFree (s.nextSlot p))
    Laid s' top live (fun q => slot q ∧ q ≠ s.nextSlot p) ∧ Untouched live s s' ∧
      s.nextSlot p ≤ s'.nextSlot p := by
  intro s'
  obtain ⟨member, notTop, -⟩ := laid.fits p size lives
  obtain ⟨member', above, used, -⟩ := laid.behind member notTop
  have low := (laid.aligned p member).2
  have read : s.frees.read prev = some (s.nextSlot p) := by
    rw [frees_read, found, ptr_of_ne used]
  have free : Free top live slot (s.nextSlot p) := by
    have follows := laid.linked valid
    rw [found, ptr_of_ne used] at follows
    exact follows.1
  have first : s'.nextSlot p = s.nextSlot (s.nextSlot p) := by
    rw [nextSlot_link low fun q here => laid.apart (valid q here).1 member,
      nextSlot_setNextSlot_self]
  have others (q : Nat) (member' : slot q) (other : q ≠ p) : s'.nextSlot q = s.nextSlot q := by
    rw [nextSlot_link (laid.aligned q member').2 fun r here => laid.apart (valid r here).1 member',
      nextSlot_setNextSlot_of_ne low (laid.aligned q member').2 other]
  have farther := (laid.behind free.1 free.2.1).2.1
  refine ⟨laid.unite member notTop free.2.1 (slots_link_head prev) first others ?_
    fun q size' lives' => ?_, ?_, ?_⟩
  · rw [frees_link]
    refine (laid.free.remove valid read).congr (fun q => ?_) ?_ fun q member'' => ?_
    · rw [Free, Free]
      tauto
    · cases prev <;> rfl
    · have same : (s.setNextSlot p (s.nextSlot (s.nextSlot p))).nextFree q = s.nextFree q :=
        nextFree_setNextSlot low (laid.apart member''.1.1 member)
      by_cases at' : prev = some q
      · subst at'
        rw [Links.remove_next_cursor]
        exact update_self _ _ _
      · rw [Links.remove_next_of_ne at', Links.write_next_of_ne at']
        exact congrArg ptr same
  · obtain ⟨member'', notTop', enough⟩ := laid.fits q size' lives'
    have other : q ≠ s.nextSlot p := fun same => by
      rw [same, free.2.2] at lives'
      cases lives'
    refine ⟨⟨member'', other⟩, notTop', ?_⟩
    by_cases same : q = p
    · subst same
      rw [first]
      omega
    · rwa [others q member'' same]
  · exact (laid.keepsNextSlot member).trans (laid.keepsLink valid)
  · rw [first]
    omega

theorem carve (fits : p + size + 4 ≤ new) (above : p + 8 ≤ new) (below : new + 8 ≤ s.nextSlot p)
    (aligned : new % 4 = 0) :
    let s' := (s.setNextSlot new (s.nextSlot p)).setNextSlot p new
    Laid s' top (update live new (some 0)) (fun q => slot q ∨ q = new) ∧
      Untouched live s s' ∧ live new = none := by
  intro s'
  obtain ⟨member, notTop, -⟩ := laid.fits p size lives
  have low := (laid.aligned p member).2
  have apart {q : Nat} (member' : slot q) : q + 4 ≠ new ∧ new + 4 ≠ q ∧ q ≠ new := by
    rcases laid.gap member notTop above below member' with near | near <;> omega
  have fresh : live new = none := by
    cases lives' : live new with
    | none => rfl
    | some size' => exact absurd rfl (apart (laid.fits new size' lives').1).2.2
  have first : s'.nextSlot p = new := nextSlot_setNextSlot_self
  have second : s'.nextSlot new = s.nextSlot p := by
    rw [nextSlot_setNextSlot_of_ne low (by omega) (by omega), nextSlot_setNextSlot_self]
  have others (q : Nat) (member' : slot q) (other : q ≠ p) : s'.nextSlot q = s.nextSlot q := by
    rw [nextSlot_setNextSlot_of_ne low (laid.aligned q member').2 other,
      nextSlot_setNextSlot_of_ne (by omega) (laid.aligned q member').2 (apart member').2.2]
  have newNotTop : new ≠ top := fun same => (apart laid.slot_top).2.2 same.symm
  have laid' : Laid s' top (update live new (some 0)) fun q => slot q ∨ q = new := by
    refine laid.divide member notTop above below aligned rfl first second others ?_
      fun q size' lives' => ?_
    · refine laid.free.congr (fun q => ?_) rfl fun q free => ?_
      · rw [Free, Free]
        by_cases same : q = new
        · subst same
          simp only [or_true, update_self, reduceCtorEq, and_false, iff_false, not_and]
          exact fun member' => absurd rfl (apart member').2.2
        · simp [same]
      · exact congrArg ptr ((nextFree_setNextSlot low (laid.apart free.1 member)).trans
          (nextFree_setNextSlot (by omega) (apart free.1).1))
    · by_cases same : q = new
      · subst same
        rw [update_self] at lives'
        obtain rfl := Option.some.inj lives'
        exact ⟨.inr rfl, newNotTop, by rw [second]; omega⟩
      · rw [update_of_ne same] at lives'
        obtain ⟨member', notTop', enough⟩ := laid.fits q size' lives'
        refine ⟨.inl member', notTop', ?_⟩
        by_cases isFirst : q = p
        · subst isFirst
          obtain rfl := Option.some.inj (lives.symm.trans lives')
          rwa [first]
        · rwa [others q member' isFirst]
  refine ⟨laid', ?_, fresh⟩
  refine Untouched.mono ((laid'.keepsNextSlot (.inr rfl)).trans
    (laid'.keepsNextSlot (.inl member))) fun q size' lives' => ?_
  rwa [update_of_ne fun same => by rw [same, fresh] at lives'; cases lives']

theorem resize {size' : Nat} (enough : p + size' + 4 ≤ s.nextSlot p) :
    Laid s top (update live p (some size')) slot := by
  obtain ⟨member, notTop, -⟩ := laid.fits p size lives
  refine laid.congr rfl (fun _ _ => rfl) (laid.free.congr (fun q => ?_) rfl fun _ _ => rfl)
    fun q size'' lives' => ?_
  · rw [Free, Free]
    by_cases same : q = p
    · simp [same, lives]
    · simp [same]
  · by_cases same : q = p
    · subst same
      rw [update_self] at lives'
      obtain rfl := Option.some.inj lives'
      exact ⟨member, notTop, enough⟩
    · rw [update_of_ne same] at lives'
      exact laid.fits q size'' lives'

theorem scribble {mem : Nat → Nat} (inside : ∀ q, mem q ≠ s.mem q → p ≤ q ∧ q + 4 < s.nextSlot p) :
    Laid { s with mem } top live slot ∧
      Untouched (update live p none) s { s with mem } := by
  obtain ⟨member, notTop, -⟩ := laid.fits p size lives
  have least := (laid.behind member notTop).2.2.2
  have same (q : Nat) (outside : q < p ∨ s.nextSlot p ≤ q + 4) : mem q = s.mem q := by
    by_contra other
    have := inside q other
    omega
  have nextSlot (q : Nat) (member' : slot q) : s.mem (q - ptrSize) = mem (q - ptrSize) := by
    have low := (laid.aligned q member').2
    refine (same _ ?_).symm
    simp only [ptrSize]
    rcases Nat.lt_or_ge p q with after | before
    · have := least q member' after
      omega
    · omega
  have nextFree (q : Nat) (free : Free top live slot q) : mem q = s.mem q := by
    refine same _ ?_
    rcases Nat.lt_trichotomy p q with after | here | before
    · have := least q free.1 after
      omega
    · rw [here, free.2.2] at lives
      cases lives
    · exact .inl before
  refine ⟨laid.congr rfl (fun q member' => (nextSlot q member').symm) ?_ laid.fits, ?_⟩
  · exact laid.free.congr (fun _ => Iff.rfl) rfl fun q free => congrArg ptr (nextFree q free)
  · intro q size' lives' offset within
    have other : q ≠ p := fun equal => by simp [equal] at lives'
    rw [update_of_ne other] at lives'
    refine same _ ?_
    rcases laid.away lives' within member with far | equal | ⟨-, -, behind⟩
    · exact .inl (by omega)
    · exact absurd equal.symm other
    · exact .inr (by omega)

end

end Laid

end Minix.Malloc
