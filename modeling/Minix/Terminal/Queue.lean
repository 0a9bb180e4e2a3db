/-
This file develops the input queue of a terminal (`tty_inbuf` of `kernel/tty.h`): what is done with
it, and what it holds.

The queue is a ring buffer. Its head and its tail are the same place both when it is empty and when
it is full, so that only the count tells these apart. A character in the queue has flags; those with
`IN_EOT` are line breaks, which are counted as well.
-/

import Minix.Library.Ring

namespace Minix.Terminal

open Function (update update_of_ne update_self)
open Ring

/-! ### The code -/

/-- `TTY_IN_BYTES` -/
def ttyInBytes : Nat := 256

/-- `IN_CHAR` -/
def inChar : BitVec 16 := 0x00FF

/-- `IN_LEN` -/
def inLen : BitVec 16 := 0x0F00

/-- `IN_EOT` -/
def inEot : BitVec 16 := 0x1000

/-- `IN_EOF` -/
def inEof : BitVec 16 := 0x2000

/-- `IN_ESC` -/
def inEsc : BitVec 16 := 0x4000

/-- A character with a flag. -/
def has (flags : BitVec 16) (ch : BitVec 16) : Bool := ch &&& flags ≠ 0

/-- The input queue. Beside the code, it is recorded when a character has been stored although the
queue was full. -/
structure Queue where
  inbuf : Nat → BitVec 16
  inhead : Nat
  intail : Nat
  incount : Int
  eotct : Int
  overrun : Bool := false

/-- Save a character. -/
def Queue.store (q : Queue) (ch : BitVec 16) : Queue where
  inbuf := update q.inbuf q.inhead ch
  inhead := next ttyInBytes q.inhead
  intail := q.intail
  incount := q.incount + 1
  eotct := if has inEot ch then q.eotct + 1 else q.eotct
  overrun := q.overrun || ttyInBytes ≤ q.incount

/-- Remove the oldest character. -/
def Queue.remove (q : Queue) : Queue :=
  let ch := q.inbuf q.intail
  { q with
    intail := next ttyInBytes q.intail
    incount := q.incount - 1
    eotct := if has inEot ch then q.eotct - 1 else q.eotct }

/-- The place before a place. -/
def before (place : Nat) : Nat := (if place = 0 then ttyInBytes else place) - 1

/-- Erase the newest character. -/
def Queue.erase (q : Queue) : Queue :=
  { q with
    inhead := before q.inhead
    incount := q.incount - 1 }

/-- Discard all characters. -/
def Queue.discard (q : Queue) : Queue :=
  { q with
    incount := 0
    eotct := 0
    intail := q.inhead }

/-- Write a character where another one is. -/
def Queue.rewrite (q : Queue) (place : Nat) (ch : BitVec 16) : Queue :=
  { q with inbuf := update q.inbuf place ch }

/-- Put a line break on some characters. -/
def markBreaks : Nat → (inp : Nat) → (Nat → BitVec 16) → Nat → BitVec 16
  | 0, _, inbuf => inbuf
  | count + 1, inp, inbuf =>
    markBreaks count (next ttyInBytes inp) (update inbuf inp (inbuf inp ||| inEot))

/-- Put a line break on all characters. -/
def Queue.markAll (q : Queue) : Queue :=
  { q with
    eotct := q.incount
    inbuf := markBreaks q.incount.toNat q.intail q.inbuf }

/-! ### The characters -/

/-- The characters in the queue, the oldest first. -/
def Queue.entries (q : Queue) : List (BitVec 16) :=
  contents ttyInBytes q.inbuf q.intail q.incount.toNat

/-- The counts and the places of a queue agree, and no character has been overrun. -/
structure Queue.Right (q : Queue) : Prop where
  head : q.inhead < ttyInBytes
  tail : q.intail < ttyInBytes
  nonneg : 0 ≤ q.incount
  room : q.incount ≤ ttyInBytes
  place : q.inhead = (q.intail + q.incount.toNat) % ttyInBytes
  breaks : q.eotct = q.entries.countP (has inEot)
  kept : q.overrun = false

section Right

variable {q : Queue} {inbuf : Nat → BitVec 16}

theorem Queue.length_entries (q : Queue) : q.entries.length = q.incount.toNat := length_contents

theorem Queue.Right.eotct_le (right : q.Right) : 0 ≤ q.eotct ∧ q.eotct ≤ q.incount := by
  have most := List.countP_le_length (p := has inEot) (l := q.entries)
  rw [q.length_entries] at most
  have nonneg := right.nonneg
  rw [right.breaks]
  omega

theorem Queue.Right.store (right : q.Right) (room : q.incount < ttyInBytes) (ch : BitVec 16) :
    (q.store ch).Right ∧ (q.store ch).entries = q.entries ++ [ch] := by
  have nonneg := right.nonneg
  have count : (q.incount + 1).toNat = q.incount.toNat + 1 := by omega
  have old : contents ttyInBytes (update q.inbuf q.inhead ch) q.intail q.incount.toNat =
      q.entries := by
    refine (Ahead.update right.head ch).contents_eq ?_ (by omega)
    rw [← right.place, Nat.mod_eq_of_lt right.head]
  have entries : (q.store ch).entries = q.entries ++ [ch] := by
    unfold Queue.entries Queue.store
    dsimp only
    rw [count, contents_add, old, contents_succ, ← right.place, update_self]
    rfl
  refine ⟨⟨next_lt right.head, right.tail, ?_, ?_, ?_, ?_, ?_⟩, entries⟩
  · exact Int.add_nonneg nonneg Int.one_nonneg
  · exact room
  · unfold Queue.store
    rw [count, next_eq right.head, right.place, Nat.mod_add_mod, Nat.add_assoc]
  · rw [entries, List.countP_append, List.countP_singleton]
    unfold Queue.store
    dsimp only
    rw [right.breaks]
    split <;> omega
  · unfold Queue.store
    rw [right.kept, Bool.false_or, decide_eq_false (not_le.mpr room)]

theorem Queue.Right.remove (right : q.Right) (some : 0 < q.incount) :
    q.remove.Right ∧ q.entries = q.inbuf q.intail :: q.remove.entries := by
  have count : q.incount.toNat = (q.incount - 1).toNat + 1 := by omega
  have entries : q.entries = q.inbuf q.intail :: q.remove.entries := by
    unfold Queue.entries
    rw [count, contents_pop right.tail]
    rfl
  refine ⟨⟨right.head, next_lt right.tail, ?_, ?_, ?_, ?_, right.kept⟩, entries⟩
  · exact Int.le_sub_one_of_lt some
  · have room := right.room
    exact (Int.sub_le_self _ Int.one_nonneg).trans room
  · change q.inhead = (next ttyInBytes q.intail + (q.incount - 1).toNat) % ttyInBytes
    rw [next_eq right.tail, Nat.mod_add_mod, right.place, count]
    exact congrArg (· % ttyInBytes) (by omega)
  · have breaks := right.breaks
    rw [entries, List.countP_cons] at breaks
    unfold Queue.remove at breaks ⊢
    dsimp only at breaks ⊢
    split_ifs at breaks ⊢ <;> omega

theorem before_eq {place : Nat} (inside : place < ttyInBytes) :
    before place = (place + (ttyInBytes - 1)) % ttyInBytes := by
  unfold before ttyInBytes at *
  split_ifs <;> omega

theorem Queue.Right.before_inhead (right : q.Right) (some : 0 < q.incount) :
    before q.inhead = (q.intail + (q.incount - 1).toNat) % ttyInBytes := by
  have count : q.incount.toNat = (q.incount - 1).toNat + 1 := by omega
  rw [before_eq right.head, right.place, Nat.mod_add_mod, count,
    show q.intail + ((q.incount - 1).toNat + 1) + (ttyInBytes - 1) =
      q.intail + (q.incount - 1).toNat + ttyInBytes by unfold ttyInBytes; omega,
    Nat.add_mod_right]

theorem Queue.Right.entries_last (right : q.Right) (some : 0 < q.incount) :
    q.entries = q.erase.entries ++ [q.inbuf (before q.inhead)] := by
  have count : q.incount.toNat = (q.incount - 1).toNat + 1 := by omega
  unfold Queue.entries
  rw [count, contents_add, contents_succ, right.before_inhead some]
  rfl

theorem Queue.Right.erase (right : q.Right) (some : 0 < q.incount)
    (plain : ¬has inEot (q.inbuf (before q.inhead))) :
    q.erase.Right ∧ q.entries = q.erase.entries ++ [q.inbuf (before q.inhead)] := by
  have last := right.before_inhead some
  have entries := right.entries_last some
  refine ⟨⟨?_, right.tail, ?_, ?_, last, ?_, right.kept⟩, entries⟩
  · unfold Queue.erase
    rw [last]
    exact Nat.mod_lt _ (Nat.zero_lt_of_lt right.head)
  · exact Int.le_sub_one_of_lt some
  · have room := right.room
    exact (Int.sub_le_self _ Int.one_nonneg).trans room
  · have breaks := right.breaks
    rw [entries, List.countP_append, List.countP_singleton, if_neg plain, Nat.add_zero] at breaks
    exact breaks

theorem Queue.Right.discard (right : q.Right) : q.discard.Right ∧ q.discard.entries = [] := by
  refine ⟨⟨right.head, right.head, Int.le_refl 0, ?_, ?_, rfl, right.kept⟩, rfl⟩
  · exact Int.natCast_nonneg ttyInBytes
  · exact (Nat.mod_eq_of_lt right.head).symm

/-- A character, whatever its length is on the screen. -/
def clean (ch : BitVec 16) : BitVec 16 := ch &&& ~~~inLen

theorem has_clean (ch : BitVec 16) : has inEot (clean ch) = has inEot ch := by
  unfold has clean
  rw [BitVec.and_assoc, show ~~~inLen &&& inEot = inEot by decide]

/-- Two queues with the same counts and places, and with the same characters. -/
structure Queue.Alike (q q' : Queue) : Prop where
  head : q'.inhead = q.inhead
  tail : q'.intail = q.intail
  count : q'.incount = q.incount
  eotct : q'.eotct = q.eotct
  overrun : q'.overrun = q.overrun
  cell : ∀ i, clean (q'.inbuf i) = clean (q.inbuf i)

theorem Queue.Alike.refl (q : Queue) : q.Alike q := ⟨rfl, rfl, rfl, rfl, rfl, fun _ => rfl⟩

theorem Queue.Alike.trans {q' q'' : Queue} (first : q.Alike q') (second : q'.Alike q'') :
    q.Alike q'' where
  head := second.head.trans first.head
  tail := second.tail.trans first.tail
  count := second.count.trans first.count
  eotct := second.eotct.trans first.eotct
  overrun := second.overrun.trans first.overrun
  cell i := (second.cell i).trans (first.cell i)

theorem Queue.Alike.eot {q' : Queue} (alike : q.Alike q') (i : Nat) :
    has inEot (q'.inbuf i) = has inEot (q.inbuf i) := by
  rw [← has_clean, alike.cell, has_clean]

/-- The line breaks are counted without a look at the rest of the characters. -/
theorem Queue.Alike.right {q' : Queue} (alike : q.Alike q') (right : q.Right) : q'.Right := by
  have eot := alike.eot
  obtain ⟨head, tail, count, eotct, overrun, -⟩ := alike
  refine ⟨?_, ?_, ?_, ?_, ?_, ?_, overrun.trans right.kept⟩
  · exact head ▸ right.head
  · exact tail ▸ right.tail
  · exact count ▸ right.nonneg
  · exact count ▸ right.room
  · rw [head, tail, count, right.place]
  · rw [eotct, right.breaks]
    unfold Queue.entries contents
    rw [tail, count, List.countP_map, List.countP_map]
    refine congrArg _ (List.countP_congr fun offset _ => ?_)
    rw [Function.comp_apply, Function.comp_apply, eot]

theorem Queue.alike_rewrite {place : Nat} {ch : BitVec 16}
    (same : clean ch = clean (q.inbuf place)) : q.Alike (q.rewrite place ch) := by
  refine ⟨rfl, rfl, rfl, rfl, rfl, fun i => ?_⟩
  unfold Queue.rewrite
  dsimp only
  rcases eq_or_ne i place with rfl | apart
  · rw [update_self, same]
  · rw [update_of_ne apart]

theorem has_or (flags ch : BitVec 16) (some : flags ≠ 0) : has flags (ch ||| flags) := by
  have absorbed : (ch ||| flags) &&& flags = flags := by
    ext i
    rw [BitVec.getElem_and, BitVec.getElem_or]
    cases ch[i] <;> cases flags[i] <;> rfl
  unfold has
  rw [absorbed]
  exact decide_eq_true some

theorem has_markBreaks {count inp i : Nat} (already : has inEot (inbuf i)) :
    has inEot (markBreaks count inp inbuf i) := by
  induction count generalizing inp inbuf with
  | zero => exact already
  | succ count inductionHypothesis =>
    unfold markBreaks
    refine inductionHypothesis ?_
    rcases eq_or_ne i inp with rfl | apart
    · rw [update_self]
      exact has_or inEot _ (by decide)
    · rw [update_of_ne apart]
      exact already

theorem has_markBreaks_of_lt {count inp offset : Nat} (inside : inp < ttyInBytes)
    (less : offset < count) :
    has inEot (markBreaks count inp inbuf ((inp + offset) % ttyInBytes)) := by
  induction count generalizing inp offset inbuf with
  | zero => exact absurd less (Nat.not_lt_zero offset)
  | succ count inductionHypothesis =>
    unfold markBreaks
    cases offset with
    | zero =>
      rw [Nat.add_zero, Nat.mod_eq_of_lt inside]
      refine has_markBreaks ?_
      rw [update_self]
      exact has_or inEot _ (by decide)
    | succ offset =>
      rw [show inp + (offset + 1) = inp + 1 + offset by omega, ← Nat.mod_add_mod, ← next_eq inside]
      exact inductionHypothesis (next_lt inside) (Nat.lt_of_succ_lt_succ less)

theorem Queue.Right.markAll (right : q.Right) : q.markAll.Right := by
  refine ⟨right.head, right.tail, right.nonneg, right.room, right.place, ?_, right.kept⟩
  have all : q.markAll.entries.countP (has inEot) = q.markAll.entries.length := by
    refine List.countP_eq_length.mpr fun ch member => ?_
    obtain ⟨offset, less, rfl⟩ := List.mem_map.mp member
    exact has_markBreaks_of_lt right.tail (List.mem_range.mp less)
  rw [all, Queue.length_entries]
  exact (Int.toNat_of_nonneg right.nonneg).symm

end Right

end Minix.Terminal
