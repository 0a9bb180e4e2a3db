/-
This file develops memory as a list of bytes: pieces of it that are overwritten or moved, the words
that are stored in it with the low byte first, and tables of such words.

The fields of a line are its longest pieces without separators. How a line splits depends on where
its last field is, so that the fields can be found from the end backwards.
-/

import Minix.Library.Overwrite
import Mathlib.Data.List.Induction

namespace Bytes

open Overwrite

variable {memory front old body junk data back : List UInt8} {words more : List UInt32}
  {word base : UInt32}

/-! ### Pieces -/

/-- Put bytes in the place of others. -/
def store (memory : List UInt8) (position : Nat) (data : List UInt8) : List UInt8 :=
  overwrite 0 memory position data

/-- `memmove` -/
def memmove (memory : List UInt8) (target source count : Nat) : List UInt8 :=
  store memory target ((memory.drop source).take count)

theorem store_middle (same : data.length = old.length) :
    store (front ++ (old ++ back)) front.length data = front ++ (data ++ back) := by
  by_cases none : data = []
  · subst none
    obtain rfl := List.eq_nil_of_length_eq_zero same.symm
    rfl
  · rw [store, overwrite_of_ne none]
    simp [same]

theorem memmove_middle {size : Nat} (fits : size + body.length ≤ (old ++ (body ++ junk)).length) :
    memmove (front ++ (old ++ (body ++ junk))) (front.length + size) (front.length + old.length)
        body.length =
      front ++ ((old ++ (body ++ junk)).take size ++
        (body ++ (old ++ (body ++ junk)).drop (size + body.length))) := by
  have moved : ((front ++ (old ++ (body ++ junk))).drop (front.length + old.length)).take
      body.length = body := by
    rw [← List.append_assoc, ← List.length_append, List.drop_left, List.take_left]
  have split : front ++ (old ++ (body ++ junk)) =
      (front ++ (old ++ (body ++ junk)).take size) ++
        (((old ++ (body ++ junk)).drop size).take body.length ++
          (old ++ (body ++ junk)).drop (size + body.length)) := by
    rw [← List.drop_drop, List.take_append_drop, List.append_assoc, List.take_append_drop]
  have position : (front ++ (old ++ (body ++ junk)).take size).length = front.length + size := by
    rw [List.length_append, List.length_take]
    omega
  rw [memmove, moved, split, ← position, store_middle, List.append_assoc]
  rw [List.length_take, List.length_drop]
  omega

theorem exists_inserted {gap : Nat} (fits : gap + data.length ≤ junk.length) :
    ∃ hole rest, hole.length = gap ∧ gap + data.length + rest.length = junk.length ∧
      store (memmove (front ++ (body ++ junk)) (front.length + (gap + data.length)) front.length
        body.length) (front.length + gap) data = front ++ (hole ++ (data ++ (body ++ rest))) := by
  have moves : gap + data.length + body.length ≤ (body ++ junk).length := by
    rw [List.length_append]
    omega
  have moved := @memmove_middle front [] body junk (gap + data.length) moves
  simp only [List.nil_append, List.length_nil, Nat.add_zero] at moved
  refine ⟨(body ++ junk).take gap, (body ++ junk).drop
    (gap + data.length + body.length), ?_, ?_, ?_⟩
  · rw [List.length_take]
    omega
  · rw [List.length_drop, List.length_append]
    omega
  · have position : (front ++ (body ++ junk).take gap).length = front.length + gap := by
      rw [List.length_append, List.length_take]
      omega
    rw [moved, List.take_add, List.append_assoc, ← List.append_assoc, ← position, store_middle,
      List.append_assoc]
    rw [List.length_take, List.length_drop]
    omega

theorem memmove_hole {first middle hole : List UInt8} (same : hole.length = first.length) :
    memmove (front ++ (first ++ (middle ++ (hole ++ back)))) (front.length + first.length)
        front.length (first ++ middle).length =
      front ++ (first ++ (first ++ (middle ++ back))) := by
  have moves : first.length + (first ++ middle).length ≤
      ((first ++ middle) ++ (hole ++ back)).length := by
    simp only [List.length_append]
    omega
  have moved := @memmove_middle front [] (first ++ middle) (hole ++ back) first.length moves
  simp only [List.nil_append, List.length_nil, Nat.add_zero] at moved
  have hidden : ((first ++ middle) ++ (hole ++ back)).drop
    (first.length + (first ++ middle).length) =
      back := by
    rw [Nat.add_comm, ← List.drop_drop, List.drop_left, ← same, List.drop_left]
  rw [← List.append_assoc first middle, moved, hidden, List.append_assoc, List.take_left,
    List.append_assoc]

/-! ### Words -/

/-- The bytes of a word, the low one first. -/
def ofWord (word : UInt32) : List UInt8 :=
  [.ofNat word.toNat, .ofNat (word.toNat / 256), .ofNat (word.toNat / 65536),
    .ofNat (word.toNat / 16777216)]

/-- The word with the given bytes, the low one first. -/
def toWord (first second third fourth : UInt8) : UInt32 :=
  .ofNat (first.toNat + 256 * second.toNat + 65536 * third.toNat + 16777216 * fourth.toNat)

@[simp] theorem length_ofWord : (ofWord word).length = 4 := rfl

theorem toWord_ofWord :
    toWord (.ofNat word.toNat) (.ofNat (word.toNat / 256)) (.ofNat (word.toNat / 65536))
      (.ofNat (word.toNat / 16777216)) = word := by
  have below := word.toNat_lt
  rw [toWord]
  apply UInt32.toNat_inj.mp
  simp only [UInt32.toNat_ofNat', UInt8.toNat_ofNat']
  omega

/-- The word that is stored at a position. -/
def loadWord (memory : List UInt8) (position : Nat) : UInt32 :=
  toWord (memory.getD position 0) (memory.getD (position + 1) 0) (memory.getD (position + 2) 0)
    (memory.getD (position + 3) 0)

theorem loadWord_middle : loadWord (front ++ (ofWord word ++ back)) front.length = word := by
  rw [loadWord]
  have byte (i : Nat) : (front ++ (ofWord word ++ back)).getD (front.length + i) 0 =
      (ofWord word ++ back).getD i 0 := by
    rw [List.getD_eq_getElem?_getD, List.getElem?_append_right (Nat.le_add_right _ _),
      Nat.add_sub_cancel_left, List.getD_eq_getElem?_getD]
  have byte' := byte 0
  rw [Nat.add_zero] at byte'
  rw [byte', byte 1, byte 2, byte 3]
  exact toWord_ofWord

theorem loadWord_zero : loadWord (ofWord word ++ back) 0 = word := @loadWord_middle [] back word

/-! ### Tables of words -/

/-- The bytes of a table of words. -/
def ofWords (words : List UInt32) : List UInt8 := words.flatMap ofWord

@[simp] theorem ofWords_nil : ofWords [] = [] := rfl

@[simp] theorem ofWords_cons : ofWords (word :: words) = ofWord word ++ ofWords words := rfl

@[simp] theorem ofWords_append : ofWords (words ++ more) = ofWords words ++ ofWords more :=
  List.flatMap_append

@[simp] theorem length_ofWords : (ofWords words).length = 4 * words.length := by
  induction words with
  | nil => rfl
  | cons word words inductionHypothesis =>
    rw [ofWords_cons, List.length_append, inductionHypothesis, length_ofWord, List.length_cons]
    omega

/-- Add the base to the words up to the given number of zero words. -/
def relocate (base : UInt32) : Nat → List UInt8 → List UInt8
  | zeros + 1, first :: second :: third :: fourth :: rest =>
    if toWord first second third fourth = 0 then
      first :: second :: third :: fourth :: relocate base zeros rest
    else ofWord (toWord first second third fourth + base) ++ relocate base (zeros + 1) rest
  | _, memory => memory

@[simp] theorem relocate_done : relocate base 0 memory = memory := by
  simp [relocate]

theorem relocate_word {zeros : Nat} : relocate base (zeros + 1) (ofWord word ++ back) =
    if word = 0 then ofWord word ++ relocate base zeros back
    else ofWord (word + base) ++ relocate base (zeros + 1) back := by
  rw [ofWord, List.cons_append, List.cons_append, List.cons_append, List.cons_append,
    List.nil_append, relocate, toWord_ofWord]
  rfl

theorem relocate_words {zeros : Nat} (some : ∀ word ∈ words, word ≠ 0) :
    relocate base (zeros + 1) (ofWords words ++ (ofWord 0 ++ back)) =
      ofWords (words.map (· + base)) ++ (ofWord 0 ++ relocate base zeros back) := by
  induction words with
  | nil => rw [ofWords_nil, List.nil_append, relocate_word, if_pos rfl]; rfl
  | cons word words inductionHypothesis =>
    rw [ofWords_cons, List.append_assoc, relocate_word,
      if_neg (some word List.mem_cons_self),
      inductionHypothesis fun other member => some other (List.mem_cons_of_mem _ member),
      List.map_cons, ofWords_cons, List.append_assoc]

end Bytes

namespace Fields

variable {Item : Type*} {separator : Item → Bool} {line field front back : List Item} {item : Item}

/-- The fields of a line, in order. -/
def fields (separator : Item → Bool) (line : List Item) : List (List Item) :=
  (line.splitOnP separator).filter (!·.isEmpty)

@[simp] theorem fields_nil : fields separator [] = [] := by
  simp [fields]

theorem fields_append_cons (separates : separator item = true) :
    fields separator (front ++ item :: back) =
      fields separator front ++ fields separator back := by
  rw [fields, List.splitOnP_append_cons _ _ separates, List.filter_append]
  rfl

theorem fields_concat (separates : separator item = true) :
    fields separator (front ++ [item]) = fields separator front := by
  rw [fields_append_cons separates, fields_nil, List.append_nil]

theorem fields_append_separators (separators : ∀ item ∈ back, separator item = true) :
    fields separator (front ++ back) = fields separator front := by
  induction back using List.reverseRecOn with
  | nil => rw [List.append_nil]
  | append_singleton back last inductionHypothesis =>
    rw [← List.append_assoc, fields_concat (separators last (by simp)),
      inductionHypothesis fun item member => separators item (List.mem_append_left _ member)]

theorem fields_of_field (some : field ≠ []) (inside : ∀ item ∈ field, separator item = false) :
    fields separator field = [field] := by
  rw [fields, List.splitOnP_eq_singleton inside]
  simpa using some

theorem fields_last (some : field ≠ []) (inside : ∀ item ∈ field, separator item = false)
    (begins : ∀ item ∈ front.getLast?, separator item = true)
    (separators : ∀ item ∈ back, separator item = true) :
    fields separator (front ++ (field ++ back)) = fields separator front ++ [field] := by
  rw [← List.append_assoc, fields_append_separators separators]
  rcases List.eq_nil_or_concat front with rfl | ⟨before, last, rfl⟩
  · rw [List.nil_append, fields_of_field some inside, fields_nil, List.nil_append]
  · have separates : separator last = true := begins last (by simp)
    rw [List.concat_eq_append, List.append_assoc, List.singleton_append,
      fields_append_cons separates, fields_of_field some inside, fields_concat separates]

end Fields
