/-
This file models how MM changes the arguments of a program in the image of its initial stack
(`mm/exec.c`): `patch_ptr` and `insert_arg`.

An image is the table of pointers followed by the strings. `insert_arg` makes room for the new first
string before all others, and adds to the pointers what the strings behind it have moved by.
-/

import Minix.Mm.Exec
import Minix.Library.Bytes
import Mathlib.Data.List.TakeWhile

namespace Minix.Mm

open Bytes

/-! ### Strings -/

/-- `PTRSIZE` -/
def ptrSize : Nat := 4

/-- A string that ends in a zero byte, which is not one of its own. -/
structure CString where
  bytes : List UInt8
  noZero : 0 ∉ bytes
deriving DecidableEq

/-- The string that begins at the given bytes. -/
def CString.ofBytes (bytes : List UInt8) : CString where
  bytes := bytes.takeWhile (· != 0)
  noZero member := by simpa using List.mem_takeWhile_imp member

/-- `strlen` -/
def CString.strlen (string : CString) : Nat := string.bytes.length

/-- The bytes that `strcpy` copies. -/
def CString.stored (string : CString) : List UInt8 := string.bytes ++ [0]

@[simp] theorem CString.length_stored (string : CString) :
    string.stored.length = string.strlen + 1 := by
  simp [stored, strlen]

theorem CString.ofBytes_append {bytes rest : List UInt8} :
    CString.ofBytes (bytes ++ 0 :: rest) = CString.ofBytes bytes := by
  simp only [ofBytes, mk.injEq]
  induction bytes with
  | nil => rfl
  | cons byte bytes inductionHypothesis =>
    rw [List.cons_append, List.takeWhile_cons, List.takeWhile_cons, inductionHypothesis]

/-! ### The operations -/

/-- `patch_ptr`: the words between the count and the end of the environment. -/
def patchPtr (stack : List UInt8) (base : UInt32) : List UInt8 :=
  stack.take ptrSize ++ relocate base 2 (stack.drop ptrSize)

/-- The loop of `insert_arg` that moves `a1` behind the string of `argv[0]`. The bytes are those
from `a1` to the end of the image. -/
def pastString : List UInt8 → Nat → Int → Option (Nat × Int)
  | [], _, _ => none
  | byte :: bytes, a1, offset =>
    if byte = 0 then some (a1 + 1, offset - 1) else pastString bytes (a1 + 1) (offset - 1)

/-- `insert_arg`: the result, the image and its size. An offset from `2 ^ 31` on is negative in the
source, and refused as well. -/
def insertArg (stack : List UInt8) (stkBytes : Nat) (arg : CString) (replace : Bool) :
    Bool × List UInt8 × Nat :=
  let offset : Int := arg.strlen + 1
  let a0 := (loadWord stack ptrSize).toNat
  if a0 < 4 * ptrSize ∨ stkBytes ≤ a0 then (false, stack, stkBytes)
  else
    let moved :=
      if replace then pastString ((stack.take stkBytes).drop a0) a0 offset
      else some (a0, offset + ptrSize)
    match moved with
    | none => (false, stack, stkBytes)
    | some (a1, offset) =>
      let grown := (stkBytes + offset).toNat
      if argMax < grown then (false, stack, grown)
      else
        let stack := memmove stack (a1 + offset).toNat a1 (stkBytes - a1)
        let start := if replace then a0 else a0 + ptrSize
        let stack := store stack start arg.stored
        let stack :=
          if replace then stack
          else
            let stack := memmove stack (2 * ptrSize) (1 * ptrSize) (start - 2 * ptrSize)
            store stack 0 (ofWord (loadWord stack 0 + 1))
        let stack := patchPtr stack (.ofInt offset)
        (true, store stack ptrSize (ofWord (.ofNat start)), grown)

/-! ### Images -/

/-- The bytes of a string are in the image, from an offset behind the table on. -/
structure Holds (stack : List UInt8) (tableEnd size : Nat) (pointer : UInt32) (string : CString) :
    Prop where
  behind : tableEnd ≤ pointer.toNat
  inside : pointer.toNat + string.stored.length ≤ size
  stored : string.stored <+: stack.drop pointer.toNat

/-- The table of an image. -/
def pointerTable (argc : Nat) (args envs : List UInt32) : List UInt32 :=
  .ofNat argc :: args ++ 0 :: (envs ++ [0])

/-- An image with the given pointers: the table, and the strings behind it, with the string of the
first argument before the others. -/
structure Layout (argv envp : List CString) (args envs : List UInt32) (stack : List UInt8)
    (size : Nat) : Prop where
  length : stack.length = argMax
  fits : size ≤ argMax
  table : ofWords (pointerTable argv.length args envs) <+: stack
  argStrings : List.Forall₂ (Holds stack (4 * (args.length + envs.length + 3)) size) args argv
  envStrings : List.Forall₂ (Holds stack (4 * (args.length + envs.length + 3)) size) envs envp
  first : ∀ (pointer : UInt32) (string : CString), pointer ∈ args.head? → string ∈ argv.head? →
    ∀ other ∈ args.tail ++ envs, pointer.toNat + string.stored.length ≤ other.toNat

/-- A well-formed image of the initial stack. -/
def WellFormed (argv envp : List CString) (stack : List UInt8) (size : Nat) : Prop :=
  ∃ args envs, Layout argv envp args envs stack size

/-! ### Strings that move -/

/-- A string lies in a piece of memory that begins at the origin. -/
structure Within (strings : List UInt8) (origin : Nat) (pointer : UInt32) (string : CString) :
    Prop where
  after : origin ≤ pointer.toNat
  inside : pointer.toNat + string.stored.length ≤ origin + strings.length
  stored : string.stored <+: strings.drop (pointer.toNat - origin)

section Within

variable {front strings body junk before : List UInt8} {tableEnd origin origin' size : Nat}
  {pointer : UInt32} {string : CString} {offset : Int}

theorem drop_middle (after : front.length ≤ origin)
    (inside : origin ≤ front.length + strings.length) :
    (front ++ (strings ++ junk)).drop origin = strings.drop (origin - front.length) ++ junk := by
  rw [List.drop_append, List.drop_of_length_le after, List.nil_append,
    List.drop_append_of_le_length (by omega)]

theorem Holds.within (holds : Holds (front ++ (strings ++ junk)) tableEnd size pointer string)
    (whole : size = front.length + strings.length) (after : front.length ≤ pointer.toNat) :
    Within strings front.length pointer string := by
  have inside := holds.inside
  have stored := holds.stored
  rw [drop_middle after (by omega),
    List.isPrefix_append_of_length (by rw [List.length_drop]; omega)] at stored
  exact ⟨after, whole ▸ inside, stored⟩

theorem Within.holds (within : Within strings front.length pointer string)
    (whole : size = front.length + strings.length) (behind : tableEnd ≤ front.length) :
    Holds (front ++ (strings ++ junk)) tableEnd size pointer string := by
  have inside := within.inside
  refine ⟨behind.trans within.after, whole ▸ inside, ?_⟩
  rw [drop_middle within.after (by omega)]
  exact within.stored.trans (List.prefix_append _ _)

theorem toNat_add_ofInt (low : 0 ≤ (pointer.toNat : Int) + offset)
    (high : (pointer.toNat : Int) + offset < 4294967296) :
    ((pointer + .ofInt offset).toNat : Int) = pointer.toNat + offset := by
  rw [UInt32.toNat_add, UInt32.ofInt, UInt32.toNat_ofNat']
  omega

theorem Within.shift (within : Within strings origin pointer string)
    (moves : (origin' : Int) = origin + offset) (high : origin' + strings.length < 4294967296) :
    Within strings origin' (pointer + .ofInt offset) string := by
  obtain ⟨after, inside, stored⟩ := within
  have moved : ((pointer + .ofInt offset).toNat : Int) = pointer.toNat + offset :=
    toNat_add_ofInt (by omega) (by omega)
  refine ⟨by omega, by omega, ?_⟩
  rwa [show (pointer + UInt32.ofInt offset).toNat - origin' = pointer.toNat - origin by omega]

theorem Within.behind (within : Within (before ++ body) origin pointer string)
    (after : origin + before.length ≤ pointer.toNat) :
    Within body (origin + before.length) pointer string := by
  obtain ⟨-, inside, stored⟩ := within
  rw [List.length_append] at inside
  rw [List.drop_append, List.drop_of_length_le (by omega), List.nil_append, Nat.sub_sub] at stored
  exact ⟨after, by omega, stored⟩

theorem Within.append (within : Within body (origin + before.length) pointer string) :
    Within (before ++ body) origin pointer string := by
  obtain ⟨after, inside, stored⟩ := within
  refine ⟨by omega, by rw [List.length_append]; omega, ?_⟩
  rwa [List.drop_append, List.drop_of_length_le (by omega), List.nil_append, Nat.sub_sub]

theorem Within.first (starts : pointer.toNat = origin) :
    Within (string.stored ++ body) origin pointer string := by
  refine ⟨starts.ge, ?_, ?_⟩
  · rw [starts, List.length_append]
    omega
  · rw [starts, Nat.sub_self, List.drop_zero]
    exact List.prefix_append _ _

end Within

/-! ### Taking an image apart -/

theorem forall_left {Left Right : Type*} {related : Left → Right → Prop} {property : Left → Prop}
    {lefts : List Left} {rights : List Right} (pairs : List.Forall₂ related lefts rights)
    (holds : ∀ left right, related left right → property left) : ∀ left ∈ lefts, property left :=
  ((List.forall₂_and_left lefts rights).mp
    (pairs.imp fun left right both => ⟨holds left right both, both⟩)).1

section Layout

variable {argv envp : List CString} {args envs : List UInt32} {stack gap body junk : List UInt8}
  {size : Nat} {first : CString} {start : UInt32}

theorem length_pointerTable (argc : Nat) (args envs : List UInt32) :
    (ofWords (pointerTable argc args envs)).length =
    4 * (args.length + envs.length + 3) := by
  simp only [length_ofWords, pointerTable, List.length_cons, List.length_append, List.length_nil]
  omega

theorem Layout.split (layout : Layout (first :: argv) envp args envs stack size) :
    ∃ start rest gap strings junk, args = start :: rest ∧
      stack = (ofWords (pointerTable (argv.length + 1) args envs) ++ gap) ++ (strings ++ junk) ∧
      start.toNat = (ofWords (pointerTable (argv.length + 1) args envs) ++ gap).length ∧
      size = start.toNat + strings.length ∧
      first.stored <+: strings ∧
      List.Forall₂ (Within strings start.toNat) args (first :: argv) ∧
      List.Forall₂ (Within strings start.toNat) envs envp ∧
      ∀ other ∈ rest ++ envs, start.toNat + first.stored.length ≤ other.toNat := by
  obtain ⟨length, fits, ⟨tail, split⟩, argStrings, envStrings, before⟩ := layout
  cases argStrings with
  | @cons start _ rest _ held argStrings =>
    have behind := held.behind
    have inside := held.inside
    have tableLength := length_pointerTable (argv.length + 1) (start :: rest) envs
    rw [List.length_cons] at split
    let front := ofWords (pointerTable (argv.length + 1) (start :: rest) envs)
    let gap := tail.take (start.toNat - front.length)
    let strings := (tail.drop (start.toNat - front.length)).take (size - start.toNat)
    let junk := (tail.drop (start.toNat - front.length)).drop (size - start.toNat)
    have frontLength : front.length = 4 * ((start :: rest).length + envs.length + 3) := tableLength
    have whole : stack = (front ++ gap) ++ (strings ++ junk) := by
      rw [← split, List.append_assoc, List.take_append_drop, List.take_append_drop]
    have total : front.length + tail.length = argMax := by
      rw [← length, ← split]
      exact List.length_append.symm
    have starts : start.toNat = (front ++ gap).length := by
      rw [List.length_append, List.length_take]
      omega
    have stringsLength : strings.length = size - start.toNat := by
      rw [List.length_take, List.length_drop]
      omega
    have size_eq : size = (front ++ gap).length + strings.length := by
      rw [← starts, stringsLength]
      omega
    have after : ∀ other ∈ rest ++ envs, start.toNat + first.stored.length ≤ other.toNat :=
      before start first rfl rfl
    rw [whole] at held argStrings envStrings
    refine ⟨start, rest, gap, strings, junk, rfl, whole, starts, starts ▸
      size_eq, ?_, ?_, ?_, after⟩
    · have stored := (held.within size_eq starts.ge).stored
      rwa [← starts, Nat.sub_self, List.drop_zero] at stored
    · refine .cons (starts ▸ held.within size_eq starts.ge) ?_
      have above : ∀ other ∈ rest, start.toNat ≤ other.toNat := fun other member =>
        (Nat.le_add_right _ _).trans (after other (List.mem_append_left _ member))
      exact ((List.forall₂_and_left rest argv).mpr ⟨above, argStrings⟩).imp
        fun other string both => starts ▸ both.2.within size_eq (starts ▸ both.1)
    · have above : ∀ other ∈ envs, start.toNat ≤ other.toNat := fun other member =>
        (Nat.le_add_right _ _).trans (after other (List.mem_append_right _ member))
      exact ((List.forall₂_and_left envs envp).mpr ⟨above, envStrings⟩).imp
        fun other string both => starts ▸ both.2.within size_eq (starts ▸ both.1)

/-- The image that is made of a table, a first string and the strings behind it. -/
theorem Layout.of_parts
    (length : ((ofWords (pointerTable (argv.length + 1) (start :: args) envs) ++ gap) ++
      ((first.stored ++ body) ++ junk)).length = argMax)
    (starts : start.toNat = (ofWords (pointerTable (argv.length + 1) (start :: args)
      envs) ++ gap).length)
    (whole : size = start.toNat + (first.stored ++ body).length)
    (argStrings : List.Forall₂ (Within body (start.toNat + first.stored.length)) args argv)
    (envStrings : List.Forall₂ (Within body (start.toNat + first.stored.length)) envs envp) :
    Layout (first :: argv) envp (start :: args) envs
      ((ofWords (pointerTable (argv.length + 1) (start :: args) envs) ++ gap) ++
        ((first.stored ++ body) ++ junk)) size := by
  have tableLength := length_pointerTable (argv.length + 1) (start :: args) envs
  have behind : 4 * ((start :: args).length + envs.length + 3) ≤
      (ofWords (pointerTable (argv.length + 1) (start :: args) envs) ++ gap).length := by
    rw [List.length_append, tableLength]
    exact Nat.le_add_right _ _
  have held (other : UInt32) (string : CString)
      (within : Within body (start.toNat + first.stored.length) other string) :
      Holds ((ofWords (pointerTable (argv.length + 1) (start :: args) envs) ++ gap) ++
        ((first.stored ++ body) ++ junk)) (4 * ((start :: args).length + envs.length + 3)) size
          other string :=
    (starts ▸ within.append).holds (starts ▸ whole) behind
  refine ⟨length, ?_, ?_, .cons ?_ (argStrings.imp held), envStrings.imp held, ?_⟩
  · rw [← length, whole, starts]
    simp only [List.length_append]
    omega
  · rw [List.append_assoc]
    exact List.prefix_append _ _
  · have within : Within (first.stored ++ body) start.toNat start first := .first rfl
    exact (starts ▸ within).holds (starts ▸ whole) behind
  · intro pointer string head head' other member
    obtain rfl := Option.some.inj head
    obtain rfl := Option.some.inj head'
    rcases List.mem_append.mp member with member | member
    · exact (forall_left argStrings fun other string within => within.after) other member
    · exact (forall_left envStrings fun other string within => within.after) other member

end Layout

/-! ### Inserting an argument -/

section Insert

variable {argv envp : List CString} {args envs : List UInt32} {stack strings junk rest : List UInt8}
  {size origin : Nat} {offset : Int} {first arg : CString}

theorem pastString_stored (string : CString) (a1 : Nat) :
    pastString (string.stored ++ rest) a1 offset =
      some (a1 + string.stored.length, offset - string.stored.length) := by
  obtain ⟨bytes, noZero⟩ := string
  simp only [CString.stored]
  induction bytes generalizing a1 offset with
  | nil => simp [pastString]
  | cons byte bytes inductionHypothesis =>
    rw [List.mem_cons, not_or] at noZero
    rw [List.cons_append, List.cons_append, pastString, if_neg (Ne.symm noZero.1),
      inductionHypothesis _ noZero.2, Option.some.injEq, Prod.mk.injEq]
    simp only [List.length_append, List.length_cons, List.length_nil]
    omega

theorem patchPtr_table (argc : Nat) (base : UInt32) (someArgs : ∀ pointer ∈ args, pointer ≠ 0)
    (someEnvs : ∀ pointer ∈ envs, pointer ≠ 0) :
    patchPtr (ofWords (pointerTable argc args envs) ++ rest) base =
      ofWords (pointerTable argc (args.map (· + base)) (envs.map (· + base))) ++ rest := by
  have tail (args envs : List UInt32) : ofWords (pointerTable argc args envs) ++ rest =
      ofWord (.ofNat argc) ++ (ofWords args ++
        (ofWord 0 ++ (ofWords envs ++ (ofWord 0 ++ rest)))) := by
    simp [pointerTable]
  rw [tail, tail, patchPtr, show ptrSize = (ofWord (.ofNat argc)).length from rfl, List.take_left,
    List.drop_left, relocate_words someArgs, relocate_words someEnvs, relocate_done]

theorem loadWord_pointerTable {argc : Nat} {start : UInt32} :
    loadWord (ofWords (pointerTable argc (start :: args) envs) ++ rest) ptrSize = start :=
  @loadWord_middle (ofWord (.ofNat argc)) (ofWords (args ++ 0 :: (envs ++ [0])) ++ rest) start

theorem store_pointerTable {argc : Nat} {start start' : UInt32} :
    store (ofWords (pointerTable argc (start :: args) envs) ++ rest) ptrSize (ofWord start') =
      ofWords (pointerTable argc (start' :: args) envs) ++ rest := by
  have tail (start : UInt32) : ofWords (pointerTable argc (start :: args) envs) ++ rest =
      ofWord (.ofNat argc) ++ (ofWord start ++ (ofWords (args ++ 0 :: (envs ++ [0])) ++ rest)) := by
    simp [pointerTable]
  rw [tail, tail]
  exact store_middle rfl

theorem insertArg_replace_bytes (arg : CString) {front body : List UInt8} {start : UInt32}
    (loaded : loadWord (front ++ (first.stored ++ (body ++ junk))) ptrSize = start)
    (starts : start.toNat = front.length) (placed : 4 * ptrSize ≤ front.length)
    (whole : size = front.length + (first.stored ++ body).length) :
    (argMax < size + arg.strlen - first.strlen →
      insertArg (front ++ (first.stored ++ (body ++ junk))) size arg true =
        (false, front ++ (first.stored ++ (body ++ junk)), size + arg.strlen - first.strlen)) ∧
    (size + arg.strlen - first.strlen ≤ (front ++ (first.stored ++ (body ++ junk))).length →
      size + arg.strlen - first.strlen ≤ argMax → ∃ rest,
        insertArg (front ++ (first.stored ++ (body ++ junk))) size arg true =
          (true, store (patchPtr (front ++ (arg.stored ++ (body ++ rest)))
            (.ofInt ((arg.strlen : Int) - first.strlen))) ptrSize (ofWord start),
              size + arg.strlen - first.strlen) ∧
        (front ++ (arg.stored ++ (body ++ rest))).length =
          (front ++ (first.stored ++ (body ++ junk))).length) := by
  have storedLength := first.length_stored
  have argLength := arg.length_stored
  rw [List.length_append] at whole
  have inside : ¬(start.toNat < 4 * ptrSize ∨ size ≤ start.toNat) := by omega
  have image : ((front ++ (first.stored ++ (body ++ junk))).take size).drop start.toNat =
      first.stored ++ body := by
    have split : front ++ (first.stored ++ (body ++ junk)) = (front ++
      (first.stored ++ body)) ++ junk := by
      simp only [List.append_assoc]
    rw [split, List.take_left' (by simp only [List.length_append]; omega), starts, List.drop_left]
  have grown : ((size : Int) + ((arg.strlen : Int) + 1 - (first.stored.length : Nat))).toNat =
      size + arg.strlen - first.strlen := by omega
  have unfolded : insertArg (front ++ (first.stored ++ (body ++ junk))) size arg true =
      if argMax < size + arg.strlen - first.strlen then
        (false, front ++ (first.stored ++ (body ++ junk)), size + arg.strlen - first.strlen)
      else
        (true, store (patchPtr (store (memmove (front ++ (first.stored ++ (body ++ junk)))
          (start.toNat + first.stored.length +
            ((arg.strlen : Int) + 1 - (first.stored.length : Nat))).toNat
          (start.toNat + first.stored.length) (size - (start.toNat + first.stored.length)))
            start.toNat arg.stored) (.ofInt ((arg.strlen : Int) + 1 - (first.stored.length : Nat))))
              ptrSize (ofWord (.ofNat start.toNat)), size + arg.strlen - first.strlen) := by
    rw [insertArg]
    simp only [loaded, if_neg inside, if_true, image, pastString_stored, grown]
    rfl
  rw [unfolded]
  refine ⟨fun large => if_pos large, fun room small => ?_⟩
  have target : ((start.toNat : Int) + (first.stored.length : Nat) +
      ((arg.strlen : Int) + 1 - (first.stored.length : Nat))).toNat =
        front.length + arg.stored.length := by omega
  have source : start.toNat + first.stored.length = front.length + first.stored.length := by omega
  have count : size - (front.length + first.stored.length) = body.length := by omega
  have offset : (arg.strlen : Int) + 1 - (first.stored.length : Nat) =
      (arg.strlen : Int) - first.strlen := by omega
  have fits : arg.stored.length + body.length ≤ (first.stored ++ (body ++ junk)).length := by
    rw [List.length_append] at room
    omega
  refine ⟨(first.stored ++ (body ++ junk)).drop (arg.stored.length + body.length), ?_, ?_⟩
  · rw [if_neg (not_lt.mpr small), target, source, count, memmove_middle fits, starts,
      store_middle (by rw [List.length_take]; omega), offset, ← starts, UInt32.ofNat_toNat]
  · simp only [List.length_append, List.length_drop] at fits ⊢
    omega

/-- What inserting an argument does to the bytes: the strings make room for the new one and for a
new word at the front of the table. -/
theorem insertArg_insert_bytes (arg : CString) (junk : List UInt8) {front middle : List UInt8}
    {count start : UInt32}
    (split : front = ofWord count ++ (ofWord start ++ middle))
    (starts : start.toNat = front.length) (placed : 4 * ptrSize ≤ front.length)
    (whole : size = front.length + strings.length) (some : strings ≠ []) :
    (argMax < size + arg.strlen + 5 →
      insertArg (front ++ (strings ++ junk)) size arg false =
        (false, front ++ (strings ++ junk), size + arg.strlen + 5)) ∧
    (size + arg.strlen + 5 ≤ (front ++ (strings ++ junk)).length →
      size + arg.strlen + 5 ≤ argMax → ∃ rest,
        insertArg (front ++ (strings ++ junk)) size arg false =
          (true, store (patchPtr (ofWord (count + 1) ++ (ofWord start ++ (ofWord start ++ (middle ++
            (arg.stored ++ (strings ++ rest)))))) (.ofInt ((arg.strlen : Int) + 5))) ptrSize
              (ofWord (.ofNat (front.length + ptrSize))), size + arg.strlen + 5) ∧
        (front ++ (ofWord start ++ (arg.stored ++ (strings ++ rest)))).length =
          (front ++ (strings ++ junk)).length) := by
  have argLength := arg.length_stored
  have someLength := List.length_pos_iff.mpr some
  have loaded : loadWord (front ++ (strings ++ junk)) ptrSize = start := by
    rw [split, List.append_assoc, List.append_assoc]
    exact loadWord_middle
  have inside : ¬(start.toNat < 4 * ptrSize ∨ size ≤ start.toNat) := by omega
  have grown : ((size : Int) + ((arg.strlen : Int) + 1 + (ptrSize : Nat))).toNat =
      size + arg.strlen + 5 := by
    rw [ptrSize]
    omega
  have unfolded : insertArg (front ++ (strings ++ junk)) size arg false =
      if argMax < size + arg.strlen + 5 then
        (false, front ++ (strings ++ junk), size + arg.strlen + 5)
      else
        let moved := memmove (store (memmove (front ++ (strings ++ junk))
          ((start.toNat : Int) + ((arg.strlen : Int) + 1 + (ptrSize : Nat))).toNat start.toNat
            (size - start.toNat)) (start.toNat + ptrSize) arg.stored) (2 * ptrSize) (1 * ptrSize)
              (start.toNat + ptrSize - 2 * ptrSize)
        (true, store (patchPtr (store moved 0 (ofWord (loadWord moved 0 + 1)))
          (.ofInt ((arg.strlen : Int) + 1 + (ptrSize : Nat)))) ptrSize
            (ofWord (.ofNat (start.toNat + ptrSize))), size + arg.strlen + 5) := by
    rw [insertArg]
    simp only [loaded, if_neg inside, Bool.false_eq_true, if_false, grown]
  rw [unfolded]
  refine ⟨fun large => if_pos large, fun room small => ?_⟩
  have target : ((start.toNat : Int) + ((arg.strlen : Int) + 1 + (ptrSize : Nat))).toNat =
      front.length + (ptrSize + arg.stored.length) := by omega
  have number : size - front.length = strings.length := by omega
  have fits : ptrSize + arg.stored.length ≤ junk.length := by
    simp only [List.length_append, ptrSize] at room ⊢
    omega
  obtain ⟨hole, rest, holeLength, total, inserted⟩ := @exists_inserted front strings junk arg.stored
    ptrSize fits
  have upTo : front.length + ptrSize - 2 * ptrSize = (ofWord start ++ middle).length := by
    rw [split, List.length_append, length_ofWord, ptrSize]
    omega
  have tableMoved : memmove (front ++ (hole ++ (arg.stored ++ (strings ++ rest)))) (2 * ptrSize)
      (1 * ptrSize) (ofWord start ++ middle).length =
        ofWord count ++ (ofWord start ++ (ofWord start ++ (middle ++
          (arg.stored ++ (strings ++ rest))))) := by
    rw [split, List.append_assoc, List.append_assoc]
    exact memmove_hole holeLength
  refine ⟨rest, ?_, ?_⟩
  · rw [if_neg (not_lt.mpr small), target, starts, number, inserted, upTo, tableMoved]
    have counted (counted : UInt32) (back : List UInt8) :
        store (ofWord count ++ back) 0 (ofWord counted) = ofWord counted ++ back :=
      @store_middle [] (ofWord count) (ofWord counted) back rfl
    have offset : (arg.strlen : Int) + 1 + (ptrSize : Nat) = (arg.strlen : Int) + 5 := by
      rw [ptrSize]
      omega
    simp only [loadWord_zero, counted, offset]
  · simp only [List.length_append, length_ofWord, ptrSize] at total ⊢
    omega

theorem ne_zero_of_within {start pointer : UInt32} {string : CString}
    (placed : 4 * ptrSize ≤ start.toNat) (within : Within strings start.toNat pointer string) :
    pointer ≠ 0 := by
  rintro rfl
  have after := within.after
  simp only [ptrSize, UInt32.toNat_zero] at placed after
  omega

theorem patched_table {gap back : List UInt8} {argc : Nat} {start start' base : UInt32}
    (someArgs : ∀ pointer ∈ start :: args, pointer ≠ 0) (someEnvs : ∀ pointer ∈ envs, pointer ≠ 0) :
    store (patchPtr (ofWords (pointerTable argc (start :: args) envs) ++ gap ++ back) base) ptrSize
        (ofWord start') =
      ofWords (pointerTable argc (start' :: args.map (· + base)) (envs.map (· + base))) ++ gap ++
        back := by
  rw [List.append_assoc, patchPtr_table argc base someArgs someEnvs, List.map_cons,
    store_pointerTable, List.append_assoc]

theorem Within.shift_all {origin' : Nat} {pointers : List UInt32} {texts : List CString}
    (within : List.Forall₂ (Within strings origin) pointers texts)
    (moves : (origin' : Int) = origin + offset) (high : origin' + strings.length < 4294967296) :
    List.Forall₂ (Within strings origin') (pointers.map (· + .ofInt offset)) texts :=
  List.forall₂_map_left_iff.mpr (within.imp fun _ _ within => within.shift moves high)

/-- Putting the script's name for `argv[0]` keeps the stack well formed. -/
theorem insertArg_replace (arg : CString) (image : WellFormed (first :: argv) envp stack size) :
    (argMax < size + arg.strlen - first.strlen ∧
      insertArg stack size arg true = (false, stack, size + arg.strlen - first.strlen)) ∨
    (size + arg.strlen - first.strlen ≤ argMax ∧ ∃ stack',
      insertArg stack size arg true = (true, stack', size + arg.strlen - first.strlen) ∧
        WellFormed (arg :: argv) envp stack' (size + arg.strlen - first.strlen)) := by
  obtain ⟨args, envs, layout⟩ := image
  have length := layout.length
  obtain ⟨start, args, gap, strings, junk, rfl, rfl, starts, whole, ⟨body, rfl⟩, argStrings,
    envStrings, after⟩ := layout.split
  have tableLength := length_pointerTable (argv.length + 1) (start :: args) envs
  have placed : 4 * ptrSize ≤
      (ofWords (pointerTable (argv.length + 1) (start :: args) envs) ++ gap).length := by
    rw [List.length_append, tableLength, ptrSize, List.length_cons]
    omega
  have storedLength := first.length_stored
  have argLength := arg.length_stored
  rw [List.append_assoc first.stored] at length ⊢
  have loaded : loadWord (ofWords (pointerTable (argv.length + 1) (start :: args) envs) ++ gap ++
      (first.stored ++ (body ++ junk))) ptrSize = start := by
    rw [List.append_assoc]
    exact loadWord_pointerTable
  obtain ⟨refused, accepted⟩ := insertArg_replace_bytes arg loaded starts placed (starts ▸ whole)
  rcases lt_or_ge argMax (size + arg.strlen - first.strlen) with large | small
  · exact .inl ⟨large, refused large⟩
  obtain ⟨rest, result, same⟩ := accepted (length ▸ small) small
  refine .inr ⟨small, _, result, ?_⟩
  rw [← starts] at placed
  have someArgs := forall_left argStrings fun _ _ within => ne_zero_of_within placed within
  have someEnvs := forall_left envStrings fun _ _ within => ne_zero_of_within placed within
  rw [List.length_append] at whole
  rw [patched_table someArgs someEnvs, ← List.append_assoc arg.stored]
  have moves : ((start.toNat + arg.stored.length : Nat) : Int) =
      (start.toNat + first.stored.length : Nat) + ((arg.strlen : Int) - first.strlen) := by omega
  have high : start.toNat + arg.stored.length + body.length < 4294967296 := by
    rw [argMax] at small
    omega
  have behind {pointers : List UInt32} {texts : List CString}
      (within : List.Forall₂ (Within (first.stored ++ body) start.toNat) pointers texts)
      (after : ∀ other ∈ pointers, start.toNat + first.stored.length ≤ other.toNat) :
      List.Forall₂ (Within body (start.toNat + first.stored.length)) pointers texts :=
    ((List.forall₂_and_left pointers texts).mpr ⟨after, within⟩).imp
      fun _ _ both => both.2.behind both.1
  have argsMoved := Within.shift_all (behind (List.forall₂_cons.mp argStrings).2 fun other member =>
    after other (List.mem_append_left _ member)) moves high
  have envsMoved := Within.shift_all (behind envStrings fun other member =>
    after other (List.mem_append_right _ member)) moves high
  refine ⟨_, _, Layout.of_parts ?_ ?_ ?_ argsMoved envsMoved⟩
  · rw [← length, ← same]
    simp only [List.length_append, length_pointerTable, List.length_cons, List.length_map]
    omega
  · rw [starts]
    simp only [List.length_append, length_pointerTable, List.length_cons, List.length_map]
  · rw [List.length_append]
    omega

/-- An argument is inserted before the others, unless the image gets too large. -/
theorem insertArg_insert (arg : CString) (image : WellFormed (first :: argv) envp stack size) :
    (argMax < size + arg.strlen + 5 ∧
      insertArg stack size arg false = (false, stack, size + arg.strlen + 5)) ∨
    (size + arg.strlen + 5 ≤ argMax ∧ ∃ stack',
      insertArg stack size arg false = (true, stack', size + arg.strlen + 5) ∧
        WellFormed (arg :: first :: argv) envp stack' (size + arg.strlen + 5)) := by
  obtain ⟨args, envs, layout⟩ := image
  have length := layout.length
  obtain ⟨start, args, gap, strings, junk, rfl, rfl, starts, whole, stored, argStrings,
    envStrings, -⟩ :=
    layout.split
  have tableLength := length_pointerTable (argv.length + 1) (start :: args) envs
  have placed : 4 * ptrSize ≤
      (ofWords (pointerTable (argv.length + 1) (start :: args) envs) ++ gap).length := by
    rw [List.length_append, tableLength, ptrSize, List.length_cons]
    omega
  have argLength := arg.length_stored
  have some : strings ≠ [] := by
    rintro rfl
    have none := List.prefix_nil.mp stored
    simp [CString.stored] at none
  have split : ofWords (pointerTable (argv.length + 1) (start :: args) envs) ++ gap =
      ofWord (.ofNat (argv.length + 1)) ++
        (ofWord start ++ (ofWords (args ++ 0 :: (envs ++ [0])) ++ gap)) := by
    simp [pointerTable]
  obtain ⟨refused, accepted⟩ := insertArg_insert_bytes arg junk split starts placed
    (starts ▸ whole) some
  rcases lt_or_ge argMax (size + arg.strlen + 5) with large | small
  · exact .inl ⟨large, refused large⟩
  obtain ⟨rest, result, same⟩ := accepted (length ▸ small) small
  refine .inr ⟨small, _, result, ?_⟩
  rw [← starts] at placed
  have someArgs := forall_left argStrings fun _ _ within => ne_zero_of_within placed within
  have someEnvs := forall_left envStrings fun _ _ within => ne_zero_of_within placed within
  have counted : ofWord (.ofNat (argv.length + 1) + 1) ++ (ofWord start ++ (ofWord start ++
      (ofWords (args ++ 0 :: (envs ++ [0])) ++ gap ++ (arg.stored ++ (strings ++ rest))))) =
        ofWords (pointerTable (argv.length + 1 + 1) (start :: start :: args) envs) ++ gap ++
          ((arg.stored ++ strings) ++ rest) := by
    simp [pointerTable]
  rw [counted, patched_table (List.forall_mem_cons.mpr
    ⟨someArgs start List.mem_cons_self, someArgs⟩)
    someEnvs]
  have low : start.toNat + ptrSize < 4294967296 := by
    rw [argMax] at small
    rw [ptrSize]
    omega
  have first_eq : (UInt32.ofNat (start.toNat + ptrSize)).toNat = start.toNat + ptrSize := by
    rw [UInt32.toNat_ofNat']
    omega
  rw [← starts]
  have moves : (((UInt32.ofNat (start.toNat + ptrSize)).toNat + arg.stored.length : Nat) : Int) =
      (start.toNat : Nat) + ((arg.strlen : Int) + 5) := by
    rw [first_eq, argLength, ptrSize]
    omega
  have high : (UInt32.ofNat (start.toNat + ptrSize)).toNat + arg.stored.length + strings.length <
      4294967296 := by
    rw [argMax] at small
    omega
  refine ⟨_, _, Layout.of_parts ?_ ?_ ?_ (Within.shift_all argStrings moves high)
    (Within.shift_all envStrings moves high)⟩
  · rw [← length, ← same]
    simp only [List.length_append, length_pointerTable, List.length_cons, List.length_map,
      length_ofWord]
    omega
  · rw [first_eq, starts]
    simp only [List.length_append, length_pointerTable, List.length_cons, List.length_map, ptrSize]
    omega
  · rw [List.length_append]
    omega

end Insert

end Minix.Mm
