/-
This file proves that `_doprnt` prints integers as the C standard says, wherever they stand in a
format, except in two cases.

With `#` an octal number gets a zero, also when its first digit is one already. With `#` and `0`
a hexadecimal zero is filled as if it had a prefix.
-/

import Mathlib.Data.Nat.Digits.Lemmas
import Minix.Library.Numerals
import Minix.Stdio.Doprnt

namespace Minix.Stdio.Doprnt

/-! ### What is to be printed -/

inductive Flag
  | minus
  | plus
  | blank
  | alternate
  | zero
  deriving DecidableEq

def Flag.char : Flag → Char
  | .minus => '-'
  | .plus => '+'
  | .blank => ' '
  | .alternate => '#'
  | .zero => '0'

/-- A width or a precision: digits in the format, or an argument. -/
inductive Amount
  | inFormat (digits : List (Fin 10))
  | star (arg : BitVec 32)

namespace Amount

def format : Amount → List Char
  | .inFormat digits => digits.map fun digit => digit.val.digitChar
  | .star _ => ['*']

def args : Amount → List (BitVec 32)
  | .inFormat _ => []
  | .star arg => [arg]

def value : Amount → Int
  | .inFormat digits => Numerals.value 10 (digits.map Fin.val)
  | .star arg => arg.toInt

end Amount

inductive Modifier
  | none
  | short
  | long

def Modifier.format : Modifier → List Char
  | .none => []
  | .short => ['h']
  | .long => ['l']

def Modifier.isShort : Modifier → Bool
  | .short => true
  | _ => false

inductive Kind
  | d | i | u | o | x | X
  deriving DecidableEq

namespace Kind

def char : Kind → Char
  | .d => 'd'
  | .i => 'i'
  | .u => 'u'
  | .o => 'o'
  | .x => 'x'
  | .X => 'X'

def base : Kind → Nat
  | .o => 8
  | .x | .X => 16
  | _ => 10

def signed : Kind → Bool
  | .d | .i => true
  | _ => false

def hexadecimal : Kind → Bool
  | .x | .X => true
  | _ => false

/-- The case of the letters. -/
def case (kind : Kind) (c : Char) : Char := if kind = .X then c.toUpper else c

end Kind

/-- A text in a field, with blanks on one side. -/
def justify (left : Bool) (width : Nat) (s : List Char) : List Char :=
  if left then s ++ List.replicate (width - s.length) ' '
  else List.replicate (width - s.length) ' ' ++ s

/-- The conversion of an integer, with its argument. A zero in front of the width is a flag. -/
structure Conversion where
  flags : List Flag
  width : Amount
  precision : Option Amount
  modifier : Modifier
  kind : Kind
  arg : BitVec 32
  leading : ∀ digits, width ≠ .inFormat (0 :: digits)

namespace Conversion

variable (v : Conversion)

/-- What stands behind the `%`. -/
def format : List Char :=
  v.flags.map Flag.char ++ (v.width.format ++
    ((v.precision.elim [] fun amount => '.' :: amount.format) ++
      (v.modifier.format ++ [v.kind.char])))

def args : List (BitVec 32) := v.width.args ++ (v.precision.elim [] Amount.args ++ [v.arg])

/-- A negative width is a flag `-` and the width. -/
def left : Bool := .minus ∈ v.flags ∨ v.width.value < 0

def fieldWidth : Nat := v.width.value.natAbs

/-- A negative precision is taken as if it were missing. -/
def precisionGiven : Option Nat :=
  v.precision.bind fun amount => if 0 ≤ amount.value then some amount.value.toNat else none

/-- The least number of digits. -/
def least : Nat := v.precisionGiven.getD 1

def value : Int :=
  match v.modifier, v.kind.signed with
  | .short, true => (v.arg.setWidth 16).toInt
  | .short, false => (v.arg.setWidth 16).toNat
  | _, true => v.arg.toInt
  | _, false => v.arg.toNat

/-- The digits of the value, without leading zeros: zero has none. -/
def numeral : List Char :=
  (Nat.digits v.kind.base v.value.natAbs).reverse.map fun digit => v.kind.case digit.digitChar

def digits : List Char := List.replicate (v.least - v.numeral.length) '0' ++ v.numeral

/-- With `#` an octal number begins with a zero. -/
def number : List Char :=
  if v.kind = .o ∧ .alternate ∈ v.flags ∧ v.digits.head? ≠ some '0' then '0' :: v.digits
  else v.digits

/-- The sign, or the prefix of a hexadecimal number. -/
def lead : List Char :=
  if v.kind.signed then
    if v.value < 0 then ['-']
    else if .plus ∈ v.flags then ['+']
    else if .blank ∈ v.flags then [' ']
    else []
  else if v.kind.hexadecimal ∧ v.value ≠ 0 ∧ .alternate ∈ v.flags then ['0', v.kind.case 'x']
  else []

/-- Zeros fill the field. -/
def zeroFilled : Bool := .zero ∈ v.flags ∧ v.left = false ∧ v.precisionGiven = none

/-- The text that the standard prescribes. -/
def text : List Char :=
  if v.zeroFilled then
    v.lead ++ (List.replicate (v.fieldWidth - (v.lead ++ v.number).length) '0' ++ v.number)
  else justify v.left v.fieldWidth (v.lead ++ v.number)

/-- The flags as they are read. -/
def specFlags : Flags where
  ljust := v.left
  sign := .plus ∈ v.flags
  space := .blank ∈ v.flags ∧ .plus ∉ v.flags
  alt := .alternate ∈ v.flags
  zerofill := .zero ∈ v.flags ∧ v.left = false
  short := v.modifier.isShort

/-- What `o_print` stores. -/
def stored : List Char :=
  v.lead ++ ((if v.kind = .o ∧ .alternate ∈ v.flags then ['0'] else []) ++ v.digits)

/-- When a conversion is done right: the number fits into the buffer, an octal number with `#` does
not begin with a zero of its own, and a hexadecimal zero with `#` is not filled with zeros. -/
structure Fine : Prop where
  fits : v.stored.length ≤ bufSize
  octal : v.kind = .o → .alternate ∈ v.flags → v.numeral.length < v.least →
    v.zeroFilled = true ∧ 2 ≤ v.fieldWidth
  hexadecimal : v.kind.hexadecimal = true → .alternate ∈ v.flags → v.zeroFilled = true →
    v.value = 0 → v.fieldWidth < 2

end Conversion

/-- A piece of a format. -/
inductive Piece
  | plain (c : { c : Char // c ≠ '%' })
  | conversion (v : Conversion)

namespace Piece

def format : Piece → List Char
  | .plain c => [c]
  | .conversion v => '%' :: v.format

def args : Piece → List (BitVec 32)
  | .plain _ => []
  | .conversion v => v.args

def text : Piece → List Char
  | .plain c => [c]
  | .conversion v => v.text

end Piece

/-- The call for a format emits the text, and returns how many characters that are. -/
def Printed (buf : Nat → Char) (pieces : List Piece) : Prop :=
  doprnt buf (pieces.flatMap Piece.format) (pieces.flatMap Piece.args) =
    some (pieces.flatMap Piece.text, ((pieces.flatMap Piece.text).length : Int))

/-! ### Reading a conversion -/

theorem int32_of_small {x : Int} (least : -2 ^ 31 ≤ x) (small : x < 2 ^ 31) : int32 x = x := by
  refine Int.bmod_eq_of_le ?_ ?_ <;> omega

/-- What stands behind a number or the flags. -/
def Stops (rest : List Char) : Prop :=
  ∀ c ∈ rest.head?, ¬('0' ≤ c ∧ c ≤ '9') ∧ c ∉ ['*', '-', '+', ' ', '#', '0']

section Read

variable {rest : List Char} {more : List (BitVec 32)}

theorem setFlag_eq_none {c : Char} {flags : Flags} (other : c ∉ ['-', '+', ' ', '#', '0']) :
    setFlag c flags = none := by
  simp only [List.mem_cons, List.not_mem_nil, or_false, not_or] at other
  unfold setFlag
  split <;> first | rfl | (exfalso; tauto)

theorem collectFlags_eq (collected : List Flag) (flags : Flags)
    (stops : ∀ c ∈ rest.head?, c ∉ ['-', '+', ' ', '#', '0']) :
    collectFlags (collected.map Flag.char ++ rest) flags =
      ({ flags with
        ljust := flags.ljust || decide (.minus ∈ collected)
        sign := flags.sign || decide (.plus ∈ collected)
        space := flags.space || decide (.blank ∈ collected)
        alt := flags.alt || decide (.alternate ∈ collected)
        zerofill := flags.zerofill || decide (.zero ∈ collected) }, rest) := by
  induction collected generalizing flags with
  | nil =>
    cases rest with
    | nil => simp [collectFlags]
    | cons c rest => simp [collectFlags, setFlag_eq_none (stops c rfl)]
  | cons flag collected inductionHypothesis =>
    cases flag <;> simp [collectFlags, Flag.char, setFlag, inductionHypothesis]

theorem digitChar_decimal (digit : Fin 10) :
    ('0' ≤ digit.val.digitChar ∧ digit.val.digitChar ≤ '9') ∧
      digit.val.digitChar.toNat - '0'.toNat = digit.val ∧ digit.val.digitChar ≠ '*' := by
  revert digit
  decide

theorem gnumLoop_eq (digits : List (Fin 10)) (i : Nat) (stops : Stops rest)
    (small : (digits.map Fin.val).foldl (fun number digit => number * 10 + digit) i < 2 ^ 31) :
    gnumLoop (digits.map (fun digit => digit.val.digitChar) ++ rest) i =
      ((((digits.map Fin.val).foldl (fun number digit => number * 10 + digit) i : Nat) : Int),
        rest) := by
  induction digits generalizing i with
  | nil =>
    cases rest with
    | nil => rfl
    | cons c rest => exact if_neg (stops c rfl).1
  | cons digit digits inductionHypothesis =>
    obtain ⟨decimal, value, -⟩ := digitChar_decimal digit
    have grows (more : List Nat) (n : Nat) :
        n ≤ more.foldl (fun number digit => number * 10 + digit) n := by
      induction more generalizing n with
      | nil => exact Nat.le_refl n
      | cons d more inductionHypothesis =>
        exact Nat.le_trans (by omega) (inductionHypothesis (n * 10 + d))
    have next : int32 ((i : Int) * 10 + (digit.val : Nat)) = ((i * 10 + digit.val : Nat) : Int) := by
      have bound := Nat.lt_of_le_of_lt (grows (digits.map Fin.val) (i * 10 + digit.val)) small
      rw [int32_of_small] <;> omega
    rw [List.map_cons, List.cons_append, gnumLoop, if_pos decimal, value, next]
    exact inductionHypothesis _ small

theorem gnum_eq (amount : Amount) (stops : Stops rest) (small : amount.value < 2 ^ 31) :
    gnum (amount.format ++ rest) (amount.args ++ more) = some (amount.value, rest, more) := by
  cases amount with
  | star arg => rfl
  | inFormat digits =>
    have read := gnumLoop_eq digits 0 stops (Int.ofNat_lt.mp small)
    unfold gnum
    split
    case h_1 f star =>
      cases digits with
      | nil => exact absurd (by simp) (stops '*' (by rw [show rest = '*' :: f from star]; rfl)).2
      | cons digit digits => exact absurd (List.cons.inj star).1 (digitChar_decimal digit).2.2
    case h_2 => exact congrArg (fun read : Int × List Char => some (read.1, read.2, more)) read

end Read

theorem stops_kind (modifier : Modifier) (kind : Kind) (fmt : List Char) :
    Stops (modifier.format ++ ([kind.char] ++ fmt)) := by
  intro c first
  cases modifier <;> cases kind <;> cases first <;> decide

namespace Conversion

variable (v : Conversion) (fmt : List Char) (more : List (BitVec 32))

theorem gprecision_eq (small : v.least < 2 ^ 31) :
    gprecision ((v.precision.elim [] fun amount => '.' :: amount.format) ++
        (v.modifier.format ++ ([v.kind.char] ++ fmt))) (v.precision.elim [] Amount.args ++ more) =
      some (v.precisionGiven, v.modifier.format ++ ([v.kind.char] ++ fmt), more) := by
  unfold least precisionGiven at small
  unfold precisionGiven
  cases given : v.precision with
  | none =>
    unfold gprecision
    split
    case h_1 rest point =>
      cases m : v.modifier <;> cases k : v.kind <;> rw [m, k] at point <;>
        exact absurd (List.cons.inj point).1 (by decide)
    case h_2 => rfl
  | some amount =>
    have fits : amount.value < 2 ^ 31 := by
      rw [given, Option.bind_some] at small
      split at small
      · rw [Option.getD_some] at small
        omega
      · omega
    exact congrArg (Option.map _) (gnum_eq amount (stops_kind v.modifier v.kind fmt) fits)

theorem readSpec_eq (width : v.fieldWidth < 2 ^ 31) (small : v.least < 2 ^ 31) :
    readSpec (v.format ++ fmt) (v.args ++ more) =
      some (⟨v.specFlags, v.fieldWidth, v.precisionGiven, v.kind.char⟩, fmt, v.arg :: more) := by
  have stops : Stops ((v.precision.elim [] fun amount => '.' :: amount.format) ++
      (v.modifier.format ++ ([v.kind.char] ++ fmt))) := by
    cases v.precision with
    | none => exact stops_kind v.modifier v.kind fmt
    | some amount =>
      intro c first
      cases first
      decide
  have flagsStop : ∀ c ∈ (v.width.format ++
      ((v.precision.elim [] fun amount => '.' :: amount.format) ++
        (v.modifier.format ++ ([v.kind.char] ++ fmt)))).head?, c ∉ ['-', '+', ' ', '#', '0'] := by
    intro c first
    have leading := v.leading
    cases given : v.width with
    | star arg =>
      rw [given] at first
      cases first
      decide
    | inFormat digits =>
      rw [given] at first leading
      cases digits with
      | nil => exact fun flag => (stops c first).2 (List.mem_cons_of_mem _ flag)
      | cons digit digits =>
        have nonzero : digit ≠ 0 := fun zero => leading digits (by rw [zero])
        obtain rfl : digit.val.digitChar = c := Option.some.inj first
        clear first given leading
        revert digit
        decide
  have modified (flags : Flags) : modify flags (v.modifier.format ++ ([v.kind.char] ++ fmt)) =
      ({ flags with short := flags.short || v.modifier.isShort }, v.kind.char :: fmt) := by
    cases v.modifier <;> cases v.kind <;> simp [modify, Modifier.format, Modifier.isShort, Kind.char]
  have number : (if v.width.value < 0 then int32 (-v.width.value) else v.width.value) =
      v.fieldWidth := by
    unfold fieldWidth at width ⊢
    split
    case isTrue => rw [int32_of_small] <;> omega
    case isFalse => omega
  unfold readSpec format args
  simp only [List.append_assoc, collectFlags_eq v.flags _ flagsStop]
  rw [gnum_eq v.width stops (by unfold fieldWidth at width; omega)]
  simp only [Option.bind_eq_bind, Option.bind_some, gprecision_eq v fmt _ small, modified,
    List.head?_cons, List.tail_cons, number]
  unfold specFlags left
  by_cases negative : v.width.value < 0 <;> by_cases minus : Flag.minus ∈ v.flags <;>
    by_cases plus : Flag.plus ∈ v.flags <;> simp [negative, minus, plus]

end Conversion

/-! ### The number -/

theorem iCompute_eq (base : { base : Nat // 2 ≤ base }) (val nrdigits : Nat)
    (occupied : 0 < val ∨ 0 < nrdigits) :
    iCompute base val nrdigits =
      List.replicate (nrdigits - (Nat.digits base val).length) '0' ++
        (Nat.digits base val).reverse.map Nat.digitChar := by
  induction val, nrdigits using iCompute.induct base with
  | case1 val nrdigits inductionHypothesis =>
    have large : 1 < base.val := base.2
    rw [iCompute]
    rcases Nat.eq_zero_or_pos val with zero | positive
    · subst zero
      rw [Nat.zero_div] at inductionHypothesis ⊢
      by_cases more : 1 < nrdigits
      · rw [if_pos (.inr more), inductionHypothesis (.inr more) (.inr (by omega)), Nat.digits_zero]
        obtain ⟨count, rfl⟩ : ∃ count, nrdigits = count + 1 := ⟨nrdigits - 1, by omega⟩
        simp [List.replicate_succ']
      · obtain rfl : nrdigits = 1 := by omega
        simp
    · rw [Nat.digits_def' large positive, List.length_cons, List.reverse_cons, List.map_append,
        List.map_singleton, ← List.append_assoc, Nat.sub_add_eq, Nat.sub_right_comm]
      congr 1
      split
      case isTrue more =>
        exact inductionHypothesis more (more.imp Nat.pos_of_ne_zero fun more => by omega)
      case isFalse last =>
        rw [not_or, not_not] at last
        rw [last.1, Nat.digits_zero, show nrdigits - 1 = 0 by omega]
        rfl

namespace Conversion

variable (v : Conversion)

theorem argument_eq (val : BitVec 32)
    (taken : val = argument v.modifier.isShort v.kind.signed v.arg) :
    (v.kind.signed && val.msb) = decide (v.value < 0) ∧
      (if decide (v.value < 0) then -val else val).toNat = v.value.natAbs := by
  cases signed : v.kind.signed with
  | false =>
    have same : v.value = val.toNat := by
      unfold value
      cases short : v.modifier <;> rw [short, signed] at taken <;> subst taken <;>
        simp [signed, argument, Modifier.isShort]
      omega
    have positive : decide (v.value < 0) = false := decide_eq_false (by omega)
    rw [positive, same]
    exact ⟨rfl, rfl⟩
  | true =>
    have same : v.value = val.toInt := by
      unfold value
      cases short : v.modifier <;> rw [short, signed] at taken <;> subst taken <;>
        simp [signed, argument, Modifier.isShort, BitVec.toInt_signExtend_of_le]
    rw [same, Bool.true_and, BitVec.msb_eq_toInt]
    refine ⟨rfl, ?_⟩
    rw [← BitVec.msb_eq_toInt, ← BitVec.abs_eq, BitVec.toNat_abs, BitVec.toInt_eq_msb_cond]
    have bound := val.isLt
    split <;> omega

theorem digits_eq (base : { base : Nat // 2 ≤ base }) (same : base.val = v.kind.base)
    (occupied : ¬(v.value.natAbs = 0 ∧ v.least = 0)) :
    (iCompute base v.value.natAbs v.least).map v.kind.case = v.digits := by
  have zero : v.kind.case '0' = '0' := by cases v.kind <;> decide
  rw [iCompute_eq _ _ _ (by omega), same]
  unfold digits numeral
  simp [zero]

theorem oPrint_eq : oPrint v.specFlags v.kind.char v.least v.kind.signed v.arg = v.stored := by
  obtain ⟨negative, number⟩ := v.argument_eq _ rfl
  have base : (Doprnt.base v.kind.char).val = v.kind.base := by cases v.kind <;> rfl
  have positive (unsigned : v.kind.signed = false) : decide (v.value < 0) = false := by
    rw [unsigned, Bool.false_and] at negative
    exact negative.symm
  unfold oPrint stored
  simp only [specFlags]
  simp only [negative, number]
  by_cases empty : v.value.natAbs = 0 ∧ v.least = 0
  · have none : v.digits = [] := by simp [digits, numeral, empty.1, empty.2]
    have zero : v.value = 0 := Int.natAbs_eq_zero.mp empty.1
    rw [if_pos empty, none, List.append_nil]
    unfold lead
    cases v.kind <;> by_cases plus : Flag.plus ∈ v.flags <;>
      simp [Kind.signed, Kind.char, Kind.hexadecimal, zero, plus]
  · rw [if_neg empty, ← v.digits_eq _ base empty]
    unfold lead
    have keeps (other : v.kind ≠ .X) (digits : List Char) : digits.map v.kind.case = digits := by
      rw [show v.kind.case = id from funext fun c => if_neg other, List.map_id]
    cases kind : v.kind <;> rw [kind] at positive keeps
    case d | i =>
      by_cases plus : Flag.plus ∈ v.flags <;> simp [Kind.signed, Kind.char, keeps, plus]
    case u | o | x =>
      simp [Kind.signed, Kind.char, Kind.case, Kind.hexadecimal, positive rfl, keeps, and_comm]
    case X =>
      by_cases prefixed : v.value ≠ 0 ∧ Flag.alternate ∈ v.flags <;>
        simp [Kind.signed, Kind.char, Kind.case, Kind.hexadecimal, positive rfl, prefixed]

end Conversion

/-! ### The field -/

theorem chars_store {s : List Char} {start n : Nat} (buf : Nat → Char)
    (inside : start + n ≤ s.length) :
    chars (store s buf) start n = (s.drop start).take n := by
  refine List.ext_getElem ?_ fun i _ _ => ?_
  · simp [chars]
    omega
  case _ first _ =>
    have : i < n := by simpa [chars] using first
    simp [chars, store, List.getElem?_eq_getElem (show start + i < s.length by omega)]

theorem fill_eq (flags : Flags) {s : List Char} {front width : Nat} (buf : Nat → Char)
    (inside : front ≤ s.length) (fits : s.length ≤ bufSize) (small : width < 2 ^ 31) :
    fill flags front width (store s buf) s.length =
      (let zeros := List.replicate (width - s.length) (if flags.zerofill then '0' else ' ')
        if flags.ljust then s ++ zeros else s.take front ++ (zeros ++ s.drop front),
        ((max width s.length : Nat) : Int)) := by
  unfold bufSize at fits
  have room : int32 ((width : Int) - (s.length : Nat)) = (width : Int) - (s.length : Nat) :=
    int32_of_small (by omega) (by omega)
  have last : int32 ((width : Int) - (s.length : Nat) - 1) = (width : Int) - (s.length : Nat) - 1 :=
    int32_of_small (by omega) (by omega)
  have begins : chars (store s buf) 0 front = s.take front := by
    rw [chars_store buf (by omega), List.drop_zero]
  have ends : chars (store s buf) front (s.length - front) = s.drop front := by
    rw [chars_store buf (by omega), List.take_of_length_le (by simp)]
  have whole : chars (store s buf) 0 s.length = s := by
    rw [chars_store buf (by omega), List.drop_zero, List.take_length]
  unfold fill
  simp only [room, last, begins, ends, whole, Int.sub_add_cancel]
  have count : ((width : Int) - (s.length : Nat)).toNat = width - s.length := by omega
  rw [count]
  split
  case isTrue more =>
    rw [more.2, if_neg Bool.false_ne_true, List.append_assoc]
    exact congrArg (Prod.mk _) (by omega)
  case isFalse none =>
    have total : (s.length : Int) + max ((width : Int) - (s.length : Nat)) 0 =
        ((max width s.length : Nat) : Int) := by omega
    rw [total]
    cases left : flags.ljust with
    | true => rfl
    | false =>
      have short : ¬0 < (width : Int) - (s.length : Nat) := fun positive => none ⟨positive, left⟩
      have full : width - s.length = 0 := by omega
      simp [full]

namespace Conversion

variable (v : Conversion)

/-- The number as `o_print` stores it. -/
def storedNumber : List Char :=
  (if v.kind = .o ∧ .alternate ∈ v.flags then ['0'] else []) ++ v.digits

/-- A number in the field of the conversion. -/
def inField (number : List Char) : List Char :=
  if v.zeroFilled then
    v.lead ++ (List.replicate (v.fieldWidth - (v.lead ++ number).length) '0' ++ number)
  else justify v.left v.fieldWidth (v.lead ++ number)

theorem length_digits : v.digits.length = max v.least v.numeral.length := by
  simp [digits]
  omega

theorem digits_ne {c : Char} (member : c ∈ v.digits) : c ∉ ['+', '-', ' '] := by
  rcases List.mem_append.mp member with zero | numeral
  · rw [List.eq_of_mem_replicate zero]
    decide
  · obtain ⟨digit, inside, rfl⟩ := List.mem_map.mp numeral
    have small : digit < 16 := by
      have small := Nat.digits_lt_base (by cases v.kind <;> decide) (List.mem_reverse.mp inside)
      exact Nat.lt_of_lt_of_le small (by cases v.kind <;> decide)
    have plain : ∀ digit : Fin 16, digit.val.digitChar ∉ ['+', '-', ' '] ∧
        digit.val.digitChar.toUpper ∉ ['+', '-', ' '] := by decide
    unfold Kind.case
    split
    · exact (plain ⟨digit, small⟩).2
    · exact (plain ⟨digit, small⟩).1

theorem least_of_filled (filled : v.zeroFilled = true) : v.left = false ∧ v.least = 1 := by
  unfold zeroFilled at filled
  obtain ⟨-, right, none⟩ := of_decide_eq_true filled
  exact ⟨right, by rw [least, none]; rfl⟩

theorem unsigned_of_hexadecimal {kind : Kind} (hexadecimal : kind.hexadecimal = true) :
    kind.signed = false ∧ kind ≠ .o := by
  revert hexadecimal
  cases kind <;> decide

/-- The flags when the number has been stored. -/
def fieldFlags : Flags := { v.specFlags with zerofill := v.zeroFilled }

theorem front_eq (buf : Nat → Char) :
    front v.fieldFlags v.kind.signed v.kind.char (store v.stored buf) =
      if v.zeroFilled then
        if v.kind.hexadecimal ∧ .alternate ∈ v.flags then 2 else v.lead.length
      else 0 := by
  unfold fieldFlags
  cases filled : v.zeroFilled with
  | false => rfl
  | true =>
    obtain ⟨c, rest, digits⟩ : ∃ c rest, v.digits = c :: rest := by
      refine List.exists_cons_of_ne_nil ?_
      unfold digits
      rw [(v.least_of_filled filled).2]
      cases v.numeral <;> simp
    have first := v.digits_ne (c := c) (by rw [digits]; exact List.mem_cons_self)
    simp only [List.mem_cons, List.not_mem_nil, or_false, not_or] at first
    unfold front lead
    cases kind : v.kind
    case d | i =>
      by_cases less : v.value < 0 <;> by_cases plus : Flag.plus ∈ v.flags <;>
        by_cases blank : Flag.blank ∈ v.flags <;>
        simp [store, stored, lead, digits, kind, Kind.signed, Kind.char, Kind.hexadecimal, less, plus,
          blank, first]
    case u | o => simp [specFlags, Kind.signed, Kind.char, Kind.hexadecimal]
    case x | X =>
      by_cases prefixed : Flag.alternate ∈ v.flags <;>
        simp [specFlags, Kind.signed, Kind.char, Kind.hexadecimal, prefixed]

/-- What is emitted, and how it is counted. -/
def emitted (buf : Nat → Char) : List Char × Int :=
  fill v.fieldFlags (front v.fieldFlags v.kind.signed v.kind.char (store v.stored buf)) v.fieldWidth
    (store v.stored buf) v.stored.length

/-- A zero that gets the place of a prefix. -/
def Misplaced : Prop :=
  v.kind.hexadecimal = true ∧ .alternate ∈ v.flags ∧ v.zeroFilled = true ∧ v.value = 0 ∧
    2 ≤ v.fieldWidth

variable {v}

theorem length_inField (number : List Char) :
    (v.inField number).length = max v.fieldWidth (v.lead ++ number).length := by
  unfold inField justify
  split
  · simp
    omega
  · split <;> simp <;> omega

theorem emitted_eq (buf : Nat → Char) (fits : v.stored.length ≤ bufSize)
    (small : v.fieldWidth < 2 ^ 31) (regular : ¬v.Misplaced) :
    v.emitted buf = (v.inField v.storedNumber, ((v.inField v.storedNumber).length : Int)) := by
  have stored : v.stored = v.lead ++ v.storedNumber := rfl
  have inside : (if v.zeroFilled then v.lead.length else 0) ≤ v.stored.length := by
    rw [stored, List.length_append]
    split <;> omega
  have begins : v.emitted buf = fill v.fieldFlags (if v.zeroFilled then v.lead.length else 0)
      v.fieldWidth (store v.stored buf) v.stored.length := by
    unfold emitted
    rw [v.front_eq]
    split
    case isFalse => rfl
    case isTrue filled =>
      split
      case isFalse => rfl
      case isTrue both =>
        by_cases zero : v.value = 0
        · -- the field is full
          have narrow : ¬2 ≤ v.fieldWidth := fun wide => regular ⟨both.1, both.2, filled, zero, wide⟩
          have long : 0 < v.stored.length := by
            have digits := v.length_digits
            rw [(v.least_of_filled filled).2] at digits
            rw [stored, storedNumber, List.length_append, List.length_append]
            omega
          have full : ¬0 < int32 ((v.fieldWidth : Int) - (v.stored.length : Nat)) := by
            unfold bufSize at fits
            rw [int32_of_small] <;> omega
          unfold fill
          simp only [full, false_and, if_false]
        · unfold lead
          rw [(unsigned_of_hexadecimal both.1).1, if_neg Bool.false_ne_true,
            if_pos ⟨both.1, zero, both.2⟩]
          rfl
  rw [begins, fill_eq _ buf inside fits small, length_inField, ← stored]
  refine congrArg (Prod.mk · _) ?_
  unfold inField justify
  cases filled : v.zeroFilled with
  | true => simp [fieldFlags, specFlags, filled, (v.least_of_filled filled).1, stored]
  | false => simp [fieldFlags, specFlags, filled, ← stored]

theorem length_emitted (buf : Nat → Char) (misplaced : v.Misplaced)
    (small : v.fieldWidth < 2 ^ 31) :
    (v.emitted buf).1.length = v.text.length + 1 := by
  obtain ⟨hexadecimal, alternate, filled, zero, wide⟩ := misplaced
  obtain ⟨right, least⟩ := v.least_of_filled filled
  obtain ⟨unsigned, other⟩ := unsigned_of_hexadecimal hexadecimal
  have digits : v.digits = ['0'] := by simp [digits, numeral, zero, least]
  have lead : v.lead = [] := by simp [lead, zero, unsigned]
  have stored : v.stored = ['0'] := by simp [stored, lead, digits, other]
  have room : int32 ((v.fieldWidth : Int) - (1 : Nat)) = (v.fieldWidth : Int) - (1 : Nat) :=
    int32_of_small (by omega) (by omega)
  have more : 0 < (v.fieldWidth : Int) - (1 : Nat) ∧ v.fieldFlags.ljust = false :=
    ⟨by omega, by simp [fieldFlags, specFlags, right]⟩
  unfold emitted
  rw [v.front_eq, filled, if_pos rfl, if_pos ⟨hexadecimal, alternate⟩, stored]
  change _ = (v.inField v.number).length + 1
  rw [length_inField, lead, show v.number = ['0'] by simp [number, digits]]
  unfold fill
  simp only [List.length_singleton, room, if_pos more]
  simp [chars]
  omega

theorem storedNumber_eq : v.storedNumber =
    if v.kind = .o ∧ .alternate ∈ v.flags ∧ v.numeral.length < v.least then '0' :: v.number
    else v.number := by
  have first (octal : v.kind = .o) : v.digits.head? = some '0' ↔ v.numeral.length < v.least := by
    unfold digits
    constructor
    · intro zero
      by_contra short
      rw [Nat.sub_eq_zero_of_le (Nat.le_of_not_lt short), List.replicate_zero, List.nil_append,
        numeral, octal, List.head?_map, List.head?_reverse] at zero
      obtain ⟨digit, last, zero⟩ := Option.map_eq_some_iff.mp zero
      have value : v.value.natAbs ≠ 0 := fun none => by simp [none] at last
      have small : digit < 8 := Nat.digits_lt_base (by decide) (List.mem_of_getLast? last)
      have nonzero : digit ≠ 0 := by
        rw [List.getLast?_eq_some_getLast (Nat.digits_ne_nil_iff_ne_zero.mpr value)] at last
        rw [← Option.some.inj last]
        exact Nat.getLast_digit_ne_zero _ value
      have plain : ∀ digit : Fin 8, digit.val ≠ 0 → Kind.o.case digit.val.digitChar ≠ '0' := by decide
      exact plain ⟨digit, small⟩ nonzero zero
    · intro short
      obtain ⟨count, same⟩ : ∃ count, v.least - v.numeral.length = count + 1 :=
        ⟨v.least - v.numeral.length - 1, by omega⟩
      rw [same]
      rfl
  unfold storedNumber number
  by_cases octal : v.kind = .o ∧ Flag.alternate ∈ v.flags
  · by_cases short : v.numeral.length < v.least
    · simp [octal.1, octal.2, (first octal.1).mpr short, short]
    · simp [octal.1, octal.2, mt (first octal.1).mp short, short]
  · rw [if_neg octal, if_neg fun all => octal ⟨all.1, all.2.1⟩,
      if_neg fun all => octal ⟨all.1, all.2.1⟩]
    rfl

/-- Another zero is seen, unless it stands where the field is filled with zeros. -/
theorem inField_cons_iff (octal : v.kind = .o) (alternate : .alternate ∈ v.flags)
    (short : v.numeral.length < v.least) :
    v.inField ('0' :: v.number) = v.text ↔ v.zeroFilled = true ∧ 2 ≤ v.fieldWidth := by
  change v.inField _ = v.inField _ ↔ _
  have lead : v.lead = [] := by simp [lead, octal, Kind.signed, Kind.hexadecimal]
  have number : v.number = v.digits := by
    have same := storedNumber_eq (v := v)
    rw [if_pos ⟨octal, alternate, short⟩] at same
    unfold storedNumber at same
    rw [if_pos ⟨octal, alternate⟩] at same
    exact (List.cons.inj same).2.symm
  have length := v.length_digits
  constructor
  · intro same
    have long := congrArg List.length same
    rw [length_inField, length_inField, lead, number, List.nil_append, List.nil_append,
      List.length_cons] at long
    cases filled : v.zeroFilled with
    | true =>
      have least := (v.least_of_filled filled).2
      exact ⟨rfl, by omega⟩
    | false =>
      have none : v.digits.count ' ' = 0 :=
        List.count_eq_zero.mpr fun blank => v.digits_ne blank (by decide)
      have blanks := congrArg (List.count ' ') same
      unfold inField justify at blanks
      rw [filled, lead, number] at blanks
      cases left : v.left <;> rw [left] at blanks <;> simp [none] at blanks <;> omega
  · rintro ⟨filled, wide⟩
    have least := (v.least_of_filled filled).2
    have digits : v.digits = ['0'] := by
      have empty : v.numeral = [] := List.length_eq_zero_iff.mp (by omega)
      simp [digits, empty, least]
    obtain ⟨count, same⟩ : ∃ count, v.fieldWidth = count + 2 := ⟨v.fieldWidth - 2, by omega⟩
    simp [inField, filled, lead, number, digits, same, List.replicate_succ']

/-- What is emitted is not shorter than the text, and it is the text where the conversion is done
right. -/
theorem emitted_spec (buf : Nat → Char) (fits : v.stored.length ≤ bufSize)
    (small : v.fieldWidth < 2 ^ 31) :
    v.text.length ≤ (v.emitted buf).1.length ∧ ((v.emitted buf).1 = v.text ↔ v.Fine) ∧
      (v.Fine → (v.emitted buf).2 = (v.text.length : Nat)) := by
  by_cases misplaced : v.Misplaced
  · have long := length_emitted buf misplaced small
    have wrong : ¬v.Fine := fun fine => by
      obtain ⟨hexadecimal, alternate, filled, zero, wide⟩ := misplaced
      exact absurd (fine.hexadecimal hexadecimal alternate filled zero) (Nat.not_lt.mpr wide)
    refine ⟨by omega, ⟨fun same => ?_, fun fine => absurd fine wrong⟩, fun fine => absurd fine wrong⟩
    rw [same] at long
    omega
  · have regular : v.Fine ↔ (v.kind = .o → .alternate ∈ v.flags → v.numeral.length < v.least →
        v.zeroFilled = true ∧ 2 ≤ v.fieldWidth) :=
      ⟨Fine.octal, fun octal => ⟨fits, octal, fun hexadecimal alternate filled zero =>
        Nat.lt_of_not_le fun wide => misplaced ⟨hexadecimal, alternate, filled, zero, wide⟩⟩⟩
    rw [emitted_eq buf fits small misplaced, storedNumber_eq, regular]
    by_cases second : v.kind = .o ∧ .alternate ∈ v.flags ∧ v.numeral.length < v.least
    · obtain ⟨octal, alternate, short⟩ := second
      have same := inField_cons_iff octal alternate short
      rw [if_pos ⟨octal, alternate, short⟩]
      refine ⟨?_, by simp [same, octal, alternate, short], fun fine => ?_⟩
      · change (v.inField v.number).length ≤ _
        rw [length_inField, length_inField]
        simp
        omega
      · rw [same.mpr (fine octal alternate short)]
    · rw [if_neg second]
      have none : v.kind = .o → .alternate ∈ v.flags → v.numeral.length < v.least →
          v.zeroFilled = true ∧ 2 ≤ v.fieldWidth :=
        fun octal alternate short => absurd ⟨octal, alternate, short⟩ second
      exact ⟨Nat.le_refl _, iff_of_true rfl none, fun _ => rfl⟩

end Conversion

/-! ### The loop -/

/-- What a part of the format has done: its text is emitted and counted if the part is done right,
and never is less emitted. -/
structure Emits (s s' : State) (text : List Char) (fine : Prop) : Prop where
  out : ∃ out, s'.out = s.out ++ out ∧ text.length ≤ out.length ∧ (out = text ↔ fine)
  counted : fine → s'.nrchars = int32 (s.nrchars + text.length)

theorem Emits.trans {s₁ s₂ s₃ : State} {text more : List Char} {fine alsoFine : Prop}
    (first : Emits s₁ s₂ text fine) (second : Emits s₂ s₃ more alsoFine) :
    Emits s₁ s₃ (text ++ more) (fine ∧ alsoFine) where
  out := by
    obtain ⟨out, same, long, right⟩ := first.out
    obtain ⟨out', same', long', right'⟩ := second.out
    refine ⟨out ++ out', by rw [same', same, List.append_assoc], by simp; omega, ?_⟩
    rw [← right, ← right']
    constructor
    · intro equal
      have total := congrArg List.length equal
      rw [List.length_append, List.length_append] at total
      exact List.append_inj equal (by omega)
    · rintro ⟨rfl, rfl⟩
      rfl
  counted fine := by
    rw [second.counted fine.2, first.counted fine.1, List.length_append]
    unfold int32
    rw [Int.bmod_add_bmod]
    congr 1
    omega

namespace Piece

/-- When a piece is done right. -/
def Fine : Piece → Prop
  | .plain _ => True
  | .conversion v => v.Fine

end Piece

theorem Conversion.short {v : Conversion} (small : v.text.length < 2 ^ 31) :
    v.fieldWidth < 2 ^ 31 ∧ v.least < 2 ^ 31 := by
  have length : v.text.length = max v.fieldWidth (v.lead ++ v.number).length :=
    v.length_inField v.number
  have digits := v.length_digits
  have number : v.digits.length ≤ v.number.length := by
    unfold number
    split <;> simp
  rw [List.length_append] at length
  omega

theorem turn_conversion {v : Conversion} {s : State} {rest : List Char} {more : List (BitVec 32)}
    (width : v.fieldWidth < 2 ^ 31) (least : v.least < 2 ^ 31) (args : s.ap = v.args ++ more) :
    turn s '%' (v.format ++ rest) =
      if bufSize < v.stored.length then none else
        some ⟨rest, more, store v.stored s.buf, s.out ++ (v.emitted s.buf).1,
          int32 (s.nrchars + (v.emitted s.buf).2)⟩ := by
  have filled : (v.specFlags.zerofill && (v.precisionGiven.isNone || v.kind.char == 'p')) =
      v.zeroFilled := by
    have other : (v.kind.char == 'p') = false := by cases v.kind <;> rfl
    rw [other, Conversion.zeroFilled]
    cases v.precisionGiven <;> simp [Conversion.specFlags]
  have converted : convert { s with fmt := rest, ap := v.arg :: more }
      ⟨v.specFlags, v.fieldWidth, v.precisionGiven, v.kind.char⟩ v.kind.signed =
        if bufSize < v.stored.length then none else
          some ⟨rest, more, store v.stored s.buf, s.out ++ (v.emitted s.buf).1,
            int32 (s.nrchars + (v.emitted s.buf).2)⟩ := by
    have stored : oPrint { v.specFlags with zerofill := v.zeroFilled } v.kind.char
        (v.precisionGiven.getD 1) v.kind.signed v.arg = v.stored := v.oPrint_eq
    unfold convert
    simp only [filled, List.head?_cons, Option.bind_some, stored]
    rfl
  unfold turn
  rw [if_neg (by simp), args, v.readSpec_eq rest more width least, Option.bind_some, ← converted]
  cases v.kind <;> rfl

theorem turn_piece {piece : Piece} {s : State} {c : Char} {fmt rest : List Char}
    {more : List (BitVec 32)} (small : piece.text.length < 2 ^ 31)
    (format : c :: fmt = piece.format ++ rest) (args : s.ap = piece.args ++ more) :
    (turn s c fmt = none ∧ ¬piece.Fine) ∨ ∃ s', turn s c fmt = some s' ∧ s'.fmt = rest ∧
      s'.ap = more ∧ int32 s'.nrchars = s'.nrchars ∧ Emits s s' piece.text piece.Fine := by
  cases piece with
  | plain d =>
    obtain ⟨rfl, rfl⟩ := List.cons.inj format
    exact .inr ⟨_, if_pos d.2, rfl, args, Int.bmod_bmod,
      ⟨⟨_, rfl, Nat.le_refl _, iff_of_true rfl trivial⟩, fun _ => rfl⟩⟩
  | conversion v =>
    obtain ⟨rfl, same⟩ := List.cons.inj format
    obtain rfl : fmt = v.format ++ rest := same
    obtain ⟨width, least⟩ := Conversion.short small
    rw [turn_conversion width least args]
    by_cases fits : bufSize < v.stored.length
    · exact .inl ⟨if_pos fits, fun fine => absurd fine.fits (Nat.not_le.mpr fits)⟩
    · obtain ⟨long, right, counted⟩ := Conversion.emitted_spec s.buf (Nat.le_of_not_lt fits) width
      exact .inr ⟨_, if_neg fits, rfl, rfl, Int.bmod_bmod, ⟨_, rfl, long, right⟩, fun fine =>
        congrArg (fun count => int32 (s.nrchars + count)) (counted fine)⟩

/-- The run lemma: by induction on the pieces. -/
theorem loop_pieces {pieces : List Piece} {s : State} {fuel : Nat}
    (small : (pieces.flatMap Piece.text).length < 2 ^ 31)
    (enough : (pieces.flatMap Piece.format).length ≤ fuel) (within : int32 s.nrchars = s.nrchars)
    (format : s.fmt = pieces.flatMap Piece.format) (args : s.ap = pieces.flatMap Piece.args) :
    (loop fuel s = none ∧ ¬∀ piece ∈ pieces, piece.Fine) ∨ ∃ s', loop fuel s = some s' ∧
      Emits s s' (pieces.flatMap Piece.text) (∀ piece ∈ pieces, piece.Fine) := by
  induction pieces generalizing s fuel with
  | nil =>
    have done : loop fuel s = some s := by
      cases fuel <;> simp only [loop, format, List.flatMap_nil, if_true]
    refine .inr ⟨s, done, ⟨[], (List.append_nil _).symm, Nat.le_refl _, ?_⟩, fun _ => ?_⟩
    · exact iff_of_true rfl fun _ member => absurd member List.not_mem_nil
    · exact within.symm.trans (congrArg int32 (Int.add_zero _).symm)
  | cons piece pieces inductionHypothesis =>
    rw [List.flatMap_cons, List.length_append] at small enough
    rw [List.flatMap_cons] at format args
    obtain ⟨c, fmt, first⟩ : ∃ c fmt, piece.format = c :: fmt := by
      cases piece <;> exact ⟨_, _, rfl⟩
    rw [first, List.length_cons] at enough
    obtain ⟨fuel, rfl⟩ : ∃ less, fuel = less + 1 := ⟨fuel - 1, by omega⟩
    have unfolded : loop (fuel + 1) s = (turn s c (fmt ++ pieces.flatMap Piece.format)).bind
        (loop fuel) := by
      rw [loop, format, first]
      rfl
    rw [unfolded, List.flatMap_cons, List.forall_mem_cons]
    have here : c :: (fmt ++ pieces.flatMap Piece.format) =
        piece.format ++ pieces.flatMap Piece.format := by rw [first]; rfl
    rcases turn_piece (by omega) here args with
      ⟨stuck, wrong⟩ | ⟨s', turned, format', args', counted, emits⟩
    · exact .inl ⟨by rw [stuck]; rfl, fun fine => wrong fine.1⟩
    rw [turned, Option.bind_some]
    rcases @inductionHypothesis s' fuel (by omega) (by omega) counted format' args' with
      ⟨stuck, wrong⟩ | ⟨s'', done, emits'⟩
    · exact .inl ⟨stuck, fun fine => wrong fine.2⟩
    · exact .inr ⟨s'', done, emits.trans emits'⟩

theorem convert_nrchars {s s' : State} {spec : Spec} {isSigned : Bool}
    (done : convert s spec isSigned = some s') : int32 s'.nrchars = s'.nrchars := by
  obtain ⟨arg, -, stored⟩ := Option.bind_eq_some_iff.mp done
  obtain ⟨-, stored⟩ := Option.ite_none_left_eq_some.mp stored
  obtain rfl := Option.some.inj stored
  exact Int.bmod_bmod

theorem loop_nrchars {s s' : State} {fuel : Nat} (within : int32 s.nrchars = s.nrchars)
    (done : loop fuel s = some s') : int32 s'.nrchars = s'.nrchars := by
  induction fuel generalizing s with
  | zero =>
    obtain ⟨-, done⟩ := Option.ite_none_right_eq_some.mp done
    rwa [← Option.some.inj done]
  | succ fuel inductionHypothesis =>
    unfold loop at done
    split at done
    · rwa [← Option.some.inj done]
    · obtain ⟨next, turned, done⟩ := Option.bind_eq_some_iff.mp done
      refine inductionHypothesis ?_ done
      unfold turn at turned
      split at turned
      · rw [← Option.some.inj turned]
        exact Int.bmod_bmod
      · obtain ⟨⟨spec, fmt, ap⟩, -, turned⟩ := Option.bind_eq_some_iff.mp turned
        dsimp only at turned
        split at turned
        · exact convert_nrchars turned
        split at turned
        · exact convert_nrchars turned
        obtain ⟨-, turned⟩ := Option.ite_none_left_eq_some.mp turned
        rw [← Option.some.inj turned]
        exact Int.bmod_bmod

/-- What is printed as it should be was done right, and its length is an `int`. -/
theorem Printed.fine {buf : Nat → Char} {pieces : List Piece} (printed : Printed buf pieces) :
    (∀ piece ∈ pieces, piece.Fine) ∧ (pieces.flatMap Piece.text).length < 2 ^ 31 := by
  obtain ⟨s', done, same⟩ := Option.map_eq_some_iff.mp printed
  obtain ⟨text, count⟩ := Prod.mk.inj same
  have small : (pieces.flatMap Piece.text).length < 2 ^ 31 := by
    have within : int32 s'.nrchars = s'.nrchars := loop_nrchars rfl done
    have below : int32 s'.nrchars < ((2 ^ 32 + 1 : Nat) : Int) / 2 := Int.bmod_lt (by decide)
    omega
  let s : State := { fmt := pieces.flatMap Piece.format, ap := pieces.flatMap Piece.args, buf }
  rcases loop_pieces (s := s) small (Nat.le_refl _) rfl rfl rfl with
    ⟨stuck, -⟩ | ⟨s'', done', emits⟩
  · exact absurd (done.symm.trans stuck) (Option.some_ne_none _)
  · obtain rfl := Option.some.inj (done.symm.trans done')
    obtain ⟨out, emitted, -, right⟩ := emits.out
    exact ⟨right.mp (emitted.symm.trans text), small⟩

/-- Whatever is in the buffer: the call for a format of plain characters and conversions of integers
emits the text that the standard prescribes and returns its length, if and only if each conversion
is one that is done right and the length is an `int`. -/
theorem integers_formatted_iff (buf : Nat → Char) (pieces : List Piece) :
    Printed buf pieces ↔ (∀ piece ∈ pieces, piece.Fine) ∧
      (pieces.flatMap Piece.text).length < 2 ^ 31 := by
  refine ⟨Printed.fine, fun ⟨fine, small⟩ => ?_⟩
  let s : State := { fmt := pieces.flatMap Piece.format, ap := pieces.flatMap Piece.args, buf }
  rcases loop_pieces (s := s) small (Nat.le_refl _) rfl rfl rfl with ⟨-, wrong⟩ | ⟨s', done, emits⟩
  · exact absurd fine wrong
  · obtain ⟨out, emitted, -, right⟩ := emits.out
    refine Option.map_eq_some_iff.mpr ⟨s', done, Prod.ext_iff.mpr ⟨?_, ?_⟩⟩
    · exact emitted.trans (right.mpr fine)
    · refine (emits.counted fine).trans ?_
      rw [show s.nrchars = 0 from rfl, Int.zero_add]
      exact int32_of_small (by omega) (by omega)

/-- The conversion `%#.3o` of the number 1. -/
def threeOctal : Conversion :=
  ⟨[.alternate], .inFormat [], some (.inFormat [3]), .none, .o, 1, fun _ same => by cases same⟩

/-- It is to be printed as `001`, and something else is printed. -/
theorem octal_gets_second_zero :
    threeOctal.text = ['0', '0', '1'] ∧ ¬Printed (fun _ => ' ') [.conversion threeOctal] := by
  have numeral : threeOctal.numeral = ['1'] := by
    simp [Conversion.numeral, threeOctal, Kind.base, Conversion.value, Kind.signed, Kind.case]
  have digits : threeOctal.digits = ['0', '0', '1'] := by
    rw [Conversion.digits, numeral]
    rfl
  constructor
  · simp [Conversion.text, Conversion.number, digits]
    decide
  · intro printed
    have fine : threeOctal.Fine := printed.fine.1 _ List.mem_cons_self
    have short : threeOctal.numeral.length < threeOctal.least := by rw [numeral]; decide
    exact absurd (fine.octal rfl (by decide) short).1 (by decide)

end Minix.Stdio.Doprnt
