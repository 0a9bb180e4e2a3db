/-
This file models `strtol` and `strtoul` (`lib/ansi/strtol.c`) and proves that they read the longest
numeral at the start of a string, unless that is a zero in front of an `x` that no digit follows.

Both functions pass over a prefix `0x` when they see it, whether or not a digit comes after it. The
end pointer is then behind the `x`, though the numeral is only the zero (`strtol_bare_prefix`).
-/

import Mathlib.Data.List.TakeWhile
import Mathlib.Data.UInt
import Minix.Library.Numerals

namespace Minix.Ansi

open Numerals (Reads value)

/-! ### The code -/

/-- `*nptr`. A string is the list of its bytes, and a zero comes after them. -/
def deref (nptr : List UInt8) : UInt8 :=
  nptr.headD 0

/-- A `char` as an `int`: characters are signed. -/
def charToInt (c : UInt8) : Int :=
  if c.toNat < 128 then c.toNat else c.toNat - 256

/-- `isspace`, which looks into `__ctype`. What lies in front of the table, where a negative
character other than -1 leads, is `before`. -/
def isspace (before : Int → Bool) (c : Int) : Bool :=
  if c < -1 then before c else decide (9 ≤ c ∧ c ≤ 13 ∨ c = 32)

/-- `between(a, c, z)`, with the differences taken as unsigned. -/
def between (a c z : Int) : Bool :=
  decide ((c - a) % 2 ^ 32 ≤ (z - a) % 2 ^ 32)

/-- `v`, for a character that is a digit in some base. -/
def digitValue (c : Int) : Option Nat :=
  if between 48 c 57 then some (c - 48).toNat -- '0' to '9'
  else if between 97 c 122 then some (c - 97 + 10).toNat -- 'a' to 'z'
  else if between 65 c 90 then some (c - 65 + 10).toNat -- 'A' to 'Z'
  else none

/-- `ULONG_MAX` -/
def ulongMax : Nat := 2 ^ 32 - 1

/-- `LONG_MAX` -/
def longMax : Nat := 2 ^ 31 - 1

/-- `-(unsigned long)LONG_MIN` -/
def longMinMagnitude : Nat := 2 ^ 31

/-- The loop over the digits: the value, how often it has overflowed, and what is left. -/
def collectDigits (base : Nat) : List UInt8 → Nat → Nat → Nat × Nat × List UInt8
  | [], val, ovfl => (val, ovfl, [])
  | c :: nptr, val, ovfl =>
    match digitValue (charToInt c) with
    | none => (val, ovfl, c :: nptr)
    | some v =>
      if base ≤ v then (val, ovfl, c :: nptr)
      else
        collectDigits base nptr ((val * base + v) % 2 ^ 32)
          (if (ulongMax - v) / base < val then ovfl + 1 else ovfl)

/-- Is the character an `x`? -/
def isX (c : UInt8) : Bool :=
  c == 120 || c == 88

/-- The base that the syntax determines, and where the loop over the digits begins. A zero that is
no part of a prefix has been passed over as well where it was looked at. -/
def findBase (base : Nat) (nptr : List UInt8) : Nat × List UInt8 :=
  if base = 0 then
    if deref nptr = 48 then
      if isX (deref nptr.tail) then (16, nptr.tail.tail) else (8, nptr.tail)
    else (10, nptr)
  else if base = 16 ∧ deref nptr = 48 then
    if isX (deref nptr.tail) then (16, nptr.tail.tail) else (16, nptr.tail)
  else (base, nptr)

/-- What a call returns: the value as an `unsigned long`, how many bytes in front of `*endptr` there
are, and whether `errno` was set to `ERANGE`. -/
structure Conversion where
  value : Nat
  endptr : Nat
  erange : Bool

/-- The end of `string2long`: the value, and whether it was out of range. Overflow is found here only
for a `long`. -/
def checkRange (isSigned : Bool) (sign : Int) (val ovfl : Nat) : Nat × Bool :=
  let ovfl :=
    if ovfl = 0 ∧ isSigned ∧ (sign < 0 ∧ longMinMagnitude < val ∨ 0 < sign ∧ longMax < val) then
      ovfl + 1
    else ovfl
  if ovfl ≠ 0 then
    (if isSigned then if sign < 0 then longMinMagnitude else longMax else ulongMax, true)
  else ((sign * val % 2 ^ 32).toNat, false)

def string2long (before : Int → Bool) (startnptr : List UInt8) (base : Nat) (isSigned : Bool) :
    Conversion :=
  let nptr := startnptr.dropWhile fun c => isspace before (charToInt c)
  let c := deref nptr
  let sign : Int := if c = 45 then -1 else 1
  let nrstart := if c = 45 ∨ c = 43 then nptr.tail else nptr
  let (base, nptr) := findBase base nrstart
  let (val, ovfl, nptr) := collectDigits base nptr 0 0
  let (value, erange) := checkRange isSigned sign val ovfl
  { value
    endptr := if nrstart.length = nptr.length then 0 else startnptr.length - nptr.length
    erange }

/-- An `unsigned long` as a `long`. -/
def toLong (value : Nat) : Int :=
  if value < 2 ^ 31 then value else value - 2 ^ 32

/-- What a call hands back: the value, the end pointer and whether the range was left. -/
structure Answer where
  value : Int
  endptr : Nat
  erange : Bool
  deriving DecidableEq

def strtol (before : Int → Bool) (nptr : List UInt8) (base : Nat) : Answer :=
  let conversion := string2long before nptr base true
  ⟨toLong conversion.value, conversion.endptr, conversion.erange⟩

def strtoul (before : Int → Bool) (nptr : List UInt8) (base : Nat) : Answer :=
  let conversion := string2long before nptr base false
  ⟨conversion.value, conversion.endptr, conversion.erange⟩

/-! ### Numerals -/

/-- Is the character a digit of the base? -/
def isDigitOf (base : Nat) (c : UInt8) : Bool :=
  (digitValue (charToInt c)).any fun v => decide (v < base)

/-- The base in which the digits behind a leader are read, and the leaders that there are. -/
inductive Radix : Nat → List UInt8 → List UInt8 → Nat → Prop
  | given {base : Nat} {digits : List UInt8} : 2 ≤ base → Radix base [] digits base
  | hexadecimal {base : Nat} {x : UInt8} {digits : List UInt8} :
      base = 0 ∨ base = 16 → isX x = true → Radix base [48, x] digits 16
  | octal {digits : List UInt8} : digits.head? = some 48 → Radix 0 [] digits 8
  | decimal {digits : List UInt8} : digits.head? ≠ some 48 → Radix 0 [] digits 10

/-- What is converted: blanks, a sign, a leader and the digits. -/
structure Subject where
  blanks : List UInt8
  sign : List UInt8
  leader : List UInt8
  digits : List UInt8
  radix : Nat

namespace Subject

def text (subject : Subject) : List UInt8 :=
  subject.blanks ++ (subject.sign ++ (subject.leader ++ subject.digits))

structure WellFormed (before : Int → Bool) (base : Nat) (subject : Subject) : Prop where
  blanks : ∀ c ∈ subject.blanks, isspace before (charToInt c) = true
  sign : subject.sign = [] ∨ subject.sign = [45] ∨ subject.sign = [43]
  radix : Radix base subject.leader subject.digits subject.radix
  digits : ∀ c ∈ subject.digits, isDigitOf subject.radix c = true
  some : subject.digits ≠ []

/-- The longest text of the form at the start of a string. -/
structure Longest (before : Int → Bool) (base : Nat) (str : List UInt8) (subject : Subject) :
    Prop where
  wellFormed : subject.WellFormed before base
  begins : subject.text <+: str
  longest : ∀ other : Subject, other.WellFormed before base → other.text <+: str →
    other.text.length ≤ subject.text.length

/-- The digits' values. -/
def digitValues (digits : List UInt8) : List Nat :=
  digits.filterMap fun c => digitValue (charToInt c)

/-- The number without its sign. -/
def magnitude (subject : Subject) : Nat :=
  value subject.radix (digitValues subject.digits)

/-- The number, or the limit on its side. -/
def DenotesLong (subject : Subject) (answer : Answer) : Prop :=
  let number : Int := if subject.sign = [45] then -subject.magnitude else subject.magnitude
  if -2 ^ 31 ≤ number ∧ number ≤ 2 ^ 31 - 1 then answer.value = number ∧ answer.erange = false
  else
    answer.value = (if subject.sign = [45] then -2 ^ 31 else 2 ^ 31 - 1) ∧ answer.erange = true

/-- The number, which a minus sign negates in the type that is returned, or the limit. -/
def DenotesUnsigned (subject : Subject) (answer : Answer) : Prop :=
  let number : Int := if subject.sign = [45] then -subject.magnitude else subject.magnitude
  if subject.magnitude ≤ 2 ^ 32 - 1 then
    answer.value = number % 2 ^ 32 ∧ answer.erange = false
  else answer.value = 2 ^ 32 - 1 ∧ answer.erange = true

end Subject

/-- The answer is that for the longest text of the form; without one the end pointer is the start
of the string. -/
def Converts (before : Int → Bool) (base : Nat) (str : List UInt8)
    (denotes : Subject → Answer → Prop) (answer : Answer) : Prop :=
  (∃ subject : Subject, subject.Longest before base str ∧
    answer.endptr = subject.text.length ∧ denotes subject answer) ∨
  (∀ subject : Subject, subject.WellFormed before base → ¬subject.text <+: str) ∧
    answer = ⟨0, 0, false⟩

/-- The string without the blanks at its start. -/
def unblanked (before : Int → Bool) (str : List UInt8) : List UInt8 :=
  str.dropWhile fun c => isspace before (charToInt c)

/-- What follows the blanks and the sign. -/
def afterSign (before : Int → Bool) (str : List UInt8) : List UInt8 :=
  let nptr := unblanked before str
  if deref nptr = 45 ∨ deref nptr = 43 then nptr.tail else nptr

/-- The number is a zero in front of an `x` that no digit follows, where a prefix may stand. -/
def BarePrefix (before : Int → Bool) (base : Nat) (str : List UInt8) : Prop :=
  (base = 0 ∨ base = 16) ∧ ∃ x behind, afterSign before str = 48 :: x :: behind ∧
    isX x = true ∧ isDigitOf 16 (deref behind) = false

/-! ### The digits -/

section Digits

variable {base val ovfl v : Nat} {c : UInt8} {before nptr : List UInt8}

theorem isDigitOf_iff : isDigitOf base c = true ↔ ∃ v, digitValue (charToInt c) = some v ∧ v < base := by
  simp only [isDigitOf, Option.any_eq_true, decide_eq_true_eq]

theorem digitValues_concat (found : digitValue (charToInt c) = some v) :
    Subject.digitValues (before ++ [c]) = Subject.digitValues before ++ [v] := by
  simp only [Subject.digitValues, List.filterMap_append, List.filterMap_cons, found,
    List.filterMap_nil]

/-- The loop stops at the first character that is no digit, and reads those before it. -/
theorem collectDigits_reads (small : base ≤ 36) (positive : 0 < base)
    (reads : Reads base ulongMax (Subject.digitValues before) val (ovfl ≠ 0)) :
    ∃ val' ovfl', collectDigits base nptr val ovfl =
        (val', ovfl', nptr.dropWhile (isDigitOf base)) ∧
      Reads base ulongMax (Subject.digitValues (before ++ nptr.takeWhile (isDigitOf base))) val'
        (ovfl' ≠ 0) := by
  induction nptr generalizing before val ovfl with
  | nil => exact ⟨val, ovfl, rfl, by rwa [List.takeWhile_nil, List.append_nil]⟩
  | cons c nptr inductionHypothesis =>
    rw [collectDigits]
    cases found : digitValue (charToInt c) with
    | none =>
      have other : ¬isDigitOf base c = true := by simp [isDigitOf, found]
      rw [List.dropWhile_cons_of_neg other, List.takeWhile_cons_of_neg other, List.append_nil]
      exact ⟨val, ovfl, rfl, reads⟩
    | some v =>
      by_cases large : base ≤ v
      · have other : ¬isDigitOf base c = true := by
          simp only [isDigitOf, found, Option.any_some, decide_eq_true_eq]
          omega
        rw [List.dropWhile_cons_of_neg other, List.takeWhile_cons_of_neg other, List.append_nil]
        simp only [if_pos large]
        exact ⟨val, ovfl, rfl, reads⟩
      · have digit : isDigitOf base c = true := isDigitOf_iff.mpr ⟨v, found, by omega⟩
        have small' : v ≤ ulongMax := by
          unfold ulongMax
          omega
        have counted : (if (ulongMax - v) / base < val then ovfl + 1 else ovfl) ≠ 0 ↔
            ovfl ≠ 0 ∨ (ulongMax - v) / base < val := by
          split
          case isTrue exceeds => exact ⟨fun _ => .inr exceeds, fun _ => Nat.succ_ne_zero ovfl⟩
          case isFalse fits => exact ⟨.inl, fun either => either.resolve_right fits⟩
        have wraps (fits : val * base + v ≤ ulongMax) : (val * base + v) % 2 ^ 32 = val * base + v :=
          Nat.mod_eq_of_lt (Nat.lt_of_le_of_lt fits (by decide))
        have next := reads.step positive small' counted wraps
        rw [← digitValues_concat found] at next
        simp only [if_neg large]
        rw [List.dropWhile_cons_of_pos digit, List.takeWhile_cons_of_pos digit, List.append_cons]
        exact inductionHypothesis next

theorem digitValue_range {n : Int} (least : -128 ≤ n) (most : n ≤ 127)
    (digit : (digitValue n).isSome = true) :
    48 ≤ n ∧ n ≤ 57 ∨ 97 ≤ n ∧ n ≤ 122 ∨ 65 ≤ n ∧ n ≤ 90 := by
  unfold digitValue between at digit
  simp only [decide_eq_true_eq] at digit
  split at digit
  · omega
  · split at digit
    · omega
    · split at digit
      · omega
      · cases digit

theorem charToInt_range (c : UInt8) : -128 ≤ charToInt c ∧ charToInt c ≤ 127 := by
  have below : c.toNat < 256 := c.toNat_lt
  unfold charToInt
  split <;> omega

theorem not_blank_of_digit {blank : Int → Bool} (digit : isDigitOf base c = true) :
    isspace blank (charToInt c) = false ∧ c ≠ 45 ∧ c ≠ 43 := by
  obtain ⟨v, found, -⟩ := isDigitOf_iff.mp digit
  obtain ⟨least, most⟩ := charToInt_range c
  have range := digitValue_range least most (by rw [found]; rfl)
  refine ⟨?_, ?_, ?_⟩
  · unfold isspace
    rw [if_neg (by omega), decide_eq_false (by omega)]
  · rintro rfl
    revert range
    decide
  · rintro rfl
    revert range
    decide

end Digits

/-! ### Blanks and signs -/

section Sign

variable {blank : Int → Bool} {base : Nat} {str more : List UInt8} {subject : Subject}

theorem unblanked_append {blanks : List UInt8} (all : ∀ c ∈ blanks, isspace blank (charToInt c) = true) :
    unblanked blank (blanks ++ more) = unblanked blank more :=
  List.dropWhile_append_of_pos all

theorem unblanked_cons {c : UInt8} (other : isspace blank (charToInt c) = false) :
    unblanked blank (c :: more) = c :: more :=
  List.dropWhile_cons_of_neg (by simp [other])

theorem afterSign_signed (signed : deref (unblanked blank str) = 45 ∨ deref (unblanked blank str) = 43) :
    afterSign blank str = (unblanked blank str).tail :=
  if_pos signed

theorem afterSign_unsigned
    (unsigned : ¬(deref (unblanked blank str) = 45 ∨ deref (unblanked blank str) = 43)) :
    afterSign blank str = unblanked blank str :=
  if_neg unsigned

theorem exists_sign (blank : Int → Bool) (str : List UInt8) : ∃ blanks sign,
    str = blanks ++ (sign ++ afterSign blank str) ∧
      (∀ c ∈ blanks, isspace blank (charToInt c) = true) ∧
      (sign = [] ∨ sign = [45] ∨ sign = [43]) ∧
      (sign = [45] ↔ deref (unblanked blank str) = 45) := by
  have whole : str.takeWhile (fun c => isspace blank (charToInt c)) ++ unblanked blank str = str :=
    List.takeWhile_append_dropWhile
  have blanks : ∀ c ∈ str.takeWhile (fun c => isspace blank (charToInt c)),
      isspace blank (charToInt c) = true := fun _ member =>
    List.mem_takeWhile_imp (p := fun c => isspace blank (charToInt c)) member
  by_cases signed : deref (unblanked blank str) = 45 ∨ deref (unblanked blank str) = 43
  · have after := afterSign_signed signed
    cases found : unblanked blank str with
    | nil =>
      rw [found] at signed
      exact absurd signed (by decide)
    | cons c rest =>
      rw [found] at whole signed after
      refine ⟨_, [c], ?_, blanks, ?_, ?_⟩
      · rw [after]
        exact whole.symm
      · rcases signed with minus | plus
        · exact .inr (.inl (congrArg ([·]) minus))
        · exact .inr (.inr (congrArg ([·]) plus))
      · exact ⟨fun same => List.singleton_inj.mp same, fun same => congrArg ([·]) same⟩
  · have after := afterSign_unsigned signed
    refine ⟨_, [], ?_, blanks, .inl rfl, ?_⟩
    · rw [after]
      exact whole.symm
    · exact ⟨fun same => absurd same (by simp), fun minus => absurd (.inl minus) signed⟩

theorem Subject.WellFormed.exists_cons (wellFormed : subject.WellFormed blank base) :
    ∃ c rest radix, subject.leader ++ subject.digits = c :: rest ∧ isDigitOf radix c = true := by
  have begins (leaderless : subject.leader = []) :
      ∃ c rest radix, subject.leader ++ subject.digits = c :: rest ∧ isDigitOf radix c = true := by
    obtain ⟨c, rest, digits⟩ := List.exists_cons_of_ne_nil wellFormed.some
    exact ⟨c, rest, subject.radix, by rw [leaderless, digits, List.nil_append],
      wellFormed.digits c (by simp [digits])⟩
  cases subject with
  | mk blanks sign leader digits radix =>
    cases wellFormed.radix with
    | hexadecimal _ _ => exact ⟨48, _, 16, rfl, by decide⟩
    | given _ | octal _ | decimal _ => exact begins rfl

/-- Where the text of the form has its sign and its number, the string has them too. -/
theorem Subject.WellFormed.afterSign (wellFormed : subject.WellFormed blank base)
    (begins : subject.text <+: str) :
    subject.leader ++ subject.digits <+: afterSign blank str ∧
      str.length = subject.blanks.length + subject.sign.length + (afterSign blank str).length ∧
      (subject.sign = [45] ↔ deref (unblanked blank str) = 45) := by
  obtain ⟨more, rfl⟩ := begins
  obtain ⟨c, rest, radix, number, digit⟩ := wellFormed.exists_cons
  obtain ⟨notBlank, notMinus, notPlus⟩ := @not_blank_of_digit _ _ blank digit
  have found : unblanked blank (subject.text ++ more) =
      unblanked blank (subject.sign ++ (c :: rest ++ more)) := by
    rw [Subject.text, number, List.append_assoc, unblanked_append wellFormed.blanks,
      List.append_assoc]
  have size : (subject.text ++ more).length =
      subject.blanks.length + (subject.sign.length + (c :: rest ++ more).length) := by
    simp only [Subject.text, number, List.length_append]
    omega
  rw [size, number]
  rcases wellFormed.sign with none | sign | sign
  · rw [none, List.nil_append, List.cons_append, unblanked_cons notBlank] at found
    rw [afterSign_unsigned (by rw [found]; exact not_or.mpr ⟨notMinus, notPlus⟩), found, none]
    exact ⟨List.prefix_append _ _, by simp, by simp, fun same => absurd same notMinus⟩
  · rw [sign, List.singleton_append, unblanked_cons rfl] at found
    rw [afterSign_signed (by rw [found]; exact .inl rfl), found, sign]
    exact ⟨List.prefix_append _ _, by simp; omega, fun _ => rfl, fun _ => rfl⟩
  · rw [sign, List.singleton_append, unblanked_cons rfl] at found
    rw [afterSign_signed (by rw [found]; exact .inr rfl), found, sign]
    exact ⟨List.prefix_append _ _, by simp; omega, fun same => absurd same (by decide),
      fun same => absurd (show (43 : UInt8) = 45 from same) (by decide)⟩

end Sign

/-! ### The base -/

section Base

variable {base radix : Nat} {rest leader body digits : List UInt8} {x : UInt8}

/-- What the code takes for the leader and for the body behind it. -/
inductive Reading : Nat → List UInt8 → List UInt8 → List UInt8 → Nat → Prop
  | prefixed {base : Nat} {x : UInt8} {behind : List UInt8} : base = 0 ∨ base = 16 → isX x = true →
      Reading base (48 :: x :: behind) [48, x] behind 16
  | given {base : Nat} {rest : List UInt8} : 2 ≤ base → base ≤ 36 →
      (base = 16 → deref rest = 48 → isX (deref rest.tail) = false) → Reading base rest [] rest base
  | octal {rest : List UInt8} : deref rest = 48 → isX (deref rest.tail) = false →
      Reading 0 rest [] rest 8
  | decimal {rest : List UInt8} : deref rest ≠ 48 → Reading 0 rest [] rest 10

section

variable (reading : Reading base rest leader body radix)
include reading

theorem Reading.radix_range :
    2 ≤ radix ∧ radix ≤ 36 := by
  cases reading with
  | given least most _ => exact ⟨least, most⟩
  | prefixed _ _ | octal _ _ | decimal _ => decide

theorem Reading.append : leader ++ body = rest := by
  cases reading <;> rfl

theorem Reading.two_le (some : leader ≠ []) :
    2 ≤ leader.length := by
  cases reading with
  | prefixed _ _ => exact Nat.le_refl 2
  | given _ _ _ | octal _ _ | decimal _ => exact absurd rfl some

end

theorem cons_of_deref {c : UInt8} (found : deref rest = c) (some : c ≠ 0) :
    rest = c :: rest.tail := by
  cases rest with
  | nil => exact absurd found.symm some
  | cons d rest => rw [show d = c from found, List.tail_cons]

theorem collectDigits_zero (large : 2 ≤ base) :
    collectDigits base (48 :: rest) 0 0 = collectDigits base rest 0 0 := by
  have zero : digitValue (charToInt 48) = some 0 := rfl
  simp [collectDigits, zero, show ¬base ≤ 0 by omega]

theorem exists_reading (valid : base = 0 ∨ 2 ≤ base ∧ base ≤ 36) (rest : List UInt8) :
    ∃ leader body radix, Reading base rest leader body radix ∧
      ∃ nptr, findBase base rest = (radix, nptr) ∧
        collectDigits radix nptr 0 0 = collectDigits radix body 0 0 := by
  by_cases zero : deref rest = 48
  case neg =>
    rcases valid with rfl | ⟨least, most⟩
    · exact ⟨[], rest, 10, .decimal zero, rest, by simp [findBase, zero], rfl⟩
    · exact ⟨[], rest, base, .given least most fun _ found => absurd found zero, rest,
        by simp [findBase, zero, show base ≠ 0 by omega], rfl⟩
  case pos =>
    have cons := cons_of_deref zero (by decide)
    have passed {radix : Nat} (large : 2 ≤ radix) :
        collectDigits radix rest.tail 0 0 = collectDigits radix rest 0 0 := by
      conv => rhs; rw [cons]
      exact (collectDigits_zero large).symm
    cases marked : isX (deref rest.tail) with
    | true =>
      have cons' := @cons_of_deref rest.tail _ rfl fun none => by
        rw [none] at marked
        cases marked
      rw [cons'] at cons
      by_cases prefixes : base = 0 ∨ base = 16
      · obtain ⟨x, behind, rfl⟩ : ∃ x behind, rest = 48 :: x :: behind := ⟨_, _, cons⟩
        refine ⟨_, _, _, .prefixed prefixes marked, behind, ?_, rfl⟩
        have marked' : isX (deref (x :: behind)) = true := marked
        rcases prefixes with rfl | rfl <;> simp [findBase, zero, marked']
      · obtain ⟨nonzero, other⟩ := not_or.mp prefixes
        obtain ⟨least, most⟩ := valid.resolve_left nonzero
        exact ⟨[], rest, base, .given least most fun found => absurd found other, rest,
          by simp [findBase, nonzero, other], rfl⟩
    | false =>
      rcases valid with rfl | ⟨least, most⟩
      · exact ⟨[], rest, 8, .octal zero marked, rest.tail, by simp [findBase, zero, marked],
          passed (by decide)⟩
      · have reading : Reading base rest [] rest base := .given least most fun _ _ => marked
        by_cases hexadecimal : base = 16
        · exact ⟨[], rest, base, reading, rest.tail, by simp [findBase, hexadecimal, zero, marked],
            passed least⟩
        · exact ⟨[], rest, base, reading, rest,
            by simp [findBase, hexadecimal, show base ≠ 0 by omega], rfl⟩

/-- The digits that the code reads, if there are some, stand in the base it has found. -/
theorem Reading.formed (reading : Reading base rest leader body radix)
    (some : body.takeWhile (isDigitOf radix) ≠ []) :
    Radix base leader (body.takeWhile (isDigitOf radix)) radix := by
  have head : (body.takeWhile (isDigitOf radix)).head? = body.head? := by
    cases body with
    | nil => exact absurd rfl some
    | cons c body =>
      by_cases digit : isDigitOf radix c = true
      · rw [List.takeWhile_cons_of_pos digit, List.head?_cons, List.head?_cons]
      · exact absurd (List.takeWhile_cons_of_neg digit) some
  cases reading with
  | prefixed prefixes marked => exact .hexadecimal prefixes marked
  | given least _ _ => exact .given least
  | octal zero _ => exact .octal (by rw [head, cons_of_deref zero (by decide)]; rfl)
  | decimal nonzero =>
    refine .decimal fun zero => nonzero ?_
    rw [head] at zero
    rw [deref, List.headD_eq_head?_getD, zero, Option.getD_some]

theorem length_le_of_digits (digits' : ∀ c ∈ digits, isDigitOf radix c = true)
    (begins : digits <+: rest) : digits.length ≤ (rest.takeWhile (isDigitOf radix)).length := by
  obtain ⟨more, rfl⟩ := begins
  rw [List.takeWhile_append_of_pos digits', List.length_append]
  exact Nat.le_add_right _ _

theorem head?_of_begins (some : digits ≠ []) (begins : digits <+: rest) :
    digits.head? = Option.some (deref rest) := by
  obtain ⟨more, rfl⟩ := begins
  obtain ⟨c, digits, rfl⟩ := List.exists_cons_of_ne_nil some
  rfl

theorem marked_of_begins (begins : [48, x] ++ digits <+: rest) :
    deref rest = 48 ∧ deref rest.tail = x ∧ digits <+: rest.tail.tail := by
  obtain ⟨more, rfl⟩ := begins
  exact ⟨rfl, rfl, List.prefix_append _ _⟩

theorem not_isDigitOf_isX (marked : isX x = true) (small : radix ≤ 16) :
    ¬isDigitOf radix x = true := by
  intro digit
  obtain ⟨v, found, below⟩ := isDigitOf_iff.mp digit
  rcases (Bool.or_eq_true _ _).mp marked with same | same
  · rw [eq_of_beq same] at found
    obtain rfl : 33 = v := Option.some.inj found
    omega
  · rw [eq_of_beq same] at found
    obtain rfl : 33 = v := Option.some.inj found
    omega

theorem length_le_one (marked : isX x = true) (small : radix ≤ 16)
    (digits' : ∀ c ∈ digits, isDigitOf radix c = true) (begins : digits <+: 48 :: x :: rest) :
    digits.length ≤ 1 := by
  refine (length_le_of_digits digits' begins).trans ?_
  by_cases zero : isDigitOf radix 48 = true
  · rw [List.takeWhile_cons_of_pos zero,
      List.takeWhile_cons_of_neg (not_isDigitOf_isX marked small)]
    exact Nat.le_refl 1
  · rw [List.takeWhile_cons_of_neg zero]
    exact Nat.zero_le 1

/-- No text of the form reads on beyond what the code reads, unless that is a leader only: then the
zero of the leader is the longest. -/
theorem Reading.longest (reading : Reading base rest leader body radix) {front : List UInt8}
    {radix' : Nat} (wellFormed : Radix base front digits radix')
    (digits' : ∀ c ∈ digits, isDigitOf radix' c = true) (some : digits ≠ [])
    (begins : front ++ digits <+: rest) :
    front.length + digits.length ≤
      if leader ≠ [] ∧ body.takeWhile (isDigitOf radix) = [] then 1
      else leader.length + (body.takeWhile (isDigitOf radix)).length := by
  cases reading with
  | @prefixed _ x _ prefixes marked =>
    have zeroOnly (leaderless : front = []) (small : radix' ≤ 16) :
        front.length + digits.length ≤
          if [48, x] ≠ [] ∧ body.takeWhile (isDigitOf 16) = [] then 1
          else [48, x].length + (body.takeWhile (isDigitOf 16)).length := by
      rw [leaderless, List.nil_append] at begins
      have single := length_le_one marked small digits' begins
      rw [leaderless, List.length_nil, Nat.zero_add]
      split
      · exact single
      · exact single.trans (Nat.le_add_right_of_le (Nat.le_succ 1))
    cases wellFormed with
    | hexadecimal _ _ =>
      have long := length_le_of_digits digits' (marked_of_begins begins).2.2
      have positive : 0 < digits.length := List.length_pos_iff.mpr some
      rw [List.tail_cons, List.tail_cons] at long
      rw [if_neg fun none => by rw [none.2, List.length_nil] at long; omega]
      exact Nat.add_le_add_left long 2
    | given least => exact zeroOnly rfl (by omega)
    | octal _ => exact zeroOnly rfl (by decide)
    | decimal nonzero => exact absurd (head?_of_begins some begins) nonzero
  | given least _ unmarked =>
    cases wellFormed with
    | hexadecimal prefixes marked =>
      obtain ⟨zero, same, -⟩ := marked_of_begins begins
      rw [← same, unmarked (prefixes.resolve_left (by omega)) zero] at marked
      cases marked
    | given _ => exact Nat.add_le_add_left (length_le_of_digits digits' begins) 0
    | octal _ | decimal _ => omega
  | octal zero unmarked =>
    cases wellFormed with
    | hexadecimal _ marked =>
      rw [← (marked_of_begins begins).2.1, unmarked] at marked
      cases marked
    | given least => omega
    | octal _ => exact Nat.add_le_add_left (length_le_of_digits digits' begins) 0
    | decimal nonzero => exact absurd ((head?_of_begins some begins).trans (by rw [zero])) nonzero
  | decimal nonzero =>
    cases wellFormed with
    | hexadecimal _ _ => exact absurd (marked_of_begins begins).1 nonzero
    | given least => omega
    | octal zero =>
      exact absurd (Option.some.inj ((head?_of_begins some begins).symm.trans zero)) nonzero
    | decimal _ => exact Nat.add_le_add_left (length_le_of_digits digits' begins) 0

end Base

/-! ### The range -/

section Range

variable {subject : Subject} {sign : Int} {val ovfl endptr : Nat}

theorem checkRange_exceeded {isSigned : Bool} (exceeded : ovfl ≠ 0 ∨
      isSigned = true ∧ (sign < 0 ∧ longMinMagnitude < val ∨ 0 < sign ∧ longMax < val)) :
    checkRange isSigned sign val ovfl =
      (if isSigned then if sign < 0 then longMinMagnitude else longMax else ulongMax, true) := by
  unfold checkRange
  refine if_pos ?_
  split
  case isTrue => exact Nat.succ_ne_zero ovfl
  case isFalse within =>
    exact fun none => within ⟨none, exceeded.resolve_left (not_not.mpr none)⟩

theorem checkRange_within {isSigned : Bool} (none : ovfl = 0)
    (within : ¬(isSigned = true ∧ (sign < 0 ∧ longMinMagnitude < val ∨ 0 < sign ∧ longMax < val))) :
    checkRange isSigned sign val ovfl = ((sign * val % 2 ^ 32).toNat, false) := by
  unfold checkRange
  have kept : ¬(ovfl = 0 ∧ isSigned = true ∧
      (sign < 0 ∧ longMinMagnitude < val ∨ 0 < sign ∧ longMax < val)) := fun both => within both.2
  simp only [if_neg kept]
  exact if_neg (not_not.mpr none)

theorem Subject.denotesLong
    (reads : Reads subject.radix ulongMax (digitValues subject.digits) val (ovfl ≠ 0))
    (signed : sign = if subject.sign = [45] then -1 else 1) :
    subject.DenotesLong
      ⟨toLong (checkRange true sign val ovfl).1, endptr, (checkRange true sign val ovfl).2⟩ := by
  have same : ovfl = 0 → val = subject.magnitude := fun none => reads.exact (not_not.mpr none)
  have fits (small : subject.magnitude < 2 ^ 32) : ovfl = 0 :=
    not_not.mp fun overflows =>
      absurd (reads.found.mp overflows) (Nat.not_lt.mpr (Nat.le_sub_one_of_lt small))
  unfold DenotesLong
  by_cases minus : subject.sign = [45]
  · simp only [if_pos minus] at signed ⊢
    by_cases large : 2 ^ 31 < subject.magnitude
    · rw [if_neg (by omega), checkRange_exceeded, signed]
      · exact ⟨by decide, rfl⟩
      · rw [signed]
        by_cases none : ovfl = 0
        · exact .inr ⟨rfl, .inl ⟨by decide, same none ▸ large⟩⟩
        · exact .inl none
    · have none := fits (by omega)
      rw [if_pos (by omega), checkRange_within none, signed, same none]
      · refine ⟨?_, rfl⟩
        unfold toLong
        split <;> omega
      · rw [signed, same none]
        exact fun beyond => beyond.2.elim (fun below => large below.2) fun above => by omega
  · simp only [if_neg minus] at signed ⊢
    by_cases large : 2 ^ 31 ≤ subject.magnitude
    · rw [if_neg (by omega), checkRange_exceeded, signed]
      · exact ⟨by decide, rfl⟩
      · rw [signed]
        by_cases none : ovfl = 0
        · exact .inr ⟨rfl, .inr ⟨by decide, same none ▸ large⟩⟩
        · exact .inl none
    · have none := fits (by omega)
      rw [if_pos (by omega), checkRange_within none, signed, same none]
      · refine ⟨?_, rfl⟩
        unfold toLong
        split <;> omega
      · rw [signed, same none]
        exact fun beyond => beyond.2.elim (fun below => by omega) fun above => large above.2

/-- `strtoul` returns the number, negated if it has a minus sign, or the limit. -/
theorem Subject.denotesUnsigned
    (reads : Reads subject.radix ulongMax (digitValues subject.digits) val (ovfl ≠ 0))
    (signed : sign = if subject.sign = [45] then -1 else 1) :
    subject.DenotesUnsigned
      ⟨(checkRange false sign val ovfl).1, endptr, (checkRange false sign val ovfl).2⟩ := by
  have found : ovfl ≠ 0 ↔ ¬subject.magnitude ≤ 2 ^ 32 - 1 := reads.found.trans Nat.not_le.symm
  have same : ovfl = 0 → val = subject.magnitude := fun none => reads.exact (not_not.mpr none)
  unfold DenotesUnsigned
  by_cases small : subject.magnitude ≤ 2 ^ 32 - 1
  · have none : ovfl = 0 := not_not.mp fun overflows => found.mp overflows small
    simp only [if_pos small]
    rw [checkRange_within none (by simp), signed, same none]
    refine ⟨?_, rfl⟩
    split <;> omega
  · simp only [if_neg small]
    rw [checkRange_exceeded (.inl (found.mpr small))]
    exact ⟨rfl, rfl⟩

end Range

/-! ### Conversions -/

section Conversions

variable {blank : Int → Bool} {base radix val ovfl : Nat} {str leader body : List UInt8}
  {answer : Answer}

theorem string2long_eq (isSigned : Bool) : string2long blank str base isSigned =
    let found := findBase base (afterSign blank str)
    let collected := collectDigits found.1 found.2 0 0
    let range := checkRange isSigned (if deref (unblanked blank str) = 45 then -1 else 1)
      collected.1 collected.2.1
    { value := range.1
      endptr :=
        if (afterSign blank str).length = collected.2.2.length then 0
        else str.length - collected.2.2.length
      erange := range.2 } :=
  rfl

/-- What `string2long` returns is decided by the reading that it has found. -/
theorem exists_scan (blank : Int → Bool) (str : List UInt8)
    (valid : base = 0 ∨ 2 ≤ base ∧ base ≤ 36) :
    ∃ leader body radix val ovfl, Reading base (afterSign blank str) leader body radix ∧
      Reads radix ulongMax (Subject.digitValues (body.takeWhile (isDigitOf radix))) val (ovfl ≠ 0) ∧
      ∀ isSigned, string2long blank str base isSigned =
        let range := checkRange isSigned (if deref (unblanked blank str) = 45 then -1 else 1) val ovfl
        { value := range.1
          endptr :=
            if (afterSign blank str).length = (body.dropWhile (isDigitOf radix)).length then 0
            else str.length - (body.dropWhile (isDigitOf radix)).length
          erange := range.2 } := by
  obtain ⟨leader, body, radix, reading, nptr, found, same⟩ :=
    exists_reading valid (afterSign blank str)
  obtain ⟨large, small⟩ := reading.radix_range
  obtain ⟨val, ovfl, collected, reads⟩ := @collectDigits_reads _ _ _ [] body small
    (by omega) (Reads.nil fun some => some rfl)
  refine ⟨leader, body, radix, val, ovfl, reading, reads, fun isSigned => ?_⟩
  rw [string2long_eq, found]
  simp only [same, collected]

theorem Reading.bare_iff (reading : Reading base (afterSign blank str) leader body radix) :
    BarePrefix blank base str ↔ leader ≠ [] ∧ body.takeWhile (isDigitOf radix) = [] := by
  have no_digit : isDigitOf 16 (deref []) = false := rfl
  have stops (behind : List UInt8) : behind.takeWhile (isDigitOf 16) = [] ↔
      isDigitOf 16 (deref behind) = false := by
    cases behind with
    | nil => exact ⟨fun _ => no_digit, fun _ => rfl⟩
    | cons c behind =>
      by_cases digit : isDigitOf 16 c = true
      · rw [List.takeWhile_cons_of_pos digit]
        exact ⟨fun none => absurd none (by simp), fun other => absurd (other.symm.trans digit) (by simp)⟩
      · rw [List.takeWhile_cons_of_neg digit]
        exact ⟨fun _ => Bool.not_eq_true _ |>.mp digit, fun _ => rfl⟩
  generalize found : afterSign blank str = rest at reading
  unfold BarePrefix
  rw [found]
  cases reading with
  | @prefixed _ x _ prefixes marked =>
    rw [stops]
    constructor
    · rintro ⟨-, y, behind, same, -, bare⟩
      obtain ⟨rfl, rfl⟩ : x = y ∧ body = behind := by simpa using same
      exact ⟨by simp, bare⟩
    · exact fun bare => ⟨prefixes, x, body, rfl, marked, bare.2⟩
  | given least _ unmarked =>
    refine ⟨?_, fun bare => absurd rfl bare.1⟩
    rintro ⟨prefixes, x, behind, rfl, marked, -⟩
    have unmarked' : isX x = false := unmarked (prefixes.resolve_left (by omega)) rfl
    exact absurd (unmarked'.symm.trans marked) (by simp)
  | octal zero unmarked =>
    refine ⟨?_, fun bare => absurd rfl bare.1⟩
    rintro ⟨-, x, behind, rfl, marked, -⟩
    exact absurd (unmarked.symm.trans marked) (by simp)
  | decimal nonzero =>
    refine ⟨?_, fun bare => absurd rfl bare.1⟩
    rintro ⟨-, x, behind, rfl, -, -⟩
    exact absurd rfl nonzero

/-- The answer of a call that goes on from a reading is right unless only a leader was read. -/
theorem Reading.converts_iff (reading : Reading base (afterSign blank str) leader body radix)
    (reads : Reads radix ulongMax (Subject.digitValues (body.takeWhile (isDigitOf radix))) val
      (ovfl ≠ 0))
    {denotes : Subject → Answer → Prop}
    (endptr : answer.endptr =
      if (afterSign blank str).length = (body.dropWhile (isDigitOf radix)).length then 0
      else str.length - (body.dropWhile (isDigitOf radix)).length)
    (nothing : val = 0 → ovfl = 0 → answer = ⟨0, answer.endptr, false⟩)
    (right : ∀ subject : Subject,
      Reads subject.radix ulongMax (Subject.digitValues subject.digits) val (ovfl ≠ 0) →
      (subject.sign = [45] ↔ deref (unblanked blank str) = 45) → denotes subject answer) :
    Converts blank base str denotes answer ↔ ¬BarePrefix blank base str := by
  rw [reading.bare_iff]
  have sizes : leader.length + (body.takeWhile (isDigitOf radix)).length +
      (body.dropWhile (isDigitOf radix)).length = (afterSign blank str).length := by
    rw [← reading.append, List.length_append, Nat.add_assoc, ← List.length_append,
      List.takeWhile_append_dropWhile]
  obtain ⟨blanks, sign, whole, allBlanks, signs, minus⟩ := exists_sign blank str
  have size : str.length = blanks.length + sign.length + (afterSign blank str).length := by
    conv => lhs; rw [whole]
    rw [List.length_append, List.length_append, Nat.add_assoc]
  have most {other : Subject} (wellFormed : other.WellFormed blank base)
      (begins : other.text <+: str) : ∃ front, other.text.length = blanks.length + sign.length + front ∧
        0 < front ∧ front ≤
          if leader ≠ [] ∧ body.takeWhile (isDigitOf radix) = [] then 1
          else leader.length + (body.takeWhile (isDigitOf radix)).length := by
    obtain ⟨number, length, -⟩ := wellFormed.afterSign begins
    refine ⟨_, ?_, ?_, reading.longest wellFormed.radix wellFormed.digits wellFormed.some number⟩
    · simp only [Subject.text, List.length_append]
      omega
    · exact Nat.add_pos_right _ (List.length_pos_iff.mpr wellFormed.some)
  by_cases none : body.takeWhile (isDigitOf radix) = []
  · rw [none, List.length_nil, Nat.add_zero] at sizes
    by_cases leaderless : leader = []
    · -- nothing is read, and there is nothing to be read
      refine iff_of_true (.inr ⟨fun other wellFormed begins => ?_, ?_⟩) fun bare => bare.1 leaderless
      · obtain ⟨front, -, positive, atMost⟩ := most wellFormed begins
        rw [if_neg fun bare => bare.1 leaderless, none, leaderless] at atMost
        exact absurd atMost (Nat.not_le.mpr positive)
      · have zero : ovfl = 0 := not_not.mp fun some => by
          have := reads.found.mp some
          rw [none] at this
          exact absurd this (Nat.not_lt_zero _)
        have val' : val = 0 := by
          have := reads.exact (not_not.mpr zero)
          rwa [none] at this
        rw [nothing val' zero, endptr, if_pos]
        rw [← sizes, leaderless, List.length_nil, Nat.zero_add]
    · -- the end pointer is behind the leader
      have long : 2 ≤ leader.length := reading.two_le leaderless
      rw [if_neg (by omega)] at endptr
      refine iff_of_false ?_ (not_not.mpr ⟨leaderless, none⟩)
      rintro (⟨subject, longest, ends, -⟩ | ⟨-, same⟩)
      · obtain ⟨front, length, -, atMost⟩ := most longest.wellFormed longest.begins
        rw [if_pos ⟨leaderless, none⟩] at atMost
        omega
      · rw [same] at endptr
        change 0 = _ at endptr
        omega
  · have positive := List.length_pos_iff.mpr none
    rw [if_neg (by omega)] at endptr
    refine iff_of_true (.inl ⟨⟨blanks, sign, leader, body.takeWhile (isDigitOf radix), radix⟩,
      ⟨⟨allBlanks, signs, reading.formed none, ?_, none⟩, ?_, ?_⟩, ?_, ?_⟩) fun bare => none bare.2
    · exact fun c member => List.mem_takeWhile_imp member
    · refine ⟨body.dropWhile (isDigitOf radix), ?_⟩
      conv => rhs; rw [whole, ← reading.append]
      simp only [Subject.text, List.append_assoc, List.takeWhile_append_dropWhile]
    · intro other wellFormed begins
      obtain ⟨front, length, -, atMost⟩ := most wellFormed begins
      rw [if_neg fun bare => none bare.2] at atMost
      simp only [Subject.text, List.length_append] at length ⊢
      omega
    · simp only [Subject.text, List.length_append]
      omega
    · exact right _ reads minus

theorem strtol_converts_iff (valid : base = 0 ∨ 2 ≤ base ∧ base ≤ 36) :
    Converts blank base str Subject.DenotesLong (strtol blank str base) ↔
      ¬BarePrefix blank base str := by
  obtain ⟨leader, body, radix, val, ovfl, reading, reads, scanned⟩ := exists_scan blank str valid
  refine reading.converts_iff reads ?_ ?_ fun subject reads minus => ?_
  · rw [strtol, scanned]
  · rintro rfl rfl
    rw [strtol, scanned]
    split <;> rfl
  · rw [strtol, scanned]
    exact subject.denotesLong reads (by simp only [minus])

theorem strtoul_converts_iff (valid : base = 0 ∨ 2 ≤ base ∧ base ≤ 36) :
    Converts blank base str Subject.DenotesUnsigned (strtoul blank str base) ↔
      ¬BarePrefix blank base str := by
  obtain ⟨leader, body, radix, val, ovfl, reading, reads, scanned⟩ := exists_scan blank str valid
  refine reading.converts_iff reads ?_ ?_ fun subject reads minus => ?_
  · rw [strtoul, scanned]
  · rintro rfl rfl
    rw [strtoul, scanned]
    split <;> rfl
  · rw [strtoul, scanned]
    exact subject.denotesUnsigned reads (by simp only [minus])

/-- `strtol` and `strtoul` convert the longest numeral at the start of the string, with the value
that it denotes or the limit, unless a leader is bare. -/
theorem strtol_strtoul_right_iff (before : Int → Bool) (base : Nat)
    (valid : base = 0 ∨ 2 ≤ base ∧ base ≤ 36) (str : List UInt8) :
    (Converts before base str Subject.DenotesLong (strtol before str base) ↔
        ¬BarePrefix before base str) ∧
      (Converts before base str Subject.DenotesUnsigned (strtoul before str base) ↔
        ¬BarePrefix before base str) :=
  ⟨strtol_converts_iff valid, strtoul_converts_iff valid⟩

/-- Four characters of `" -42x"` are converted. -/
theorem strtol_strtoul_right_decimal :
    Converts (fun _ => false) 0 [32, 45, 52, 50, 120] Subject.DenotesLong
        (strtol (fun _ => false) [32, 45, 52, 50, 120] 0) ∧
      strtol (fun _ => false) [32, 45, 52, 50, 120] 0 = ⟨-42, 4, false⟩ := by
  refine ⟨(strtol_strtoul_right_iff _ 0 (.inl rfl) _).1.mpr ?_, by decide⟩
  rintro ⟨-, x, behind, same, -⟩
  cases same

/-- `strtol("0xg", &end, 16)` moves `end` behind the `x`, though only the zero is a numeral. -/
theorem strtol_bare_prefix :
    ¬∀ (before : Int → Bool) (base : Nat), base = 0 ∨ 2 ≤ base ∧ base ≤ 36 → ∀ str,
      Converts before base str Subject.DenotesLong (strtol before str base) ∧
        Converts before base str Subject.DenotesUnsigned (strtoul before str base) := by
  intro right
  have converts := (right (fun _ => false) 16 (.inr (by decide)) [48, 120, 103]).1
  rw [strtol_converts_iff (.inr (by decide))] at converts
  exact converts ⟨.inr rfl, 120, [103], by decide, by decide, by decide⟩

end Conversions

end Minix.Ansi
