/-
This file models the printing of integers by `_doprnt` (`lib/stdio/doprnt.c`), with `gnum`,
`o_print` and `_i_compute` (`lib/stdio/icompute.c`).

A format is the list of the characters in front of its zero, and an argument is a machine word: an
`int` and a `long` are as long as each other. The stream takes every character. The conversions `c`,
`s`, `n`, `r` and those of floating numbers are left out. Where a format has one of these, ends
inside a conversion or lacks an argument, and where something is stored behind `buf`, the result is
`none`.
-/

import Mathlib.Data.Nat.Digits.Defs

namespace Minix.Stdio.Doprnt

/-! ### Conversion specifications -/

/-- What an `int` keeps of a number. -/
def int32 (x : Int) : Int := x.bmod (2 ^ 32)

/-- The flags that a conversion of integers looks at. -/
structure Flags where
  ljust : Bool := false
  sign : Bool := false
  space : Bool := false
  alt : Bool := false
  zerofill : Bool := false
  short : Bool := false

/-- A character of the first switch. -/
def setFlag (c : Char) (flags : Flags) : Option Flags :=
  match c with
  | '-' => some { flags with ljust := true }
  | '+' => some { flags with sign := true }
  | ' ' => some { flags with space := true }
  | '#' => some { flags with alt := true }
  | '0' => some { flags with zerofill := true }
  | _ => none

/-- The loop that collects the flags. -/
def collectFlags : List Char → Flags → Flags × List Char
  | [], flags => (flags, [])
  | c :: fmt, flags =>
    match setFlag c flags with
    | some flags => collectFlags fmt flags
    | none => (flags, c :: fmt)

/-- The loop of `gnum`. -/
def gnumLoop : List Char → Int → Int × List Char
  | [], i => (i, [])
  | c :: f, i =>
    if '0' ≤ c ∧ c ≤ '9' then gnumLoop f (int32 (i * 10 + (c.toNat - '0'.toNat : Nat)))
    else (i, c :: f)

def gnum (f : List Char) (ap : List (BitVec 32)) : Option (Int × List Char × List (BitVec 32)) :=
  match f with
  | '*' :: f => ap.head?.map fun arg => (arg.toInt, f, ap.tail)
  | f => some ((gnumLoop f 0).1, (gnumLoop f 0).2, ap)

/-- The precision, which is there when `FL_PRECSPEC` is set. -/
def gprecision (fmt : List Char) (ap : List (BitVec 32)) :
    Option (Option Nat × List Char × List (BitVec 32)) :=
  match fmt with
  | '.' :: fmt => (gnum fmt ap).map fun (precision, rest) =>
      (if 0 ≤ precision then some precision.toNat else none, rest)
  | fmt => some (none, fmt, ap)

/-- The length modifier. -/
def modify (flags : Flags) : List Char → Flags × List Char
  | 'h' :: fmt => ({ flags with short := true }, fmt)
  | 'l' :: fmt => (flags, fmt)
  | 'L' :: fmt => (flags, fmt)
  | fmt => (flags, fmt)

/-- A conversion specification that has been read: the width is not negative, unless its negation
overflows. Without `FL_WIDTHSPEC` it is zero. -/
structure Spec where
  flags : Flags
  width : Int
  precision : Option Nat
  c : Char

/-- Read what stands behind a `%`. -/
def readSpec (fmt : List Char) (ap : List (BitVec 32)) :
    Option (Spec × List Char × List (BitVec 32)) := do
  let (flags, fmt) := collectFlags fmt {}
  let (width, fmt, ap) ← gnum fmt ap
  let (precision, fmt, ap) ← gprecision fmt ap
  let flags := if width < 0 then { flags with ljust := true } else flags
  let width := if width < 0 then int32 (-width) else width
  let flags := if flags.sign then { flags with space := false } else flags
  let flags := if flags.ljust then { flags with zerofill := false } else flags
  let (flags, fmt) := modify flags fmt
  let c ← fmt.head?
  some (⟨flags, width, precision, c⟩, fmt.tail, ap)

/-! ### Numbers -/

/-- `_i_compute`, for a base that is one. -/
def iCompute (base : { base : Nat // 2 ≤ base }) (val nrdigits : Nat) : List Char :=
  (if val / base ≠ 0 ∨ 1 < nrdigits then iCompute base (val / base) (nrdigits - 1) else []) ++
    [(val % base).digitChar]
termination_by val + nrdigits
decreasing_by
  have shorter := Nat.div_le_self val base
  by_cases zero : val = 0
  · subst zero
    rw [Nat.zero_div] at *
    omega
  · have := Nat.div_lt_self (Nat.pos_of_ne_zero zero) base.2
    omega

def base (c : Char) : { base : Nat // 2 ≤ base } :=
  if c = 'b' then ⟨2, by decide⟩
  else if c = 'o' then ⟨8, by decide⟩
  else if c = 'x' ∨ c = 'X' ∨ c = 'p' then ⟨16, by decide⟩
  else ⟨10, by decide⟩

/-- The value of an argument, as a `long` or an `unsigned long`. -/
def argument (short isSigned : Bool) (arg : BitVec 32) : BitVec 32 :=
  if short then
    if isSigned then (arg.setWidth 16).signExtend 32 else (arg.setWidth 16).setWidth 32
  else arg

/-- What `o_print` stores from `s` on. -/
def oPrint (flags : Flags) (c : Char) (precision : Nat) (isSigned : Bool) (arg : BitVec 32) :
    List Char :=
  let val := argument flags.short isSigned arg
  let negative := isSigned && val.msb
  let sign :=
    if negative then ['-']
    else if isSigned && flags.sign then ['+']
    else if isSigned && flags.space then [' ']
    else []
  let unsignedVal := (if negative then -val else val).toNat
  let s := sign ++ if flags.alt && c == 'o' then ['0'] else []
  if unsignedVal = 0 ∧ precision = 0 then s
  else
    let s := s ++
      if unsignedVal ≠ 0 ∧ (flags.alt ∧ (c = 'x' ∨ c = 'X') ∨ c = 'p') then
        ['0', if c = 'X' then 'X' else 'x']
      else []
    let s := s ++ iCompute (base c) unsignedVal precision
    if c = 'X' then s.map Char.toUpper else s

/-! ### The loop -/

/-- `sizeof(buf)` -/
def bufSize : Nat := 1025

/-- The contents of `buf` after something was stored at its beginning. -/
def store (s : List Char) (buf : Nat → Char) (i : Nat) : Char := s.getD i (buf i)

/-- `n` characters of `buf` from a place on. -/
def chars (buf : Nat → Char) (s1 n : Nat) : List Char := (List.range n).map fun i => buf (s1 + i)

/-- How many characters are emitted in front of the fill characters. -/
def front (flags : Flags) (isSigned : Bool) (c : Char) (buf : Nat → Char) : Nat :=
  let betweenFill := flags.zerofill && ((c == 'x' || c == 'X') && flags.alt || c == 'p' ||
    isSigned && (buf 0 == '+' || buf 0 == '-' || buf 0 == ' '))
  if betweenFill then if isSigned then 1 else 2 else 0

/-- Emit the first `j` characters of `buf`, filled up to the width. The result is what is emitted,
and what is added to `nrchars`. -/
def fill (flags : Flags) (front : Nat) (width : Int) (buf : Nat → Char) (j : Nat) :
    List Char × Int :=
  let zfill := if flags.zerofill then '0' else ' '
  let i := int32 (width - j)
  if 0 < i ∧ flags.ljust = false then
    -- `--j >= 0` fails at once when more has been emitted than was stored
    (chars buf 0 front ++ List.replicate i.toNat zfill ++ chars buf front (j - front),
      i + front + (j - front))
  else (chars buf 0 j ++ List.replicate (int32 (i - 1) + 1).toNat zfill, j + max i 0)

/-- The variables of `_doprnt`, and what has been emitted. -/
structure State where
  fmt : List Char
  ap : List (BitVec 32)
  buf : Nat → Char
  out : List Char := []
  nrchars : Int := 0

/-- A conversion of an integer. -/
def convert (s : State) (spec : Spec) (isSigned : Bool) : Option State :=
  let flags := { spec.flags with
    zerofill := spec.flags.zerofill && (spec.precision.isNone || spec.c == 'p') }
  s.ap.head?.bind fun arg =>
    let stored := oPrint flags spec.c (spec.precision.getD 1) isSigned arg
    let buf := store stored s.buf
    let (text, count) :=
      fill flags (front flags isSigned spec.c buf) spec.width buf stored.length
    if bufSize < stored.length then none
    else
      some { s with
        ap := s.ap.tail, buf, out := s.out ++ text, nrchars := int32 (s.nrchars + count) }

def emit (s : State) (c : Char) : State :=
  { s with out := s.out ++ [c], nrchars := int32 (s.nrchars + 1) }

/-- A turn of the loop, for the next character and what follows it. -/
def turn (s : State) (c : Char) (fmt : List Char) : Option State :=
  if c ≠ '%' then some (emit { s with fmt } c)
  else
    (readSpec fmt s.ap).bind fun (spec, fmt, ap) =>
      let s := { s with fmt, ap }
      if spec.c ∈ ['p', 'b', 'o', 'u', 'x', 'X'] then convert s spec false
      else if spec.c ∈ ['d', 'i'] then convert s spec true
      else if spec.c ∈ ['n', 's', 'c', 'G', 'g', 'f', 'E', 'e', 'r'] then none
      else some (emit s spec.c)

/-- Every turn takes a character of the format at least. -/
def loop : Nat → State → Option State
  | 0, s => if s.fmt = [] then some s else none
  | fuel + 1, s =>
    match s.fmt with
    | [] => some s
    | c :: fmt => (turn s c fmt).bind (loop fuel)

/-- What `_doprnt` emits and returns, when it finds `buf` as it is. -/
def doprnt (buf : Nat → Char) (fmt : List Char) (ap : List (BitVec 32)) :
    Option (List Char × Int) :=
  (loop fmt.length { fmt, ap, buf }).map fun s => (s.out, s.nrchars)

end Minix.Stdio.Doprnt
