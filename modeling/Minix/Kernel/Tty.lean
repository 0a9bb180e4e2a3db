/-
This file translates output processing from `kernel/tty.c`, and the attributes of a terminal that
the device drivers look at.

Output is processed in the circular buffer of the device: a newline becomes two characters, and a
tab up to eight. Processing stops there, because the next character in the buffer is overwritten.
-/

import Minix.Library.Ring

namespace Minix.Kernel

open Ring

/-! ### Attributes -/

def ixon : BitVec 16 := 0x0200

def opost : BitVec 16 := 0x0001

def onlcr : BitVec 16 := 0x0002

def xtabs : BitVec 16 := 0x0004

def clocal : BitVec 16 := 0x0001

def posixVdisable : UInt8 := 0xFF

def b0 : BitVec 16 := 0

/-- The attributes of a terminal, and what a driver changes in its `tty` structure. -/
structure Tty where
  cIflag : BitVec 16
  cOflag : BitVec 16
  cCflag : BitVec 16
  cLflag : BitVec 16
  cOspeed : BitVec 16
  vstop : UInt8
  inhibited : Bool := false
  outleft : Int := 0
  outcum : Int := 0
  position : Int := 0
  reprint : Bool := false
  events : Bool := false
  replies : List Int := []
deriving DecidableEq

/-! ### Output processing -/

/-- Output processing at work: the buffer and the place in it, the room left and the column. -/
structure Output where
  buf : Nat → UInt8
  bpos : Nat
  oct : Int
  pos : Int

/-- The distance to the next tab stop. -/
def tabLength (pos : Int) : Nat := 8 - (pos % 8).toNat

/-- The column after a character that is one character of output. -/
def column (pos : Int) (ch : UInt8) : Int :=
  if ch = 7 ∨ ch = 10 then pos
  else if ch = 8 then pos - 1
  else if ch = 13 then 0
  else if ch = 9 then pos + tabLength pos
  else pos + 1

/-- Process `ict` characters. The number of characters left is returned. -/
def outProcess (oflag : BitVec 16) (size : Nat) : Nat → Output → Nat × Output
  | 0, out => (0, out)
  | ict + 1, out =>
    if out.buf out.bpos = 10 ∧ oflag &&& (opost ||| onlcr) = opost ||| onlcr then
      if 2 ≤ out.oct then
        (ict, { out with buf := fill size out.buf out.bpos [13, 10], oct := out.oct - 2, pos := 0 })
      else (ict + 1, out)
    else if out.buf out.bpos = 9 ∧ oflag &&& (opost ||| xtabs) = opost ||| xtabs then
      let tablen := tabLength out.pos
      if tablen ≤ out.oct then
        (ict, { out with
          buf := fill size out.buf out.bpos (List.replicate tablen 32)
          oct := out.oct - tablen
          pos := out.pos + tablen })
      else (ict + 1, out)
    else outProcess oflag size ict { out with
      bpos := next size out.bpos
      oct := out.oct - 1
      pos := column out.pos (out.buf out.bpos) }

/-- What output processing has done: as many cells as it has used are written, there was room for
them, and there are none exactly when no character was processed. -/
structure Processed (size ict : Nat) (out : Output) (left : Nat) (out' : Output) : Prop where
  left_le : left ≤ ict
  room : 0 ≤ out'.oct
  none_iff : out.oct - out'.oct = 0 ↔ left = ict
  used : 0 ≤ out.oct - out'.oct
  ahead : Ahead size out.bpos (out.oct - out'.oct).toNat out.buf out'.buf

theorem tabLength_pos (pos : Int) : 0 < tabLength pos := by
  unfold tabLength
  omega

theorem outProcess_processed {oflag : BitVec 16} {size ict : Nat} {out : Output}
    (inside : out.bpos < size) (room : ict ≤ out.oct) :
    Processed size ict out (outProcess oflag size ict out).1 (outProcess oflag size ict out).2 := by
  induction ict generalizing out with
  | zero => exact ⟨le_rfl, room, by simp [outProcess], by simp [outProcess], .refl⟩
  | succ ict inductionHypothesis =>
    have stopped : Processed size (ict + 1) out (ict + 1) out :=
      ⟨le_rfl, by omega, by simp, by simp, .refl⟩
    have expanded (values : List UInt8) (nonempty : 0 < values.length)
        (fits : (values.length : Int) ≤ out.oct) (pos : Int) :
        Processed size (ict + 1) out ict { out with
          buf := fill size out.buf out.bpos values, oct := out.oct - values.length, pos } := by
      refine ⟨Nat.le_succ ict, by dsimp only; omega, by dsimp only; omega, by dsimp only; omega, ?_⟩
      exact (ahead_fill inside).mono (by dsimp only; omega)
    unfold outProcess
    split
    · split
      · rename_i fits
        exact expanded [13, 10] (by decide) fits 0
      · exact stopped
    · split
      · dsimp only
        split
        · rename_i fits
          have expanded := expanded (List.replicate (tabLength out.pos) 32)
          rw [List.length_replicate] at expanded
          exact expanded (tabLength_pos _) fits _
        · exact stopped
      · -- One character is one character of output, and the rest is processed after it.
        obtain ⟨leftLe, room', noneIff, used, ahead⟩ := @inductionHypothesis { out with
          bpos := next size out.bpos
          oct := out.oct - 1
          pos := column out.pos (out.buf out.bpos) } (next_lt inside) (by dsimp only; omega)
        dsimp only at noneIff used ahead
        refine ⟨by omega, room', by omega, by omega, ?_⟩
        exact (ahead.of_next inside).mono (by omega)

end Minix.Kernel
