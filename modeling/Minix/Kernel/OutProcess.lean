/-
This file proves that output processing writes the expansion of what it has processed, and nothing
else.

The expansion is what the characters come to on a terminal: a newline becomes a carriage return and
a newline, and a tab becomes spaces up to the next tab stop, as the flags say. It depends on the
column, which is carried along modulo the distance of the tab stops.
-/

import Minix.Kernel.Tty

namespace Minix.Kernel

open Ring

/-! ### Expansion -/

/-- The characters that a character is expanded to, and the column after it. -/
def expandOne (oflag : BitVec 16) (pos : Int) (ch : UInt8) : List UInt8 × Int :=
  if ch = 10 ∧ oflag &&& (opost ||| onlcr) = opost ||| onlcr then ([13, 10], 0)
  else if ch = 9 ∧ oflag &&& (opost ||| xtabs) = opost ||| xtabs then
    (List.replicate (tabLength pos) 32, pos + tabLength pos)
  else ([ch], column pos ch)

/-- The expansion of a text from a column on. -/
def expand (oflag : BitVec 16) : Int → List UInt8 → List UInt8
  | _, [] => []
  | pos, ch :: rest => (expandOne oflag pos ch).1 ++ expand oflag (expandOne oflag pos ch).2 rest

/-- The column after a text. -/
def columnAfter (oflag : BitVec 16) (pos : Int) (text : List UInt8) : Int :=
  text.foldl (fun pos ch => (expandOne oflag pos ch).2) pos

/-! ### A whole call -/

/-- What `out_process` leaves behind: the buffer, the column, and the numbers of characters that have
been used. -/
structure OutProcessed where
  buf : Nat → UInt8
  position : Int
  icount : Nat
  ocount : Int

/-- `out_process`, for a buffer of some size from `bstart` to `bend`. -/
def outProcessed (oflag : BitVec 16) (size : Nat) (buf : Nat → UInt8) (bpos icount : Nat)
    (ocount position : Int) : OutProcessed :=
  let (ict, out) := outProcess oflag size icount ⟨buf, bpos, ocount, position⟩
  ⟨out.buf, out.pos % 8, icount - ict, ocount - out.oct⟩

section Expands

variable {oflag : BitVec 16} {size ict : Nat} {out : Output}

/-- The characters that have been processed, and what they have become. -/
structure Expands (oflag : BitVec 16) (size ict : Nat) (out : Output) (left : Nat) (out' : Output) :
    Prop where
  output : contents size out'.buf out.bpos (out.oct - out'.oct).toNat =
    expand oflag out.pos (contents size out.buf out.bpos (ict - left))
  pos : out'.pos = columnAfter oflag out.pos (contents size out.buf out.bpos (ict - left))
  beyond : ∀ i, size ≤ i → out'.buf i = out.buf i

theorem expands_stopped : Expands oflag size ict out ict out := by
  refine ⟨?_, ?_, fun _ _ => rfl⟩
  · rw [Int.sub_self, Nat.sub_self]
    rfl
  · rw [Nat.sub_self]
    rfl

section

variable (inside : out.bpos < size)
include inside

theorem expands_one (space : out.oct ≤ size) {values : List UInt8} {pos : Int}
    (one : expandOne oflag out.pos (out.buf out.bpos) = (values, pos))
    (fits : (values.length : Int) ≤ out.oct) :
    Expands oflag size (ict + 1) out ict { out with
      buf := fill size out.buf out.bpos values, oct := out.oct - values.length, pos } := by
  have first : contents size out.buf out.bpos (ict + 1 - ict) = [out.buf out.bpos] := by
    rw [Nat.add_sub_cancel_left, contents_pop inside]
    rfl
  have length : (out.oct - (out.oct - values.length)).toNat = values.length := by omega
  refine ⟨?_, ?_, fun i beyond => fill_beyond inside beyond⟩ <;> dsimp only
  · rw [first, length, contents_fill inside (by omega), expand, one, expand, List.append_nil]
  · rw [first]
    exact (congrArg Prod.snd one).symm

/-- `out_process` expands the characters that it takes. -/
theorem outProcess_expands (room : ict ≤ out.oct) (space : out.oct ≤ size) :
    Expands oflag size ict out (outProcess oflag size ict out).1 (outProcess oflag size ict out).2 := by
  induction ict generalizing out with
  | zero => exact expands_stopped
  | succ ict inductionHypothesis =>
    unfold outProcess
    split
    case isTrue newline =>
      split
      case isTrue fits =>
        exact expands_one inside space (if_pos newline) fits
      case isFalse full => exact expands_stopped
    case isFalse other =>
      split
      case isTrue tab =>
        dsimp only
        split
        case isTrue fits =>
          have spaces := @expands_one oflag size ict out inside space _ _
            ((if_neg other).trans (if_pos tab))
          rw [List.length_replicate] at spaces
          exact spaces fits
        case isFalse full => exact expands_stopped
      case isFalse plain =>
        -- The rest of the output does not come around to this character.
        have one : expandOne oflag out.pos (out.buf out.bpos) =
            ([out.buf out.bpos], column out.pos (out.buf out.bpos)) :=
          (if_neg other).trans (if_neg plain)
        have rest : (ict : Int) ≤ out.oct - 1 := by omega
        obtain ⟨leftLe, room', -, used, ahead⟩ := @outProcess_processed oflag size ict { out with
          bpos := next size out.bpos
          oct := out.oct - 1
          pos := column out.pos (out.buf out.bpos) } (next_lt inside) rest
        obtain ⟨output, pos, beyond⟩ := @inductionHypothesis { out with
          bpos := next size out.bpos
          oct := out.oct - 1
          pos := column out.pos (out.buf out.bpos) } (next_lt inside) rest (by dsimp only; omega)
        revert leftLe room' used ahead output pos beyond
        generalize outProcess oflag size ict _ = result
        intro leftLe room' used ahead output pos beyond
        dsimp only at used ahead output pos beyond
        have here := ahead.here inside (by omega)
        have text : contents size out.buf out.bpos (ict + 1 - result.1) =
            out.buf out.bpos :: contents size out.buf (next size out.bpos) (ict - result.1) := by
          rw [Nat.succ_sub leftLe, contents_pop inside]
        have length : (out.oct - result.2.oct).toNat = (out.oct - 1 - result.2.oct).toNat + 1 := by
          omega
        refine ⟨?_, ?_, beyond⟩
        · rw [length, contents_pop inside, here, output, text, expand, one]
          rfl
        · rw [pos, text, columnAfter, columnAfter, List.foldl_cons, one]

theorem outProcess_progress (some : 0 < ict) (room : ict ≤ out.oct) (tab : 8 ≤ out.oct) :
    (outProcess oflag size ict out).1 < ict := by
  obtain ⟨ict, rfl⟩ := Nat.exists_eq_add_of_lt some
  rw [Nat.zero_add] at room ⊢
  unfold outProcess
  have short : (tabLength out.pos : Int) ≤ out.oct := by
    unfold tabLength
    omega
  rw [if_pos (show 2 ≤ out.oct by omega), if_pos short]
  split
  case isTrue newline => exact Nat.lt_succ_self ict
  case isFalse other =>
    split
    case isTrue tab => exact Nat.lt_succ_self ict
    case isFalse plain =>
      have rest : (ict : Int) ≤ out.oct - 1 := by omega
      exact Nat.lt_succ_of_le (outProcess_processed (next_lt inside) rest).left_le

end

end Expands

/-- The cells from a place on that are free. -/
def Free (size bpos : Nat) (ocount : Int) (i : Nat) : Prop :=
  ∃ offset : Nat, offset < ocount ∧ i = (bpos + offset) % size

/-- What `out_process` is for: as many characters of output as it reports are the expansion of as
many characters of input as it reports, the column is that after them, and no cell is touched that
is not free. -/
structure RightlyProcessed (oflag : BitVec 16) (size : Nat) (buf : Nat → UInt8) (bpos icount : Nat)
    (ocount position : Int) (result : OutProcessed) : Prop where
  consumed : result.icount ≤ icount
  produced : 0 ≤ result.ocount ∧ result.ocount ≤ ocount
  output : contents size result.buf bpos result.ocount.toNat =
    expand oflag position (contents size buf bpos result.icount)
  position : result.position = columnAfter oflag position (contents size buf bpos result.icount) % 8
  frame : ∀ i, ¬Free size bpos ocount i → result.buf i = buf i
  progress : 1 ≤ icount → 8 ≤ ocount → 1 ≤ result.icount

theorem frame_of_ahead {size bpos used : Nat} {ocount : Int} {buf buf' : Nat → UInt8}
    (ahead : Ahead size bpos used buf buf') (inside : bpos < size) (most : used ≤ ocount) {i : Nat}
    (less : i < size) (taken : ¬Free size bpos ocount i) : buf' i = buf i := by
  have place : i = (bpos + (i + size - bpos) % size) % size := by
    rw [Nat.add_mod_mod, show bpos + (i + size - bpos) = i + size by omega, Nat.add_mod_right,
      Nat.mod_eq_of_lt less]
  have behind : used ≤ (i + size - bpos) % size := by
    by_contra short
    exact taken ⟨_, by omega, place⟩
  rw [place]
  exact ahead _ behind (Nat.mod_lt _ (by omega))

/-- Wherever the text lies in the buffer, as many characters are processed as there is room for, and
rightly. -/
theorem out_process_right (oflag : BitVec 16) (size : Nat) (buf : Nat → UInt8) (bpos icount : Nat)
    (ocount position : Int) (inside : bpos < size) (room : icount ≤ ocount) (space : ocount ≤ size) :
    RightlyProcessed oflag size buf bpos icount ocount position
      (outProcessed oflag size buf bpos icount ocount position) := by
  have processed := @outProcess_processed oflag size icount ⟨buf, bpos, ocount, position⟩ inside room
  have expands :=
    @outProcess_expands oflag size icount ⟨buf, bpos, ocount, position⟩ inside room space
  have progress (some : 1 ≤ icount) (tab : 8 ≤ ocount) :=
    @outProcess_progress oflag size icount ⟨buf, bpos, ocount, position⟩ inside some room tab
  unfold outProcessed
  revert processed expands progress
  generalize outProcess oflag size icount _ = result
  intro processed expands progress
  obtain ⟨leftLe, room', -, used, ahead⟩ := processed
  dsimp only at used ahead
  refine ⟨Nat.sub_le _ _, ⟨used, by dsimp only; omega⟩, expands.output, ?_, fun i taken => ?_,
    fun some tab => ?_⟩
  · exact congrArg (· % 8) expands.pos
  · rcases Nat.lt_or_ge i size with less | beyond
    · exact frame_of_ahead ahead inside (by omega) less taken
    · exact expands.beyond i beyond
  · have fewer := progress some tab
    dsimp only
    omega

/-- A tab in column 3 is expanded across the end of the buffer. -/
theorem out_process_right_tab :
    RightlyProcessed (opost ||| xtabs) 16 (fun _ => 9) 12 1 8 3
      (outProcessed (opost ||| xtabs) 16 (fun _ => 9) 12 1 8 3) :=
  out_process_right (opost ||| xtabs) 16 (fun _ => 9) 12 1 8 3 (by decide) (by decide) (by decide)

end Minix.Kernel
