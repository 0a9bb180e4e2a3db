/-
This file says what a stream of the C library is for. It is an array of bytes with a position: a
byte is read or written where the position is, and nothing is buffered. Bytes that are pushed back
are read first.

A session performs operations on a stream and records their results, and the results are those of
the array if the array can perform them too.
-/

import Minix.Library.Transition
import Minix.Stdio.File

namespace Minix.Stdio

open Overwrite Transition

/-- An operation of the program. -/
inductive Op
  | setvbuf (given : Bool) (mode : Buffering) (size : Nat)
  | getc
  | ungetc (ch : Int)
  | putc (c : Int)
  | fflush
  | fseek (offset : Int) (whence : Whence)
  | ftell
deriving DecidableEq

def State.perform (s : State) (env : Env) : Op → Option (State × Int)
  | .setvbuf given mode size => some (s.setvbuf env given mode size)
  | .getc => s.getc env
  | .ungetc ch => s.ungetc ch
  | .putc c => s.putc env c
  | .fflush => some (s.fflush env)
  | .fseek offset whence => some (s.fseek env offset whence)
  | .ftell => some (s, s.ftell)

/-! ### The array -/

structure Stream where
  bytes : List UInt8
  pos : Nat := 0
  pushed : List UInt8 := []
deriving DecidableEq

namespace Stream

/-- The position, which a byte that is pushed back moves backwards. -/
def tell (st : Stream) : Int := st.pos - st.pushed.length

def target (st : Stream) (offset : Int) : Whence → Int
  | .set => offset
  | .cur => st.tell + offset
  | .fromEnd => st.bytes.length + offset

/-- An operation with its result. Only how `setvbuf` ends, and whether a byte can be pushed back, is
left open. -/
def step (st : Stream) : Op × Int → Option Stream
  | (.setvbuf .., _) => some st
  | (.getc, result) =>
    match st.pushed, st.bytes[st.pos]? with
    | c :: rest, _ => if result = c.toNat then some { st with pushed := rest } else none
    | [], some c => if result = c.toNat then some { st with pos := st.pos + 1 } else none
    | [], none => if result = eof then some st else none
  | (.ungetc ch, result) =>
    if result = eof then some st
    else if result = ch then some { st with pushed := UInt8.ofInt ch :: st.pushed }
    else none
  | (.putc c, result) =>
    if result = (UInt8.ofInt c).toNat then
      some { st with bytes := overwrite 0 st.bytes st.pos [UInt8.ofInt c], pos := st.pos + 1 }
    else none
  | (.fflush, result) =>
    if result = 0 then some { st with pos := st.tell.toNat, pushed := [] } else none
  | (.fseek offset whence, result) =>
    if result = 0 then some { st with pos := (st.target offset whence).toNat, pushed := [] }
    else none
  | (.ftell, result) => if result = st.tell then some st else none

end Stream

/-! ### Sessions -/

/-- What the last operation was, which says whether input or output may follow. -/
inductive Turn
  | fresh
  | idle
  | input
  | atEnd
  | output
deriving DecidableEq

def Turn.next (turn : Turn) : Op → Int → Turn
  | .setvbuf .., _ => turn
  | .getc, result => if result = eof then .atEnd else .input
  | .ungetc _, result => if result = eof then turn else .input
  | .putc _, _ => .output
  | .fflush, _ | .fseek .., _ => .idle
  | .ftell, _ => if turn = .fresh then .idle else turn

structure Session where
  state : State
  turn : Turn := .fresh
  results : List (Op × Int) := []

/-- What the file will hold when the output that is buffered is written. -/
def State.contents (s : State) : List UInt8 :=
  if s.file.writing = true ∧ s.file.nbf = false then
    overwrite 0 s.os.bytes s.os.offset (s.file.front s.file.ptr)
  else s.os.bytes

def State.target (s : State) (offset : Int) : Whence → Int
  | .set => offset
  | .cur => s.ftell + offset
  | .fromEnd => s.contents.length + offset

namespace Session

def step (s : Session) (call : Env × Op) : Option Session :=
  (s.state.perform call.1 call.2).map fun done =>
    { state := done.1, turn := s.turn.next call.2 done.2, results := s.results
      ++ [(call.2, done.2)] }

/-- A stream that `fopen` opened for reading, for writing or for update. -/
def opened (read write : Bool) (bytes : List UInt8) : Session :=
  { state :=
      { file := { read, write, reading := read && !write, writing := write && !read }
        os := { bytes } } }

/-- The rules of the language: `setvbuf` comes first, input does not follow output or output input
without `fflush` or `fseek` between them, unless the input met the end of the file, and `fseek`
and `fflush` do not leave the file. -/
def Allowed (s : Session) : Op → Prop
  | .setvbuf .. => s.turn = .fresh
  | .getc | .ungetc _ => s.state.file.read = true ∧ s.turn ≠ .output
  | .putc _ => s.state.file.write = true ∧ s.turn ≠ .input
  | .fflush => s.turn = .input → 0 ≤ s.state.ftell
  | .fseek offset whence => 0 ≤ s.state.target offset whence
  | .ftell => True

instance (s : Session) : ∀ op, Decidable (s.Allowed op)
  | .setvbuf .. => inferInstanceAs (Decidable (s.turn = .fresh))
  | .getc | .ungetc _ =>
    inferInstanceAs (Decidable (s.state.file.read = true ∧ s.turn ≠ .output))
  | .putc _ => inferInstanceAs (Decidable (s.state.file.write = true ∧ s.turn ≠ .input))
  | .fflush => inferInstanceAs (Decidable (s.turn = .input → 0 ≤ s.state.ftell))
  | .fseek offset whence => inferInstanceAs (Decidable (0 ≤ s.state.target offset whence))
  | .ftell => .isTrue trivial

/-- The output that `fflush` writes is written at once. -/
def FlushesAtOnce (s : Session) (env : Env) : Prop :=
  s.state.file.reading = false → s.state.file.writing = true → s.state.file.nbf = false →
    env.transfer s.state.file.ptr = s.state.file.ptr

instance (s : Session) (env : Env) : Decidable (s.FlushesAtOnce env) :=
  inferInstanceAs (Decidable (_ → _ → _ → _))

/-- The operations that go right. A buffer that is given has room for a byte. No byte is read after
output that was not buffered without `fseek` between them. A byte is only pushed back into a
buffer. Nothing is written after a byte that was pushed back at the end of the file was read. What
`fflush` writes is written at once. When the position is looked for, an unbuffered stream has not
read ahead, and `fflush` leaves no byte that was pushed back at the end of the file. -/
def Sound (s : Session) (env : Env) : Op → Prop
  | .setvbuf given _ size => given = true → 0 < size
  | .getc => s.state.file.count ≤ 0 → s.state.file.writing = false
  | .ungetc _ => s.state.file.reading = true → s.state.file.buf.isSome = true
  | .putc _ => s.state.file.reading = true → s.state.file.nbf = false → s.state.file.ptr = 0
  | .fflush =>
    (s.state.file.reading = true → s.state.file.nbf = true ∨ s.state.file.atEof = true →
      s.state.file.count = 0) ∧ s.FlushesAtOnce env
  | .fseek _ whence =>
    (s.state.file.reading = true → s.state.file.nbf = true → whence = .cur →
      s.state.file.count = 0) ∧ s.FlushesAtOnce env
  | .ftell => True

instance (s : Session) (env : Env) : ∀ op, Decidable (s.Sound env op)
  | .setvbuf given _ size => inferInstanceAs (Decidable (given = true → 0 < size))
  | .getc => inferInstanceAs (Decidable (s.state.file.count ≤ 0 → s.state.file.writing = false))
  | .ungetc _ =>
    inferInstanceAs (Decidable (s.state.file.reading = true → s.state.file.buf.isSome = true))
  | .putc _ => inferInstanceAs (Decidable
      (s.state.file.reading = true → s.state.file.nbf = false → s.state.file.ptr = 0))
  | .fflush => inferInstanceAs (Decidable
      ((s.state.file.reading = true → s.state.file.nbf = true ∨ s.state.file.atEof = true →
        s.state.file.count = 0) ∧ s.FlushesAtOnce env))
  | .fseek _ whence => inferInstanceAs (Decidable
      ((s.state.file.reading = true → s.state.file.nbf = true → whence = .cur →
        s.state.file.count = 0) ∧ s.FlushesAtOnce env))
  | .ftell => .isTrue trivial

end Session

end Minix.Stdio
