/-
This file models the streams of the C library (`lib/stdio`): the macros `getc` and `putc` with
`__fillbuf` and `__flushbuf`, and `ungetc`, `fflush`, `fseek`, `ftell` and `setvbuf`.

There is one stream, so the loop of `__fillbuf` that flushes the other ones is left out. A buffer is
a function on positions, and what it holds when it is new is zero. The number of bytes that a read
or write transfers, and whether `malloc` finds memory, are inputs. A result that is `none` is an
access outside the buffer.
-/

import Minix.Library.Overwrite
import Minix.Library.Tape

namespace Minix.Stdio

open Function (update)
open Overwrite Tape

/-- `EOF` -/
def eof : Int := -1

/-- `BUFSIZ` -/
def bufSiz : Nat := 1024

def newline : Int := 10

/-- The third argument of `setvbuf`: `_IOFBF`, `_IOLBF` or `_IONBF`. -/
inductive Buffering
  | full
  | line
  | none
deriving DecidableEq

/-- `SEEK_SET`, `SEEK_CUR` or `SEEK_END` -/
inductive Whence
  | set
  | cur
  | fromEnd
deriving DecidableEq

/-- `FILE`. The flags have a field each, and `ptr` is the distance from `buf`. -/
structure File where
  count : Int := 0
  bufsiz : Nat := 0
  buf : Option (Nat → UInt8) := none
  ptr : Nat := 0
  read : Bool := false
  write : Bool := false
  nbf : Bool := false
  myBuf : Bool := false
  atEof : Bool := false
  err : Bool := false
  lbf : Bool := false
  reading : Bool := false
  writing : Bool := false
  append : Bool := false

/-- The open file: its contents and its offset. -/
structure Os where
  bytes : List UInt8 := []
  offset : Nat := 0

/-- How many bytes are transferred at once when so many are asked for, whether there is memory, and
whether the stream is `stdout` on a terminal. -/
structure Env where
  grant : Nat → Nat := fun size => size
  memory : Bool := true
  terminal : Bool := false

structure State where
  file : File
  os : Os

/-! ### System calls -/

/-- A transfer that is not empty moves one byte at least. -/
def Env.transfer (env : Env) (size : Nat) : Nat := min size (max 1 (env.grant size))

/-- `_read`, with the bytes that were read. -/
def Os.read (os : Os) (env : Env) (size : Nat) : List UInt8 × Os :=
  let available := (os.bytes.drop os.offset).take size
  let data := available.take (env.transfer available.length)
  (data, { os with offset := os.offset + data.length })

/-- `_write` -/
def Os.write (os : Os) (env : Env) (data : List UInt8) : Nat × Os :=
  let size := env.transfer data.length
  (size,
    { bytes := overwrite 0 os.bytes os.offset (data.take size), offset := os.offset + size })

/-- Where `_lseek` counts from. -/
def Os.base (os : Os) : Whence → Int
  | .set => 0
  | .cur => os.offset
  | .fromEnd => os.bytes.length

/-- `_lseek`, which has no result where it returns -1. -/
def Os.lseek (os : Os) (offset : Int) (whence : Whence) : Option Os :=
  if offset + os.base whence < 0 then none
  else some { os with offset := (offset + os.base whence).toNat }

/-- Every write to a stream that appends goes to the end. -/
def Os.seekEnd (os : Os) (append : Bool) : Option Os :=
  if append then os.lseek 0 .fromEnd else some os

/-- `do_write`. No write is repeated more often than there are bytes. -/
def doWrite (env : Env) : Nat → Os → List UInt8 → Os × Bool
  | 0, os, _ => (os, false)
  | fuel + 1, os, data =>
    let (size, os) := os.write env data
    if 0 < size ∧ size < data.length then doWrite env fuel os (data.drop size)
    else (os, decide (0 < size))

/-! ### Buffers -/

namespace File

/-- `*stream->_ptr++ = c` -/
def store (file : File) (c : Int) : Option File :=
  file.buf.bind fun buf =>
    if file.ptr < file.bufsiz then
      some { file with buf := some (update buf file.ptr (UInt8.ofInt c)), ptr := file.ptr + 1 }
    else none

/-- `*stream->_ptr++` -/
def load (file : File) : Option (File × UInt8) :=
  file.buf.bind fun buf =>
    if file.ptr < file.bufsiz then some ({ file with ptr := file.ptr + 1 }, buf file.ptr) else none

/-- The first bytes of the buffer. -/
def front (file : File) (size : Nat) : List UInt8 :=
  match file.buf with
  | none => []
  | some buf => window buf 0 size

/-- The buffer that `malloc` finds, or else none from now on. -/
def allocate (file : File) (env : Env) : File :=
  if env.memory then { file with buf := some fun _ => 0, myBuf := true, bufsiz := bufSiz }
  else { file with nbf := true }

/-- The buffer that `__fillbuf` gets for a stream that has none. -/
def ready (file : File) (env : Env) : File :=
  let file := if file.nbf = false ∧ file.buf.isNone then file.allocate env else file
  if file.buf.isNone then { file with buf := some fun _ => 0, bufsiz := 1 } else file

/-- The buffer that `__flushbuf` gets for a stream that has none. -/
def provide (file : File) (env : Env) : File :=
  if file.nbf = false ∧ file.buf.isNone then
    let file := { file.allocate env with ptr := 0 }
    if file.nbf then file
    else if env.terminal ∨ file.lbf then { file with lbf := true, count := -1 }
    else { file with count := bufSiz - 1 }
  else file

end File

namespace State

variable (env : Env)

/-- The end of `__fillbuf`, which reads into the buffer. -/
def refill (s : State) : Option (State × Int) :=
  let (data, os) := s.os.read env s.file.bufsiz
  let file := { s.file with
    buf := s.file.buf.map fun buf => splice buf 0 data.length fun i => data.getD i 0
    ptr := 0
    count := data.length }
  if data.isEmpty then some ({ file := { file with atEof := true }, os }, eof)
  else
    let file := { file with count := file.count - 1 }
    file.load.map fun (file, c) => ({ file, os }, (c.toNat : Int))

/-- `__fillbuf` -/
def fillbuf (s : State) : Option (State × Int) :=
  let file := { s.file with count := 0 }
  if s.file.atEof = true ∨ s.file.err = true then some ({ s with file }, eof)
  else if file.read = false ∨ file.writing = true then
    some ({ s with file := { file with err := true } }, eof)
  else refill env { s with file := File.ready { file with reading := true } env }

/-- `getc` -/
def getc (s : State) : Option (State × Int) :=
  let file := { s.file with count := s.file.count - 1 }
  if 0 ≤ file.count then file.load.map fun (file, c) => ({ s with file }, (c.toNat : Int))
  else fillbuf env { s with file }

/-- The end of `__flushbuf` and `fflush` where `_lseek` or `_write` fails. -/
def fail (file : File) (os : Os) : State × Int := ({ file := { file with err := true }, os }, eof)

/-- `__flushbuf` of a stream that is not buffered. -/
def writeOne (s : State) (c : Int) : State × Int :=
  let file := { s.file with count := 0 }
  match s.os.seekEnd file.append with
  | none => fail file s.os
  | some os =>
    let (size, os) := os.write env [UInt8.ofInt c]
    if size ≠ 1 then fail file os else ({ file, os }, ((UInt8.ofInt c).toNat : Int))

/-- `__flushbuf` of a stream that is line buffered. -/
def writeLine (s : State) (c : Int) : Option (State × Int) :=
  (s.file.store c).map fun file =>
    if c = newline ∨ file.count = -file.bufsiz then
      let data := file.front (-file.count).toNat
      let file := { file with ptr := 0, count := 0 }
      match s.os.seekEnd file.append with
      | none => fail file s.os
      | some os =>
        let (os, done) := doWrite env (data.length + 1) os data
        if done then ({ file, os }, ((UInt8.ofInt c).toNat : Int)) else fail file os
    else ({ s with file }, ((UInt8.ofInt c).toNat : Int))

/-- `__flushbuf` of a stream that is fully buffered. -/
def writeFull (s : State) (c : Int) : Option (State × Int) :=
  let data := s.file.front s.file.ptr
  let file := { s.file with count := s.file.bufsiz - 1, ptr := 0 }
  if data.isEmpty then
    (file.store c).map fun file => ({ s with file }, ((UInt8.ofInt c).toNat : Int))
  else
    match s.os.seekEnd file.append with
    | none => some (fail { file with ptr := 1 } s.os)
    | some os =>
      let (os, done) := doWrite env (data.length + 1) os data
      (file.store c).map fun file =>
        if done then ({ file, os }, ((UInt8.ofInt c).toNat : Int)) else fail file os

/-- `__flushbuf` -/
def flushbuf (s : State) (c : Int) : Option (State × Int) :=
  if s.file.write = false then some (s, eof)
  else if s.file.reading = true ∧ s.file.atEof = false then some (s, eof)
  else
    let s := { s with file := File.provide { s.file with reading := false, writing := true } env }
    if s.file.nbf then some (s.writeOne env c)
    else if s.file.lbf then s.writeLine env c
    else s.writeFull env c

/-- `putc` -/
def putc (s : State) (c : Int) : Option (State × Int) :=
  let file := { s.file with count := s.file.count - 1 }
  if 0 ≤ file.count then
    (file.store c).map fun file => ({ s with file }, ((UInt8.ofInt c).toNat : Int))
  else flushbuf env { s with file } c

/-- `ungetc` -/
def ungetc (s : State) (ch : Int) : Option (State × Int) :=
  if ch = eof ∨ s.file.reading = false then some (s, eof)
  else if s.file.ptr = 0 ∧ s.file.count ≠ 0 then some (s, eof)
  else
    let ptr := if s.file.ptr = 0 then 1 else s.file.ptr
    let file := { s.file with count := s.file.count + 1, ptr := ptr - 1 }
    (file.store ch).map fun file => ({ s with file := { file with ptr := ptr - 1 } }, ch)

/-- `fflush` -/
def fflush (s : State) : State × Int :=
  let file := s.file
  if file.buf.isNone ∨ file.reading = false ∧ file.writing = false then (s, 0)
  else if file.reading then
    let adjust := if file.nbf then 0 else -file.count
    let file := { file with count := 0 }
    match s.os.lseek adjust .cur with
    | none => fail file s.os
    | some os =>
      let file := if file.write then { file with reading := false, writing := false } else file
      ({ file := { file with ptr := 0 }, os }, 0)
  else if file.nbf then (s, 0)
  else
    let file := if file.read then { file with writing := false } else file
    let data := file.front file.ptr
    let file := { file with ptr := 0 }
    if data.isEmpty then ({ s with file }, 0)
    else
      match s.os.seekEnd file.append with
      | none => fail file s.os
      | some os =>
        let (size, os) := os.write env data
        let file := { file with count := 0 }
        if size = data.length then ({ file, os }, 0) else fail file os

/-- `fseek` -/
def fseek (s : State) (offset : Int) (whence : Whence) : State × Int :=
  let file := { s.file with atEof := false, err := false }
  let adjust :=
    if file.reading ∧ whence = .cur ∧ file.buf.isSome ∧ file.nbf = false then file.count else 0
  let s :=
    if file.reading then { s with file := { file with count := 0 } }
    else if file.writing then (fflush env { s with file }).1
    else { s with file }
  let file :=
    if s.file.read ∧ s.file.write then { s.file with reading := false, writing := false, ptr := 0 }
    else { s.file with ptr := 0 }
  match s.os.lseek (offset - adjust) whence with
  | none => ({ s with file }, -1)
  | some os => ({ file, os }, 0)

/-- `ftell` -/
def ftell (s : State) : Int :=
  s.os.offset +
    if s.file.reading then -s.file.count
    else if s.file.writing ∧ s.file.buf.isSome ∧ s.file.nbf = false then (s.file.ptr : Int)
    else 0

/-- `setvbuf`; a buffer may be given. -/
def setvbuf (s : State) (given : Bool) (mode : Buffering) (size : Nat) : State × Int :=
  let file := { s.file with myBuf := false, nbf := false, lbf := false }
  let allocates := ¬ given ∧ mode ≠ .none
  let allocated := allocates ∧ size ≠ 0 ∧ env.memory
  let failed := given ∧ size = 0 ∨ allocates ∧ ¬ allocated
  let buffer := given ∨ allocated
  ({ s with file := { file with
      myBuf := decide allocated
      nbf := decide (mode = .none)
      lbf := decide (mode = .line)
      buf := if buffer then some fun _ => 0 else none
      count := 0
      ptr := 0
      bufsiz := if buffer then size else 1 } },
    if failed then eof else 0)

end State

end Minix.Stdio
