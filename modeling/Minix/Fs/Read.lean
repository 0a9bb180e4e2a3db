/-
This file models `read_write` of `fs/read.c` on pipes: the checks, the loop over the chunks of a
transfer, and what the call leaves behind in the inode, the filp and the process.

Whether the copy of a chunk succeeds is an input, since user memory and the disk are not part of
the model. A chunk is copied as a whole or not at all. For a file that is no pipe the whole
transfer is an input.
-/

import Minix.Fs.Pipe

namespace Minix.Fs

open Function (update)

/-- What happens to a chunk: it is copied, `rw_chunk` fails, a disk error is noted in `rdwt_err`,
or the end of the device is. -/
inductive Copy
  | copied
  | fault (code : Errno)
  | diskError (code : Errno)
  | endOfFile
  deriving DecidableEq

/-- What happens to a transfer on a file that is no pipe: an answer, or the caller is suspended
on a task. -/
inductive FileIo
  | answer (result : Except Errno Nat)
  | suspended (task : Nat)

/-- The part of a call's outcome that lies outside the model. -/
structure Io where
  copies : Nat → Copy := fun _ => .copied
  file : FileIo := .answer (.ok 0)

/-! ### The chunks of a transfer -/

/-- The variables of the loop. `moved` is not in the source: the bytes that were copied. -/
structure Transfer where
  position : Nat
  nbytes : Nat
  cumIo : Nat
  buffer : Nat → UInt8
  contents : Nat → UInt8
  moved : List UInt8 := []
  r : Option Errno := none

/-- The bytes of the file after the next `count` bytes are moved. -/
def Transfer.store (t : Transfer) (rwFlag : RwFlag) (count : Nat) : Nat → UInt8 :=
  match rwFlag with
  | .reading => t.contents
  | .writing => Tape.splice t.contents t.position count t.buffer

/-- The next `count` bytes that are moved. -/
def Transfer.next (t : Transfer) (rwFlag : RwFlag) (count : Nat) : List UInt8 :=
  match rwFlag with
  | .reading => Tape.window t.contents t.position (t.position + count)
  | .writing => Tape.window t.buffer 0 count

/-- One chunk is copied, and the counters and pointers are updated. -/
def Transfer.advance (t : Transfer) (rwFlag : RwFlag) (chunk : Nat) : Transfer :=
  { t with
    position := t.position + chunk
    nbytes := t.nbytes - chunk
    cumIo := t.cumIo + chunk
    buffer := fun i => t.buffer (chunk + i)
    contents := t.store rwFlag chunk
    moved := t.moved ++ t.next rwFlag chunk }

/-- The size of the next chunk. It does not span two blocks, and ends where the bytes asked for
do, the room of a partial write, or the file. -/
def Transfer.chunk (t : Transfer) (rwFlag : RwFlag) (fSize : Nat) (partialCnt : Option Nat) : Nat :=
  let chunk := min (partialCnt.getD t.nbytes) (blockSize - t.position % blockSize)
  match rwFlag with
  | .reading => min chunk (fSize - t.position)
  | .writing => chunk

/-- Split the transfer into chunks that do not span two blocks. `partialCnt` is the room left for
a partial write; the bytes asked for are fuel enough, since no chunk is empty. -/
def transfer (rwFlag : RwFlag) (copies : Nat → Copy) (fSize : Nat) :
    Nat → Nat → Option Nat → Transfer → Transfer
  | 0, _, _, t => t
  | fuel + 1, index, partialCnt, t =>
    if t.nbytes = 0 then t
    else if rwFlag = .reading ∧ fSize ≤ t.position then t
    else
      match copies index with
      | .fault code | .diskError code => { t with r := some code }
      | .endOfFile => t
      | .copied =>
        let chunk := t.chunk rwFlag fSize partialCnt
        match partialCnt with
        | none => transfer rwFlag copies fSize fuel (index + 1) none (t.advance rwFlag chunk)
        | some left =>
          if left - chunk = 0 then t.advance rwFlag chunk
          else
            transfer rwFlag copies fSize fuel (index + 1) (some (left - chunk))
              (t.advance rwFlag chunk)

attribute [grind =] transfer

/-! ### The call -/

/-- `clear_zone`: the blocks after the one with byte `pos`, up to the end of its zone, are set to
zero. -/
def clearZone (entry : Inode) (pos : Nat) : Nat → UInt8 :=
  let zoneSize := blockSize * 2 ^ entry.sLogZoneSize
  let next := pos + blockSize - 1
  if entry.sLogZoneSize = 0 ∨ next / zoneSize ≠ pos / zoneSize then entry.contents
  else
    Tape.splice entry.contents (next / blockSize * blockSize)
      ((pos / zoneSize + 1) * zoneSize - next / blockSize * blockSize) fun _ => 0

/-- `position > s_max_size - nbytes`, in unsigned arithmetic. -/
def growsTooBig (entry : Inode) (position nbytes : Nat) : Bool :=
  decide ((2 ^ 32 + entry.sMaxSize - nbytes) % 2 ^ 32 < position)

/-- The file position that a transfer starts at: a write with `O_APPEND` starts at the end. -/
def startPosition (s : State) (f : FilpNr) (rwFlag : RwFlag) : Nat :=
  if rwFlag = .writing ∧ (s.filp f).filpFlags.append then (s.inode (s.filp f).filpIno).iSize
  else (s.filp f).filpPos

/-- The bytes that a transfer has moved are noted. What counts as written are the next bytes of
the buffer that the process gave to its call. -/
def noteTransfer (history : History) (fp : Slot) (rip : InodeNr) (rwFlag : RwFlag)
    (moved : List UInt8) : History :=
  let sofar := history.moved fp
  let history := { history with moved := update history.moved fp (sofar + moved.length) }
  match rwFlag with
  | .reading =>
    { history with taken := update history.taken rip (history.taken rip ++ moved) }
  | .writing =>
    { history with
      written := update history.written rip (history.written rip ++
        Tape.window (history.source fp) sofar (sofar + moved.length)) }

/-- Set a file position. -/
def State.seek (s : State) (f : FilpNr) (position : Nat) : State :=
  s.modifyFilp f fun entry => { entry with filpPos := position }

/-- What the transfer leaves in the tables: the data and the size of the pipe, and the file
position. A reader that has emptied the pipe resets the positions of both ends. -/
def finish (s : State) (fp : Slot) (f : FilpNr) (rip : InodeNr) (rwFlag : RwFlag) (t : Transfer) :
    State :=
  let s := { s with history := noteTransfer s.history fp rip rwFlag t.moved }
  let s := s.modifyInode rip fun entry => { entry with contents := t.contents }
  match rwFlag with
  | .writing =>
    let s := if (s.inode rip).iSize < t.position then
        s.modifyInode rip fun entry => { entry with iSize := t.position }
      else s
    s.seek f t.position
  | .reading =>
    if (s.inode rip).iSize ≤ t.position then
      let s := s.modifyInode rip fun entry => { entry with iSize := 0 }
      let s := match findFilp s rip .writing with
        | some wf => s.seek wf 0
        | none => s
      s.seek f 0
    else s.seek f t.position

/-- The transfer itself and the end of the call. A partial write without `O_NONBLOCK` is
suspended with what remains to be written. -/
def moveBytes (s : State) (fp : Slot) (f : FilpNr) (rwFlag : RwFlag) (oflags : Flags) (fd : Fd)
    (buffer : Nat → UInt8) (nbytes position canwrite : Nat) (copies : Nat → Copy) :
    State × Result :=
  let rip := (s.filp f).filpIno
  let t := transfer rwFlag copies (s.inode rip).iSize nbytes 0
    (if 0 < canwrite then some canwrite else none)
    { position, nbytes, buffer
      cumIo := (s.fproc fp).fpCumIoPartial
      contents := (s.inode rip).contents }
  let s := finish s fp f rip rwFlag t
  match t.r with
  | some code => (s, .error code)
  | none =>
    if 0 < canwrite ∧ !oflags.nonblock then
      let s := s.modifyFproc fp fun entry => { entry with fpCumIoPartial := t.cumIo }
      (suspend s fp .xpipe fd rwFlag.call t.buffer t.nbytes, .suspend)
    else
      (s.modifyFproc fp fun entry => { entry with fpCumIoPartial := 0 }, .ok t.cumIo)

/-- The part of `read_write` after the first checks, for a pipe. -/
def readWritePipe (s : State) (fp : Slot) (f : FilpNr) (rwFlag : RwFlag) (fd : Fd)
    (buffer : Nat → UInt8) (nbytes : Nat) (copies : Nat → Copy) : State × Result :=
  let rip := (s.filp f).filpIno
  let oflags := (s.filp f).filpFlags
  if rwFlag = .writing ∧ growsTooBig (s.inode rip) (s.filp f).filpPos nbytes then
    (s, .error .efbig)
  else
    let position := startPosition s f rwFlag
    let s := if rwFlag = .writing ∧ (s.inode rip).iSize < position then
        s.modifyInode rip fun entry => { entry with contents := clearZone entry entry.iSize }
      else s
    match pipeCheck s fp rip rwFlag oflags fd buffer nbytes position with
    | (s, .stop result) => (s, result)
    | (s, .go canwrite) =>
      moveBytes s fp f rwFlag oflags fd buffer nbytes position canwrite copies

/-- Perform `read(fd, buffer, nbytes)` or `write(fd, buffer, nbytes)`. -/
def readWrite (s : State) (fp : Slot) (rwFlag : RwFlag) (fild : Int) (buffer : Nat → UInt8)
    (nbytes : Int) (io : Io) : State × Result :=
  if nbytes < 0 then (s, .error .einval)
  else
    match getFilp s fp fild with
    | none => (s, .error .ebadf)
    | some (fd, f) =>
      if !(s.filp f).filpMode rwFlag then
        let closed := !(s.filp f).filpMode .reading && !(s.filp f).filpMode .writing
        (s, .error (if closed then .eio else .ebadf))
      else if nbytes = 0 then (s, .ok 0)
      else if (s.inode (s.filp f).filpIno).iPipe then
        readWritePipe s fp f rwFlag fd buffer nbytes.toNat io.copies
      else
        match io.file with
        | .suspended task =>
          (suspend s fp (.device task) fd rwFlag.call buffer nbytes.toNat, .suspend)
        | .answer (.error code) => (s, .error code)
        | .answer (.ok count) =>
          (s.modifyFproc fp fun entry => { entry with fpCumIoPartial := 0 }, .ok count)

end Minix.Fs
