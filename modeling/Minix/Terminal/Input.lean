/-
This file models how a terminal takes in what is typed (`kernel/tty.c`): `in_process` with `echo`,
`back_over` and `reprint`, `in_transfer`, `setattr`, `sigchar` and `tty_icancel`.

The functions of the device are parameters. They change the state of the device and `tty_position`,
and may set `tty_reprint`; the input queue is not theirs. What is copied to the user, the replies
and the signals are recorded.
-/

import Minix.Terminal.Queue

namespace Minix.Terminal

/-! ### Attributes -/

/-- `struct termios` -/
structure Termios where
  cIflag : BitVec 16
  cOflag : BitVec 16
  cCflag : BitVec 16
  cLflag : BitVec 16
  cOspeed : BitVec 32
  cCc : Nat → UInt8

def icrnl : BitVec 16 := 0x0002

def igncr : BitVec 16 := 0x0008

def inlcr : BitVec 16 := 0x0020

def istrip : BitVec 16 := 0x0080

def ixon : BitVec 16 := 0x0200

def ixany : BitVec 16 := 0x0800

def echoFlag : BitVec 16 := 0x0001

def echoe : BitVec 16 := 0x0002

def echok : BitVec 16 := 0x0004

def echonl : BitVec 16 := 0x0008

def icanon : BitVec 16 := 0x0010

def iexten : BitVec 16 := 0x0020

def isig : BitVec 16 := 0x0040

def noflsh : BitVec 16 := 0x0080

/-- The indices into `c_cc` that are looked at. -/
inductive ControlChar
  | veof | veol | verase | vintr | vkill | vmin | vquit | vtime | vstart | vstop | vreprint | vlnext

def ControlChar.index : ControlChar → Nat
  | veof => 0
  | veol => 1
  | verase => 2
  | vintr => 3
  | vkill => 4
  | vmin => 5
  | vquit => 6
  | vtime => 7
  | vstart => 9
  | vstop => 10
  | vreprint => 11
  | vlnext => 12

/-- A control character, as `ch` is compared with it. -/
def Termios.cc (termios : Termios) (char : ControlChar) : BitVec 16 :=
  (termios.cCc char.index).toBitVec.setWidth 16

/-! ### Terminals -/

/-- What a device does. -/
structure Device (σ : Type) where
  echo : σ → BitVec 16 → σ
  /-- Whether `tty_echo` sets `tty_reprint`. -/
  spoils : σ → BitVec 16 → Bool
  /-- `tty_position` -/
  position : σ → Int
  icancel : σ → σ
  ocancel : σ → σ
  ioctl : Termios → σ → σ

/-- `struct tty` -/
structure Tty (σ : Type) where
  termios : Termios
  queue : Queue
  min : Int
  timer : Bool
  events : Bool
  reprint : Bool
  escaped : Bool
  inhibited : Bool
  pgrp : Int
  inleft : Int
  incum : Int
  device : σ
  copied : List UInt8 := []
  replies : List Int := []
  signals : List Int := []

section Code

variable {σ : Type} (dev : Device σ)

def Tty.lflag (tp : Tty σ) (flag : BitVec 16) : Bool := has flag tp.termios.cLflag

def Tty.iflag (tp : Tty σ) (flag : BitVec 16) : Bool := has flag tp.termios.cIflag

def Tty.cc (tp : Tty σ) (char : ControlChar) : BitVec 16 := tp.termios.cc char

/-! ### Echo -/

def ttyEcho (tp : Tty σ) (ch : BitVec 16) : Tty σ :=
  { tp with
    device := dev.echo tp.device ch
    reprint := tp.reprint || dev.spoils tp.device ch }

/-- Echo a tab: the spaces that are left to do, at most. -/
def echoTab : Nat → (len : Nat) → Tty σ → Nat × Tty σ
  | 0, len, tp => (len, tp)
  | left + 1, len, tp =>
    let tp := ttyEcho dev tp 32
    if left ≠ 0 ∧ dev.position tp.device % 8 ≠ 0 then echoTab left (len + 1) tp else (len + 1, tp)

/-- Echo a character, and tell how many columns that has taken. -/
def echoChar (tp : Tty σ) (ch : BitVec 16) : Nat × Tty σ :=
  if ch &&& inChar < 32 then
    let kind := ch &&& (inEsc ||| inEof ||| inEot ||| inChar)
    if kind = 9 then echoTab dev 8 0 tp
    else if kind = 13 ||| inEot ∨ kind = 10 ||| inEot then (0, ttyEcho dev tp (ch &&& inChar))
    else (2, ttyEcho dev (ttyEcho dev tp 94) (64 + (ch &&& inChar)))
  else if ch &&& inChar = 127 then (2, ttyEcho dev (ttyEcho dev tp 94) 63)
  else (1, ttyEcho dev tp (ch &&& inChar))

/-- Echo a character a number of times. -/
def echoTimes (ch : BitVec 16) : Nat → Tty σ → Tty σ
  | 0, tp => tp
  | times + 1, tp => echoTimes ch times (ttyEcho dev tp ch)

def echo (tp : Tty σ) (ch : BitVec 16) : Tty σ × BitVec 16 :=
  let ch := ch &&& ~~~inLen
  if tp.lflag echoFlag then
    let rp := if tp.queue.incount = 0 then false else tp.reprint
    let (len, tp) := echoChar dev tp ch
    let tp := if has inEof ch then echoTimes dev 8 len tp else tp
    let len := if has inEof ch then 0 else len
    ({ tp with reprint := rp }, ch ||| BitVec.ofNat 16 len <<< 8)
  else if ch = 10 ||| inEot ∧ tp.termios.cLflag &&& (icanon ||| echonl) = icanon ||| echonl then
    (ttyEcho dev tp 10, ch)
  else (tp, ch)

def rawecho (tp : Tty σ) (ch : BitVec 16) : Tty σ :=
  let rp := tp.reprint
  { (if tp.lflag echoFlag then ttyEcho dev tp ch else tp) with reprint := rp }

/-! ### Editing -/

/-- Find the last line break: the number of characters up to it, and the place behind it. -/
def lastBreak (inbuf : Nat → BitVec 16) : (count : Nat) → (head : Nat) → Nat × Nat
  | 0, head => (0, head)
  | count + 1, head =>
    let head := if head = 0 then ttyInBytes else head
    if has inEot (inbuf (head - 1)) then (count + 1, head) else lastBreak inbuf count (head - 1)

/-- Echo the characters in the queue from a place on. -/
def echoFrom : Nat → (head : Nat) → Tty σ → Tty σ
  | 0, _, tp => tp
  | left + 1, head, tp =>
    let head := if head = ttyInBytes then 0 else head
    let (tp, ch) := echo dev tp (tp.queue.inbuf head)
    echoFrom left (head + 1) { tp with queue := tp.queue.rewrite head ch }

def reprint (tp : Tty σ) : Tty σ :=
  let tp := { tp with reprint := false }
  let (count, head) := lastBreak tp.queue.inbuf tp.queue.incount.toNat tp.queue.inhead
  if (count : Int) = tp.queue.incount then tp
  else
    let tp := (echo dev tp (tp.cc .vreprint ||| inEsc)).1
    let tp := rawecho dev tp 13
    let tp := rawecho dev tp 10
    echoFrom dev (tp.queue.incount.toNat - count) head tp

/-- Wipe out some columns on the screen. -/
def wipe : Nat → Tty σ → Tty σ
  | 0, tp => tp
  | len + 1, tp => wipe len (rawecho dev (rawecho dev (rawecho dev tp 8) 32) 8)

/-- `back_over`; true if a character was erased. -/
def backOver (tp : Tty σ) : Bool × Tty σ :=
  if tp.queue.incount = 0 then (false, tp)
  else
    let head := before tp.queue.inhead
    if has inEot (tp.queue.inbuf head) then (false, tp)
    else
      let tp := if tp.reprint then reprint dev tp else tp
      let tp := { tp with queue := tp.queue.erase }
      if tp.lflag echoe then
        (true, wipe dev ((tp.queue.inbuf head &&& inLen) >>> 8).toNat tp)
      else (true, tp)

/-- Erase characters as long as there are any; as many as are in the queue, at most. -/
def killLine : Nat → Tty σ → Tty σ
  | 0, tp => tp
  | left + 1, tp =>
    match backOver dev tp with
    | (true, tp) => killLine left tp
    | (false, tp) => tp

/-! ### Transfers -/

/-- The loop of `in_transfer`, with what is in its buffer. -/
def transferLoop : Nat → Tty σ → (buf : List UInt8) → Tty σ × List UInt8
  | 0, tp, buf => (tp, buf)
  | left + 1, tp, buf =>
    if tp.inleft > 0 ∧ tp.queue.eotct > 0 then
      let ch := tp.queue.inbuf tp.queue.intail
      let (tp, buf) :=
        if has inEof ch then (tp, buf)
        else
          let buf := buf ++ [UInt8.ofBitVec (ch.setWidth 8)]
          let tp := { tp with inleft := tp.inleft - 1 }
          if buf.length = 64 then -- temp buffer full
            ({ tp with copied := tp.copied ++ buf, incum := tp.incum + 64 }, [])
          else (tp, buf)
      let tp := { tp with queue := tp.queue.remove }
      let tp := if has inEot ch ∧ tp.lflag icanon then { tp with inleft := 0 } else tp
      transferLoop left tp buf
    else (tp, buf)

def inTransfer (tp : Tty σ) : Tty σ :=
  let tp := if tp.termios.cOspeed = 0 then { tp with min := 0 } else tp
  if tp.inleft = 0 ∨ tp.queue.eotct < tp.min then tp
  else
    let (tp, buf) := transferLoop tp.queue.incount.toNat tp []
    let tp :=
      if buf = [] then tp
      else { tp with copied := tp.copied ++ buf, incum := tp.incum + buf.length }
    if tp.inleft = 0 then { tp with replies := tp.incum :: tp.replies, inleft := 0, incum := 0 }
    else tp

/-! ### Signals -/

def sigchar (tp : Tty σ) (sig : Int) : Tty σ :=
  let tp := if tp.pgrp ≠ 0 then { tp with signals := sig :: tp.signals } else tp
  if tp.lflag noflsh then tp
  else
    { tp with
      queue := tp.queue.discard
      device := dev.ocancel tp.device
      inhibited := false
      events := true }

def ttyIcancel (tp : Tty σ) : Tty σ :=
  { tp with
    queue := tp.queue.discard
    device := dev.icancel tp.device }

/-! ### Input processing -/

/-- The input extensions. A stage has no character if that is not to be stored. -/
def extensions (tp : Tty σ) (ch : BitVec 16) : Tty σ × Option (BitVec 16) :=
  if tp.lflag iexten then
    let ch := if tp.escaped then ch ||| inEsc else ch
    let tp := { tp with escaped := false }
    if ch = tp.cc .vlnext then (rawecho dev (rawecho dev { tp with escaped := true } 94) 8, none)
    else if ch = tp.cc .vreprint then (reprint dev tp, none)
    else (tp, some ch)
  else (tp, some ch)

/-- The mapping of CR and LF. -/
def mapChar (tp : Tty σ) (ch : BitVec 16) : Tty σ × Option (BitVec 16) :=
  let ch := if ch = 0xFF then ch ||| inEsc else ch
  if ch = 13 then
    if tp.iflag igncr then (tp, none)
    else if tp.iflag icrnl then (tp, some 10)
    else (tp, some ch)
  else if ch = 10 then
    if tp.iflag inlcr then (tp, some 13) else (tp, some ch)
  else (tp, some ch)

/-- Canonical mode. -/
def canonical (tp : Tty σ) (ch : BitVec 16) : Tty σ × Option (BitVec 16) :=
  if tp.lflag icanon then
    if ch = tp.cc .verase then
      let tp := (backOver dev tp).2
      (if tp.lflag echoe then tp else (echo dev tp ch).1, none)
    else if ch = tp.cc .vkill then
      let tp := killLine dev tp.queue.incount.toNat tp
      if tp.lflag echoe then (tp, none)
      else
        let tp := (echo dev tp ch).1
        (if tp.lflag echok then rawecho dev tp 10 else tp, none)
    else
      let ch := if ch = tp.cc .veof then ch ||| (inEot ||| inEof) else ch
      let ch := if ch = 10 then ch ||| inEot else ch
      let ch := if ch = tp.cc .veol then ch ||| inEot else ch
      (tp, some ch)
  else (tp, some ch)

/-- Start and stop. -/
def startStop (tp : Tty σ) (ch : BitVec 16) : Tty σ × Option (BitVec 16) :=
  if tp.iflag ixon then
    if ch = tp.cc .vstop then ({ tp with inhibited := true, events := true }, none)
    else if tp.inhibited ∧ (ch = tp.cc .vstart ∨ tp.iflag ixany) then
      let tp := { tp with inhibited := false, events := true }
      (tp, if ch = tp.cc .vstart then none else some ch)
    else (tp, some ch)
  else (tp, some ch)

/-- The characters for signals. -/
def signalChar (tp : Tty σ) (ch : BitVec 16) : Tty σ × Option (BitVec 16) :=
  if tp.lflag isig ∧ (ch = tp.cc .vintr ∨ ch = tp.cc .vquit) then
    let sig := if ch = tp.cc .vquit then 3 else 2
    ((echo dev (sigchar dev tp sig) ch).1, none)
  else (tp, some ch)

/-- Save the character in the input queue, where there is room. -/
def save (tp : Tty σ) (ch : BitVec 16) : Tty σ :=
  let (tp, ch) :=
    if tp.termios.cLflag &&& (echoFlag ||| echonl) ≠ 0 then echo dev tp ch else (tp, ch)
  let tp := { tp with queue := tp.queue.store ch }
  -- try to finish input if the queue threatens to overflow
  if tp.queue.incount = (ttyInBytes : Int) then inTransfer tp else tp

/-- The stages that a character goes through before it is stored. -/
def stages (tp : Tty σ) (ch : BitVec 16) : Tty σ × Option (BitVec 16) :=
  let ch := if tp.iflag istrip then ch &&& 0x7F else ch
  [extensions dev, mapChar, canonical dev, startStop, signalChar dev].foldl
    (fun (tp, ch) stage => match ch with
      | none => (tp, none)
      | some ch => stage tp ch)
    (tp, some ch)

/-- `in_process`. The result is the number of characters that have been processed. -/
def inProcess : (buf : List UInt8) → (timeset : Bool) → Tty σ → Nat × Tty σ
  | [], _, tp => (0, tp)
  | byte :: buf, timeset, tp =>
    match stages dev tp (byte.toBitVec.setWidth 16) with
    | (tp, none) =>
      let (ct, tp) := inProcess buf timeset tp
      (ct + 1, tp)
    | (tp, some ch) =>
      if tp.queue.incount = ttyInBytes then
        if tp.lflag icanon then -- no space; discard
          let (ct, tp) := inProcess buf timeset tp
          (ct + 1, tp)
        else (0, tp)
      else if tp.lflag icanon then
        let (ct, tp) := inProcess buf timeset (save dev tp ch)
        (ct + 1, tp)
      else
        -- in raw mode all characters are line breaks
        let ch := ch ||| inEot
        let timed := !timeset ∧ tp.cc .vmin ≠ 0 ∧ tp.cc .vtime ≠ 0
        let tp := if timed then { tp with timer := true } else tp
        let (ct, tp) := inProcess buf (timeset || timed) (save dev tp ch)
        (ct + 1, tp)

/-! ### Attributes are set -/

def setattr (tp : Tty σ) : Tty σ :=
  let tp := if tp.lflag icanon then tp else { tp with queue := tp.queue.markAll }
  let tp := { tp with
    timer := false
    min := if tp.lflag icanon then 1
      else if tp.cc .vmin = 0 ∧ tp.cc .vtime ≠ 0 then 1
      else (tp.cc .vmin).toNat }
  let tp := if tp.iflag ixon then tp else { tp with inhibited := false, events := true }
  let tp := if tp.termios.cOspeed = 0 then sigchar dev tp 1 else tp
  { tp with device := dev.ioctl tp.termios tp.device }

end Code

end Minix.Terminal
