/-
This file translates the buffers of the RS232 driver, `kernel/rs232.c` on the IBM PC, and the states
the driver goes through when interrupts occur.

The task works in sections. Between two sections an interrupt may be handled, and a section is what
`lock` and `unlock` enclose, or a single access to what the interrupt handlers share, with what the
task does to its own variables around it. The functions for output (`rs_write`, `rs_echo`,
`rs_ocancel`) and those for input (`rs_read`, `rs_icancel`) are independent: `rs_read` calls the
terminal code while it is at work, and that calls `rs_echo` and `rs_ocancel`.
-/

import Minix.Kernel.Tty

namespace Minix.Kernel.Serial

open Ring

/-! ### Constants -/

def rsIbufsize : Nat := 1024

def rsObufsize : Nat := 1024

def rsIlowwater : Int := 1 * 1024 / 4

def rsIhighwater : Int := 3 * 1024 / 4

def rsOlowwater : Int := 1 * 1024 / 4

def msCts : BitVec 8 := 0x10

def msRlsd : BitVec 8 := 0x80

def mcDtr : BitVec 8 := 1

def mcRts : BitVec 8 := 2

def mcOut2 : BitVec 8 := 8

/-- Output completed. -/
def odone : BitVec 8 := 1

/-- Raw mode: the stop character is an ordinary character. -/
def oraw : BitVec 8 := 2

/-- The device is ready for output. -/
def odevready : BitVec 8 := msCts

/-- The output buffer is not empty. -/
def oqueued : BitVec 8 := 0x20

/-- Output is not stopped. -/
def oswready : BitVec 8 := 0x40

/-- The carrier has dropped. -/
def odevhup : BitVec 8 := msRlsd

/-! ### The state -/

/-- The structure of a line. The ports are left out. -/
structure Rs232 where
  icount : Int := 0
  ihead : Nat := 0
  itail : Nat := 0
  idevready : Bool := false
  cts : BitVec 8 := 0
  ostate : BitVec 8 := 0
  oxoff : UInt8 := 0
  inhibited : Bool := false
  drain : Bool := false
  ocount : Int := 0
  ohead : Nat := 0
  otail : Nat := 0
  lstatus : BitVec 8 := 0
  framingErrors : Nat := 0
  overrunErrors : Nat := 0
  parityErrors : Nat := 0
  breakInterrupts : Nat := 0
  ibuf : Nat → UInt8 := fun _ => 0
  obuf : Nat → UInt8 := fun _ => 0

/-- Where the task is in its output functions: between which two sections. -/
inductive Writer
  | away
  /-- In `rs_write`, the inhibition is known to the driver. -/
  | deciding
  /-- In `rs_config`, at its start, after each of its first two assignments. -/
  | configuring
  | attaching
  | latching
  /-- In `rs_write`, at the head of its loop. -/
  | looping
  /-- `count` characters may be stored, for which the buffer has room. In `rs_echo` it is one. -/
  | measured (echo : Bool) (count space : Int)
  | stored (echo : Bool) (count space : Int)
  /-- `count` characters have been processed into `used` characters of output. -/
  | processed (echo : Bool) (count used : Int)
  /-- The output is counted, and the head has not moved yet. -/
  | counted (echo : Bool) (count used : Int)
deriving DecidableEq

/-- Where the task is in its input functions. -/
inductive Reader
  | away
  /-- In `rs_read`, at the head of its loop. -/
  | looping
  /-- `in_process` looks at `count` characters. -/
  | offered (count : Nat)
  | taken (count : Nat)
  /-- The input is no longer counted, and the tail has not moved yet. -/
  | released (count : Nat)
deriving DecidableEq

/-- What happens at the borders of the driver. -/
inductive Event
  /-- Output is in the buffer and counted. -/
  | queued (bytes : List UInt8)
  /-- A character is given to the transmitter. -/
  | sent (byte : UInt8)
  | cancelled
  /-- A character arrives on the line. -/
  | received (byte : UInt8)
  /-- The modem status is read: the level of CTS. -/
  | cts (up : Bool)
  /-- The terminal stops output, or starts it again. -/
  | inhibited (stopped : Bool)
  /-- The attributes of the line: the stop character, CLOCAL, and start/stop output control. -/
  | stopChar (byte : UInt8)
  | clocal (on : Bool)
  | flow (on : Bool)
deriving DecidableEq

/-- A line: the structure, the terminal, the task and the modem control register. -/
structure Line where
  rs : Rs232
  tty : Tty
  writer : Writer := .away
  reader : Reader := .away
  modemCtl : BitVec 8 := 0
  history : List Event := []

namespace Line

variable (l : Line)

def emit (events : List Event) : Line := { l with history := l.history ++ events }

/-- Tell the terminal that something has happened: `tty_events` and `force_timeout`. -/
def notify : Line := { l with tty := { l.tty with events := true } }

def setOstate (ostate : BitVec 8) : Line := { l with rs := { l.rs with ostate } }

/-! ### Flow control of the input -/

def istart : Line :=
  { l with modemCtl := mcOut2 ||| mcRts ||| mcDtr, rs := { l.rs with idevready := true } }

def istop : Line :=
  { l with modemCtl := mcOut2 ||| mcDtr, rs := { l.rs with idevready := false } }

/-- The device is ready, when the modem status shows this level of CTS. -/
def devready (cts : Bool) : BitVec 8 := ((if cts then msCts else 0) ||| l.rs.cts) &&& msCts

/-! ### Interrupts -/

/-- The oldest character is given to the transmitter. -/
def send : Line :=
  { l with rs := { l.rs with
    otail := next rsObufsize l.rs.otail
    ocount := l.rs.ocount - 1 } }.emit [.sent (l.rs.obuf l.rs.otail)]

def outInt : Line :=
  if odevready ||| oqueued ||| oswready ≤ l.rs.ostate then
    if l.send.rs.ocount = 0 then (l.send.setOstate (l.rs.ostate ^^^ (odone ||| oqueued))).notify
    else if l.send.rs.ocount = rsOlowwater then l.send.notify
    else l.send
  else l

/-- The first half of `in_int`: the character starts or stops output. -/
def inControl (c : UInt8) (txready : Bool) : Line :=
  let l := l.emit [.received c]
  if l.rs.ostate &&& oraw = 0 then
    if c = l.rs.oxoff then l.setOstate (l.rs.ostate &&& ~~~oswready)
    else if l.rs.ostate &&& oswready = 0 then
      let l := l.setOstate (l.rs.ostate ||| oswready)
      if txready then l.outInt else l
    else l
  else l

/-- There is one more character, and the device is asked to stop at the high water mark. -/
def allowInput : Line :=
  let l := { l with rs := { l.rs with icount := l.rs.icount + 1 } }
  if l.rs.icount = rsIhighwater ∧ l.rs.idevready then l.istop else l

/-- The second half of `in_int`: the character is stored if there is room. -/
def inStore (c : UInt8) : Line :=
  if l.rs.icount = rsIbufsize then l
  else
    let l := { l.allowInput with rs := { l.allowInput.rs with
      ibuf := Function.update l.rs.ibuf l.rs.ihead c
      ihead := next rsIbufsize l.rs.ihead } }
    if l.rs.icount = 1 then l.notify else l

def inInt (c : UInt8) (txready : Bool) : Line := (l.inControl c txready).inStore c

def lineInt (status : BitVec 8) : Line :=
  { l with rs := { l.rs with
    lstatus := status
    framingErrors := l.rs.framingErrors + (if status &&& 8 = 0 then 0 else 1)
    overrunErrors := l.rs.overrunErrors + (if status &&& 2 = 0 then 0 else 1)
    parityErrors := l.rs.parityErrors + (if status &&& 4 = 0 then 0 else 1)
    breakInterrupts := l.rs.breakInterrupts + (if status &&& 0x10 = 0 then 0 else 1) } }

/-- The first half of `modem_int`: the carrier may have dropped. -/
def modemCarrier (hangup : Bool) : Line :=
  if hangup then (l.setOstate (l.rs.ostate ||| odevhup)).notify else l

/-- The second half of `modem_int`: the device may be ready, or no longer be. -/
def modemReady (cts txready : Bool) : Line :=
  let l := l.emit [.cts cts]
  if l.devready cts = 0 then l.setOstate (l.rs.ostate &&& ~~~odevready)
  else if l.rs.ostate &&& odevready = 0 then
    let l := l.setOstate (l.rs.ostate ||| odevready)
    if txready then l.outInt else l
  else l

/-- `modem_int`, when the modem status shows that the carrier has dropped, and this level of CTS. -/
def modemInt (hangup cts txready : Bool) : Line := (l.modemCarrier hangup).modemReady cts txready

/-! ### Configuration -/

/-- The speeds of the line, and the divisors for a clock of 115200. -/
def s2d : List (BitVec 16 × Nat) :=
  [(0x1000, 115200 / 50), (0x2000, 115200 / 75), (0x3000, 115200 / 110),
    (0x4000, 115200 * 10 / 1345), (0x5000, 115200 / 150), (0x6000, 115200 / 200),
    (0x7000, 115200 / 300), (0x8000, 115200 / 600), (0x9000, 115200 / 1200),
    (0xA000, 115200 / 1800), (0xB000, 115200 / 2400), (0xC000, 115200 / 4800),
    (0xD000, 115200 / 9600), (0xE000, 115200 / 19200), (0xF000, 115200 / 38400),
    (0x0100, 115200 / 57600), (0x0200, 115200 / 115200)]

def divisor (speed : BitVec 16) : Nat := (s2d.lookup speed).getD 0

/-- Start/stop output control is asked for. -/
def flowControl (tty : Tty) : Bool := tty.cIflag &&& ixon ≠ 0 && tty.vstop != posixVdisable

/-- The three sections of `rs_config`. -/
def takeStop : Line :=
  { l with rs := { l.rs with oxoff := l.tty.vstop } }.emit [.stopChar l.tty.vstop]

def takeClocal : Line :=
  let on := l.tty.cCflag &&& clocal ≠ 0
  { l with rs := { l.rs with cts := if on then msCts else 0 } }.emit [.clocal on]

/-- The flags after configuration. The attribute looked at is IXON among the local modes. -/
def configured (cts : Bool) : BitVec 8 :=
  if l.tty.cLflag &&& ixon ≠ 0 ∧ l.rs.oxoff ≠ posixVdisable then
    (l.devready cts ||| oraw ||| oswready) &&& ~~~oraw
  else l.devready cts ||| oraw ||| oswready

/-- Nothing is done for B0. -/
def latch (cts : Bool) : Line :=
  if divisor l.tty.cOspeed = 0 then l
  else ((l.emit [.cts cts]).emit [.flow (flowControl l.tty)]).setOstate (l.configured cts)

/-- `rs_init`, before interrupts are enabled. The modem status is read twice. -/
def rsInit (tty : Tty) (cts cts' : Bool) : Line :=
  let l : Line := { rs := {}, tty }
  let l := ((l.istop.takeStop).takeClocal.latch cts).emit [.cts cts']
  (l.setOstate (l.devready cts' ||| oraw ||| oswready)).istart

/-! ### Output -/

/-- The first section of `rs_write`: the driver follows the terminal. -/
def followInhibited : Line :=
  if l.rs.inhibited = l.tty.inhibited then l
  else
    let ostate := l.rs.ostate ||| oswready
    { l with rs := { l.rs with
      ostate := if l.tty.inhibited then ostate &&& ~~~oswready else ostate
      inhibited := l.tty.inhibited } }.emit [.inhibited l.tty.inhibited]

def eio : Int := -5

/-- The end of `rs_write`. -/
def leave : Line :=
  let tty := if 0 < l.tty.outleft ∧ l.tty.cOspeed = b0 then
      { l.tty with outleft := 0, outcum := 0, replies := l.tty.replies ++ [eio] }
    else l.tty
  { l with tty, writer := .away }

def measure : Line :=
  let space := rsObufsize - l.rs.ocount
  let count : Int := rsObufsize - l.rs.ohead
  let count := min (min count space) l.tty.outleft
  if count = 0 ∨ l.tty.inhibited then l.leave else { l with writer := .measured false count space }

def process (echo : Bool) (count space : Int) : Line :=
  let result := outProcess l.tty.cOflag rsObufsize count.toNat
    { buf := l.rs.obuf, bpos := l.rs.ohead, oct := space, pos := l.tty.position }
  let count := count - result.1
  let l := { l with
    rs := { l.rs with obuf := result.2.buf }
    tty := { l.tty with position := result.2.pos % 8 } }
  if count = 0 then (if echo then { l with writer := .away } else l.leave)
  else { l with
    tty := { l.tty with reprint := l.tty.reprint || !echo }
    writer := .processed echo count (space - result.2.oct) }

def rsOstart (txready : Bool) : Line :=
  let l := l.setOstate (l.rs.ostate ||| oqueued)
  if txready then l.outInt else l

/-- The section in which output is counted, and may be given to the transmitter. -/
def count (echo : Bool) (count used : Int) (txready : Bool) : Line :=
  let counted := { l with
    rs := { l.rs with ocount := l.rs.ocount + used }
    writer := .counted echo count used }
  (counted.emit [.queued (contents rsObufsize l.rs.obuf l.rs.ohead used.toNat)]).rsOstart txready

/-- The head moves, and `rs_write` replies to the writer when its output is finished. -/
def advance (echo : Bool) (count used : Int) : Line :=
  let l := { l with rs := { l.rs with
    ohead := if rsObufsize ≤ l.rs.ohead + used.toNat then l.rs.ohead + used.toNat - rsObufsize
      else l.rs.ohead + used.toNat } }
  if echo then { l with writer := .away }
  else
    let tty : Tty :=
      { l.tty with outleft := l.tty.outleft - count, outcum := l.tty.outcum + count }
    let tty := if tty.outleft = 0 then
        { tty with outcum := 0, replies := tty.replies ++ [tty.outcum] }
      else tty
    { l with tty, writer := .looping }

def rsOcancel : Line :=
  { l with rs := { l.rs with
    ostate := l.rs.ostate &&& ~~~(odone ||| oqueued)
    ocount := 0
    otail := l.rs.ohead } }.emit [.cancelled]

/-! ### Input -/

def rsIcancel : Line :=
  { l with rs := { l.rs with icount := 0, itail := l.rs.ihead } }.istart

/-- The start of `rs_read`: a hangup is noticed and the line is disabled. -/
def checkHangup : Line :=
  if l.tty.cCflag &&& clocal = 0 then
    let hangup := l.rs.ostate &&& odevhup ≠ 0
    let l := l.setOstate (l.rs.ostate &&& ~~~odevhup)
    if hangup then { l with tty := { l.tty with cOspeed := b0 } } else { l with reader := .looping }
  else { l with reader := .looping }

def offer : Line :=
  if 0 < l.rs.icount then
    { l with reader := .offered (min l.rs.icount.toNat (rsIbufsize - l.rs.itail)) }
  else { l with reader := .away }

def release (count : Nat) : Line :=
  let l := { l with
    rs := { l.rs with icount := l.rs.icount - count }
    reader := .released count }
  if l.rs.idevready = false ∧ l.rs.icount < rsIlowwater then l.istart else l

def retire (count : Nat) : Line :=
  let itail := l.rs.itail + count
  { l with
    rs := { l.rs with itail := if itail = rsIbufsize then 0 else itail }
    reader := .looping }

end Line

/-! ### Steps -/

/-- A section of the task, or an interrupt, with what it finds outside. -/
inductive Action
  /-- The terminal code changes its own variables, or calls the driver. -/
  | tty (tty : Tty)
  | ioctl
  | write
  | echo
  | ocancel
  | read
  | icancel
  /-- The next section of an output function. -/
  | drain
  | takeStop
  | takeClocal
  | latch (cts : Bool)
  | measure
  | store (bytes : List UInt8)
  | process
  | count (txready : Bool)
  | advance
  /-- The next section of `rs_read`. -/
  | offer
  | take (count : Nat)
  | release
  | retire
  /-- Interrupts. -/
  | inInt (c : UInt8) (txready : Bool)
  | outInt
  | modemInt (hangup cts txready : Bool)
  | lineInt (status : BitVec 8)

namespace Line

/-- The task is in the terminal code: outside the driver, or in `in_process`. -/
def inTerminal (l : Line) : Bool :=
  l.writer == .away && match l.reader with
    | .away | .offered _ => true
    | _ => false

/-- The task is outside the driver. -/
def outside (l : Line) : Bool := l.writer == .away && l.reader == .away

/-- One step. It is `none` where the task is not at that section. -/
def step (l : Line) : Action → Option Line
  | .tty tty => if l.inTerminal then some { l with tty } else none
  | .ioctl => if l.inTerminal then some { l with rs := { l.rs with drain := true } } else none
  | .write => if l.outside then some { l.followInhibited with writer := .deciding } else none
  | .echo =>
    let space := rsObufsize - l.rs.ocount
    if l.inTerminal then
      if space = 0 then some l else some { l with writer := .measured true 1 space }
    else none
  | .ocancel => if l.inTerminal then some l.rsOcancel else none
  | .read => if l.outside then some l.checkHangup else none
  | .icancel => if l.outside then some l.rsIcancel else none
  | .drain =>
    if l.writer = .deciding then
      if l.rs.drain then
        if 0 < l.rs.ocount then some { l with writer := .away }
        else some { l with rs := { l.rs with drain := false }, writer := .configuring }
      else some { l with writer := .looping }
    else none
  | .takeStop =>
    if l.writer = .configuring then some { l.takeStop with writer := .attaching } else none
  | .takeClocal =>
    if l.writer = .attaching then some { l.takeClocal with writer := .latching } else none
  | .latch cts =>
    if l.writer = .latching then some { l.latch cts with writer := .looping } else none
  | .measure => if l.writer = .looping then some l.measure else none
  | .store bytes =>
    match l.writer with
    | .measured echo count space =>
      if bytes.length = count then
        some { l with
          rs := { l.rs with obuf := fill rsObufsize l.rs.obuf l.rs.ohead bytes }
          writer := .stored echo count space }
      else none
    | _ => none
  | .process =>
    match l.writer with
    | .stored echo count space => some (l.process echo count space)
    | _ => none
  | .count txready =>
    match l.writer with
    | .processed echo count used => some (l.count echo count used txready)
    | _ => none
  | .advance =>
    match l.writer with
    | .counted echo count used => some (l.advance echo count used)
    | _ => none
  | .offer => if l.writer = .away ∧ l.reader = .looping then some l.offer else none
  | .take taken =>
    match l.reader with
    | .offered count =>
      if l.writer = .away ∧ taken ≤ count then
        some { l with reader := if taken = 0 then .away else .taken taken }
      else none
    | _ => none
  | .release =>
    match l.reader with
    | .taken count => some (l.release count)
    | _ => none
  | .retire =>
    match l.reader with
    | .released count => some (l.retire count)
    | _ => none
  | .inInt c txready => some (l.inInt c txready)
  | .outInt => some l.outInt
  | .modemInt hangup cts txready => some (l.modemInt hangup cts txready)
  | .lineInt status => some (l.lineInt status)

end Line

end Minix.Kernel.Serial
