/-
This file models the lists of connections that have something to send on a TCP port:
`tcp_conn_write`, `tcp_port_write`, `make_pack` and `tcp_close_connection`
(`inet/generic/tcp_send.c`), and `tcp_get_data`, `tcp_notreach` and `tcp_buffree`
(`inet/generic/tcp.c`).

`tcp_port_write` is cut into steps: a turn of the outer loop, a packet that is made, a packet that
goes to `ip_send`, and one that goes to `ip_write`. When IP or `make_pack` asks for memory and
there is none, `tcp_buffree` closes connections in the middle of it. The packets themselves are
left out, and so are the replies to the users. A step that is `none` is a failed assertion.
-/

import Mathlib.Algebra.GroupWithZero.Nat
import Minix.Inet.TcpSend
import Minix.Library.Chains

namespace Minix.Inet.SendList

open Function (update)
open LinkedList (scan visited)

/-! ### Ports and connections -/

/-- `TCP_CONN_NR` -/
abbrev tcpConnNr : Nat := 80

instance : NeZero tcpConnNr := ⟨by decide⟩

abbrev ConnNr := Fin tcpConnNr

abbrev PortNr := Nat

/-- What decides what a connection sends: `inuse` is `TCF_INUSE`, `sendAck` is `TCF_SEND_ACK`,
`frag2send` says whether there is a `tc_frag2send`, and `pending` whether the user waits for a
write or an ioctl. -/
structure Conn where
  core : TcpConn := closedConn
  inuse : Bool := false
  sendAck : Bool := false
  frag2send : Bool := false
  pending : Bool := false
  ttl : Nat := 0
deriving DecidableEq

/-- Where `tcp_port_write` is. -/
inductive Control
  | idle
  | head (p : PortNr)
  | pack (p : PortNr) (c : ConnNr)
  | send (p : PortNr) (c : ConnNr)
  | write (p : PortNr) (c : ConnNr)
deriving DecidableEq

/-- The connections with `TCF_MORE2WRITE`, `tc_port` and `tc_send_link`, and the ports with
`tp_snd_head`, `tp_snd_tail`, `TPF_WRITE_IP`, `TPF_WRITE_SP` and whether `tp_snd_event` is in the
event queue. -/
structure State where
  conn : ConnNr → Conn := fun _ => {}
  more2write : ConnNr → Bool := fun _ => false
  port : ConnNr → PortNr := fun _ => 0
  sendLink : ConnNr → Option ConnNr := fun _ => none
  head : PortNr → Option ConnNr := fun _ => none
  tail : PortNr → Option ConnNr := fun _ => none
  writeIp : PortNr → Bool := fun _ => false
  writeSp : PortNr → Bool := fun _ => false
  sndEvent : PortNr → Bool := fun _ => false
  control : Control := .idle

def State.setConn (s : State) (c : ConnNr) (conn : Conn) : State :=
  { s with conn := update s.conn c conn }

/-! ### Writing -/

/-- `tcp_port_write` is called. -/
def portWrite (s : State) (p : PortNr) : Option State :=
  if s.writeIp p then none else some { s with control := .head p }

def connWrite (s : State) (c : ConnNr) (enq : Bool) : Option State :=
  if (s.conn c).inuse = false then none
  else if s.more2write c then some s
  else
    let p := s.port c
    let s := { s with
      more2write := update s.more2write c true
      sendLink := update s.sendLink c none }
    match s.head p with
    | none =>
      let s := { s with
        head := update s.head p (some c)
        tail := update s.tail p (some c) }
      if enq then some { s with sndEvent := update s.sndEvent p true }
      else portWrite s p
    | some _ =>
      (s.tail p).map fun last => { s with
        sendLink := update s.sendLink last (some c)
        tail := update s.tail p (some c) }

/-! ### Closing -/

/-- The connection is taken off the list of its port. -/
def unlink (s : State) (c : ConnNr) : Option State :=
  let p := s.port c
  (scan s.sendLink (fun tc => s.sendLink tc == some c) tcpConnNr none (s.head p)).bind fun
    | none =>
      if s.head p = some c then
        some { s with head := update s.head p (s.sendLink c) }
      else none
    | some (_, tc) =>
      some { s with
        sendLink := update s.sendLink tc (s.sendLink c)
        tail := if s.sendLink c = none then update s.tail p (some tc) else s.tail }

/-- `tcp_fd_write` answers the user who waits, and all flags but `TCF_INUSE` are cleared. -/
def closeConnection (s : State) (c : ConnNr) : Option State :=
  let conn := s.conn c
  if conn.inuse = false then none
  else if conn.core.tcState = .closed then some s
  else
    let s := s.setConn c { conn with
      core := tcpCloseConnection conn.core
      sendAck := false
      frag2send := false
      pending := false }
    (if conn.pending then connWrite s c true else some s).bind fun s =>
      (if s.more2write c then unlink s c else some s).map fun s =>
        { s with more2write := update s.more2write c false }

/-- What is freed when there are no buffers: `tc_frag2send` of some connections, and all that
belongs to others. -/
structure Shortage where
  frags : List ConnNr := []
  closed : List ConnNr := []
deriving DecidableEq

/-- `tcp_buffree` for a connection that it closes. -/
def buffree (busy : Option ConnNr) (s : State) (c : ConnNr) : Option State :=
  if (s.conn c).inuse = false ∨ busy = some c then some s else closeConnection s c

/-- The fragments that `tcp_buffree` frees. -/
def freeFrags (busy : Option ConnNr) (s : State) (frags : List ConnNr) : State :=
  { s with
    conn := fun c =>
      if c ∈ frags ∧ (s.conn c).inuse ∧ busy ≠ some c then { s.conn c with frag2send := false }
      else s.conn c }

def shortage (busy : Option ConnNr) (s : State) (short : Shortage) : Option State :=
  short.closed.foldlM (buffree busy) (freeFrags busy s short.frags)

/-! ### Packets -/

/-- `make_pack` with the size of the header: whether there is a packet. A segment with data moves
`tc_SND_TRM`. -/
def makePack (currTime : Int) (totHdrSize : UInt32) (c : Conn) : Option (Conn × Bool) :=
  match c.core.tcState with
  | .closed => some (c, false)
  | .synReceived | .synSent =>
    if c.core.tcSNDTRM = c.core.tcSNDNXT ∧ c.sendAck = false then some (c, false)
    else some ({ c with core := sendSyn c.core, sendAck := false }, true)
  | .established | .closing =>
    (sendData currTime totHdrSize c.core).map fun core =>
      ({ c with core, sendAck := false }, c.sendAck || core.tcSNDTRM != c.core.tcSNDTRM)
  | .listen => none

/-- The time to live that `tcp_notreach` tries next: `TCP_DEF_TTL_NEXT` after `TCP_DEF_TTL`. -/
def nextTtl (ttl : Nat) : Nat := if ttl = 5 then 30 else min (ttl * 2) ipMaxTtl

/-- `tcp_notreach` -/
def notreach (s : State) (c : ConnNr) : Option State :=
  let conn := s.conn c
  if conn.ttl = ipMaxTtl then
    if conn.core.tcState = .synSent then closeConnection s c else some s
  else
    let core := { conn.core with tcStt := 0, tcSNDTRM := conn.core.tcSNDUNA }
    connWrite (s.setConn c { conn with core, ttl := nextTtl conn.ttl }) c true

/-- The end of a write, in `tcp_get_data`: it may have failed with `EDSTNOTRCH`. -/
def getData (s : State) (p : PortNr) (unreached : Bool) : Option State :=
  if s.writeIp p = false then none
  else
    (match s.head p with
      | some c => if unreached then notreach s c else some s
      | none => some s).bind fun s =>
      if s.writeSp p then
        let s := { s with
          writeIp := update s.writeIp p false
          writeSp := update s.writeSp p false }
        if s.head p = none then some s else portWrite s p
      else some { s with writeIp := update s.writeIp p false }

/-! ### Steps -/

/-- The answers of `ip_send`. -/
inductive IpAnswer
  | ok
  | wouldblock
  | edstnotrch
  | ebaddest
  | other
deriving DecidableEq

/-- What can happen: the four operations, what the rest of the server does to a connection, the
event of a port, and the steps of `tcp_port_write`. `ip_write` suspends, or it answers at once. -/
inductive Label
  | connWrite (c : ConnNr) (enq : Bool)
  | close (c : ConnNr)
  | completed (p : PortNr) (unreached : Bool)
  | update (c : ConnNr) (conn : Conn) (port : PortNr)
  | sndEvent (p : PortNr)
  | turn
  | makePack (currTime : Int) (totHdrSize : UInt32) (short : Shortage)
  | ipSend (short : Shortage) (answer : IpAnswer)
  | ipWrite (short : Shortage) (answer : Option Bool)
deriving DecidableEq

/-- A packet is made, or the connection leaves the list. A connection that is closed needs no
memory. -/
def stepPack (s : State) (p : PortNr) (c : ConnNr) (currTime : Int) (totHdrSize : UInt32)
    (short : Shortage) : Option State :=
  if (s.conn c).frag2send then
    some { s.setConn c { s.conn c with frag2send := false } with control := .send p c }
  else
    let short := if (s.conn c).core.tcState = .closed then {} else short
    (shortage (some c) s short).bind fun s =>
      (makePack currTime totHdrSize (s.conn c)).map fun (conn, made) =>
        let s := s.setConn c conn
        if made then { s with control := .send p c }
        else
          { s with
            more2write := update s.more2write c false
            head := update s.head p (s.sendLink c)
            control := .head p }

def stepSend (s : State) (p : PortNr) (c : ConnNr) (short : Shortage) (answer : IpAnswer) :
    Option State :=
  (shortage none s short).bind fun s =>
    match answer with
    | .ok | .ebaddest => some { s with control := .pack p c }
    | .wouldblock => some { s with control := .write p c }
    | .edstnotrch => (notreach s c).map fun s => { s with control := .pack p c }
    | .other => none

def stepWrite (s : State) (p : PortNr) (short : Shortage) (answer : Option Bool) :
    Option State :=
  (shortage none { s with writeIp := update s.writeIp p true } short).bind fun s =>
    match answer with
    | none => some { s with writeSp := update s.writeSp p true, control := .idle }
    | some unreached =>
      (getData s p unreached).bind fun s =>
        if s.writeIp p ∨ s.writeSp p then none else some { s with control := .head p }

def step (s : State) (label : Label) : Option State :=
  match s.control, label with
  | .idle, .connWrite c enq => connWrite s c enq
  | .idle, .close c => closeConnection s c
  | .idle, .completed p unreached => getData s p unreached
  | .idle, .update c conn port =>
    some { s.setConn c conn with
      port := if s.more2write c then s.port else update s.port c port }
  | .idle, .sndEvent p =>
    if s.sndEvent p then
      portWrite { s with sndEvent := update s.sndEvent p false } p
    else none
  | .head p, .turn =>
    match s.head p with
    | none => some { s with control := .idle }
    | some c => if s.more2write c then some { s with control := .pack p c } else none
  | .pack p c, .makePack currTime totHdrSize short => stepPack s p c currTime totHdrSize short
  | .send p c, .ipSend short answer => stepSend s p c short answer
  | .write p _, .ipWrite short answer => stepWrite s p short answer
  | _, _ => none

/-- No connection is in use. -/
def start : State := {}

end Minix.Inet.SendList
