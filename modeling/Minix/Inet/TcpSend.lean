/-
This file models the sending side of a TCP connection of the network server: `tcp_setup_conn`,
`tcp_close` and `tcp_notreach` (`inet/generic/tcp.c`), the acknowledgements in `tcp_frag2conn`
(`inet/generic/tcp_recv.c`), and `make_pack`, `tcp_release_retrans`, `tcp_send_timeout`,
`tcp_fd_write`, `tcp_shutdown` and `tcp_close_connection` (`inet/generic/tcp_send.c`).

The data itself, the urgent and push pointers, the receiving side and the replies to the user are
left out. The clock does not wrap. Data that a pending write adds while an acknowledgement is
handled, and segments that are sent then, are events of their own. A result that is `none` is a
failed assertion, or an event that cannot happen.
-/

import Minix.Inet.OneCsum
import Minix.Library.Transition

namespace Minix.Inet

/-! ### Sequence numbers -/

/-- `tcp_Lmod4G` -/
def tcpLmod4G (n1 n2 : UInt32) : Bool := (n1 - n2) &&& 0x80000000 ≠ 0

/-- `tcp_GEmod4G` -/
def tcpGEmod4G (n1 n2 : UInt32) : Bool := (n1 - n2) &&& 0x80000000 = 0

/-- `tcp_Gmod4G` -/
def tcpGmod4G (n1 n2 : UInt32) : Bool := (n2 - n1) &&& 0x80000000 ≠ 0

/-- `tcp_LEmod4G` -/
def tcpLEmod4G (n1 n2 : UInt32) : Bool := (n2 - n1) &&& 0x80000000 = 0

/-! ### Connections -/

/-- `tc_state` -/
inductive TcpState
  | closed
  | listen
  | synReceived
  | synSent
  | established
  | closing
deriving DecidableEq

/-- The sending side of a `tcp_conn_t`: `tcFd` says whether there is a `tc_fd`, `finSent` is
`TCF_FIN_SENT`, and `tcTransmitTimer` the time at which the timer expires. -/
structure TcpConn where
  tcState : TcpState
  tcFd : Bool
  tcISS : UInt32
  tcSNDUNA : UInt32
  tcSNDTRM : UInt32
  tcSNDNXT : UInt32
  tcSndCwnd : UInt32
  tcSndCthresh : UInt32
  tcSndCinc : UInt32
  tcSndWnd : UInt16
  tcRtTime : Int
  tcRtSeq : UInt32
  tcRtThreshold : UInt32
  tcRtt : Int
  tcMss : UInt16
  tcTransmitTimer : Option Int
  tcTransmitSeq : UInt32
  tc0wndTo : Int
  tcStt : Int
  tcRtDead : Int
  finSent : Bool
deriving DecidableEq

def tcpDefMss : UInt16 := 1400
def tcpMaxSndWndSize : UInt16 := 16384
def tcpDefRtt : Int := 15

/-- `TCP_RTT_GRAN*CLOCK_GRAN` -/
def tcpRttGran : Int := 5

def tcpRttMax : Int := 10 * hz
def tcpDefRtDead : Int := 20 * 60 * hz
def tcpDefRtMaxConnect : Int := 5 * 60 * hz
def tcpDefRtMaxListen : Int := 1 * 60 * hz
def tcpDefRtMaxClosing : Int := 1 * 60 * hz
def tcp0wndMin : Int := hz
def tcp0wndMax : Int := 5 * 60 * hz

/-- A connection that is not in use, as `tcp_init` leaves it. -/
def closedConn : TcpConn where
  tcState := .closed
  tcFd := false
  tcISS := 0
  tcSNDUNA := 0
  tcSNDTRM := 0
  tcSNDNXT := 0
  tcSndCwnd := 0
  tcSndCthresh := 0
  tcSndCinc := 1400 * 1400 / 16384 + 1
  tcSndWnd := tcpMaxSndWndSize
  tcRtTime := 0
  tcRtSeq := 0
  tcRtThreshold := 0
  tcRtt := tcpDefRtt
  tcMss := tcpDefMss
  tcTransmitTimer := none
  tcTransmitSeq := 0
  tc0wndTo := 0
  tcStt := 0
  tcRtDead := tcpDefRtDead
  finSent := false

/-- `tcp_setup_conn`, with the initial sequence number, and the caller's state. `tcp_connect` starts
the timer. -/
def tcpSetupConn (currTime : Int) (iss : UInt32) (listens : Bool) : TcpConn where
  tcState := if listens then .listen else .synSent
  tcFd := true
  tcISS := iss
  tcSNDUNA := iss
  tcSNDTRM := iss
  tcSNDNXT := iss + 1
  tcSndCwnd := iss + 2 * tcpDefMss.toUInt32
  tcSndCthresh := tcpMaxSndWndSize.toUInt32
  tcSndCinc := 1400 * 1400 / 16384 + 1
  tcSndWnd := tcpMaxSndWndSize
  tcRtTime := 0
  tcRtSeq := 0
  tcRtThreshold := iss
  tcRtt := tcpDefRtt
  tcMss := tcpDefMss
  tcTransmitTimer := if listens then none else some (currTime + tcpDefRtt)
  tcTransmitSeq := 0
  tc0wndTo := 0
  tcStt := if listens then 0 else currTime
  tcRtDead := if listens then tcpDefRtMaxListen else tcpDefRtMaxConnect
  finSent := false

/-- `tcp_set_send_timer` -/
def tcpSetSendTimer (currTime : Int) (c : TcpConn) : TcpConn :=
  { c with tcTransmitTimer := some (currTime + c.tcRtt), tcStt := currTime }

/-- `tcp_close_connection` -/
def tcpCloseConnection (c : TcpConn) : TcpConn :=
  if c.tcState = .closed then c
  else
    { c with
      tcState := .closed
      tcSNDTRM := c.tcSNDUNA
      tcSNDNXT := c.tcSNDUNA
      tcTransmitTimer := none
      tcTransmitSeq := 0
      finSent := false }

/-! ### Acknowledgements -/

/-- `assert (tcp_conn->tc_rtt)` -/
def setRtt (rtt : Int) (c : TcpConn) : Option TcpConn :=
  if rtt = 0 then none else some { c with tcRtt := rtt }

/-- The estimate is not made smaller than its least value. -/
def atLeastGran (rtt : Int) : Int := if rtt < tcpRttGran then tcpRttGran else rtt

/-- The first part of `tcp_release_retrans`: the round trip. -/
def updateRtt (currTime : Int) (segAck : UInt32) (c : TcpConn) : Option TcpConn :=
  if c.tcRtSeq ≠ 0 ∧ tcpGmod4G segAck c.tcRtSeq then
    if currTime < c.tcRtTime then none
    else
      let retransTime := currTime - c.tcRtTime
      let rtt := c.tcRtt
      let c := { c with tcRtSeq := 0 }
      if rtt = tcpRttGran ∧ retransTime ≤ tcpRttGran then some c
      else if retransTime ≤ rtt ∧ rtt ≤ 2 * retransTime then some c
      else if rtt < retransTime then
        setRtt (if tcpRttMax < rtt * 2 then tcpRttMax else rtt * 2) c
      else if segAck - c.tcRtSeq = c.tcMss.toUInt32 then setRtt (atLeastGran (rtt * 3 / 4)) c
      else setRtt (atLeastGran (rtt * 31 / 32)) c
  else some c

/-- The second part: the window. -/
def updateWindow (segAck : UInt32) (newWin : UInt16) (c : TcpConn) : Option TcpConn :=
  if segAck = c.tcSNDUNA then none
  else
    let window := c.tcSndCwnd - c.tcSNDUNA + c.tcMss.toUInt32
    let cthresh := c.tcSndCthresh.toUInt16
    let raised := (cthresh.toUInt32 + c.tcSndCinc).toUInt16
    let c :=
      if cthresh.toUInt32 < window then { c with tcSndCthresh := raised.toUInt32 } else c
    let window := if cthresh.toUInt32 < window then raised.toUInt32 else window
    let window := if newWin.toUInt32 < window then newWin.toUInt32 else window
    some { c with tcSndCwnd := segAck + window }

/-- The number of bytes that stay in the queue. -/
def sizeQueued (segAck : UInt32) (c : TcpConn) : UInt32 :=
  if c.finSent then
    c.tcSNDNXT - 1 - (if segAck = c.tcSNDNXT then segAck - 1 else segAck)
  else c.tcSNDNXT - segAck

/-- All before the number is acknowledged. -/
def advance (segAck : UInt32) (c : TcpConn) : TcpConn :=
  { c with
    tcSNDUNA := segAck
    tcSNDTRM := if tcpLmod4G c.tcSNDTRM segAck then segAck else c.tcSNDTRM }

/-- Reset window if a write is completed. -/
def resetWindow (size : UInt32) (c : TcpConn) : TcpConn :=
  if size = 0 then { c with tcSndCwnd := c.tcSNDUNA + 2 * c.tcMss.toUInt32 } else c

/-- Nothing beyond the window counts as transmitted. -/
def limitTransmitted (c : TcpConn) : TcpConn :=
  if tcpGmod4G c.tcSNDTRM c.tcSndCwnd then { c with tcSNDTRM := c.tcSndCwnd } else c

/-- An abandoned connection is closed when all data has been sent. -/
def closeAbandoned (c : TcpConn) : Option TcpConn :=
  if ¬c.tcFd ∧ c.tcSNDUNA = c.tcSNDNXT then
    if c.tcState = .closing then some (tcpCloseConnection c) else none
  else some c

/-- The third part: the data that need not be kept. -/
def releaseData (segAck : UInt32) (c : TcpConn) : Option TcpConn :=
  if tcpGEmod4G c.tcSndCwnd segAck then
    closeAbandoned (limitTransmitted (resetWindow (sizeQueued segAck c) (advance segAck c)))
  else none

def tcpReleaseRetrans (currTime : Int) (segAck : UInt32) (newWin : UInt16) (c : TcpConn) :
    Option TcpConn :=
  if tcpGEmod4G segAck c.tcSNDUNA ∧ tcpLEmod4G segAck c.tcSNDNXT then
    ((updateRtt currTime segAck c).bind (updateWindow segAck newWin)).bind (releaseData segAck)
  else none

/-- The segment acknowledges new data. -/
def AcksData (segAck : UInt32) (c : TcpConn) : Prop :=
  tcpLmod4G c.tcSNDUNA segAck ∧ tcpLEmod4G segAck c.tcSNDNXT

instance (segAck : UInt32) (c : TcpConn) : Decidable (AcksData segAck c) :=
  inferInstanceAs (Decidable (_ ∧ _))

/-- An acknowledgement without new data: the window. -/
def updateZeroWindow (segWnd : UInt16) (c : TcpConn) : TcpConn :=
  if c.tcSndCwnd = c.tcSNDUNA ∧ segWnd ≠ 0 then
    let segWnd := if 2 * c.tcMss.toNat < segWnd.toNat then 2 * c.tcMss else segWnd
    { c with tcSndCwnd := c.tcSNDUNA + segWnd.toUInt32 }
  else if segWnd = 0 then { c with tcSndCwnd := c.tcSNDUNA, tcSNDTRM := c.tcSNDUNA }
  else c

/-- The acknowledgement of an acceptable segment in `TCS_ESTABLISHED` and `TCS_CLOSING`. -/
def ackedOpen (currTime : Int) (segAck : UInt32) (segWnd : UInt16) (c : TcpConn) :
    Option TcpConn :=
  if segAck = c.tcSNDUNA then some (updateZeroWindow segWnd c)
  else if AcksData segAck c then tcpReleaseRetrans currTime segAck segWnd c
  else some c

/-- What `tcp_frag2conn` does with the acknowledgement of an acceptable segment. The time of the
first send is not reset for a connection that the user has closed. -/
def acked (currTime : Int) (segAck : UInt32) (segWnd : UInt16) (c : TcpConn) : Option TcpConn :=
  match c.tcState with
  | .synReceived =>
    if AcksData segAck c then
      tcpReleaseRetrans currTime segAck segWnd
        { c with tcState := .established, tcRtDead := tcpDefRtDead }
    else some c
  | .established => ackedOpen currTime segAck segWnd { c with tcStt := 0 }
  | .closing => ackedOpen currTime segAck segWnd c
  | _ => none

/-! ### Segments -/

/-- The segments of a connection that is being set up, in `make_pack`. -/
def sendSyn (c : TcpConn) : TcpConn :=
  if c.tcSNDTRM = c.tcISS then { c with tcSNDTRM := c.tcSNDTRM + 1 } else c

/-- `seg_lo_data`, `seg_hi` and `seg_hi_data` in `make_pack`. -/
def segmentBounds (totHdrSize : UInt32) (c : TcpConn) : UInt32 × UInt32 × UInt32 :=
  let segSeq := c.tcSNDTRM
  let segHi := c.tcSNDNXT
  let segLoData := if c.finSent ∧ segSeq = segHi then segSeq - 1 else segSeq
  let segHiData := if c.finSent then segHi - 1 else segHi
  let long := c.tcMss.toUInt32 - totHdrSize < segHiData - segLoData
  let segHi := if long then segLoData + c.tcMss.toUInt32 - totHdrSize else segHi
  let segHiData := if long then segLoData + c.tcMss.toUInt32 - totHdrSize else segHiData
  if tcpGmod4G segHi c.tcSndCwnd then (segLoData, c.tcSndCwnd, c.tcSndCwnd)
  else (segLoData, segHi, segHiData)

/-- The segment up to `seg_hi` is sent; its sequence number is measured, if none is. -/
def sendSegment (currTime : Int) (segHi : UInt32) (c : TcpConn) : TcpConn :=
  if c.tcRtSeq = 0 ∧ tcpGmod4G c.tcSNDTRM c.tcRtThreshold then
    { c with
      tcSNDTRM := segHi
      tcRtTime := currTime
      tcRtThreshold := c.tcSNDTRM
      tcRtSeq := c.tcSNDTRM }
  else { c with tcSNDTRM := segHi }

/-- The data of a segment, in `make_pack`. -/
def sendData (currTime : Int) (totHdrSize : UInt32) (c : TcpConn) : Option TcpConn :=
  let segSeq := c.tcSNDTRM
  if c.tcSNDUNA = c.tcSNDNXT then some c
  else if ¬tcpLEmod4G segSeq c.tcSNDNXT then none
  else if segSeq = c.tcSndCwnd then some c -- no data: window is closed
  else if c.tcSNDUNA = c.tcISS then none
  else
    let bounds := segmentBounds totHdrSize c
    if bounds.2.1 = segSeq then some c -- no data: no data available
    else if segSeq ≠ c.tcSNDUNA ∧ bounds.2.2 - bounds.1 + totHdrSize < c.tcMss.toUInt32 then
      some c -- no data: partial packet
    else some (sendSegment currTime bounds.2.1 c)

def makePack (currTime : Int) (totHdrSize : UInt32) (c : TcpConn) : Option TcpConn :=
  match c.tcState with
  | .synReceived | .synSent => some (sendSyn c)
  | .established | .closing => sendData currTime totHdrSize c
  | _ => none

/-! ### Timeouts -/

/-- All that is not acknowledged is to be transmitted again, or one byte if the window is closed. -/
def restartTransmission (c : TcpConn) : TcpConn :=
  if c.tcSndCwnd = c.tcSNDUNA then
    { c with tcSNDTRM := c.tcSNDUNA, tcSndCwnd := c.tcSndCwnd + 1 }
  else { c with tcSNDTRM := c.tcSNDUNA }

/-- The reduction of the window in `tcp_send_timeout`. -/
def reduceWindow (c : TcpConn) : TcpConn :=
  let mss2 := 2 * c.tcMss
  if tcpGmod4G c.tcSndCwnd (c.tcSNDUNA + mss2.toUInt32) then
    let c := limitTransmitted { c with tcSndCwnd := c.tcSNDUNA + mss2.toUInt32 }
    { c with
      tcSndCthresh :=
        if c.tcSndCthresh / 2 < mss2.toUInt32 then mss2.toUInt32 else c.tcSndCthresh / 2 }
  else c

/-- The time to wait for an open window. -/
def zeroWindowWait (c : TcpConn) : Int :=
  if c.tc0wndTo < tcp0wndMin then tcp0wndMin
  else if c.tc0wndTo < c.tcRtt then c.tcRtt
  else if tcp0wndMax < c.tc0wndTo * 2 then tcp0wndMax
  else c.tc0wndTo * 2

/-- The threshold sequence number for retransmission calculation. -/
def updateThreshold (c : TcpConn) : TcpConn :=
  if tcpGmod4G c.tcSNDTRM c.tcRtThreshold then { c with tcRtThreshold := c.tcSNDTRM } else c

/-- The end of `tcp_send_timeout`: give up, or set the timer and measure the retransmission. -/
def retransmit (currTime : Int) (c : TcpConn) : Option TcpConn :=
  if currTime < c.tcStt then none
  else if c.tcRtDead < currTime - c.tcStt then some (tcpCloseConnection c)
  else
    let timeout := (currTime - c.tcStt) / 8
    let timeout := (if timeout < c.tcRtt then c.tcRtt else timeout) + currTime
    if c.tcRtSeq = 0 then
      some { c with
        tcTransmitTimer := some timeout
        tcRtTime := currTime - c.tcRtt
        tcRtSeq := c.tcSNDUNA }
    else some { c with tcTransmitTimer := some timeout }

def tcpSendTimeout (currTime : Int) (c : TcpConn) : Option TcpConn :=
  if c.tcState = .closed ∨ c.tcState = .listen then none
  else if c.tcSNDNXT = c.tcSNDUNA then
    if c.tcSNDTRM = c.tcSNDUNA then
      some { c with tcTransmitTimer := none, tcTransmitSeq := c.tcSNDUNA, tcStt := 0, tc0wndTo := 0 }
    else none
  else if c.tcTransmitSeq ≠ c.tcSNDUNA then
    some { c with
      tcTransmitSeq := c.tcSNDUNA
      tcStt := 0
      tc0wndTo := 0
      tcTransmitTimer := some (currTime + c.tcRtt) }
  else if c.tcStt = 0 then
    some { c with
      tc0wndTo := zeroWindowWait c
      tcStt := currTime
      tcRtSeq := 0
      tcTransmitTimer := some (currTime + zeroWindowWait c) }
  else retransmit currTime (reduceWindow (restartTransmission (updateThreshold c)))

/-! ### Events -/

/-- What can happen to a connection: it is set up, a SYN comes for a listener, a SYN with an
acknowledgement (or without) comes for a connect, an acceptable segment acknowledges something, a
segment is made, the user writes, a write goes on, the user shuts the connection down or closes it,
the other side cannot be reached, the connection fails, or the timer expires. -/
inductive TcpEvent
  | setup (currTime : Int) (iss : UInt32) (listens : Bool)
  | synReceived (currTime : Int)
  | synAcked (segAck : Option UInt32)
  | acked (currTime : Int) (segAck : UInt32) (segWnd : UInt16)
  | made (currTime : Int) (totHdrSize : UInt32)
  | written (currTime : Int) (count : UInt32) (urg : Bool)
  | continued (count : UInt32) (urg : Bool)
  | shutdown (currTime : Int)
  | closed (currTime : Int)
  | notreach
  | failed
  | timeout (currTime : Int)
deriving DecidableEq

/-- A SYN in `TCS_SYN_SENT`. -/
def synAcked (segAck : Option UInt32) (c : TcpConn) : Option TcpConn :=
  match segAck with
  | none => some { c with tcState := .synReceived, tcSNDTRM := c.tcISS }
  | some segAck =>
    if tcpLEmod4G segAck c.tcISS ∨ tcpGmod4G segAck c.tcSNDNXT then some c
    else
      let c := { c with tcSNDUNA := segAck }
      if tcpGmod4G c.tcSNDUNA c.tcISS then
        some { c with tcState := .established, tcRtDead := tcpDefRtDead }
      else some { c with tcState := .synReceived, tcSNDTRM := c.tcISS }

/-- `tcp_fd_write` queues as much as there is room for. -/
def tcpFdWrite (count : UInt32) (urg : Bool) (c : TcpConn) : TcpConn :=
  let maxSeq := c.tcSNDUNA + c.tcSndWnd.toUInt32 + (if urg then 1 else 0)
  let maxTrans := maxSeq - c.tcSNDNXT
  { c with tcSNDNXT := c.tcSNDNXT + (if count ≤ maxTrans then count else maxTrans) }

/-- `tcp_write` -/
def tcpWrite (currTime : Int) (count : UInt32) (urg : Bool) (c : TcpConn) : TcpConn :=
  tcpFdWrite count urg
    (if c.tcSNDUNA = c.tcSNDNXT ∧ c.tcTransmitSeq = c.tcSNDUNA then tcpSetSendTimer currTime c
      else c)

/-- `tcp_shutdown` -/
def tcpShutdown (currTime : Int) (c : TcpConn) : TcpConn :=
  if c.tcState = .established ∨ c.tcState = .closing then
    if c.finSent then c
    else tcpSetSendTimer currTime { c with finSent := true, tcSNDNXT := c.tcSNDNXT + 1 }
  else tcpCloseConnection c

/-- `tcp_close` -/
def tcpClose (currTime : Int) (c : TcpConn) : TcpConn :=
  let c := tcpShutdown currTime { c with tcFd := false }
  let c := if c.tcState = .established then { c with tcState := .closing } else c
  let c := { c with tcRtDead := tcpDefRtMaxClosing }
  if c.tcSNDUNA = c.tcSNDNXT then tcpCloseConnection c else c

def tcpStep (c : TcpConn) : TcpEvent → Option TcpConn
  | .setup currTime iss listens =>
    if c.tcState = .closed then some (tcpSetupConn currTime iss listens) else none
  | .synReceived currTime =>
    if c.tcState = .listen then
      some (tcpSetSendTimer currTime { c with
        tcState := .synReceived
        tcSNDUNA := c.tcISS
        tcSNDTRM := c.tcISS
        tcSNDNXT := c.tcISS + 1 })
    else none
  | .synAcked segAck => if c.tcState = .synSent then synAcked segAck c else none
  | .acked currTime segAck segWnd => acked currTime segAck segWnd c
  | .made currTime totHdrSize => makePack currTime totHdrSize c
  | .written currTime count urg =>
    if c.tcState = .established then some (tcpWrite currTime count urg c) else none
  | .continued count urg =>
    if c.tcState = .established then some (tcpFdWrite count urg c) else none
  | .shutdown currTime => if c.tcState = .closed then none else some (tcpShutdown currTime c)
  | .closed currTime => if c.tcFd then some (tcpClose currTime c) else none
  | .notreach => some { c with tcStt := 0, tcSNDTRM := c.tcSNDUNA }
  | .failed => some (tcpCloseConnection c)
  | .timeout currTime => tcpSendTimeout currTime c

end Minix.Inet
