/-
This file models how the network server queues the requests of the file system (`inet/sr.c`):
`sr_rec` with `sr_rwio`, `sr_cancel` and `walk_queue`, the end of `sr_get_userdata` and
`sr_put_userdata` with `process_req_q`, and `sr_reply` with `sr_repl_queue`.

The cells of type `mq_t` are numbered, and their links are a function of the number. `mq_get` takes
any cell that is free. Opening and closing channels is left out, and so is the data that is copied.
What the protocol of a channel does with a request, and whether a reply can be sent, are inputs. A
step that is `none` is a failed assertion or a panic.

The trace records what becomes of the requests, which are numbered as they arrive.
-/

import Minix.Library.Cursor
import Minix.Library.Service

namespace Minix.Inet

open Function (update)
open LinkedList (Links)

/-! ### Messages -/

/-- The three queues of a channel. -/
inductive IoClass
  | read
  | write
  | ioctl
deriving DecidableEq

/-- `m_type`: `DEV_READ`, `DEV_WRITE`, `DEV_IOCTL`, `REVIVE`, or that of another message. -/
inductive MessType
  | request (io : IoClass)
  | revive
  | other
deriving DecidableEq

/-- `EINTR` -/
def eintr : Int := -4

/-- `EINVAL` -/
def einval : Int := -22

/-- `MAX_IOCTL_S` -/
def maxIoctlS : Nat := 512

/-- `_IOCPARM_MASK` -/
def iocparmMask : Nat := 0x1fff

/-- The fields of a message that matter here. `id` is the number of the request. -/
structure SrMess where
  type : MessType := .other
  device : Nat := 0
  procNr : Int := 0
  request : Nat := 0
  repProcNr : Int := 0
  repStatus : Int := 0
  id : Nat := 0
deriving DecidableEq

/-- An ioctl whose parameter is too large. -/
def SrMess.tooBig (mess : SrMess) : Bool :=
  decide (mess.type = .request .ioctl ∧ (mess.request >>> 16) &&& iocparmMask > maxIoctlS)

/-- A queue of a channel: the class of its requests. -/
abbrev SrQueue := Nat × IoClass

abbrev SrEvent := Service.Event SrQueue Nat Int

/-! ### The state -/

/-- `srf_read_q` and `srf_read_q_tail` with `SFF_READ_IP` and `SFF_READ_SUSP`, and the same for the
other classes. -/
structure ReqQueue (n : Nat) where
  head : Option (Fin n) := none
  tail : Option (Fin n) := none
  ip : Bool := false
  susp : Bool := false
deriving DecidableEq

/-- `sr_fd_table`, `repl_queue` and the cells of type `mq_t`. -/
structure Sr (n : Nat) where
  fds : SrQueue → ReqQueue n := fun _ => {}
  replQueue : Option (Fin n) := none
  replQueueTail : Option (Fin n) := none
  mqNext : Fin n → Option (Fin n) := fun _ => none
  mqMess : Fin n → SrMess := fun _ => {}
  mqAllocated : Fin n → Bool := fun _ => false
  arrived : Nat := 0
  trace : List SrEvent := []

/-- What the protocols answer when a request is started, or `none` for `SUSPEND`, whether they copy
data for it at once, and whether a reply fails with `ELOCKED`. -/
structure SrEnv (n : Nat) where
  answer : Fin n → Option Int := fun _ => none
  copies : Fin n → Bool := fun _ => false
  locked : Fin n → Bool := fun _ => false

namespace Sr

variable {n : Nat}

def log (s : Sr n) (event : SrEvent) : Sr n := { s with trace := s.trace ++ [event] }

def setQueue (s : Sr n) (q : SrQueue) (queue : ReqQueue n) : Sr n :=
  { s with fds := update s.fds q queue }

/-- `mq_free` -/
def mqFree (s : Sr n) (mq : Fin n) : Option (Sr n) :=
  if s.mqAllocated mq then some { s with mqAllocated := update s.mqAllocated mq false } else none

/-- The message of a cell becomes a reply. -/
def revive (s : Sr n) (mq : Fin n) (status : Int) : Sr n :=
  { s with
    mqMess := update s.mqMess mq
      { s.mqMess mq with
        type := .revive
        repProcNr := (s.mqMess mq).procNr
        repStatus := status } }

/-- `sr_reply` for a request that was suspended or is done, which goes to the queue of replies if
the file system is itself sending. -/
def srReply (s : Sr n) (env : SrEnv n) (mq : Fin n) (status : Int) : Option (Sr n) :=
  let s := s.revive mq status
  if env.locked mq then
    match s.replQueue with
    | none => some { s with replQueue := some mq, replQueueTail := some mq }
    | some _ =>
      s.replQueueTail.map fun tail =>
        { s with mqNext := update s.mqNext tail (some mq), replQueueTail := some mq }
  else (s.log (.send (s.mqMess mq).id status)).mqFree mq

/-- The part of `sr_get_userdata` and `sr_put_userdata` that ends the first request of a queue, up
to the restart. It returns whether the request was suspended, the next one, and the last one. -/
def endRequest (s : Sr n) (env : SrEnv n) (q : SrQueue) (result : Int) :
    Option (Sr n × Bool × Option (Fin n) × Option (Fin n)) :=
  let queue := s.fds q
  if queue.ip = false then none
  else
    queue.head.bind fun m =>
      let mq := s.mqNext m
      let s := s.setQueue q { queue with head := none }
      let s := s.log (.finish q (s.mqMess m).id result)
      (s.srReply env m result).map fun s =>
        (s.setQueue q { s.fds q with ip := false, susp := false }, (s.fds q).susp, mq, queue.tail)

/-- `m_type` of a request; another message makes `sr_rwio` panic. -/
def requestClass (mess : SrMess) : Option IoClass :=
  match mess.type with
  | .request io => some io
  | _ => none

mutual

/-- `sr_rwio`; the result is whether the request is suspended. -/
def srRwio (env : SrEnv n) : Nat → Sr n → Fin n → Option (Sr n × Bool)
  | 0, _, _ => none
  | fuel + 1, s, m =>
    (requestClass (s.mqMess m)).bind fun io =>
      let q := ((s.mqMess m).device, io)
      let queue := s.fds q
      if queue.ip then
        if queue.susp = false ∨ queue.head = none then none
        else
          queue.tail.map fun tail =>
            ({ s with mqNext := update s.mqNext tail (some m) }.setQueue q
              { queue with tail := some m }, true)
      else if queue.head ≠ none then none
      else
        let s := s.setQueue q { queue with head := some m, tail := some m, ip := true }
        let s := s.log (.start q (s.mqMess m).id)
        if (s.mqMess m).tooBig then
          (userdata env fuel s q einval).map fun s => (s, false)
        else
          let s := if env.copies m then s.log (.move q (s.mqMess m).id) else s
          match env.answer m with
          | some result => (userdata env fuel s q result).map fun s => (s, false)
          | none => some (s.setQueue q { s.fds q with susp := true }, true)

/-- `sr_get_userdata` without a count, or `sr_put_userdata` without data. -/
def userdata (env : SrEnv n) : Nat → Sr n → SrQueue → Int → Option (Sr n)
  | 0, _, _, _ => none
  | fuel + 1, s, q, result =>
    (s.endRequest env q result).bind fun ended =>
      if ended.2.1 then processReqQ env fuel ended.1 q ended.2.2.2 ended.2.2.1
      else if ended.2.2.1 = none then some ended.1 else none

/-- `process_req_q` -/
def processReqQ (env : SrEnv n) :
    Nat → Sr n → SrQueue → Option (Fin n) → Option (Fin n) → Option (Sr n)
  | 0, _, _, _, _ => none
  | _ + 1, s, _, _, none => some s
  | fuel + 1, s, q, tail, some m =>
    (srRwio env fuel s m).bind fun restarted =>
      if restarted.2 then
        match s.mqNext m with
        | none => some restarted.1
        | some mq =>
          (restarted.1.fds q).tail.map fun last =>
            { restarted.1 with mqNext := update restarted.1.mqNext last (some mq) }.setQueue q
              { restarted.1.fds q with tail := tail }
      else processReqQ env fuel restarted.1 q tail (s.mqNext m)

end

/-- More than the functions above call each other for `n` cells. -/
def srFuel (n : Nat) : Nat := 3 * n + 6

/-! ### Requests and cancels -/

/-- `walk_queue`. The result is `none` for `EAGAIN`. Otherwise it tells which waiting request was
taken out, if any; the first request of a queue is cancelled by the protocol, which ends it. -/
def walkQueue (s : Sr n) (env : SrEnv n) (q : SrQueue) (procNr : Int) :
    Option (Option (Sr n × Option Nat)) :=
  let links : Links (Fin n) := ⟨(s.fds q).head, s.mqNext⟩
  (links.seek (fun mq => decide ((s.mqMess mq).procNr = procNr)) (n + 1) none).bind fun prv =>
    match links.read prv, prv with
    | none, _ => some none
    | some _, none => (userdata env (srFuel n) s q eintr).map fun s => some (s, none)
    | some ptr, some prv =>
      let s := { s with mqNext := update s.mqNext prv (s.mqNext ptr) }
      let s := s.log (.drop q (s.mqMess ptr).id eintr)
      (s.mqFree ptr).map fun s =>
        let s := if s.mqNext prv = none then s.setQueue q { s.fds q with tail := some prv } else s
        some (s, some (s.mqMess ptr).id)

/-- `sr_cancel` panics if there is no request of the process. -/
def srCancel (s : Sr n) (env : SrEnv n) (fd : Nat) (procNr : Int) : Option (Sr n × Option Nat) :=
  (s.walkQueue env (fd, .ioctl) procNr).bind fun done =>
    match done with
    | some done => some done
    | none =>
      (s.walkQueue env (fd, .read) procNr).bind fun done =>
        match done with
        | some done => some done
        | none => (s.walkQueue env (fd, .write) procNr).bind id

/-- The loop of `sr_repl_queue`, which puts the reply to one process aside. -/
def sendReplies (procNr : Option Int) :
    Nat → Sr n → Option (Fin n) → Option (Fin n) → Option (Sr n × Option (Fin n))
  | 0, _, _, _ => none
  | _ + 1, s, mCancel, none => some (s, mCancel)
  | fuel + 1, s, mCancel, some m =>
    if procNr = some (s.mqMess m).repProcNr then
      if mCancel = none then sendReplies procNr fuel s (some m) (s.mqNext m) else none
    else if (s.mqMess m).type ≠ .revive then none
    else
      ((s.log (.send (s.mqMess m).id (s.mqMess m).repStatus)).mqFree m).bind fun s' =>
        sendReplies procNr fuel s' mCancel (s.mqNext m)

/-- `sr_repl_queue`; `none` is `ANY`. It tells whether a reply to the process was there. -/
def srReplQueue (s : Sr n) (procNr : Option Int) : Option (Sr n × Bool) :=
  (sendReplies procNr (n + 1) s none s.replQueue).bind fun sent =>
    let s := { sent.1 with replQueue := none }
    match sent.2 with
    | none => some (s, false)
    | some m =>
      if (s.mqMess m).type ≠ .revive then none
      else ((s.log (.send (s.mqMess m).id (s.mqMess m).repStatus)).mqFree m).map fun s => (s, true)

/-- `mq_get` and `receive`. -/
def mqGet (s : Sr n) (mq : Fin n) (mess : SrMess) : Sr n :=
  { s with
    mqNext := update s.mqNext mq none
    mqMess := update s.mqMess mq mess
    mqAllocated := update s.mqAllocated mq true }

/-- `sr_rec` of a read, a write or an ioctl. A request that is suspended gets a message that says
so, which is not its reply. -/
def srRequest (s : Sr n) (env : SrEnv n) (mq : Fin n) (io : IoClass) (fd : Nat) (procNr : Int)
    (request : Nat) : Option (Sr n) :=
  let id := s.arrived
  let s := s.mqGet mq { type := .request io, device := fd, procNr, request, id }
  (if s.replQueue = none then some s else (s.srReplQueue none).map Prod.fst).bind fun s =>
    let s := { s.log (.arrive (fd, io) id) with arrived := id + 1 }
    (srRwio env (srFuel n) s mq).map Prod.fst

/-- `sr_rec` of a cancel. -/
def srRecCancel (s : Sr n) (env : SrEnv n) (mq : Fin n) (fd : Nat) (procNr : Int) :
    Option (Sr n) :=
  let s := s.mqGet mq { type := .other, device := fd, procNr }
  (if s.replQueue = none then some (s, false) else s.srReplQueue (some procNr)).bind fun sent =>
    if sent.2 then sent.1.mqFree mq
    else
      (sent.1.srCancel env fd procNr).bind fun done =>
        let s := match done.2 with
          | none => done.1
          | some id => done.1.log (.send id eintr)
        s.mqFree mq

end Sr

/-! ### The machine -/

/-- A message from the file system in a given cell, data that a protocol copies for the first
request of a queue, or the end of that request. -/
inductive SrStep (n : Nat)
  | request (env : SrEnv n) (mq : Fin n) (io : IoClass) (fd : Nat) (procNr : Int) (request : Nat)
  | cancel (env : SrEnv n) (mq : Fin n) (fd : Nat) (procNr : Int)
  | move (q : SrQueue)
  | finish (env : SrEnv n) (q : SrQueue) (result : Int)

namespace Sr

variable {n : Nat}

def step (s : Sr n) : SrStep n → Option (Sr n)
  | .request env mq io fd procNr request => s.srRequest env mq io fd procNr request
  | .cancel env mq fd procNr => s.srRecCancel env mq fd procNr
  | .move q => (s.fds q).head.map fun m => s.log (.move q (s.mqMess m).id)
  | .finish env q result => userdata env (srFuel n) s q result

/-- A request of a process, or its reply, is with the server. -/
def Holds (s : Sr n) (procNr : Int) (mq : Fin n) : Prop :=
  s.mqAllocated mq = true ∧ (s.mqMess mq).procNr = procNr

instance (s : Sr n) (procNr : Int) (mq : Fin n) : Decidable (s.Holds procNr mq) :=
  inferInstanceAs (Decidable (_ ∧ _))

/-- A process has one request at a time, and the file system cancels a request that it was not
answered, at the channel it is for. Protocols copy data for requests and end them while they have
them. -/
def Allowed (s : Sr n) : SrStep n → Prop
  | .request _ mq _ _ procNr _ => s.mqAllocated mq = false ∧ ∀ mq', ¬ s.Holds procNr mq'
  | .cancel _ mq fd procNr =>
    s.mqAllocated mq = false ∧ ∃ mq', s.Holds procNr mq' ∧ (s.mqMess mq').device = fd
  | .move q => (s.fds q).ip = true
  | .finish _ q _ => (s.fds q).ip = true ∧ (s.fds q).susp = true

instance (s : Sr n) : ∀ step, Decidable (s.Allowed step)
  | .request _ mq _ _ procNr _ =>
    inferInstanceAs (Decidable (s.mqAllocated mq = false ∧ ∀ mq', ¬ s.Holds procNr mq'))
  | .cancel _ mq fd procNr =>
    inferInstanceAs (Decidable
      (s.mqAllocated mq = false ∧ ∃ mq', s.Holds procNr mq' ∧ (s.mqMess mq').device = fd))
  | .move q => inferInstanceAs (Decidable ((s.fds q).ip = true))
  | .finish _ q _ => inferInstanceAs (Decidable ((s.fds q).ip = true ∧ (s.fds q).susp = true))

end Sr

end Minix.Inet
