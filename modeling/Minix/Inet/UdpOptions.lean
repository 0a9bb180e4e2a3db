/-
This file models the table of UDP channels (`inet/generic/udp.c`): `udp_open`, `udp_setopt`,
`udp_close`, and `hash_fd` and `unhash_fd`, which keep the chains of a port.

Channels are numbered. What is queued for them is left out, but for whether something is; that can
change between any two steps. A step that is `none` is a failed assertion or a panic.
-/

import Minix.Inet.UdpWrite
import Minix.Library.Chains

namespace Minix.Inet

open Function (update)
open LinkedList (scan visited)

/-! ### Options -/

/-- `nwio_udpopt_t` -/
structure NwioUdpopt where
  flags : UInt32 := 0
  locport : UInt16 := 0
  remport : UInt16 := 0
  locaddr : UInt32 := 0
  remaddr : UInt32 := 0
deriving DecidableEq

/-- `EAGAIN` -/
def eagain : Int := -11

/-- `EADDRINUSE` -/
def eaddrinuse : Int := -58

/-- `NWUO_ACC_MASK` -/
def nwuoAccMask : UInt32 := 0x3

/-- `NWUO_LOCPORT_MASK` -/
def nwuoLocportMask : UInt32 := 0xc

/-- `NWUO_LP_SEL` -/
def nwuoLpSel : UInt32 := 0x4

/-- `NWUO_LP_SET` -/
def nwuoLpSet : UInt32 := 0x8

/-- `NWUO_LP_ANY` -/
def nwuoLpAny : UInt32 := 0xc

/-- `NWUO_LOCADDR_MASK`, `NWUO_EN_LOC` -/
def nwuoLocaddrMask : UInt32 := 0x10

/-- `NWUO_BROAD_MASK`, `NWUO_EN_BROAD` -/
def nwuoBroadMask : UInt32 := 0x20

/-- `NWUO_REMPORT_MASK`, `NWUO_RP_SET` -/
def nwuoRemportMask : UInt32 := 0x100

/-- `NWUO_REMADDR_MASK`, `NWUO_RA_SET` -/
def nwuoRemaddrMask : UInt32 := 0x200

/-- `NWUO_RW_MASK`, `NWUO_RWDATONLY` -/
def nwuoRwMask : UInt32 := 0x1000

/-- `NWUO_IPOPT_MASK`, `NWUO_EN_IPOPT` -/
def nwuoIpoptMask : UInt32 := 0x2000

/-- `NWUO_RP_ANY` -/
def nwuoRpAny : UInt32 := 0x01000000

/-- `NWUO_RA_ANY` -/
def nwuoRaAny : UInt32 := 0x02000000

/-- `en_flags` and `di_flags`: what is enabled and what is disabled. -/
structure UdpFlags where
  en : UInt32
  di : UInt32

def UdpFlags.ofWord (flags : UInt32) : UdpFlags := ⟨flags &&& 0xffff, flags >>> 16 &&& 0xffff⟩

def UdpFlags.toWord (flags : UdpFlags) : UInt32 := flags.di <<< 16 ||| flags.en

/-- A bit of the mask is enabled or disabled. -/
def UdpFlags.says (flags : UdpFlags) (mask : UInt32) : Bool :=
  (flags.en ||| flags.di) &&& mask ≠ 0

/-- What the new flags do not say is taken from the old ones. -/
def UdpFlags.inherit (old new : UdpFlags) (mask : UInt32) : UdpFlags :=
  if new.says mask then new
  else ⟨new.en ||| old.en &&& mask, new.di ||| old.di &&& mask⟩

/-- All that `udp_setopt` asks for before it sets `UFF_OPTSET`. -/
def UdpFlags.complete (flags : UdpFlags) : Bool :=
  flags.says nwuoAccMask && flags.says nwuoLocportMask && flags.says nwuoLocaddrMask &&
    flags.says nwuoBroadMask && flags.says nwuoRemportMask && flags.says nwuoRemaddrMask &&
    flags.says nwuoRwMask && flags.says nwuoIpoptMask

/-- `NWUO_LP_SEL` or `NWUO_LP_SET` -/
def bindsPort (flags : UInt32) : Bool :=
  flags &&& nwuoLocportMask = nwuoLpSel || flags &&& nwuoLocportMask = nwuoLpSet

/-- The local port: `unused` is what `find_unused_port` returns. -/
def mergeLocport (unused : Option UInt16) (old new : UdpFlags) (oldport newport : UInt16) :
    Option (Except Int (UInt32 × UInt16)) :=
  if new.en &&& nwuoLocportMask = 0 then
    some (.ok (new.en ||| old.en &&& nwuoLocportMask, oldport))
  else if new.en &&& nwuoLocportMask = nwuoLpSel then
    unused.map fun port => .ok (new.en, port)
  else if new.en &&& nwuoLocportMask = nwuoLpSet ∧ newport = 0 then some (.error ebadmode)
  else some (.ok (new.en, newport))

/-- The rest of the options. -/
def mergeRest (oldopt newopt : NwioUdpopt) (old new : UdpFlags) :
    Except Int (NwioUdpopt × UdpFlags) :=
  let new := old.inherit new nwuoLocaddrMask
  let new := old.inherit new nwuoBroadMask
  let remport := if new.says nwuoRemportMask then newopt.remport else oldopt.remport
  let new := old.inherit new nwuoRemportMask
  let remaddr := if new.says nwuoRemaddrMask then newopt.remaddr else oldopt.remaddr
  let new := old.inherit new nwuoRemaddrMask
  let new := old.inherit new nwuoRwMask
  let new := old.inherit new nwuoIpoptMask
  let flags := new.toWord
  if flags &&& nwuoRwMask ≠ 0 ∧ (flags &&& nwuoLocportMask = nwuoLpAny ∨
      flags &&& (nwuoRpAny ||| nwuoRaAny ||| nwuoIpoptMask) ≠ 0) then .error ebadmode
  else .ok ({ newopt with flags := flags, remport := remport, remaddr := remaddr }, new)

/-- The new options as far as they do not depend on other channels: an error, or the options, with
the flags by halves. -/
def mergeUdpopt (unused : Option UInt16) (oldopt newopt : NwioUdpopt) :
    Option (Except Int (NwioUdpopt × UdpFlags)) :=
  let old := UdpFlags.ofWord oldopt.flags
  let new := UdpFlags.ofWord newopt.flags
  if new.en &&& new.di ≠ 0 then some (.error ebadmode)
  else if new.di &&& nwuoAccMask ≠ 0 then some (.error ebadmode)
  else
    let new := if new.en &&& nwuoAccMask = 0 then
      { new with en := new.en ||| old.en &&& nwuoAccMask } else new
    if new.di &&& nwuoLocportMask ≠ 0 then some (.error ebadmode)
    else
      (mergeLocport unused old new oldopt.locport newopt.locport).map fun
        | .error error => .error error
        | .ok (en, locport) =>
          mergeRest oldopt { newopt with locport := locport } old { new with en := en }

/-! ### Channels -/

/-- `udp_fd_t` -/
structure UdpChannel where
  /-- `UFF_INUSE` -/
  inUse : Bool := false
  /-- `UFF_OPTSET` -/
  optset : Bool := false
  port : Nat := 0
  udpopt : NwioUdpopt := {}
  /-- `uf_rdbuf_head` is not null. -/
  waiting : Bool := false

/-- A chain of a port: `up_port_any`, or one of `up_port_hash`. -/
abbrev UdpChain := Nat × Option UInt16

/-- `udp_fd_table`, with `uf_port_next`, and the chains of the ports. -/
structure UdpTable (n : Nat) where
  fd : Fin n → UdpChannel := fun _ => {}
  portNext : Fin n → Option (Fin n) := fun _ => none
  portHead : UdpChain → Option (Fin n) := fun _ => none

/-- The chain where the options of a channel put it. -/
def UdpChannel.chain (channel : UdpChannel) : UdpChain :=
  (channel.port,
    if channel.udpopt.flags &&& nwuoLocportMask = nwuoLpAny then none
    else some (udpHash channel.udpopt.locport))

namespace UdpTable

variable {n : Nat}

def setFd (s : UdpTable n) (fd : Fin n) (channel : UdpChannel) : UdpTable n :=
  { s with fd := update s.fd fd channel }

def hashFd (s : UdpTable n) (fd : Fin n) : UdpTable n :=
  let chain := (s.fd fd).chain
  { s with
    portNext := update s.portNext fd (s.portHead chain)
    portHead := update s.portHead chain (some fd) }

def unhashFd (s : UdpTable n) (fd : Fin n) : Option (UdpTable n) :=
  let chain := (s.fd fd).chain
  match scan s.portNext (· = fd) n none (s.portHead chain) with
  | some (some (some prev, curr)) =>
    some { s with portNext := update s.portNext prev (s.portNext curr) }
  | some (some (none, curr)) =>
    some { s with portHead := update s.portHead chain (s.portNext curr) }
  | _ => none

def isUnusedPort (s : UdpTable n) (port : UInt16) : Bool :=
  (List.finRange n).all fun fd => !(s.fd fd).optset || (s.fd fd).udpopt.locport ≠ port

/-- `htons` exchanges the bytes as `ntohs` does. -/
def findUnusedPort (s : UdpTable n) (fd : Fin n) : Option UInt16 :=
  let nwPort := ntohs (.ofNat (0xc000 + fd))
  if s.isUnusedPort nwPort then some nwPort
  else
    ((List.range' (0xc000 + n) (0xffff - (0xc000 + n))).map fun port => ntohs (.ofNat port)).find?
      s.isUnusedPort

/-- Another channel has the port with another access mode. -/
def addressInUse (s : UdpTable n) (fd : Fin n) (newopt : NwioUdpopt) : Bool :=
  bindsPort newopt.flags && (List.finRange n).any fun other =>
    other ≠ fd && (s.fd other).inUse && (s.fd other).port = (s.fd fd).port &&
      bindsPort (s.fd other).udpopt.flags && (s.fd other).udpopt.locport = newopt.locport &&
      (s.fd other).udpopt.flags &&& nwuoAccMask ≠ newopt.flags &&& nwuoAccMask

/-! ### Operations -/

def udpOpen (s : UdpTable n) (port : Nat) : Option (UdpTable n × Int) :=
  match (List.finRange n).find? fun fd => !(s.fd fd).inUse with
  | none => some (s, eagain)
  | some fd =>
    if (s.fd fd).waiting then none
    else
      let channel := s.fd fd
      let udpopt := { channel.udpopt with flags := 0 }
      let s := s.setFd fd
        { channel with inUse := true, optset := false, port := port, udpopt := udpopt }
      some ({ s with portNext := update s.portNext fd none }, fd)

/-- `udp_setopt`, with the options that the user gives. -/
def udpSetopt (s : UdpTable n) (fd : Fin n) (data : Option NwioUdpopt) :
    Option (UdpTable n × Int) :=
  match data with
  | none => some (s, efault)
  | some newopt =>
    (mergeUdpopt (s.findUnusedPort fd) (s.fd fd).udpopt newopt).bind fun
      | .error error => some (s, error)
      | .ok (newopt, allFlags) =>
        if s.addressInUse fd newopt then some (s, eaddrinuse)
        else
          (if (s.fd fd).optset then s.unhashFd fd else some s).map fun s =>
            let s := s.setFd fd { s.fd fd with udpopt := newopt, optset := allFlags.complete }
            (if allFlags.complete then s.hashFd fd else s, 0)

def udpClose (s : UdpTable n) (fd : Fin n) : Option (UdpTable n) :=
  if (s.fd fd).inUse then
    (if (s.fd fd).optset then s.unhashFd fd else some s).map fun s =>
      s.setFd fd { s.fd fd with inUse := false, optset := false, waiting := false }
  else none

end UdpTable

/-- What happens to the table. -/
inductive UdpStep (n : Nat)
  | open (port : Nat)
  | setopt (fd : Fin n) (data : Option NwioUdpopt)
  | close (fd : Fin n)
  /-- Datagrams come, are read, or are thrown away. -/
  | queues (waiting : Fin n → Bool)

namespace UdpTable

variable {n : Nat}

def step (s : UdpTable n) : UdpStep n → Option (UdpTable n)
  | .open port => (s.udpOpen port).map Prod.fst
  | .setopt fd data => if (s.fd fd).inUse then (s.udpSetopt fd data).map Prod.fst else none
  | .close fd => s.udpClose fd
  | .queues waiting =>
    some { s with fd := fun fd => { s.fd fd with waiting := (s.fd fd).inUse && waiting fd } }

/-- What `udp_ip_arrived` reads of a channel. -/
def udpFd (s : UdpTable n) (fd : Fin n) : UdpFd :=
  let flags := (s.fd fd).udpopt.flags
  { nr := fd
    port := (s.fd fd).port
    access := if flags &&& nwuoAccMask = 2 then .shared
      else if flags &&& nwuoAccMask = 1 then .excl else .copy
    enLoc := flags &&& nwuoLocaddrMask ≠ 0
    enBroad := flags &&& nwuoBroadMask ≠ 0
    rpSet := flags &&& nwuoRemportMask ≠ 0
    raSet := flags &&& nwuoRemaddrMask ≠ 0
    enIpopt := flags &&& nwuoIpoptMask ≠ 0
    locport := (s.fd fd).udpopt.locport
    remport := (s.fd fd).udpopt.remport
    remaddr := (s.fd fd).udpopt.remaddr
    waiting := (s.fd fd).waiting }

/-- The channels of a chain. -/
def members (s : UdpTable n) (chain : UdpChain) : List (Fin n) :=
  visited s.portNext n (s.portHead chain)

/-- What `udp_ip_arrived` reads of a port. -/
def udpPort (s : UdpTable n) (nr : Nat) (ipaddr : UInt32) : UdpPort where
  nr := nr
  ipaddr := ipaddr
  portAny := (s.members (nr, none)).map s.udpFd
  portHash hash := (s.members (nr, some hash)).map s.udpFd

end UdpTable

end Minix.Inet
