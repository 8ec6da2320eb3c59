import Sys161.Bus.Event

/-! # The network interface -/

namespace Sys161.Bus

set_option autoImplicit false

def netBufsize : Nat := 4096

def frameMagic : BitVec 16 := 0xa4b3

def ndiDone : BitVec 32 := 1

def ndcPromisc : BitVec 32 := 1

def ndcStart : BitVec 32 := 2

def hubAddr : BitVec 16 := 0x0000

def broadcastAddr : BitVec 16 := 0xffff

structure NetData where
  ndHubaddr : String
  ndLostcarrier : Bool
  ndRirq : BitVec 32
  ndWirq : BitVec 32
  ndControl : BitVec 32
  ndStatus : BitVec 32
  ndRbuf : Nat → BitVec 8
  ndWbuf : Nat → BitVec 8

/-- The line that `chkint` puts the slot's interrupt to. -/
def NetData.chkint (nd : NetData) : Bool := nd.ndRirq ≠ 0 || nd.ndWirq ≠ 0

/-- `htons` into two bytes of a buffer. -/
def storeBe16 (buf : Nat → BitVec 8) (offset : Nat) (v : BitVec 16) : Nat → BitVec 8 :=
  Function.update (Function.update buf offset (v.extractLsb' 8 8)) (offset + 1) (v.extractLsb' 0 8)

def loadBe16 (buf : Nat → BitVec 8) (offset : Nat) : BitVec 16 := buf offset ++ buf (offset + 1)

def keepalive (nd : NetData) (slot : Fin 32) (sendto : SendResult) : Done NetData :=
  let arm : Arm := { nsecs := 1000000000, code := 0, func := .keepalive, desc := "net keepalive" }
  match sendto with
  | .failed true _ =>
    { dev := { nd with ndLostcarrier := true }
      arm := some arm
      msgs := if nd.ndLostcarrier then [] else [s!"nic: slot {slot.val}: lost carrier"] }
  | .failed false error =>
    { dev := nd
      arm := some arm
      msgs := [s!"nic: slot {slot.val}: keepalive to {nd.ndHubaddr} failed: {error}"] }
  | .sent =>
    { dev := { nd with ndLostcarrier := false }
      arm := some arm
      msgs := if nd.ndLostcarrier then [s!"nic: slot {slot.val}: carrier detected"] else [] }

def dosend (nd : NetData) (slot : Fin 32) (sendto : SendResult) : Done NetData :=
  let len := loadBe16 nd.ndWbuf 4
  if len.toNat > netBufsize then { dev := nd, hung := some "Packet size too long" }
  else
    let wbuf := storeBe16 nd.ndWbuf 0 frameMagic
    let wbuf := storeBe16 wbuf 2 (nd.ndStatus.setWidth 16)
    let nd := { nd with ndWbuf := wbuf, ndWirq := ndiDone }
    { dev := nd
      irq := some nd.chkint
      msgs := match sendto with
        | .sent => []
        | .failed _ error => [s!"nic: slot {slot.val}: sendto: {error}"] }

def triggersend (nd : NetData) (slot : Fin 32) (sendto : SendResult) : Done NetData :=
  let r := dosend nd slot sendto
  { r with dev := { r.dev with ndControl := r.dev.ndControl &&& ~~~ndcStart } }

/-! ## Arrivals -/

def readdone (nd : NetData) : Done NetData :=
  let nd := { nd with ndRirq := ndiDone }
  { dev := nd, irq := some nd.chkint }

/-- What `read` leaves of a packet in the buffer it is given. -/
def fill (buf : Nat → BitVec 8) (data : List (BitVec 8)) : Nat → BitVec 8 :=
  fun i => data.getD i (buf i)

/-- The checks of `dorecv` on what was read; `r` is the length. -/
def NetData.wants (nd : NetData) (readbuf : Nat → BitVec 8) (r : Nat) : Bool :=
  decide (8 ≤ r) && loadBe16 readbuf 0 == frameMagic &&
    (loadBe16 readbuf 6 == nd.ndStatus.setWidth 16 || loadBe16 readbuf 6 == broadcastAddr ||
      nd.ndControl &&& ndcPromisc != 0) &&
    (loadBe16 readbuf 4).toNat == r

/-- `dorecv` of a packet, or of an error. While the last packet has not cleared, eight bytes are
read into a buffer of its own, of any contents. -/
def dorecv (nd : NetData) (slot : Fin 32) (junk : Nat → BitVec 8)
    (packet : Except String (List (BitVec 8))) : Done NetData :=
  let overrun := nd.ndRirq ≠ 0
  match packet with
  | .error error => { dev := nd, msgs := [s!"nic: slot {slot.val}: read: {error}"] }
  | .ok data =>
    let data := data.take (if overrun then 8 else netBufsize)
    let readbuf := fill (if overrun then junk else nd.ndRbuf) data
    let nd := if overrun then nd else { nd with ndRbuf := readbuf }
    if !nd.wants readbuf data.length then { dev := nd }
    else if overrun then { dev := nd }
    else readdone nd

/-! ## Registers -/

def netregReadintr : Nat := 0

def netregWriteintr : Nat := 4

def netregControl : Nat := 8

def netregStatus : Nat := 12

def netReadbuf : Nat := 32768

def netWritebuf : Nat := netReadbuf + netBufsize

def networkLatency : BitVec 64 := 2000000

def ndiZero : BitVec 32 := 0xfffffffe

def ndcZero : BitVec 32 := 0xfffffffc

def setirq (nd : NetData) (val : BitVec 32) (isread : Bool) : Done NetData :=
  if val &&& ndiZero ≠ 0 then
    { dev := nd, hung := some "Illegal network interrupt register write" }
  else
    let nd := if isread then { nd with ndRirq := val } else { nd with ndWirq := val }
    { dev := nd, irq := some nd.chkint }

def packetSend : Arm where
  nsecs := networkLatency
  code := 0
  func := .triggersend
  desc := "packet send"

def setctl (nd : NetData) (val : BitVec 32) : Done NetData :=
  if val &&& ndcZero ≠ 0 then
    { dev := nd, hung := some "Illegal network control register write" }
  else if val &&& ndcStart ≠ 0 then
    if nd.ndControl &&& ndcStart ≠ 0 then
      { dev := { nd with ndControl := val }
        hung := some "Network packet send started while send already in progress" }
    else { dev := { nd with ndControl := val }, arm := some packetSend }
  else if nd.ndControl &&& ndcStart ≠ 0 then
    -- cannot turn it off explicitly
    { dev := { nd with ndControl := val ||| ndcStart } }
  else { dev := { nd with ndControl := val } }

def netFetch (bigEndian : Bool) (nd : NetData) (offset : BitVec 32) : Option (BitVec 32) :=
  if netReadbuf ≤ offset.toNat ∧ offset.toNat < netReadbuf + netBufsize then
    some (getWord bigEndian nd.ndRbuf (offset.toNat - netReadbuf))
  else if netWritebuf ≤ offset.toNat ∧ offset.toNat < netWritebuf + netBufsize then
    some (getWord bigEndian nd.ndWbuf (offset.toNat - netWritebuf))
  else if offset.toNat = netregReadintr then some nd.ndRirq
  else if offset.toNat = netregWriteintr then some nd.ndWirq
  else if offset.toNat = netregControl then some nd.ndControl
  else if offset.toNat = netregStatus then some nd.ndStatus
  else none

/-- Nothing where there is no such register, or none that can be written. -/
def netStore (bigEndian : Bool) (nd : NetData) (offset val : BitVec 32) : Option (Done NetData) :=
  if netReadbuf ≤ offset.toNat ∧ offset.toNat < netReadbuf + netBufsize then
    some { dev := { nd with
      ndRbuf := putWord bigEndian nd.ndRbuf (offset.toNat - netReadbuf) val } }
  else if netWritebuf ≤ offset.toNat ∧ offset.toNat < netWritebuf + netBufsize then
    some { dev := { nd with
      ndWbuf := putWord bigEndian nd.ndWbuf (offset.toNat - netWritebuf) val } }
  else if offset.toNat = netregReadintr then some (setirq nd val true)
  else if offset.toNat = netregWriteintr then some (setirq nd val false)
  else if offset.toNat = netregControl then some (setctl nd val)
  else none

/-- `net_init` in memory as `domalloc` returned it, once the socket is bound; nothing where it dies
for the address. -/
def netInit (mem : NetData) (slot : Fin 32) (hubname : String) (hwaddr : BitVec 16)
    (sendto : SendResult) : Option (Done NetData) :=
  if hwaddr = broadcastAddr ∨ hwaddr = hubAddr then none
  else
    some (keepalive { mem with
      ndHubaddr := hubname
      ndLostcarrier := true
      ndStatus := hwaddr.setWidth 32 } slot sendto)

end Sys161.Bus
