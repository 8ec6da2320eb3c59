import Mathlib.Data.BitVec
import Sys161.Hub.Array

/-!
# The hub

`nethub.c`: the senders that the hub knows, and what it does with each datagram.
-/

namespace Sys161.Hub

set_option autoImplicit false

abbrev Addr := BitVec 16

def hubAddr : Addr := 0x0000
def broadcastAddr : Addr := 0xffff
def frameMagic : BitVec 16 := 0xa4b3
def maxpacket : Nat := 4096

/-- What the host's headers say of `struct sockaddr_un`. -/
structure Host where
  hasSunLen : Bool
  afUnix : Nat
  sizeofSockaddrUn : Nat
  sizeofSunPath : Nat

/-- `sun_len` is read only where the host has it. -/
structure SockaddrUn where
  len : Nat
  family : Nat
  path : List (BitVec 8)
deriving DecidableEq, Repr

def sizeofLinkheader : Nat := 8

/-- `struct sender`. -/
structure Sender where
  addr : Addr
  sun : SockaddrUn
  len : Nat
  errors : Nat
deriving DecidableEq, Repr

/-- What the hub prints. -/
inductive Notice where
  | recvfrom
  | tooLongPathname
  | runtPacket (size : Nat)
  | frameError (frame : BitVec 16)
  | badSize (packetlen : BitVec 16) (size : Nat)
  | fromBroadcast
  | adding (addr : Addr) (pathlen : Int) (path : List (BitVec 8))
  | notAbsolute
  | sendto (addr : Addr)
  | dropping (addr : Addr)
deriving DecidableEq, Repr

inductive Event where
  | notice (n : Notice)
  | sendto (pkt : List (BitVec 8)) (sun : SockaddrUn) (len : Nat)
deriving DecidableEq, Repr

/-- How the hub ends. -/
inductive Stop where
  | assertion
  | outOfMemory
deriving DecidableEq, Repr

structure Datagram where
  data : List (BitVec 8)
  rsun : SockaddrUn
  rlen : Nat
deriving DecidableEq, Repr

/-- What `recvfrom` puts in the buffer. -/
def Datagram.packet (d : Datagram) : List (BitVec 8) := d.data.take maxpacket

/-- What the host does in a turn of the loop. -/
structure Turn where
  /-- `recvfrom` fails where there is none. -/
  received : Option Datagram
  /-- Whether the send to the sender at this index of the table fails. -/
  sendFails : Nat → Bool
  /-- Whether there is memory for a sender. -/
  senderMalloc : Bool
  /-- Whether there is memory for the cells of the table. -/
  arrayMalloc : Bool

/-- The sender at an index; the assertions of `array_getguy` and of its callers. -/
def guyAt (a : PtrArray Sender) (i : Nat) : Except Stop Sender :=
  match arrayGetguy a i with
  | some sdr => .ok sdr
  | none => .error .assertion

/-- The loop of `checksender`, with `left` turns to go; the table, if the sender is in it. -/
def checkLoop (addr : Addr) (rsun : SockaddrUn) (rlen : Nat) :
    Nat → Nat → PtrArray Sender → Except Stop (Option (PtrArray Sender))
  | 0, _, _ => return none
  | left + 1, i, a => do
    let sdr ← guyAt a i
    if sdr.addr = addr then
      return some (writeGuy a i { sdr with sun := rsun, len := rlen })
    else
      checkLoop addr rsun rlen left (i + 1) a

def checksender (host : Host) (t : Turn) (addr : Addr) (rsun : SockaddrUn) (rlen : Nat)
    (a : PtrArray Sender) : Except Stop (PtrArray Sender × List Event) := do
  if addr = broadcastAddr then
    throw .assertion
  match ← checkLoop addr rsun rlen (arrayGetnum a) 0 a with
  | some a => return (a, [])
  | none =>
    if !t.senderMalloc then
      throw .outOfMemory
    let pathlen : Int := rlen - (host.sizeofSockaddrUn - host.sizeofSunPath)
    let added := [.notice (.adding addr pathlen rsun.path)] ++
      if rsun.path.head? ≠ some 0x2f then [.notice .notAbsolute] else []
    let (r, a) := arrayAdd t.arrayMalloc a ⟨addr, rsun, rlen, 0⟩
    if r ≠ 0 then
      throw .outOfMemory
    return (a, added)

/-- The loop of `dosend`, with `left` turns to go. -/
def sendLoop (fails : Nat → Bool) (pkt : List (BitVec 8)) :
    Nat → Nat → PtrArray Sender → Except Stop (PtrArray Sender × List Event)
  | 0, _, a => return (a, [])
  | left + 1, i, a => do
    let sdr ← guyAt a i
    let sent := Event.sendto pkt sdr.sun sdr.len
    if fails i then
      let a := writeGuy a i { sdr with errors := sdr.errors + 1 }
      let (a, more) ← sendLoop fails pkt left (i + 1) a
      return (a, [sent, .notice (.sendto sdr.addr)] ++ more)
    else
      let (a, more) ← sendLoop fails pkt left (i + 1) a
      return (a, [sent] ++ more)

def dosend (t : Turn) (pkt : List (BitVec 8)) (a : PtrArray Sender) :
    Except Stop (PtrArray Sender × List Event) :=
  sendLoop t.sendFails pkt (arrayGetnum a) 0 a

/-- The loop of `killsenders`: `left` is `n - i`. Where a sender goes, `n` falls and `i` stays. -/
def killLoop : Nat → Nat → PtrArray Sender → Except Stop (PtrArray Sender × List Event)
  | 0, _, a => return (a, [])
  | left + 1, i, a => do
    let sdr ← guyAt a i
    if sdr.errors > 5 then
      let (a, more) ← killLoop left i (arrayRemove a i)
      return (a, [.notice (.dropping sdr.addr)] ++ more)
    else
      killLoop left (i + 1) a

def killsenders (a : PtrArray Sender) : Except Stop (PtrArray Sender × List Event) :=
  killLoop (arrayGetnum a) 0 a

/-- `ntohs` of two bytes of the packet. -/
def ntohsAt (packet : List (BitVec 8)) (i : Nat) : BitVec 16 :=
  packet.getD i 0 ++ packet.getD (i + 1) 0

def lhFrame (packet : List (BitVec 8)) : BitVec 16 := ntohsAt packet 0
def lhFrom (packet : List (BitVec 8)) : Addr := ntohsAt packet 2
def lhPacketlen (packet : List (BitVec 8)) : BitVec 16 := ntohsAt packet 4
def lhTo (packet : List (BitVec 8)) : Addr := ntohsAt packet 6

variable (host : Host)

/-- A turn of the loop from `recvfrom` on. -/
def loopTurn (t : Turn) (a : PtrArray Sender) : Except Stop (PtrArray Sender × List Event) :=
  match t.received with
  | none => return (a, [.notice .recvfrom])
  | some d =>
    let packetbuf := d.packet
    let packetlen := packetbuf.length
    if ¬d.rlen ≤ host.sizeofSockaddrUn then
      throw .assertion
    else if d.rsun.family ≠ host.afUnix then
      throw .assertion
    else if host.hasSunLen ∧ ¬d.rlen ≤ d.rsun.len then
      throw .assertion
    else if host.hasSunLen ∧ d.rlen < d.rsun.len then
      return (a, [.notice .tooLongPathname])
    else if host.hasSunLen ∧ d.rlen ≠ d.rsun.len then
      throw .assertion
    else if packetlen < sizeofLinkheader then
      return (a, [.notice (.runtPacket packetlen)])
    else if lhFrame packetbuf ≠ frameMagic then
      return (a, [.notice (.frameError (lhFrame packetbuf))])
    else if (lhPacketlen packetbuf).toNat ≠ packetlen then
      return (a, [.notice (.badSize (lhPacketlen packetbuf) packetlen)])
    else if lhFrom packetbuf = broadcastAddr then
      return (a, [.notice .fromBroadcast])
    else do
      let (a, added) ← checksender host t (lhFrom packetbuf) d.rsun d.rlen a
      if lhTo packetbuf = hubAddr then
        return (a, added)
      else
        let (a, sent) ← dosend t packetbuf a
        let (a, dropped) ← killsenders a
        return (a, added ++ sent ++ dropped)

/-- The turns of the loop, from the empty table on. -/
def loop : List Turn → PtrArray Sender → Except Stop (PtrArray Sender × List Event)
  | [], a => return (a, [])
  | t :: ts, a => do
    let (a, done) ← loopTurn host t a
    let (a, more) ← loop ts a
    return (a, done ++ more)

end Sys161.Hub
