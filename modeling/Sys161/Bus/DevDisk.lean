import Sys161.Bus.Event
import Mathlib.Data.Nat.Sqrt

/-!
# The disk device: its work and its timed events

The rotational delay, and what the host's file gives, are inputs of `disk_work`.
-/

namespace Sys161.Bus

set_option autoImplicit false

def sectsize : Nat := 512

def headersize : Nat := sectsize

def diskbitInprogress : BitVec 32 := 1

def diskbitIswrite : BitVec 32 := 2

def diskbitComplete : BitVec 32 := 4

def diskbitInvsect : BitVec 32 := 8

def diskbitMediaerr : BitVec 32 := 16

def maxWorktries : Int := 10

def cacheReadTime : BitVec 64 := 500

def cacheWriteTime : BitVec 64 := 500

/-- `dd_sectors` holds the number of sectors of each track; `dd_tracks` is its length. -/
structure DiskData where
  ddSectors : List (BitVec 32)
  ddTotsectors : BitVec 32
  ddCurrentTrack : Int
  ddTrackarrivalSecs : BitVec 32
  ddTrackarrivalNsecs : BitVec 32
  ddIostatus : Int
  ddTimedop : Bool
  ddWorktries : Int
  ddStat : BitVec 32
  ddSect : BitVec 32
  ddBuf : Nat → BitVec 8

def DiskData.finish (dd : DiskData) (bits : BitVec 32) : DiskData :=
  { dd with ddStat := (dd.ddStat &&& ~~~diskbitInprogress) ||| bits, ddWorktries := 0 }

def DiskData.isWrite (dd : DiskData) : Bool := dd.ddStat &&& diskbitIswrite ≠ 0

def DiskData.inProgress (dd : DiskData) : Bool := dd.ddStat &&& diskbitInprogress ≠ 0

/-- Sectors are numbered from the outermost track, the last of the table. -/
def locateFrom : List (BitVec 32) → BitVec 32 → BitVec 32 → Option (Nat × BitVec 32)
  | [], _, _ => none
  | count :: inner, start, sector =>
    let last := start + count
    if start ≤ sector ∧ sector < last then some (inner.length, sector - start)
    else locateFrom inner last sector

def locateSector (dd : DiskData) (sector : BitVec 32) : Except String (Nat × BitVec 32) :=
  match locateFrom dd.ddSectors.reverse 0 sector with
  | some p => .ok p
  | none => .error s!"Cannot locate sector {sector.toNat}\n"

/-- `1000000 * (10 + 3 * sqrt(ntracks))`, or 5 ms track to track. -/
def diskSeektime (ntracks : Nat) : BitVec 32 :=
  if ntracks > 3 then BitVec.ofNat 32 (10000000 + Nat.sqrt (9000000000000 * ntracks))
  else BitVec.ofNat 32 (1000000 * (5 * ntracks))

/-- The sector goes between the buffer and the image, and the operation ends. The sectors
follow the header, which is as long as one. -/
def forceio (dd : DiskData) (h : Host) : Done DiskData :=
  let io : HostIo :=
    { write := dd.isWrite, offset := dd.ddSect.toNat * sectsize + headersize, length := sectsize }
  let dd := if dd.isWrite then dd else { dd with ddBuf := h.sector }
  { dev := dd.finish (if h.ioError then diskbitComplete ||| diskbitMediaerr else diskbitComplete)
    hostIo := some io }

def DiskData.wait (dd : DiskData) (nsecs : BitVec 64) (code : BitVec 32) (func : Func)
    (desc : String) : Done DiskData :=
  { dev := { dd with ddTimedop := true }
    arm := some { nsecs := nsecs, code := code, func := func, desc := desc } }

/-- `disk_work` once it knows the track: the phases of an operation, each of which waits for its
own event, and then the transfer. -/
def diskPhase (dd : DiskData) (cyl : Nat) (h : Host) : Done DiskData :=
  if dd.ddCurrentTrack ≠ cyl then
    dd.wait ((diskSeektime (cyl - dd.ddCurrentTrack).natAbs).setWidth 64) (BitVec.ofNat 32 cyl)
      .diskSeekdone "disk seek"
  else if dd.isWrite ∧ dd.ddIostatus < 1 then
    dd.wait cacheWriteTime 1 .diskWaitdone "disk cache write"
  else if dd.ddIostatus < 2 ∧ h.rotdelay > 0 then
    dd.wait (h.rotdelay.setWidth 64) 2 .diskWaitdone "disk rotation"
  else
    let dd := if dd.ddIostatus < 2 then { dd with ddIostatus := 2 } else dd
    if !dd.isWrite ∧ dd.ddIostatus < 3 then
      dd.wait cacheReadTime 3 .diskWaitdone "disk cache read"
    else forceio dd h

def diskWork (dd : DiskData) (now : BitVec 32 × BitVec 32) (h : Host) :
    Except String (Done DiskData) :=
  if dd.ddTimedop then .ok { dev := dd }
  else if !dd.inProgress then .ok { dev := dd }
  else if dd.ddSect ≥ dd.ddTotsectors then
    .ok { dev := dd.finish (diskbitComplete ||| diskbitInvsect) }
  else
    let dd := { dd with ddWorktries := dd.ddWorktries + 1 }
    if dd.ddWorktries > maxWorktries then
      let dd := { dd with
        ddCurrentTrack := 0
        ddTrackarrivalSecs := now.1
        ddTrackarrivalNsecs := now.2
        ddIostatus := -1
        ddTimedop := false }
      .ok { forceio dd h with msgs := ["Geometry modeling fault! Please report to maintainer."] }
    else (locateSector dd dd.ddSect).map fun p => diskPhase dd p.1 h

def diskUpdate (dd : DiskData) (now : BitVec 32 × BitVec 32) (h : Host) :
    Except String (Done DiskData) :=
  (diskWork dd now h).map fun r =>
    { r with irq := some (decide (r.dev.ddStat &&& diskbitComplete ≠ 0)) }

def diskSeekdone (dd : DiskData) (cyl : BitVec 32) (now : BitVec 32 × BitVec 32) (h : Host) :
    Except String (Done DiskData) :=
  diskUpdate { dd with
    ddCurrentTrack := cyl.toInt
    ddTrackarrivalSecs := now.1
    ddTrackarrivalNsecs := now.2
    ddTimedop := false } now h

def diskWaitdone (dd : DiskData) (status : BitVec 32) (now : BitVec 32 × BitVec 32) (h : Host) :
    Except String (Done DiskData) :=
  diskUpdate { dd with ddIostatus := status.toInt, ddTimedop := false } now h

end Sys161.Bus
