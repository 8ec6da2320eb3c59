import Sys161.Bus.DevDisk
import Sys161.Lib.Runs

/-!
# The disk behind its registers

The rotational delays, the stores to the device's registers, and the device with
its interrupt line and the events it has on the queue. An event may fire at any time.
-/

namespace Sys161.Bus

set_option autoImplicit false

def numtracks : Nat := 320

def diskregNsect : Nat := 0

def diskregStat : Nat := 4

def diskregSect : Nat := 8

def diskregRpm : Nat := 12

def diskBufStart : Nat := 32768

def diskBufEnd : Nat := diskBufStart + sectsize

def diskstatIdle : BitVec 32 := 0

def diskstatReading : BitVec 32 := diskbitInprogress

def diskstatWriting : BitVec 32 := diskbitInprogress ||| diskbitIswrite

/-! ## Rotation -/

/-- `while (t < bound) t += step;` with as many turns as it can take. -/
def stepUp (bound step : BitVec 32) : Nat → BitVec 32 → BitVec 32
  | 0, t => t
  | fuel + 1, t => if t < bound then stepUp bound step fuel (t + step) else t

/-- `while (nsecs >= 1000000000) { nsecs -= 1000000000; secs++; }` -/
def carrySecs : Nat → BitVec 32 → BitVec 32 → BitVec 32 × BitVec 32
  | 0, secs, nsecs => (secs, nsecs)
  | fuel + 1, secs, nsecs =>
    if nsecs ≥ 1000000000 then carrySecs fuel (secs + 1) (nsecs - 1000000000) else (secs, nsecs)

def diskReadrotdelay (dd : DiskData) (nsecsPerRev : BitVec 32) (sectors rotoffset : BitVec 32)
    (now : BitVec 32 × BitVec 32) : BitVec 32 :=
  let nsecsPerSector := nsecsPerRev / sectors
  let targsector := (rotoffset + 1) % sectors
  let targnsecs := stepUp dd.ddTrackarrivalNsecs nsecsPerRev dd.ddTrackarrivalNsecs.toNat
    (targsector * nsecsPerSector)
  let targ := carrySecs 5 dd.ddTrackarrivalSecs targnsecs
  -- If we've reached that time, the sector is in our track buffer.
  if targ.1 < now.1 ∨ (targ.1 = now.1 ∧ targ.2 ≤ now.2) then 0
  else targ.2 - now.2 + 1000000000 * (targ.1 - now.1)

def diskWriterotdelay (nsecsPerRev : BitVec 32) (sectors rotoffset : BitVec 32)
    (now : BitVec 32 × BitVec 32) : BitVec 32 :=
  let nsecsPerSector := nsecsPerRev / sectors
  let targnsecs := stepUp now.2 nsecsPerRev now.2.toNat (rotoffset * nsecsPerSector)
  targnsecs + nsecsPerSector - now.2

/-- What is fixed when the disk is configured. -/
structure DiskConfig where
  ddUsedoom : Bool
  ddNsecsPerRev : BitVec 32

/-- The delay until the sector in the register has passed under the head. -/
def DiskConfig.rotdelay (c : DiskConfig) (dd : DiskData) (now : BitVec 32 × BitVec 32) :
    BitVec 32 :=
  match locateSector dd dd.ddSect with
  | .error _ => 0
  | .ok (cyl, rotoffset) =>
    let sectors := dd.ddSectors.getD cyl 0
    if dd.isWrite then diskWriterotdelay c.ddNsecsPerRev sectors rotoffset now
    else diskReadrotdelay dd c.ddNsecsPerRev sectors rotoffset now

/-- `disk_update` with the delay `disk_work` computes in it. -/
def DiskConfig.update (c : DiskConfig) (dd : DiskData) (now : BitVec 32 × BitVec 32) (h : Host) :
    Except String (Done DiskData) :=
  diskUpdate dd now { h with rotdelay := c.rotdelay dd now }

/-! ## The registers -/

/-- The counter all disks share, and whether `reqdie` was called. -/
structure Doom where
  counter : BitVec 32
  died : Bool

def doomTick (d : Doom) : Doom :=
  if d.counter > 0 then
    if d.counter - 1 = 0 then { counter := 0, died := true } else { d with counter := d.counter - 1 }
  else d

def DiskData.start (dd : DiskData) (val : BitVec 32) : DiskData :=
  { dd with ddIostatus := 0, ddStat := val }

def DiskData.idle (dd : DiskData) : DiskData :=
  { dd with ddIostatus := -1, ddStat := diskstatIdle }

def diskSetstatus (c : DiskConfig) (dd : DiskData) (doom : Doom) (val : BitVec 32)
    (now : BitVec 32 × BitVec 32) (h : Host) : Except String (Done DiskData × Doom) :=
  if val = diskstatIdle then (c.update dd.idle now h).map fun r => (r, doom)
  else if val = diskstatReading then (c.update (dd.start val) now h).map fun r => (r, doom)
  else if val = diskstatWriting then
    let doom := if c.ddUsedoom then doomTick doom else doom
    (c.update (dd.start val) now h).map fun r => (r, doom)
  else
    .ok ({ dev := dd
           hung := some s!"disk: Invalid write {val.toNat} to status register" }, doom)

/-- The boolean is whether there is such a register. -/
def diskStore (c : DiskConfig) (bigEndian : Bool) (dd : DiskData) (doom : Doom)
    (offset val : BitVec 32) (now : BitVec 32 × BitVec 32) (h : Host) :
    Except String (Bool × Done DiskData × Doom) :=
  if diskBufStart ≤ offset.toNat ∧ offset.toNat < diskBufEnd then
    .ok (true,
      { dev := { dd with
          ddBuf := putWord bigEndian dd.ddBuf (offset.toNat - diskBufStart) val } }, doom)
  else if offset.toNat = diskregStat then
    (diskSetstatus c dd doom val now h).map fun r => (true, r)
  else if offset.toNat = diskregSect then .ok (true, { dev := { dd with ddSect := val } }, doom)
  else .ok (false, { dev := dd }, doom)

/-! ## The device, its line and its events -/

structure Disk where
  dd : DiskData
  doom : Doom
  line : Bool
  pending : List Arm

def Disk.after (d : Disk) (r : Done DiskData) (doom : Doom) : Disk where
  dd := r.dev
  doom := doom
  line := r.irq.getD d.line
  pending := d.pending ++ r.arm.toList

/-- `ta_func(ta_data, ta_code)`, with the delay `disk_work` computes in it. -/
def DiskConfig.fire (c : DiskConfig) (dd : DiskData) (a : Arm) (now : BitVec 32 × BitVec 32)
    (h : Host) : Except String (Done DiskData) :=
  match a.func with
  | .diskSeekdone =>
    c.update { dd with
      ddCurrentTrack := a.code.toInt
      ddTrackarrivalSecs := now.1
      ddTrackarrivalNsecs := now.2
      ddTimedop := false } now h
  | .diskWaitdone => c.update { dd with ddIostatus := a.code.toInt, ddTimedop := false } now h
  | _ => .error "Segmentation fault"

/-- What drives the disk. -/
inductive DiskAct where
  | store (offset val : BitVec 32)
  | fire (a : Arm)

/-- A step, with its time, the transfer that came of it and what was printed. -/
structure DiskLabel where
  act : DiskAct
  now : BitVec 32 × BitVec 32
  io : Option HostIo
  msgs : List String

inductive Disk.Step (c : DiskConfig) (bigEndian : Bool) : Disk → DiskLabel → Disk → Prop where
  | store {d : Disk} {offset val : BitVec 32} {now : BitVec 32 × BitVec 32} {h : Host} {found : Bool}
      {r : Done DiskData} {doom : Doom} :
      diskStore c bigEndian d.dd d.doom offset val now h = .ok (found, r, doom) →
      Disk.Step c bigEndian d ⟨.store offset val, now, r.hostIo, r.msgs⟩ (d.after r doom)
  | fire {d : Disk} {before after : List Arm} {a : Arm} {now : BitVec 32 × BitVec 32} {h : Host}
      {r : Done DiskData} :
      d.pending = before ++ a :: after → c.fire d.dd a now h = .ok r →
      Disk.Step c bigEndian d ⟨.fire a, now, r.hostIo, r.msgs⟩
        (Disk.after { d with pending := before ++ after } r d.doom)

/-- What `disk_init` leaves, whatever the image and the geometry computed for it. -/
structure Disk.Init (d : Disk) : Prop where
  tracks : d.dd.ddSectors.length = numtracks
  positive : ∀ n ∈ d.dd.ddSectors, 0 < n
  sum : d.dd.ddTotsectors.toNat ≤ (d.dd.ddSectors.map BitVec.toNat).sum
  track : d.dd.ddCurrentTrack = 0
  iostatus : d.dd.ddIostatus = -1
  timedop : d.dd.ddTimedop = false
  worktries : d.dd.ddWorktries = 0
  stat : d.dd.ddStat = diskstatIdle
  sect : d.dd.ddSect = 0
  line : d.line = false
  pending : d.pending = []

end Sys161.Bus
