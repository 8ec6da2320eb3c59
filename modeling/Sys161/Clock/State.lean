import Mathlib.Data.BitVec
import Mathlib.Data.Fintype.Basic
import Sys161.Lib.LinkedList

/-!
# The system clock and its event queue

The static data of the clock, with the words of the cpu and of the select loop
that it reads, and the functions on the pool of timed actions. Pointers into
`action_storage` are slot numbers; `NULL` is `none`.
-/

namespace Sys161.Clock

open LinkedList

set_option autoImplicit false

def nsecsPerSec : BitVec 64 := 1000000000

def nsecsPerClock : BitVec 64 := 40

@[irreducible] def maxActions : Nat := 1024

/-- Go for up to 5 ms at a time (in virtual time). -/
def maxRun : BitVec 64 := 125000

@[simp] theorem nsecsPerSec_toNat : nsecsPerSec.toNat = 1000000000 := by decide

@[simp] theorem nsecsPerClock_toNat : nsecsPerClock.toNat = 40 := by decide

@[simp] theorem maxRun_toNat : maxRun.toNat = 125000 := by decide

abbrev Slot := Fin maxActions

variable {φ δ : Type}

structure TimedAction (φ δ : Type) where
  taNext : Option Slot
  taVtime : BitVec 64
  taData : Option δ
  taCode : BitVec 32
  taFunc : Option φ
  taDesc : String
  taRunningto : Bool

def TimedAction.zero : TimedAction φ δ where
  taNext := none
  taVtime := 0
  taData := none
  taCode := 0
  taFunc := none
  taDesc := ""
  taRunningto := false

structure State (φ δ : Type) where
  virtualNow : BitVec 64
  startSecs : BitVec 32
  startNsecs : BitVec 32
  actionStorage : Slot → TimedAction φ δ
  taFreelist : Option Slot
  queuehead : Option Slot
  idleslop : BitVec 32
  cpuCyclesCount : BitVec 64
  cpuCycling : Bool
  cpuRunningMask : BitVec 32
  extraSelecttime : BitVec 64
  totRcycles : BitVec 64
  totIcycles : BitVec 64
  progress : Bool
  checkProgress : Bool
  progressWarned : Bool
  progressTimeout : BitVec 64
  progressDeadline : BitVec 64
  stoppedInDebugger : Bool

def State.next (s : State φ δ) : Slot → Option Slot := fun i => (s.actionStorage i).taNext

def State.vtime (s : State φ δ) : Slot → BitVec 64 := fun i => (s.actionStorage i).taVtime

def clockVnow (s : State φ δ) : BitVec 64 :=
  s.virtualNow + nsecsPerClock * s.cpuCyclesCount + s.extraSelecttime

def clockVadvance (s : State φ δ) (nsecs : BitVec 64) : State φ δ :=
  { s with virtualNow := s.virtualNow + nsecs }

theorem clockVadvance_startSecs (s : State φ δ) (nsecs : BitVec 64) :
    (clockVadvance s nsecs).startSecs = s.startSecs := rfl

theorem clockVadvance_startNsecs (s : State φ δ) (nsecs : BitVec 64) :
    (clockVadvance s nsecs).startNsecs = s.startNsecs := rfl

theorem clockVnow_clockVadvance (s : State φ δ) (nsecs : BitVec 64) :
    clockVnow (clockVadvance s nsecs) = clockVnow s + nsecs := by
  simp only [clockVnow, clockVadvance]
  ac_rfl

def cpuStopcycling (s : State φ δ) : State φ δ := { s with cpuCycling := false }

/-! ## The pool -/

def setAction (s : State φ δ) (i : Slot) (ta : TimedAction φ δ) : State φ δ :=
  { s with actionStorage := Function.update s.actionStorage i ta }

def acalloc (s : State φ δ) : Except String (Slot × State φ δ) :=
  match s.taFreelist with
  | none => .error "Too many pending hardware interrupts"
  | some ta => .ok (ta, { s with taFreelist := s.next ta })

def acfree (s : State φ δ) (ta : Slot) : State φ δ :=
  { setAction s ta { s.actionStorage ta with taNext := s.taFreelist } with taFreelist := some ta }

def acallocInit (s : State φ δ) : State φ δ :=
  (List.finRange maxActions).foldl acfree s

/-! ## The queue -/

/-- The arguments of a call to `schedule_event`, with the value its `random()` jitter takes. -/
structure Request (φ δ : Type) where
  nsecs : BitVec 64
  jitter : BitVec 64
  data : Option δ
  code : BitVec 32
  func : φ
  desc : String

def Request.action (r : Request φ δ) (vtime : BitVec 64) : TimedAction φ δ where
  taNext := none
  taVtime := vtime
  taData := r.data
  taCode := r.code
  taFunc := some r.func
  taDesc := r.desc
  taRunningto := false

/-- The sorted linked-list insert: `n` goes in front of the first action due later than it.
The second component is `n->ta_next`. -/
def insertAction (s : State φ δ) (n : Slot) : State φ δ × Option Slot :=
  let p := seek s.next (fun i => s.vtime n < s.vtime i) maxActions none s.queuehead
  ({ s with
      actionStorage := fun i => { s.actionStorage i with taNext := link s.next n p.1 p.2 i }
      queuehead := if p.1 = none then some n else s.queuehead }, p.2)

/-- If the event scheduled before is the one the cpu was told it can run until, stop the cpu. -/
def stopRunningto (s : State φ δ) (next : Option Slot) : State φ δ :=
  match next with
  | none => s
  | some c =>
    if (s.actionStorage c).taRunningto then
      setAction (cpuStopcycling s) c { s.actionStorage c with taRunningto := false }
    else s

def scheduleEvent (s : State φ δ) (r : Request φ δ) : Except String (State φ δ) := do
  let nsecs := r.nsecs + r.jitter
  let (n, s) ← acalloc s
  let s := setAction s n (r.action (clockVnow s + nsecs))
  let (s, next) := insertAction s n
  return stopRunningto s next

/-- One turn of the loop of `check_queue` up to the call of the handler: the head leaves the
list if it is due at the sampled time. -/
def popDue (s : State φ δ) (vnow : BitVec 64) : Option (Slot × State φ δ) :=
  match s.queuehead with
  | none => none
  | some ta =>
    if s.vtime ta > vnow then none else some (ta, { s with queuehead := s.next ta })

/-- How many ticks can be run before the next scheduled event, rounded up. -/
def clockGetrunticks (s : State φ δ) : BitVec 32 × State φ δ :=
  match s.queuehead with
  | none => (maxRun.setWidth 32, s)
  | some ta =>
    let vnow := clockVnow s
    if s.vtime ta ≤ vnow then (0, s)
    else if s.vtime ta < vnow + maxRun * nsecsPerClock then
      let retnsecs : BitVec 32 := (s.vtime ta - vnow).setWidth 32
      let retnsecs := retnsecs + (nsecsPerClock.setWidth 32 - 1)
      (retnsecs / nsecsPerClock.setWidth 32,
        setAction s ta { s.actionStorage ta with taRunningto := true })
    else (maxRun.setWidth 32, s)

/-! ## Initialization -/

def clockCoreinit (s : State φ δ) (tvSec : BitVec 32) : State φ δ :=
  { s with startSecs := tvSec, startNsecs := 0, virtualNow := 0 }

/-- The data segment before `clock_init`. -/
def zeroed : State φ δ where
  virtualNow := 0
  startSecs := 0
  startNsecs := 0
  actionStorage := fun _ => TimedAction.zero
  taFreelist := none
  queuehead := none
  idleslop := 0
  cpuCyclesCount := 0
  cpuCycling := false
  cpuRunningMask := 0
  extraSelecttime := 0
  totRcycles := 0
  totIcycles := 0
  progress := false
  checkProgress := false
  progressWarned := false
  progressTimeout := 0
  progressDeadline := 0
  stoppedInDebugger := false

/-- The state `clock_init` leaves; its `check_queue` finds no action pending. -/
def clockInit (tvSec : BitVec 32) (offset : BitVec 64) : State φ δ :=
  clockVadvance (acallocInit (clockCoreinit zeroed tvSec)) (offset % 10000000)

end Sys161.Clock
