import Sys161.Bus.DevTimer
import Sys161.Bus.DevSerial
import Sys161.Bus.DevNet
import Sys161.Bus.DevEmufs
import Sys161.Bus.DevDisk
import Sys161.Main.Samplers

/-!
# The clock with the devices behind its events

`runHandler` is the call `ta_func(ta_data, ta_code)` of `check_queue`, and `turn`
one iteration of its loop.
-/

namespace Sys161.Bus

open Clock MainLoop WallClock

set_option autoImplicit false

/-- The data behind every pointer an event can carry, with `bus_raised_interrupts` and the
main loop's shutoff flag. -/
structure Devices where
  timers : Fin 32 → TimerData
  serials : Fin 32 → SerData
  nets : Fin 32 → NetData
  emufs : Fin 32 → EmufsData
  disks : Fin 32 → DiskData
  meters : Nat → Meter
  prof : Prof
  raised : BitVec 32
  shutoff : Bool

structure World where
  clock : State Func Data
  devices : Devices

/-- `raise_irq` and `lower_irq` on the mask of the bus. -/
def setLine (raised : BitVec 32) (slot : Fin 32) (irq : Option Bool) : BitVec 32 :=
  match irq with
  | none => raised
  | some true => raised ||| ((1 : BitVec 32) <<< slot.val)
  | some false => raised &&& ~~~((1 : BitVec 32) <<< slot.val)

/-- What a handler leaves for the loop: the devices, and its outcome without the data. -/
abbrev Handled := Done Devices

def Done.into {α : Type} (r : Done α) (D : Devices) : Handled := { r with dev := D }

def Devices.timerDone (D : Devices) (i : Fin 32) (r : Done TimerData) : Handled :=
  r.into { D with timers := Function.update D.timers i r.dev, raised := setLine D.raised i r.irq }

def Devices.serialDone (D : Devices) (i : Fin 32) (r : Done SerData) : Handled :=
  r.into { D with serials := Function.update D.serials i r.dev, raised := setLine D.raised i r.irq }

def Devices.netDone (D : Devices) (i : Fin 32) (r : Done NetData) : Handled :=
  r.into { D with nets := Function.update D.nets i r.dev, raised := setLine D.raised i r.irq }

def Devices.emufsDone (D : Devices) (i : Fin 32) (r : Done EmufsData) : Handled :=
  r.into { D with emufs := Function.update D.emufs i r.dev, raised := setLine D.raised i r.irq }

def Devices.diskDone (D : Devices) (i : Fin 32) (r : Done DiskData) : Handled :=
  r.into { D with disks := Function.update D.disks i r.dev, raised := setLine D.raised i r.irq }

def Devices.meterDone (D : Devices) (m : Nat) (r : Done Meter) : Handled :=
  r.into { D with meters := Function.update D.meters m r.dev }

def Devices.profDone (D : Devices) (r : Done Prof) : Handled := r.into { D with prof := r.dev }

/-- Slot 31 is the bus controller, whose line breaks the clock out of the idle loop. -/
def dopoweroff (D : Devices) : Handled :=
  { dev := { D with raised := setLine D.raised 31 (some true), shutoff := true }
    irq := some true }

def runHandler (D : Devices) (now : BitVec 32 × BitVec 32) (h : Host) (func : Option Func)
    (data : Option Data) (code : BitVec 32) : Except String Handled :=
  match func, data with
  | some .timerInterrupt, some (.slot i) => .ok (D.timerDone i (timerInterrupt (D.timers i) code))
  | some .serialWritedone, some (.slot i) => .ok (D.serialDone i (serialWritedone (D.serials i)))
  | some .serialPushinput, some (.slot i) => .ok (D.serialDone i (serialPushinput (D.serials i)))
  | some .keepalive, some (.slot i) => .ok (D.netDone i (keepalive (D.nets i) i h.sendto))
  | some .triggersend, some (.slot i) => .ok (D.netDone i (triggersend (D.nets i) i h.sendto))
  | some .emufsDone, some (.slot i) => (Bus.emufsDone (D.emufs i)).map (D.emufsDone i)
  | some .diskSeekdone, some (.slot i) =>
    (diskSeekdone (D.disks i) code now h).map (D.diskDone i)
  | some .diskWaitdone, some (.slot i) =>
    (diskWaitdone (D.disks i) code now h).map (D.diskDone i)
  | some .dopoweroff, none => .ok (dopoweroff D)
  | some .meterUpdate, some (.meter m) => .ok (D.meterDone m (meterUpdate (D.meters m)))
  | some .profSample, none => .ok (D.profDone (profSample D.prof h.pc))
  | _, _ => .error "Segmentation fault"

/-- One iteration of the loop of `check_queue`, or `none` where the loop ends. -/
def turn (vnow : BitVec 64) (h : Host) (w : World) : Option (Except String World) :=
  match popDue w.clock vnow with
  | none => none
  | some (ta, clock) =>
    let e := clock.actionStorage ta
    some do
      let r ← runHandler w.devices (clockTime clock) h e.taFunc e.taData e.taCode
      let clock ← applyEffects clock (r.calls e.taData h.jitter)
      return { clock := acfree clock ta, devices := r.dev }

/-- An iteration that comes to its end, whatever the host does. -/
def Turn (vnow : BitVec 64) (w w' : World) : Prop := ∃ h, turn vnow h w = some (.ok w')

/-- An iteration is a dispatch of the main loop with the calls of its handler. -/
theorem turn_path {vnow : BitVec 64} {h : Host} {w w' : World}
    (hTurn : turn vnow h w = some (.ok w')) (caller : Option Caller) :
    ∃ p, Runs.Path MainLoop.Step ⟨w.clock, .queue caller vnow⟩ p ⟨w'.clock, .queue caller vnow⟩ := by
  rw [turn] at hTurn
  cases hPop : popDue w.clock vnow with
  | none =>
    rw [hPop] at hTurn
    cases hTurn
  | some q =>
    rw [hPop] at hTurn
    obtain ⟨r, -, hTurn⟩ := bind_eq_ok (Option.some.inj hTurn)
    obtain ⟨s, hCalls, hTurn⟩ := bind_eq_ok hTurn
    cases hTurn
    exact ⟨_, Runs.Path.cons (MainLoop.Step.dispatch hPop) (Runs.Path.cons (MainLoop.Step.handler hCalls)
      (Runs.Path.nil _))⟩

/-! ## The registers of the timer -/

/-- `timer_store`, by its offset; the boolean is whether there is such a register. -/
def timerStore (w : World) (slot : Fin 32) (offset val : BitVec 32) (h : Host) :
    Except String (Bool × World) :=
  let td := w.devices.timers slot
  let put (td : TimerData) : Devices :=
    { w.devices with timers := Function.update w.devices.timers slot td }
  let hang : World :=
    { w with clock := { cpuStopcycling w.clock with stoppedInDebugger := true } }
  match offset.toNat with
  | 0x00 => .ok (true, { w with clock := clockSetsecs w.clock val })
  | 0x04 => .ok (true, { w with clock := clockSetnsecs w.clock val })
  | 0x08 => .ok (true, { w with devices := put { td with tdRestartflag := val } })
  | 0x10 => do
    let (td, arm) := timerStart { td with tdCountUsecs := val }
    let clock ← scheduleEvent w.clock (arm.request (some (.slot slot)) h.jitter)
    return (true, { clock := clock, devices := put td })
  | 0x14 => .ok (true, w)
  | 0x0c | 0x18 | 0x1c => .ok (true, hang)
  | _ => .ok (false, w)

theorem timerStore_time {w : World} {slot : Fin 32} {val : BitVec 32} {h : Host}
    {td : TimerData} {arm : Arm} {clock : State Func Data}
    (hStart : timerStart { w.devices.timers slot with tdCountUsecs := val } = (td, arm))
    (hOk : scheduleEvent w.clock (arm.request (some (.slot slot)) h.jitter) = .ok clock) :
    timerStore w slot 0x10 val h = .ok (true,
      ⟨clock, { w.devices with timers := Function.update w.devices.timers slot td }⟩) := by
  have hStore : timerStore w slot 0x10 val h =
      (do
        let (td, arm) := timerStart { w.devices.timers slot with tdCountUsecs := val }
        let clock ← scheduleEvent w.clock (arm.request (some (.slot slot)) h.jitter)
        return (true, ⟨clock, { w.devices with
          timers := Function.update w.devices.timers slot td }⟩)) := rfl
  rw [hStore, hStart]
  show (scheduleEvent w.clock (arm.request (some (.slot slot)) h.jitter) >>= _) = _
  rw [hOk]
  rfl

end Sys161.Bus
