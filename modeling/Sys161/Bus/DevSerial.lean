import Sys161.Bus.Event

/-! # The serial device -/

namespace Sys161.Bus

set_option autoImplicit false

def serialNsecs : BitVec 64 := 1000000000 / (19200 * 25 / 10)

structure SerIrq where
  siOn : Bool
  siReady : Bool
  siForce : Bool

/-- The ring of the input has cells. -/
instance neZero_inbuf : NeZero 512 := ⟨by decide⟩

structure SerData where
  sdWbusy : Bool
  sdRbusy : Bool
  sdRirq : SerIrq
  sdWirq : SerIrq
  sdReadch : BitVec 32
  sdDidread : Bool
  sdDroppedreads : BitVec 32
  sdInbuf : Fin 512 → BitVec 8
  sdInbufhead : Fin 512
  sdInbuftail : Fin 512

def serialInit : SerData where
  sdWbusy := false
  sdRbusy := false
  sdRirq := ⟨false, false, false⟩
  sdWirq := ⟨false, false, false⟩
  sdReadch := 0
  sdDidread := true
  sdDroppedreads := 0
  sdInbuf := fun _ => 0
  sdInbufhead := 0
  sdInbuftail := 0

def SerIrq.asserted (si : SerIrq) : Bool := si.siOn && (si.siReady || si.siForce)

/-- The line that `setirq` puts the slot's interrupt to. -/
def SerData.setirq (sd : SerData) : Bool := sd.sdRirq.asserted || sd.sdWirq.asserted

def serialWritedone (sd : SerData) : Done SerData :=
  let sd := { sd with sdWbusy := false, sdWirq := { sd.sdWirq with siReady := true } }
  { dev := sd, irq := some sd.setirq }

def serialRead : Arm where
  nsecs := serialNsecs
  code := 0
  func := .serialPushinput
  desc := "serial read"

def serialPushinput (sd : SerData) : Done SerData :=
  if sd.sdInbufhead = sd.sdInbuftail then { dev := { sd with sdRbusy := false } }
  else if !sd.sdDidread && sd.sdRirq.siReady then
    let sd := { sd with sdDroppedreads := sd.sdDroppedreads + 1 }
    { dev := sd
      arm := some serialRead
      msgs := if sd.sdDroppedreads = 1000000000 / serialNsecs.setWidth 32 then
          ["Kernel not responding; console input suspended"] else [] }
  else
    let dropped := sd.sdDroppedreads
    let sd := { sd with
      sdReadch := (sd.sdInbuf sd.sdInbufhead).setWidth 32
      sdInbufhead := sd.sdInbufhead + 1
      sdDroppedreads := 0
      sdDidread := false
      sdRirq := { sd.sdRirq with siReady := true }
      sdRbusy := true }
    { dev := sd
      irq := some sd.setirq
      arm := some serialRead
      msgs := if dropped > 0 then
          [s!"Held up to {dropped.toNat} input characters while kernel unresponsive"] else [] }

/-- `serial_input`, with `overrun_in_progress`. -/
def serialInput (overrun : Bool) (sd : SerData) (ch : BitVec 32) : Bool × Done SerData :=
  let nexttail := sd.sdInbuftail + 1
  if nexttail = sd.sdInbufhead then
    (true, { dev := sd, msgs := if overrun then [] else ["Input buffer overrun"] })
  else
    let sd := { sd with
      sdInbuf := Function.update sd.sdInbuf sd.sdInbuftail (ch.setWidth 8)
      sdInbuftail := nexttail }
    (false, if sd.sdRbusy then { dev := sd } else serialPushinput sd)

/-! ## Registers -/

def serregChar : Nat := 0x0

def serregWirq : Nat := 0x4

def serregRirq : Nat := 0x8

def irqfOn : BitVec 32 := 1

def irqfReady : BitVec 32 := 2

def irqfForce : BitVec 32 := 4

def fetchirq (si : SerIrq) : BitVec 32 :=
  (if si.siOn then irqfOn else 0) ||| (if si.siReady then irqfReady else 0) |||
    (if si.siForce then irqfForce else 0)

def storeirq (val : BitVec 32) : SerIrq where
  siOn := val &&& irqfOn ≠ 0
  siReady := val &&& irqfReady ≠ 0
  siForce := val &&& irqfForce ≠ 0

def serialFetch (sd : SerData) (offset : BitVec 32) : Option (BitVec 32) × SerData :=
  if offset.toNat = serregChar then (some sd.sdReadch, { sd with sdDidread := true })
  else if offset.toNat = serregRirq then (some (fetchirq sd.sdRirq), sd)
  else if offset.toNat = serregWirq then (some (fetchirq sd.sdWirq), sd)
  else (none, sd)

def serialWrite : Arm where
  nsecs := serialNsecs
  code := 0
  func := .serialWritedone
  desc := "serial write"

/-- A store, with the character for the console; nothing where there is no such register. -/
def serialStore (sd : SerData) (offset val : BitVec 32) :
    Option (Done SerData × Option (BitVec 32)) :=
  if offset.toNat = serregChar then
    if sd.sdWbusy then some ({ dev := sd }, none)
    else some ({ dev := { sd with sdWbusy := true }, arm := some serialWrite }, some val)
  else if offset.toNat = serregRirq then
    let sd := { sd with sdRirq := storeirq val }
    some ({ dev := sd, irq := some sd.setirq }, none)
  else if offset.toNat = serregWirq then
    let sd := { sd with sdWirq := storeirq val }
    some ({ dev := sd, irq := some sd.setirq }, none)
  else none

end Sys161.Bus
