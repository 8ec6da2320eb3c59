import Sys161.Bus.Event

/-! # The timer device -/

namespace Sys161.Bus

set_option autoImplicit false

structure TimerData where
  tdRestartflag : BitVec 32
  tdCountUsecs : BitVec 32
  tdGeneration : BitVec 32

def timerInit : TimerData where
  tdRestartflag := 0
  tdCountUsecs := 0
  tdGeneration := 0

def TimerData.nsecs (td : TimerData) : BitVec 64 := td.tdCountUsecs.setWidth 64 * 1000

def timerStart (td : TimerData) : TimerData × Arm :=
  let td := { td with tdGeneration := td.tdGeneration + 1 }
  (td, { nsecs := td.nsecs, code := td.tdGeneration, func := .timerInterrupt, desc := "timer" })

def timerInterrupt (td : TimerData) (gen : BitVec 32) : Done TimerData :=
  if gen ≠ td.tdGeneration then { dev := td }
  else if td.tdRestartflag ≠ 0 then
    { dev := (timerStart td).1, irq := some true, arm := some (timerStart td).2 }
  else { dev := td, irq := some true }

end Sys161.Bus
