import Sys161.Bus.Event

/-! # The emulator filesystem device: completion of an operation -/

namespace Sys161.Bus

set_option autoImplicit false

def emufsNsecs : BitVec 64 := 5000000

/-- The registers that completion touches. -/
structure EmufsData where
  edResult : BitVec 32
  edBusy : BitVec 32
  edBusyresult : BitVec 32

def emufsSetresult (ed : EmufsData) (result : BitVec 32) : Done EmufsData :=
  { dev := { ed with edResult := result }, irq := some (decide (result > 0)) }

def emufsDone (ed : EmufsData) : Except String (Done EmufsData) :=
  if ed.edBusy ≠ 1 then .error "Spurious call of emufs_done"
  else
    let r := emufsSetresult ed ed.edBusyresult
    .ok { r with dev := { r.dev with edBusy := 0, edBusyresult := 0 } }

end Sys161.Bus
