import Sys161.Gdb.MemoryCores
import Sys161.Gdb.Session
import Sys161.Mips.Halted
import Sys161.Riscv.Halted

/-!
# The cores under the debugger

Both cores with what the main loop does to them. A single step is a cycle of the
cpus and what the clock and the devices do after it.
-/

namespace Sys161.Gdb

open ByteOrder CString Exec Runs
open Mips (Board)

set_option autoImplicit false

variable {δ : Type} (b : Board δ)

theorem breakCpu_lt (b : Board δ) (hit : Nat → Bool) :
    ((List.range b.ncpus).find? hit).getD 0 < b.ncpus := by
  cases hFound : (List.range b.ncpus).find? hit with
  | none => exact b.ncpus_pos
  | some i => exact List.mem_range.mp (List.mem_of_find?_eq_some hFound)

def mipsDebuggee {clockTicks : Bool → Mips.M δ Unit}
    (hTicks : ∀ billed, Keeps Mips.Halted (fun _ _ => True) (clockTicks billed)) :
    Debuggee Mips.Stop (Mips.Machine δ) where
  numcpus := b.ncpus
  target i := (mipsTarget b i).toCpudebug
  getregs := Mips.cpudebugGetregs
  enabled m i := (m.mycpus i).state ≠ .disabled
  breakCpu := Mips.cpudebugGetBreakCpu b
  setEntrypoint := Mips.cpuSetEntrypoint b
  onecycle := Mips.onecycle b clockTicks
  stoppedInDebugger m := m.stoppedInDebugger
  stopIsLethal m := m.stopIsLethal
  enterDebugger lethal m := { m with stoppedInDebugger := true, stopIsLethal := lethal }
  leaveDebugger m := { m with stoppedInDebugger := false, stopIsLethal := false }
  numcpus_le := b.ncpus_le
  breakCpu_lt _ := breakCpu_lt b _
  getregs_le m i := by
    change ((List.finRange 32).map _ ++ _).length ≤ 48
    rw [List.length_append, List.length_map, List.length_finRange]
    rfl
  enter _ _ := rfl
  leave _ := rfl
  getregs_stays _ _ h := h
  fetchByte_stays i va := Mips.halted_of_quiet fun m => Mips.quiet_fetchByte b i m va
  fetchWord_stays i va := Mips.halted_of_quiet fun m => Mips.quiet_fetchWord b i m va
  storeByte_stays := Mips.halted_storeByte b
  storeWord_stays := Mips.halted_storeWord b
  setEntrypoint_stays := Mips.halted_setEntrypoint b
  onecycle_stays := Mips.halted_onecycle b hTicks

def riscvDebuggee {clockTicks : Bool → Riscv.M δ Unit}
    (hTicks : ∀ billed, Keeps Riscv.Halted (fun _ _ => True) (clockTicks billed)) :
    Debuggee Riscv.Stop (Riscv.Machine δ) where
  numcpus := b.ncpus
  target i := (riscvTarget b i).toCpudebug
  getregs := Riscv.cpudebugGetregs
  enabled m i := (m.mycpus i).state ≠ .disabled
  breakCpu := Riscv.cpudebugGetBreakCpu b
  setEntrypoint := Riscv.cpuSetEntrypoint b
  onecycle := Riscv.onecycle b clockTicks
  stoppedInDebugger m := m.stoppedInDebugger
  stopIsLethal m := m.stopIsLethal
  enterDebugger lethal m := { m with stoppedInDebugger := true, stopIsLethal := lethal }
  leaveDebugger m := { m with stoppedInDebugger := false, stopIsLethal := false }
  numcpus_le := b.ncpus_le
  breakCpu_lt _ := breakCpu_lt b _
  getregs_le m i := by
    change ((List.finRange 32).map _ ++ _).length ≤ 48
    rw [List.length_append, List.length_map, List.length_finRange, List.length_singleton]
    decide
  enter _ _ := rfl
  leave _ := rfl
  getregs_stays _ _ h := h
  fetchByte_stays i va := (Riscv.halted_fetchByte b i va).error fun _ _ _ => trivial
  fetchWord_stays i va := (Riscv.halted_fetchWord b i va).error fun _ _ _ => trivial
  storeByte_stays i va byte := (Riscv.halted_storeByte b i va byte).error fun _ _ _ => trivial
  storeWord_stays i va word := (Riscv.halted_storeWord b i va word).error fun _ _ _ => trivial
  setEntrypoint_stays i addr := (Riscv.halted_setEntrypoint b i addr).error fun _ _ _ => trivial
  onecycle_stays := Riscv.halted_onecycle b hTicks

/-- One MIPS cpu, without a clock and devices. -/
def bareDebuggee : Debuggee Mips.Stop (Mips.Machine Unit) :=
  mipsDebuggee Mips.bareBoard fun _ => Keeps.pure ()

/-- It has stopped, and a debugger is there. -/
def bareTold : Session (Mips.Machine Unit) where
  machine := bareDebuggee.enterDebugger false (Mips.machineInit () true)
  debugCpu := 0
  connected := true
  place := .waiting

theorem bareTold_read : Scripts.yields
    (execPacket bareDebuggee .little true 2 (text "$m80000000,4#55")) (fun _ t => t.sent)
      bareTold.debugState = some (text "+$00000000#80") := by
  decide +kernel

end Sys161.Gdb
