import Sys161.Mips.Lamebus

/-!
# The RISC-V cpus and what they share

The static data of `riscv.c` and `lamebus.c` that the processor core works on.
The configuration of the board, the devices on the bus, the state of the bus
controller and the pages of host memory are those of the MIPS core.
-/

namespace Sys161.Riscv

open Mips (Board CpuState LamebusCpu Page PercpuStats)

set_option autoImplicit false

abbrev Word := BitVec 32

/-- The number of a general register, as it stands in an instruction. -/
abbrev Reg := BitVec 5

def paddrRambase : Word := 0xc0000000

def paddrRombase : Word := 0xffc00000

def paddrBusbase : Word := 0xffe00000

/-- Matches no page. -/
def invalidCachedVpage : Word := 0xffffffff

inductive Memrwx where
  | read
  | write
  | execute
  deriving DecidableEq

inductive Ex where
  | ialign
  | iaccess
  | illinst
  | breakpoint
  | lalign
  | laccess
  | salign
  | saccess
  | ucall
  | ipage
  | lpage
  | spage
  deriving DecidableEq

def Ex.code : Ex → Word
  | ialign => 0
  | iaccess => 1
  | illinst => 2
  | breakpoint => 3
  | lalign => 4
  | laccess => 5
  | salign => 6
  | saccess => 7
  | ucall => 8
  | ipage => 12
  | lpage => 13
  | spage => 15

inductive Irq where
  | ssoft
  | stimer
  | sextern
  deriving DecidableEq

def Irq.code : Irq → Word
  | ssoft => 1
  | stimer => 5
  | sextern => 9

/-- The arguments of `trap()`. -/
inductive Trap where
  | exception (code : Ex) (val : Word)
  | interrupt (code : Irq)
  deriving DecidableEq

namespace Trap

def isirq : Trap → Bool
  | exception _ _ => false
  | interrupt _ => true

def code : Trap → Word
  | exception code _ => code.code
  | interrupt code => code.code

def val : Trap → Word
  | exception _ val => val
  | interrupt _ => 0

end Trap

/-- Where the cpu executes. -/
structure FetchState where
  pc : Word
  pcoff : Word
  pcpage : Option Page
  nextpc : Word
  nextpcoff : Word
  trapped : Bool

structure MmuState where
  mmuEnable : Bool
  mmuAsid : Word
  mmuPtbasePa : Word
  mmuPttoppage : Option Page

/-- The last translation that was looked up in the page table. -/
structure MmuCache where
  mmuCachedVpage : Word
  mmuCachedPpage : Word
  mmuCachedReadable : Bool
  mmuCachedWriteable : Bool
  mmuCachedExecutable : Bool

structure StatusReg where
  statusMxr : Bool
  statusSum : Bool
  statusSpp : Bool
  statusSie : Bool
  statusSpie : Bool
  statusUie : Bool
  statusUpie : Bool

structure IrqState where
  ieSeie : Bool
  ieStie : Bool
  ieSsie : Bool
  irqLamebus : Bool
  irqTimer : Bool
  irqIpi : Bool

structure TrapRegs where
  stvec : Word
  sscratch : Word
  scauseInterrupt : Bool
  scauseTrapcode : Word
  stval : Word
  sepc : Word

structure LrState where
  lrActive : Bool
  lrAddr : Word
  lrValue : Word

structure Riscvcpu extends FetchState, MmuState, MmuCache, StatusReg, IrqState, TrapRegs,
    LrState where
  state : CpuState
  cpunum : Nat
  super : Bool
  cext : Bool
  x : Reg → Word
  cyclecount : BitVec 64
  cycletrigger : BitVec 64
  hitBreakpoint : Bool

/-- The messages of `hang()`. -/
inductive Hang where
  /-- `The system is wedged, sorry.` -/
  | wedged
  /-- `Kernel entry point is not properly aligned` -/
  | entryNotAligned
  /-- `Kernel entry point is an invalid address` -/
  | entryInvalid
  /-- `Read from LAMEbus controller power register` -/
  | powerRead
  /-- `Invalid power state` -/
  | powerState
  /-- A message of one of the other devices. -/
  | device
  deriving DecidableEq

/-- All cpus, main memory, the bus controller and the devices on the bus. -/
structure Machine (δ : Type) where
  mycpus : Nat → Riscvcpu
  cpuRunningMask : Word
  cpuCycling : Bool
  stoppedInDebugger : Bool
  stopIsLethal : Bool
  /-- What `hang()` has printed. -/
  hangs : List Hang
  /-- The debugger would take a breakpoint now. -/
  gdbReady : Bool
  /-- Main memory, by words. -/
  ram : BitVec 30 → Word
  busRaisedInterrupts : Word
  busEnabledInterrupts : Word
  cpus : Nat → LamebusCpu
  devices : δ
  sPercpu : Nat → PercpuStats

/-- Ways a piece of the core stops short. -/
inductive Stop where
  /-- `exception()` or `interrupt()` is called, and its callers return. -/
  | trap (t : Trap)
  /-- The whole program ends, after a message. -/
  | crashdie
  /-- `smoke()` or a failed `Assert`. -/
  | smoke (msg : String)
  /-- The C code leaves defined behaviour. -/
  | undefined (msg : String)
  deriving DecidableEq

/-- An access past the end of `cpu_cram`. -/
def pastCram : Stop := .undefined "cpu_cram overrun"

abbrev M (δ : Type) := EStateM Stop (Machine δ)

variable {δ : Type}

/-- `RDx = val`; nothing is stored in the zero register. -/
def Riscvcpu.setX (c : Riscvcpu) (rd : Reg) (val : Word) : Riscvcpu :=
  if rd = 0 then c else { c with x := Function.update c.x rd val }

namespace Machine

def setCpu (m : Machine δ) (i : Nat) (c : Riscvcpu) : Machine δ :=
  { m with mycpus := Function.update m.mycpus i c }

def modCpu (m : Machine δ) (i : Nat) (f : Riscvcpu → Riscvcpu) : Machine δ :=
  m.setCpu i (f (m.mycpus i))

/-- What `hang()` leaves. -/
def hung (m : Machine δ) (why : Hang) : Machine δ :=
  { m with
    hangs := why :: m.hangs, cpuCycling := false, stoppedInDebugger := true, stopIsLethal := true }

@[simp] theorem setCpu_mycpus_self (m : Machine δ) (i : Nat) (c : Riscvcpu) :
    (m.setCpu i c).mycpus i = c := by
  simp [setCpu]

theorem setCpu_mycpus_ne (m : Machine δ) {i j : Nat} (c : Riscvcpu) (h : j ≠ i) :
    (m.setCpu i c).mycpus j = m.mycpus j := by
  simp [setCpu, h]

@[simp] theorem setCpu_setCpu (m : Machine δ) (i : Nat) (c c' : Riscvcpu) :
    (m.setCpu i c).setCpu i c' = m.setCpu i c' := by
  simp [setCpu]

@[simp] theorem setCpu_self (m : Machine δ) (i : Nat) : m.setCpu i (m.mycpus i) = m := by
  simp [setCpu]

@[simp] theorem modCpu_mycpus_self (m : Machine δ) (i : Nat) (f : Riscvcpu → Riscvcpu) :
    (m.modCpu i f).mycpus i = f (m.mycpus i) := setCpu_mycpus_self m i _

theorem modCpu_mycpus_ne (m : Machine δ) {i j : Nat} (f : Riscvcpu → Riscvcpu) (h : j ≠ i) :
    (m.modCpu i f).mycpus j = m.mycpus j := setCpu_mycpus_ne m _ h

end Machine

def getCpu (i : Nat) : M δ Riscvcpu := do
  return (← get).mycpus i

def modCpu (i : Nat) (f : Riscvcpu → Riscvcpu) : M δ Unit :=
  modify fun m => m.modCpu i f

def raise {α : Type} (code : Ex) (val : Word) : M δ α := throw (.trap (.exception code val))

def cpuStopcycling : M δ Unit :=
  modify fun m => { m with cpuCycling := false }

def mainEnterDebugger (lethal : Bool) : M δ Unit :=
  modify fun m => { m with stoppedInDebugger := true, stopIsLethal := lethal }

/-- The guest did something the hardware does not like. -/
def hang (why : Hang) : M δ Unit := do
  modify fun m => { m with hangs := why :: m.hangs }
  cpuStopcycling
  mainEnterDebugger true

def runningMaskOff (i : Nat) : M δ Unit :=
  modify fun m => { m with cpuRunningMask := m.cpuRunningMask &&& ~~~(1#32 <<< i) }

def runningMaskOn (i : Nat) : M δ Unit :=
  modify fun m => { m with cpuRunningMask := m.cpuRunningMask ||| (1#32 <<< i) }

end Sys161.Riscv
