import Mathlib.Data.BitVec
import Mathlib.Logic.Function.Basic
import Sys161.Lib.Exec

/-!
# The MIPS cpus and what they share

The static data of `mips.c` and `lamebus.c` that the processor core works on,
and the configuration, which never changes during a run. A host pointer into
a page of memory is a `Page`; `NULL` is `none`.
-/

namespace Sys161.Mips

set_option autoImplicit false

abbrev Word := BitVec 32

/-- The number of a general register, as it stands in an instruction. -/
abbrev Reg := BitVec 5

def ntlb : Nat := 64

def randregMax : Word := 56

def randregOffset : Nat := 8

def fullopRfe : Word := 0x42000010

def kseg0 : Word := 0x80000000

def kseg2 : Word := 0xc0000000

inductive CpuState where
  | disabled
  | idle
  | running
  deriving DecidableEq

inductive Ex where
  | irq
  | mod
  | tlbl
  | tlbs
  | adel
  | ades
  | ibe
  | dbe
  | sys
  | bp
  | ri
  | cpu
  | ovf
  deriving DecidableEq

def Ex.code : Ex → Word
  | irq => 0
  | mod => 1
  | tlbl => 2
  | tlbs => 3
  | adel => 4
  | ades => 5
  | ibe => 6
  | dbe => 7
  | sys => 8
  | bp => 9
  | ri => 10
  | cpu => 11
  | ovf => 12

/-- The arguments of `exception()`. -/
structure Exn where
  code : Ex
  cnOrUser : Word
  vaddr : Word
  deriving DecidableEq

/-- A page of host memory, by its offset in main memory or in the boot ROM. -/
inductive Page where
  | ram (base : Word)
  | rom (base : Word)
  deriving DecidableEq

structure Mipstlb where
  mtGlobal : Bool
  mtValid : Bool
  mtDirty : Bool
  mtNocache : Bool
  mtPfn : Word
  mtVpn : Word
  mtPid : Word
  deriving DecidableEq

/-- Where the cpu executes. At instruction decode time `pc` points to the delay slot and `nextpc` to
the instruction after it. -/
structure FetchState where
  jumping : Bool
  inJumpdelay : Bool
  expc : Word
  pc : Word
  nextpc : Word
  pcoff : Word
  nextpcoff : Word
  pcpage : Option Page
  nextpcpage : Option Page

structure TlbState where
  tlb : Nat → Mipstlb
  tlbentry : Mipstlb
  tlbindex : Nat
  tlbpf : Bool
  /-- Not bounded; a signed int. -/
  tlbrandom : BitVec 32

structure StatusReg where
  oldUsermode : Bool
  oldIrqon : Bool
  prevUsermode : Bool
  prevIrqon : Bool
  currentUsermode : Bool
  currentIrqon : Bool
  statusHardmaskLb : Word
  statusHardmaskIpi : Word
  statusHardmaskFpu : Word
  statusHardmaskVoid : Word
  statusHardmaskTimer : Word
  statusSoftmask : Word
  statusBootvectors : Word
  statusCopenable : Word

structure CauseReg where
  causeBd : Bool
  causeCe : Word
  causeSoftirq : Word
  causeCode : Word

structure Cop0Regs where
  exConfig0 : Word
  exConfig1 : Word
  exContext : Word
  exEpc : Word
  exVaddr : Word
  exPrid : Word
  exCfeat : Word
  exIfeat : Word

structure TimerRegs where
  exCount : Word
  exCompare : Word
  exCompareUsed : Bool
  irqTimer : Bool

/-- The interrupt lines from the bus. -/
structure IrqLines where
  irqLamebus : Bool
  irqIpi : Bool

structure LlState where
  llActive : Bool
  llAddr : Word
  llValue : Word

structure Mipscpu extends FetchState, TlbState, StatusReg, CauseReg, Cop0Regs, TimerRegs, IrqLines,
    LlState where
  state : CpuState
  cpunum : Nat
  r : Reg → Word
  lo : Word
  hi : Word
  lowait : Nat
  hiwait : Nat
  hitBreakpoint : Bool

structure PercpuStats where
  spUcycles : BitVec 64
  spKcycles : BitVec 64
  spIcycles : BitVec 64
  spUretired : BitVec 64
  spKretired : BitVec 64
  deriving DecidableEq

structure LamebusCpu where
  cpuEnabled : Bool
  cpuEnabledInterrupts : Word
  cpuInterrupting : Bool
  cpuIpi : Bool
  cpuCram : BitVec 5 → Word

/-- The messages of `hang()`. -/
inductive Hang where
  /-- `Duplicate TLB entries for vpage` -/
  | duplicateTlbEntries (vpage : Word)
  /-- `Status register write attempted to use` deprecated bits -/
  | statusRegisterWrite
  /-- `Kernel entry point is not properly aligned` -/
  | entryNotAligned
  /-- `Kernel entry point is an invalid address` -/
  | entryInvalid
  /-- `Read from LAMEbus controller power register` -/
  | powerRead
  /-- `Invalid power state` -/
  | powerState
  /-- A message of one of the other devices. -/
  | device
  deriving DecidableEq

/-- All cpus, main memory, the bus controller and the devices on the bus. -/
structure Machine (δ : Type) where
  mycpus : Nat → Mipscpu
  cpuRunningMask : Word
  cpuCycling : Bool
  stoppedInDebugger : Bool
  stopIsLethal : Bool
  /-- What `hang()` has printed. -/
  hangs : List Hang
  /-- The debugger would take a breakpoint now. -/
  gdbReady : Bool
  /-- Main memory, by words. -/
  ram : BitVec 30 → Word
  busRaisedInterrupts : Word
  busEnabledInterrupts : Word
  cpus : Nat → LamebusCpu
  devices : δ
  sPercpu : Nat → PercpuStats

structure DeviceInfo where
  ldiVendorid : Word
  ldiDeviceid : Word
  ldiRevision : Word

/-- What a device does with a register access: the changes it makes to its interrupt line, in
order, whether it calls `hang()`, and the value, or no value where it refuses the access. -/
structure Reply (δ α : Type) where
  devices : δ
  irqs : List Bool
  hung : Bool
  val : Option α

def maxmem : Word := 16 * 1024 * 1024

/-- The configuration of the mainboard and the devices in the other slots. -/
structure Board (δ : Type) where
  ncpus : Nat
  ncpus_pos : 0 < ncpus
  ncpus_le : ncpus ≤ 32
  busRamsize : Word
  ramsize_ne : busRamsize ≠ 0
  ramsize_page : busRamsize &&& 0xfff = 0
  ramsize_le : busRamsize ≤ maxmem
  isold : Bool
  isold_ncpus : isold = true → ncpus = 1
  info : Nat → Option DeviceInfo
  ldiFetch : (cpunum slot : Nat) → (offset : Word) → δ → Reply δ Word
  ldiStore : (cpunum slot : Nat) → (offset val : Word) → δ → Reply δ Unit

/-- Ways a piece of the core stops short. -/
inductive Stop where
  /-- `exception()` has been called, and its callers return. -/
  | exception
  /-- `smoke()` or a failed `Assert`. -/
  | smoke (msg : String)
  /-- The C code leaves defined behaviour. -/
  | undefined (msg : String)
  deriving DecidableEq

/-- An access past the end of `cpu_cram`. -/
def pastCram : Stop := .undefined "cpu_cram overrun"

abbrev M (δ : Type) := EStateM Stop (Machine δ)

variable {δ : Type}

namespace Machine

def setCpu (m : Machine δ) (i : Nat) (c : Mipscpu) : Machine δ :=
  { m with mycpus := Function.update m.mycpus i c }

def modCpu (m : Machine δ) (i : Nat) (f : Mipscpu → Mipscpu) : Machine δ :=
  m.setCpu i (f (m.mycpus i))

/-- What `hang()` leaves. -/
def hung (m : Machine δ) (why : Hang) : Machine δ :=
  { m with
    hangs := why :: m.hangs, cpuCycling := false, stoppedInDebugger := true, stopIsLethal := true }

@[simp] theorem setCpu_mycpus_self (m : Machine δ) (i : Nat) (c : Mipscpu) :
    (m.setCpu i c).mycpus i = c := by
  simp [setCpu]

theorem setCpu_mycpus_ne (m : Machine δ) {i j : Nat} (c : Mipscpu) (h : j ≠ i) :
    (m.setCpu i c).mycpus j = m.mycpus j := by
  simp [setCpu, h]

@[simp] theorem setCpu_setCpu (m : Machine δ) (i : Nat) (c c' : Mipscpu) :
    (m.setCpu i c).setCpu i c' = m.setCpu i c' := by
  simp [setCpu]

@[simp] theorem setCpu_self (m : Machine δ) (i : Nat) : m.setCpu i (m.mycpus i) = m := by
  simp [setCpu]

@[simp] theorem modCpu_mycpus_self (m : Machine δ) (i : Nat) (f : Mipscpu → Mipscpu) :
    (m.modCpu i f).mycpus i = f (m.mycpus i) := setCpu_mycpus_self m i _

theorem modCpu_mycpus_ne (m : Machine δ) {i j : Nat} (f : Mipscpu → Mipscpu) (h : j ≠ i) :
    (m.modCpu i f).mycpus j = m.mycpus j := setCpu_mycpus_ne m _ h

section Frame

variable (m : Machine δ) (i : Nat) (c : Mipscpu) (f : Mipscpu → Mipscpu)

@[simp] theorem setCpu_ram : (m.setCpu i c).ram = m.ram := rfl

@[simp] theorem setCpu_cpus : (m.setCpu i c).cpus = m.cpus := rfl

@[simp] theorem setCpu_devices : (m.setCpu i c).devices = m.devices := rfl

@[simp] theorem setCpu_cpuRunningMask : (m.setCpu i c).cpuRunningMask = m.cpuRunningMask := rfl

@[simp] theorem setCpu_busRaisedInterrupts :
    (m.setCpu i c).busRaisedInterrupts = m.busRaisedInterrupts := rfl

@[simp] theorem setCpu_busEnabledInterrupts :
    (m.setCpu i c).busEnabledInterrupts = m.busEnabledInterrupts := rfl

@[simp] theorem modCpu_ram : (m.modCpu i f).ram = m.ram := rfl

@[simp] theorem modCpu_cpus : (m.modCpu i f).cpus = m.cpus := rfl

@[simp] theorem modCpu_devices : (m.modCpu i f).devices = m.devices := rfl

@[simp] theorem modCpu_cpuRunningMask : (m.modCpu i f).cpuRunningMask = m.cpuRunningMask := rfl

@[simp] theorem modCpu_busRaisedInterrupts :
    (m.modCpu i f).busRaisedInterrupts = m.busRaisedInterrupts := rfl

@[simp] theorem modCpu_busEnabledInterrupts :
    (m.modCpu i f).busEnabledInterrupts = m.busEnabledInterrupts := rfl

end Frame

end Machine

def getCpu (i : Nat) : M δ Mipscpu := do
  return (← get).mycpus i

def modCpu (i : Nat) (f : Mipscpu → Mipscpu) : M δ Unit :=
  modify fun m => m.modCpu i f

/-- `RDx = val`, and the same for the other lvalue macros. -/
def setReg (i : Nat) (rd : Reg) (val : Word) : M δ Unit :=
  modCpu i fun c => { c with r := Function.update c.r rd val }

def cpuStopcycling : M δ Unit :=
  modify fun m => { m with cpuCycling := false }

def mainEnterDebugger (lethal : Bool) : M δ Unit :=
  modify fun m => { m with stoppedInDebugger := true, stopIsLethal := lethal }

/-- The guest did something the hardware does not like. Execution goes on to the end of the
cycle. -/
def hang (why : Hang) : M δ Unit := do
  modify fun m => { m with hangs := why :: m.hangs }
  cpuStopcycling
  mainEnterDebugger true

/-- Run a part of the core and say whether it came to its end; only an exception that was posted
counts as an answer. -/
def attempt (x : M δ Unit) : M δ Bool :=
  tryCatch (do x; return true) fun
    | .exception => return false
    | e => throw e

def runningMaskOff (i : Nat) : M δ Unit :=
  modify fun m => { m with cpuRunningMask := m.cpuRunningMask &&& ~~~(1#32 <<< i) }

def runningMaskOn (i : Nat) : M δ Unit :=
  modify fun m => { m with cpuRunningMask := m.cpuRunningMask ||| (1#32 <<< i) }

end Sys161.Mips
