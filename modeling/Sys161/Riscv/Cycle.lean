import Sys161.Mips.Cycle
import Sys161.Riscv.Decode

/-!
# The processor cycle

`cpu_cycle`, start-up, and the steps a machine makes in a run: the turn of one
cpu within a cycle, and what the bus and the kernel loader do between two of
them.
-/

namespace Sys161.Riscv

open Exec Runs
open Mips (Board PercpuStats lamebusNslots)

set_option autoImplicit false

variable {δ : Type} (b : Board δ) (i : Nat)

/-! ## One cpu's share of a cycle -/

/-- The interrupt that is there and enabled, in the order of the tests. -/
def Riscvcpu.pendingIrq (c : Riscvcpu) : Option Irq :=
  if c.statusSie = false then none
  else if c.irqLamebus && c.ieSeie then some Irq.sextern
  else if c.irqTimer && c.ieStie then some .stimer
  else if c.irqIpi && c.ieSsie then some .ssoft
  else none

/-- The cycle goes on with the first instruction of the handler. -/
def takeInterrupt : M δ Unit := do
  match (← getCpu i).pendingIrq with
  | some irq => trap b i (.interrupt irq)
  | none => pure ()

def Machine.countStats (m : Machine δ) (i : Nat) (f : PercpuStats → PercpuStats) : Machine δ :=
  let cpunum := (m.mycpus i).cpunum
  { m with sPercpu := Function.update m.sPercpu cpunum (f (m.sPercpu cpunum)) }

def countCycle : M δ Unit :=
  modify fun m => m.countStats i (PercpuStats.cycle !(m.mycpus i).super)

/-- What comes of a turn before an instruction is executed. -/
inductive Issue where
  | idle
  /-- The second half of an instruction cannot be fetched. -/
  | fault
  | short (insn : Word)
  | long (insn : Word)
  /-- Longer than the cpu supports. -/
  | tooLong (insn : Word)
  deriving DecidableEq

/-- Where the instruction after this one is. -/
def Riscvcpu.setNext (c : Riscvcpu) (len : Word) : Riscvcpu :=
  { c with nextpc := c.pc + len, nextpcoff := c.pcoff + len }

/-- The other half of a long instruction that begins in the upper half of a word, if it can be
fetched. Where it is on the next page the pc points to it for the translation, and `pcoff` is
negative afterwards. -/
def fetchSecond : M δ (Option Word) := do
  let c ← getCpu i
  let pcoff2 := c.pcoff + 2
  if pcoff2 = 0x1000 then
    modCpu i fun c => { c with pc := c.pc + 2 }
    if ← attempt b i (precomputePc b i) then
      let c ← getCpu i
      let insn2 ← useMap c.pcpage c.pcoff
      modCpu i fun c => { c with pc := c.pc - 2, pcoff := c.pcoff - 2 }
      return some insn2
    else
      modCpu i fun c => { c with sepc := c.sepc - 2 }
      return none
  else
    return some (← useMap c.pcpage pcoff2)

def fetch : M δ Issue := do
  let c ← getCpu i
  let word ← useMap c.pcpage (c.pcoff &&& 0xfffffffc)
  let insn := if c.pcoff &&& 0x2 ≠ 0 then word >>> 16 else word
  if insn &&& 0x3 ≠ 0x3 then
    modCpu i fun c => c.setNext 2
    return .short insn
  else if insn &&& 0x1c = 0x1c then
    return .tooLong insn
  else if c.pcoff &&& 0x2 ≠ 0 then
    match ← fetchSecond b i with
    | none => return .fault
    | some insn2 =>
      modCpu i fun c => c.setNext 4
      return .long (insn ||| ((insn2 &&& 0x0000ffff) <<< 16))
  else
    modCpu i fun c => c.setNext 4
    return .long insn

def issue : M δ Issue := do
  if (← getCpu i).state ≠ .running then
    modify fun m => m.countStats i PercpuStats.idle
    return .idle
  else
    takeInterrupt b i
    countCycle i
    modCpu i fun c => { c with trapped := false, hitBreakpoint := false }
    fetch b i

/-- The instruction is executed, and the traps it comes to are taken. -/
def execute (is : Issue) : M δ Bool :=
  trapping b i
    (match is with
      | .short insn => insn16 b i insn
      | .long insn => insn32 b i insn
      | .tooLong insn => do rxIll insn; return false
      | _ => return false)
    false

/-- The timer interrupt comes on the next cycle. -/
def Riscvcpu.tick (c : Riscvcpu) : Riscvcpu :=
  let cyclecount := c.cyclecount + 1
  { c with
    cyclecount := cyclecount
    irqTimer := if cyclecount = c.cycletrigger then true else c.irqTimer }

/-- An instruction that has not trapped has retired. -/
def retire (retireUsermode : Bool) : M δ Unit := do
  if (← getCpu i).trapped = false then
    modify fun m => m.countStats i (PercpuStats.retired retireUsermode)

/-- The pc moves on; the answer is whether there is an instruction to go on with. -/
def updatePc : M δ Bool := do
  modCpu i fun c => { c with pc := c.nextpc }
  if (← getCpu i).pc &&& 0xfff = 0 then
    attempt b i (precomputePc b i)
  else
    modCpu i fun c => { c with pcoff := c.nextpcoff }
    return true

def complete (is : Issue) : M δ Bool := do
  let retireUsermode := !(← getCpu i).super
  let stopped ← execute b i is
  if ← updatePc b i then
    modCpu i Riscvcpu.tick
    retire i retireUsermode
  return stopped

/-- The body of the loop in `cpu_cycle`. The answer is whether the cpu stopped at a breakpoint. -/
def cpuTurn : M δ Bool := do
  match ← issue b i with
  | .idle => return false
  | .fault => return false
  | is => complete b i is

/-- The answer is whether the cycle is billed. -/
def cpuCycle : M δ Bool := do
  let stopped ← (List.range b.ncpus).mapM (cpuTurn b)
  let breakpoints := stopped.count true
  return breakpoints = 0 ∨ breakpoints = b.ncpus

/-! ## Start-up -/

/-- `riscv_init`, with the fetch position that `precompute_pc` gives it. -/
def riscvInit (cpunum : Nat) : Riscvcpu where
  state := .disabled
  cpunum := cpunum
  super := true
  cext := true
  x := fun _ => 0
  pc := paddrRombase + 0x100
  pcoff := 0x100
  pcpage := some (.rom 0)
  nextpc := 0
  nextpcoff := 0x100
  trapped := false
  mmuEnable := false
  mmuAsid := 0
  mmuPtbasePa := 0
  mmuPttoppage := none
  mmuCachedVpage := invalidCachedVpage
  mmuCachedPpage := 0
  mmuCachedReadable := false
  mmuCachedWriteable := false
  mmuCachedExecutable := false
  statusMxr := false
  statusSum := false
  statusSpp := false
  statusSie := false
  statusSpie := false
  statusUie := false
  statusUpie := false
  ieSeie := false
  ieStie := false
  ieSsie := false
  irqLamebus := false
  irqTimer := false
  irqIpi := false
  stvec := paddrRombase
  sscratch := 0
  scauseInterrupt := false
  scauseTrapcode := 0
  stval := 0
  sepc := 0
  cyclecount := 0
  cycletrigger := BitVec.allOnes 64
  lrActive := false
  lrAddr := 0
  lrValue := 0
  hitBreakpoint := false

/-- `bus_config` and `cpu_init`. -/
def machineInit (devices : δ) (gdbReady : Bool) : Machine δ where
  mycpus := fun i => { riscvInit i with state := if i = 0 then .running else .disabled }
  cpuRunningMask := 1
  cpuCycling := false
  stoppedInDebugger := false
  stopIsLethal := false
  hangs := []
  gdbReady := gdbReady
  ram := fun _ => 0
  busRaisedInterrupts := 0
  busEnabledInterrupts := 0xffffffff
  cpus := Mips.lamebusCpuInit
  devices := devices
  sPercpu := fun _ => ⟨0, 0, 0, 0, 0⟩

/-! ## Runs -/

inductive Act (δ : Type) where
  /-- The share of a cpu of a cycle. -/
  | turn (i : Nat)
  | raiseIrq (slot : Nat)
  | lowerIrq (slot : Nat)
  /-- A timed action of a device. -/
  | devices (d : δ)
  | setEntrypoint (i : Nat) (addr : Word)
  | setStack (i : Nat) (stackaddr argument : Word)
  /-- The kernel loader and the debugger write main memory. -/
  | poke (index : BitVec 30) (val : Word)
  /-- The main loop starts and stops the cpus, and the debugger comes and goes. -/
  | debugger (cycling stopped lethal gdbReady : Bool)

/-- The numbers of cpus and slots are in range. -/
def Act.Valid : Act δ → Prop
  | turn i | setEntrypoint i _ | setStack i _ _ => i < b.ncpus
  | raiseIrq slot | lowerIrq slot => slot < lamebusNslots
  | devices _ | poke _ _ | debugger _ _ _ _ => True

def Act.exec : Act δ → M δ Unit
  | turn i => do
    let _ ← cpuTurn b i
  | raiseIrq slot => modify fun m => m.raiseIrq b slot
  | lowerIrq slot => modify fun m => m.lowerIrq b slot
  | devices d => modify fun m => { m with devices := d }
  | setEntrypoint i addr => cpuSetEntrypoint b i addr
  | setStack i stackaddr argument => cpuSetStack i stackaddr argument
  | poke index val => modify fun m => { m with ram := Function.update m.ram index val }
  | debugger cycling stopped lethal gdbReady => modify fun m =>
    { m with
      cpuCycling := cycling, stoppedInDebugger := stopped, stopIsLethal := lethal
      gdbReady := gdbReady }

def Step (m : Machine δ) (a : Act δ) (m' : Machine δ) : Prop :=
  a.Valid b ∧ (a.exec b).run m = .ok () m'

/-- The cpu whose turn it is. -/
def Act.turning : Act δ → Option Nat
  | turn i => some i
  | _ => none

/-- What a turn issues, on which cpu, and the machine then. -/
def issued (m : Machine δ) (a : Act δ) : Option (Nat × Issue × Machine δ) :=
  a.turning.bind fun i =>
    match (issue b i).run m with
    | .ok is t => some (i, is, t)
    | .error _ _ => none

variable {b} in
theorem issued_of_run {i : Nat} {m t : Machine δ} {is : Issue} (h : (issue b i).run m = .ok is t) :
    issued b m (.turn i) = some (i, is, t) := by
  simp only [issued, Act.turning, Option.bind_some, h]

end Sys161.Riscv
