import Sys161.Lib.Runs
import Sys161.Mips.Insns

/-!
# The processor cycle

The dispatch of an instruction, `cpu_cycle`, start-up, and the steps a machine
makes in a run: a cycle, the turn of one cpu within it, and what the bus and
the kernel loader do between two of them.
-/

namespace Sys161.Mips

set_option autoImplicit false

variable {δ : Type} (b : Board δ) (i : Nat)

/-! ## Dispatch -/

inductive Ops where
  | sll
  | srl
  | sra
  | sllv
  | srlv
  | srav
  | jr
  | jalr
  | syscall
  | break
  | sync
  | mfhi
  | mthi
  | mflo
  | mtlo
  | mult
  | multu
  | div
  | divu
  | add
  | addu
  | sub
  | subu
  | and
  | or
  | xor
  | nor
  | slt
  | sltu
  | ill
  deriving DecidableEq

def Ops.ofBits (funct : BitVec 6) : Ops :=
  match funct.toNat with
  | 0 => sll
  | 2 => srl
  | 3 => sra
  | 4 => sllv
  | 6 => srlv
  | 7 => srav
  | 8 => jr
  | 9 => jalr
  | 12 => syscall
  | 13 => .break
  | 15 => sync
  | 16 => mfhi
  | 17 => mthi
  | 18 => mflo
  | 19 => mtlo
  | 24 => mult
  | 25 => multu
  | 26 => div
  | 27 => divu
  | 32 => add
  | 33 => addu
  | 34 => sub
  | 35 => subu
  | 36 => and
  | 37 => or
  | 38 => xor
  | 39 => nor
  | 42 => slt
  | 43 => sltu
  | _ => ill

inductive Opm where
  | special
  | bcond
  | j
  | jal
  | beq
  | bne
  | blez
  | bgtz
  | addi
  | addiu
  | slti
  | sltiu
  | andi
  | ori
  | xori
  | lui
  /-- `OPM_COP0` to `OPM_COP3`. -/
  | cop
  | lb
  | lh
  | lwl
  | lw
  | lbu
  | lhu
  | lwr
  | sb
  | sh
  | swl
  | sw
  | swr
  | cache
  | lwc0
  /-- `OPM_LWC1` to `OPM_LWC3`. -/
  | lwc
  | swc0
  /-- `OPM_SWC1` to `OPM_SWC3`. -/
  | swc
  | ill
  deriving DecidableEq

def Opm.ofBits (op : BitVec 6) : Opm :=
  match op.toNat with
  | 0 => special
  | 1 => bcond
  | 2 => j
  | 3 => jal
  | 4 => beq
  | 5 => bne
  | 6 => blez
  | 7 => bgtz
  | 8 => addi
  | 9 => addiu
  | 10 => slti
  | 11 => sltiu
  | 12 => andi
  | 13 => ori
  | 14 => xori
  | 15 => lui
  | 16 | 17 | 18 | 19 => cop
  | 32 => lb
  | 33 => lh
  | 34 => lwl
  | 35 => lw
  | 36 => lbu
  | 37 => lhu
  | 38 => lwr
  | 40 => sb
  | 41 => sh
  | 42 => swl
  | 43 => sw
  | 46 => swr
  | 47 => cache
  | 48 => lwc0
  | 49 | 50 | 51 => lwc
  | 56 => swc0
  | 57 | 58 | 59 => swc
  | _ => ill

def opm (insn : Word) : Opm := Opm.ofBits (insn.extractLsb' 26 6)

def ops (insn : Word) : Ops := Ops.ofBits (insn.extractLsb' 0 6)

section Dispatch

variable (insn : Word)

/-- All of `OPM_SPECIAL` but the breakpoints that the debugger takes. -/
def executeSpecial : M δ Unit :=
  match ops insn with
  | .sll => mxSll i insn
  | .srl => mxSrl i insn
  | .sra => mxSra i insn
  | .sllv => mxSllv i insn
  | .srlv => mxSrlv i insn
  | .srav => mxSrav i insn
  | .jr => mxJr b i insn
  | .jalr => mxJalr b i insn
  | .syscall => mxSyscall b i
  | .break => mxBreak b i
  | .sync => mxSync
  | .mfhi => mxMfhi b i insn
  | .mthi => mxMthi b i insn
  | .mflo => mxMflo b i insn
  | .mtlo => mxMtlo b i insn
  | .mult => mxMult b i insn
  | .multu => mxMultu b i insn
  | .div => mxDiv b i insn
  | .divu => mxDivu b i insn
  | .add => mxAdd b i insn
  | .addu => mxAddu i insn
  | .sub => mxSub b i insn
  | .subu => mxSubu i insn
  | .and => mxAnd i insn
  | .or => mxOr i insn
  | .xor => mxXor i insn
  | .nor => mxNor i insn
  | .slt => mxSlt i insn
  | .sltu => mxSltu i insn
  | .ill => mxIll b i

def executeBcond : M δ Unit :=
  match (rt insn).toNat with
  | 0 => mxBltz b i insn
  | 1 => mxBgez b i insn
  | 16 => mxBltzal b i insn
  | 17 => mxBgezal b i insn
  | _ => mxIll b i

def execute : M δ Unit :=
  match opm insn with
  | .special => executeSpecial b i insn
  | .bcond => executeBcond b i insn
  | .j => mxJ b i insn
  | .jal => mxJal b i insn
  | .beq => mxBeq b i insn
  | .bne => mxBne b i insn
  | .blez => mxBlez b i insn
  | .bgtz => mxBgtz b i insn
  | .addi => mxAddi b i insn
  | .addiu => mxAddiu i insn
  | .slti => mxSlti i insn
  | .sltiu => mxSltiu i insn
  | .andi => mxAndi i insn
  | .ori => mxOri i insn
  | .xori => mxXori i insn
  | .lui => mxLui i insn
  | .cop => mxCopz b i insn
  | .lb => mxLb b i insn
  | .lh => mxLh b i insn
  | .lwl => mxLwl b i insn
  | .lw => mxLw b i insn
  | .lbu => mxLbu b i insn
  | .lhu => mxLhu b i insn
  | .lwr => mxLwr b i insn
  | .sb => mxSb b i insn
  | .sh => mxSh b i insn
  | .swl => mxSwl b i insn
  | .sw => mxSw b i insn
  | .swr => mxSwr b i insn
  | .cache => mxCache b i insn
  | .lwc0 => mxLl b i insn
  | .lwc => mxLwc b i insn
  | .swc0 => mxSc b i insn
  | .swc => mxSwc b i insn
  | .ill => mxIll b i

end Dispatch

/-! ## One cpu's share of a cycle -/

def Machine.gdbCanhandle (m : Machine δ) (pcaddr : Word) : Bool :=
  m.gdbReady && decide (kseg0 ≤ pcaddr ∧ pcaddr < kseg2)

/-- The exception pc moves to the current instruction, unless that is in a delay slot. -/
def Mipscpu.updateExpc (c : Mipscpu) : Mipscpu :=
  if c.jumping then { c with jumping := false, inJumpdelay := true } else { c with expc := c.pc }

/-- An interrupt is there and enabled. -/
def Mipscpu.interrupted (c : Mipscpu) : Bool :=
  c.currentIrqon &&
    ((c.irqLamebus && c.statusHardmaskLb != 0) || (c.irqIpi && c.statusHardmaskIpi != 0) ||
      (c.irqTimer && c.statusHardmaskTimer != 0) || (c.statusSoftmask &&& c.causeSoftirq) != 0)

/-- The exception pc, and the exception for a pending interrupt; the cycle goes on with the first
instruction of the handler. -/
def Mipscpu.startCycle (c : Mipscpu) : Mipscpu :=
  let c := c.updateExpc
  if c.interrupted then
    let c := c.exception b ⟨.irq, 0, 0⟩
    { c with expc := c.pc }
  else c

def Machine.countStats (m : Machine δ) (i : Nat) (f : PercpuStats → PercpuStats) : Machine δ :=
  let cpunum := (m.mycpus i).cpunum
  { m with sPercpu := Function.update m.sPercpu cpunum (f (m.sPercpu cpunum)) }

def PercpuStats.cycle (usermode : Bool) (sp : PercpuStats) : PercpuStats :=
  if usermode then { sp with spUcycles := sp.spUcycles + 1 }
  else { sp with spKcycles := sp.spKcycles + 1 }

def PercpuStats.retired (usermode : Bool) (sp : PercpuStats) : PercpuStats :=
  if usermode then { sp with spUretired := sp.spUretired + 1 }
  else { sp with spKretired := sp.spKretired + 1 }

def PercpuStats.idle (sp : PercpuStats) : PercpuStats := { sp with spIcycles := sp.spIcycles + 1 }

def countCycle : M δ Unit :=
  modify fun m => m.countStats i (PercpuStats.cycle (m.mycpus i).currentUsermode)

/-- The pc moves on. -/
def Mipscpu.advance (c : Mipscpu) : Mipscpu :=
  { c with
    pc := c.nextpc
    pcoff := c.nextpcoff
    pcpage := c.nextpcpage
    nextpc := c.nextpc + 4 }

/-- The pc moves on, and the address after it is translated if it lies on a new page. -/
def advancePc (insn : Word) : M δ Unit := do
  modCpu i Mipscpu.advance
  if (← getCpu i).nextpc &&& 0xfff = 0 then
    if insn = fullopRfe then
      modCpu i fun c => { c with nextpcpage := none, nextpcoff := 0 }
    else
      precomputeNextpc b i
  else
    modCpu i fun c => { c with nextpcoff := c.nextpcoff + 4 }

/-- The timer, the interlock and the random register at the end of a cycle. -/
def Mipscpu.tick (c : Mipscpu) : Mipscpu :=
  let fires := c.exCompareUsed = true ∧ c.exCount + 1 = c.exCompare
  { c with
    exCount := if fires then 0 else c.exCount + 1
    irqTimer := if fires then true else c.irqTimer
    lowait := c.lowait - 1
    hiwait := c.hiwait - 1
    inJumpdelay := false
    tlbrandom := c.tlbrandom + 1 }

def retire (retirePc : Word) (retireUsermode : Bool) : M δ Unit := do
  if (← getCpu i).pc = retirePc then
    modify fun m => m.countStats i (PercpuStats.retired retireUsermode)

/-- A breakpoint instruction where the debugger takes it. -/
def breakpoint : M δ Unit := do
  phonyException b i
  cpuStopcycling
  mainEnterDebugger false
  modCpu i fun c => { c with exCount := c.exCount - 1, hitBreakpoint := true }

/-- What comes of a turn before an instruction is executed. -/
inductive Issue where
  | idle
  /-- The address after the next one does not translate. -/
  | fault
  | breakpoint
  | insn (insn : Word)
  deriving DecidableEq

/-- The instruction is fetched and the pc moves on. -/
def fetch : M δ Issue := do
  let c ← getCpu i
  let insn ← useMap c.pcpage c.pcoff
  if ← attempt (advancePc b i insn) then
    modCpu i fun c => { c with hitBreakpoint := false }
    if opm insn = .special ∧ ops insn = .break ∧ (← get).gdbCanhandle (← getCpu i).expc = true then
      breakpoint b i
      return .breakpoint
    else
      return .insn insn
  else
    return .fault

def issue : M δ Issue := do
  if (← getCpu i).state ≠ .running then
    modify fun m => m.countStats i PercpuStats.idle
    return .idle
  else
    modCpu i fun c => c.startCycle b
    countCycle i
    fetch b i

/-- The instruction is executed. It retires if the pc is where `nextpc` was at the start of the
cycle, that is, where the pc has moved to. -/
def complete (insn : Word) : M δ Unit := do
  let c ← getCpu i
  let _ ← attempt (execute b i insn)
  modCpu i Mipscpu.tick
  retire i c.pc c.currentUsermode

/-- The body of the loop in `cpu_cycle`. The answer is whether the cpu stopped at a breakpoint. -/
def cpuTurn : M δ Bool := do
  match ← issue b i with
  | .insn insn =>
    complete b i insn
    return false
  | .breakpoint => return true
  | _ => return false

/-- The answer is whether the cycle is billed. -/
def cpuCycle : M δ Bool := do
  let stopped ← (List.range b.ncpus).mapM (cpuTurn b)
  let breakpoints := stopped.count true
  return breakpoints = 0 ∨ breakpoints = b.ncpus

/-! ## Start-up -/

def mipsInit (cpunum : Nat) : Mipscpu where
  state := .disabled
  cpunum := cpunum
  r := fun _ => 0
  lo := 0
  hi := 0
  lowait := 0
  hiwait := 0
  jumping := false
  inJumpdelay := false
  expc := 0
  pc := 0xbfc00000
  nextpc := 0xbfc00004
  pcoff := 0
  nextpcoff := 4
  pcpage := some (.rom 0)
  nextpcpage := some (.rom 0)
  tlb := resetTlbentry
  tlbentry := resetTlbentry ntlb
  tlbindex := 0
  tlbpf := false
  tlbrandom := randregMax - 1
  oldUsermode := false
  oldIrqon := false
  prevUsermode := false
  prevIrqon := false
  currentUsermode := false
  currentIrqon := false
  statusHardmaskLb := 0
  statusHardmaskIpi := 0
  statusHardmaskFpu := 0
  statusHardmaskVoid := 0
  statusHardmaskTimer := 0
  statusSoftmask := 0
  statusBootvectors := 0x00400000
  statusCopenable := 0
  causeBd := false
  causeCe := 0
  causeSoftirq := 0
  causeCode := 0
  exConfig0 := 0x800083f3
  exConfig1 := 0x7e1b0d80
  exContext := 0
  exEpc := 0
  exVaddr := 0
  exPrid := 0xa1
  exCfeat := 0
  exIfeat := 0
  exCount := 1
  exCompare := 0
  exCompareUsed := false
  irqLamebus := false
  irqIpi := false
  irqTimer := false
  llActive := false
  llAddr := 0
  llValue := 0
  hitBreakpoint := false

def lamebusCpuInit (i : Nat) : LamebusCpu where
  cpuEnabled := i = 0
  cpuEnabledInterrupts := 0xffffffff
  cpuInterrupting := false
  cpuIpi := false
  cpuCram := fun _ => 0

/-- `bus_config` and `cpu_init`. -/
def machineInit (devices : δ) (gdbReady : Bool) : Machine δ where
  mycpus := fun i => { mipsInit i with state := if i = 0 then .running else .disabled }
  cpuRunningMask := 1
  cpuCycling := false
  stoppedInDebugger := false
  stopIsLethal := false
  hangs := []
  gdbReady := gdbReady
  ram := fun _ => 0
  busRaisedInterrupts := 0
  busEnabledInterrupts := 0xffffffff
  cpus := lamebusCpuInit
  devices := devices
  sPercpu := fun _ => ⟨0, 0, 0, 0, 0⟩

end Sys161.Mips
