import Sys161.Riscv.Memory

/-!
# The instructions

The control registers and the `rx_do_` functions of `riscvcore.h`. Functions
that differ in an operation only are one definition with the operation as a
parameter, and a constructor named after each of them.
-/

namespace Sys161.Riscv

open Mips (Board)

set_option autoImplicit false

variable {δ : Type} (b : Board δ) (i : Nat)

/-! ## Control registers -/

inductive Csr where
  | sstatus
  | sie
  | stvec
  | sscratch
  | sepc
  | scause
  | stval
  | sip
  | satp
  | mvendorid
  | marchid
  | mimpid
  | mhartid
  | sys161Timer
  /-- Not supported, prohibited, or no such register. -/
  | other
  deriving DecidableEq

/-- The upper bits of the number come from a sign extension. -/
def Csr.ofBits (csr : Word) : Csr :=
  match (csr &&& 0xfff).toNat with
  | 0x100 => sstatus
  | 0x104 => sie
  | 0x105 => stvec
  | 0x140 => sscratch
  | 0x141 => sepc
  | 0x142 => scause
  | 0x143 => stval
  | 0x144 => sip
  | 0x180 => satp
  | 0xf11 => mvendorid
  | 0xf12 => marchid
  | 0xf13 => mimpid
  | 0xf14 => mhartid
  | 0x9c0 => sys161Timer
  | _ => other

def flag (set : Bool) (mask : Word) : Word := if set then mask else 0

namespace Riscvcpu

variable (c : Riscvcpu)

def readCsrSstatus : Word :=
  flag c.statusMxr 0x00080000 ||| flag c.statusSum 0x00040000 ||| flag c.statusSpp 0x00000100 |||
    flag c.statusSpie 0x00000020 ||| flag c.statusUpie 0x00000010 |||
    flag c.statusSie 0x00000002 ||| flag c.statusUie 0x00000001

def writeCsrSstatus (val : Word) : Riscvcpu :=
  { c with
    statusMxr := val &&& 0x00080000 ≠ 0
    statusSum := val &&& 0x00040000 ≠ 0
    statusSpp := val &&& 0x00000100 ≠ 0
    statusSpie := val &&& 0x00000020 ≠ 0
    statusUpie := val &&& 0x00000010 ≠ 0
    statusSie := val &&& 0x00000002 ≠ 0
    statusUie := val &&& 0x00000001 ≠ 0 }

def readCsrSie : Word :=
  flag c.ieSeie 0x00000200 ||| flag c.ieStie 0x00000020 ||| flag c.ieSsie 0x00000002

def writeCsrSie (val : Word) : Riscvcpu :=
  { c with
    ieSeie := val &&& 0x00000200 ≠ 0
    ieStie := val &&& 0x00000020 ≠ 0
    ieSsie := val &&& 0x00000002 ≠ 0 }

def readCsrSip : Word :=
  flag c.irqLamebus 0x00000200 ||| flag c.irqTimer 0x00000020 ||| flag c.irqIpi 0x00000002

/-- The other lines do not change from software. -/
def writeCsrSip (val : Word) : Riscvcpu := { c with irqIpi := val &&& 0x00000002 ≠ 0 }

def readCsrSepc : Word := if c.cext then c.sepc else c.sepc &&& 0xfffffffc

def writeCsrSepc (val : Word) : Riscvcpu := { c with sepc := val &&& 0xfffffffe }

def readCsrScause : Word := flag c.scauseInterrupt 0x80000000 ||| c.scauseTrapcode

def writeCsrScause (val : Word) : Riscvcpu :=
  { c with
    scauseInterrupt := val &&& 0x80000000 ≠ 0
    scauseTrapcode := (val &&& 0x7fffffff) &&& 0xf }

def readCsrSatp : Word :=
  flag c.mmuEnable 0x80000000 ||| (c.mmuAsid <<< 22) ||| (c.mmuPtbasePa >>> 12)

/-- The page table base is not looked up here. -/
def writeCsrSatp (val : Word) : Riscvcpu :=
  { c with
    mmuEnable := val &&& 0x80000000 ≠ 0
    mmuAsid := (val >>> 22) &&& 0x1ff
    mmuPtbasePa := ((val &&& 0x003fffff) &&& 0xfffff) <<< 12
    mmuCachedVpage := invalidCachedVpage }

/-- No value where the register cannot be read. -/
def csrread (csr : Word) : Option Word :=
  match Csr.ofBits csr with
  | .sys161Timer => some (c.cycletrigger.setWidth 32)
  | csr =>
    if c.super = false then none
    else
      match csr with
      | .sstatus => some c.readCsrSstatus
      | .sie => some c.readCsrSie
      | .stvec => some c.stvec
      | .sscratch => some c.sscratch
      | .sepc => some c.readCsrSepc
      | .scause => some c.readCsrScause
      | .stval => some c.stval
      | .sip => some c.readCsrSip
      | .satp => some c.readCsrSatp
      | .mvendorid | .marchid | .mimpid => some 0
      | .mhartid => some (BitVec.ofNat 32 c.cpunum)
      | .sys161Timer | .other => none

def csrwrite (csr val : Word) : Option Riscvcpu :=
  if c.super = false then none
  else
    match Csr.ofBits csr with
    | .sstatus => some (c.writeCsrSstatus val)
    | .sie => some (c.writeCsrSie val)
    | .stvec => some { c with stvec := val &&& 0xfffffffc }
    | .sscratch => some { c with sscratch := val }
    | .sepc => some (c.writeCsrSepc val)
    | .scause => some (c.writeCsrScause val)
    | .stval => some { c with stval := val }
    | .sip => some (c.writeCsrSip val)
    | .satp => some (c.writeCsrSatp val)
    | .sys161Timer =>
      some { c with cycletrigger := c.cyclecount + val.setWidth 64, irqTimer := false }
    | .mvendorid | .marchid | .mimpid | .mhartid | .other => none

/-- Read a csr. -/
def rxDoCsrR (rd : Reg) (csr : Word) : Option Riscvcpu :=
  (c.csrread csr).map fun val => c.setX rd val

/-- Exchange with a csr. -/
def rxDoCsrX (rd : Reg) (val csr : Word) : Option Riscvcpu := do
  let oldval ← c.csrread csr
  let c ← c.csrwrite csr val
  return c.setX rd oldval

/-- Read and change a csr. -/
def rxDoCsrRc (rd : Reg) (mask : Word) (doset : Bool) (csr : Word) : Option Riscvcpu := do
  let oldval ← c.csrread csr
  let c ← c.csrwrite csr (if doset then oldval ||| mask else oldval &&& ~~~mask)
  return c.setX rd oldval

/-- `csrrw` and `csrrwi`. -/
def rxDoCsrrw (rd : Reg) (val csr : Word) : Option Riscvcpu :=
  if rd ≠ 0 then c.rxDoCsrX rd val csr else c.csrwrite csr val

/-- `csrrs`, `csrrsi`, `csrrc` and `csrrci`; `src` is the field that names the source, or is the
source. -/
def rxDoCsrrsc (rd src : Reg) (val : Word) (doset : Bool) (csr : Word) : Option Riscvcpu :=
  if src ≠ 0 then c.rxDoCsrRc rd val doset csr else c.rxDoCsrR rd csr

end Riscvcpu

inductive Csrop where
  | csrrw
  | csrrs
  | csrrc
  | csrrwi
  | csrrsi
  | csrrci
  deriving DecidableEq

/-- `rs1` is the immediate of the last three. -/
def Csrop.run (op : Csrop) (c : Riscvcpu) (rd rs1 : Reg) (csr : Word) : Option Riscvcpu :=
  match op with
  | csrrw => c.rxDoCsrrw rd (c.x rs1) csr
  | csrrs => c.rxDoCsrrsc rd rs1 (c.x rs1) true csr
  | csrrc => c.rxDoCsrrsc rd rs1 (c.x rs1) false csr
  | csrrwi => c.rxDoCsrrw rd (rs1.setWidth 32) csr
  | csrrsi => c.rxDoCsrrsc rd rs1 (rs1.setWidth 32) true csr
  | csrrci => c.rxDoCsrrsc rd rs1 (rs1.setWidth 32) false csr

/-! ## Arithmetic -/

/-- C has no signed shift. -/
def signedshift (val : Word) (amt : Nat) : Word :=
  let result := val >>> amt
  if val &&& 0x80000000 ≠ 0 then result ||| (0xffffffff <<< (31 - amt)) else result

def ofBool (p : Bool) : Word := if p then 1 else 0

/-- The functions of a register and an immediate. -/
inductive Alui where
  | addi
  | slti
  | sltiu
  | andi
  | ori
  | xori
  | slli
  | srli
  | srai
  deriving DecidableEq

def Alui.eval (op : Alui) (rs1 imm : Word) : Word :=
  match op with
  | addi => rs1 + imm
  | slti => ofBool (rs1.slt imm)
  | sltiu => ofBool (rs1.ult imm)
  | andi => rs1 &&& imm
  | ori => rs1 ||| imm
  | xori => rs1 ^^^ imm
  | slli => rs1 <<< imm.toNat
  | srli => rs1 >>> imm.toNat
  | srai => signedshift rs1 imm.toNat

/-- The functions of two registers. -/
inductive Alu where
  | add
  | sub
  | slt
  | sltu
  | and
  | or
  | xor
  | sll
  | srl
  | sra
  | mul
  | mulh
  | mulhu
  | mulhsu
  | div
  | divu
  | rem
  | remu
  deriving DecidableEq

/-- There is no such operation in C: the product of the magnitudes, with the sign put back. -/
def rxDoMulhsu (rs1 rs2 : Word) : Word :=
  let neg := rs1.msb
  let rs1val : BitVec 64 := if neg then -(rs1.signExtend 64) else rs1.setWidth 64
  let res := rs1val * rs2.setWidth 64
  (if neg then -res else res).extractLsb' 32 32

def Alu.eval (op : Alu) (rs1 rs2 : Word) : Word :=
  match op with
  | add => rs1 + rs2
  | sub => rs1 - rs2
  | slt => ofBool (rs1.slt rs2)
  | sltu => ofBool (rs1.ult rs2)
  | and => rs1 &&& rs2
  | or => rs1 ||| rs2
  | xor => rs1 ^^^ rs2
  | sll => rs1 <<< (rs2 &&& 31).toNat
  | srl => rs1 >>> (rs2 &&& 31).toNat
  | sra => signedshift rs1 (rs2 &&& 31).toNat
  | mul => rs1 * rs2
  | mulh => (rs1.signExtend 64 * rs2.signExtend 64).extractLsb' 32 32
  | mulhu => (rs1.setWidth 64 * rs2.setWidth 64).extractLsb' 32 32
  | mulhsu => rxDoMulhsu rs1 rs2
  | div =>
    if rs2 = 0 then 0xffffffff
    else if rs1 = 0x80000000 ∧ rs2 = 0xffffffff then 0x80000000
    else rs1.sdiv rs2
  | divu => if rs2 = 0 then 0xffffffff else rs1 / rs2
  | rem =>
    if rs2 = 0 then rs1
    else if rs1 = 0x80000000 ∧ rs2 = 0xffffffff then 0
    else rs1.srem rs2
  | remu => if rs2 = 0 then rs1 else rs1 % rs2

/-- The conditions of the branches. -/
inductive Branch where
  | beq
  | bne
  | blt
  | bltu
  | bge
  | bgeu
  deriving DecidableEq

def Branch.taken (op : Branch) (rs1 rs2 : Word) : Bool :=
  match op with
  | beq => rs1 = rs2
  | bne => rs1 ≠ rs2
  | blt => rs1.slt rs2
  | bltu => rs1.ult rs2
  | bge => !rs1.slt rs2
  | bgeu => !rs1.ult rs2

/-- The atomic operations on memory. -/
inductive Amo where
  | amoswap
  | amoadd
  | amoand
  | amoor
  | amoxor
  | amomax
  | amomaxu
  | amomin
  | amominu
  deriving DecidableEq

/-- What goes back to memory. -/
def Amo.eval (op : Amo) (memval rs2 : Word) : Word :=
  match op with
  | amoswap => rs2
  | amoadd => memval + rs2
  | amoand => memval &&& rs2
  | amoor => memval ||| rs2
  | amoxor => memval ^^^ rs2
  | amomax => if rs2.slt memval then memval else rs2
  | amomaxu => if rs2.ult memval then memval else rs2
  | amomin => if memval.slt rs2 then memval else rs2
  | amominu => if memval.ult rs2 then memval else rs2

/-! ## Instructions -/

/-- `RDx = val`. -/
def setX (rd : Reg) (val : Word) : M δ Unit := modCpu i fun c => c.setX rd val

def rxIll (insn : Word) : M δ Unit := raise .illinst insn

def rxJump (dest : Word) : M δ Unit := do
  if (← getCpu i).cext = false ∧ dest &&& 0x2 ≠ 0 then
    raise .ialign dest
  else
    modCpu i fun c => { c with pc := dest, nextpc := dest }
    precomputePc b i

def rxDoJal (rd : Reg) (imm retpc : Word) : M δ Unit := do
  let dest := ((← getCpu i).pc + imm) &&& 0xfffffffe
  rxJump b i dest
  setX i rd retpc

def rxDoJalr (rd rs1 : Reg) (imm retpc : Word) : M δ Unit := do
  let dest := ((← getCpu i).x rs1 + imm) &&& 0xfffffffe
  rxJump b i dest
  setX i rd retpc

def rxDoBranch (op : Branch) (rs1 rs2 : Reg) (imm : Word) : M δ Unit := do
  let c ← getCpu i
  if op.taken (c.x rs1) (c.x rs2) then
    rxJump b i (c.pc + imm)

def rxDoLoad (ms : Memstyles) (rd rs1 : Reg) (imm : Word) : M δ Unit := do
  let addr := (← getCpu i).x rs1 + imm
  let tmp ← doload b i ms false addr
  setX i rd tmp

def rxDoStore (ms : Memstyles) (rs2 rs1 : Reg) (imm : Word) : M δ Unit := do
  let c ← getCpu i
  dostore b i ms (c.x rs1 + imm) (c.x rs2)

def rxDoAmo (op : Amo) (rd rs1 rs2 : Reg) : M δ Unit := do
  let memval ← doload b i .word true ((← getCpu i).x rs1)
  let c ← getCpu i
  dostore b i .word (c.x rs1) (op.eval memval (c.x rs2))
  setX i rd memval

def rxDoLr (rd rs1 : Reg) : M δ Unit := do
  let addr := (← getCpu i).x rs1
  if addr &&& 0x3 ≠ 0 then
    raise .lalign addr
  else
    let val ← domemFetch b i addr .read
    modCpu i fun c => { c with lrActive := true, lrAddr := addr, lrValue := val }
    setX i rd val

def rxDoSc (rd rs1 rs2 : Reg) : M δ Unit := do
  let c ← getCpu i
  let addr := c.x rs1
  let val := c.x rs2
  if addr &&& 0x3 ≠ 0 then
    raise .lalign addr
  else if c.lrActive = false then
    setX i rd 0
  else
    modCpu i fun c => { c with lrActive := false }
    if c.lrAddr ≠ addr then
      setX i rd 0
    else
      let temp ← domemFetch b i addr .write
      if temp ≠ c.lrValue then
        setX i rd 0
      else
        domemStore b i addr val
        setX i rd 1

def rxDoEcall : M δ Unit := raise .ucall 0

/-- `try_breakpoint`: the debugger takes breakpoints in the range of addresses where main memory
can be. -/
def Machine.gdbCanhandle (m : Machine δ) (pcaddr : Word) : Bool :=
  m.gdbReady && decide (paddrRambase ≤ pcaddr ∧ pcaddr < paddrRombase)

def tryBreakpoint : M δ Bool := do
  if (← get).gdbCanhandle (← getCpu i).pc then
    cpuStopcycling
    mainEnterDebugger false
    modCpu i fun c =>
      { c with
        cyclecount := c.cyclecount - 1, hitBreakpoint := true
        nextpc := c.pc, nextpcoff := c.pcoff }
    return true
  else
    return false

def rxDoEbreak : M δ Unit := raise .breakpoint 0

/-- What `rx_do_sret` does before it looks up the page of the pc. -/
def Riscvcpu.sret (c : Riscvcpu) : Riscvcpu :=
  let pc := if c.cext then c.sepc else c.sepc &&& 0xfffffffc
  { c with
    statusSie := c.statusSpie, statusSpie := true, super := c.statusSpp, pc := pc, nextpc := pc }

def rxDoSret : M δ Unit := do
  modCpu i Riscvcpu.sret
  precomputePc b i

/-- The cpu goes idle unless an interrupt that IE does not mask is there. -/
def rxDoWfi : M δ Unit := do
  let c ← getCpu i
  let eie := if c.super then c.ieSeie else true
  let tie := if c.super then c.ieStie else true
  let sie := if c.super then c.ieSsie else true
  if (c.irqLamebus && eie) || (c.irqTimer && tie) || (c.irqIpi && sie) then
    pure ()
  else
    modCpu i fun c => { c with state := .idle }
    runningMaskOff c.cpunum

def rxDoSfenceVma : M δ Unit := do
  reloadPagetables b i
  modCpu i fun c => { c with mmuCachedVpage := invalidCachedVpage }

/-- An instruction of supervisor mode. -/
def ifSuper (insn : Word) (x : M δ Unit) : M δ Unit := do
  if (← getCpu i).super then
    x
  else
    rxIll insn

def rxCsr (op : Csrop) (rd rs1 : Reg) (csr insn : Word) : M δ Unit := do
  match op.run (← getCpu i) rd rs1 csr with
  | some c => modCpu i fun _ => c
  | none => raise .illinst insn

end Sys161.Riscv
