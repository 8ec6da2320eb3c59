import Sys161.Riscv.Translate

/-!
# Register writes and memory accesses

The functions of `riscv.c` that the bus controller calls, the registers of
`lamebus.c` that can be written, and the loads and stores of `riscvcore.h`.
-/

namespace Sys161.Riscv

open Mips (Board Page cramOffset lamebusConfigSize lamebusControllerSlot lamebusNslots
  lamebusSlotMem lbcCramEnd lbcCramStart)

set_option autoImplicit false

variable {δ : Type} (b : Board δ) (i : Nat)

/-! ## What the bus asks of a cpu -/

def cpuEnable : M δ Unit := do
  modCpu i fun c => { c with state := .running }
  runningMaskOn i

def cpuDisable : M δ Unit := do
  modCpu i fun c => { c with state := .disabled }
  runningMaskOff i

def cpuSetEntrypoint (addr : Word) : M δ Unit := do
  let alignmask := if (← getCpu i).cext then 0xfffffffe else 0xfffffffc
  if addr &&& alignmask ≠ addr then
    hang .entryNotAligned
  modCpu i fun c => { c with pc := addr &&& alignmask }
  if ← attempt b i (precomputePc b i) then
    pure ()
  else
    hang .entryInvalid

def cpuSetStack (stackaddr argument : Word) : M δ Unit :=
  modCpu i fun c => { c with x := Function.update (Function.update c.x 2 stackaddr) 10 argument }

def cpuGetSecondaryStartStack (lboffset : Word) : Word := paddrBusbase + lboffset

/-! ## Registers that can be written -/

/-- One turn of the loop in `set_cpue`. -/
def setCpueCpu (val : Word) (i : Nat) : M δ Unit := do
  let thisbit := val.getLsbD i
  let cpu := (← get).cpus i
  if cpu.cpuEnabled && !thisbit then
    modify fun m => m.setLamebusCpu i { m.cpus i with cpuEnabled := false }
    cpuDisable i
  else if !cpu.cpuEnabled && thisbit then
    let cramoffset := BitVec.ofNat 32 (lamebusSlotMem * lamebusControllerSlot + 32768 +
      i * lamebusConfigSize + lbcCramEnd)
    let stackva := cpuGetSecondaryStartStack cramoffset
    let pcva := cpu.cpuCram 0
    let arg := cpu.cpuCram 1
    cpuSetEntrypoint b i pcva
    cpuSetStack i stackva arg
    cpuEnable i

def setCpue (val : Word) : M δ Unit :=
  (List.range b.ncpus).forM (setCpueCpu b val)

def lamebusControllerStoreCpu (offset : Nat) (val : Word) : M δ Bool := do
  let region := offset / lamebusConfigSize
  let offset := offset % lamebusConfigSize
  let cpu := (← get).cpus region
  if b.ncpus ≤ region then
    return false
  else if lbcCramStart ≤ offset ∧ offset < lbcCramEnd then
    let word ← cramWord offset
    let cpu := { cpu with cpuCram := Function.update cpu.cpuCram word val }
    modify fun m => m.setLamebusCpu region cpu
    return true
  else
    match offset with
    | 0x0 =>
      let cpu := { cpu with cpuEnabledInterrupts := val }
      modify fun m => (m.setLamebusCpu region cpu).irqupdate b
      return true
    | 0x4 =>
      let cpu := { cpu with cpuIpi := val ≠ 0 }
      modify fun m =>
        (m.setLamebusCpu region cpu).cpuSetIrqs region cpu.cpuInterrupting cpu.cpuIpi
      return true
    | _ => return false

/-- A write of 0 to the power register also puts the poweroff event on the queue of the clock. -/
def lamebusControllerStoreConfig (offset : Nat) (val : Word) : M δ Bool := do
  let region := offset / lamebusConfigSize
  let offset := offset % lamebusConfigSize
  if region ≠ lamebusControllerSlot then
    return false
  else
    match offset with
    | 0x208 =>
      if val ≠ 0 ∧ b.isold = false ∧ val &&& 0x80000000 = 0 then
        hang .powerState
      return true
    | 0x20c =>
      modify fun m => { m with busEnabledInterrupts := val }.irqupdate b
      return true
    | 0x214 =>
      if b.isold then
        return false
      else
        setCpue b val
        return true
    | _ => return false

def lamebusControllerStore (offset : Nat) (val : Word) : M δ Bool :=
  if 32768 ≤ offset then
    if b.isold then return false else lamebusControllerStoreCpu b (offset - 32768) val
  else lamebusControllerStoreConfig b offset val

def busIoStore (cpunum : Nat) (offset val : Word) : M δ Bool := do
  let slot := offset.toNat / lamebusSlotMem
  let slotoffset := offset.toNat % lamebusSlotMem
  if lamebusNslots ≤ slot then
    return false
  else if offset &&& 0x3 ≠ 0 then
    throw (.smoke "Assertion failed")
  else if slot = lamebusControllerSlot then
    lamebusControllerStore b slotoffset val
  else
    let ret := b.ldiStore cpunum slot (BitVec.ofNat 32 slotoffset) val (← get).devices
    modify fun m => m.reply b slot ret
    return ret.val.isSome

/-! ## Words -/

/-- `accessmem` for a write, before the access fault. -/
def storePhys (paddr val : Word) : M δ Bool := do
  if paddr < paddrRambase then
    return false
  else if paddr < paddrRombase then
    busMemStore b (paddr - paddrRambase) val
  else if paddr < paddrBusbase then
    return false
  else
    busIoStore b (← getCpu i).cpunum (paddr - paddrBusbase) val

/-- `domem` for a read; `willrwx` says whether this cycle also writes there. -/
def domemFetch (vaddr : Word) (willrwx : Memrwx) : M δ Word := do
  let paddr ← translatemem b i vaddr willrwx
  match ← fetchPhys b i paddr with
  | some val => return val
  | none => throw (.trap (accessfault vaddr willrwx))

/-- `domem` for a write. -/
def domemStore (vaddr val : Word) : M δ Unit := do
  let paddr ← translatemem b i vaddr .write
  if ← storePhys b i paddr val then
    pure ()
  else
    throw (.trap (accessfault vaddr .write))

/-! ## Loads and stores of any width -/

inductive Memstyles where
  | sbyte
  | ubyte
  | shalf
  | uhalf
  | word
  deriving DecidableEq

def alignDown (addr : Word) : Word := addr &&& 0xfffffffc

/-- The part of a pair of words that begins at a byte of the first. -/
def joinWords (addr val1 val2 : Word) : Word :=
  match (addr &&& 3).toNat with
  | 1 => ((val1 &&& 0xffffff00) >>> 8) ||| ((val2 &&& 0x000000ff) <<< 24)
  | 2 => ((val1 &&& 0xffff0000) >>> 16) ||| ((val2 &&& 0x0000ffff) <<< 16)
  | _ => ((val1 &&& 0xff000000) >>> 24) ||| ((val2 &&& 0x00ffffff) <<< 8)

def loadByte (val addr : Word) : BitVec 8 := val.extractLsb' (8 * (addr &&& 3).toNat) 8

/-- `hval` for a half that may go on in the next word. -/
def loadHalf (addr : Word) (willrwx : Memrwx) : M δ (BitVec 16) := do
  let val ← domemFetch b i (alignDown addr) willrwx
  if addr &&& 3 = 3 then
    let next ← domemFetch b i (alignDown addr + 4) willrwx
    return ((val &&& 0xff000000) >>> 24 ||| ((next &&& 0xff) <<< 8)).setWidth 16
  else
    return val.extractLsb' (8 * (addr &&& 3).toNat) 16

def doload (ms : Memstyles) (willbewrite : Bool) (addr : Word) : M δ Word := do
  modCpu i fun c => { c with lrActive := false }
  let willrwx := if willbewrite then Memrwx.write else .read
  match ms with
  | .sbyte =>
    let val ← domemFetch b i (alignDown addr) willrwx
    return (loadByte val addr).signExtend 32
  | .ubyte =>
    let val ← domemFetch b i (alignDown addr) willrwx
    return (loadByte val addr).setWidth 32
  | .shalf => return (← loadHalf b i addr willrwx).signExtend 32
  | .uhalf => return (← loadHalf b i addr willrwx).setWidth 32
  | .word =>
    if addr &&& 3 = 0 then
      domemFetch b i (alignDown addr) willrwx
    else
      let val1 ← domemFetch b i (alignDown addr) willrwx
      let val2 ← domemFetch b i (alignDown addr + 4) willrwx
      return joinWords addr val1 val2

/-- Part of a word is replaced. -/
def modifyWord (addr mask val : Word) : M δ Unit := do
  let wval ← domemFetch b i (alignDown addr) .write
  domemStore b i (alignDown addr) ((wval &&& ~~~mask) ||| val)

/-- `dostore` of a byte. -/
def storeByte (addr val : Word) : M δ Unit := do
  modCpu i fun c => { c with lrActive := false }
  let shift := 8 * (addr &&& 3).toNat
  modifyWord b i addr (0xff <<< shift) ((val &&& 0xff) <<< shift)

def storeHalf (addr val : Word) : M δ Unit := do
  modCpu i fun c => { c with lrActive := false }
  if addr &&& 3 = 3 then
    storeByte b i addr (val &&& 0xff)
    storeByte b i (addr + 1) ((val >>> 8) &&& 0xff)
  else
    let shift := 8 * (addr &&& 3).toNat
    modifyWord b i addr (0xffff <<< shift) ((val &&& 0xffff) <<< shift)

/-- What an unaligned store makes of the two words it touches. -/
def splitWord (addr val val1 val2 : Word) : Word × Word :=
  match (addr &&& 3).toNat with
  | 1 =>
    ((val1 &&& 0x000000ff) ||| ((val &&& 0xffffff00) >>> 8),
      (val2 &&& 0xffffff00) ||| ((val &&& 0x000000ff) <<< 24))
  | 2 =>
    ((val1 &&& 0x0000ffff) ||| ((val &&& 0xffff0000) >>> 16),
      (val2 &&& 0xffff0000) ||| ((val &&& 0x0000ffff) <<< 16))
  | _ =>
    ((val1 &&& 0x00ffffff) ||| ((val &&& 0xff000000) >>> 24),
      (val2 &&& 0xff000000) ||| ((val &&& 0x00ffffff) <<< 8))

def storeWord (addr val : Word) : M δ Unit := do
  modCpu i fun c => { c with lrActive := false }
  if addr &&& 3 = 0 then
    domemStore b i addr val
  else
    let val1 ← domemFetch b i (alignDown addr) .write
    let val2 ← domemFetch b i (alignDown addr + 4) .write
    let (val1, val2) := splitWord addr val val1 val2
    domemStore b i (alignDown addr) val1
    domemStore b i (alignDown addr + 4) val2

def dostore (ms : Memstyles) (addr val : Word) : M δ Unit :=
  match ms with
  | .ubyte => storeByte b i addr val
  | .uhalf => storeHalf b i addr val
  | .word => storeWord b i addr val
  | _ => do
    modCpu i fun c => { c with lrActive := false }
    throw (.smoke "dostore: Illegal addressing mode")

end Sys161.Riscv
