import Sys161.Mips.Translate

/-!
# The LAMEbus controller and physical memory

`lamebus.c` with the functions of `cpu.h` it calls, and the path of a memory
access of the cpu from the virtual address to main memory, the boot ROM or the
registers of a device.
-/

namespace Sys161.Mips

set_option autoImplicit false

variable {δ : Type} (b : Board δ) (i : Nat)

/-! ## What the bus asks of a cpu -/

def Machine.cpuSetIrqs (m : Machine δ) (lamebus ipi : Bool) : Machine δ :=
  let c := { m.mycpus i with irqLamebus := lamebus, irqIpi := ipi }
  if c.state = .idle ∧ (lamebus = true ∨ ipi = true) then
    { m.setCpu i { c with state := .running } with
      cpuRunningMask := m.cpuRunningMask ||| (1#32 <<< i) }
  else m.setCpu i c

def cpuEnable : M δ Unit := do
  modCpu i fun c => { c with state := .running }
  runningMaskOn i

def cpuDisable : M δ Unit := do
  modCpu i fun c => { c with state := .disabled }
  runningMaskOff i

/-- A precomputation that must not fail. -/
def hangUnless (x : M δ Unit) : M δ Unit := do
  if ← attempt x then
    pure ()
  else
    hang .entryInvalid

def cpuSetEntrypoint (addr : Word) : M δ Unit := do
  if addr &&& 0x3 ≠ 0 then
    hang .entryNotAligned
  let addr := addr &&& 0xfffffffc
  modCpu i fun c =>
    { c with r := Function.update c.r 25 addr, expc := addr, pc := addr, nextpc := addr + 4 }
  hangUnless (precomputePc b i)
  hangUnless (precomputeNextpc b i)

def cpuSetStack (stackaddr argument : Word) : M δ Unit :=
  modCpu i fun c =>
    { c with r := Function.update (Function.update c.r 29 stackaddr) 4 argument }

def cpuGetSecondaryStartStack (lboffset : Word) : Word := kseg0 + 0x1fe00000 + lboffset

/-! ## Interrupts -/

def Machine.setLamebusCpu (m : Machine δ) (i : Nat) (cpu : LamebusCpu) : Machine δ :=
  { m with cpus := Function.update m.cpus i cpu }

/-- One turn of the loop in `irqupdate`. -/
def irqupdateCpu (mask : Word) (m : Machine δ) (i : Nat) : Machine δ :=
  let cpu := m.cpus i
  let irq := decide (mask &&& cpu.cpuEnabledInterrupts ≠ 0)
  if irq ≠ cpu.cpuInterrupting then
    (m.setLamebusCpu i { cpu with cpuInterrupting := irq }).cpuSetIrqs i irq cpu.cpuIpi
  else m

def Machine.irqupdate (m : Machine δ) : Machine δ :=
  (List.range b.ncpus).foldl (irqupdateCpu (m.busRaisedInterrupts &&& m.busEnabledInterrupts)) m

def Machine.raiseIrq (m : Machine δ) (slot : Nat) : Machine δ :=
  { m with busRaisedInterrupts := m.busRaisedInterrupts ||| (1#32 <<< slot) }.irqupdate b

def Machine.lowerIrq (m : Machine δ) (slot : Nat) : Machine δ :=
  { m with busRaisedInterrupts := m.busRaisedInterrupts &&& ~~~(1#32 <<< slot) }.irqupdate b

/-- A device changes its interrupt line. -/
def Machine.deviceIrq (slot : Nat) (m : Machine δ) (raised : Bool) : Machine δ :=
  if raised then m.raiseIrq b slot else m.lowerIrq b slot

/-! ## The registers of the controller -/

def lamebusNslots : Nat := 32

def lamebusControllerSlot : Nat := 31

def lamebusSlotMem : Nat := 0x10000

/-- `LAMEBUS_CONFIG_SIZE` and `LAMEBUS_PERCPU_SIZE`. -/
def lamebusConfigSize : Nat := 1024

def lamebusCramSize : Nat := 128

def lbcCramStart : Nat := 0x300

def lbcCramEnd : Nat := 0x400

def Machine.getCpue (m : Machine δ) : Word :=
  (List.range b.ncpus).foldl
    (fun ret i => if (m.cpus i).cpuEnabled then ret ||| (1#32 <<< i) else ret) 0

/-- One turn of the loop in `set_cpue`. -/
def setCpueCpu (val : Word) (i : Nat) : M δ Unit := do
  let thisbit := val.getLsbD i
  let cpu := (← get).cpus i
  if cpu.cpuEnabled && !thisbit then
    modify fun m => m.setLamebusCpu i { m.cpus i with cpuEnabled := false }
    cpuDisable i
  else if !cpu.cpuEnabled && thisbit then
    let cramoffset := BitVec.ofNat 32 (lamebusSlotMem * lamebusControllerSlot + 32768 +
      i * lamebusConfigSize + lbcCramEnd)
    let stackva := cpuGetSecondaryStartStack cramoffset
    let pcva := cpu.cpuCram 0
    let arg := cpu.cpuCram 1
    cpuSetEntrypoint b i pcva
    cpuSetStack i stackva arg
    cpuEnable i

def setCpue (val : Word) : M δ Unit :=
  (List.range b.ncpus).forM (setCpueCpu b val)

/-- The byte of `cpu_cram` that an offset into the region of a cpu names. -/
def cramOffset (offset : Nat) : Nat := offset - lbcCramStart

/-- The word at that byte; `cpu_cram` has `LAMEBUS_CRAM_SIZE` bytes. -/
def cramWord (offset : Nat) : M δ (BitVec 5) :=
  if offset + 4 ≤ lbcCramStart + lamebusCramSize then return BitVec.ofNat 5 (cramOffset offset / 4)
  else throw pastCram

def lamebusControllerFetchCpu (offset : Nat) : M δ (Option Word) := do
  let region := offset / lamebusConfigSize
  let offset := offset % lamebusConfigSize
  let cpu := (← get).cpus region
  if b.ncpus ≤ region then
    return none
  else if lbcCramStart ≤ offset ∧ offset < lbcCramEnd then
    return some (cpu.cpuCram (← cramWord offset))
  else
    match offset with
    | 0x0 => return some cpu.cpuEnabledInterrupts
    | 0x4 => return some (if cpu.cpuIpi then 0xffffffff else 0)
    | _ => return none

def lamebusControllerStoreCpu (offset : Nat) (val : Word) : M δ Bool := do
  let region := offset / lamebusConfigSize
  let offset := offset % lamebusConfigSize
  let cpu := (← get).cpus region
  if b.ncpus ≤ region then
    return false
  else if lbcCramStart ≤ offset ∧ offset < lbcCramEnd then
    let word ← cramWord offset
    let cpu := { cpu with cpuCram := Function.update cpu.cpuCram word val }
    modify fun m => m.setLamebusCpu region cpu
    return true
  else
    match offset with
    | 0x0 =>
      let cpu := { cpu with cpuEnabledInterrupts := val }
      modify fun m => (m.setLamebusCpu region cpu).irqupdate b
      return true
    | 0x4 =>
      let cpu := { cpu with cpuIpi := val ≠ 0 }
      modify fun m =>
        (m.setLamebusCpu region cpu).cpuSetIrqs region cpu.cpuInterrupting cpu.cpuIpi
      return true
    | _ => return false

def lamebusControllerFetchConfig (cpunum : Nat) (offset : Nat) : M δ (Option Word) := do
  let region := offset / lamebusConfigSize
  let offset := offset % lamebusConfigSize
  let m ← get
  match offset with
  | 0x0 => return some (((b.info region).map DeviceInfo.ldiVendorid).getD 0)
  | 0x4 => return some (((b.info region).map DeviceInfo.ldiDeviceid).getD 0)
  | 0x8 => return some (((b.info region).map DeviceInfo.ldiRevision).getD 0)
  | _ =>
    if region ≠ lamebusControllerSlot then
      return none
    else
      match offset with
      | 0x200 => return some b.busRamsize
      | 0x204 => return some m.busRaisedInterrupts
      | 0x208 =>
        if b.isold then
          hang .powerRead
          return some 0
        else
          return some 0xffffffff
      | 0x20c => return some m.busEnabledInterrupts
      | 0x210 =>
        if b.isold then
          return none
        else
          return some (if b.ncpus = 32 then 0xffffffff else (1#32 <<< b.ncpus) - 1)
      | 0x214 => if b.isold then return none else return some (m.getCpue b)
      | 0x218 => if b.isold then return none else return some (1#32 <<< cpunum)
      | _ => return none

/-- A write of 0 to the power register also puts the poweroff event on the queue of the clock. -/
def lamebusControllerStoreConfig (offset : Nat) (val : Word) : M δ Bool := do
  let region := offset / lamebusConfigSize
  let offset := offset % lamebusConfigSize
  if region ≠ lamebusControllerSlot then
    return false
  else
    match offset with
    | 0x208 =>
      if val ≠ 0 ∧ b.isold = false ∧ val &&& 0x80000000 = 0 then
        hang .powerState
      return true
    | 0x20c =>
      modify fun m => { m with busEnabledInterrupts := val }.irqupdate b
      return true
    | 0x214 =>
      if b.isold then
        return false
      else
        setCpue b val
        return true
    | _ => return false

def lamebusControllerFetch (cpunum : Nat) (offset : Nat) : M δ (Option Word) :=
  if 32768 ≤ offset then
    if b.isold then return none else lamebusControllerFetchCpu b (offset - 32768)
  else lamebusControllerFetchConfig b cpunum offset

def lamebusControllerStore (offset : Nat) (val : Word) : M δ Bool :=
  if 32768 ≤ offset then
    if b.isold then return false else lamebusControllerStoreCpu b (offset - 32768) val
  else lamebusControllerStoreConfig b offset val

/-! ## Dispatch by slot -/

/-- Take over what a device has done. -/
def Machine.reply {α : Type} (m : Machine δ) (slot : Nat) (ret : Reply δ α) : Machine δ :=
  let m := { m with devices := ret.devices }
  ret.irqs.foldl (Machine.deviceIrq b slot) (if ret.hung then m.hung .device else m)

def busIoFetch (cpunum : Nat) (offset : Word) : M δ (Option Word) := do
  let slot := offset.toNat / lamebusSlotMem
  let slotoffset := offset.toNat % lamebusSlotMem
  if lamebusNslots ≤ slot then
    return none
  else if offset &&& 0x3 ≠ 0 then
    throw (.smoke "Assertion failed")
  else if slot = lamebusControllerSlot then
    lamebusControllerFetch b cpunum slotoffset
  else
    let ret := b.ldiFetch cpunum slot (BitVec.ofNat 32 slotoffset) (← get).devices
    modify fun m => m.reply b slot ret
    return ret.val

def busIoStore (cpunum : Nat) (offset val : Word) : M δ Bool := do
  let slot := offset.toNat / lamebusSlotMem
  let slotoffset := offset.toNat % lamebusSlotMem
  if lamebusNslots ≤ slot then
    return false
  else if offset &&& 0x3 ≠ 0 then
    throw (.smoke "Assertion failed")
  else if slot = lamebusControllerSlot then
    lamebusControllerStore b slotoffset val
  else
    let ret := b.ldiStore cpunum slot (BitVec.ofNat 32 slotoffset) val (← get).devices
    modify fun m => m.reply b slot ret
    return ret.val.isSome

/-! ## Physical memory -/

def Machine.busMemFetch (m : Machine δ) (offset : Word) : Option Word :=
  if b.busRamsize ≤ offset then none else some (m.ram (wordIndex offset))

def busMemStore (offset val : Word) : M δ Bool := do
  if b.busRamsize ≤ offset then
    return false
  else
    modify fun m => { m with ram := Function.update m.ram (wordIndex offset) val }
    return true

def bootromFetch (offset : Word) : Option Word :=
  if romWords * 4 ≤ offset.toNat then none else some (fakerom (offset.toNat / 4))

/-- `accessmem` for a read, before the bus error. -/
def fetchPhys (paddr : Word) : M δ (Option Word) := do
  if paddr < 0x1fc00000 then
    return (← get).busMemFetch b paddr
  else if paddr < 0x1fe00000 then
    return bootromFetch (paddr - 0x1fc00000)
  else if paddr < 0x20000000 then
    busIoFetch b (← getCpu i).cpunum (paddr - 0x1fe00000)
  else
    return (← get).busMemFetch b (paddr - 0x00400000)

/-- `accessmem` for a write, before the bus error. -/
def storePhys (paddr val : Word) : M δ Bool := do
  if paddr < 0x1fc00000 then
    busMemStore b paddr val
  else if paddr < 0x1fe00000 then
    return false
  else if paddr < 0x20000000 then
    busIoStore b (← getCpu i).cpunum (paddr - 0x1fe00000) val
  else
    busMemStore b (paddr - 0x00400000) val

/-- `domem` for a read; `willbewrite` says that this cycle also writes there. -/
def domemFetch (vaddr : Word) (willbewrite : Bool) : M δ Word := do
  let paddr ← translatemem b i vaddr willbewrite
  match ← fetchPhys b i paddr with
  | some val => return val
  | none => raise b i ⟨.dbe, 0, 0⟩

/-- `domem` for a write. -/
def domemStore (vaddr val : Word) : M δ Unit := do
  let paddr ← translatemem b i vaddr true
  if ← storePhys b i paddr val then
    pure ()
  else
    raise b i ⟨.dbe, 0, 0⟩

end Sys161.Mips
