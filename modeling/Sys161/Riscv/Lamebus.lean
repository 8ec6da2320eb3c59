import Sys161.Riscv.State

/-!
# The LAMEbus controller as the RISC-V cpus see it

The interrupt lines and the registers of `lamebus.c` that can be read, with
`cpu_set_irqs`, and physical memory up to a read of a word. What a write to a
register comes to stands after the translation of addresses, since the register
that starts cpus translates their entry points.
-/

namespace Sys161.Riscv

open Mips (Board DeviceInfo LamebusCpu Page Reply cramOffset lamebusConfigSize lamebusControllerSlot
  lamebusCramSize lamebusNslots lamebusSlotMem lbcCramEnd lbcCramStart romWords wordIndex)

set_option autoImplicit false

variable {δ : Type} (b : Board δ) (i : Nat)

/-! ## Interrupts -/

/-- An idle cpu wakes up for what its IE register does not mask. -/
def Machine.cpuSetIrqs (m : Machine δ) (lamebus ipi : Bool) : Machine δ :=
  let c := { m.mycpus i with irqLamebus := lamebus, irqIpi := ipi }
  let eie := if c.super then c.ieSeie else true
  let sie := if c.super then c.ieSsie else true
  if c.state = .idle ∧ ((lamebus && eie) || (ipi && sie)) = true then
    { m.setCpu i { c with state := .running } with
      cpuRunningMask := m.cpuRunningMask ||| (1#32 <<< i) }
  else m.setCpu i c

def Machine.setLamebusCpu (m : Machine δ) (i : Nat) (cpu : LamebusCpu) : Machine δ :=
  { m with cpus := Function.update m.cpus i cpu }

/-- One turn of the loop in `irqupdate`. -/
def irqupdateCpu (mask : Word) (m : Machine δ) (i : Nat) : Machine δ :=
  let cpu := m.cpus i
  let irq := decide (mask &&& cpu.cpuEnabledInterrupts ≠ 0)
  if irq ≠ cpu.cpuInterrupting then
    (m.setLamebusCpu i { cpu with cpuInterrupting := irq }).cpuSetIrqs i irq cpu.cpuIpi
  else m

def Machine.irqupdate (m : Machine δ) : Machine δ :=
  (List.range b.ncpus).foldl (irqupdateCpu (m.busRaisedInterrupts &&& m.busEnabledInterrupts)) m

def Machine.raiseIrq (m : Machine δ) (slot : Nat) : Machine δ :=
  { m with busRaisedInterrupts := m.busRaisedInterrupts ||| (1#32 <<< slot) }.irqupdate b

def Machine.lowerIrq (m : Machine δ) (slot : Nat) : Machine δ :=
  { m with busRaisedInterrupts := m.busRaisedInterrupts &&& ~~~(1#32 <<< slot) }.irqupdate b

/-- A device changes its interrupt line. -/
def Machine.deviceIrq (slot : Nat) (m : Machine δ) (raised : Bool) : Machine δ :=
  if raised then m.raiseIrq b slot else m.lowerIrq b slot

/-- Take over what a device has done. -/
def Machine.reply {α : Type} (m : Machine δ) (slot : Nat) (ret : Reply δ α) : Machine δ :=
  let m := { m with devices := ret.devices }
  ret.irqs.foldl (Machine.deviceIrq b slot) (if ret.hung then m.hung .device else m)

/-! ## Registers that can be read -/

def Machine.getCpue (m : Machine δ) : Word :=
  (List.range b.ncpus).foldl
    (fun ret i => if (m.cpus i).cpuEnabled then ret ||| (1#32 <<< i) else ret) 0

/-- The word of `cpu_cram` at an offset into the region of a cpu; `cpu_cram` has
`LAMEBUS_CRAM_SIZE` bytes. -/
def cramWord (offset : Nat) : M δ (BitVec 5) :=
  if offset + 4 ≤ lbcCramStart + lamebusCramSize then return BitVec.ofNat 5 (cramOffset offset / 4)
  else throw pastCram

def lamebusControllerFetchCpu (offset : Nat) : M δ (Option Word) := do
  let region := offset / lamebusConfigSize
  let offset := offset % lamebusConfigSize
  let cpu := (← get).cpus region
  if b.ncpus ≤ region then
    return none
  else if lbcCramStart ≤ offset ∧ offset < lbcCramEnd then
    return some (cpu.cpuCram (← cramWord offset))
  else
    match offset with
    | 0x0 => return some cpu.cpuEnabledInterrupts
    | 0x4 => return some (if cpu.cpuIpi then 0xffffffff else 0)
    | _ => return none

def lamebusControllerFetchConfig (cpunum : Nat) (offset : Nat) : M δ (Option Word) := do
  let region := offset / lamebusConfigSize
  let offset := offset % lamebusConfigSize
  let m ← get
  match offset with
  | 0x0 => return some (((b.info region).map DeviceInfo.ldiVendorid).getD 0)
  | 0x4 => return some (((b.info region).map DeviceInfo.ldiDeviceid).getD 0)
  | 0x8 => return some (((b.info region).map DeviceInfo.ldiRevision).getD 0)
  | _ =>
    if region ≠ lamebusControllerSlot then
      return none
    else
      match offset with
      | 0x200 => return some b.busRamsize
      | 0x204 => return some m.busRaisedInterrupts
      | 0x208 =>
        if b.isold then
          hang .powerRead
          return some 0
        else
          return some 0xffffffff
      | 0x20c => return some m.busEnabledInterrupts
      | 0x210 =>
        if b.isold then
          return none
        else
          return some (if b.ncpus = 32 then 0xffffffff else (1#32 <<< b.ncpus) - 1)
      | 0x214 => if b.isold then return none else return some (m.getCpue b)
      | 0x218 => if b.isold then return none else return some (1#32 <<< cpunum)
      | _ => return none

def lamebusControllerFetch (cpunum : Nat) (offset : Nat) : M δ (Option Word) :=
  if 32768 ≤ offset then
    if b.isold then return none else lamebusControllerFetchCpu b (offset - 32768)
  else lamebusControllerFetchConfig b cpunum offset

def busIoFetch (cpunum : Nat) (offset : Word) : M δ (Option Word) := do
  let slot := offset.toNat / lamebusSlotMem
  let slotoffset := offset.toNat % lamebusSlotMem
  if lamebusNslots ≤ slot then
    return none
  else if offset &&& 0x3 ≠ 0 then
    throw (.smoke "Assertion failed")
  else if slot = lamebusControllerSlot then
    lamebusControllerFetch b cpunum slotoffset
  else
    let ret := b.ldiFetch cpunum slot (BitVec.ofNat 32 slotoffset) (← get).devices
    modify fun m => m.reply b slot ret
    return ret.val

/-! ## Physical memory -/

/-- Words of the boot ROM: no-operations, and a breakpoint at its end. -/
def fakerom (index : Nat) : Word := if index = 1023 then 0x00100073 else 0x00000013

def busMemMap (offset : Word) : Option Page :=
  if b.busRamsize ≤ offset then none else some (.ram offset)

def bootromMap (offset : Word) : Option Page :=
  if romWords * 4 ≤ offset.toNat then none else some (.rom offset)

def mapmem (paddr : Word) : Option Page :=
  let paddr := paddr &&& 0xfffff000
  if paddr < paddrRambase then none
  else if paddr < paddrRombase then busMemMap b (paddr - paddrRambase)
  else if paddr < paddrBusbase then bootromMap (paddr - paddrRombase)
  else none

def busUseMap (ram : BitVec 30 → Word) (page : Page) (pageoffset : Word) : Word :=
  match page with
  | .ram base => ram (wordIndex (base + pageoffset))
  | .rom base => fakerom ((base + pageoffset).toNat / 4)

/-- The word of a mapped page at an offset. -/
def useMap (page : Option Page) (pageoffset : Word) : M δ Word := do
  match page with
  | none => throw (.undefined "null page pointer")
  | some page =>
    if 0x1000 ≤ pageoffset then
      throw (.undefined "read past the end of a page")
    else
      return busUseMap (← get).ram page pageoffset

def Machine.busMemFetch (m : Machine δ) (offset : Word) : Option Word :=
  if b.busRamsize ≤ offset then none else some (m.ram (wordIndex offset))

def busMemStore (offset val : Word) : M δ Bool := do
  if b.busRamsize ≤ offset then
    return false
  else
    modify fun m => { m with ram := Function.update m.ram (wordIndex offset) val }
    return true

def bootromFetch (offset : Word) : Option Word :=
  if romWords * 4 ≤ offset.toNat then none else some (fakerom (offset.toNat / 4))

/-- `accessmem` for a read, before the access fault. -/
def fetchPhys (paddr : Word) : M δ (Option Word) := do
  if paddr < paddrRambase then
    return none
  else if paddr < paddrRombase then
    return (← get).busMemFetch b (paddr - paddrRambase)
  else if paddr < paddrBusbase then
    return bootromFetch (paddr - paddrRombase)
  else
    busIoFetch b (← getCpu i).cpunum (paddr - paddrBusbase)

end Sys161.Riscv
