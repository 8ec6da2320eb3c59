import Sys161.Lib.ByteOrder
import Sys161.Lib.Exec
import Sys161.Mips.Lamebus

/-!
# Memory as the debugger sees it

`debug_translatemem` of `mipscore.h`, the translation of the gdb access code.
It is a copy of `translatemem` that raises nothing and does not touch the cpu.
The accesses of `mips.c` go from there to main memory.
-/

namespace Sys161.Mips

open ByteOrder Exec

set_option autoImplicit false

variable {δ : Type} (b : Board δ) (i : Nat)

def debugTranslatemem (vaddr : Word) (iswrite : Bool) : M δ (Option Word) := do
  let c ← getCpu i
  if vaddr &&& 0x3 ≠ 0 then
    return none
  else if vaddr >>> 30 = 2 then
    return some (vaddr &&& 0x1fffffff)
  else
    match findtlb c (vaddr &&& 0xfffff000) with
    | none => return none
    | some ix =>
      let mt := c.tlb ix
      if mt.mtValid = false then
        return none
      else if iswrite = true ∧ mt.mtDirty = false then
        return none
      else
        return some (mt.mtPfn ||| (vaddr &&& 0xfff))

/-! ## Accesses -/

/-- A byte of main memory; the cpu is big-endian. -/
def Machine.busMemFetchbyte (m : Machine δ) (offset : Word) : Option (BitVec 8) :=
  if b.busRamsize ≤ offset then none
  else some (Order.big.byte (m.ram (wordIndex offset)) (offset &&& 0x3).toNat)

def busMemStorebyte (offset : Word) (val : BitVec 8) : M δ Bool := do
  if b.busRamsize ≤ offset then
    return false
  else
    modify fun m =>
      { m with
        ram := Function.update m.ram (wordIndex offset)
          (Order.big.setByte (m.ram (wordIndex offset)) (offset &&& 0x3).toNat val) }
    return true

/-- The word that the byte is in is translated. -/
def cpudebugFetchByte (va : Word) : M δ (Option (BitVec 8)) := do
  match ← debugTranslatemem i (va &&& 0xfffffffc) false with
  | none => return none
  | some pa => return (← get).busMemFetchbyte b (pa ||| (va &&& 0x3))

def cpudebugFetchWord (va : Word) : M δ (Option Word) := do
  match ← debugTranslatemem i va false with
  | none => return none
  | some pa => return (← get).busMemFetch b pa

/-- Unlike for a fetch, the address of the byte itself is translated. -/
def cpudebugStoreByte (va : Word) (byte : BitVec 8) : M δ Bool := do
  match ← debugTranslatemem i va true with
  | none => return false
  | some pa => busMemStorebyte b pa byte

def cpudebugStoreWord (va word : Word) : M δ Bool := do
  match ← debugTranslatemem i va true with
  | none => return false
  | some pa => busMemStore b pa word

/-! ## The copy and the original -/

def Stop.isException : Stop → Bool
  | .exception => true
  | _ => false

/-- The machine with one of its cpus in kernel mode. -/
def Machine.kernelMode (m : Machine δ) : Machine δ :=
  m.modCpu i fun c => { c with currentUsermode := false }

@[simp] theorem outcome_getCpu (m : Machine δ) : outcome (getCpu i) m = .ok (m.mycpus i) := rfl

@[simp] theorem final_getCpu (m : Machine δ) : final (getCpu i) m = m := rfl

/-- The copy finds what the checks of `translatemem` find for the kernel. -/
theorem debugTranslatemem_spec (m : Machine δ) (vaddr : Word) (iswrite : Bool) :
    outcome (debugTranslatemem i vaddr iswrite) m =
        .ok (translate ((m.kernelMode i).mycpus i) vaddr iswrite).1.toOption ∧
      final (debugTranslatemem i vaddr iswrite) m = m := by
  have hMode : ((m.kernelMode i).mycpus i).currentUsermode = false := by
    rw [Machine.kernelMode, Machine.modCpu_mycpus_self]
  have hFound : (findtlb (((m.kernelMode i).mycpus i).setVpn (vaddr &&& 0xfffff000))
      (vaddr &&& 0xfffff000)).map (((m.kernelMode i).mycpus i).setVpn (vaddr &&& 0xfffff000)).tlb =
      (findtlb (m.mycpus i) (vaddr &&& 0xfffff000)).map (m.mycpus i).tlb := by
    rw [Machine.kernelMode, Machine.modCpu_mycpus_self]
    rfl
  unfold debugTranslatemem translate
  simp only [outcome_bind, final_bind, outcome_getCpu, final_getCpu, hMode, hFound,
    Bool.false_eq_true, and_false, false_or]
  split
  · exact ⟨rfl, rfl⟩
  · split
    · exact ⟨rfl, rfl⟩
    · cases findtlb (m.mycpus i) (vaddr &&& 0xfffff000) with
      | none => exact ⟨rfl, rfl⟩
      | some ix =>
        simp only [Option.map_some, mapped]
        split
        · exact ⟨rfl, rfl⟩
        · split <;> exact ⟨rfl, rfl⟩

theorem outcome_translatemem (m : Machine δ) (vaddr : Word) (iswrite : Bool) :
    refusing Stop.isException (outcome (translatemem b i vaddr iswrite) m) =
      .ok (translate (m.mycpus i) vaddr iswrite).1.toOption := by
  unfold translatemem
  simp only [outcome_bind, outcome_getCpu]
  rcases translate (m.mycpus i) vaddr iswrite with ⟨e | paddr, c⟩ <;> rfl

end Sys161.Mips
