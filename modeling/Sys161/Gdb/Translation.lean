import Sys161.Mips.DebugAccess
import Sys161.Riscv.Cycle
import Sys161.Riscv.DebugAccess
import Sys161.Riscv.FetchRuns

/-!
# The debugger's translation and the cpu's

Each core has its translation of addresses twice, once for the cpu and once for
the debugger. The copies answer alike. The copy for MIPS reads nothing but the
TLB; the one for RISC-V reads the page table through the bus, and so a page
table in the registers of a device is read with what such a read does.
-/

namespace Sys161.Gdb

open Exec Mips

set_option autoImplicit false

variable {δ : Type} (b : Board δ) (i : Nat)

/-- The debugger is answered as the kernel would be, and the cpus stay as they are. -/
def MipsAgrees (m : Mips.Machine δ) (vaddr : Mips.Word) (iswrite : Bool) : Prop :=
  outcome (Mips.debugTranslatemem i vaddr iswrite) m =
      refusing Mips.Stop.isException
        (outcome (Mips.translatemem b i vaddr iswrite) (m.kernelMode i)) ∧
    (final (Mips.debugTranslatemem i vaddr iswrite) m).mycpus = m.mycpus

/-- The debugger is answered as the supervisor would be who has access to the pages of the user, and
the cpus stay as they are. -/
def RiscvAgrees (m : Riscv.Machine δ) (vaddr : Riscv.Word) (rwx : Riscv.Memrwx) : Prop :=
  outcome (Riscv.debugTranslatemem b i vaddr rwx) m =
      refusing Riscv.Stop.isTrap
        (outcome (Riscv.translatemem b i vaddr rwx) (m.supervisorMode i)) ∧
    (final (Riscv.debugTranslatemem b i vaddr rwx) m).mycpus = m.mycpus

theorem mipsAgrees (m : Mips.Machine δ) (vaddr : Mips.Word) (iswrite : Bool) :
    MipsAgrees b i m vaddr iswrite := by
  have hDebug := Mips.debugTranslatemem_spec i m vaddr iswrite
  constructor
  · rw [hDebug.1, Mips.outcome_translatemem]
  · rw [hDebug.2]

theorem riscvAgrees_iff (m : Riscv.Machine δ) {vaddr : Riscv.Word} (rwx : Riscv.Memrwx)
    (hAlign : vaddr &&& 0x3 = 0) :
    RiscvAgrees b i m vaddr rwx ↔
      (rwx = .execute → Riscv.WalkNoUserCode b i m vaddr) ∧ Riscv.WalkQuiet b i m vaddr :=
  and_congr (Riscv.debugTranslatemem_agrees_iff b i m rwx hAlign)
    (Riscv.final_debugTranslatemem_mycpus_iff b i m rwx hAlign)

theorem debug_translation (vaddr : BitVec 32) (hAlign : vaddr &&& 0x3 = 0) :
    (∀ (m : Mips.Machine δ) (iswrite : Bool), MipsAgrees b i m vaddr iswrite) ∧
      ∀ (m : Riscv.Machine δ) (rwx : Riscv.Memrwx), RiscvAgrees b i m vaddr rwx ↔
        (rwx = .execute → Riscv.WalkNoUserCode b i m vaddr) ∧ Riscv.WalkQuiet b i m vaddr :=
  ⟨fun m => mipsAgrees b i m vaddr, fun m rwx => riscvAgrees_iff b i m rwx hAlign⟩

/-! ## A page table in a timer -/

/-- A timer stands in the first slot. The read of its interrupt register lowers its line. -/
def timerBoard : Board Unit :=
  { Riscv.bareBoard with
    ldiFetch _ _ offset d :=
      if offset = 0xc then ⟨d, [false], false, some 1⟩ else ⟨d, [], false, some 0⟩
    ldiStore _ _ _ _ d := ⟨d, [], false, some ()⟩ }

/-- The timer has raised its line, and the second level of the page table is in its registers. -/
def timerTable : Riscv.Machine Unit :=
  let m := Riscv.machineInit () true
  { m with
    mycpus := fun _ =>
      { m.mycpus 0 with mmuEnable := true, mmuPttoppage := some (.ram 0), irqLamebus := true }
    ram := fun _ => 0x3ff80001
    busRaisedInterrupts := 1
    busEnabledInterrupts := 1
    cpus := fun _ => { m.cpus 0 with cpuEnabledInterrupts := 1, cpuInterrupting := true } }

/-- Paging is on; the first page of memory leads to the second one, and that to code of the kernel. -/
def memoryTable : Riscv.Machine Unit :=
  let m := Riscv.machineInit () true
  { m with
    mycpus := fun _ => { m.mycpus 0 with mmuEnable := true, mmuPttoppage := some (.ram 0) }
    ram := fun ix => if ix < 0x400 then 0x30000401 else 0x300000cf }

theorem debug_translation_walk :
    outcome (Riscv.debugTranslatemem timerBoard 0 0x3000 .execute) memoryTable =
        .ok (some 0xc0000000) ∧
      RiscvAgrees timerBoard 0 memoryTable 0x3000 .execute := by
  refine ⟨by decide +kernel, ((debug_translation timerBoard 0 0x3000 (by decide)).2 _ _).mpr ⟨?_, ?_⟩⟩
  · rintro - hWalks leaf hLeaf
    have hFound : outcome (Riscv.findLeaf timerBoard 0 0x3000 .execute) memoryTable =
        .ok ⟨0x300000cf, false⟩ := by decide +kernel
    obtain rfl := Except.ok.inj (hFound.symm.trans hLeaf)
    exact fun hUser => absurd hUser.1 (by decide)
  · intro hWalks paddr hEntry hBus
    have hPaddr : (memoryTable.mycpus 0).entryAddr memoryTable.ram 0x3000 = some 0xc000100c := by
      decide +kernel
    obtain rfl := Option.some.inj (hPaddr.symm.trans hEntry)
    exact absurd hBus (by decide)

/-- The debugger takes away the interrupt that the cpu is about to see. -/
theorem not_debug_translation :
    ¬ ∀ (b : Board Unit) (i : Nat) (m : Riscv.Machine Unit) (vaddr : Riscv.Word)
      (rwx : Riscv.Memrwx), vaddr &&& 0x3 = 0 → rwx ≠ .execute → RiscvAgrees b i m vaddr rwx := by
  intro h
  have hSame := (h timerBoard 0 timerTable 0x3000 .read (by decide) (by decide)).2
  have hLine := congrArg (fun cpus => (cpus 0).irqLamebus) hSame
  exact absurd hLine (by decide)

end Sys161.Gdb
