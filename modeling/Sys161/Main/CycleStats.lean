import Sys161.Mips.CycleStats
import Sys161.Riscv.CycleStats

/-!
# Retired instructions and cycles

Both cores count one cycle for every cpu in every call, and retire no more than
they count. The counters have 64 bits; a run that is long enough takes one of
them past zero before the other.
-/

namespace Sys161.Main

open Runs Scripts
open Mips (Board)

set_option autoImplicit false

/-- Either core, from start-up on, whatever else is done to the machine between the calls. -/
theorem cycles_accounted {δ : Type} (b : Board δ) (devices : δ) (gdbReady : Bool) :
    (∀ p t, Path (Mips.core b).Step (Mips.machineInit devices gdbReady) p t →
      (Mips.core b).Accounted (Mips.machineInit devices gdbReady) p t) ∧
    ∀ p t, Path (Riscv.core b).Step (Riscv.machineInit devices gdbReady) p t →
      (Riscv.core b).Accounted (Riscv.machineInit devices gdbReady) p t := by
  constructor
  · intro p t hRun
    exact Mips.lawful_core.accounted (fun _ => rfl) (fun _ _ => rfl) hRun
  · intro p t hRun
    exact Riscv.lawful_core.accounted (fun _ => rfl) (fun _ _ => rfl) hRun

theorem cycles_accounted_threeCalls :
    (∃ p t, Path (Mips.core Mips.bareBoard).Step (Mips.machineInit () true) p t ∧ calls p = 3 ∧
      AllSteps (Mips.core Mips.bareBoard).Counts (Mips.machineInit () true) p ∧
      Balanced 1 t.sPercpu) ∧
    ∃ p t, Path (Riscv.core Riscv.bareBoard).Step (Riscv.machineInit () true) p t ∧ calls p = 3 ∧
      AllSteps (Riscv.core Riscv.bareBoard).Counts (Riscv.machineInit () true) p ∧
      Balanced 1 t.sPercpu := by
  constructor
  · have hSeen : yields (runAll (Mips.core Mips.bareBoard).perform (List.replicate 3 none))
        (fun _ m => (m.sPercpu 0).spKcycles) (Mips.machineInit () true) = some 3 := by
      decide +kernel
    obtain ⟨p, t, hPath, hCalls⟩ := Core.path_of_calls hSeen
    have hAccounted := (cycles_accounted Mips.bareBoard () true).1 p t hPath
    refine ⟨p, t, hPath, hCalls, hAccounted.counts, hAccounted.balanced ?_⟩
    rw [hCalls]
    decide
  · have hSeen : yields (runAll (Riscv.core Riscv.bareBoard).perform (List.replicate 3 none))
        (fun _ m => (m.sPercpu 0).spKcycles) (Riscv.machineInit () true) = some 3 := by
      decide +kernel
    obtain ⟨p, t, hPath, hCalls⟩ := Core.path_of_calls hSeen
    have hAccounted := (cycles_accounted Riscv.bareBoard () true).2 p t hPath
    refine ⟨p, t, hPath, hCalls, hAccounted.counts, hAccounted.balanced ?_⟩
    rw [hCalls]
    decide

/-- After 2^64 calls the cycles in the kernel are back at 0, and one call that trapped has retired
nothing. -/
theorem kretired_gt_kcycles : ∃ p t,
    Path (Riscv.core Riscv.bareBoard).Step (Riscv.machineInit () true) p t ∧ calls p = 2 ^ 64 ∧
      (t.sPercpu 0).spKcycles < (t.sPercpu 0).spKretired ∧
      meterReport (totals 0 t.sPercpu Riscv.bareBoard.ncpus) = .error "kretired <= kcycles" := by
  obtain ⟨p, m, hPath, hCalls, hSpinning⟩ := Riscv.exists_spinning
  obtain ⟨q, t, hLoop, hLoopCalls, hEnd⟩ := hSpinning.calls (2 ^ 64 - 4)
  have hStats : t.sPercpu 0 = ⟨0, 0, 0, 0, 0xffffffffffffffff⟩ := by
    rw [hEnd.stats]
    decide
  have hTotals : totals 0 t.sPercpu Riscv.bareBoard.ncpus = ⟨0, 0, 0, 0xffffffffffffffff, 0⟩ := by
    have hOne : List.range Riscv.bareBoard.ncpus = [0] := rfl
    rw [totals, hOne, List.foldl_cons, List.foldl_nil, hStats]
    rfl
  refine ⟨p ++ q, t, hPath.append hLoop, ?_, ?_, ?_⟩
  · have hAppend : calls (p ++ q) = calls p + calls q := List.countP_append
    omega
  · rw [hStats]
    decide
  · rw [hTotals]
    rfl

end Sys161.Main
