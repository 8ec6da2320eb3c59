import Sys161.Riscv.Blind
import Sys161.Riscv.Csrs

/-!
# Register x0

Every handler that writes a general register looks at its number first, and
writes nothing where that is zero. The bus writes the registers of the stack and
of the argument only. So x0 holds zero from `riscv_init` on.
-/

namespace Sys161.Riscv

open Exec Runs
open Mips (Board)

set_option autoImplicit false

variable {δ : Type} {b : Board δ} (i : Nat)

def ZeroIsZero (m : Machine δ) : Prop := ∀ j, (m.mycpus j).x 0 = 0

theorem setX_zero {c : Riscvcpu} (hc : c.x 0 = 0) (rd : Reg) (val : Word) :
    (c.setX rd val).x 0 = 0 := by
  unfold Riscvcpu.setX
  split
  · exact hc
  · next hRd =>
    have hNe : (0 : Reg) ≠ rd := Ne.symm hRd
    dsimp only
    rw [Function.update_of_ne hNe]
    exact hc

namespace ZeroIsZero

theorem modCpu {m : Machine δ} (hm : ZeroIsZero m) {k : Nat} {f : Riscvcpu → Riscvcpu}
    (hf : ∀ c : Riscvcpu, c.x 0 = 0 → (f c).x 0 = 0) : ZeroIsZero (m.modCpu k f) := by
  intro j
  rw [mycpus_modCpu]
  split
  · exact hf _ (hm k)
  · exact hm j

theorem cpuBlind : CpuBlind (ZeroIsZero (δ := δ)) where
  bus m t ht hm j := by
    rw [ht.congr (fun c => c.x 0) (fun _ => rfl) j]
    exact hm j
  own k f m hf hm := hm.modCpu fun c hc => (congrFun (congrArg Prod.fst (hf c)) 0).trans hc
  ram _ _ _ hm := hm
  stats _ _ hm := hm
  ready _ _ hm := hm
  enabled _ _ _ hm := hm
  start k sp arg m hm := hm.modCpu fun c hc => by
    dsimp only
    rw [Function.update_of_ne (by decide), Function.update_of_ne (by decide)]
    exact hc

theorem csr {m : Machine δ} (hm : ZeroIsZero m) {op : Csrop} {rd rs1 : Reg} {num : Word}
    {c : Riscvcpu} (hRun : op.run (m.mycpus i) rd rs1 num = some c) :
    ZeroIsZero (m.setCpu i c) := by
  have hZero : c.x 0 = 0 := by
    apply Csrop.run_induct _ _ (hm i) hRun
    · exact fun rd val c hc => setX_zero hc rd val
    · exact fun csr val c c' hc hWrite => (congrFun (c.csrwrite_kept val hWrite).2.2.1 0).trans hc
  exact hm.modCpu fun _ _ => hZero

theorem sfenceVma : Keeps (ZeroIsZero (δ := δ)) (fun _ => ZeroIsZero) (rxDoSfenceVma b i) := by
  unfold rxDoSfenceVma reloadPagetables
  apply Keeps.bind
  · apply keeps_getCpu i
    intro c
    apply Keeps.bind
    · exact Keeps.modify fun _ hm => hm.modCpu fun _ hc => hc
    · exact fun _ => Keeps.ite (fun _ => Keeps.throw fun _ hm => hm) fun _ => Keeps.pure _
  · exact fun _ => Keeps.modify fun _ hm => hm.modCpu fun _ hc => hc

/-- Every instruction keeps x0, whichever way it ends. -/
theorem exec {insn : Insn} (hWell : insn.Wellformed) (len : Word) :
    Keeps (ZeroIsZero (δ := δ)) (fun _ => ZeroIsZero) (insn.exec b i len) := by
  intro m hm
  have hRules := (cpuBlind (δ := δ)).rules i insn
    (fun rd val m hm => hm.modCpu fun c hc => setX_zero hc rd val)
    (fun op rd rs1 num c m hm hRun => hm.csr i hRun) (sfenceVma (b := b) i)
  exact hRules.exec hWell hm (writes_true i m insn)

end ZeroIsZero

/-- In every run from start-up x0 holds 0 on every cpu, before and after each step. -/
theorem x0_is_zero {devices : δ} {gdbReady : Bool} {m : Machine δ} {p : List (Act δ × Machine δ)}
    (hp : Path (Step b) (machineInit devices gdbReady) p m) :
    AllStates ZeroIsZero (machineInit devices gdbReady) p := by
  apply hp.allStates_of_step
  · intro s a s' hs hStep
    apply ZeroIsZero.cpuBlind.step hs hStep
    intro i _
    exact ZeroIsZero.cpuBlind.cpuTurn i (fun insn len hWell => ZeroIsZero.exec i hWell len) s hs
  · exact fun _ => rfl

/-- `addi x0, x0, 1` and `jal x0, 0`. -/
def writeZero : List (Act Unit) :=
  [.poke 0 0x00100013, .poke 1 0x0000006f, .setEntrypoint 0 0xc0000000, .turn 0, .turn 0]

open Scripts in
theorem x0_is_zero_writeZero : ∃ p m, Path (Step bareBoard) (machineInit () true) p m ∧
    p.map Prod.fst = writeZero ∧ AllStates ZeroIsZero (machineInit () true) p := by
  have hSeen : yields (runAll (Act.exec bareBoard) writeZero) (fun _ m => (m.mycpus 0).pc)
      (machineInit () true) = some 0xc0000004 := by decide +kernel
  have hValid : ∀ a ∈ writeZero, a.Valid bareBoard := by
    simp [writeZero, Act.Valid, bareBoard, Mips.bareBoard]
  obtain ⟨p, m, hPath, hActs, -⟩ := path_of_seen hSeen hValid
  exact ⟨p, m, hPath, hActs, x0_is_zero hPath⟩

end Sys161.Riscv
