import Sys161.Mips.BadVaddr
import Sys161.Mips.CpuStart
import Sys161.Mips.Timer

/-!
# What a step translates

The addresses that a step translates for each cpu: those that an instruction loads
and stores, and those of instructions, which are translated ahead of their fetch.
-/

namespace Sys161.Mips

open Exec Runs

set_option autoImplicit false

variable {δ : Type} (b : Board δ)

/-! ## Addresses -/

/-- Two addresses of instructions, of which the second is translated if the first can be fetched
from. -/
inductive FetchOrder (mp : Mapping) (pc nextpc : Word) : Word → Prop where
  | pc : FetchOrder mp pc nextpc pc
  | nextpc {at_ : Page × Word} : mp.fetch b pc = .ok at_ → FetchOrder mp pc nextpc nextpc

/-- The instruction comes to translating the address that it loads or stores. -/
def Accesses (insn : Word) (c : Mipscpu) : Prop :=
  UsesMemory insn ∧
    match opm insn with
    | .cache => c.currentUsermode = false ∧ 4 ≤ (rt insn).toNat % 8
    | .swc0 => c.llActive = true ∧ c.llAddr = needaddr c insn
    | _ => True

/-- The mapping that TLBWI, TLBWR and RFE make. -/
def Mipscpu.remade (c : Mipscpu) (insn : Word) : Option Mapping :=
  let written (ix : Nat) : Mapping := { c.mapping with tlb := Function.update c.tlb ix c.tlbentry }
  match (insn &&& 0x01ffffff).toNat with
  | 2 => some (written c.tlbindex)
  | 6 => some (written (c.reduceRandom.tlbrandom.toInt + randregOffset).toNat)
  | 16 => some { c.mapping with usermode := c.prevUsermode }
  | _ => none

/-- What an instruction translates for its cpu, from the state in which it is executed. -/
inductive InsnLookup (i : Nat) (insn : Word) (t : Machine δ) : Mapping → Word → Bool → Prop where
  | data : Accesses insn (t.mycpus i) → InsnLookup i insn t (t.mycpus i).mapping
      (accessAddr insn (needaddr (t.mycpus i) insn)) (accessWrites insn)
  | target {addr : Word} : transfer insn ((t.linked i insn).mycpus i) = some addr →
      ¬Fetched t.ram (t.mycpus i) fullopRfe → InsnLookup i insn t (t.mycpus i).mapping addr false
  | stalled {vaddr : Word} : stalls insn (t.mycpus i) = true →
      FetchOrder b (t.mycpus i).mapping (t.mycpus i).expc ((t.mycpus i).expc + 4) vaddr →
      InsnLookup i insn t (t.mycpus i).mapping vaddr false
  | remade {mp : Mapping} {vaddr : Word} : cop0Op insn → (t.mycpus i).currentUsermode = false →
      (t.mycpus i).remade insn = some mp →
      FetchOrder b mp (t.mycpus i).pc (t.mycpus i).nextpc vaddr → InsnLookup i insn t mp vaddr false

/-- The instruction starts cpu `j`, with a store to the controller. -/
def StartsCpu (i : Nat) (insn : Word) (t : Machine δ) (j : Nat) : Prop :=
  b.isold = false ∧ j < b.ncpus ∧ (t.cpus j).cpuEnabled = false ∧
    ∃ vaddr val, storeOf insn (t.mycpus i) (t.getCpue b) = some (vaddr, val) ∧
      (t.mycpus i).mapping.translate vaddr true = .ok cpueAddr ∧ val.getLsbD j = true

/-- The addresses that `cpu_set_entrypoint` translates. -/
def EntryOrder (mp : Mapping) (addr : Word) : Word → Prop :=
  FetchOrder b mp (addr &&& 0xfffffffc) ((addr &&& 0xfffffffc) + 4)

/-- What a step translates for cpu `j`. -/
inductive Lookup (m : Machine δ) (j : Nat) : Act δ → Mapping → Word → Bool → Prop where
  /-- The address two ahead, where a page begins. -/
  | ahead {insn : Word} : (m.mycpus j).state = .running →
      Fetched m.ram ((m.mycpus j).startCycle b) insn → insn ≠ fullopRfe →
      (((m.mycpus j).startCycle b).nextpc + 4) &&& 0xfff = 0 →
      Lookup m j (.turn j) ((m.mycpus j).startCycle b).mapping
        (((m.mycpus j).startCycle b).nextpc + 4) false
  /-- An instruction that the debugger takes, to be executed again. -/
  | breakpoint {insn vaddr : Word} : (m.mycpus j).state = .running →
      Fetched m.ram ((m.mycpus j).startCycle b) insn →
      (∀ e, ¬AheadFault b insn ((m.mycpus j).startCycle b) e) →
      TakesBreakpoint m insn ((m.mycpus j).startCycle b) →
      FetchOrder b ((m.mycpus j).startCycle b).mapping ((m.mycpus j).startCycle b).expc
        (((m.mycpus j).startCycle b).expc + 4) vaddr →
      Lookup m j (.turn j) ((m.mycpus j).startCycle b).mapping vaddr false
  | insn {insn : Word} {t : Machine δ} {mp : Mapping} {vaddr : Word} {iswrite : Bool} :
      (issue b j).run m = .ok (.insn insn) t → InsnLookup b j insn t mp vaddr iswrite →
      Lookup m j (.turn j) mp vaddr iswrite
  /-- The cpu is started, maybe by another one. -/
  | start {i : Nat} {insn : Word} {t : Machine δ} {vaddr : Word} :
      (issue b i).run m = .ok (.insn insn) t → StartsCpu b i insn t j →
      EntryOrder b (t.mycpus j).mapping (t.startEntry j) vaddr →
      Lookup m j (.turn i) (t.mycpus j).mapping vaddr false
  | entry {addr vaddr : Word} : EntryOrder b (m.mycpus j).mapping addr vaddr →
      Lookup m j (.setEntrypoint j addr) (m.mycpus j).mapping vaddr false

/-! ## Branches -/

/-- The branches and jumps. -/
def Transfers (insn : Word) : Prop :=
  match opm insn with
  | .special => ops insn = .jr ∨ ops insn = .jalr
  | .bcond => (rt insn).toNat = 0 ∨ (rt insn).toNat = 1 ∨ (rt insn).toNat = 16 ∨ (rt insn).toNat = 17
  | .j | .jal | .beq | .bne | .blez | .bgtz => True
  | _ => False

section Branch

variable {b} {i : Nat} {insn : Word} {t : Machine δ} {Q : Unit → Machine δ → Prop}
  {E : Stop → Machine δ → Prop}

/-- The transfer of control once the return address has been written. -/
def AfterTransfer (b : Board δ) (i : Nat) (insn : Word) (Q : Unit → Machine δ → Prop)
    (E : Stop → Machine δ → Prop) (t : Machine δ) : Prop :=
  match transfer insn (t.mycpus i) with
  | some addr => After (abranch b i addr) Q E t
  | none => Q () t

theorem after_branchIf {cond : Word → Word → Bool}
    (hTransfer : transfer insn (t.mycpus i) =
      if cond ((t.mycpus i).r (rs insn)) ((t.mycpus i).r (rt insn)) then
        some ((t.mycpus i).pc + (smm insn <<< 2)) else none) :
    After (branchIf b i insn cond) Q E t ↔ AfterTransfer b i insn Q E t := by
  unfold branchIf rbranch AfterTransfer
  rw [after_bind, after_getCpu, after_ite, hTransfer]
  split
  · rw [after_bind, after_getCpu]
  · exact Iff.rfl

/-- A branch links, if it does, and transfers control, if it does. -/
theorem after_execute_transfer (hInsn : Transfers insn) :
    After (execute b i insn) Q E t ↔ AfterTransfer b i insn Q E (t.linked i insn) := by
  cases hOp : opm insn <;> simp only [Transfers, hOp] at hInsn <;>
    simp only [execute, Machine.linked, linkReg, hOp]
  case special =>
    obtain hOps | hOps := hInsn <;>
      simp only [executeSpecial, hOps, reduceCtorEq, if_false, if_true]
    · simp only [AfterTransfer, transfer, hOp, hOps, mxJr, after_bind, after_getCpu]
    · simp only [AfterTransfer, transfer, hOp, hOps, mxJalr, link2, after_bind, after_getCpu,
        after_setReg]
      exact Iff.rfl
  case bcond =>
    obtain hRt | hRt | hRt | hRt := hInsn <;>
      simp only [executeBcond, hRt, Nat.reduceEqDiff, or_false, false_or, if_true, if_false,
        OfNat.zero_ne_ofNat, OfNat.one_ne_ofNat]
    · exact after_branchIf (by simp only [transfer, hOp, hRt])
    · exact after_branchIf (by simp only [transfer, hOp, hRt])
    · rw [mxBltzal, after_branchLinkIf]
      exact after_branchIf (by simp only [transfer, hOp, hRt])
    · rw [mxBgezal, after_branchLinkIf]
      exact after_branchIf (by simp only [transfer, hOp, hRt])
  case j =>
    simp only [AfterTransfer, transfer, hOp, mxJ, ibranch, after_bind, after_getCpu]
    exact Iff.rfl
  case jal =>
    rw [after_mxJal]
    simp only [AfterTransfer, transfer, hOp, ibranch, after_bind, after_getCpu]
    exact Iff.rfl
  all_goals exact after_branchIf (by simp only [transfer, hOp])

end Branch

end Sys161.Mips
