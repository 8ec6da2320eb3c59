import Sys161.Mips.Runs

/-!
# General register 0

The handlers do not look at the number of the register that they write, so
register 0 is a register like the others. It holds 0 as long as no instruction
names it as a destination.
-/

namespace Sys161.Mips

open Exec Runs

set_option autoImplicit false

variable {δ : Type} {b : Board δ} (i : Nat)

/-- The shifts by a constant, among them the no-operation. -/
def IsShift (insn : Word) : Prop :=
  opm insn = .special ∧ (ops insn = .sll ∨ ops insn = .srl ∨ ops insn = .sra)

/-- The instruction names register 0 as its destination, and is not a shift of register 0, as the
no-operation is. -/
def ClobbersZero (insn : Word) : Prop := dest insn = some 0 ∧ ¬(IsShift insn ∧ rt insn = 0)

def ZeroIsZero (m : Machine δ) : Prop := ∀ j, (m.mycpus j).r 0 = 0

theorem update_reg_zero {r : Reg → Word} (hr : r 0 = 0) {rg : Reg} {val : Word}
    (h : rg = 0 → val = 0) : Function.update r rg val 0 = 0 := by
  by_cases hrg : rg = 0
  · subst hrg
    rw [Function.update_self]
    exact h rfl
  · rw [Function.update_of_ne (Ne.symm hrg)]
    exact hr

theorem cpuBlind_zero : CpuBlind b fun c => c.r 0 = 0 where
  fetchState _ _ hc := hc
  exception _ _ hc := hc
  vpn _ _ hc := hc
  hitBreakpoint _ _ hc := hc
  exCount _ _ hc := hc
  irqLines _ _ hc := hc
  state _ _ hc := hc
  startReg rg _ _ hrg hc := by
    refine update_reg_zero hc fun h => ?_
    subst h
    exact absurd hrg (by decide)

theorem ZeroIsZero.modCpu {m : Machine δ} (hm : ZeroIsZero m) {f : Mipscpu → Mipscpu}
    (hf : ∀ c, (f c).r = c.r) : ZeroIsZero (m.modCpu i f) :=
  forall_modCpu (P := fun _ c => c.r 0 = 0) i hm (by rw [hf]; exact hm i)

theorem ZeroIsZero.setReg {m : Machine δ} (hm : ZeroIsZero m) {rg : Reg} {val : Word}
    (h : rg = 0 → val = 0) :
    ZeroIsZero (m.modCpu i fun c => { c with r := Function.update c.r rg val }) :=
  forall_modCpu (P := fun _ c => c.r 0 = 0) i hm (update_reg_zero (hm i) h)

/-- A shift of zero gives zero. -/
theorem exists_rdShift {insn : Word} (h : IsShift insn) :
    ∃ f : Word → Nat → Word, (∀ n, f 0 n = 0) ∧ (execute b i insn : M δ Unit) = rdShift i insn f := by
  obtain ⟨hOp, hOps | hOps | hOps⟩ := h
  · exact ⟨fun x n => x <<< n, fun n => by simp,
      by simp only [execute, hOp, executeSpecial, hOps, mxSll]⟩
  · exact ⟨fun x n => x >>> n, fun n => by simp,
      by simp only [execute, hOp, executeSpecial, hOps, mxSrl]⟩
  · exact ⟨signedshift, fun n => by simp [signedshift],
      by simp only [execute, hOp, executeSpecial, hOps, mxSra]⟩

theorem dest_of_isShift {insn : Word} (h : IsShift insn) : dest insn = some (rd insn) := by
  obtain ⟨hOp, hOps | hOps | hOps⟩ := h <;> simp [dest, hOp, hOps]

/-- An instruction that does not clobber register 0 keeps it, whichever way it ends. -/
theorem execute_zero {insn : Word} (hInsn : ¬ ClobbersZero insn) :
    Keeps (ZeroIsZero (δ := δ)) (fun _ => ZeroIsZero) (execute b i insn) := by
  by_cases hShift : IsShift insn
  · obtain ⟨f, hf, hExec⟩ := exists_rdShift (b := b) (δ := δ) i hShift
    rw [hExec]
    refine keeps_getCpu_bind i fun m hm => hm.setReg i fun hrd => ?_
    have hrt : rt insn = 0 := by
      by_contra hne
      exact hInsn ⟨(dest_of_isShift hShift).trans (congrArg some hrd), fun h => hne h.2⟩
    rw [hrt, hm i]
    exact hf _
  · have hBlind : BusBlind b (ZeroIsZero (δ := δ)) := CpuBlind.busBlind fun _ => cpuBlind_zero
    refine (hBlind.execBlind.rules i (fun _ _ _ hm => hm)
      (fun rg val m hDest hm => hm.setReg i fun hrg => ?_)
      (fun _ _ _ _ _ hm => hm.modCpu i fun _ => rfl) (fun _ _ _ _ hm => hm.modCpu i fun _ => rfl)
      (fun c0 _ _ hm => hm.modCpu i fun _ => by cases c0 <;> rfl)
      (fun _ hm => hm.modCpu i fun _ => rfl) (fun _ _ _ hm => hm.modCpu i fun _ => rfl)
      (fun _ hm => hm.modCpu i fun _ => rfl) ?_ (fun _ _ _ _ hm => hm.modCpu i fun _ => rfl)).execute
    · exact absurd ⟨hDest.trans (congrArg some hrg), fun h => hShift h.1⟩ hInsn
    · exact hBlind.execBlind.writetlb i fun _ _ hm => hm.modCpu i fun _ => rfl

/-! ## Runs -/

/-- No instruction that is executed clobbers register 0. -/
def SparesZero (b : Board δ) (m : Machine δ) (a : Act δ) (_ : Machine δ) : Prop :=
  ∀ i insn t, a = .turn i → (issue b i).run m = .ok (.insn insn) t → ¬ ClobbersZero insn

theorem step_zeroIsZero {m m' : Machine δ} {a : Act δ} (hm : ZeroIsZero m)
    (hSpares : SparesZero b m a m') (hStep : Step b m a m') : ZeroIsZero m' := by
  have hBlind : BusBlind b (ZeroIsZero (δ := δ)) := CpuBlind.busBlind fun _ => cpuBlind_zero
  refine hBlind.step (fun _ _ _ hm => hm) (fun _ _ hm => hm) hm (fun i ha => ?_) hStep
  exact hBlind.cpuTurn i (fun m hm => hm.modCpu i fun _ => rfl) m hm fun insn t hIssue ht =>
    execute_zero i (hSpares i insn t ha hIssue) t ht

/-- In a run from start-up in which no instruction is executed that clobbers it, register 0 holds 0
on every cpu, before and after every step. -/
theorem zero_is_zero {devices : δ} {gdbReady : Bool} {m : Machine δ} {p : List (Act δ × Machine δ)}
    (hRun : Path (Step b) (machineInit devices gdbReady) p m)
    (hSpares : AllSteps (SparesZero b) (machineInit devices gdbReady) p) :
    AllStates ZeroIsZero (machineInit devices gdbReady) p :=
  hRun.allStates_of_allSteps (fun _ _ _ hm hMeets hStep => step_zeroIsZero hm hMeets hStep)
    (fun _ => rfl) hSpares

instance (insn : Word) : Decidable (IsShift insn) := inferInstanceAs (Decidable (_ ∧ _))

instance (insn : Word) : Decidable (ClobbersZero insn) := inferInstanceAs (Decidable (_ ∧ _))

/-- The turn executes no instruction that clobbers register 0. -/
def sparesZero (b : Board δ) (m : Machine δ) (a : Act δ) : Bool :=
  (issued b m a).all fun x => !decide (ClobbersZero x.2.1)

theorem of_sparesZero {m m' : Machine δ} {a : Act δ} (h : sparesZero b m a = true) :
    SparesZero b m a m' := by
  rintro i insn t rfl hIssue
  rw [sparesZero, issued_of_run hIssue] at h
  simpa using h

/-- `addiu $2, $0, 5`, a no-operation, `sw $2, 0x40($4)`, `lw $3, 0x40($4)`, `mult $2, $3`, `mflo $5`
and `jal` to the first of them. -/
def multiplyAndCall : List (Act Unit) :=
  [.poke 0 0x24020005, .poke 1 0, .poke 2 0xac820040, .poke 3 0x8c830040, .poke 4 0x00430018,
    .poke 5 0x00002812, .poke 6 0x0c000000, .setStack 0 0x80001000 0x80000000,
    .setEntrypoint 0 kseg0] ++ List.replicate 12 (.turn 0)

theorem zero_is_zero_called : ∃ p m, Path (Step bareBoard) (machineInit () false) p m ∧
    p.map Prod.fst = multiplyAndCall ∧ ((m.mycpus 0).r 5, (m.mycpus 0).r 31) = (25, 0x80000020) ∧
    ZeroIsZero m := by
  have hSeen : Scripts.seenBy (sparesZero bareBoard) (Act.exec bareBoard)
      (fun m => ((m.mycpus 0).r 5, (m.mycpus 0).r 31)) multiplyAndCall (machineInit () false) =
      some (25, 0x80000020) := by
    decide +kernel
  obtain ⟨p, m, hPath, hActs, hLook, hChecked⟩ :=
    Scripts.path_of_seenBy (Act.Valid bareBoard) hSeen (by decide)
  have hStates := zero_is_zero hPath (hChecked.mono fun _ _ _ h => of_sparesZero h)
  exact ⟨p, m, hPath, hActs, hLook, hPath.last_state hStates⟩

/-- `addiu $0, $0, 1` and `addu $2, $0, $0`. -/
def clobberZero : List (Act Unit) :=
  [.poke 0 0x24000001, .poke 1 0x00001021, .setEntrypoint 0 kseg0, .turn 0, .turn 0]

theorem zero_clobbered : ∃ p m, Path (Step bareBoard) (machineInit () false) p m ∧
    p.map Prod.fst = clobberZero ∧ (m.mycpus 0).r 0 = 1 ∧ (m.mycpus 0).r 2 = 2 := by
  have hSeen : seen bareBoard clobberZero (machineInit () false) (fun m =>
      ((m.mycpus 0).r 0, (m.mycpus 0).r 2)) = some (1, 2) := by
    decide +kernel
  obtain ⟨p, m, hPath, hActs, hLook⟩ := path_of_seen hSeen (by decide)
  obtain ⟨hZero, hTwo⟩ := Prod.mk.inj hLook
  exact ⟨p, m, hPath, hActs, hZero, hTwo⟩

end Sys161.Mips
