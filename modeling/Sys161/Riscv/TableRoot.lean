import Sys161.Riscv.Blind

/-!
# The root of the page table

The base of the page table stands in a cpu twice: as the address that satp reads
back, and as the page of memory that the walk begins at. A write of satp changes
the first and `sfence.vma` looks the second up, so that the two agree along a run
exactly when every write of satp names the base that is already looked up.
-/

namespace Sys161.Riscv

open Exec Runs
open Mips (Board Page)

set_option autoImplicit false

variable {δ α : Type} (b : Board δ) (i : Nat)

/-- The page that the walk begins at is that of the base in satp, if paging is on. -/
def MmuState.Rooted (s : MmuState) : Prop :=
  s.mmuEnable = true → s.mmuPttoppage = mapmem b s.mmuPtbasePa

/-! ## What leaves the registers of the walk alone -/

/-- The registers of the walk of every cpu. -/
def TableRegs (regs : Nat → MmuState) (m : Machine δ) : Prop :=
  ∀ j, (m.mycpus j).toMmuState = regs j

namespace TableRegs

variable {regs : Nat → MmuState} {m : Machine δ}

theorem bus : BusBlind (TableRegs (δ := δ) regs) := by
  intro m t ht hm j
  rw [ht.congr Riscvcpu.toMmuState (fun _ => rfl) j]
  exact hm j

theorem modCpu {k : Nat} {f : Riscvcpu → Riscvcpu} (hf : ∀ c, (f c).toMmuState = c.toMmuState)
    (h : TableRegs regs m) : TableRegs regs (m.modCpu k f) := by
  intro j
  rw [mycpus_modCpu]
  split
  · rename_i hj
    rw [hf, ← hj]
    exact h j
  · exact h j

theorem setX (rd : Reg) (val : Word) (c : Riscvcpu) : (c.setX rd val).toMmuState = c.toMmuState := by
  unfold Riscvcpu.setX
  split <;> rfl

/-- The instruction apart, a turn does not write the registers of the walk. -/
theorem cpuBlind : CpuBlind (TableRegs (δ := δ) regs) where
  bus := bus
  own _ _ _ hf hm := hm.modCpu fun c => congrArg (fun k => k.2.1) (hf c)
  ram _ _ _ hm := hm
  stats _ _ hm := hm
  ready _ _ hm := hm
  enabled _ _ _ hm := hm
  start _ _ _ _ hm := hm.modCpu fun _ => rfl

end TableRegs

/-! ## Writes of satp -/

/-- What an instruction on a control register writes there, where it writes. -/
def Csrop.written (op : Csrop) (c : Riscvcpu) (rs1 : Reg) (oldval : Word) : Option Word :=
  match op with
  | csrrw => some (c.x rs1)
  | csrrs => if rs1 = 0 then none else some (oldval ||| c.x rs1)
  | csrrc => if rs1 = 0 then none else some (oldval &&& ~~~c.x rs1)
  | csrrwi => some (rs1.setWidth 32)
  | csrrsi => if rs1 = 0 then none else some (oldval ||| rs1.setWidth 32)
  | csrrci => if rs1 = 0 then none else some (oldval &&& ~~~rs1.setWidth 32)

/-- What an instruction writes to satp, if it does. -/
def Insn.satpVal (insn : Insn) (c : Riscvcpu) : Option Word :=
  match insn with
  | .csr op _ rs1 num _ =>
    if c.super = true ∧ Csr.ofBits num = .satp then op.written c rs1 c.readCsrSatp else none
  | _ => none

def Issue.satpVal (is : Issue) (c : Riscvcpu) : Option Word :=
  is.insn.bind fun insn => insn.satpVal c

/-- The base that a value of satp names. -/
def satpBase (val : Word) : Word := ((val &&& 0x003fffff) &&& 0xfffff) <<< 12

namespace Csrop

variable {op : Csrop} {c c' : Riscvcpu} {rd rs1 : Reg} {num val : Word}

theorem written_isSome (old old' : Word) (h : op.written c rs1 old = none) :
    op.written c rs1 old' = none := by
  cases op <;> simp_all [written]

theorem run_satp (hSuper : c.super = true) (hNum : Csr.ofBits num = .satp)
    (hVal : op.written c rs1 c.readCsrSatp = some val) :
    op.run c rd rs1 num = some ((c.writeCsrSatp val).setX rd c.readCsrSatp) := by
  have hRead : c.csrread num = some c.readCsrSatp := by
    simp [Riscvcpu.csrread, hNum, hSuper]
  have hWrite : ∀ v, c.csrwrite num v = some (c.writeCsrSatp v) := by
    simp [Riscvcpu.csrwrite, hNum, hSuper]
  have hrw : ∀ v, c.rxDoCsrrw rd v num = some ((c.writeCsrSatp v).setX rd c.readCsrSatp) := by
    intro v
    unfold Riscvcpu.rxDoCsrrw
    split
    · simp [Riscvcpu.rxDoCsrX, hRead, hWrite]
    · rename_i hZero
      simp [hWrite, Riscvcpu.setX, not_not.mp hZero]
  have hrsc : ∀ v doset, rs1 ≠ 0 → c.rxDoCsrrsc rd rs1 v doset num =
      some ((c.writeCsrSatp (if doset then c.readCsrSatp ||| v else c.readCsrSatp &&& ~~~v)).setX rd
        c.readCsrSatp) := by
    intro v doset hSource
    rw [Riscvcpu.rxDoCsrrsc, if_pos hSource]
    simp [Riscvcpu.rxDoCsrRc, hRead, hWrite]
  cases op <;> simp only [written, ite_eq_iff, reduceCtorEq, and_false, false_or, Option.some.injEq]
    at hVal
  case csrrw | csrrwi => rw [← hVal, run, hrw]
  all_goals
    obtain ⟨hSource, rfl⟩ := hVal
    rw [run, hrsc _ _ hSource]
    rfl

theorem run_cases (h : op.run c rd rs1 num = some c') :
    (∃ old v c₁ r, op.written c rs1 old = some v ∧ c.csrwrite num v = some c₁ ∧ c' = c₁.setX rd r) ∨
      (∀ old, op.written c rs1 old = none) ∧ ∃ r, c' = c.setX rd r := by
  have hrw : ∀ v, c.rxDoCsrrw rd v num = some c' →
      ∃ c₁ r, c.csrwrite num v = some c₁ ∧ c' = c₁.setX rd r := by
    intro v h
    unfold Riscvcpu.rxDoCsrrw Riscvcpu.rxDoCsrX at h
    split at h
    · simp only [Option.bind_eq_bind, Option.bind_eq_some_iff, Option.pure_def,
        Option.some.injEq] at h
      obtain ⟨old, -, c₁, hc₁, rfl⟩ := h
      exact ⟨c₁, old, hc₁, rfl⟩
    · rename_i hZero
      refine ⟨c', 0, h, ?_⟩
      simp [Riscvcpu.setX, not_not.mp hZero]
  have hrsc : ∀ v doset (w : Word → Option Word),
      (∀ old, w old = if rs1 = 0 then none else some (if doset then old ||| v else old &&& ~~~v)) →
      c.rxDoCsrrsc rd rs1 v doset num = some c' →
      (∃ old u c₁ r, w old = some u ∧ c.csrwrite num u = some c₁ ∧ c' = c₁.setX rd r) ∨
        (∀ old, w old = none) ∧ ∃ r, c' = c.setX rd r := by
    intro v doset w hw h
    unfold Riscvcpu.rxDoCsrrsc Riscvcpu.rxDoCsrRc Riscvcpu.rxDoCsrR at h
    split at h
    · rename_i hSource
      simp only [Option.bind_eq_bind, Option.bind_eq_some_iff, Option.pure_def,
        Option.some.injEq] at h
      obtain ⟨old, -, c₁, hWrite, rfl⟩ := h
      exact .inl ⟨old, _, c₁, old, by rw [hw, if_neg hSource], hWrite, rfl⟩
    · rename_i hSource
      simp only [Option.map_eq_some_iff] at h
      obtain ⟨old, -, rfl⟩ := h
      exact .inr ⟨fun old => by rw [hw, if_pos (not_not.mp hSource)], old, rfl⟩
  cases op with
  | csrrw | csrrwi =>
    obtain ⟨c₁, r, hWrite, rfl⟩ := hrw _ h
    exact .inl ⟨0, _, c₁, r, rfl, hWrite, rfl⟩
  | csrrs | csrrsi => exact hrsc _ true _ (fun _ => rfl) h
  | csrrc | csrrci => exact hrsc _ false _ (fun _ => rfl) h

end Csrop

theorem Riscvcpu.csrwrite_other {c c' : Riscvcpu} {csr val : Word}
    (hOther : ¬(c.super = true ∧ Csr.ofBits csr = .satp)) (h : c.csrwrite csr val = some c') :
    c'.toMmuState = c.toMmuState := by
  unfold csrwrite at h
  split at h
  · cases h
  · rename_i hSuper
    split at h
    case h_9 hNum => exact absurd ⟨by simpa using hSuper, hNum⟩ hOther
    all_goals cases h <;> rfl

theorem Csrop.run_other {op : Csrop} {c c' : Riscvcpu} {rd rs1 : Reg} {num word : Word}
    (hVal : (Insn.csr op rd rs1 num word).satpVal c = none) (h : op.run c rd rs1 num = some c') :
    c'.toMmuState = c.toMmuState := by
  rcases run_cases h with ⟨old, v, c₁, r, hWritten, hWrite, rfl⟩ | ⟨-, r, rfl⟩
  · rw [TableRegs.setX]
    refine Riscvcpu.csrwrite_other (fun hSatp => ?_) hWrite
    rw [Insn.satpVal, if_pos hSatp] at hVal
    rw [written_isSome _ old hVal] at hWritten
    cases hWritten
  · exact TableRegs.setX _ _ _

/-! ## A turn -/

/-- The registers of the walk with the page of the base looked up again. -/
def reread (regs : Nat → MmuState) : Nat → MmuState :=
  Function.update regs i { regs i with mmuPttoppage := mapmem b (regs i).mmuPtbasePa }

/-- What an instruction that does not write satp leaves of the registers of the walk. -/
def Reread (regs : Nat → MmuState) (m : Machine δ) : Prop :=
  TableRegs regs m ∨ TableRegs (reread b i regs) m

theorem tableRegs_self (m : Machine δ) : TableRegs (fun j => (m.mycpus j).toMmuState) m :=
  fun _ => rfl

theorem TableRegs.setCpu {regs : Nat → MmuState} {m : Machine δ} (h : TableRegs regs m) {i : Nat}
    (c : Riscvcpu) : TableRegs (Function.update regs i c.toMmuState) (m.setCpu i c) := by
  intro j
  by_cases hj : j = i
  · subst hj
    simp
  · rw [Machine.setCpu_mycpus_ne m c hj, Function.update_of_ne hj]
    exact h j

section Exec

variable {b i} {regs : Nat → MmuState}

theorem Reread.modCpu {f : Riscvcpu → Riscvcpu} (hf : ∀ c, (f c).toMmuState = c.toMmuState)
    {m : Machine δ} (h : Reread b i regs m) : Reread b i regs (m.modCpu i f) :=
  h.imp (fun h => h.modCpu hf) fun h => h.modCpu hf

/-- What keeps the registers of the walk, whatever these are, keeps `Reread`. -/
theorem keeps_reread {x : M δ α}
    (hx : ∀ regs, Keeps (TableRegs regs) (fun _ => TableRegs regs) x) :
    Keeps (Reread b i regs) (fun _ => Reread b i regs) x := by
  rintro m (hm | hm)
  · exact (hx _ m hm).mono (fun _ _ => .inl) fun _ _ => .inl
  · exact (hx _ m hm).mono (fun _ _ => .inr) fun _ _ => .inr

theorem rules_tableRegs {insn : Insn} (hCsr : ∀ op rd rs1 num word, insn ≠ .csr op rd rs1 num word) :
    Rules b i (fun _ _ _ => True) insn (TableRegs regs) (Reread b i regs)
      (fun _ => Reread b i regs) := by
  have hLeft : ∀ {x : M δ Unit} {m : Machine δ},
      After x (fun _ => TableRegs regs) (fun _ => TableRegs regs) m →
      After x (fun _ => Reread b i regs) (fun _ => Reread b i regs) m :=
    fun h => h.mono (fun _ _ => .inl) fun _ _ => .inl
  have hStore : StoreRules b i (fun _ _ _ => True) (TableRegs regs) (TableRegs regs)
      (fun _ => TableRegs regs) := TableRegs.cpuBlind.storeRules i
  constructor
  case toFetchRules =>
    constructor
    · exact fun vaddr rwx hAlign => (hStore.fetch vaddr rwx hAlign).error fun _ _ => .inl
    · exact hStore.noLr
  case le => exact fun m => .inl
  case raise => exact fun code val m => .inl
  case setX => exact fun rd val m hm => hm.modCpu fun c => TableRegs.setX rd val c
  case reserve => exact fun addr val m hm => .inl (hm.modCpu fun _ => rfl)
  case dostore =>
    intro ms addr val m hms hm hV
    exact hLeft (hStore.dostore hStore (fun _ ht => ht) hms hm hV)
  case store => exact fun vaddr val m hAlign hm hV => hLeft (hStore.store vaddr val m hAlign hm hV)
  case jump => exact fun dest m _ hm => hLeft (TableRegs.cpuBlind.rxJump i dest m hm)
  case jumpBy => exact fun imm m _ hm => hLeft (TableRegs.cpuBlind.rxJump i _ m hm)
  case csr =>
    intro op rd rs1 num word c m hInsn
    exact absurd hInsn (hCsr op rd rs1 num word)
  case breakpoint => exact fun m _ hm _ => .inl (TableRegs.modCpu (fun _ => rfl) hm)
  case sret => exact fun m _ hm => hLeft (TableRegs.cpuBlind.rxDoSret i m hm)
  case wfi => exact fun m _ hm => hLeft (TableRegs.cpuBlind.rxDoWfi i m hm)
  case sfenceVma =>
    intro m _ hm
    have hPage : TableRegs (reread b i regs)
        (m.modCpu i fun c => { c with mmuPttoppage := mapmem b c.mmuPtbasePa }) := by
      unfold reread
      rw [← hm i]
      exact hm.setCpu { m.mycpus i with mmuPttoppage := mapmem b (m.mycpus i).mmuPtbasePa }
    unfold rxDoSfenceVma reloadPagetables
    rw [after_bind, after_bind, after_getCpu, after_bind, after_modCpu, after_ite]
    split
    · exact .inr hPage
    · exact .inr (hPage.modCpu fun _ => rfl)

theorem after_exec_regs {insn : Insn} (hWell : insn.Wellformed) {len : Word} {m : Machine δ}
    (hm : TableRegs regs m) (hVal : insn.satpVal (m.mycpus i) = none) :
    After (insn.exec b i len) (fun _ => Reread b i regs) (fun _ => Reread b i regs) m := by
  cases insn with
  | csr op rd rs1 num word =>
    simp only [Insn.exec, Riscv.rxCsr]
    rw [after_bind, after_bind, after_getCpu]
    cases hRun : op.run (m.mycpus i) rd rs1 num with
    | none => exact .inl hm
    | some c =>
      have hSame : c.toMmuState = regs i := (Csrop.run_other hVal hRun).trans (hm i)
      have hRegs := hm.setCpu (i := i) c
      rw [hSame, Function.update_eq_self] at hRegs
      exact .inl hRegs
  | _ => exact (rules_tableRegs (by simp)).exec hWell hm (writes_true i m _)

/-- A write of satp is all that its instruction does. -/
theorem after_exec_satp {insn : Insn} (len : Word) {val : Word} {m : Machine δ}
    (hVal : insn.satpVal (m.mycpus i) = some val) :
    ∃ rd old, ∀ (Q : Bool → Machine δ → Prop) (E : Stop → Machine δ → Prop),
      (∀ r, Q r (m.setCpu i (((m.mycpus i).writeCsrSatp val).setX rd old))) →
      After (insn.exec b i len) Q E m := by
  cases insn with
  | csr op rd rs1 num word =>
    simp only [Insn.satpVal, ite_eq_iff, reduceCtorEq, and_false, or_false] at hVal
    obtain ⟨⟨hSuper, hNum⟩, hWritten⟩ := hVal
    refine ⟨rd, (m.mycpus i).readCsrSatp, fun Q E hQ => ?_⟩
    simp only [Insn.exec, Riscv.rxCsr]
    rw [after_bind, after_bind, after_getCpu, Csrop.run_satp hSuper hNum hWritten]
    exact hQ false
  | _ => cases hVal

end Exec

section Turn

variable {m t : Machine δ}

/-- The registers of the walk after the instruction. -/
def Written (is : Issue) (t u : Machine δ) : Prop :=
  match is.satpVal (t.mycpus i) with
  | some val => TableRegs (Function.update (fun j => (t.mycpus j).toMmuState) i
      ((t.mycpus i).writeCsrSatp val).toMmuState) u
  | none => Reread b i (fun j => (t.mycpus j).toMmuState) u

variable {b i}

theorem keeps_written {is : Issue} {x : M δ α}
    (hx : ∀ regs, Keeps (TableRegs regs) (fun _ => TableRegs regs) x) :
    Keeps (Written b i is t) (fun _ => Written b i is t) x := by
  unfold Written
  split
  · exact hx _
  · exact keeps_reread hx

theorem Written.refl {is : Issue} (hVal : is.satpVal (t.mycpus i) = none) : Written b i is t t := by
  rw [Written, hVal]
  exact .inl (tableRegs_self t)

theorem Written.idle {is : Issue} (hNone : is.insn = none) : Written b i is t t := by
  apply Written.refl
  rw [Issue.satpVal, hNone, Option.bind_none]

theorem Written.taken {is : Issue} {e : Stop} {u : Machine δ} (h : Written b i is t u) :
    taken b i (fun (_ : Bool) => Written b i is t) (fun _ _ => True) false e u := by
  cases e with
  | trap tr =>
    exact (keeps_written (fun _ => TableRegs.cpuBlind.trap i tr) u h).mono (fun _ _ hw => hw)
      fun _ _ _ => trivial
  | crashdie | smoke | undefined => trivial

theorem after_execute_written (is : Issue) (t : Machine δ) :
    After (execute b i is) (fun _ => Written b i is t) (fun _ _ => True) t := by
  have hExec : ∀ (insn : Insn) len, is.insn = some insn → insn.Wellformed →
      After (insn.exec b i len) (fun _ => Written b i is t)
        (taken b i (fun (_ : Bool) => Written b i is t) (fun _ _ => True) false) t := by
    intro insn len hInsn hWell
    have hIssue : is.satpVal (t.mycpus i) = insn.satpVal (t.mycpus i) := by
      rw [Issue.satpVal, hInsn, Option.bind_some]
    cases hVal : insn.satpVal (t.mycpus i) with
    | none =>
      have hWritten : ∀ u, Reread b i (fun j => (t.mycpus j).toMmuState) u → Written b i is t u := by
        intro u hu
        rwa [Written, hIssue, hVal]
      refine (after_exec_regs hWell (tableRegs_self t) hVal).mono ?_ ?_
      · exact fun _ u hu => hWritten u hu
      · exact fun e u hu => (hWritten u hu).taken
    | some val =>
      obtain ⟨rd, old, hSatp⟩ := after_exec_satp _ hVal
      apply hSatp
      intro _
      rw [Written, hIssue, hVal]
      have hRegs := (tableRegs_self t).setCpu (i := i) (((t.mycpus i).writeCsrSatp val).setX rd old)
      rwa [TableRegs.setX] at hRegs
  unfold execute
  rw [after_trapping]
  cases is with
  | idle =>
    have hStill : Written b i .idle t t := Written.idle rfl
    exact hStill
  | fault =>
    have hStill : Written b i .fault t t := Written.idle rfl
    exact hStill
  | short word =>
    dsimp only
    unfold insn16
    cases hInsn : decode16 word with
    | none => trivial
    | some insn => exact hExec insn 2 hInsn (decode16_wellformed hInsn)
  | long word => exact hExec (decode32 word) 4 rfl (decode32_wellformed word)
  | tooLong word =>
    have hStill : Written b i (.tooLong word) t t := Written.refl rfl
    exact hStill.taken (e := .trap (.exception .illinst word))

/-- A turn changes the registers of the walk by its instruction only. -/
theorem after_cpuTurn_written (m : Machine δ) :
    After (cpuTurn b i)
      (fun _ m' => ∃ is t, (issue b i).run m = .ok is t ∧
        TableRegs (fun j => (m.mycpus j).toMmuState) t ∧ Written b i is t m')
      (fun _ _ => True) m := by
  unfold cpuTurn
  rw [after_bind]
  refine (after_run (TableRegs.cpuBlind.issue i m (tableRegs_self m))).mono ?_ fun _ _ _ => trivial
  rintro is t ⟨ht, hIssue⟩
  have hComplete : After (complete b i is) (fun _ m' => Written b i is t m') (fun _ _ => True) t := by
    unfold complete
    rw [after_bind, after_getCpu, after_bind]
    refine (after_execute_written is t).mono ?_ fun _ _ _ => trivial
    intro stopped u hu
    exact (keeps_written (fun _ => TableRegs.cpuBlind.finish i _ _) u hu).mono (fun _ _ hw => hw)
      fun _ _ _ => trivial
  cases is with
  | idle | fault => exact ⟨_, t, hIssue, ht, Written.idle rfl⟩
  | short word | long word | tooLong word =>
    exact hComplete.mono (fun _ m' hm' => ⟨_, t, hIssue, ht, hm'⟩) fun _ _ _ => trivial

theorem run_execute_satp {is : Issue} {val : Word} (hVal : is.satpVal (t.mycpus i) = some val) :
    ∃ rd old r, (execute b i is).run t =
      .ok r (t.setCpu i (((t.mycpus i).writeCsrSatp val).setX rd old)) := by
  have hExec : ∀ (insn : Insn) len, is.insn = some insn → ∃ rd old r,
      (trapping b i (insn.exec b i len) false).run t =
        .ok r (t.setCpu i (((t.mycpus i).writeCsrSatp val).setX rd old)) := by
    intro insn len hInsn
    rw [Issue.satpVal, hInsn, Option.bind_some] at hVal
    obtain ⟨rd, old, hSatp⟩ := after_exec_satp (b := b) len hVal
    have hAfter : After (trapping b i (insn.exec b i len) false)
        (fun _ u => u = t.setCpu i (((t.mycpus i).writeCsrSatp val).setX rd old))
        (fun _ _ => False) t := by
      rw [after_trapping]
      exact hSatp _ _ fun _ => rfl
    obtain ⟨r, u, hRun, rfl⟩ := exists_of_after hAfter
    exact ⟨rd, old, r, hRun⟩
  cases is with
  | idle | fault | tooLong word => cases hVal
  | short word =>
    unfold execute
    dsimp only
    unfold insn16
    cases hInsn : decode16 word with
    | none =>
      rw [Issue.satpVal, Issue.insn, hInsn, Option.bind_none] at hVal
      cases hVal
    | some insn => exact hExec insn 2 hInsn
  | long word => exact hExec (decode32 word) 4 rfl

end Turn

/-! ## Runs -/

section Runs

variable (m : Machine δ)

/-- In every cpu the walk begins at the page of the base that satp reads back. -/
def Machine.Rooted : Prop := ∀ j, (m.mycpus j).Rooted b

/-- So it does after the fetch, with the trap that may come before it, and after the instruction,
with the trap that it may come to. -/
def Act.RootedWithin (a : Act δ) : Prop :=
  match a with
  | .turn i => ∀ is t, (issue b i).run m = .ok is t →
      t.Rooted b ∧ ∀ stopped u, (execute b i is).run t = .ok stopped u → u.Rooted b
  | _ => True

/-- Right after a write of satp that turns paging on, a translation is a walk through the table of
the base that has been written. -/
def Act.Renews (a : Act δ) : Prop :=
  match a with
  | .turn i => ∀ is t val, (issue b i).run m = .ok is t → is.satpVal (t.mycpus i) = some val →
      val &&& 0x80000000 ≠ 0 → ∃ stopped u, (execute b i is).run t = .ok stopped u ∧
        ∀ vaddr rwx, vaddr &&& 0x1 = 0 → (translatemem b i vaddr rwx).run u =
          (walk b i vaddr rwx).run
            (u.modCpu i fun c => { c with mmuPttoppage := mapmem b (satpBase val) })
  | _ => True

/-- A write of satp that turns paging on names a base whose page the cpu has looked up already. -/
def Act.SatpOk (a : Act δ) : Prop :=
  match a with
  | .turn i => ∀ is t val, (issue b i).run m = .ok is t → is.satpVal (t.mycpus i) = some val →
      val &&& 0x80000000 ≠ 0 → (t.mycpus i).mmuPttoppage = mapmem b (satpBase val)
  | _ => True

variable {b m}

theorem TableRegs.rooted {regs : Nat → MmuState} {t : Machine δ} (h : TableRegs regs t) :
    t.Rooted b ↔ ∀ j, (regs j).Rooted b := by
  unfold Machine.Rooted
  simp only [h _]

theorem Reread.rooted {regs : Nat → MmuState} {t : Machine δ} {i : Nat}
    (h : Reread b i regs t) (hRegs : ∀ j, (regs j).Rooted b) : t.Rooted b := by
  rcases h with hSame | hReread
  · exact hSame.rooted.mpr hRegs
  · refine hReread.rooted.mpr fun j => ?_
    unfold reread
    by_cases hj : j = i
    · subst hj
      rw [Function.update_self]
      exact fun _ => rfl
    · rw [Function.update_of_ne hj]
      exact hRegs j

theorem rooted_update {regs : Nat → MmuState} (hRegs : ∀ j, (regs j).Rooted b) (i : Nat)
    (s : MmuState) : (∀ j, (Function.update regs i s j).Rooted b) ↔ s.Rooted b := by
  constructor
  · intro h
    have hSelf := h i
    rwa [Function.update_self] at hSelf
  · intro h j
    by_cases hj : j = i
    · subst hj
      rwa [Function.update_self]
    · rw [Function.update_of_ne hj]
      exact hRegs j

/-- After a write of satp the walk begins at its base if that has been looked up. -/
theorem rooted_writeCsrSatp (c : Riscvcpu) (val : Word) :
    (c.writeCsrSatp val).Rooted b ↔
      (val &&& 0x80000000 ≠ 0 → c.mmuPttoppage = mapmem b (satpBase val)) := by
  unfold MmuState.Rooted
  simp only [Riscvcpu.writeCsrSatp, decide_eq_true_eq]
  rfl

theorem run_translatemem_walk {u : Machine δ} {i : Nat} {vaddr : Word} (rwx : Memrwx)
    (hEven : vaddr &&& 0x1 = 0) (hOn : (u.mycpus i).mmuEnable = true)
    (hCache : (u.mycpus i).mmuCachedVpage = invalidCachedVpage) :
    (translatemem b i vaddr rwx).run u = (walk b i vaddr rwx).run u := by
  have hMiss : vaddr &&& 0xfffff000 ≠ invalidCachedVpage := by
    intro h
    have hBit := congrArg (fun v : Word => v &&& 0x1) h
    simp only [invalidCachedVpage, BitVec.and_assoc] at hBit
    simp at hBit
  have hGet : (getCpu i : M δ Riscvcpu).run u = .ok (u.mycpus i) u := rfl
  unfold translatemem
  rw [if_neg (not_not.mpr hEven), EStateM.run_bind, hGet]
  dsimp only
  rw [if_neg (by simp [hOn]), if_neg (by rw [hCache]; exact hMiss)]

/-- A turn keeps the two together exactly when its write of satp is allowed. -/
theorem rooted_turn_iff {i : Nat} {m' : Machine δ} (hm : m.Rooted b)
    (hStep : Step b m (.turn i) m') :
    m'.Rooted b ∧ (Act.turn i).RootedWithin b m ∧ (Act.turn i).Renews b m ↔
      (Act.turn i).SatpOk b m := by
  have hTurn : After (Act.exec b (.turn i))
      (fun _ m' => ∃ is t, (issue b i).run m = .ok is t ∧
        TableRegs (fun j => (m.mycpus j).toMmuState) t ∧ Written b i is t m')
      (fun _ _ => True) m := by
    simp only [Act.exec]
    rw [after_bind]
    exact (after_cpuTurn_written m).mono (fun _ _ ht => ht) fun _ _ _ => trivial
  obtain ⟨is, t, hIssue, hRegs, hWritten⟩ := after_of_run_ok hTurn hStep.2
  have ht : t.Rooted b := hRegs.rooted.mpr hm
  have hOnly : ∀ {is' t'}, (issue b i).run m = .ok is' t' → is = is' ∧ t = t' :=
    fun h => EStateM.Result.ok.inj (hIssue.symm.trans h)
  have hAfter : (∀ val, is.satpVal (t.mycpus i) = some val →
      ((t.mycpus i).writeCsrSatp val).Rooted b) → ∀ u, Written b i is t u → u.Rooted b := by
    intro hSatp u hu
    unfold Written at hu
    cases hVal : is.satpVal (t.mycpus i) with
    | none =>
      rw [hVal] at hu
      exact hu.rooted ht
    | some val =>
      rw [hVal] at hu
      exact hu.rooted.mpr ((rooted_update ht i _).mpr (hSatp val hVal))
  constructor
  · rintro ⟨hm', -⟩ is' t' val hIssue' hVal
    obtain ⟨rfl, rfl⟩ := hOnly hIssue'
    rw [Written, hVal] at hWritten
    exact (rooted_writeCsrSatp _ val).mp ((rooted_update ht i _).mp (hWritten.rooted.mp hm'))
  · intro hOk
    have hSatp : ∀ val, is.satpVal (t.mycpus i) = some val →
        ((t.mycpus i).writeCsrSatp val).Rooted b :=
      fun val hVal => (rooted_writeCsrSatp _ val).mpr (hOk is t val hIssue hVal)
    refine ⟨hAfter hSatp m' hWritten, ?_, ?_⟩
    · intro is' t' hIssue'
      obtain ⟨rfl, rfl⟩ := hOnly hIssue'
      refine ⟨ht, fun stopped u hRun => ?_⟩
      have hu := after_of_run_ok (after_execute_written is t) hRun
      exact hAfter hSatp u hu
    · intro is' t' val hIssue' hVal hOn
      obtain ⟨rfl, rfl⟩ := hOnly hIssue'
      obtain ⟨rd, old, r, hRun⟩ := run_execute_satp (b := b) hVal
      refine ⟨r, _, hRun, fun vaddr rwx hEven => ?_⟩
      have hPage := hOk is t val hIssue hVal hOn
      have hCpu : ∃ c, c = ((t.mycpus i).writeCsrSatp val).setX rd old ∧ c.mmuEnable = true ∧
          c.mmuCachedVpage = invalidCachedVpage ∧ c.mmuPttoppage = mapmem b (satpBase val) := by
        refine ⟨_, rfl, ?_⟩
        unfold Riscvcpu.setX
        split <;> exact ⟨by simpa [Riscvcpu.writeCsrSatp] using hOn, rfl, hPage⟩
      obtain ⟨c, hc, hEnable, hCache, hRoot⟩ := hCpu
      rw [← hc]
      have hRenewed : (t.setCpu i c).modCpu i
          (fun c => { c with mmuPttoppage := mapmem b (satpBase val) }) = t.setCpu i c := by
        rw [Machine.modCpu, Machine.setCpu_setCpu, Machine.setCpu_mycpus_self, ← hRoot]
      rw [hRenewed]
      apply run_translatemem_walk rwx hEven
      · rwa [Machine.setCpu_mycpus_self]
      · rwa [Machine.setCpu_mycpus_self]

theorem regs_of_step {a : Act δ} {m' : Machine δ} (hTurn : ∀ i, a ≠ .turn i)
    (hStep : Step b m a m') : TableRegs (fun j => (m.mycpus j).toMmuState) m' :=
  TableRegs.cpuBlind.step (tableRegs_self m) hStep fun i hi => absurd hi (hTurn i)

theorem rooted_step_iff {a : Act δ} {m' : Machine δ} (hm : m.Rooted b) (hStep : Step b m a m') :
    m'.Rooted b ∧ a.RootedWithin b m ∧ a.Renews b m ↔ a.SatpOk b m := by
  cases a with
  | turn i => exact rooted_turn_iff hm hStep
  | _ =>
    have hRegs := regs_of_step (by simp) hStep
    exact iff_of_true ⟨hRegs.rooted.mpr hm, trivial, trivial⟩ trivial

/-- Along a run the walk begins at the base that satp reads back exactly when no write of satp turns
paging on for a base that has yet to be looked up. -/
theorem table_root {devices : δ} {gdbReady : Bool} {p : List (Act δ × Machine δ)}
    (hp : Path (Step b) (machineInit devices gdbReady) p m) :
    AllStates (fun m => m.Rooted b) (machineInit devices gdbReady) p ∧
        AllSteps (fun m a _ => a.RootedWithin b m ∧ a.Renews b m) (machineInit devices gdbReady) p ↔
      AllSteps (fun m a _ => a.SatpOk b m) (machineInit devices gdbReady) p := by
  refine Path.good_iff_allSteps (Q := fun _ => True) (fun _ _ _ _ _ => trivial) ?_ hp trivial ?_
  · exact fun _ _ _ _ hm hStep => rooted_step_iff hm hStep
  · exact fun j hOn => by cases hOn

end Runs

/-- What the turn writes to satp, if anything, does not turn paging on for a base that has yet to be
looked up. -/
def satpOk {δ : Type} (b : Board δ) (m : Machine δ) (a : Act δ) : Bool :=
  (issued b m a).all fun x =>
    (x.2.1.satpVal (x.2.2.mycpus x.1)).all fun val =>
      decide (val &&& 0x80000000 ≠ 0 → (x.2.2.mycpus x.1).mmuPttoppage = mapmem b (satpBase val))

theorem of_satpOk {δ : Type} {b : Board δ} {m : Machine δ} {a : Act δ} (h : satpOk b m a = true) :
    a.SatpOk b m := by
  cases a with
  | turn i =>
    intro is t val hIssue hVal
    rw [satpOk, issued_of_run hIssue] at h
    simp only [Option.all_some, hVal] at h
    exact of_decide_eq_true h
  | _ => trivial

/-- `csrw satp, sp` with a base and paging off, `sfence.vma`, which looks the base up, `csrw satp, a0`
with the same base and paging on, `sfence.vma`, and `jal` to `addi t0, x0, 1`, which a walk finds. -/
def turnPagingOn : List (Act Unit) :=
  [.poke 0 0x18011073, .poke 1 0x12000073, .poke 2 0x18051073, .poke 3 0x12000073,
    .poke 4 0x010000ef, .poke 8 0x00100293, .poke 0x300 0x300000cf,
    .setStack 0 0x000c0000 0x800c0000, .setEntrypoint 0 0xc0000000] ++ List.replicate 6 (.turn 0)

open Scripts in
theorem table_root_switched : ∃ p m, Path (Step bareBoard) (machineInit () true) p m ∧
    p.map Prod.fst = turnPagingOn ∧
    ((m.mycpus 0).pc, (m.mycpus 0).mmuEnable, (m.mycpus 0).x 5) = (0xc0000024, true, 1) ∧
    m.Rooted bareBoard := by
  have hSeen : seenBy (satpOk bareBoard) (Act.exec bareBoard)
      (fun m => ((m.mycpus 0).pc, (m.mycpus 0).mmuEnable, (m.mycpus 0).x 5)) turnPagingOn
      (machineInit () true) = some (0xc0000024, true, 1) := by decide +kernel
  have hValid : ∀ a ∈ turnPagingOn, a.Valid bareBoard := by
    simp [turnPagingOn, Act.Valid, bareBoard, Mips.bareBoard]
  obtain ⟨p, m, hPath, hActs, hLook, hChecked⟩ := path_of_seenBy _ hSeen hValid
  have hRoot := (table_root hPath).mpr (hChecked.mono fun _ _ _ h => of_satpOk h)
  exact ⟨p, m, hPath, hActs, hLook, hPath.last_state hRoot.1⟩

/-- `csrw satp, sp` with a base in the first page of memory, `sfence.vma`, and `csrw satp, a0` with
a base in the second one. -/
def switchTables : List (Act Unit) :=
  [.poke 0 0x18011073, .poke 1 0x12000073, .poke 2 0x18051073,
    .setStack 0 0x800c0000 0x800c0001, .setEntrypoint 0 0xc0000000, .turn 0, .turn 0, .turn 0]

open Scripts in
theorem not_table_root : ¬ ∀ p m, Path (Step bareBoard) (machineInit () true) p m →
    m.Rooted bareBoard := by
  intro h
  have hSeen : yields (runAll (Act.exec bareBoard) switchTables)
      (fun _ m => ((m.mycpus 0).mmuEnable, (m.mycpus 0).mmuPtbasePa, (m.mycpus 0).mmuPttoppage))
      (machineInit () true) = some (true, 0xc0001000, some (.ram 0)) := by decide +kernel
  have hValid : ∀ a ∈ switchTables, a.Valid bareBoard := by
    simp [switchTables, Act.Valid, bareBoard, Mips.bareBoard]
  obtain ⟨p, m, hPath, -, hLook⟩ := path_of_seen hSeen hValid
  simp only [Prod.mk.injEq] at hLook
  obtain ⟨hOn, hBase, hTop⟩ := hLook
  have hRooted := h p m hPath 0 hOn
  rw [hBase, hTop] at hRooted
  exact absurd hRooted (by decide)

end Sys161.Riscv
