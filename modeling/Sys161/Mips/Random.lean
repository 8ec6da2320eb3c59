import Sys161.Mips.FetchPath
import Sys161.Mips.Tlb

/-!
# The random register

The counter behind RANDOM is a signed int that is reduced only when it is used.
Its uses stay within the table until it has been counted past its range.
-/

namespace Sys161.Mips

open Exec Runs

set_option autoImplicit false

variable {δ : Type} {b : Board δ} (i : Nat)

def IsTlbwr (insn : Word) : Prop := cop0Op insn ∧ (insn &&& 0x01ffffff).toNat = 6

/-- A move from the random register. -/
def ReadsRandom (insn : Word) : Prop :=
  opm insn = .cop ∧ cn insn = 0 ∧ rs insn = 0 ∧ C0.ofRegsel (rd insn) (sel insn) = some .random

section Execute

variable {Q : Unit → Machine δ → Prop} {E : Stop → Machine δ → Prop} {t : Machine δ} {insn : Word}

theorem after_execute_cop0 (h : cop0Op insn) (hUser : (t.mycpus i).currentUsermode = false) :
    After (execute b i insn) Q E t ↔ After (mxCop0 b i insn) Q E t := by
  obtain ⟨hOp, hcn, hrs⟩ := h
  have hMode : ¬(cn insn ≠ 0 ∨ (t.mycpus i).currentUsermode = true) := by simp [hcn, hUser]
  simp only [execute, hOp, mxCopz, after_bind, after_getCpu, if_neg hMode, if_pos hrs]

theorem after_execute_mtc0 {c0 : C0} (h : IsMtc0 insn c0) (hStatus : c0 ≠ .status)
    (hUser : (t.mycpus i).currentUsermode = false) :
    After (execute b i insn) Q E t ↔
      Q () (t.modCpu i fun c => c.mtc0 ((t.mycpus i).r (rt insn)) c0) := by
  obtain ⟨hOp, hcn, hrs, hSel⟩ := h
  have hMode : ¬(cn insn ≠ 0 ∨ (t.mycpus i).currentUsermode = true) := by simp [hcn, hUser]
  have hNotCo : ¬ 16 ≤ (rs insn).toNat := by simp [hrs]
  simp only [execute, hOp, mxCopz, after_bind, after_getCpu, if_neg hMode, if_neg hNotCo]
  simp only [hrs, mxMt, domt, hSel, after_bind, after_getCpu, if_neg hMode, hStatus, false_and,
    if_false, after_modCpu]

theorem after_execute_tlbwr (h : IsTlbwr insn) (hUser : (t.mycpus i).currentUsermode = false) :
    After (execute b i insn) Q E t ↔ After (mxTlbwr b i) Q E t := by
  rw [after_execute_cop0 i h.1 hUser]
  simp only [mxCop0, h.2]

theorem after_execute_readsRandom (h : ReadsRandom insn)
    (hUser : (t.mycpus i).currentUsermode = false) :
    After (execute b i insn) Q E t ↔ Q () ((t.modCpu i Mipscpu.reduceRandom).modCpu i fun c =>
      { c with
        r := Function.update c.r (rt insn) (((t.mycpus i).reduceRandom.mfc0 .random).getD 0) }) := by
  obtain ⟨hOp, hcn, hrs, hSel⟩ := h
  have hMode : ¬(cn insn ≠ 0 ∨ (t.mycpus i).currentUsermode = true) := by simp [hcn, hUser]
  have hNotCo : ¬ 16 ≤ (rs insn).toNat := by simp [hrs]
  have hMf : (rs insn).toNat = 0 := by simp [hrs]
  simp only [execute, hOp, mxCopz, after_bind, after_getCpu, if_neg hMode, if_neg hNotCo]
  simp only [hMf, mxMf, domf, hSel, after_bind, after_getCpu, if_neg hMode, after_modCpu, after_pure,
    after_setReg]

end Execute

/-! ## The counter -/

def intMax : Word := 0x7fffffff

/-- As long as the counter is not negative the remainder is one of natural numbers. -/
theorem toNat_reduceRandom {c : Mipscpu} (h : c.tlbrandom ≤ intMax) :
    c.reduceRandom.tlbrandom.toNat = c.tlbrandom.toNat % 56 := by
  have hMsb : c.tlbrandom.msb = false := by
    rw [BitVec.msb_eq_false_iff_two_mul_lt]
    have hLe : c.tlbrandom.toNat ≤ 2147483647 := h
    omega
  simp only [Mipscpu.reduceRandom]
  rw [BitVec.srem_eq, hMsb]
  rfl

theorem reduceRandom_lt {c : Mipscpu} (h : c.tlbrandom ≤ intMax) :
    c.reduceRandom.tlbrandom < 56 := by
  rw [BitVec.lt_def, toNat_reduceRandom h]
  exact Nat.mod_lt _ (by decide)

/-- No counter is negative, and that of cpu `i` can be counted once more. -/
def RandomNonneg (m : Machine δ) : Prop := ∀ j, (m.mycpus j).tlbrandom ≤ intMax

def RandomBelowMax (m : Machine δ) : Prop :=
  ∀ j, (m.mycpus j).tlbrandom ≤ intMax ∧ (j = i → (m.mycpus j).tlbrandom ≠ intMax)

theorem cpuBlind_tlbrandom (P : Word → Prop) : CpuBlind b fun c => P c.tlbrandom where
  fetchState _ _ hc := hc
  exception _ _ hc := hc
  vpn _ _ hc := hc
  hitBreakpoint _ _ hc := hc
  exCount _ _ hc := hc
  irqLines _ _ hc := hc
  state _ _ hc := hc
  startReg _ _ _ _ hc := hc

theorem busBlind_randomNonneg : BusBlind b (RandomNonneg (δ := δ)) :=
  CpuBlind.busBlind fun _ => cpuBlind_tlbrandom fun w => w ≤ intMax

theorem busBlind_randomBelowMax : BusBlind b (RandomBelowMax (δ := δ) i) :=
  CpuBlind.busBlind fun j => cpuBlind_tlbrandom fun w => w ≤ intMax ∧ (j = i → w ≠ intMax)

theorem RandomBelowMax.modCpu {m : Machine δ} (hm : RandomBelowMax i m) {f : Mipscpu → Mipscpu}
    (hf : ∀ c, (f c).tlbrandom = c.tlbrandom) : RandomBelowMax i (m.modCpu i f) :=
  forall_modCpu (P := fun j c => c.tlbrandom ≤ intMax ∧ (j = i → c.tlbrandom ≠ intMax)) i hm
    (by rw [hf]; exact hm i)

/-- A use of the counter brings it down. -/
theorem RandomNonneg.reduceRandom {m : Machine δ} (hm : RandomNonneg m) :
    RandomBelowMax i (m.modCpu i Mipscpu.reduceRandom) := by
  have hLt := reduceRandom_lt (hm i)
  intro j
  by_cases hj : j = i
  · subst hj
    rw [Machine.modCpu_mycpus_self]
    simp only [intMax]
    constructor
    · bv_omega
    · bv_omega
  · rw [Machine.modCpu_mycpus_ne m _ hj]
    exact ⟨hm j, fun h => absurd h hj⟩

theorem RandomBelowMax.tick {m : Machine δ} (hm : RandomBelowMax i m) :
    RandomNonneg (m.modCpu i Mipscpu.tick) := by
  refine forall_modCpu (P := fun _ c => c.tlbrandom ≤ intMax) i (fun j => (hm j).1) ?_
  obtain ⟨hLe, hMax⟩ := hm i
  have hNe := hMax rfl
  simp only [Mipscpu.tick, intMax] at hLe hNe ⊢
  bv_omega

theorem writetlb_randomBelowMax (ix : Int) :
    Keeps (RandomBelowMax i) (fun _ => RandomBelowMax i) (writetlb b i ix : M δ Unit) :=
  (busBlind_randomBelowMax i).execBlind.writetlb i (fun _ _ hm => hm.modCpu i fun _ => rfl) ix

/-- Where the counter can be counted once more, this is so after any instruction. -/
theorem execute_randomBelowMax (insn : Word) :
    Keeps (RandomBelowMax i) (fun _ => RandomBelowMax i) (execute b i insn : M δ Unit) := by
  have hCpu : ∀ (f : Mipscpu → Mipscpu) (m : Machine δ), (∀ c, (f c).tlbrandom = c.tlbrandom) →
      RandomBelowMax i m → RandomBelowMax i (m.modCpu i f) := fun f m hf hm => hm.modCpu i hf
  refine ((busBlind_randomBelowMax i).execBlind.rules i (fun _ _ _ hm => hm)
    (fun _ _ m _ => hCpu _ m fun _ => rfl)
    (fun _ _ _ _ m => hCpu _ m fun _ => rfl) (fun _ _ _ m => hCpu _ m fun _ => rfl)
    (fun c0 m _ => hCpu _ m fun _ => by cases c0 <;> rfl) ?_
    (fun _ _ m => hCpu _ m fun _ => rfl) (fun m => hCpu _ m fun _ => rfl)
    (writetlb_randomBelowMax i) (fun _ _ m _ => hCpu _ m fun _ => rfl)).execute
  exact fun m hm => RandomNonneg.reduceRandom i fun j => (hm j).1

/-- An instruction that uses the counter may do so when it is as large as it gets. -/
theorem execute_randomNonneg {insn : Word} {t : Machine δ} (ht : RandomNonneg t)
    (hUser : (t.mycpus i).currentUsermode = false) (hUse : IsTlbwr insn ∨ ReadsRandom insn) :
    After (execute b i insn) (fun _ => RandomBelowMax i) (fun _ => RandomBelowMax i) t := by
  have hReduced := ht.reduceRandom i
  obtain hOp | hOp := hUse
  · rw [after_execute_tlbwr i hOp hUser]
    exact writetlb_randomBelowMax i _ _ hReduced
  · rw [after_execute_readsRandom i hOp hUser]
    exact hReduced.modCpu i fun _ => rfl

/-! ## Runs -/

/-- A counter at its maximum is brought down by the instruction that is executed. -/
def RandomCounts (b : Board δ) (m : Machine δ) (a : Act δ) (_ : Machine δ) : Prop :=
  ∀ i insn t, a = .turn i → (issue b i).run m = .ok (.insn insn) t →
    (t.mycpus i).tlbrandom = intMax →
    (t.mycpus i).currentUsermode = false ∧ (IsTlbwr insn ∨ ReadsRandom insn)

theorem step_randomNonneg {m m' : Machine δ} {a : Act δ} (hm : RandomNonneg m)
    (hCounts : RandomCounts b m a m') (hStep : Step b m a m') : RandomNonneg m' := by
  refine busBlind_randomNonneg.step (fun _ _ _ hm => hm) (fun _ _ hm => hm) hm (fun i ha => ?_) hStep
  refine busBlind_randomNonneg.cpuTurn i (J := RandomBelowMax i) (fun m hm => hm.tick i) m hm ?_
  intro insn t hIssue ht
  by_cases hMax : (t.mycpus i).tlbrandom = intMax
  · obtain ⟨hUser, hUse⟩ := hCounts i insn t ha hIssue hMax
    exact execute_randomNonneg i ht hUser hUse
  · refine execute_randomBelowMax i insn t fun j => ⟨ht j, ?_⟩
    rintro rfl
    exact hMax

/-- The index that the counter stands for. -/
theorem exists_random_index {c : Mipscpu} (h : c.tlbrandom ≤ intMax) :
    ∃ n : Nat, 8 ≤ n ∧ n ≤ 63 ∧ c.reduceRandom.tlbrandom.toInt + randregOffset = n ∧
      c.reduceRandom.mfc0 .random = some (BitVec.ofNat 32 n <<< 8) := by
  have hLt := reduceRandom_lt h
  generalize hr : c.reduceRandom.tlbrandom = r at hLt
  have hNat : r.toNat < 56 := hLt
  refine ⟨r.toNat + 8, by omega, by omega, ?_, ?_⟩
  · rw [BitVec.toInt_eq_toNat_of_lt (by omega)]
    simp [randregOffset]
  · simp only [Mipscpu.mfc0, hr, randregOffset]
    congr 2

/-- In a run from start-up that counts no counter past its range, each TLBWR writes an entry between
8 and 63 and each read of RANDOM yields such an index. -/
theorem random_in_range {devices : δ} {gdbReady : Bool} {m : Machine δ}
    {p : List (Act δ × Machine δ)} (hRun : Path (Step b) (machineInit devices gdbReady) p m)
    (hCounts : AllSteps (RandomCounts b) (machineInit devices gdbReady) p) :
    ∀ i insn t, (issue b i).run m = .ok (.insn insn) t → (t.mycpus i).currentUsermode = false →
      (IsTlbwr insn → ∃ n : Nat, 8 ≤ n ∧ n ≤ 63 ∧
        After (execute b i insn) (fun _ u => (u.mycpus i).tlb =
          Function.update (t.mycpus i).tlb n (t.mycpus i).tlbentry) (fun _ _ => False) t) ∧
      (ReadsRandom insn → ∃ n : Nat, 8 ≤ n ∧ n ≤ 63 ∧
        After (execute b i insn) (fun _ u => (u.mycpus i).r (rt insn) = BitVec.ofNat 32 n <<< 8)
          (fun _ _ => False) t) := by
  have hStates := hRun.allStates_of_allSteps (P := RandomNonneg)
    (fun _ _ _ hm hMeets hStep => step_randomNonneg hm hMeets hStep)
    (fun _ => (by decide : (randregMax - 1 : Word) ≤ intMax)) hCounts
  have hm := hRun.last_state hStates
  intro i insn t hIssue hUser
  have ht : RandomNonneg t := after_of_run_ok (busBlind_randomNonneg.issue i m hm) hIssue
  obtain ⟨n, hLow, hHigh, hIndex, hRead⟩ := exists_random_index (ht i)
  constructor
  · intro hOp
    refine ⟨n, hLow, hHigh, ?_⟩
    rw [after_execute_tlbwr i hOp hUser]
    unfold mxTlbwr
    rw [after_bind, after_modCpu, after_bind, after_getCpu, Machine.modCpu_mycpus_self, hIndex]
    refine (after_writetlb i (by simp only [ntlb]; omega) _).mono ?_ fun _ _ h => h
    rintro _ u ⟨hTlbs, -⟩
    rw [hTlbs, Function.update_self, Machine.modCpu_mycpus_self]
    rfl
  · intro hOp
    refine ⟨n, hLow, hHigh, ?_⟩
    rw [after_execute_readsRandom i hOp hUser, hRead]
    simp

/-- `TLBWR`. -/
def tlbwrWord : Word := 0x42000006

/-- The kernel's first instruction is TLBWR. -/
theorem random_in_range_first : ∃ m t : Machine Unit,
    (issue bareBoard 0).run m = .ok (.insn tlbwrWord) t ∧ ∃ n : Nat, 8 ≤ n ∧ n ≤ 63 ∧
      After (execute bareBoard 0 tlbwrWord) (fun _ u => (u.mycpus 0).tlb =
        Function.update (t.mycpus 0).tlb n (t.mycpus 0).tlbentry) (fun _ _ => False) t := by
  obtain ⟨m, hPoke, m', hEntry, t, hIssue, hUser⟩ : ∃ m,
      Step bareBoard (machineInit () false) (.poke 0 tlbwrWord) m ∧ ∃ m',
      Step bareBoard m (.setEntrypoint 0 kseg0) m' ∧ ∃ t,
      (issue bareBoard 0).run m' = .ok (.insn tlbwrWord) t ∧
      (t.mycpus 0).currentUsermode = false :=
    ⟨_, ⟨trivial, rfl⟩, _, ⟨bareBoard.ncpus_pos, rfl⟩, _, rfl, rfl⟩
  have hTlbwr : IsTlbwr tlbwrWord := ⟨⟨rfl, rfl, by decide⟩, rfl⟩
  exact ⟨m', t, hIssue, (random_in_range (.cons hPoke (.cons hEntry (.nil _)))
    ⟨nofun, nofun, trivial⟩ 0 tlbwrWord t hIssue hUser).1 hTlbwr⟩

/-! ## A counter counted past its range -/

/-- `SYSCALL`. -/
def syscallWord : Word := 0x0000000c

/-- The kernel is at its exception vector, and finds a system call there. -/
structure Looping (random : Word) (c : Mipscpu) (ram : BitVec 30 → Word) : Prop where
  state : c.state = .running
  mode : c.currentUsermode = false
  irqon : c.currentIrqon = false
  bootvectors : c.statusBootvectors = 0
  jumping : c.jumping = false
  nextpc : c.nextpc = 0x80000084
  pcpage : c.pcpage = some (.ram 0)
  pcoff : c.pcoff = 0x80
  random : c.tlbrandom = random
  insn : ram 0x20 = syscallWord

/-- What is left of a cpu that has gone on within a page. -/
def Mipscpu.issued (c : Mipscpu) : Mipscpu :=
  { { c with expc := c.pc }.advance with nextpcoff := c.nextpcoff + 4, hitBreakpoint := false }

theorem after_issue_inline {m : Machine δ} {page : Page} {insn : Word}
    (hState : (m.mycpus i).state = .running) (hIrqon : (m.mycpus i).currentIrqon = false)
    (hJumping : (m.mycpus i).jumping = false) (hPage : (m.mycpus i).pcpage = some page)
    (hInner : ((m.mycpus i).nextpc + 4) &&& 0xfff ≠ 0)
    (hInsn : busUseMap m.ram page (m.mycpus i).pcoff = insn)
    (hBreak : ¬(opm insn = .special ∧ ops insn = .break)) :
    After (issue b i)
      (fun is t => is = .insn insn ∧ t.mycpus i = (m.mycpus i).issued ∧ t.ram = m.ram)
      (fun _ _ => False) m := by
  have hStart : (m.mycpus i).startCycle b = { m.mycpus i with expc := (m.mycpus i).pc } := by
    simp [Mipscpu.startCycle, Mipscpu.updateExpc, Mipscpu.interrupted, hJumping, hIrqon]
  unfold issue countCycle
  rw [after_bind, after_getCpu, if_neg (by simp [hState]), after_bind, after_modCpu, after_bind,
    after_modify]
  obtain ⟨c, hc⟩ : ∃ c, c = { m.mycpus i with expc := (m.mycpus i).pc } := ⟨_, rfl⟩
  have hPage' : c.pcpage = some page := by rw [hc, ← hPage]
  have hInsn' : busUseMap m.ram page c.pcoff = insn := by rw [hc, ← hInsn]
  have hInner' : ¬ c.advance.nextpc &&& 0xfff = 0 := by
    rw [hc]
    exact hInner
  generalize hm₁ : Machine.countStats _ _ _ = m₁
  have hCpu : m₁.mycpus i = c := by
    rw [← hm₁, hc, ← hStart]
    exact Machine.modCpu_mycpus_self m i _
  have hRam : m₁.ram = m.ram := by rw [← hm₁]; rfl
  unfold fetch advancePc
  rw [after_bind, after_getCpu, after_bind, hCpu, hPage', after_useMap_some, hRam, hInsn',
    after_bind, after_attempt, after_bind, after_modCpu, after_bind, after_getCpu,
    Machine.modCpu_mycpus_self, hCpu, if_neg hInner', after_modCpu, if_pos rfl, after_bind,
    after_modCpu, after_bind, after_get, after_bind, after_getCpu,
    if_neg (fun h => hBreak ⟨h.1, h.2.1⟩), after_pure]
  refine ⟨rfl, ?_, hRam⟩
  rw [Machine.modCpu_mycpus_self, Machine.modCpu_mycpus_self, Machine.modCpu_mycpus_self, hCpu, hc]
  rfl

/-- Each system call comes back to the vector. -/
theorem Looping.turn {random : Word} {m : Machine Unit} (h : Looping random (m.mycpus 0) m.ram) :
    ∃ m', Step bareBoard m (.turn 0) m' ∧ Looping (random + 1) (m'.mycpus 0) m'.ram := by
  have hTurn : After (cpuTurn bareBoard 0)
      (fun _ m' => Looping (random + 1) (m'.mycpus 0) m'.ram) (fun _ _ => False) m := by
    have hWord : busUseMap m.ram (.ram 0) (m.mycpus 0).pcoff = syscallWord := by
      rw [h.pcoff]
      exact h.insn
    have hExec : execute bareBoard 0 syscallWord = raise bareBoard 0 ⟨.sys, 0, 0⟩ := rfl
    unfold cpuTurn
    rw [after_bind]
    refine (after_issue_inline 0 h.state h.irqon h.jumping h.pcpage (by rw [h.nextpc]; decide) hWord
      (by decide)).mono ?_ fun _ _ h => h
    rintro _ t ⟨rfl, hCpu, hRam⟩
    simp only [complete, retire, hExec, after_bind, after_getCpu, after_attempt, after_raise, caught,
      after_modCpu, after_ite, after_modify, after_pure]
    have hVector : ((m.mycpus 0).issued.exception bareBoard ⟨.sys, 0, 0⟩).pc = 0x80000080 := by
      simp [Mipscpu.exception, Mipscpu.exceptionRegs, Mipscpu.precomputeVector, Mipscpu.issued,
        Mipscpu.advance, h.bootvectors]
    have hNext : ∀ c : Mipscpu,
        c = ((m.mycpus 0).issued.exception bareBoard ⟨.sys, 0, 0⟩).tick →
        Looping (random + 1) c t.ram := by
      rintro c rfl
      exact {
        state := h.state
        mode := rfl
        irqon := rfl
        bootvectors := h.bootvectors
        jumping := rfl
        nextpc := by
          show ((m.mycpus 0).issued.exception bareBoard ⟨.sys, 0, 0⟩).pc + 4 = _
          rw [hVector]
          rfl
        pcpage := by
          show mapmem bareBoard
            (((m.mycpus 0).issued.exception bareBoard ⟨.sys, 0, 0⟩).pc &&& 0x1fffffff) = _
          rw [hVector]
          rfl
        pcoff := by
          show ((m.mycpus 0).issued.exception bareBoard ⟨.sys, 0, 0⟩).pc &&& 0xfff = _
          rw [hVector]
          rfl
        random := congrArg (· + 1) h.random
        insn := hRam.symm ▸ h.insn }
    have hCpu' : ((t.modCpu 0 fun c => c.exception bareBoard ⟨.sys, 0, 0⟩).modCpu 0
        Mipscpu.tick).mycpus 0 = ((m.mycpus 0).issued.exception bareBoard ⟨.sys, 0, 0⟩).tick := by
      simp only [Machine.modCpu_mycpus_self, hCpu]
    split
    · exact hNext _ hCpu'
    · exact hNext _ hCpu'
  obtain ⟨stopped, m', hRun, hLooping⟩ := exists_of_after hTurn
  exact ⟨m', step_turn bareBoard.ncpus_pos hRun, hLooping⟩

/-- The kernel clears the bit for the vectors in the ROM and makes a system call. -/
def enterLoop : List (Act Unit) :=
  [.poke 0 0x40806000, .poke 1 syscallWord, .poke 0x20 syscallWord, .setEntrypoint 0 kseg0, .turn 0,
    .turn 0]

theorem exists_looping (n : Nat) : ∃ m, Reaches bareBoard (machineInit () false) m ∧
    Looping (0x39 + BitVec.ofNat 32 n) (m.mycpus 0) m.ram := by
  induction n with
  | zero =>
    have hSeen : seen bareBoard enterLoop (machineInit () false) (fun m =>
        ((m.mycpus 0).state, (m.mycpus 0).pcpage,
          [(m.mycpus 0).currentUsermode, (m.mycpus 0).currentIrqon, (m.mycpus 0).jumping],
          [(m.mycpus 0).statusBootvectors, (m.mycpus 0).nextpc, (m.mycpus 0).pcoff,
            (m.mycpus 0).tlbrandom, m.ram 0x20])) =
        some (.running, some (.ram 0), [false, false, false],
          [0, 0x80000084, 0x80, 0x39, syscallWord]) := by
      decide +kernel
    obtain ⟨p, m, hPath, -, hLook⟩ := path_of_seen hSeen (by decide)
    simp only [Prod.mk.injEq, List.cons.injEq, and_true] at hLook
    obtain ⟨hState, hPage, ⟨hMode, hIrqon, hJumping⟩, hBoot, hNextpc, hOff, hRandom, hInsn⟩ := hLook
    exact ⟨m, ⟨p, hPath⟩, hState, hMode, hIrqon, hBoot, hJumping, hNextpc, hPage, hOff, hRandom, hInsn⟩
  | succ n ih =>
    obtain ⟨m, ⟨p, hPath⟩, hLooping⟩ := ih
    obtain ⟨m', hStep, hLooping'⟩ := hLooping.turn
    have hCount : 0x39 + BitVec.ofNat 32 n + 1 = 0x39 + BitVec.ofNat 32 (n + 1) := by bv_omega
    rw [hCount] at hLooping'
    exact ⟨m', ⟨_, hPath.append (.cons hStep (.nil _))⟩, hLooping'⟩

/-- After 2147483594 cycles a TLBWR takes the place of the system call, and stores before the start
of the TLB. -/
theorem tlbwr_outside_table : ∃ (p : List (Act Unit × Machine Unit)) (m t : Machine Unit),
    Path (Step bareBoard) (machineInit () false) p m ∧
    (issue bareBoard 0).run m = .ok (.insn tlbwrWord) t ∧
    (t.mycpus 0).currentUsermode = false ∧ IsTlbwr tlbwrWord ∧
    (t.mycpus 0).reduceRandom.tlbrandom.toInt + randregOffset = -7 ∧
    ¬ ∃ n : Nat, 8 ≤ n ∧ n ≤ 63 ∧ After (execute bareBoard 0 tlbwrWord) (fun _ u =>
      (u.mycpus 0).tlb = Function.update (t.mycpus 0).tlb n (t.mycpus 0).tlbentry)
      (fun _ _ => False) t := by
  obtain ⟨m, ⟨p, hPath⟩, hLooping⟩ := exists_looping 2147483592
  have hIndex : (m.mycpus 0).reduceRandom.tlbrandom.toInt + randregOffset = -7 := by
    have hCounter : (m.mycpus 0).tlbrandom = 0x80000001 := hLooping.random.trans (by decide)
    simp only [Mipscpu.reduceRandom, hCounter]
    decide
  generalize hm' : { m with ram := Function.update m.ram 0x20 tlbwrWord } = m'
  have hPoke : Step bareBoard m (.poke 0x20 tlbwrWord) m' := by
    rw [← hm']
    exact ⟨trivial, rfl⟩
  have hCpu : m'.mycpus = m.mycpus := by rw [← hm']
  have hWord : m'.ram 0x20 = tlbwrWord := by
    rw [← hm']
    exact Function.update_self (0x20 : BitVec 30) tlbwrWord m.ram
  have hInsn : busUseMap m'.ram (.ram 0) (m'.mycpus 0).pcoff = tlbwrWord := by
    rw [hCpu, hLooping.pcoff]
    exact hWord
  rw [← hCpu] at hLooping hIndex
  have hIssue := after_issue_inline (b := bareBoard) 0 hLooping.state hLooping.irqon
    hLooping.jumping hLooping.pcpage (by rw [hLooping.nextpc]; decide) hInsn (by decide)
  obtain ⟨is, t, hRun, rfl, hIssued, -⟩ := exists_of_after hIssue
  have hTlbwr : IsTlbwr tlbwrWord := ⟨⟨rfl, rfl, by decide⟩, rfl⟩
  have hUser : (t.mycpus 0).currentUsermode = false := by
    rw [hIssued]
    exact hLooping.mode
  have hIndex' : (t.mycpus 0).reduceRandom.tlbrandom.toInt + randregOffset = -7 := by
    rw [hIssued]
    exact hIndex
  refine ⟨_, m', t, hPath.append (.cons hPoke (.nil _)), hRun, hUser, hTlbwr, hIndex', ?_⟩
  rintro ⟨n, -, -, hAfter⟩
  rw [after_execute_tlbwr 0 hTlbwr hUser] at hAfter
  unfold mxTlbwr writetlb at hAfter
  rw [after_bind, after_modCpu, after_bind, after_getCpu, Machine.modCpu_mycpus_self, hIndex',
    if_neg (by decide), after_throw] at hAfter
  exact hAfter

end Sys161.Mips
