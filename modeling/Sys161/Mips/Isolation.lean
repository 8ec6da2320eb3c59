import Mathlib.Logic.Relation
import Sys161.Mips.LlSc

/-!
# User mode

What an instruction can do in user mode: change the registers of its own
program, and load and store where the TLB lets it, below 0x80000000. For
anything else it has to enter the kernel.
-/

namespace Sys161.Mips

open Exec Runs

set_option autoImplicit false

variable {δ α : Type} {b : Board δ} (i : Nat)

/-! ## The program's own -/

/-- All of a cpu but the registers, the fetch position and the jump flags, the reservation, the
counters with the timer interrupt and the breakpoint flag, the random register and the page in
TLBHI. -/
def Mipscpu.guarded (c : Mipscpu) :
    TlbState × StatusReg × CauseReg × Cop0Regs × IrqLines × Word × Bool × CpuState × Nat :=
  ({ c.toTlbState with tlbentry := { c.tlbentry with mtVpn := 0 }, tlbrandom := 0 },
    c.toStatusReg, c.toCauseReg, c.toCop0Regs, c.toIrqLines, c.exCompare, c.exCompareUsed, c.state,
    c.cpunum)

/-- `I` does not look at the program's own registers, the statistics and the debugger. -/
structure OwnBlind (I : Machine δ → Prop) : Prop where
  cpu : ∀ c m, c.guarded = (m.mycpus i).guarded → I m → I (m.setCpu i c)
  stats : ∀ sp m, I m → I { m with sPercpu := sp }
  debugger : ∀ cycling stopped lethal m, I m →
    I { m with cpuCycling := cycling, stoppedInDebugger := stopped, stopIsLethal := lethal }

/-- Where the program throws, nothing is said of the state. -/
def Ends (I : Machine δ → Prop) (x : M δ α) : Prop := Keeps I (fun _ _ => True) x

theorem translated_guarded (c : Mipscpu) (vaddr : Word) (iswrite : Bool) :
    (c.translated vaddr iswrite).guarded = c.guarded := by
  obtain h | h := translated_eq c vaddr iswrite <;> rw [h]
  rfl

theorem mapping_of_guarded {c c' : Mipscpu} (h : c.guarded = c'.guarded) :
    c.mapping = c'.mapping := by
  have hTlb : c.tlb = c'.tlb := congrArg (fun g => g.1.tlb) h
  have hPid : c.tlbentry.mtPid = c'.tlbentry.mtPid := congrArg (fun g => g.1.tlbentry.mtPid) h
  have hMode : c.currentUsermode = c'.currentUsermode := congrArg (fun g => g.2.1.currentUsermode) h
  simp only [Mipscpu.mapping, hTlb, hPid, hMode]

namespace OwnBlind

variable {i} {I : Machine δ → Prop} (h : OwnBlind i I)

include h

theorem modCpu {f : Mipscpu → Mipscpu} (hf : ∀ c, (f c).guarded = c.guarded) :
    Ends I (modCpu i f : M δ Unit) := fun m hm => h.cpu _ m (hf _) hm

theorem translatemem (vaddr : Word) (iswrite : Bool) : Ends I (translatemem b i vaddr iswrite) := by
  intro m hm
  rw [after_translatemem]
  split
  · exact h.cpu _ m (translated_guarded _ _ _) hm
  · trivial

theorem precomputePc : Ends I (precomputePc b i) := by
  intro m hm
  rw [after_precomputePc]
  dsimp only
  split
  · exact h.cpu _ m (translated_guarded (m.mycpus i) (m.mycpus i).pc false) hm
  · trivial

theorem precomputeNextpc : Ends I (precomputeNextpc b i) := by
  intro m hm
  rw [after_precomputeNextpc]
  dsimp only
  split
  · exact h.cpu _ m (translated_guarded (m.mycpus i) (m.mycpus i).nextpc false) hm
  · trivial

omit h in
/-- A part that is tried and comes to its end. -/
theorem attempt {x : M δ Unit} (hx : Ends I x) (m : Machine δ) (hm : I m) :
    After (attempt x) (fun ok m' => ok = true → I m') (fun _ _ => True) m := by
  rw [after_attempt]
  refine (hx m hm).mono (fun _ _ hm' _ => hm') fun e _ _ => ?_
  cases e with
  | exception => exact nofun
  | smoke msg => trivial
  | undefined msg => trivial

theorem phonyException : Ends I (phonyException b i) := by
  refine Keeps.bind (h.modCpu fun _ => rfl) fun _ m hm => ?_
  rw [after_bind]
  refine (attempt h.precomputePc m hm).mono (fun ok m₁ hm₁ => ?_) fun _ _ _ => trivial
  rw [after_ite]
  split
  · rename_i hOk
    rw [after_bind]
    refine (attempt h.precomputeNextpc m₁ (hm₁ hOk)).mono (fun ok m₂ hm₂ => ?_) fun _ _ _ => trivial
    rw [after_ite]
    split
    · exact hm₂ ‹_›
    · trivial
  · trivial

omit h in
theorem useMap (page : Option Page) (pageoffset : Word) :
    Ends I (useMap page pageoffset : M δ Word) := by
  cases page with
  | none => exact fun _ _ => trivial
  | some page => exact fun m hm => hm

theorem abranch (addr : Word) : Ends I (abranch b i addr) := by
  refine Keeps.ite (fun _ _ _ => trivial) fun _ => Keeps.bind (h.modCpu fun _ => rfl) fun _ => ?_
  refine keeps_getCpu i fun c => Keeps.bind (useMap _ _) fun word => Keeps.ite (fun _ => ?_) fun _ =>
    h.precomputeNextpc
  exact h.modCpu fun _ => rfl

theorem advancePc (insn : Word) : Ends I (advancePc b i insn) := by
  refine Keeps.bind (h.modCpu fun _ => rfl) fun _ => keeps_getCpu i fun c =>
    Keeps.ite (fun _ => Keeps.ite (fun _ => ?_) fun _ => h.precomputeNextpc) fun _ => ?_
  · exact h.modCpu fun _ => rfl
  · exact h.modCpu fun _ => rfl

theorem breakpoint : Ends I (breakpoint b i) := by
  refine Keeps.bind h.phonyException fun _ => Keeps.bind (fun m hm => ?_) fun _ =>
    Keeps.bind (fun m hm => ?_) fun _ => h.modCpu fun _ => rfl
  · exact h.debugger false m.stoppedInDebugger m.stopIsLethal m hm
  · exact h.debugger m.cpuCycling true false m hm

/-- Where the address ahead translates. -/
theorem fetch (m : Machine δ) (hm : I m) :
    After (fetch b i) (fun is t => is ≠ .fault → I t) (fun _ _ => True) m := by
  unfold Mips.fetch
  rw [after_bind, after_getCpu, after_bind]
  refine (useMap _ _ m hm).mono (fun insn m₁ hm₁ => ?_) fun _ _ _ => trivial
  rw [after_bind]
  refine (attempt (h.advancePc (b := b) insn) m₁ hm₁).mono (fun ok m₂ hm₂ => ?_) fun _ _ _ => trivial
  rw [after_ite]
  split
  · rename_i hOk
    rw [after_bind, after_modCpu, after_bind, after_get, after_bind, after_getCpu, after_ite]
    have hHit := h.modCpu (f := fun c => { c with hitBreakpoint := false }) (fun _ => rfl) m₂ (hm₂ hOk)
    split
    · rw [after_bind]
      exact (h.breakpoint (b := b) _ hHit).mono (fun _ _ h _ => h) fun _ _ _ => trivial
    · exact fun _ => hHit
  · exact fun hFault => absurd rfl hFault

/-- Where an interrupt has been taken or not, and the address ahead translates. -/
theorem issue_started {m : Machine δ} (hState : (m.mycpus i).state = .running)
    (hm : I (m.modCpu i fun c => c.startCycle b)) :
    After (issue b i) (fun is t => is ≠ .fault → I t) (fun _ _ => True) m := by
  unfold Mips.issue countCycle
  rw [after_bind, after_getCpu, after_ite, if_neg (by simp [hState]), after_bind, after_modCpu,
    after_bind, after_modify]
  exact h.fetch _ (h.stats _ _ hm)

/-- Where no interrupt is taken and the address ahead translates. -/
theorem issue {m : Machine δ} (hm : I m)
    (hIrq : (m.mycpus i).state = .running → (m.mycpus i).updateExpc.interrupted = false) :
    After (issue b i) (fun is t => is ≠ .fault → I t) (fun _ _ => True) m := by
  by_cases hState : (m.mycpus i).state = .running
  · refine h.issue_started hState (h.cpu _ m ?_ hm)
    have hStart : (m.mycpus i).startCycle b = (m.mycpus i).updateExpc := by
      simp [Mipscpu.startCycle, hIrq hState]
    dsimp only
    rw [hStart]
    unfold Mipscpu.updateExpc
    split <;> rfl
  · unfold Mips.issue
    rw [after_bind, after_getCpu, after_ite, if_pos hState]
    exact fun _ => h.stats _ m hm

end OwnBlind

/-! ## What a program can do to its surroundings -/

/-- The addresses of the registers of the devices. -/
def IsIo (paddr : Word) : Prop := 0x1fe00000 ≤ paddr ∧ paddr < 0x20000000

/-- The program changes what is its own, or loads or stores where the TLB maps an address below
0x80000000. -/
inductive Effect (b : Board δ) (i : Nat) (mp : Mapping) : Machine δ → Machine δ → Prop where
  | own {m : Machine δ} {c : Mipscpu} : c.guarded = (m.mycpus i).guarded →
      Effect b i mp m (m.setCpu i c)
  | stats {m : Machine δ} (sp : Nat → PercpuStats) : Effect b i mp m { m with sPercpu := sp }
  | debugger {m : Machine δ} (cycling stopped lethal : Bool) : Effect b i mp m
      { m with cpuCycling := cycling, stoppedInDebugger := stopped, stopIsLethal := lethal }
  | store {m : Machine δ} {vaddr paddr : Word} {w : BitVec 30} (val : Word) : vaddr < kseg0 →
      mp.translate vaddr true = .ok paddr → ramWord b paddr = some w →
      Effect b i mp m { m with ram := Function.update m.ram w val }
  | ioFetch {m m' : Machine δ} {vaddr paddr : Word} {iswrite : Bool} {val : Option Word} :
      vaddr < kseg0 → mp.translate vaddr iswrite = .ok paddr → IsIo paddr →
      (busIoFetch b (m.mycpus i).cpunum (paddr - 0x1fe00000)).run m = .ok val m' →
      Effect b i mp m m'
  | ioStore {m m' : Machine δ} {vaddr paddr val : Word} {ok : Bool} :
      vaddr < kseg0 → mp.translate vaddr true = .ok paddr → IsIo paddr →
      (busIoStore b (m.mycpus i).cpunum (paddr - 0x1fe00000) val).run m = .ok ok m' →
      Effect b i mp m m'

def Effects (b : Board δ) (i : Nat) (mp : Mapping) : Machine δ → Machine δ → Prop :=
  Relation.ReflTransGen (Effect b i mp)

theorem ownBlind_effects (mp : Mapping) (m : Machine δ) : OwnBlind i (Effects b i mp m) where
  cpu _ _ hc hm := hm.tail (.own hc)
  stats sp _ hm := hm.tail (.stats sp)
  debugger cycling stopped lethal _ hm := hm.tail (.debugger cycling stopped lethal)

/-- As long as nothing has been stored the translations are those of the start. -/
def Looked (b : Board δ) (i : Nat) (m t : Machine δ) : Prop :=
  Effects b i (m.mycpus i).mapping m t ∧ (t.mycpus i).mapping = (m.mycpus i).mapping

theorem ownBlind_looked (m : Machine δ) : OwnBlind i (Looked b i m) where
  cpu c t hc ht := by
    refine ⟨ht.1.tail (.own hc), ?_⟩
    rw [Machine.setCpu_mycpus_self, mapping_of_guarded hc]
    exact ht.2
  stats sp _ ht := ⟨ht.1.tail (.stats sp), ht.2⟩
  debugger cycling stopped lethal _ ht := ⟨ht.1.tail (.debugger cycling stopped lethal), ht.2⟩

section Execute

variable {i} {m : Machine δ} (hUser : (m.mycpus i).currentUsermode = true)

include hUser

/-- In user mode only addresses below 0x80000000 translate. -/
theorem low_of_translate {vaddr paddr : Word} {iswrite : Bool}
    (h : (m.mycpus i).mapping.translate vaddr iswrite = .ok paddr) : vaddr < kseg0 := by
  by_contra hHigh
  have hAddr : 0x80000000 ≤ vaddr := by
    simp only [kseg0] at hHigh
    bv_omega
  unfold Mapping.translate at h
  rw [if_pos (.inl ⟨hAddr, hUser⟩)] at h
  cases h

theorem looked_fetchPhys {vaddr paddr : Word} {iswrite : Bool}
    (hTrans : (m.mycpus i).mapping.translate vaddr iswrite = .ok paddr) :
    Ends (Looked b i m) (fetchPhys b i paddr) := by
  intro t ht
  unfold fetchPhys
  rw [after_ite]
  split
  · exact ht
  rw [after_ite]
  split
  · exact ht
  rw [after_ite]
  split
  · rename_i hRom hIo
    have hMapping : BusKeeps b (fun t : Machine δ => (t.mycpus i).mapping = (m.mycpus i).mapping)
        fun _ _ => True := {
      smoke := fun _ _ _ => trivial
      pastCram := fun _ _ => trivial
      hang := fun _ _ h => h
      devices := fun _ _ h => h
      deviceIrq := fun slot raised t _ h =>
        (deviceIrq_mycpus b (g := Mipscpu.mapping) (fun _ _ _ => rfl) t slot raised i).trans h
      cram := fun _ _ _ h => h
      cirqe := fun _ _ _ _ h =>
        (irqupdate_mycpus b (g := Mipscpu.mapping) (fun _ _ _ => rfl) _ i).trans h
      cipi := fun j _ _ _ h =>
        (cpuSetIrqs_mycpus (g := Mipscpu.mapping) (fun _ _ _ => rfl) _ j _ _ i).trans h
      irqe := fun _ _ h => (irqupdate_mycpus b (g := Mipscpu.mapping) (fun _ _ _ => rfl) _ i).trans h }
    rw [after_bind, after_getCpu]
    refine (after_run (hMapping.busIoFetch _ _ t ht.2)).mono (fun val u hu => ?_) fun _ _ _ => trivial
    have hIs : IsIo paddr := ⟨by bv_omega, hIo⟩
    exact ⟨ht.1.tail (.ioFetch (low_of_translate hUser hTrans) hTrans hIs hu.2), hu.1⟩
  · exact ht

theorem looked_domemFetch (vaddr : Word) (willbewrite : Bool) :
    Ends (Looked b i m) (domemFetch b i vaddr willbewrite) := by
  intro t ht
  unfold domemFetch
  rw [after_bind, after_translatemem, ht.2]
  cases hTrans : (m.mycpus i).mapping.translate vaddr willbewrite with
  | error e => trivial
  | ok paddr =>
    dsimp only
    have hVpn := (ownBlind_looked i m).cpu _ t (translated_guarded (t.mycpus i) vaddr willbewrite) ht
    rw [after_bind]
    refine (looked_fetchPhys hUser hTrans _ hVpn).mono (fun val u hu => ?_) fun _ _ _ => trivial
    cases val with
    | none => trivial
    | some val => exact hu

/-- A store; the translations may be others after it. -/
theorem effects_domemStore (vaddr val : Word) {t : Machine δ} (ht : Looked b i m t) :
    After (domemStore b i vaddr val) (fun _ u => Effects b i (m.mycpus i).mapping m u)
      (fun _ _ => True) t := by
  unfold domemStore
  rw [after_bind, after_translatemem, ht.2]
  cases hTrans : (m.mycpus i).mapping.translate vaddr true with
  | error e => trivial
  | ok paddr =>
    dsimp only
    have hLow := low_of_translate hUser hTrans
    have hVpn := ((ownBlind_looked i m).cpu _ t (translated_guarded (t.mycpus i) vaddr true) ht).1
    suffices hStore : After (storePhys b i paddr val)
        (fun _ u => Effects b i (m.mycpus i).mapping m u) (fun _ _ => True)
        (t.setCpu i ((t.mycpus i).translated vaddr true)) by
      rw [after_bind]
      refine hStore.mono (fun ok u hu => ?_) fun _ _ _ => trivial
      cases ok with
      | true => exact hu
      | false => trivial
    unfold storePhys busMemStore
    by_cases hRam : paddr < 0x1fc00000
    · rw [if_pos hRam, after_ite]
      split
      · exact hVpn
      · rename_i hSize
        exact hVpn.tail (.store val hLow hTrans (by rw [ramWord, if_pos hRam, if_neg hSize]))
    rw [if_neg hRam, after_ite]
    split
    · exact hVpn
    rename_i hRom
    rw [after_ite]
    split
    · rename_i hIo
      rw [after_bind, after_getCpu]
      refine (after_run (after_of_forall (Q := fun _ _ => True) (E := fun _ _ => True)
        (fun _ _ => trivial) fun _ _ => trivial)).mono (fun ok u hu => ?_) fun _ _ _ => trivial
      exact hVpn.tail (.ioStore hLow hTrans ⟨by bv_omega, hIo⟩ hu.2)
    · rename_i hIo
      rw [after_ite]
      split
      · exact hVpn
      · rename_i hSize
        exact hVpn.tail (.store val hLow hTrans
          (by rw [ramWord, if_neg hRam, if_neg hIo, if_neg hSize]))

theorem rules_looked {insn : Word} (hStore : ¬ IsStore insn) :
    Rules b i insn (Looked b i m) fun _ _ => True := by
  have hOwn := ownBlind_looked (b := b) i m
  have hKernel : ∀ t, (t.mycpus i).currentUsermode = false → ¬ Looked b i m t := by
    intro t hMode ht
    have hSame : (t.mycpus i).currentUsermode = (m.mycpus i).currentUsermode :=
      congrArg Mapping.usermode ht.2
    rw [hMode, hUser] at hSame
    cases hSame
  exact {
    smoke := fun _ _ _ => trivial
    undefined := fun _ _ => trivial
    raise := fun _ _ _ => trivial
    reg := fun _ _ t _ ht => hOwn.cpu _ t rfl ht
    hilo := fun _ _ _ _ t ht => hOwn.cpu _ t rfl ht
    phonyException := hOwn.phonyException
    abranch := hOwn.abranch
    translatemem := hOwn.translatemem
    domemFetch := looked_domemFetch hUser
    domemStore := fun h => absurd h hStore
    ll := fun _ _ _ t ht => hOwn.cpu _ t rfl ht
    hang := fun _ t _ hMode ht => absurd ht (hKernel t hMode)
    mtc0 := fun _ t _ hMode ht => absurd ht (hKernel t hMode)
    reduceRandom := fun t hMode ht => absurd ht (hKernel t hMode)
    probetlb := fun t hMode ht => absurd ht (hKernel t hMode)
    tlbr := fun t _ _ hMode ht => absurd ht (hKernel t hMode)
    writetlb := fun _ t _ _ hMode ht => absurd ht (hKernel t hMode)
    doWait := fun t hMode ht => absurd ht (hKernel t hMode)
    doRfe := fun t _ _ hMode ht => absurd ht (hKernel t hMode) }

omit hUser in
theorem effects_setReg (rg : Reg) (val : Word) :
    Ends (Effects b i (m.mycpus i).mapping m) (setReg i rg val : M δ Unit) :=
  fun t ht => (ownBlind_effects i (m.mycpus i).mapping m).cpu _ t rfl ht

theorem effects_storeOp (insn : Word) (ms : Memstyles) {t : Machine δ} (ht : Looked b i m t) :
    After (storeOp b i insn ms) (fun _ u => Effects b i (m.mycpus i).mapping m u)
      (fun _ _ => True) t := by
  have hModify : ∀ addr f, After (modifyWord b i addr f)
      (fun _ u => Effects b i (m.mycpus i).mapping m u) (fun _ _ => True) t := by
    intro addr f
    unfold modifyWord
    rw [after_bind]
    exact (looked_domemFetch hUser addr true t ht).mono
      (fun wval u hu => effects_domemStore hUser addr (f wval) hu) fun _ _ _ => trivial
  unfold storeOp
  rw [after_bind, after_getCpu]
  cases ms with
  | sbyte | shalf => trivial
  | ubyte | uhalf | wordl | wordr => exact hModify _ _

theorem effects_mxSc (insn : Word) {t : Machine δ} (ht : Looked b i m t) :
    After (mxSc b i insn) (fun _ u => Effects b i (m.mycpus i).mapping m u) (fun _ _ => True) t := by
  unfold mxSc
  rw [after_bind, after_getCpu, after_ite]
  split
  · exact effects_setReg _ _ t ht.1
  rw [after_bind]
  refine (looked_domemFetch hUser _ true t ht).mono (fun temp u hu => ?_) fun _ _ _ => trivial
  rw [after_ite]
  split
  · exact effects_setReg _ _ u hu.1
  · rw [after_bind]
    exact (effects_domemStore hUser _ _ hu).mono (fun _ v hv => effects_setReg _ _ v hv)
      fun _ _ _ => trivial

/-- An instruction of user mode that comes to its end. -/
theorem effects_execute (insn : Word) {t : Machine δ} (ht : Looked b i m t) :
    After (execute b i insn) (fun _ u => Effects b i (m.mycpus i).mapping m u)
      (fun _ _ => True) t := by
  have hOps : ∀ ms, execute b i insn = storeOp b i insn ms → After (execute b i insn)
      (fun _ u => Effects b i (m.mycpus i).mapping m u) (fun _ _ => True) t := fun ms hExec => by
    rw [hExec]
    exact effects_storeOp hUser insn ms ht
  by_cases hStore : IsStore insn
  · unfold IsStore at hStore
    cases hOp : opm insn
    case sb => exact hOps .ubyte (by simp only [execute, hOp, mxSb])
    case sh => exact hOps .uhalf (by simp only [execute, hOp, mxSh])
    case swl => exact hOps .wordl (by simp only [execute, hOp, mxSwl])
    case swr => exact hOps .wordr (by simp only [execute, hOp, mxSwr])
    case sw =>
      have hExec : execute b i insn = mxSw b i insn := by simp only [execute, hOp]
      rw [hExec, mxSw, after_bind, after_getCpu]
      exact effects_domemStore hUser _ _ ht
    case swc0 =>
      have hExec : execute b i insn = mxSc b i insn := by simp only [execute, hOp]
      rw [hExec]
      exact effects_mxSc hUser insn ht
    all_goals exact absurd hStore (by simp only [hOp, not_false_eq_true])
  · exact ((rules_looked hUser hStore).execute t ht).mono (fun _ _ hu => hu.1) fun _ _ _ => trivial

end Execute

/-! ## Turns -/

/-- The cpu takes an interrupt in its turn, or ends it with an exception. -/
def EntersKernel (b : Board δ) (i : Nat) (m m' : Machine δ) : Prop :=
  (m.mycpus i).state = .running ∧ (m.mycpus i).updateExpc.interrupted = true ∨
    AtException b (m'.mycpus i) ∨ ∃ c, AtException b c ∧ m'.mycpus i = c.tick

theorem Raised.atException {P : Exn → Prop} {t u : Machine δ} (h : Raised b i P t u) :
    AtException b (u.mycpus i) := by
  obtain ⟨m, e, -, -, rfl⟩ := h
  exact ⟨m.mycpus i, e, Machine.modCpu_mycpus_self m i _⟩

theorem turn_effects {m m' : Machine δ} (hUser : (m.mycpus i).currentUsermode = true)
    {stopped : Bool} (hTurn : (cpuTurn b i).run m = .ok stopped m') :
    EntersKernel b i m m' ∨ Effects b i (m.mycpus i).mapping m m' := by
  by_cases hIrq : (m.mycpus i).state = .running ∧ (m.mycpus i).updateExpc.interrupted = true
  · exact .inl (.inl hIrq)
  have hIssue := (ownBlind_looked (b := b) i m).issue (b := b) (m := m) ⟨.refl, rfl⟩ fun hState => by
    simpa [hState] using hIrq
  obtain ⟨is, hRun, -⟩ | ⟨insn, t, u, hExec, hEnd⟩ := turn_inv hTurn
  · by_cases hFault : is = .fault
    · obtain ⟨_, _, hRaised⟩ := after_of_run_ok (issue_fault m) hRun hFault
      exact .inl (.inr (.inl (hRaised.atException i)))
    · exact .inr (after_of_run_ok hIssue hRun hFault).1
  · obtain hDone | hFaults := hExec
    · have ht := after_of_run_ok hIssue hDone.1 nofun
      have hu := after_of_run_ok (effects_execute hUser insn ht) hDone.2
      obtain ⟨sp, rfl⟩ := hEnd
      have hTick : Effects b i (m.mycpus i).mapping m (u.modCpu i Mipscpu.tick) := hu.tail (.own rfl)
      exact .inr (hTick.tail (.stats sp))
    · have hRaised := after_of_run_error (execute_posts t) hFaults.2 rfl
      exact .inl (.inr (.inr ⟨_, hRaised.atException i, hEnd.cpu⟩))

/-- Nothing is written but the program's own and the words that the TLB maps for writing. -/
structure Framed (b : Board δ) (i : Nat) (mp : Mapping) (m m' : Machine δ) : Prop where
  guarded : (m'.mycpus i).guarded = (m.mycpus i).guarded
  others : ∀ j, j ≠ i → m'.mycpus j = m.mycpus j
  ram : ∀ w, m'.ram w ≠ m.ram w → ∃ vaddr paddr, vaddr < kseg0 ∧
    mp.translate vaddr true = .ok paddr ∧ ramWord b paddr = some w
  cpuRunningMask : m'.cpuRunningMask = m.cpuRunningMask
  hangs : m'.hangs = m.hangs
  gdbReady : m'.gdbReady = m.gdbReady
  busRaisedInterrupts : m'.busRaisedInterrupts = m.busRaisedInterrupts
  busEnabledInterrupts : m'.busEnabledInterrupts = m.busEnabledInterrupts
  cpus : m'.cpus = m.cpus
  devices : m'.devices = m.devices

/-- The TLB maps no registers of devices below 0x80000000. -/
def NoRegisters (mp : Mapping) : Prop :=
  ∀ vaddr paddr iswrite, vaddr < kseg0 → mp.translate vaddr iswrite = .ok paddr → ¬ IsIo paddr

theorem Effect.framed {mp : Mapping} (hMem : NoRegisters mp) {m₀ m m' : Machine δ}
    (hm : Framed b i mp m₀ m) (h : Effect b i mp m m') : Framed b i mp m₀ m' := by
  cases h with
  | @own c hc =>
    exact { hm with
      guarded := by rw [Machine.setCpu_mycpus_self, hc, hm.guarded]
      others := fun j hj => (Machine.setCpu_mycpus_ne m c hj).trans (hm.others j hj) }
  | stats sp => exact { hm with }
  | debugger cycling stopped lethal => exact { hm with }
  | @store vaddr paddr w val hLow hTrans hWord =>
    refine { hm with ram := fun w' hw' => ?_ }
    by_cases hSame : w' = w
    · exact ⟨vaddr, paddr, hLow, hTrans, hSame ▸ hWord⟩
    · exact hm.ram w' (by simpa [hSame] using hw')
  | ioFetch hLow hTrans hIo _ => exact absurd hIo (hMem _ _ _ hLow hTrans)
  | ioStore hLow hTrans hIo _ => exact absurd hIo (hMem _ _ _ hLow hTrans)

theorem Effects.framed {mp : Mapping} (hMem : NoRegisters mp) {m m' : Machine δ}
    (h : Effects b i mp m m') : Framed b i mp m m' := by
  induction h with
  | refl => exact ⟨rfl, fun _ _ => rfl, fun _ h => absurd rfl h, rfl, rfl, rfl, rfl, rfl, rfl, rfl⟩
  | tail _ hEffect ih => exact hEffect.framed i hMem ih

/-- In its turn a cpu in user mode enters the kernel by an exception, or changes what is its own and
loads and stores where the TLB maps an address below 0x80000000; if no registers of devices are
mapped there, nothing else of the machine changes. Other addresses do not translate. -/
theorem user_isolated {m m' : Machine δ} (hUser : (m.mycpus i).currentUsermode = true)
    {stopped : Bool} (hTurn : (cpuTurn b i).run m = .ok stopped m') :
    (EntersKernel b i m m' ∨ Effects b i (m.mycpus i).mapping m m' ∧
      (NoRegisters (m.mycpus i).mapping → Framed b i (m.mycpus i).mapping m m')) ∧
    ∀ vaddr paddr iswrite, (m.mycpus i).mapping.translate vaddr iswrite = .ok paddr →
      vaddr < kseg0 := by
  constructor
  · exact (turn_effects i hUser hTurn).imp_right fun h => ⟨h, h.framed i⟩
  · exact fun _ _ _ => low_of_translate hUser

/-- The kernel maps the controller's page at 0, enters user mode and disables the cpu from there. -/
def storeCpue : List (Act Unit) :=
  [.poke 0 0x40841000, .poke 1 0x40805000, .poke 2 0x42000002, .poke 3 0x409d6000, .poke 4 0xac000e14,
    .setEntrypoint 0 kseg0, .setStack 0 2 0x1fff7700, .turn 0, .turn 0, .turn 0, .turn 0]

theorem storeCpue_run : ∃ (p : List (Act Unit × Machine Unit)) (m m' : Machine Unit),
    Path (Step bareBoard) (machineInit () false) p m ∧ Step bareBoard m (.turn 0) m' ∧
    ((m.mycpus 0).currentUsermode = true ∧ (m.mycpus 0).updateExpc.interrupted = false ∧
      (m.mycpus 0).state = .running) ∧
    (m'.mycpus 0).currentUsermode = true ∧ (m'.mycpus 0).state = .disabled := by
  have hSeen : seen bareBoard storeCpue (machineInit () false) (fun m =>
      ((m.mycpus 0).currentUsermode, (m.mycpus 0).updateExpc.interrupted, (m.mycpus 0).state)) =
      some (true, false, .running) := by
    decide +kernel
  have hSeen' : seen bareBoard (storeCpue ++ [.turn 0]) (machineInit () false) (fun m =>
      ((m.mycpus 0).currentUsermode, (m.mycpus 0).state)) = some (true, .disabled) := by
    decide +kernel
  obtain ⟨p, m, m', hPath, hStep, hLook, hLook'⟩ := step_of_seen hSeen hSeen' (by decide) (by decide)
  simp only [Prod.mk.injEq] at hLook hLook'
  exact ⟨p, m, m', hPath, hStep, hLook, hLook'⟩

theorem user_isolated_store : ∃ m m' : Machine Unit, (m.mycpus 0).currentUsermode = true ∧
    (EntersKernel bareBoard 0 m m' ∨ Effects bareBoard 0 (m.mycpus 0).mapping m m' ∧
      (NoRegisters (m.mycpus 0).mapping → Framed bareBoard 0 (m.mycpus 0).mapping m m')) ∧
    ∀ vaddr paddr iswrite, (m.mycpus 0).mapping.translate vaddr iswrite = .ok paddr →
      vaddr < kseg0 := by
  obtain ⟨p, m, m', -, hStep, ⟨hUser, -, -⟩, -, -⟩ := storeCpue_run
  obtain ⟨stopped, hTurn⟩ := cpuTurn_of_step 0 hStep
  exact ⟨m, m', hUser, user_isolated 0 hUser hTurn⟩

/-- Where the kernel has mapped the registers of the controller, user mode stops a cpu without
entering the kernel. -/
theorem user_stops_cpu : ∃ (p : List (Act Unit × Machine Unit)) (m m' : Machine Unit),
    Path (Step bareBoard) (machineInit () false) p m ∧ (m.mycpus 0).currentUsermode = true ∧
    Step bareBoard m (.turn 0) m' ∧ ¬ EntersKernel bareBoard 0 m m' ∧
    (m.mycpus 0).state = .running ∧ (m'.mycpus 0).state = .disabled ∧
    ¬ Framed bareBoard 0 (m.mycpus 0).mapping m m' := by
  obtain ⟨p, m, m', hPath, hStep, ⟨hUser, hIrq, hState⟩, hUser', hState'⟩ := storeCpue_run
  refine ⟨p, m, m', hPath, hUser, hStep, ?_, hState, hState', fun hFramed => ?_⟩
  · rintro (⟨-, hTaken⟩ | ⟨c, e, hExn⟩ | ⟨_, ⟨c, e, rfl⟩, hExn⟩)
    · rw [hIrq] at hTaken
      cases hTaken
    · rw [hExn] at hUser'
      cases hUser'
    · rw [hExn] at hUser'
      cases hUser'
  · have hSame : (m'.mycpus 0).state = (m.mycpus 0).state :=
      congrArg (fun g => g.2.2.2.2.2.2.2.1) hFramed.guarded
    rw [hState, hState'] at hSame
    cases hSame

end Sys161.Mips
