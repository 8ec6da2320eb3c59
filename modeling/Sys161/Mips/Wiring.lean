import Sys161.Mips.Runs

/-!
# Interrupt wiring

The interrupt state of a cpu is kept in the bus words, in the bus's record of
the cpu, in the core and in the mask of running cpus. They agree in every state.
-/

namespace Sys161.Mips

open Exec Runs

set_option autoImplicit false

variable {δ : Type} {b : Board δ} (i : Nat)

/-! ## What looks at the cores only in the way the wiring does -/

def Mipscpu.core (c : Mipscpu) : IrqLines × CpuState × Nat := (c.toIrqLines, c.state, c.cpunum)

structure CoreBlind (I : Machine δ → Prop) : Prop where
  cpu : ∀ i (f : Mipscpu → Mipscpu) m, (∀ c, (f c).core = c.core) → I m → I (m.modCpu i f)
  ram : ∀ index val m, I m → I { m with ram := Function.update m.ram index val }
  stats : ∀ sp m, I m → I { m with sPercpu := sp }
  debugger : ∀ cycling stopped lethal ready m, I m →
    I { m with
      cpuCycling := cycling, stoppedInDebugger := stopped, stopIsLethal := lethal
      gdbReady := ready }
  hang : ∀ why m, I m → I (m.hung why)

namespace CoreBlind

variable {I : Machine δ → Prop} (h : CoreBlind I)

include h

theorem turnBlind : TurnBlind b I where
  fetchState i _ m hm := h.cpu i _ m (fun _ => rfl) hm
  exception i _ m hm := h.cpu i _ m (fun _ => rfl) hm
  vpn i _ m hm := h.cpu i _ m (fun _ => rfl) hm
  stats := h.stats
  debugger cycling stopped lethal m hm := h.debugger cycling stopped lethal m.gdbReady m hm
  hang := h.hang
  hitBreakpoint i _ m hm := h.cpu i _ m (fun _ => rfl) hm
  uncount i m hm := h.cpu i _ m (fun _ => rfl) hm

theorem domemFetch (io : BusKeeps b I fun _ => I) (vaddr : Word) (willbewrite : Bool) :
    Keeps I (fun _ => I) (domemFetch b i vaddr willbewrite) :=
  io.domemFetch i (FetchBlind.keeps_of_posted (h.turnBlind.translatemem i _ _)) fun _ =>
    FetchBlind.keeps_of_posted (h.turnBlind.keeps_raise i _)

theorem domemStore (io : IoKeeps b I fun _ => I) (vaddr val : Word) :
    Keeps I (fun _ => I) (domemStore b i vaddr val) :=
  io.domemStore i (FetchBlind.keeps_of_posted (h.turnBlind.translatemem i _ _))
    (fun _ => FetchBlind.keeps_of_posted (h.turnBlind.keeps_raise i _))
    fun index m hm => h.ram index val m hm

/-- Of an instruction only stores and WAIT are left to look at. -/
theorem rules {insn : Word} (io : BusKeeps b I fun _ => I)
    (hStore : IsStore insn → ∀ vaddr val, Keeps I (fun _ => I) (Mips.domemStore b i vaddr val))
    (hWait : ∀ m, I m → After (doWait i) (fun _ => I) (fun _ => I) m) :
    Rules b i insn I fun _ => I where
  smoke _ _ hm := hm
  undefined _ hm := hm
  raise e m hm := h.cpu i (fun c => c.exception b e) m (fun _ => rfl) hm
  reg _ _ m _ hm := h.cpu i _ m (fun _ => rfl) hm
  hilo _ _ _ _ m hm := h.cpu i _ m (fun _ => rfl) hm
  phonyException := h.turnBlind.phonyException i
  abranch := h.turnBlind.abranch i
  translatemem vaddr iswrite :=
    FetchBlind.keeps_of_posted (h.turnBlind.translatemem i vaddr iswrite)
  domemFetch := h.domemFetch i io
  domemStore := hStore
  ll _ _ _ m hm := h.cpu i _ m (fun _ => rfl) hm
  hang why m _ _ hm := h.hang why m hm
  mtc0 c0 m _ _ hm := h.cpu i (fun c => c.mtc0 _ c0) m (fun _ => by cases c0 <;> rfl) hm
  reduceRandom m _ hm := h.cpu i Mipscpu.reduceRandom m (fun _ => rfl) hm
  probetlb m _ hm := by
    unfold probetlb
    rw [after_bind, after_getCpu]
    split
    · exact h.cpu i (fun c => { c with tlbpf := true }) m (fun _ => rfl) hm
    · exact h.cpu i (fun c => { c with tlbindex := _, tlbpf := false }) m (fun _ => rfl) hm
  tlbr m _ _ _ hm := h.cpu i _ m (fun _ => rfl) hm
  writetlb ix m _ _ _ hm := by
    suffices hWrite : Keeps I (fun _ => I) (Mips.writetlb b i ix) from hWrite m hm
    refine Keeps.ite (fun _ => ?_) fun _ => Keeps.throw fun _ hm => hm
    refine Keeps.bind (fun m hm => h.cpu i _ m (fun _ => rfl) hm) fun _ => ?_
    exact Keeps.bind (FetchBlind.checkTlbDups i h.hang _) fun _ => h.turnBlind.precomputeBoth i
  doWait m _ hm := hWait m hm
  doRfe m _ _ hUser hm :=
    h.turnBlind.doRfe i (fun m _ hm => h.cpu i _ m (fun _ => rfl) hm) m hUser hm

theorem tick (m : Machine δ) (hm : I m) : I (m.modCpu i Mipscpu.tick) :=
  h.cpu i Mipscpu.tick m (fun _ => rfl) hm

theorem cpuSetEntrypoint (addr : Word) : Keeps I (fun _ => I) (cpuSetEntrypoint b i addr) :=
  h.turnBlind.cpuSetEntrypoint i h.hang (fun _ m hm => h.cpu i _ m (fun _ => rfl) hm) addr

theorem cpuSetStack (stackaddr argument : Word) :
    Keeps I (fun _ => I) (cpuSetStack i stackaddr argument : M δ Unit) :=
  fun m hm => h.cpu i _ m (fun _ => rfl) hm

end CoreBlind

/-! ## Wires -/

/-- What the bus and the core say of a cpu agrees. -/
structure CpuWired (cpu : LamebusCpu) (c : Mipscpu) (runningMask : Word) (j : Nat) : Prop where
  lamebus : c.irqLamebus = cpu.cpuInterrupting
  ipi : c.irqIpi = cpu.cpuIpi
  awake : c.state = .idle → c.irqLamebus = false ∧ c.irqIpi = false
  mask : runningMask.getLsbD j = decide (c.state = .running)
  cpunum : c.cpunum = j

def AllWired (b : Board δ) (m : Machine δ) : Prop :=
  ∀ j < b.ncpus, CpuWired (m.cpus j) (m.mycpus j) m.cpuRunningMask j

/-- The bus interrupts the cpus that have an interrupt for them. -/
def Interrupting (b : Board δ) (m : Machine δ) : Prop :=
  ∀ j < b.ncpus, (m.cpus j).cpuInterrupting = decide
    (m.busRaisedInterrupts &&& m.busEnabledInterrupts &&& (m.cpus j).cpuEnabledInterrupts ≠ 0)

theorem ncpus_lt {j : Nat} (hj : j < b.ncpus) : j < 32 := Nat.lt_of_lt_of_le hj b.ncpus_le

theorem getLsbD_bit (i j : Nat) (hj : j < 32) : (1#32 <<< i).getLsbD j = decide (j = i) := by
  rw [BitVec.getLsbD_shiftLeft, BitVec.getLsbD_one]
  by_cases h : j = i
  · simp [h]
    omega
  · simp only [h, decide_false]
    by_cases hlt : j < i
    · simp [hlt]
    · have : j - i ≠ 0 := by omega
      simp [this]

theorem getLsbD_maskOn (mask : Word) (i j : Nat) (hj : j < 32) :
    (mask ||| 1#32 <<< i).getLsbD j = (mask.getLsbD j || decide (j = i)) := by
  rw [BitVec.getLsbD_or, getLsbD_bit i j hj]

theorem getLsbD_maskOff (mask : Word) (i j : Nat) (hj : j < 32) :
    (mask &&& ~~~(1#32 <<< i)).getLsbD j = (mask.getLsbD j && !decide (j = i)) := by
  rw [BitVec.getLsbD_and, BitVec.getLsbD_not, getLsbD_bit i j hj]
  simp [hj]

theorem coreBlind_allWired : CoreBlind (AllWired (δ := δ) b) where
  cpu i f m hf hm j hj := by
    have hCore : ((m.modCpu i f).mycpus j).core = (m.mycpus j).core := by
      by_cases hji : j = i
      · subst hji
        rw [Machine.modCpu_mycpus_self, hf]
      · rw [Machine.modCpu_mycpus_ne m f hji]
    obtain ⟨hLines, hRest⟩ := Prod.mk.inj hCore
    obtain ⟨hState, hNum⟩ := Prod.mk.inj hRest
    have hj := hm j hj
    exact ⟨(congrArg IrqLines.irqLamebus hLines).trans hj.lamebus,
      (congrArg IrqLines.irqIpi hLines).trans hj.ipi,
      fun hIdle => hLines ▸ hj.awake (hState.symm.trans hIdle), by rw [hState]; exact hj.mask,
      hNum.trans hj.cpunum⟩
  ram _ _ _ hm := hm
  stats _ _ hm := hm
  debugger _ _ _ _ _ hm := hm
  hang _ _ hm := hm

/-- The core that `cpu_set_irqs` leaves. -/
def Mipscpu.setIrqs (c : Mipscpu) (lamebus ipi : Bool) : Mipscpu :=
  { c with
    irqLamebus := lamebus
    irqIpi := ipi
    state := if c.state = .idle ∧ (lamebus = true ∨ ipi = true) then .running else c.state }

section SetIrqs

variable (m : Machine δ) (lamebus ipi : Bool)

theorem cpuSetIrqs_cpus : (m.cpuSetIrqs i lamebus ipi).cpus = m.cpus := by
  unfold Machine.cpuSetIrqs
  dsimp only
  split <;> rfl

theorem cpuSetIrqs_eq_update :
    (m.cpuSetIrqs i lamebus ipi).mycpus =
      Function.update m.mycpus i ((m.mycpus i).setIrqs lamebus ipi) := by
  unfold Machine.cpuSetIrqs Mipscpu.setIrqs
  dsimp only
  split <;> rfl

theorem cpuSetIrqs_mask :
    (m.cpuSetIrqs i lamebus ipi).cpuRunningMask =
      if (m.mycpus i).state = .idle ∧ (lamebus = true ∨ ipi = true) then
        m.cpuRunningMask ||| (1#32 <<< i)
      else m.cpuRunningMask := by
  unfold Machine.cpuSetIrqs
  dsimp only
  split <;> rfl

end SetIrqs

theorem CpuWired.setIrqs {cpu cpu' : LamebusCpu} {c : Mipscpu} {mask : Word} {j : Nat} (hj : j < 32)
    (h : CpuWired cpu c mask j) : CpuWired cpu' (c.setIrqs cpu'.cpuInterrupting cpu'.cpuIpi)
      (if c.state = .idle ∧ (cpu'.cpuInterrupting = true ∨ cpu'.cpuIpi = true) then
        mask ||| (1#32 <<< j) else mask) j where
  lamebus := rfl
  ipi := rfl
  awake hIdle := by
    unfold Mipscpu.setIrqs at hIdle ⊢
    dsimp only at hIdle ⊢
    split at hIdle
    · cases hIdle
    · rename_i hSleep
      simpa [hIdle] using hSleep
  mask := by
    unfold Mipscpu.setIrqs
    dsimp only
    split
    · simp [getLsbD_maskOn _ _ _ hj]
    · exact h.mask
  cpunum := h.cpunum

/-- The bit of another cpu does not matter. -/
theorem CpuWired.maskOnIf {cpu : LamebusCpu} {c : Mipscpu} {mask : Word} {i j : Nat} (hj : j < 32)
    (hne : j ≠ i) (h : CpuWired cpu c mask j) (P : Prop) [Decidable P] :
    CpuWired cpu c (if P then mask ||| (1#32 <<< i) else mask) j := by
  split
  · exact { h with
      mask := by rw [getLsbD_maskOn _ _ _ hj, decide_eq_false hne, Bool.or_false, h.mask] }
  · exact h

/-- A cpu's record and its core are written together. -/
theorem AllWired.rewire {m : Machine δ} (hm : AllWired b m) {i : Nat} (cpu : LamebusCpu) :
    AllWired b ((m.setLamebusCpu i cpu).cpuSetIrqs i cpu.cpuInterrupting cpu.cpuIpi) := by
  intro j hj
  rw [cpuSetIrqs_cpus, cpuSetIrqs_eq_update, cpuSetIrqs_mask]
  simp only [Machine.setLamebusCpu]
  by_cases hji : j = i
  · subst hji
    rw [Function.update_self, Function.update_self]
    exact (hm j hj).setIrqs (ncpus_lt hj)
  · rw [Function.update_of_ne hji, Function.update_of_ne hji]
    exact (hm j hj).maskOnIf (ncpus_lt hj) hji _

theorem irqupdateCpu_wired (mask : Word) {m : Machine δ} (hm : AllWired b m) (i : Nat) :
    AllWired b (irqupdateCpu mask m i) := by
  unfold irqupdateCpu
  dsimp only
  split
  · exact hm.rewire { m.cpus i with cpuInterrupting := _ }
  · exact hm

/-- What `irqupdate` changes in the bus's records. -/
theorem irqupdateCpu_cpus (mask : Word) (m : Machine δ) (i : Nat) :
    (irqupdateCpu mask m i).cpus = Function.update m.cpus i
      { m.cpus i with cpuInterrupting := decide (mask &&& (m.cpus i).cpuEnabledInterrupts ≠ 0) } := by
  unfold irqupdateCpu
  dsimp only
  split
  · rw [cpuSetIrqs_cpus]
    rfl
  · rename_i hSame
    rw [not_not.mp hSame, Function.update_eq_self]

theorem irqupdate_cpus (mask : Word) (m : Machine δ) (l : List Nat) (j : Nat) :
    (l.foldl (irqupdateCpu mask) m).cpus j = if j ∈ l then
      { m.cpus j with cpuInterrupting := decide (mask &&& (m.cpus j).cpuEnabledInterrupts ≠ 0) }
    else m.cpus j := by
  induction l generalizing m with
  | nil => rfl
  | cons i l ih =>
    rw [List.foldl_cons, ih, irqupdateCpu_cpus]
    by_cases hji : j = i
    · subst hji
      simp
    · simp [hji]

theorem irqupdate_words (mask : Word) (m : Machine δ) (l : List Nat) :
    (l.foldl (irqupdateCpu mask) m).busRaisedInterrupts = m.busRaisedInterrupts ∧
      (l.foldl (irqupdateCpu mask) m).busEnabledInterrupts = m.busEnabledInterrupts := by
  induction l generalizing m with
  | nil => exact ⟨rfl, rfl⟩
  | cons i l ih =>
    rw [List.foldl_cons, (ih _).1, (ih _).2]
    unfold irqupdateCpu Machine.cpuSetIrqs
    dsimp only
    split
    · split <;> exact ⟨rfl, rfl⟩
    · exact ⟨rfl, rfl⟩

/-- Whatever the bus words have been set to, `irqupdate` brings the cpus up to date. -/
theorem irqupdate_interrupting (m : Machine δ) : Interrupting b (m.irqupdate b) := by
  intro j hj
  unfold Machine.irqupdate
  rw [(irqupdate_words _ m _).1, (irqupdate_words _ m _).2, irqupdate_cpus,
    if_pos (List.mem_range.mpr hj)]

theorem irqupdate_wired {m : Machine δ} (hm : AllWired b m) : AllWired b (m.irqupdate b) := by
  unfold Machine.irqupdate
  generalize m.busRaisedInterrupts &&& m.busEnabledInterrupts = mask
  induction List.range b.ncpus generalizing m with
  | nil => exact hm
  | cons i l ih => exact ih (irqupdateCpu_wired mask hm i)

/-- The copies of the interrupt state agree. -/
structure Wired (b : Board δ) (m : Machine δ) : Prop where
  interrupting : Interrupting b m
  cpus : AllWired b m

theorem coreBlind_wired : CoreBlind (Wired (δ := δ) b) where
  cpu i f m hf hm := ⟨hm.1, coreBlind_allWired.cpu i f m hf hm.2⟩
  ram _ _ _ hm := ⟨hm.1, hm.2⟩
  stats _ _ hm := ⟨hm.1, hm.2⟩
  debugger _ _ _ _ _ hm := ⟨hm.1, hm.2⟩
  hang _ _ hm := ⟨hm.1, hm.2⟩

theorem Wired.irqupdate {m : Machine δ} (hm : AllWired b m) : Wired b (m.irqupdate b) :=
  ⟨irqupdate_interrupting m, irqupdate_wired hm⟩

/-- A change of the record that the core does not see. -/
theorem AllWired.setLamebusCpu {m : Machine δ} (hm : AllWired b m) {i : Nat} {cpu : LamebusCpu}
    (hInterrupting : cpu.cpuInterrupting = (m.cpus i).cpuInterrupting)
    (hIpi : cpu.cpuIpi = (m.cpus i).cpuIpi) : AllWired b (m.setLamebusCpu i cpu) := by
  intro j hj
  have hOld := hm j hj
  unfold Machine.setLamebusCpu
  by_cases hji : j = i
  · subst hji
    dsimp only
    rw [Function.update_self]
    exact { hOld with
      lamebus := hOld.lamebus.trans hInterrupting.symm, ipi := hOld.ipi.trans hIpi.symm }
  · dsimp only
    rw [Function.update_of_ne hji]
    exact hOld

theorem Interrupting.setLamebusCpu {m : Machine δ} (hm : Interrupting b m) {i : Nat}
    {cpu : LamebusCpu} (hInterrupting : cpu.cpuInterrupting = (m.cpus i).cpuInterrupting)
    (hEnabled : cpu.cpuEnabledInterrupts = (m.cpus i).cpuEnabledInterrupts) :
    Interrupting b (m.setLamebusCpu i cpu) := by
  intro j hj
  have hOld := hm j hj
  unfold Machine.setLamebusCpu
  by_cases hji : j = i
  · subst hji
    simp only [Function.update_self, hInterrupting, hEnabled]
    exact hOld
  · simp only [Function.update_of_ne hji]
    exact hOld

theorem cpuSetIrqs_words (m : Machine δ) (lamebus ipi : Bool) :
    (m.cpuSetIrqs i lamebus ipi).busRaisedInterrupts = m.busRaisedInterrupts ∧
      (m.cpuSetIrqs i lamebus ipi).busEnabledInterrupts = m.busEnabledInterrupts := by
  unfold Machine.cpuSetIrqs
  dsimp only
  split <;> exact ⟨rfl, rfl⟩

theorem Interrupting.cpuSetIrqs {m : Machine δ} (hm : Interrupting b m) (lamebus ipi : Bool) :
    Interrupting b (m.cpuSetIrqs i lamebus ipi) := by
  intro j hj
  rw [cpuSetIrqs_cpus, (cpuSetIrqs_words i m lamebus ipi).1, (cpuSetIrqs_words i m lamebus ipi).2]
  exact hm j hj

/-- The core and the mask of running cpus change state together. -/
theorem Wired.setState {m : Machine δ} (hm : Wired b m) {i : Nat} (hi : i < 32) {state : CpuState}
    (mask : Word) (hBit : mask.getLsbD i = decide (state = .running))
    (hRest : ∀ j < 32, j ≠ i → mask.getLsbD j = m.cpuRunningMask.getLsbD j)
    (hIdle : state = .idle →
      (m.mycpus i).irqLamebus = false ∧ (m.mycpus i).irqIpi = false) :
    Wired b { m.modCpu i fun c => { c with state := state } with cpuRunningMask := mask } := by
  refine ⟨hm.interrupting, fun j hj => ?_⟩
  have hOld := hm.cpus j hj
  by_cases hji : j = i
  · subst hji
    simp only [Machine.modCpu, Machine.setCpu_mycpus_self]
    exact ⟨hOld.lamebus, hOld.ipi, hIdle, hBit, hOld.cpunum⟩
  · have hSame : (m.modCpu i fun c => { c with state := state }).mycpus j = m.mycpus j :=
      Machine.modCpu_mycpus_ne m _ hji
    rw [← hSame] at hOld
    exact { hOld with mask := (hRest j (ncpus_lt hj) hji).trans hOld.mask }

theorem cpuEnable_wired {i : Nat} (hi : i < 32) :
    Keeps (Wired b) (fun _ => Wired b) (cpuEnable i : M δ Unit) := by
  intro m hm
  refine hm.setState hi (m.cpuRunningMask ||| 1#32 <<< i) ?_ (fun j hj hne => ?_) nofun
  · simp [getLsbD_maskOn _ _ _ hi]
  · simp [getLsbD_maskOn _ _ _ hj, hne]

theorem cpuDisable_wired {i : Nat} (hi : i < 32) :
    Keeps (Wired b) (fun _ => Wired b) (cpuDisable i : M δ Unit) := by
  intro m hm
  refine hm.setState hi (m.cpuRunningMask &&& ~~~(1#32 <<< i)) ?_ (fun j hj hne => ?_) nofun
  · simp [getLsbD_maskOff _ _ _ hi]
  · simp [getLsbD_maskOff _ _ _ hj, hne]

theorem doWait_wired {i : Nat} (hi : i < b.ncpus) :
    Keeps (Wired b) (fun _ => Wired b) (doWait i : M δ Unit) := by
  refine keeps_getCpu_bind i fun m hm => ?_
  split
  · rename_i hQuiet
    rw [(hm.cpus i hi).cpunum]
    simp only [Bool.and_eq_true, Bool.not_eq_true'] at hQuiet
    refine hm.setState (ncpus_lt hi) (m.cpuRunningMask &&& ~~~(1#32 <<< i)) ?_
      (fun j hj hne => ?_) fun _ => hQuiet.1
    · simp [getLsbD_maskOff _ _ _ (ncpus_lt hi)]
    · simp [getLsbD_maskOff _ _ _ hj, hne]
  · exact hm

theorem setCpue_wired (val : Word) :
    Keeps (Wired b) (fun _ => Wired b) (setCpue b val : M δ Unit) := by
  refine Keeps.forM fun j hj => Keeps.bind Keeps.get fun m => Keeps.ite (fun _ => ?_) fun _ =>
    Keeps.ite (fun _ => ?_) fun _ => Keeps.pure _
  · refine Keeps.bind (fun m hm => ?_) fun _ => cpuDisable_wired (ncpus_lt (List.mem_range.mp hj))
    exact ⟨hm.1.setLamebusCpu rfl rfl, hm.2.setLamebusCpu rfl rfl⟩
  · refine Keeps.bind (coreBlind_wired.cpuSetEntrypoint j _) fun _ => ?_
    exact Keeps.bind (coreBlind_wired.cpuSetStack j _ _) fun _ =>
      cpuEnable_wired (ncpus_lt (List.mem_range.mp hj))

theorem Wired.cipi {m : Machine δ} (hm : Wired b m) (j : Nat) (ipi : Bool) :
    Wired b ((m.setLamebusCpu j { m.cpus j with cpuIpi := ipi }).cpuSetIrqs j
      (m.cpus j).cpuInterrupting ipi) where
  interrupting := by
    have hRecord : Interrupting b (m.setLamebusCpu j { m.cpus j with cpuIpi := ipi }) :=
      hm.1.setLamebusCpu rfl rfl
    exact hRecord.cpuSetIrqs j _ _
  cpus := hm.2.rewire { m.cpus j with cpuIpi := ipi }

theorem ioKeeps_wired : IoKeeps b (Wired (δ := δ) b) fun _ => Wired b where
  smoke _ _ hm := hm
  pastCram _ hm := hm
  hang := coreBlind_wired.hang
  devices _ _ hm := ⟨hm.1, hm.2⟩
  deviceIrq slot raised m _ hm := by cases raised <;> exact Wired.irqupdate hm.2
  cram j _ m hm := ⟨hm.1.setLamebusCpu rfl rfl, hm.2.setLamebusCpu rfl rfl⟩
  cirqe j _ m _ hm := Wired.irqupdate (hm.2.setLamebusCpu rfl rfl)
  cipi j ipi m _ hm := hm.cipi j ipi
  irqe _ _ hm := Wired.irqupdate hm.2
  setCpue := setCpue_wired

/-! ## Steps -/

/-- `cpu_set_irqs` is called by the bus only, which changes its own record with it. -/
def Act.IsWiring : Act δ → Prop
  | .setIrqs _ _ _ => False
  | _ => True

theorem CoreBlind.step {I : Machine δ → Prop} (h : CoreBlind I) {m m' : Machine δ} {a : Act δ}
    (hm : I m) (hWiring : a.IsWiring) (hStep : Step b m a m')
    (hTurn : ∀ i, a = .turn i → i < b.ncpus →
      After (cpuTurn b i) (fun _ => I) (fun _ _ => True) m)
    (hIrq : ∀ slot raised, I (m.deviceIrq b slot raised))
    (hDevices : ∀ d, I { m with devices := d }) : I m' := by
  cases a with
  | turn i =>
    refine step_after hStep (E := fun _ _ => True) ?_
    simp only [Act.exec, after_bind, after_pure]
    exact hTurn i rfl hStep.1
  | raiseIrq slot => exact step_after hStep (E := fun _ _ => True) (hIrq slot true)
  | lowerIrq slot => exact step_after hStep (E := fun _ _ => True) (hIrq slot false)
  | devices d => exact step_after hStep (E := fun _ _ => True) (hDevices d)
  | setIrqs i lamebus ipi => exact hWiring.elim
  | setEntrypoint i addr => exact step_after hStep (h.cpuSetEntrypoint i addr m hm)
  | setStack i stackaddr argument => exact step_after hStep (h.cpuSetStack i stackaddr argument m hm)
  | poke index val => exact step_after hStep (E := fun _ _ => True) (h.ram index val m hm)
  | debugger cycling stopped lethal gdbReady =>
    exact step_after hStep (E := fun _ _ => True) (h.debugger cycling stopped lethal gdbReady m hm)

theorem step_wired {m m' : Machine δ} {a : Act δ} (hm : Wired b m) (hWiring : a.IsWiring)
    (hStep : Step b m a m') : Wired b m' := by
  refine coreBlind_wired.step hm hWiring hStep (fun i _ hi => ?_)
    (fun slot raised => by cases raised <;> exact Wired.irqupdate hm.2)
    fun _ => ⟨hm.1, hm.2⟩
  refine (coreBlind_wired.turnBlind (b := b)).cpuTurn i (coreBlind_wired.tick i) m hm ?_
  intro insn t _ ht
  exact (coreBlind_wired.rules i ioKeeps_wired.toBusKeeps
    (fun _ => coreBlind_wired.domemStore i ioKeeps_wired) (doWait_wired hi)).execute t ht

theorem wired_machineInit (devices : δ) (gdbReady : Bool) :
    Wired b (machineInit devices gdbReady) where
  interrupting j _ := by simp [machineInit, lamebusCpuInit]
  cpus j hj := by
    refine ⟨rfl, rfl, fun _ => ⟨rfl, rfl⟩, ?_, rfl⟩
    by_cases hj0 : j = 0
    · subst hj0
      simp [machineInit]
    · simp [machineInit, hj0]

end Sys161.Mips
