import Sys161.Lib.Blind
import Sys161.Mips.Runs
import Sys161.Mips.FetchPath

/-!
# What an instruction does not see

The timer, the random register, the wait counters and the statistics count the
cycles, and TLBHI keeps the page that was last looked up. No instruction that a
user program may execute looks at these, the interlock apart.
-/

namespace Sys161.Mips

open Exec

set_option autoImplicit false

variable {δ α : Type} {b : Board δ} {i : Nat} {w w' : Nat × Nat}

/-! ## Machines that differ in the time -/

def Mipscpu.untimed (c : Mipscpu) : Mipscpu :=
  { c with
    exCount := 0, irqTimer := false, tlbrandom := 0, lowait := 0, hiwait := 0, hitBreakpoint := false
    tlbentry := { c.tlbentry with mtVpn := 0 } }

def Machine.untimed (m : Machine δ) (i : Nat) : Machine δ :=
  { m.modCpu i Mipscpu.untimed with sPercpu := fun _ => ⟨0, 0, 0, 0, 0⟩ }

def Mipscpu.waits (c : Mipscpu) : Nat × Nat := (c.hiwait, c.lowait)

/-- The machines differ at most in the time as cpu `i` has it, the counters of which are at `w` and
`w'`. -/
structure Akin (i : Nat) (w w' : Nat × Nat) (m p : Machine δ) : Prop where
  untimed : m.untimed i = p.untimed i
  waits : (m.mycpus i).waits = w
  waits' : (p.mycpus i).waits = w'

@[simp] theorem Machine.untimed_mycpus_self (m : Machine δ) :
    (m.untimed i).mycpus i = (m.mycpus i).untimed :=
  m.modCpu_mycpus_self i _

theorem cpu_of_untimed {m p : Machine δ} (h : m.untimed i = p.untimed i) :
    (m.mycpus i).untimed = (p.mycpus i).untimed := by
  rw [← Machine.untimed_mycpus_self, h, Machine.untimed_mycpus_self]

theorem Machine.untimed_mycpus_ne (m : Machine δ) {j : Nat} (hj : j ≠ i) :
    (m.untimed i).mycpus j = m.mycpus j :=
  m.modCpu_mycpus_ne _ hj

namespace Akin

variable {m p : Machine δ} (h : Akin i w w' m p)

include h

/-- What does not look at the time is the same. -/
theorem look {β : Type} {f : Machine δ → β} (hf : ∀ m, f (m.untimed i) = f m) : f m = f p := by
  rw [← hf m, h.untimed, hf p]

theorem cpu : (m.mycpus i).untimed = (p.mycpus i).untimed := cpu_of_untimed h.untimed

theorem other {j : Nat} (hj : j ≠ i) : m.mycpus j = p.mycpus j := by
  rw [← Machine.untimed_mycpus_ne m hj, h.untimed, Machine.untimed_mycpus_ne p hj]

theorem lookCpu {β : Type} {f : Mipscpu → β} (hf : ∀ c, f c.untimed = f c) (j : Nat) :
    f (m.mycpus j) = f (p.mycpus j) := by
  by_cases hj : j = i
  · subst hj
    rw [← hf (m.mycpus j), h.cpu, hf]
  · rw [h.other hj]

/-- What is done to a machine, if it does not look at the time. -/
theorem map {f : Machine δ → Machine δ} (hf : ∀ m, (f m).untimed i = f (m.untimed i))
    (hWaits : ∀ m, ((f m).mycpus i).waits = (m.mycpus i).waits) : Akin i w w' (f m) (f p) where
  untimed := by rw [hf, h.untimed, hf]
  waits := (hWaits m).trans h.waits
  waits' := (hWaits p).trans h.waits'

omit h in
theorem untimed_setCpu (m : Machine δ) (j : Nat) (c : Mipscpu) :
    (m.setCpu j c).untimed i =
      (m.untimed i).setCpu j (if j = i then c.untimed else c) := by
  by_cases hj : j = i
  · subst hj
    simp [Machine.untimed, Machine.modCpu, Machine.setCpu]
  · simp only [Machine.untimed, Machine.modCpu, Machine.setCpu, if_neg hj,
      Function.update_of_ne (Ne.symm hj), Function.update_comm hj]

theorem setCpu {c c' : Mipscpu} (hc : c.untimed = c'.untimed) {v v' : Nat × Nat}
    (hv : c.waits = v) (hv' : c'.waits = v') : Akin i v v' (m.setCpu i c) (p.setCpu i c') where
  untimed := by rw [untimed_setCpu, untimed_setCpu, if_pos rfl, if_pos rfl, h.untimed, hc]
  waits := by rwa [Machine.setCpu_mycpus_self]
  waits' := by rwa [Machine.setCpu_mycpus_self]

theorem modCpu {f : Mipscpu → Mipscpu} (hf : ∀ c, (f c.untimed).untimed = (f c).untimed)
    (hWaits : ∀ c, (f c).waits = c.waits) (j : Nat) :
    Akin i w w' (m.modCpu j f) (p.modCpu j f) := by
  by_cases hj : j = i
  · subst hj
    refine h.setCpu ?_ ((hWaits _).trans h.waits) ((hWaits _).trans h.waits')
    rw [← hf (m.mycpus j), h.cpu, hf]
  · constructor
    · rw [Machine.modCpu, Machine.modCpu, untimed_setCpu, untimed_setCpu, if_neg hj, if_neg hj,
        h.untimed, h.other hj]
    · rw [Machine.modCpu_mycpus_ne m f (Ne.symm hj)]
      exact h.waits
    · rw [Machine.modCpu_mycpus_ne p f (Ne.symm hj)]
      exact h.waits'

theorem setLamebusCpu (j : Nat) (cpu : LamebusCpu) :
    Akin i w w' (m.setLamebusCpu j cpu) (p.setLamebusCpu j cpu) :=
  h.map (f := fun m => m.setLamebusCpu j cpu) (fun _ => rfl) fun _ => rfl

theorem cpuRunningMask (mask : Word → Word) :
    Akin i w w' { m with cpuRunningMask := mask m.cpuRunningMask }
      { p with cpuRunningMask := mask p.cpuRunningMask } :=
  h.map (f := fun m => { m with cpuRunningMask := mask m.cpuRunningMask }) (fun _ => rfl)
    fun _ => rfl

theorem cpuSetIrqs (j : Nat) (lamebus ipi : Bool) :
    Akin i w w' (m.cpuSetIrqs j lamebus ipi) (p.cpuSetIrqs j lamebus ipi) := by
  have hLines := h.modCpu (f := fun c => { c with irqLamebus := lamebus, irqIpi := ipi })
    (fun _ => rfl) (fun _ => rfl) j
  have hState : (m.mycpus j).state = (p.mycpus j).state :=
    h.lookCpu (f := Mipscpu.state) (fun _ => rfl) j
  unfold Machine.cpuSetIrqs
  dsimp only
  by_cases hIdle : (p.mycpus j).state = .idle ∧ (lamebus = true ∨ ipi = true)
  · rw [if_pos hIdle, if_pos (by rwa [hState])]
    have hRun := (hLines.modCpu (f := fun c => { c with state := .running }) (fun _ => rfl)
      (fun _ => rfl) j).cpuRunningMask fun mask => mask ||| 1#32 <<< j
    simpa [Machine.modCpu] using hRun
  · rw [if_neg hIdle, if_neg (by rwa [hState])]
    exact hLines

theorem irqupdate : Akin i w w' (m.irqupdate b) (p.irqupdate b) := by
  have hMask : m.busRaisedInterrupts &&& m.busEnabledInterrupts =
      p.busRaisedInterrupts &&& p.busEnabledInterrupts :=
    h.look (f := fun m => m.busRaisedInterrupts &&& m.busEnabledInterrupts) fun _ => rfl
  unfold Machine.irqupdate
  rw [hMask]
  generalize p.busRaisedInterrupts &&& p.busEnabledInterrupts = mask
  clear hMask
  induction List.range b.ncpus generalizing m p with
  | nil => exact h
  | cons j l ih =>
    refine ih ?_
    have hCpus : m.cpus j = p.cpus j := h.look (f := fun m => m.cpus j) fun _ => rfl
    unfold irqupdateCpu
    dsimp only
    rw [hCpus]
    split
    · exact (h.setLamebusCpu j _).cpuSetIrqs j _ _
    · exact h

theorem deviceIrq (slot : Nat) (raised : Bool) :
    Akin i w w' (m.deviceIrq b slot raised) (p.deviceIrq b slot raised) := by
  cases raised with
  | true =>
    exact (h.map (f := fun m =>
      { m with busRaisedInterrupts := m.busRaisedInterrupts ||| (1#32 <<< slot) }) (fun _ => rfl)
      fun _ => rfl).irqupdate
  | false =>
    exact (h.map (f := fun m =>
      { m with busRaisedInterrupts := m.busRaisedInterrupts &&& ~~~(1#32 <<< slot) })
      (fun _ => rfl) fun _ => rfl).irqupdate

theorem reply (slot : Nat) (ret : Reply δ α) :
    Akin i w w' (m.reply b slot ret) (p.reply b slot ret) := by
  have hDevices := h.map (f := fun m => { m with devices := ret.devices }) (fun _ => rfl)
    fun _ => rfl
  have hIrqs : ∀ {m p : Machine δ}, Akin i w w' m p →
      Akin i w w' (ret.irqs.foldl (Machine.deviceIrq b slot) m)
        (ret.irqs.foldl (Machine.deviceIrq b slot) p) := by
    induction ret.irqs with
    | nil => exact fun h => h
    | cons raised l ih => exact fun h => ih (h.deviceIrq slot raised)
  unfold Machine.reply
  dsimp only
  refine hIrqs ?_
  split
  · exact hDevices.map (f := fun m => m.hung .device) (fun _ => rfl) fun _ => rfl
  · exact hDevices

end Akin

/-! ## The primitives of the core -/

theorem blind_getCpu (j : Nat) {f : Mipscpu → M δ α} (hSame : ∀ c, f c.untimed = f c)
    (hf : ∀ c, Blind (Akin i w w') (f c)) : Blind (Akin i w w') (getCpu j >>= f) :=
  Blind.get_bind (f := fun m => f (m.mycpus j)) (fun _ _ h => h.lookCpu hSame j)
    fun m => hf (m.mycpus j)

theorem blind_modCpu (j : Nat) {f : Mipscpu → Mipscpu}
    (hf : ∀ c, (f c.untimed).untimed = (f c).untimed) (hWaits : ∀ c, (f c).waits = c.waits) :
    Blind (Akin i w w') (modCpu j f : M δ Unit) :=
  Blind.modify fun _ _ h => h.modCpu hf hWaits j

theorem blind_modify {f : Machine δ → Machine δ}
    (hf : ∀ m, (f m).untimed i = f (m.untimed i))
    (hWaits : ∀ m, ((f m).mycpus i).waits = (m.mycpus i).waits) :
    Blind (Akin i w w') (modify f : M δ Unit) :=
  Blind.modify fun _ _ h => h.map hf hWaits

theorem blind_setReg (j : Nat) (rg : Reg) (val : Word) :
    Blind (Akin i w w') (setReg j rg val : M δ Unit) :=
  blind_modCpu j (fun _ => rfl) fun _ => rfl

theorem blind_raise (j : Nat) (e : Exn) : Blind (Akin i w w') (raise b j e : M δ α) :=
  Blind.bind (blind_modCpu j (fun _ => rfl) fun _ => rfl) fun _ => Blind.throw _

theorem blind_hang (why : Hang) : Blind (Akin i w w') (hang why : M δ Unit) :=
  blind_modify (f := fun m => m.hung why) (fun _ => rfl) fun _ => rfl

theorem blind_attempt {x : M δ Unit} (hx : Blind (Akin i w w') x) :
    Blind (Akin i w w') (attempt x) := by
  refine Blind.tryCatch (Blind.bind hx fun _ => Blind.pure _) fun e => ?_
  cases e with
  | exception => exact Blind.pure _
  | smoke | undefined => exact Blind.throw _

theorem blind_useMap (page : Option Page) (pageoffset : Word) :
    Blind (Akin i w w') (useMap page pageoffset : M δ Word) := by
  cases page with
  | none => exact Blind.throw _
  | some page =>
    refine Blind.get_bind (fun m p h => ?_) fun _ => Blind.pure _
    have hRam : m.ram = p.ram := h.look fun _ => rfl
    rw [hRam]

/-! ## Translations and the fetch position -/

theorem untimed_translated (c : Mipscpu) (vaddr : Word) (iswrite : Bool) :
    (c.translated vaddr iswrite).untimed = c.untimed := by
  obtain h | h := translated_eq c vaddr iswrite <;> rw [h]
  rfl

theorem waits_translated (c : Mipscpu) (vaddr : Word) (iswrite : Bool) :
    (c.translated vaddr iswrite).waits = c.waits := by
  obtain h | h := translated_eq c vaddr iswrite <;> rw [h]
  rfl

theorem run_translatemem (j : Nat) (m : Machine δ) (vaddr : Word) (iswrite : Bool) :
    (translatemem b j vaddr iswrite).run m =
      match (m.mycpus j).mapping.translate vaddr iswrite with
      | .ok paddr => .ok paddr (m.setCpu j ((m.mycpus j).translated vaddr iswrite))
      | .error e =>
        .error .exception (m.setCpu j (((m.mycpus j).translated vaddr iswrite).exception b e)) := by
  refine run_of_after ?_
  rw [after_translatemem]
  cases (m.mycpus j).mapping.translate vaddr iswrite with
  | ok paddr => rfl
  | error e => rfl

theorem blind_translatemem (j : Nat) (vaddr : Word) (iswrite : Bool) :
    Blind (Akin i w w') (translatemem b j vaddr iswrite) := by
  intro m p h
  have hMapping : (m.mycpus j).mapping = (p.mycpus j).mapping :=
    h.lookCpu (f := Mipscpu.mapping) (fun _ => rfl) j
  have hLooked : Akin i w w' (m.modCpu j fun c => c.translated vaddr iswrite)
      (p.modCpu j fun c => c.translated vaddr iswrite) := by
    refine h.modCpu (fun c => ?_) (fun c => waits_translated c vaddr iswrite) j
    rw [untimed_translated, untimed_translated]
    rfl
  rw [after_translatemem, run_translatemem, hMapping]
  cases (p.mycpus j).mapping.translate vaddr iswrite with
  | ok paddr => exact ⟨_, rfl, hLooked⟩
  | error e =>
    have hRaised := hLooked.modCpu (f := fun c => c.exception b e) (fun _ => rfl) (fun _ => rfl) j
    refine ⟨_, rfl, ?_⟩
    simpa [Machine.modCpu] using hRaised

theorem blind_precomputePc (j : Nat) : Blind (Akin i w w') (precomputePc b j) := by
  refine blind_getCpu j (fun _ => rfl) fun c => Blind.bind (blind_translatemem j _ _) fun _ => ?_
  refine Blind.bind (blind_modCpu j (fun _ => rfl) fun _ => rfl) fun _ => ?_
  exact Blind.ite (fun _ => blind_raise j _) fun _ => blind_modCpu j (fun _ => rfl) fun _ => rfl

theorem blind_precomputeNextpc (j : Nat) : Blind (Akin i w w') (precomputeNextpc b j) := by
  refine blind_getCpu j (fun _ => rfl) fun c => Blind.bind (blind_translatemem j _ _) fun _ => ?_
  refine Blind.bind (blind_modCpu j (fun _ => rfl) fun _ => rfl) fun _ => ?_
  exact Blind.ite (fun _ => blind_raise j _) fun _ => blind_modCpu j (fun _ => rfl) fun _ => rfl

theorem blind_phonyException (j : Nat) : Blind (Akin i w w') (phonyException b j) := by
  refine Blind.bind (blind_modCpu j (fun _ => rfl) fun _ => rfl) fun _ => ?_
  refine Blind.bind (blind_attempt (blind_precomputePc j)) fun _ => Blind.ite (fun _ => ?_)
    fun _ => Blind.throw _
  exact Blind.bind (blind_attempt (blind_precomputeNextpc j)) fun _ =>
    Blind.ite (fun _ => Blind.pure _) fun _ => Blind.throw _

theorem blind_abranch (addr : Word) : Blind (Akin i w w') (abranch b i addr) := by
  refine Blind.ite (fun _ => blind_raise i _) fun _ => ?_
  refine Blind.bind (blind_modCpu i (fun _ => rfl) fun _ => rfl) fun _ => ?_
  refine blind_getCpu i (fun _ => rfl) fun c => Blind.bind (blind_useMap _ _) fun insn => ?_
  exact Blind.ite (fun _ => blind_modCpu i (fun _ => rfl) fun _ => rfl) fun _ =>
    blind_precomputeNextpc i

theorem blind_advancePc (insn : Word) : Blind (Akin i w w') (advancePc b i insn) := by
  refine Blind.bind (blind_modCpu i (fun _ => rfl) fun _ => rfl) fun _ => ?_
  refine blind_getCpu i (fun _ => rfl) fun c => Blind.ite (fun _ => ?_) fun _ =>
    blind_modCpu i (fun _ => rfl) fun _ => rfl
  exact Blind.ite (fun _ => blind_modCpu i (fun _ => rfl) fun _ => rfl) fun _ =>
    blind_precomputeNextpc i

theorem blind_breakpoint : Blind (Akin i w w') (breakpoint b i) := by
  refine Blind.bind (blind_phonyException i) fun _ => Blind.bind ?_ fun _ => Blind.bind ?_ fun _ =>
    blind_modCpu i (fun _ => rfl) fun _ => rfl
  · exact blind_modify (fun _ => rfl) fun _ => rfl
  · exact blind_modify (fun _ => rfl) fun _ => rfl

theorem blind_fetch : Blind (Akin i w w') (fetch b i) := by
  refine blind_getCpu i (fun _ => rfl) fun c => Blind.bind (blind_useMap _ _) fun insn => ?_
  refine Blind.bind (blind_attempt (blind_advancePc insn)) fun _ => Blind.ite (fun _ => ?_)
    fun _ => Blind.pure _
  refine Blind.bind (blind_modCpu i (fun _ => rfl) fun _ => rfl) fun _ => ?_
  refine Blind.get_bind (fun m p h => ?_) fun m => blind_getCpu i (fun _ => rfl) fun c =>
    Blind.ite (fun _ => ?_) fun _ => Blind.pure _
  · have hReady : m.gdbCanhandle = p.gdbCanhandle := h.look fun _ => rfl
    rw [hReady]
  · exact Blind.bind blind_breakpoint fun _ => Blind.pure _

/-! ## The bus -/

theorem blind_cramWord (offset : Nat) :
    Blind (Akin i w w') (cramWord offset : M δ (BitVec 5)) :=
  Blind.ite (fun _ => Blind.pure _) fun _ => Blind.throw _

theorem blind_lamebusControllerFetchCpu (offset : Nat) :
    Blind (Akin i w w') (lamebusControllerFetchCpu b offset) := by
  have hPure : ∀ val, Blind (Akin i w w') (pure val : M δ (Option Word)) := fun _ => Blind.pure _
  unfold lamebusControllerFetchCpu
  refine Blind.get_bind (fun m p h => ?_) fun m => ?_
  · have hCpus : m.cpus = p.cpus := h.look fun _ => rfl
    rw [hCpus]
  · dsimp only
    refine Blind.ite (fun _ => hPure _) fun _ => Blind.ite (fun _ => ?_) fun _ => ?_
    · exact Blind.bind (blind_cramWord _) fun _ => hPure _
    · split <;> exact hPure _

theorem blind_lamebusControllerFetchConfig (cpunum offset : Nat) :
    Blind (Akin i w w') (lamebusControllerFetchConfig b cpunum offset) := by
  have hPure : ∀ val, Blind (Akin i w w') (pure val : M δ (Option Word)) := fun _ => Blind.pure _
  unfold lamebusControllerFetchConfig
  refine Blind.get_bind (fun m p h => ?_) fun m => ?_
  · have hRaised : m.busRaisedInterrupts = p.busRaisedInterrupts := h.look fun _ => rfl
    have hEnabled : m.busEnabledInterrupts = p.busEnabledInterrupts := h.look fun _ => rfl
    have hCpue : m.getCpue b = p.getCpue b := h.look fun _ => rfl
    rw [hRaised, hEnabled, hCpue]
  · split
    iterate 3 exact hPure _
    refine Blind.ite (fun _ => hPure _) fun _ => ?_
    split
    iterate 2 exact hPure _
    · exact Blind.ite (fun _ => Blind.bind (blind_hang _) fun _ => hPure _) fun _ => hPure _
    · exact hPure _
    iterate 3 exact Blind.ite (fun _ => hPure _) fun _ => hPure _
    exact hPure _

theorem blind_lamebusControllerFetch (cpunum offset : Nat) :
    Blind (Akin i w w') (lamebusControllerFetch b cpunum offset) := by
  unfold lamebusControllerFetch
  split
  · exact Blind.ite (fun _ => Blind.pure _) fun _ => blind_lamebusControllerFetchCpu _
  · exact blind_lamebusControllerFetchConfig _ _

theorem blind_hangUnless {x : M δ Unit} (hx : Blind (Akin i w w') x) :
    Blind (Akin i w w') (hangUnless x) :=
  Blind.bind (blind_attempt hx) fun _ => Blind.ite (fun _ => Blind.pure _) fun _ => blind_hang _

theorem blind_cpuSetEntrypoint (j : Nat) (addr : Word) :
    Blind (Akin i w w') (cpuSetEntrypoint b j addr) := by
  have hRest : Blind (Akin i w w') (do
      let addr := addr &&& 0xfffffffc
      modCpu j fun c =>
        { c with r := Function.update c.r 25 addr, expc := addr, pc := addr, nextpc := addr + 4 }
      hangUnless (precomputePc b j)
      hangUnless (precomputeNextpc b j)) :=
    Blind.bind (blind_modCpu j (fun _ => rfl) fun _ => rfl) fun _ =>
      Blind.bind (blind_hangUnless (blind_precomputePc j)) fun _ =>
        blind_hangUnless (blind_precomputeNextpc j)
  exact Blind.ite (fun _ => Blind.bind (blind_hang _) fun _ => hRest) fun _ => hRest

theorem blind_setCpue (val : Word) : Blind (Akin i w w') (setCpue b val) := by
  refine Blind.forM fun j _ => Blind.get_bind (fun m p h => ?_) fun m => ?_
  · have hCpus : m.cpus = p.cpus := h.look fun _ => rfl
    rw [hCpus]
  · refine Blind.ite (fun _ => ?_) fun _ => Blind.ite (fun _ => ?_) fun _ => Blind.pure _
    · refine Blind.bind (blind_modify (fun _ => rfl) fun _ => rfl) fun _ => ?_
      refine Blind.bind (blind_modCpu j (fun _ => rfl) fun _ => rfl) fun _ => ?_
      exact blind_modify (fun _ => rfl) fun _ => rfl
    · refine Blind.bind (blind_cpuSetEntrypoint j _) fun _ => ?_
      refine Blind.bind (blind_modCpu j (fun _ => rfl) fun _ => rfl) fun _ => ?_
      refine Blind.bind (blind_modCpu j (fun _ => rfl) fun _ => rfl) fun _ => ?_
      exact blind_modify (fun _ => rfl) fun _ => rfl

theorem blind_lamebusControllerStoreCpu (offset : Nat) (val : Word) :
    Blind (Akin i w w') (lamebusControllerStoreCpu b offset val) := by
  have hPure : ∀ val, Blind (Akin i w w') (pure val : M δ Bool) := fun _ => Blind.pure _
  unfold lamebusControllerStoreCpu
  refine Blind.get_bind (fun m p h => ?_) fun m => ?_
  · have hCpus : m.cpus = p.cpus := h.look fun _ => rfl
    rw [hCpus]
  · dsimp only
    refine Blind.ite (fun _ => hPure _) fun _ => Blind.ite (fun _ => ?_) fun _ => ?_
    · refine Blind.bind (blind_cramWord _) fun word => Blind.bind ?_ fun _ => hPure _
      exact Blind.modify fun _ _ h => h.setLamebusCpu _ _
    · split
      · refine Blind.bind (Blind.modify fun _ _ h => ?_) fun _ => hPure _
        exact (h.setLamebusCpu _ _).irqupdate
      · refine Blind.bind (Blind.modify fun _ _ h => ?_) fun _ => hPure _
        exact (h.setLamebusCpu _ _).cpuSetIrqs _ _ _
      · exact hPure _

theorem blind_lamebusControllerStoreConfig (offset : Nat) (val : Word) :
    Blind (Akin i w w') (lamebusControllerStoreConfig b offset val) := by
  have hPure : ∀ val, Blind (Akin i w w') (pure val : M δ Bool) := fun _ => Blind.pure _
  refine Blind.ite (fun _ => hPure _) fun _ => ?_
  split
  · exact Blind.ite (fun _ => Blind.bind (blind_hang _) fun _ => hPure _) fun _ => hPure _
  · refine Blind.bind (Blind.modify fun _ _ h => ?_) fun _ => hPure _
    exact (h.map (f := fun m => { m with busEnabledInterrupts := val }) (fun _ => rfl)
      fun _ => rfl).irqupdate
  · exact Blind.ite (fun _ => hPure _) fun _ => Blind.bind (blind_setCpue _) fun _ => hPure _
  · exact hPure _

theorem blind_lamebusControllerStore (offset : Nat) (val : Word) :
    Blind (Akin i w w') (lamebusControllerStore b offset val) := by
  unfold lamebusControllerStore
  split
  · exact Blind.ite (fun _ => Blind.pure _) fun _ => blind_lamebusControllerStoreCpu _ _
  · exact blind_lamebusControllerStoreConfig _ _

theorem blind_busIoFetch (cpunum : Nat) (offset : Word) :
    Blind (Akin i w w') (busIoFetch b cpunum offset) := by
  refine Blind.ite (fun _ => Blind.pure _) fun _ => Blind.ite (fun _ => Blind.throw _) fun _ =>
    Blind.ite (fun _ => blind_lamebusControllerFetch _ _) fun _ => ?_
  refine Blind.get_bind (fun m p h => ?_) fun m => Blind.bind ?_ fun _ => Blind.pure _
  · have hDevices : m.devices = p.devices := h.look fun _ => rfl
    rw [hDevices]
  · exact Blind.modify fun _ _ h => h.reply _ _

theorem blind_busIoStore (cpunum : Nat) (offset val : Word) :
    Blind (Akin i w w') (busIoStore b cpunum offset val) := by
  refine Blind.ite (fun _ => Blind.pure _) fun _ => Blind.ite (fun _ => Blind.throw _) fun _ =>
    Blind.ite (fun _ => blind_lamebusControllerStore _ _) fun _ => ?_
  refine Blind.get_bind (fun m p h => ?_) fun m => Blind.bind ?_ fun _ => Blind.pure _
  · have hDevices : m.devices = p.devices := h.look fun _ => rfl
    rw [hDevices]
  · exact Blind.modify fun _ _ h => h.reply _ _

theorem blind_domemFetch (vaddr : Word) (willbewrite : Bool) :
    Blind (Akin i w w') (domemFetch b i vaddr willbewrite) := by
  have hRam : ∀ offset,
      Blind (Akin i w w') (do return (← get).busMemFetch b offset : M δ (Option Word)) := by
    refine fun offset => Blind.get_bind (fun m p h => ?_) fun _ => Blind.pure _
    have hSame : m.busMemFetch b offset = p.busMemFetch b offset :=
      h.look (f := fun m => m.busMemFetch b offset) fun _ => rfl
    rw [hSame]
  refine Blind.bind (blind_translatemem i _ _) fun paddr => Blind.bind ?_ fun val => ?_
  · refine Blind.ite (fun _ => hRam _) fun _ => Blind.ite (fun _ => Blind.pure _) fun _ =>
      Blind.ite (fun _ => ?_) fun _ => hRam _
    exact blind_getCpu i (fun _ => rfl) fun _ => blind_busIoFetch _ _
  · cases val with
    | none => exact blind_raise i _
    | some val => exact Blind.pure _

theorem blind_domemStore (vaddr val : Word) : Blind (Akin i w w') (domemStore b i vaddr val) := by
  have hRam : ∀ offset, Blind (Akin i w w') (busMemStore b offset val : M δ Bool) := by
    refine fun offset => Blind.ite (fun _ => Blind.pure _) fun _ => ?_
    refine Blind.bind (blind_modify (fun _ => rfl) fun _ => rfl) fun _ => Blind.pure _
  refine Blind.bind (blind_translatemem i _ _) fun paddr => Blind.bind ?_ fun val => ?_
  · refine Blind.ite (fun _ => hRam _) fun _ => Blind.ite (fun _ => Blind.pure _) fun _ =>
      Blind.ite (fun _ => ?_) fun _ => hRam _
    exact blind_getCpu i (fun _ => rfl) fun _ => blind_busIoStore _ _ _
  · exact Blind.ite (fun _ => Blind.pure _) fun _ => blind_raise i _

/-! ## Instructions -/

/-- The instructions of the multiply unit, which look at its wait counters. -/
def UsesUnit (insn : Word) : Prop :=
  match opm insn, ops insn with
  | .special, .mfhi | .special, .mthi | .special, .mflo | .special, .mtlo => True
  | .special, .mult | .special, .multu | .special, .div | .special, .divu => True
  | _, _ => False

section Families

variable (insn : Word)

theorem blind_rdOp (f : Word → Word → Word) : Blind (Akin i w w') (rdOp i insn f : M δ Unit) :=
  blind_getCpu i (fun _ => rfl) fun _ => blind_setReg i _ _

theorem blind_rdShift (f : Word → Nat → Word) :
    Blind (Akin i w w') (rdShift i insn f : M δ Unit) :=
  blind_getCpu i (fun _ => rfl) fun _ => blind_setReg i _ _

theorem blind_rtOp (f : Word → Word) : Blind (Akin i w w') (rtOp i insn f : M δ Unit) :=
  blind_getCpu i (fun _ => rfl) fun _ => blind_setReg i _ _

theorem blind_chkovf (rg : Reg) (t64 : BitVec 64) :
    Blind (Akin i w w') (chkovf b i rg t64) :=
  Blind.ite (fun _ => blind_raise i _) fun _ => blind_setReg i _ _

theorem blind_link2 (rg : Reg) : Blind (Akin i w w') (link2 i rg : M δ Unit) :=
  blind_getCpu i (fun _ => rfl) fun _ => blind_setReg i _ _

theorem blind_ibranch (target : Word) : Blind (Akin i w w') (ibranch b i target) :=
  blind_getCpu i (fun _ => rfl) fun _ => blind_abranch _

theorem blind_branchIf (cond : Word → Word → Bool) :
    Blind (Akin i w w') (branchIf b i insn cond) :=
  blind_getCpu i (fun _ => rfl) fun _ => Blind.ite
    (fun _ => blind_getCpu i (fun _ => rfl) fun _ => blind_abranch _) fun _ => Blind.pure _

theorem blind_branchLinkIf (cond : Word → Bool) :
    Blind (Akin i w w') (branchLinkIf b i insn cond) :=
  Blind.bind (blind_link2 31) fun _ => blind_branchIf insn _

theorem blind_loadOp (ms : Memstyles) : Blind (Akin i w w') (loadOp b i insn ms) := by
  refine blind_getCpu i (fun _ => rfl) fun c => Blind.bind ?_ fun _ => blind_setReg i _ _
  cases ms <;> exact Blind.bind (blind_domemFetch _ _) fun _ => Blind.pure _

theorem blind_storeOp (ms : Memstyles) : Blind (Akin i w w') (storeOp b i insn ms) := by
  refine blind_getCpu i (fun _ => rfl) fun c => ?_
  have hModify : ∀ addr f, Blind (Akin i w w') (modifyWord b i addr f) := fun _ _ =>
    Blind.bind (blind_domemFetch _ _) fun _ => blind_domemStore _ _
  cases ms with
  | sbyte | shalf => exact Blind.throw _
  | ubyte | uhalf | wordl | wordr => exact hModify _ _

theorem blind_mxLl : Blind (Akin i w w') (mxLl b i insn) := by
  refine blind_getCpu i (fun _ => rfl) fun c => Blind.bind (blind_domemFetch _ _) fun val => ?_
  exact Blind.bind (blind_setReg i _ _) fun _ => blind_modCpu i (fun _ => rfl) fun _ => rfl

theorem blind_mxSc : Blind (Akin i w w') (mxSc b i insn) := by
  refine blind_getCpu i (fun _ => rfl) fun c => Blind.ite (fun _ => blind_setReg i _ _) fun _ => ?_
  refine Blind.bind (blind_domemFetch _ _) fun temp => Blind.ite (fun _ => blind_setReg i _ _)
    fun _ => ?_
  exact Blind.bind (blind_domemStore _ _) fun _ => blind_setReg i _ _

theorem blind_mxCache : Blind (Akin i w w') (mxCache b i insn) :=
  blind_getCpu i (fun _ => rfl) fun _ => Blind.ite (fun _ => blind_raise i _) fun _ =>
    Blind.ite (fun _ => Blind.bind (blind_translatemem i _ _) fun _ => Blind.pure _) fun _ =>
      Blind.pure _

end Families

theorem blind_executeSpecial {insn : Word} (hOp : opm insn = .special) (hUnit : ¬ UsesUnit insn) :
    Blind (Akin i w w') (executeSpecial b i insn) := by
  unfold UsesUnit at hUnit
  rw [hOp] at hUnit
  unfold executeSpecial
  cases hOps : ops insn <;> rw [hOps] at hUnit
  case mfhi | mthi | mflo | mtlo | mult | multu | div | divu => exact absurd trivial hUnit
  case sll | srl | sra => exact blind_rdShift insn _
  case jr => exact blind_getCpu i (fun _ => rfl) fun _ => blind_abranch _
  case jalr =>
    exact Blind.bind (blind_link2 _) fun _ => blind_getCpu i (fun _ => rfl) fun _ => blind_abranch _
  case syscall | «break» | ill => exact blind_raise i _
  case sync => exact Blind.pure _
  case add | sub => exact blind_getCpu i (fun _ => rfl) fun _ => blind_chkovf _ _
  all_goals exact blind_rdOp insn _

theorem blind_executeBcond (insn : Word) : Blind (Akin i w w') (executeBcond b i insn) := by
  unfold executeBcond
  split
  · exact blind_branchIf insn _
  · exact blind_branchIf insn _
  · exact blind_branchLinkIf insn _
  · exact blind_branchLinkIf insn _
  · exact blind_raise i _

/-- No instruction outside the multiply unit and the coprocessors sees the time. -/
theorem blind_execute {insn : Word} (hCop : opm insn ≠ .cop) (hUnit : ¬ UsesUnit insn) :
    Blind (Akin i w w') (execute b i insn) := by
  unfold execute
  cases hOp : opm insn
  case cop => exact absurd hOp hCop
  case special => exact blind_executeSpecial hOp hUnit
  case bcond => exact blind_executeBcond insn
  case j => exact blind_ibranch _
  case jal => exact Blind.bind (blind_link2 31) fun _ => blind_ibranch _
  case beq | bne | blez | bgtz => exact blind_branchIf insn _
  case addi => exact blind_getCpu i (fun _ => rfl) fun _ => blind_chkovf _ _
  case addiu | slti | sltiu | andi | ori | xori => exact blind_rtOp insn _
  case lui => exact blind_setReg i _ _
  case lb | lh | lwl | lbu | lhu | lwr => exact blind_loadOp insn _
  case lw =>
    exact blind_getCpu i (fun _ => rfl) fun _ => Blind.bind (blind_domemFetch _ _) fun _ =>
      blind_setReg i _ _
  case sb | sh | swl | swr => exact blind_storeOp insn _
  case sw => exact blind_getCpu i (fun _ => rfl) fun _ => blind_domemStore _ _
  case cache => exact blind_mxCache insn
  case lwc0 => exact blind_mxLl insn
  case lwc | swc | ill => exact blind_raise i _
  case swc0 => exact blind_mxSc insn

end Sys161.Mips
