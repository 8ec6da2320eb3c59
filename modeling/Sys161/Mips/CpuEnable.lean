import Sys161.Mips.FetchPath
import Sys161.Mips.Wiring

/-!
# The record of enabled cpus

The bus's record of which cpus are enabled is written when a cpu is turned off,
and not when one is turned on. It agrees with the cores until a cpu is started.
-/

namespace Sys161.Mips

open Exec Runs

set_option autoImplicit false

variable {δ : Type} {b : Board δ} (i : Nat)

/-- The bus has a cpu as enabled exactly if it is not disabled; those in `S` are not. -/
structure EnabledAt (b : Board δ) (S : Nat → Prop) (m : Machine δ) (j : Nat) : Prop where
  enabled : j < b.ncpus → ((m.cpus j).cpuEnabled = true ↔ (m.mycpus j).state ≠ .disabled)
  live : S j → (m.mycpus j).state ≠ .disabled

def Enabled (b : Board δ) (S : Nat → Prop) (m : Machine δ) : Prop := ∀ j, EnabledAt b S m j

/-- The same, and something about the bus's flags and about where the addresses of cpu `i` lie. -/
def EnabledAnd (b : Board δ) (S : Nat → Prop) (i : Nat) (X : (Nat → Bool) → Mapping → Prop)
    (m : Machine δ) : Prop :=
  Enabled b S m ∧ X (fun j => (m.cpus j).cpuEnabled) (m.mycpus i).mapping

section Enabled

variable {S : Nat → Prop}

theorem Enabled.congr {m m' : Machine δ} (hm : Enabled b S m)
    (hCpus : ∀ j, (m'.cpus j).cpuEnabled = (m.cpus j).cpuEnabled)
    (hState : ∀ j, (m'.mycpus j).state = .disabled ↔ (m.mycpus j).state = .disabled) :
    Enabled b S m' := fun j =>
  ⟨fun hj => by rw [hCpus, (hm j).enabled hj, Ne, Ne, hState],
    fun hS h => (hm j).live hS ((hState j).mp h)⟩

theorem coreBlind_enabled : CoreBlind (Enabled (δ := δ) b S) where
  cpu i f m hf hm := by
    refine hm.congr (fun _ => rfl) fun j => ?_
    by_cases hji : j = i
    · subst hji
      have hState : (f (m.mycpus j)).state = (m.mycpus j).state :=
        congrArg (fun core => core.2.1) (hf (m.mycpus j))
      rw [Machine.modCpu_mycpus_self, hState]
    · rw [Machine.modCpu_mycpus_ne m f hji]
  ram _ _ _ hm := hm.congr (fun _ => rfl) fun _ => Iff.rfl
  stats _ _ hm := hm.congr (fun _ => rfl) fun _ => Iff.rfl
  debugger _ _ _ _ _ hm := hm.congr (fun _ => rfl) fun _ => Iff.rfl
  hang _ _ hm := hm.congr (fun _ => rfl) fun _ => Iff.rfl

/-- Interrupts wake cpus, but do not enable them. -/
theorem cpuSetIrqs_disabled_iff (m : Machine δ) (i : Nat) (lamebus ipi : Bool) (j : Nat) :
    ((m.cpuSetIrqs i lamebus ipi).mycpus j).state = .disabled ↔ (m.mycpus j).state = .disabled := by
  rw [cpuSetIrqs_eq_update]
  by_cases hji : j = i
  · subst hji
    rw [Function.update_self]
    unfold Mipscpu.setIrqs
    dsimp only
    split
    · rename_i hWake
      simp [hWake.1]
    · rfl
  · rw [Function.update_of_ne hji]

/-- An operation of the bus that leaves the flags, where the cpus are enabled, and where addresses
lie as they were. -/
structure Unenabling (m m' : Machine δ) : Prop where
  cpus : ∀ j, (m'.cpus j).cpuEnabled = (m.cpus j).cpuEnabled
  state : ∀ j, (m'.mycpus j).state = .disabled ↔ (m.mycpus j).state = .disabled
  mapping : ∀ j, (m'.mycpus j).mapping = (m.mycpus j).mapping

theorem Unenabling.trans {m m' m'' : Machine δ} (h : Unenabling m m') (h' : Unenabling m' m'') :
    Unenabling m m'' :=
  ⟨fun j => (h'.cpus j).trans (h.cpus j), fun j => (h'.state j).trans (h.state j),
    fun j => (h'.mapping j).trans (h.mapping j)⟩

theorem unenabling_cpuSetIrqs (m : Machine δ) (i : Nat) (lamebus ipi : Bool) :
    Unenabling m (m.cpuSetIrqs i lamebus ipi) where
  cpus j := by rw [cpuSetIrqs_cpus]
  state := cpuSetIrqs_disabled_iff m i lamebus ipi
  mapping j := cpuSetIrqs_mycpus (g := Mipscpu.mapping) (fun _ _ _ => rfl) m i lamebus ipi j

theorem unenabling_setLamebusCpu (m : Machine δ) (i : Nat) (cpu : LamebusCpu)
    (h : cpu.cpuEnabled = (m.cpus i).cpuEnabled) : Unenabling m (m.setLamebusCpu i cpu) where
  cpus j := by
    unfold Machine.setLamebusCpu
    by_cases hji : j = i
    · subst hji
      simpa using h
    · simp [hji]
  state _ := Iff.rfl
  mapping _ := rfl

theorem unenabling_irqupdate (m : Machine δ) : Unenabling m (m.irqupdate b) := by
  unfold Machine.irqupdate
  generalize m.busRaisedInterrupts &&& m.busEnabledInterrupts = mask
  induction List.range b.ncpus generalizing m with
  | nil => exact ⟨fun _ => rfl, fun _ => Iff.rfl, fun _ => rfl⟩
  | cons i l ih =>
    refine Unenabling.trans ?_ (ih _)
    unfold irqupdateCpu
    dsimp only
    split
    · refine Unenabling.trans ?_ (unenabling_cpuSetIrqs _ i _ _)
      exact unenabling_setLamebusCpu m i _ rfl
    · exact ⟨fun _ => rfl, fun _ => Iff.rfl, fun _ => rfl⟩

theorem Enabled.unenabling {m m' : Machine δ} (hm : Enabled b S m) (h : Unenabling m m') :
    Enabled b S m' := hm.congr h.cpus h.state

theorem unenabling_deviceIrq (m : Machine δ) (slot : Nat) (raised : Bool) :
    Unenabling m (m.deviceIrq b slot raised) := by
  have hRaised : ∀ w, Unenabling m { m with busRaisedInterrupts := w } :=
    fun _ => ⟨fun _ => rfl, fun _ => Iff.rfl, fun _ => rfl⟩
  cases raised <;> exact (hRaised _).trans (unenabling_irqupdate _)

theorem EnabledAnd.unenabling {X : (Nat → Bool) → Mapping → Prop} {m m' : Machine δ}
    (hm : EnabledAnd b S i X m) (h : Unenabling m m') : EnabledAnd b S i X m' := by
  refine ⟨hm.1.congr h.cpus h.state, ?_⟩
  rw [h.mapping, funext h.cpus]
  exact hm.2

theorem EnabledAnd.ram {X : (Nat → Bool) → Mapping → Prop} (index : BitVec 30) (val : Word)
    (m : Machine δ) (hm : EnabledAnd b S i X m) :
    EnabledAnd b S i X { m with ram := Function.update m.ram index val } :=
  hm.unenabling i ⟨fun _ => rfl, fun _ => Iff.rfl, fun _ => rfl⟩

theorem busKeeps_enabledAnd (X : (Nat → Bool) → Mapping → Prop)
    {E : Stop → Machine δ → Prop} (hE : ∀ e m, Enabled b S m → E e m) :
    BusKeeps b (EnabledAnd b S i X) E where
  smoke _ m hm := hE _ m hm.1
  pastCram m hm := hE _ m hm.1
  hang _ _ hm := hm.unenabling i ⟨fun _ => rfl, fun _ => Iff.rfl, fun _ => rfl⟩
  devices _ _ hm := hm.unenabling i ⟨fun _ => rfl, fun _ => Iff.rfl, fun _ => rfl⟩
  deviceIrq slot raised m _ hm := hm.unenabling i (unenabling_deviceIrq m slot raised)
  cram j _ m hm := hm.unenabling i (unenabling_setLamebusCpu m j { m.cpus j with cpuCram := _ } rfl)
  cirqe j val m _ hm := hm.unenabling i
    ((unenabling_setLamebusCpu m j { m.cpus j with cpuEnabledInterrupts := val } rfl).trans
      (unenabling_irqupdate _))
  cipi j ipi m _ hm := hm.unenabling i
    ((unenabling_setLamebusCpu m j { m.cpus j with cpuIpi := ipi } rfl).trans
      (unenabling_cpuSetIrqs _ j _ _))
  irqe w m hm := by
    have hWord : Unenabling m { m with busEnabledInterrupts := w } :=
      ⟨fun _ => rfl, fun _ => Iff.rfl, fun _ => rfl⟩
    exact hm.unenabling i (hWord.trans (unenabling_irqupdate _))

end Enabled

theorem enabledAnd_true (S : Nat → Prop) :
    EnabledAnd (δ := δ) b S i (fun _ _ => True) = Enabled b S := by
  funext m
  simp [EnabledAnd]

/-! ## Writes of the register that enables cpus -/

/-- The bits of a value are those of cpus that the bus has as enabled. -/
def StartsNone (b : Board δ) (val : Word) (cpus : Nat → Bool) : Prop :=
  ∀ j < b.ncpus, val.getLsbD j = true → cpus j = true

/-- No cpu in particular. -/
def anyCpu : Nat → Prop := fun _ => False

theorem setCpueCpu_enabled {val : Word} {j : Nat} (hj : j < b.ncpus) :
    Keeps (EnabledAnd b anyCpu i fun cpus _ => StartsNone b val cpus) (fun _ => Enabled b anyCpu)
      (setCpueCpu b val j) := by
  refine Keeps.get_bind fun m hm => ?_
  dsimp only
  split
  · rename_i hOff
    simp only [Bool.and_eq_true, Bool.not_eq_true'] at hOff
    refine ⟨fun k => ⟨fun hk => ?_, nofun⟩, fun k hk hBit => ?_⟩
    · have hOld := (hm.1 k).enabled hk
      by_cases hkj : k = j
      · subst hkj
        simp [Machine.setLamebusCpu, Machine.modCpu, Machine.setCpu]
      · simpa [Machine.setLamebusCpu, Machine.modCpu, Machine.setCpu, hkj] using hOld
    · have hkj : k ≠ j := by
        rintro rfl
        exact absurd (hBit.symm.trans hOff.2) (by simp)
      simpa [Machine.setLamebusCpu, Machine.modCpu, Machine.setCpu, hkj] using hm.2 k hk hBit
  · split
    · rename_i hOn
      simp only [Bool.and_eq_true, Bool.not_eq_true'] at hOn
      exact absurd ((hm.2 j hj hOn.2).symm.trans hOn.1) (by simp)
    · exact hm

theorem setCpue_enabled (val : Word) :
    Keeps (EnabledAnd b anyCpu i fun cpus _ => StartsNone b val cpus) (fun _ => Enabled b anyCpu)
      (setCpue b val) :=
  Keeps.forM fun _ hj => setCpueCpu_enabled i (List.mem_range.mp hj)

theorem raise_enabled {α : Type} (e : Exn) :
    Keeps (Enabled b anyCpu) (fun _ => Enabled b anyCpu) (raise b i e : M δ α) :=
  FetchBlind.keeps_of_posted ((coreBlind_enabled (b := b)).turnBlind.keeps_raise i e)

theorem core_translated (c : Mipscpu) (vaddr : Word) (iswrite : Bool) :
    (c.translated vaddr iswrite).core = c.core := by
  obtain h | h := translated_eq c vaddr iswrite <;> rw [h]
  rfl

theorem domemStore_enabled {vaddr val : Word} {m : Machine δ} (hm : Enabled b anyCpu m)
    (hStarts : (m.mycpus i).mapping.translate vaddr true = .ok cpueAddr →
      StartsNone b val fun j => (m.cpus j).cpuEnabled) :
    After (domemStore b i vaddr val) (fun _ => Enabled b anyCpu) (fun _ => Enabled b anyCpu) m := by
  unfold domemStore
  rw [after_bind, after_translatemem]
  split
  · rename_i paddr hPaddr
    have hTranslated : Enabled b anyCpu (m.modCpu i fun c => c.translated vaddr true) :=
      coreBlind_enabled.cpu i _ m (fun c => core_translated c vaddr true) hm
    have hRest : ∀ done m', Enabled b anyCpu m' → After (if done = true then pure () else
        raise b i ⟨.dbe, 0, 0⟩ : M δ Unit) (fun _ => Enabled b anyCpu)
        (fun _ => Enabled b anyCpu) m' := by
      intro done m' hm'
      split
      · exact hm'
      · exact raise_enabled i _ m' hm'
    rw [after_bind]
    by_cases hCpue : paddr = cpueAddr
    · subst hCpue
      refine ((busKeeps_enabledAnd i (fun cpus _ => StartsNone b val cpus)
        (E := fun _ => Enabled b anyCpu) fun _ _ h => h).storePhys i (EnabledAnd.ram i · val)
        (fun _ => setCpue_enabled i val) _ ⟨hTranslated, hStarts hPaddr⟩).mono
        (fun done m' hm' => hRest done m' hm'.1) fun _ _ h => h
    · refine ((busKeeps_enabledAnd i (fun _ _ => True) (E := fun _ => Enabled b anyCpu)
        fun _ _ h => h).storePhys i (EnabledAnd.ram i · val) (fun h => absurd h hCpue) _
        ⟨hTranslated, trivial⟩).mono (fun done m' hm' => hRest done m' hm'.1) fun _ _ h => h
  · exact coreBlind_enabled.cpu i (fun c => (c.translated vaddr true).exception b _) m
      (fun c => core_translated c vaddr true) hm

/-- What the register reads as. -/
theorem after_fetchPhys_cpue (m : Machine δ) :
    After (fetchPhys b i cpueAddr) (fun val _ => ∀ word, val = some word → word = m.getCpue b)
      (fun _ _ => True) m := by
  have hOffset : (cpueAddr - 0x1fe00000).toNat % lamebusSlotMem = 0x7e14 := by decide
  unfold fetchPhys
  rw [if_neg (by decide), if_neg (by decide), if_pos (by decide), after_bind, after_getCpu]
  unfold busIoFetch
  dsimp only
  rw [if_neg (by decide), if_neg (by decide), if_pos (by decide), hOffset]
  unfold lamebusControllerFetch
  rw [if_neg (by decide)]
  unfold lamebusControllerFetchConfig
  rw [after_bind, after_get]
  simp only [lamebusConfigSize, lamebusControllerSlot, Nat.reduceMod, Nat.reduceDiv, ne_eq,
    not_true_eq_false, if_false]
  split
  · intro word hNone
    cases hNone
  · rintro word ⟨⟩
    rfl

/-- A store reads the word first that it changes. -/
theorem domemFetch_enabled {vaddr : Word} {t : Machine δ} (ht : Enabled b anyCpu t) :
    After (domemFetch b i vaddr true) (fun word m => Enabled b anyCpu m ∧
      ((fun j => (m.cpus j).cpuEnabled) = fun j => (t.cpus j).cpuEnabled) ∧
      (m.mycpus i).mapping = (t.mycpus i).mapping ∧
      ((t.mycpus i).mapping.translate vaddr true = .ok cpueAddr → word = t.getCpue b))
      (fun _ => Enabled b anyCpu) t := by
  have hKeep : After (domemFetch b i vaddr true)
      (fun _ => EnabledAnd b anyCpu i fun cpus mp =>
        cpus = (fun j => (t.cpus j).cpuEnabled) ∧ mp = (t.mycpus i).mapping)
      (fun _ => Enabled b anyCpu) t := by
    refine (busKeeps_enabledAnd i _ fun _ _ h => h).domemFetch i (fun m hm => ?_)
      (fun e m hm => raise_enabled (α := Word) i e m hm.1) t ⟨ht, rfl, rfl⟩
    rw [after_translatemem]
    split
    · refine hm.unenabling i ⟨fun _ => rfl, fun j => ?_, fun j => ?_⟩
      · by_cases hj : j = i
        · subst hj
          have hCore := core_translated (m.mycpus j) vaddr true
          rw [Machine.setCpu_mycpus_self]
          exact iff_of_eq (congrArg (fun core => core.2.1 = CpuState.disabled) hCore)
        · rw [Machine.setCpu_mycpus_ne m _ hj]
      · by_cases hj : j = i
        · subst hj
          rw [Machine.setCpu_mycpus_self, translated_mapping]
        · rw [Machine.setCpu_mycpus_ne m _ hj]
    · exact coreBlind_enabled.cpu i (fun c => (c.translated vaddr true).exception b _) m
        (fun c => core_translated c vaddr true) hm.1
  have hWord : After (domemFetch b i vaddr true) (fun word _ =>
      (t.mycpus i).mapping.translate vaddr true = .ok cpueAddr → word = t.getCpue b)
      (fun _ _ => True) t := by
    by_cases hCpue : (t.mycpus i).mapping.translate vaddr true = .ok cpueAddr
    · unfold domemFetch
      rw [after_bind, after_translatemem, hCpue]
      dsimp only
      rw [after_bind]
      refine (after_fetchPhys_cpue i _).mono (fun val m hVal => ?_) fun _ _ h => h
      cases val with
      | none => trivial
      | some word => exact fun _ => hVal word rfl
    · exact after_of_forall (fun _ _ h => absurd h hCpue) fun _ _ => trivial
  exact (hKeep.and hWord).mono (fun _ _ h => ⟨h.1.1, h.1.2.1, h.1.2.2, h.2⟩) fun _ _ h => h.1

/-- How a store changes the word that it stores into. -/
def storeStyle (insn : Word) : Option Memstyles :=
  match opm insn with
  | .sb => some .ubyte
  | .sh => some .uhalf
  | .swl => some .wordl
  | .swr => some .wordr
  | _ => none

/-- What an instruction stores, and where, if the word that is there is `old`. -/
def storeOf (insn : Word) (c : Mipscpu) (old : Word) : Option (Word × Word) :=
  let addr := needaddr c insn
  let val := c.r (rt insn)
  match opm insn with
  | .sw => some (addr, val)
  | .swc0 => if c.llActive = true ∧ c.llAddr = addr ∧ old = c.llValue then some (addr, val) else none
  | _ => (storeStyle insn).map fun ms => (storeAddr ms addr, mergeStore ms addr val old)

/-- What an instruction stores to the register starts no cpu. -/
def StoreStartsNone (b : Board δ) (i : Nat) (insn : Word) (t : Machine δ) : Prop :=
  ∀ vaddr val, storeOf insn (t.mycpus i) (t.getCpue b) = some (vaddr, val) →
    (t.mycpus i).mapping.translate vaddr true = .ok cpueAddr →
    StartsNone b val fun j => (t.cpus j).cpuEnabled

theorem setReg_enabled (rg : Reg) (val : Word) {m : Machine δ} (hm : Enabled b anyCpu m) :
    Enabled b anyCpu (m.modCpu i fun c => { c with r := Function.update c.r rg val }) :=
  coreBlind_enabled.cpu i _ m (fun _ => rfl) hm

theorem modifyWord_enabled {vaddr : Word} {f : Word → Word} {t : Machine δ}
    (ht : Enabled b anyCpu t)
    (hStarts : (t.mycpus i).mapping.translate vaddr true = .ok cpueAddr →
      StartsNone b (f (t.getCpue b)) fun j => (t.cpus j).cpuEnabled) :
    After (modifyWord b i vaddr f) (fun _ => Enabled b anyCpu) (fun _ => Enabled b anyCpu) t := by
  unfold modifyWord
  rw [after_bind]
  refine (domemFetch_enabled i ht).mono ?_ fun _ _ h => h
  rintro word m ⟨hm, hCpus, hMapping, hWord⟩
  refine domemStore_enabled i hm fun hCpue => ?_
  rw [hMapping] at hCpue
  rw [hCpus, hWord hCpue]
  exact hStarts hCpue

theorem mxSc_enabled {insn : Word} (hOp : opm insn = .swc0) {t : Machine δ}
    (ht : Enabled b anyCpu t) (hStarts : StoreStartsNone b i insn t) :
    After (mxSc b i insn) (fun _ => Enabled b anyCpu) (fun _ => Enabled b anyCpu) t := by
  unfold mxSc
  rw [after_bind, after_getCpu]
  dsimp only
  split
  · exact setReg_enabled i _ _ ht
  · rename_i hLl
    rw [after_bind]
    refine (domemFetch_enabled i ht).mono ?_ fun _ _ h => h
    rintro word m ⟨hm, hCpus, hMapping, hWord⟩
    split
    · exact setReg_enabled i _ _ hm
    · rename_i hSame
      rw [after_bind]
      refine (domemStore_enabled i hm fun hCpue => ?_).mono
        (fun _ _ h => setReg_enabled i _ _ h) fun _ _ h => h
      rw [hMapping] at hCpue
      rw [hCpus]
      refine hStarts _ _ ?_ hCpue
      simp only [Bool.or_eq_true, Bool.not_eq_true', decide_eq_true_eq, not_or,
        Bool.not_eq_false, not_not] at hLl hSame
      rw [hWord hCpue] at hSame
      simp only [storeOf, hOp]
      rw [if_pos ⟨hLl.1, hLl.2, hSame⟩]

theorem storeOp_enabled {insn : Word} {ms : Memstyles} (hStyle : storeStyle insn = some ms)
    {t : Machine δ} (ht : Enabled b anyCpu t) (hStarts : StoreStartsNone b i insn t) :
    After (storeOp b i insn ms) (fun _ => Enabled b anyCpu) (fun _ => Enabled b anyCpu) t := by
  have hStore : ∀ old, storeOf insn (t.mycpus i) old =
      some (storeAddr ms (needaddr (t.mycpus i) insn),
        mergeStore ms (needaddr (t.mycpus i) insn) ((t.mycpus i).r (rt insn)) old) := by
    intro old
    unfold storeOf
    split
    · simp [storeStyle, *] at hStyle
    · simp [storeStyle, *] at hStyle
    · rw [hStyle]
      rfl
  unfold storeOp
  rw [after_bind, after_getCpu]
  have hModify := modifyWord_enabled i (f := mergeStore ms (needaddr (t.mycpus i) insn)
    ((t.mycpus i).r (rt insn))) ht fun hCpue => hStarts _ _ (hStore _) hCpue
  cases ms with
  | sbyte | shalf => exact ht
  | ubyte | uhalf | wordl | wordr => exact hModify

theorem execute_store_enabled {insn : Word} (hInsn : IsStore insn) {t : Machine δ}
    (ht : Enabled b anyCpu t) (hStarts : StoreStartsNone b i insn t) :
    After (execute b i insn) (fun _ => Enabled b anyCpu) (fun _ => Enabled b anyCpu) t := by
  unfold IsStore at hInsn
  unfold execute
  cases hOp : opm insn <;> simp only [hOp] at hInsn
  case sw =>
    unfold mxSw
    dsimp only
    rw [after_bind, after_getCpu]
    exact domemStore_enabled i ht fun hCpue =>
      hStarts (needaddr (t.mycpus i) insn) _ (by simp only [storeOf, hOp]) hCpue
  case swc0 => exact mxSc_enabled i hOp ht hStarts
  all_goals exact storeOp_enabled i (by simp only [storeStyle, hOp]) ht hStarts

/-- WAIT is executed by a cpu that is enabled, and leaves it so. -/
theorem doWait_enabled {m : Machine δ} (hm : Enabled b (· = i) m) :
    After (doWait i) (fun _ => Enabled b (· = i)) (fun _ => Enabled b (· = i)) m := by
  unfold doWait
  rw [after_bind, after_getCpu]
  split
  · have hLive := (hm i).live rfl
    refine hm.congr (fun _ => rfl) fun j => ?_
    by_cases hj : j = i
    · subst hj
      simp [Machine.modCpu, Machine.setCpu, hLive]
    · simp [Machine.modCpu, Machine.setCpu, hj]
  · exact hm

theorem execute_enabled {insn : Word} {t : Machine δ} (ht : Enabled b anyCpu t)
    (hLive : (t.mycpus i).state = .running) (hStarts : StoreStartsNone b i insn t) :
    After (execute b i insn) (fun _ => Enabled b anyCpu) (fun _ => Enabled b anyCpu) t := by
  by_cases hInsn : IsStore insn
  · exact execute_store_enabled i hInsn ht hStarts
  · have hIo : BusKeeps b (Enabled b (· = i)) fun _ => Enabled (δ := δ) b (· = i) := by
      have hAnd := busKeeps_enabledAnd (b := b) (S := (· = i)) i (fun _ _ => True)
        (E := fun _ => Enabled b (· = i)) fun _ _ h => h
      rwa [enabledAnd_true] at hAnd
    have hForget : ∀ m : Machine δ, Enabled b (· = i) m → Enabled b anyCpu m :=
      fun m hm j => ⟨(hm j).enabled, nofun⟩
    have ht' : Enabled b (· = i) t := by
      refine fun j => ⟨(ht j).enabled, ?_⟩
      rintro rfl
      simp [hLive]
    exact ((coreBlind_enabled.rules i hIo (fun h => absurd h hInsn)
      (fun m hm => doWait_enabled i hm)).execute t ht').mono (fun _ _ h => hForget _ h)
      fun _ _ h => hForget _ h

/-! ## Runs -/

/-- An instruction is issued on a running cpu only. -/
theorem running_of_issue {m t : Machine δ} {insn : Word}
    (h : (issue b i).run m = .ok (.insn insn) t) : (t.mycpus i).state = .running := by
  have hCore : CoreBlind fun m' : Machine δ => (m'.mycpus i).state = (m.mycpus i).state := by
    refine ⟨fun j f m' hf hm' => ?_, fun _ _ _ h => h, fun _ _ h => h, fun _ _ _ _ _ h => h,
      fun _ _ h => h⟩
    by_cases hji : i = j
    · subst hji
      rw [Machine.modCpu_mycpus_self]
      exact (congrArg (fun core => core.2.1) (hf _)).trans hm'
    · rw [Machine.modCpu_mycpus_ne m' f hji]
      exact hm'
  have hSame : (t.mycpus i).state = (m.mycpus i).state :=
    after_of_run_ok (Q := fun _ m' => (m'.mycpus i).state = (m.mycpus i).state)
      ((hCore.turnBlind (b := b)).issue i m rfl) h
  exact hSame.trans (running_of_insn h)

/-- The instruction of a turn starts no cpu. -/
def StartsNoCpu (b : Board δ) (m : Machine δ) (a : Act δ) (_ : Machine δ) : Prop :=
  ∀ i insn t, a = .turn i → (issue b i).run m = .ok (.insn insn) t → StoreStartsNone b i insn t

theorem step_enabled {m m' : Machine δ} {a : Act δ} (hm : Enabled b anyCpu m)
    (hWiring : a.IsWiring) (hStarts : StartsNoCpu b m a m') (hStep : Step b m a m') :
    Enabled b anyCpu m' := by
  refine coreBlind_enabled.step hm hWiring hStep (fun i ha _ => ?_)
    (fun slot raised => hm.unenabling (unenabling_deviceIrq m slot raised))
    fun _ => hm.unenabling ⟨fun _ => rfl, fun _ => Iff.rfl, fun _ => rfl⟩
  refine (coreBlind_enabled (b := b)).turnBlind.cpuTurn i (coreBlind_enabled.tick i) m hm ?_
  intro insn t hIssue ht
  exact execute_enabled i ht (running_of_issue i hIssue) (hStarts i insn t ha hIssue)

/-- In a run from start-up, by any interleaving, all the copies of the interrupt state agree; and if
no cpu is ever started by the bus, so does its record of the enabled cpus. -/
theorem wiring_agrees {devices : δ} {gdbReady : Bool} {m : Machine δ}
    {p : List (Act δ × Machine δ)} (hRun : Path (Step b) (machineInit devices gdbReady) p m)
    (hWiring : AllSteps (fun _ a _ => a.IsWiring) (machineInit devices gdbReady) p) :
    Wired b m ∧ (AllSteps (StartsNoCpu b) (machineInit devices gdbReady) p →
      ∀ j < b.ncpus, (m.cpus j).cpuEnabled = true ↔ (m.mycpus j).state ≠ .disabled) := by
  constructor
  · exact hRun.last_state (hRun.allStates_of_allSteps
      (fun _ _ _ hm hAct hStep => step_wired hm hAct hStep) (wired_machineInit devices gdbReady)
      hWiring)
  · intro hStarts
    have hStart : Enabled b anyCpu (machineInit devices gdbReady) := by
      refine fun j => ⟨fun _ => ?_, nofun⟩
      by_cases hj : j = 0 <;> simp [machineInit, lamebusCpuInit, hj]
    have hEnabled : Enabled b anyCpu m := hRun.last_state (hRun.allStates_of_allSteps
      (fun _ _ _ hm hAct hStep => step_enabled hm hAct.1 hAct.2 hStep) hStart (hWiring.and hStarts))
    exact fun j hj => (hEnabled j).enabled hj

instance (val : Word) (cpus : Nat → Bool) : Decidable (StartsNone b val cpus) :=
  inferInstanceAs (Decidable (∀ j < b.ncpus, _))

/-- What the turn stores to the register, if anything, starts no cpu. -/
def startsNoCpu (b : Board δ) (m : Machine δ) (a : Act δ) : Bool :=
  (issued b m a).all fun x =>
    (storeOf x.2.1 (x.2.2.mycpus x.1) (x.2.2.getCpue b)).all fun y =>
      decide ((x.2.2.mycpus x.1).mapping.translate y.1 true = .ok cpueAddr →
        StartsNone b y.2 fun j => (x.2.2.cpus j).cpuEnabled)

theorem of_startsNoCpu {m m' : Machine δ} {a : Act δ} (h : startsNoCpu b m a = true) :
    StartsNoCpu b m a m' := by
  rintro i insn t rfl hIssue vaddr val hStore
  rw [startsNoCpu, issued_of_run hIssue] at h
  simp only [Option.all_some, hStore] at h
  exact of_decide_eq_true h

/-- A device raises its interrupt; the first of two cpus stores 1 to the register, which is its own
bit, and then 0, which turns it off. -/
def stopFirst : List (Act Unit) :=
  [.raiseIrq 3, .poke 0 0x3c02bfff, .poke 1 0x34428000, .poke 2 0x24030001, .poke 3 0xac43fe14,
    .poke 4 0xac40fe14, .setEntrypoint 0 kseg0] ++ (List.replicate 5 [.turn 0, .turn 1]).flatten

theorem wiring_agrees_stopped : ∃ p m, Path (Step twinBoard) (machineInit () false) p m ∧
    p.map Prod.fst = stopFirst ∧ (m.mycpus 0).state = .disabled ∧ Wired twinBoard m ∧
    ∀ j < twinBoard.ncpus, (m.cpus j).cpuEnabled = true ↔ (m.mycpus j).state ≠ .disabled := by
  have hSeen : Scripts.seenBy (startsNoCpu twinBoard) (Act.exec twinBoard)
      (fun m => (m.mycpus 0).state) stopFirst (machineInit () false) = some .disabled := by
    decide +kernel
  obtain ⟨p, m, hPath, hActs, hLook, hChecked⟩ :=
    Scripts.path_of_seenBy (Act.Valid twinBoard) hSeen (by decide)
  have hWiring : ∀ a ∈ stopFirst, a.IsWiring := by simp [stopFirst, Act.IsWiring]
  obtain ⟨hWired, hEnabled⟩ := wiring_agrees hPath
    (AllSteps.of_labels fun _ a _ ha => hWiring a (hActs ▸ ha))
  have hStarts : AllSteps (StartsNoCpu twinBoard) (machineInit () false) p :=
    hChecked.mono fun _ _ _ h => of_startsNoCpu h
  exact ⟨p, m, hPath, hActs, hLook, hWired, hEnabled hStarts⟩

/-- The first cpu writes an address for the second into its scratch area and sets its bit. -/
def startSecond : List (Act Unit) :=
  [.poke 0 0x3c02bfff, .poke 1 0x34428000, .poke 2 0x3c048000, .poke 3 0x34840040,
    .poke 4 0xac440700, .poke 5 0x24030003, .poke 6 0xac43fe14, .setEntrypoint 0 kseg0] ++
    (List.replicate 7 [.turn 0, .turn 1]).flatten

theorem running_not_enabled : ∃ p m, Path (Step twinBoard) (machineInit () false) p m ∧
    p.map Prod.fst = startSecond ∧ (m.cpus 1).cpuEnabled = false ∧ (m.mycpus 1).state = .running := by
  have hSeen : seen twinBoard startSecond (machineInit () false) (fun m =>
      ((m.cpus 1).cpuEnabled, (m.mycpus 1).state)) = some (false, .running) := by
    decide +kernel
  obtain ⟨p, m, hPath, hActs, hLook⟩ := path_of_seen hSeen (by decide)
  obtain ⟨hEnabled, hState⟩ := Prod.mk.inj hLook
  exact ⟨p, m, hPath, hActs, hEnabled, hState⟩

end Sys161.Mips
