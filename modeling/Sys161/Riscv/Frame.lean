import Sys161.Lib.PageBits
import Sys161.Riscv.Cycle

/-!
# What the bus leaves alone

A register access changes the interrupt lines of the cpus and wakes idle ones;
reads do no more than that. Rules for the primitives of the core stand here as
well.
-/

namespace Sys161.Riscv

open Exec
open Mips (Board Page Reply lamebusControllerSlot lamebusNslots)

set_option autoImplicit false

variable {δ α : Type} (b : Board δ) (i : Nat)

/-! ## The primitives of the core -/

section After

variable {Q : α → Machine δ → Prop} {E : Stop → Machine δ → Prop} {m : Machine δ}

@[simp] theorem after_getCpu {Q : Riscvcpu → Machine δ → Prop} :
    After (getCpu i) Q E m ↔ Q (m.mycpus i) m := Iff.rfl

@[simp] theorem after_modCpu {Q : Unit → Machine δ → Prop} (f : Riscvcpu → Riscvcpu) :
    After (modCpu i f) Q E m ↔ Q () (m.modCpu i f) := Iff.rfl

@[simp] theorem after_setX {Q : Unit → Machine δ → Prop} (rd : Reg) (val : Word) :
    After (setX i rd val) Q E m ↔ Q () (m.modCpu i fun c => c.setX rd val) := Iff.rfl

@[simp] theorem after_raise (code : Ex) (val : Word) :
    After (raise code val) Q E m ↔ E (.trap (.exception code val)) m := Iff.rfl

@[simp] theorem after_hang {Q : Unit → Machine δ → Prop} (why : Hang) :
    After (hang why : M δ Unit) Q E m ↔ Q () (m.hung why) := Iff.rfl

@[simp] theorem after_recursiveTrap {Q : Unit → Machine δ → Prop} :
    After (recursiveTrap : M δ Unit) Q E m ↔ E .crashdie (m.hung .wedged) := Iff.rfl

@[simp] theorem after_liftTrap_ok (a : α) :
    After (liftTrap (.ok a) : M δ α) Q E m ↔ Q a m := Iff.rfl

@[simp] theorem after_liftTrap_error (t : Trap) :
    After (liftTrap (.error t) : M δ α) Q E m ↔ E (.trap t) m := Iff.rfl

/-- What is made of a stop where traps are taken. -/
def taken (Q : α → Machine δ → Prop) (E : Stop → Machine δ → Prop) (handled : α) (e : Stop)
    (m : Machine δ) : Prop :=
  match e with
  | .trap t => After (trap b i t) (fun _ => Q handled) E m
  | e => E e m

theorem after_trapping {x : M δ α} {handled : α} :
    After (trapping b i x handled) Q E m ↔ After x Q (taken b i Q E handled) m := by
  unfold trapping
  rw [after_tryCatch]
  have hThrow : (fun (e : Stop) (t : Machine δ) => After (match e with
      | .trap tr => do
        trap b i tr
        return handled
      | e => throw e) Q E t) = taken b i Q E handled := by
    funext e t
    cases e with
    | trap tr =>
      simp only [taken, after_bind, after_pure]
    | crashdie | smoke | undefined => rfl
  exact iff_of_eq (congrArg (fun F => After x Q F m) hThrow)

theorem after_attempt {Q : Bool → Machine δ → Prop} {x : M δ Unit} :
    After (attempt b i x) Q E m ↔ After x (fun _ => Q true) (taken b i Q E false) m := by
  unfold attempt
  rw [after_trapping, after_bind]
  rfl

/-- A trap that finds the pc at the handler, or one that leads there. -/
theorem after_trap {Q : Unit → Machine δ → Prop} (t : Trap)
    (hWedged : (m.mycpus i).pc = (m.mycpus i).stvec → E .crashdie (m.hung .wedged))
    (hEnter : (m.mycpus i).pc ≠ (m.mycpus i).stvec → After (precomputePc b i) Q
      (fun e m => match e with
        | .trap _ => E .crashdie (m.hung .wedged)
        | e => E e m) (m.modCpu i fun c => c.enterTrap t)) :
    After (trap b i t) Q E m := by
  unfold trap
  rw [after_bind, after_getCpu, after_ite]
  split
  · exact hWedged ‹_›
  · rw [after_bind, after_modCpu, after_tryCatch]
    refine (hEnter ‹_›).mono (fun _ _ h => h) fun e m h => ?_
    cases e <;> exact h

end After

section Keeps

variable {I : Machine δ → Prop} {E : Stop → Machine δ → Prop}

theorem keeps_getCpu_bind {f : Riscvcpu → M δ α}
    (hf : ∀ m, I m → After (f (m.mycpus i)) (fun _ => I) E m) : Keeps I E (getCpu i >>= f) := by
  intro m hm
  rw [after_bind, after_getCpu]
  exact hf m hm

/-- As `keeps_getCpu_bind`, where the values read do not matter. -/
theorem keeps_getCpu {f : Riscvcpu → M δ α} (hf : ∀ c, Keeps I E (f c)) :
    Keeps I E (getCpu i >>= f) :=
  keeps_getCpu_bind i fun m hm => hf _ m hm

end Keeps

/-! ## Interrupt lines -/

/-- A cpu but for its interrupt lines and whether it runs. -/
def Riscvcpu.core (c : Riscvcpu) : Riscvcpu :=
  { c with irqLamebus := false, irqIpi := false, state := .disabled }

/-- What a read of a register can come to: nothing that the cpus compute with is changed but their
interrupt lines. -/
structure Bused (m t : Machine δ) : Prop where
  core : ∀ j, (t.mycpus j).core = (m.mycpus j).core
  ram : t.ram = m.ram
  enabled : ∀ j, (t.cpus j).cpuEnabled = (m.cpus j).cpuEnabled
  gdbReady : t.gdbReady = m.gdbReady
  stats : t.sPercpu = m.sPercpu

namespace Bused

theorem refl (m : Machine δ) : Bused m m := ⟨fun _ => rfl, rfl, fun _ => rfl, rfl, rfl⟩

theorem trans {m t u : Machine δ} (h : Bused m t) (h' : Bused t u) : Bused m u where
  core j := (h'.core j).trans (h.core j)
  ram := h'.ram.trans h.ram
  enabled j := (h'.enabled j).trans (h.enabled j)
  gdbReady := h'.gdbReady.trans h.gdbReady
  stats := h'.stats.trans h.stats

/-- Any part of a cpu that is none of its lines. -/
theorem congr {m t : Machine δ} (h : Bused m t) {β : Type} (g : Riscvcpu → β)
    (hg : ∀ c : Riscvcpu, g c.core = g c) (j : Nat) : g (t.mycpus j) = g (m.mycpus j) := by
  rw [← hg (t.mycpus j), h.core j, hg]

theorem cpuSetIrqs (m : Machine δ) (j : Nat) (lamebus ipi : Bool) :
    Bused m (m.cpuSetIrqs j lamebus ipi) := by
  have hCore : ∀ state k, ((m.setCpu j
      { m.mycpus j with irqLamebus := lamebus, irqIpi := ipi, state := state }).mycpus k).core =
      (m.mycpus k).core := by
    intro state k
    by_cases hk : k = j
    · subst hk
      rw [Machine.setCpu_mycpus_self]
      rfl
    · rw [Machine.setCpu_mycpus_ne _ _ hk]
  unfold Machine.cpuSetIrqs
  extract_lets c eie sie
  split
  · exact ⟨hCore .running, rfl, fun _ => rfl, rfl, rfl⟩
  · exact ⟨hCore (m.mycpus j).state, rfl, fun _ => rfl, rfl, rfl⟩

/-- The controller's record of a cpu changes, but not whether it counts as enabled. -/
theorem setLamebusCpu (m : Machine δ) (j : Nat) (cpu : Mips.LamebusCpu)
    (hCpu : cpu.cpuEnabled = (m.cpus j).cpuEnabled) : Bused m (m.setLamebusCpu j cpu) := by
  refine ⟨fun _ => rfl, rfl, fun k => ?_, rfl, rfl⟩
  by_cases hk : k = j
  · subst hk
    simpa [Machine.setLamebusCpu] using hCpu
  · simp [Machine.setLamebusCpu, hk]

theorem irqupdateCpu (mask : Word) (m : Machine δ) (j : Nat) :
    Bused m (irqupdateCpu mask m j) := by
  unfold Riscv.irqupdateCpu
  dsimp only
  split
  · refine (setLamebusCpu m j _ ?_).trans (cpuSetIrqs _ _ _ _)
    rfl
  · exact refl m

theorem irqupdate (m : Machine δ) : Bused m (m.irqupdate b) := by
  unfold Machine.irqupdate
  generalize m.busRaisedInterrupts &&& m.busEnabledInterrupts = mask
  induction List.range b.ncpus generalizing m with
  | nil => exact refl m
  | cons j l ih => exact (irqupdateCpu mask m j).trans (ih _)

theorem deviceIrq (m : Machine δ) (slot : Nat) (raised : Bool) :
    Bused m (m.deviceIrq b slot raised) := by
  have hRaised : ∀ raised, Bused m { m with busRaisedInterrupts := raised } :=
    fun _ => ⟨fun _ => rfl, rfl, fun _ => rfl, rfl, rfl⟩
  cases raised
  · exact (hRaised _).trans (irqupdate b _)
  · exact (hRaised _).trans (irqupdate b _)

theorem hung (m : Machine δ) (why : Hang) : Bused m (m.hung why) :=
  ⟨fun _ => rfl, rfl, fun _ => rfl, rfl, rfl⟩

theorem reply (m : Machine δ) (slot : Nat) (ret : Reply δ α) : Bused m (m.reply b slot ret) := by
  have hIrqs : ∀ (irqs : List Bool) (t : Machine δ),
      Bused t (irqs.foldl (Machine.deviceIrq b slot) t) := by
    intro irqs
    induction irqs with
    | nil => exact refl
    | cons raised irqs ih => exact fun t => (deviceIrq b t slot raised).trans (ih _)
  have hDevices : Bused m { m with devices := ret.devices } :=
    ⟨fun _ => rfl, rfl, fun _ => rfl, rfl, rfl⟩
  unfold Machine.reply
  dsimp only
  refine hDevices.trans ?_
  split
  · exact (hung _ _).trans (hIrqs _ _)
  · exact hIrqs _ _

end Bused

/-! ## Reads -/

/-- How an access to a register can stop the program. -/
def IoStop (addr : Word) (e : Stop) : Prop :=
  e = pastCram ∨ addr &&& 0x3 ≠ 0 ∧ e = .smoke "Assertion failed"

/-- `I` is kept by what the bus does to the cpus. -/
def BusBlind (I : Machine δ → Prop) : Prop := ∀ m t, Bused m t → I m → I t

namespace BusBlind

variable {b} {I : Machine δ → Prop} (h : BusBlind I)

include h

theorem modify {f : Machine δ → Machine δ} (hf : ∀ m, Bused m (f m))
    {E : Stop → Machine δ → Prop} : Keeps I E (modify f) :=
  Keeps.modify fun m hm => h m (f m) (hf m) hm

omit h in
theorem cramWord (addr : Word) (offset : Nat) :
    Keeps I (fun e t => IoStop addr e ∧ I t) (cramWord offset : M δ (BitVec 5)) :=
  Keeps.ite (fun _ => Keeps.pure _) fun _ => Keeps.throw fun _ hm => ⟨.inl rfl, hm⟩

omit h in
theorem lamebusControllerFetchCpu (addr : Word) (offset : Nat) :
    Keeps I (fun e t => IoStop addr e ∧ I t) (lamebusControllerFetchCpu b offset) := by
  have hPure : ∀ val, Keeps I (fun e t => IoStop addr e ∧ I t) (pure val : M δ (Option Word)) :=
    fun _ => Keeps.pure _
  unfold Riscv.lamebusControllerFetchCpu
  refine Keeps.bind Keeps.get fun m => ?_
  dsimp only
  refine Keeps.ite (fun _ => hPure _) fun _ => Keeps.ite (fun _ => ?_) fun _ => ?_
  · exact Keeps.bind (cramWord _ _) fun _ => hPure _
  · split <;> exact hPure _

theorem lamebusControllerFetchConfig {E : Stop → Machine δ → Prop} (cpunum offset : Nat) :
    Keeps I E (lamebusControllerFetchConfig b cpunum offset) := by
  have hPure : ∀ val, Keeps I E (pure val : M δ (Option Word)) := fun _ => Keeps.pure _
  have hHang : Keeps I E (hang .powerRead : M δ Unit) := fun m hm => h m _ (Bused.hung m _) hm
  refine Keeps.bind Keeps.get fun m => ?_
  split
  iterate 3 exact hPure _
  refine Keeps.ite (fun _ => hPure _) fun _ => ?_
  split
  iterate 2 exact hPure _
  · exact Keeps.ite (fun _ => Keeps.bind hHang fun _ => hPure _) fun _ => hPure _
  · exact hPure _
  iterate 3 exact Keeps.ite (fun _ => hPure _) fun _ => hPure _
  exact hPure _

theorem busIoFetch (cpunum : Nat) (offset : Word) :
    Keeps I (fun e t => IoStop offset e ∧ I t) (busIoFetch b cpunum offset) := by
  refine Keeps.ite (fun _ => Keeps.pure _) fun _ => Keeps.ite (fun hOffset => ?_) fun _ =>
    Keeps.ite (fun _ => ?_) fun _ => Keeps.bind Keeps.get fun m => ?_
  · exact Keeps.throw fun _ hm => ⟨.inr ⟨hOffset, rfl⟩, hm⟩
  · unfold lamebusControllerFetch
    refine Keeps.ite (fun _ => Keeps.ite (fun _ => Keeps.pure _) fun _ => ?_) fun _ => ?_
    · exact lamebusControllerFetchCpu _ _
    · exact h.lamebusControllerFetchConfig _ _
  · exact Keeps.bind (h.modify fun m => Bused.reply b m _ _) fun _ => Keeps.pure _

omit h in
/-- The registers begin at an address that is aligned. -/
theorem align_sub_busbase (paddr : Word) : (paddr - paddrBusbase) &&& 0x3 = paddr &&& 0x3 := by
  apply BitVec.eq_of_toNat_eq
  rw [PageBits.toNat_align, PageBits.toNat_align]
  simp only [paddrBusbase]
  have hLt := paddr.isLt
  bv_omega

theorem fetchPhys (paddr : Word) :
    Keeps I (fun e t => IoStop paddr e ∧ I t) (fetchPhys b i paddr) := by
  refine Keeps.ite (fun _ => Keeps.pure _) fun _ => Keeps.ite (fun _ => ?_) fun _ =>
    Keeps.ite (fun _ => Keeps.pure _) fun _ => ?_
  · exact Keeps.bind Keeps.get fun _ => Keeps.pure _
  · refine keeps_getCpu i fun c => (h.busIoFetch _ _).error fun e t he => ?_
    simpa only [IoStop, align_sub_busbase] using he

end BusBlind

/-- What is left alone by a read of physical memory. -/
theorem after_fetchPhys (paddr : Word) (m : Machine δ) :
    After (fetchPhys b i paddr) (fun _ t => Bused m t) (fun e t => IoStop paddr e ∧ Bused m t) m :=
  BusBlind.fetchPhys (I := fun t => Bused m t) i (fun _ _ h hm => hm.trans h) paddr m (Bused.refl m)

end Sys161.Riscv
