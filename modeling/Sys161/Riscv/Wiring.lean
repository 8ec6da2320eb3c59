import Sys161.Riscv.FetchRuns

/-!
# Software interrupts and the lines that carry them

The level of a software interrupt is kept by the bus and by the core. A guest
that writes the interrupt pending register changes the copy of the core only.
-/

namespace Sys161.Riscv

open Exec
open Mips (Board LamebusCpu lamebusConfigSize lamebusControllerSlot)

set_option autoImplicit false

variable {δ : Type} (b : Board δ)

/-- What reaches the interrupt lines of the cpus. -/
inductive Wire where
  | cipi (cpu : Nat) (val : Word)
  | cirqe (cpu : Nat) (val : Word)
  | irqe (val : Word)
  | raiseIrq (slot : Nat)
  | lowerIrq (slot : Nat)
  | csrSip (cpu : Nat) (val : Word)
  deriving DecidableEq

namespace Wire

def exec : Wire → M δ Unit
  | cipi cpu val => do
    let _ ← lamebusControllerStoreCpu b (cpu * lamebusConfigSize + 0x4) val
  | cirqe cpu val => do
    let _ ← lamebusControllerStoreCpu b (cpu * lamebusConfigSize + 0x0) val
  | irqe val => do
    let _ ← lamebusControllerStoreConfig b (lamebusControllerSlot * lamebusConfigSize + 0x20c) val
  | raiseIrq slot => modify fun m => m.raiseIrq b slot
  | lowerIrq slot => modify fun m => m.lowerIrq b slot
  | csrSip cpu val => modCpu cpu fun c => c.writeCsrSip val

/-- The machine after it. -/
def run (w : Wire) (m : Machine δ) : Machine δ := final (w.exec b) m

/-- A write that sets CIPI for the cpu. -/
def SetsCipi (j : Nat) : Wire → Prop
  | cipi cpu val => cpu = j ∧ val ≠ 0
  | _ => False

/-- The guest sets the software interrupt of the cpu itself. -/
def SetsSip (j : Nat) : Wire → Prop
  | csrSip cpu val => cpu = j ∧ val &&& 0x00000002 ≠ 0
  | _ => False

/-- The bus looks at its lines. -/
def Updates : Wire → Prop
  | cipi _ _ | csrSip _ _ => False
  | cirqe cpu _ => cpu < b.ncpus
  | irqe _ | raiseIrq _ | lowerIrq _ => True

/-- The lines that are raised when the bus looks at them. -/
def raised (m : Machine δ) : Wire → Word
  | raiseIrq slot => m.busRaisedInterrupts ||| (1#32 <<< slot)
  | lowerIrq slot => m.busRaisedInterrupts &&& ~~~(1#32 <<< slot)
  | _ => m.busRaisedInterrupts

def enabled (m : Machine δ) : Wire → Word
  | irqe val => val
  | _ => m.busEnabledInterrupts

def cpuEnabled (m : Machine δ) (j : Nat) : Wire → Word
  | cirqe cpu val => if cpu = j then val else (m.cpus j).cpuEnabledInterrupts
  | _ => (m.cpus j).cpuEnabledInterrupts

/-- The bus finds that its interrupt line to the cpu changes. -/
def Switches (m : Machine δ) (j : Nat) (w : Wire) : Prop :=
  j < b.ncpus ∧ w.Updates b ∧
    decide (w.raised m &&& w.enabled m &&& w.cpuEnabled m j ≠ 0) ≠ (m.cpus j).cpuInterrupting

end Wire

/-- The machine after all of them. -/
def wires (ws : List Wire) (m : Machine δ) : Machine δ := ws.foldl (fun m w => w.run b m) m

section Lines

theorem cpuSetIrqs_cpus (m : Machine δ) (i : Nat) (lamebus ipi : Bool) :
    (m.cpuSetIrqs i lamebus ipi).cpus = m.cpus := by
  unfold Machine.cpuSetIrqs
  rw [apply_ite Machine.cpus]
  exact ite_self _

theorem cpuSetIrqs_irqIpi (m : Machine δ) (i j : Nat) (lamebus ipi : Bool) :
    ((m.cpuSetIrqs i lamebus ipi).mycpus j).irqIpi =
      if j = i then ipi else (m.mycpus j).irqIpi := by
  unfold Machine.cpuSetIrqs
  rw [apply_ite fun t : Machine δ => (t.mycpus j).irqIpi]
  by_cases hji : j = i
  · subst hji
    simp [Machine.setCpu]
  · simp [Machine.setCpu, hji]

theorem irqupdateCpu_other (mask : Word) (m : Machine δ) {i j : Nat} (h : j ≠ i) :
    (irqupdateCpu mask m i).cpus j = m.cpus j ∧
      ((irqupdateCpu mask m i).mycpus j).irqIpi = (m.mycpus j).irqIpi := by
  unfold irqupdateCpu
  dsimp only
  split
  · constructor
    · rw [cpuSetIrqs_cpus]
      exact Function.update_of_ne h _ _
    · rw [cpuSetIrqs_irqIpi, if_neg h]
      rfl
  · exact ⟨rfl, rfl⟩

theorem irqupdateCpu_self (mask : Word) (m : Machine δ) (j : Nat) :
    (irqupdateCpu mask m j).cpus j = { m.cpus j with
      cpuInterrupting := decide (mask &&& (m.cpus j).cpuEnabledInterrupts ≠ 0) } ∧
      ((irqupdateCpu mask m j).mycpus j).irqIpi =
        if decide (mask &&& (m.cpus j).cpuEnabledInterrupts ≠ 0) ≠ (m.cpus j).cpuInterrupting then
          (m.cpus j).cpuIpi
        else (m.mycpus j).irqIpi := by
  unfold irqupdateCpu
  dsimp only
  split
  · next hNew =>
    constructor
    · rw [cpuSetIrqs_cpus]
      exact Function.update_self _ _ _
    · rw [cpuSetIrqs_irqIpi, if_pos rfl]
  · next hSame =>
    constructor
    · rw [not_not.mp hSame]
    · rfl

/-- The loop of `irqupdate` pushes the copy of the bus to the cpus whose line changes. -/
theorem irqupdate_irqIpi (mask : Word) (m : Machine δ) (l : List Nat) (j : Nat) :
    ((l.foldl (irqupdateCpu mask) m).mycpus j).irqIpi =
      if j ∈ l ∧ decide (mask &&& (m.cpus j).cpuEnabledInterrupts ≠ 0) ≠
          (m.cpus j).cpuInterrupting then
        (m.cpus j).cpuIpi
      else (m.mycpus j).irqIpi := by
  induction l generalizing m with
  | nil => simp
  | cons i l ih =>
    rw [List.foldl_cons, ih]
    by_cases hji : j = i
    · subst hji
      rcases irqupdateCpu_self mask m j with ⟨hRecord, hIpi⟩
      rw [hRecord, hIpi]
      simp
    · rcases irqupdateCpu_other mask m hji with ⟨hRecord, hIpi⟩
      rw [hRecord, hIpi]
      simp [hji]

theorem machine_irqupdate_irqIpi (m : Machine δ) {j : Nat} (hj : j < b.ncpus) :
    ((m.irqupdate b).mycpus j).irqIpi =
      if decide (m.busRaisedInterrupts &&& m.busEnabledInterrupts &&&
          (m.cpus j).cpuEnabledInterrupts ≠ 0) ≠ (m.cpus j).cpuInterrupting then
        (m.cpus j).cpuIpi
      else (m.mycpus j).irqIpi := by
  unfold Machine.irqupdate
  rw [irqupdate_irqIpi]
  simp [List.mem_range.mpr hj]

end Lines

section Writes

variable (m : Machine δ) (cpu : Nat) (val : Word)

theorem storeCpu_region (k : Nat) (hk : k < lamebusConfigSize) :
    (cpu * lamebusConfigSize + k) / lamebusConfigSize = cpu ∧
      (cpu * lamebusConfigSize + k) % lamebusConfigSize = k := by
  unfold lamebusConfigSize at hk ⊢
  omega

theorem run_cipi : (Wire.cipi cpu val).run b m =
    if b.ncpus ≤ cpu then m
    else (m.setLamebusCpu cpu { m.cpus cpu with cpuIpi := val ≠ 0 }).cpuSetIrqs cpu
      (m.cpus cpu).cpuInterrupting (val ≠ 0) := by
  rcases storeCpu_region cpu 0x4 (by decide) with ⟨hRegion, hOffset⟩
  unfold Wire.run Wire.exec lamebusControllerStoreCpu
  simp only [hRegion, hOffset]
  split
  · rfl
  · rfl

theorem run_cirqe : (Wire.cirqe cpu val).run b m =
    if b.ncpus ≤ cpu then m
    else (m.setLamebusCpu cpu { m.cpus cpu with cpuEnabledInterrupts := val }).irqupdate b := by
  rcases storeCpu_region cpu 0x0 (by decide) with ⟨hRegion, hOffset⟩
  unfold Wire.run Wire.exec lamebusControllerStoreCpu
  simp only [hRegion, hOffset]
  split
  · rfl
  · rfl

theorem run_irqe : (Wire.irqe val).run b m =
    { m with busEnabledInterrupts := val }.irqupdate b := rfl

end Writes

/-- Where the bus looks at its lines, the copy of the bus goes to the cpus whose line changes. -/
theorem irqIpi_update {w : Wire} (m : Machine δ) {j : Nat} (hj : j < b.ncpus)
    (hUpdates : w.Updates b) :
    ((w.run b m).mycpus j).irqIpi =
      if decide (w.raised m &&& w.enabled m &&& w.cpuEnabled m j ≠ 0) ≠
          (m.cpus j).cpuInterrupting then
        (m.cpus j).cpuIpi
      else (m.mycpus j).irqIpi := by
  cases w with
  | cipi cpu val => exact hUpdates.elim
  | csrSip cpu val => exact hUpdates.elim
  | cirqe cpu val =>
    have hIn : cpu < b.ncpus := hUpdates
    rw [run_cirqe, if_neg (Nat.not_le_of_lt hIn), machine_irqupdate_irqIpi b _ hj]
    by_cases hji : cpu = j
    · subst hji
      simp only [Machine.setLamebusCpu, Function.update_self, Wire.cpuEnabled, if_true]
      rfl
    · simp only [Machine.setLamebusCpu, Function.update_of_ne (Ne.symm hji), Wire.cpuEnabled,
        if_neg hji]
      rfl
  | irqe val =>
    rw [run_irqe]
    exact machine_irqupdate_irqIpi b _ hj
  | raiseIrq slot => exact machine_irqupdate_irqIpi b { m with busRaisedInterrupts := _ } hj
  | lowerIrq slot => exact machine_irqupdate_irqIpi b { m with busRaisedInterrupts := _ } hj

/-- A wire other than CIPI brings the software interrupt of a cpu up by setting it, or by
switching the other line of the cpu while the copy of the bus is up. -/
theorem irqIpi_run {w : Wire} {m : Machine δ} {j : Nat} (hj : j < b.ncpus) (hSets : ¬w.SetsCipi j)
    (hClear : (m.mycpus j).irqIpi = false) :
    ((w.run b m).mycpus j).irqIpi = false ↔
      ¬w.SetsSip j ∧ ¬(w.Switches b m j ∧ (m.cpus j).cpuIpi = true) := by
  by_cases hUpdates : w.Updates b
  · have hSip : ¬w.SetsSip j := by
      cases w with
      | csrSip cpu val => exact hUpdates.elim
      | _ => exact id
    rw [irqIpi_update b m hj hUpdates, hClear]
    split
    · next hLine =>
      have hSwitches : w.Switches b m j := ⟨hj, hUpdates, hLine⟩
      simp [hSwitches, hSip]
    · next hLine =>
      have hSame : ¬w.Switches b m j := fun h => hLine h.2.2
      simp [hSame, hSip]
  · have hSwitches : ¬(w.Switches b m j ∧ (m.cpus j).cpuIpi = true) :=
      fun h => hUpdates h.1.2.1
    rw [and_iff_left hSwitches]
    cases w with
    | cipi cpu val =>
      have hNot : ¬(cpu = j ∧ val ≠ 0) := hSets
      have hSip : ¬(Wire.cipi cpu val).SetsSip j := id
      rw [run_cipi, iff_true_right hSip]
      split
      · exact hClear
      · rw [cpuSetIrqs_irqIpi]
        split
        · next hEq => exact decide_eq_false fun hNe => hNot ⟨hEq.symm, hNe⟩
        · exact hClear
    | cirqe cpu val =>
      have hOut : b.ncpus ≤ cpu := Nat.le_of_not_lt hUpdates
      have hSip : ¬(Wire.cirqe cpu val).SetsSip j := id
      rw [run_cirqe, if_pos hOut, iff_true_right hSip]
      exact hClear
    | csrSip cpu val =>
      have hRun : (Wire.csrSip cpu val).run b m = m.modCpu cpu fun c => c.writeCsrSip val := rfl
      have hSip : (Wire.csrSip cpu val).SetsSip j ↔ cpu = j ∧ val &&& 0x00000002 ≠ 0 := Iff.rfl
      rw [hRun, hSip]
      by_cases hji : cpu = j
      · subst hji
        rw [Machine.modCpu_mycpus_self]
        simp [Riscvcpu.writeCsrSip]
      · rw [Machine.modCpu_mycpus_ne m _ (Ne.symm hji)]
        simp [hClear, hji]
    | irqe val => exact absurd trivial hUpdates
    | raiseIrq slot => exact absurd trivial hUpdates
    | lowerIrq slot => exact absurd trivial hUpdates

/-- The software interrupt is down after each of the wires. -/
def StaysClear (j : Nat) (ws : List Wire) (m : Machine δ) : Prop :=
  ∀ before after, ws = before ++ after → ((wires b before m).mycpus j).irqIpi = false

/-- The guest does not set the software interrupt, and no wire switches the other line of
the cpu while the bus has the software interrupt up. -/
def LeftAlone (j : Nat) (ws : List Wire) (m : Machine δ) : Prop :=
  ∀ before w after, ws = before ++ w :: after →
    ¬w.SetsSip j ∧
      ¬(w.Switches b (wires b before m) j ∧ ((wires b before m).cpus j).cpuIpi = true)

section Runs

variable {b} {j : Nat} {w : Wire} {ws : List Wire} {m : Machine δ}

theorem staysClear_nil : StaysClear b j [] m ↔ (m.mycpus j).irqIpi = false := by
  constructor
  · intro h
    exact h [] [] rfl
  · intro h before after hSplit
    rw [(List.append_eq_nil_iff.mp hSplit.symm).1]
    exact h

theorem staysClear_cons :
    StaysClear b j (w :: ws) m ↔
      (m.mycpus j).irqIpi = false ∧ StaysClear b j ws (w.run b m) := by
  constructor
  · intro h
    constructor
    · exact h [] (w :: ws) rfl
    · intro before after hSplit
      exact h (w :: before) after (congrArg (List.cons w) hSplit)
  · rintro ⟨hHere, hRest⟩ before after hSplit
    rcases List.cons_eq_append_iff.mp hSplit with ⟨rfl, _⟩ | ⟨before', rfl, hSplit'⟩
    · exact hHere
    · exact hRest before' after hSplit'

theorem leftAlone_nil : LeftAlone b j [] m := by
  intro before w after hSplit
  simp at hSplit

theorem leftAlone_cons :
    LeftAlone b j (w :: ws) m ↔
      (¬w.SetsSip j ∧ ¬(w.Switches b m j ∧ (m.cpus j).cpuIpi = true)) ∧
        LeftAlone b j ws (w.run b m) := by
  constructor
  · intro h
    constructor
    · exact h [] w ws rfl
    · intro before w' after hSplit
      exact h (w :: before) w' after (congrArg (List.cons w) hSplit)
  · rintro ⟨hHere, hRest⟩ before w' after hSplit
    rcases List.cons_eq_append_iff.mp hSplit with ⟨rfl, hEq⟩ | ⟨before', rfl, hSplit'⟩
    · rw [(List.cons.inj hEq).1]
      exact hHere
    · exact hRest before' w' after hSplit'

theorem staysClear_iff (hj : j < b.ncpus) (hSets : ∀ w ∈ ws, ¬w.SetsCipi j)
    (hClear : (m.mycpus j).irqIpi = false) : StaysClear b j ws m ↔ LeftAlone b j ws m := by
  induction ws generalizing m with
  | nil =>
    rw [staysClear_nil]
    exact ⟨fun _ => leftAlone_nil, fun _ => hClear⟩
  | cons w ws ih =>
    have hStep := irqIpi_run b hj (hSets w List.mem_cons_self) hClear
    have hRest : ∀ w' ∈ ws, ¬w'.SetsCipi j := fun w' hw' => hSets w' (List.mem_cons_of_mem _ hw')
    rw [staysClear_cons, leftAlone_cons, ← hStep]
    constructor
    · rintro ⟨_, hStays⟩
      have hNext : ((w.run b m).mycpus j).irqIpi = false := hStays [] ws rfl
      exact ⟨hNext, (ih hRest hNext).mp hStays⟩
    · rintro ⟨hNext, hNone⟩
      exact ⟨hClear, (ih hRest hNext).mpr hNone⟩

end Runs

/-- A software interrupt that a guest has cleared through sip stays clear until CIPI is
written just when the guest does not set it again and the bus does not switch the other
line of the cpu while its own copy is still up. -/
theorem ipi_stays_clear (m : Machine δ) {j : Nat} (hj : j < b.ncpus) {val : Word}
    (hClear : val &&& 0x00000002 = 0) {ws : List Wire} (hSets : ∀ w ∈ ws, ¬w.SetsCipi j) :
    StaysClear b j ws ((Wire.csrSip j val).run b m) ↔
      LeftAlone b j ws ((Wire.csrSip j val).run b m) := by
  have hRun : (Wire.csrSip j val).run b m = m.modCpu j fun c => c.writeCsrSip val := rfl
  apply staysClear_iff hj hSets
  rw [hRun, Machine.modCpu_mycpus_self]
  exact decide_eq_false (not_not.mpr hClear)

theorem ipi_stays_clear_cirqe : StaysClear bareBoard 0 [.cirqe 0 1]
    ((Wire.csrSip 0 0).run bareBoard ((Wire.cipi 0 1).run bareBoard (machineInit () true))) := by
  apply (ipi_stays_clear bareBoard _ (by decide) (by decide) _).mpr
  · rw [leftAlone_cons]
    constructor
    · constructor
      · exact id
      · intro h
        exact absurd h.1.2.2 (by decide +kernel)
    · exact leftAlone_nil
  · intro w hw
    rw [List.mem_singleton.mp hw]
    exact id

/-- A device interrupts after the guest has acknowledged the software interrupt. -/
theorem not_ipi_stays_clear : ¬∀ (m : Machine Unit) (j : Nat), j < bareBoard.ncpus →
    ∀ val : Word, val &&& 0x00000002 = 0 → ∀ ws : List Wire, (∀ w ∈ ws, ¬w.SetsCipi j) →
      (∀ w ∈ ws, ¬w.SetsSip j) → StaysClear bareBoard j ws ((Wire.csrSip j val).run bareBoard m) := by
  intro h
  have hStays := h ((Wire.cipi 0 1).run bareBoard (machineInit () true)) 0 (by decide) 0 (by decide)
    [.cirqe 0 1, .raiseIrq 0] (by simp [Wire.SetsCipi]) (by simp [Wire.SetsSip])
    [.cirqe 0 1, .raiseIrq 0] [] rfl
  have hUp : ((wires bareBoard [.cirqe 0 1, .raiseIrq 0] ((Wire.csrSip 0 0).run bareBoard
      ((Wire.cipi 0 1).run bareBoard (machineInit () true)))).mycpus 0).irqIpi = true := by
    decide +kernel
  rw [hUp] at hStays
  cases hStays

end Sys161.Riscv
