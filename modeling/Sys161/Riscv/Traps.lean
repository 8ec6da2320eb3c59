import Sys161.Riscv.FetchRuns

/-!
# Traps

What `trap()` leaves of the cpu, and which interrupt a cycle begins with. The
lookup of the handler's page changes the fetch position and the cache of the
walk only.
-/

namespace Sys161.Riscv

open Exec
open Mips (Board)

set_option autoImplicit false

variable {δ : Type} {b : Board δ} (i : Nat)

/-! ## Entering the handler -/

/-- A cpu but for its place in the page of the pc, the cache of the walk and what the bus changes. -/
def Riscvcpu.settled (c : Riscvcpu) : Riscvcpu :=
  { c.core with
    pcpage := none, pcoff := 0, nextpcoff := 0
    mmuCachedVpage := 0, mmuCachedPpage := 0, mmuCachedReadable := false
    mmuCachedWriteable := false, mmuCachedExecutable := false }

theorem settled_congr {c c' : Riscvcpu} (h : c.settled = c'.settled) {β : Sort*}
    (g : Riscvcpu → β) (hg : ∀ c : Riscvcpu, g c.settled = g c) : g c = g c' := by
  rw [← hg c, h, hg]

theorem settled_fill (c : Riscvcpu) (vaddr : Word) (leaf : Leaf) :
    (c.fill vaddr leaf).settled = c.settled := by
  unfold Riscvcpu.fill
  split <;> rfl

theorem after_precomputePc_settled (m : Machine δ) :
    After (precomputePc b i)
      (fun _ t => (t.mycpus i).settled = (m.mycpus i).settled)
      (fun e t => TransStop (m.mycpus i).pc .execute e ∧
        (t.mycpus i).settled = (m.mycpus i).settled) m := by
  have hBus : BusBlind fun t : Machine δ => (t.mycpus i).settled = (m.mycpus i).settled := by
    intro t u hu ht
    exact (hu.congr Riscvcpu.settled (fun _ => rfl) i).trans ht
  have hFill : FillBlind i fun t : Machine δ => (t.mycpus i).settled = (m.mycpus i).settled := by
    intro vaddr leaf t ht
    rw [Machine.modCpu_mycpus_self, settled_fill, ht]
  apply (after_precomputePc b i hBus hFill rfl).mono
  · rintro _ _ ⟨t, physpc, ht, -, -, -, rfl⟩
    rw [Machine.modCpu_mycpus_self]
    exact ht
  · rintro e _ ⟨hStop, t, page, ht, -, rfl⟩
    rw [Machine.modCpu_mycpus_self]
    exact ⟨hStop, ht⟩

/-- The trap has been taken, as far as the page of the handler. -/
def Entered (tr : Trap) (m t : Machine δ) : Prop :=
  (t.mycpus i).settled = ((m.mycpus i).enterTrap tr).settled

/-- Where the pc is at the handler already nothing is recorded. -/
theorem after_trap_entered (tr : Trap) (m : Machine δ) :
    After (trap b i tr)
      (fun _ t => (m.mycpus i).pc ≠ (m.mycpus i).stvec ∧ Entered i tr m t)
      (fun _ t => if (m.mycpus i).pc = (m.mycpus i).stvec then t = m.hung .wedged
        else Entered i tr m t) m := by
  apply after_trap
  · intro hHere
    rw [if_pos hHere]
  · intro hNot
    apply (after_precomputePc_settled i _).mono
    · intro _ t ht
      rw [Machine.modCpu_mycpus_self] at ht
      exact ⟨hNot, ht⟩
    · rintro e t ⟨-, ht⟩
      rw [Machine.modCpu_mycpus_self] at ht
      cases e with
      | trap tr' =>
        rw [if_neg hNot]
        exact ht
      | crashdie | smoke | undefined =>
        dsimp only
        rw [if_neg hNot]
        exact ht

/-! ## Interrupts -/

namespace Riscvcpu

variable (c : Riscvcpu)

/-- The source is pending and enabled. -/
def asserted : Irq → Bool
  | Irq.sextern => c.irqLamebus && c.ieSeie
  | .stimer => c.irqTimer && c.ieStie
  | .ssoft => c.irqIpi && c.ieSsie

/-- The interrupt that the architecture takes: the master switch counts in supervisor mode only, and
software interrupts come before those of the timer. -/
def dueIrq : Option Irq :=
  if c.super = true ∧ c.statusSie = false then none
  else if c.asserted Irq.sextern then some Irq.sextern
  else if c.asserted .ssoft then some .ssoft
  else if c.asserted .stimer then some .stimer
  else none

/-- The cycle takes the interrupt that is due. -/
def Deliverable : Prop :=
  c.dueIrq = none ∨
    c.statusSie = true ∧ c.pc ≠ c.stvec ∧
      (c.asserted .stimer = true → c.asserted .ssoft = true → c.asserted Irq.sextern = true)

theorem pendingIrq_of_off (h : c.statusSie = false) : c.pendingIrq = none := by
  rw [pendingIrq, if_pos h]

theorem pendingIrq_of_on (h : c.statusSie = true) :
    c.pendingIrq =
      if c.asserted Irq.sextern then some Irq.sextern
      else if c.asserted .stimer then some .stimer
      else if c.asserted .ssoft then some .ssoft
      else none := by
  rw [pendingIrq, if_neg (by simp [h])]
  rfl

theorem dueIrq_of_on (h : c.statusSie = true) :
    c.dueIrq =
      if c.asserted Irq.sextern then some Irq.sextern
      else if c.asserted .ssoft then some .ssoft
      else if c.asserted .stimer then some .stimer
      else none := by
  rw [dueIrq, if_neg (by simp [h])]

theorem on_of_pending {irq : Irq} (h : c.pendingIrq = some irq) : c.statusSie = true := by
  cases hSie : c.statusSie with
  | false =>
    rw [c.pendingIrq_of_off hSie] at h
    cases h
  | true => rfl

/-- The two orders differ where a timer and a software interrupt are asserted and nothing before
them is. -/
theorem pendingIrq_eq_dueIrq_iff (h : c.statusSie = true) :
    c.pendingIrq = c.dueIrq ↔
      (c.asserted .stimer = true → c.asserted .ssoft = true →
        c.asserted Irq.sextern = true) := by
  rw [c.pendingIrq_of_on h, c.dueIrq_of_on h]
  cases hExtern : c.asserted Irq.sextern <;> cases hTimer : c.asserted .stimer <;>
    cases hSoft : c.asserted .ssoft <;> simp

theorem pendingIrq_of_due_none (h : c.dueIrq = none) : c.pendingIrq = none := by
  cases hSie : c.statusSie with
  | false => exact c.pendingIrq_of_off hSie
  | true =>
    rw [c.dueIrq_of_on hSie] at h
    rw [c.pendingIrq_of_on hSie]
    cases hExtern : c.asserted Irq.sextern <;> cases hTimer : c.asserted .stimer <;>
      cases hSoft : c.asserted .ssoft <;> simp_all

/-- Where an interrupt is due, the cpu is not as one is that has taken it. -/
theorem on_of_due (h : c.dueIrq ≠ none) : c.super = false ∨ c.statusSie = true := by
  by_contra hOff
  rw [not_or, Bool.not_eq_false, Bool.not_eq_true] at hOff
  exact h (by rw [dueIrq, if_pos hOff])

end Riscvcpu

/-- The interrupt that is due has been taken, or there is none and nothing has happened. -/
def Delivered (m t : Machine δ) : Prop :=
  match (m.mycpus i).dueIrq with
  | some irq => Entered i (.interrupt irq) m t
  | none => t = m

variable (b) in
/-- Also where the handler has no page, the interrupt has been taken by then. -/
def Delivers (m : Machine δ) : Prop :=
  After (takeInterrupt b i) (fun _ t => Delivered i m t) (fun _ t => Delivered i m t) m

theorem not_entered {irq : Irq} {m t : Machine δ} (hDue : (m.mycpus i).dueIrq ≠ none)
    (hSame : t.mycpus i = m.mycpus i) : ¬Entered i (.interrupt irq) m t := by
  intro hEntered
  rw [Entered, hSame] at hEntered
  have hSuper : (m.mycpus i).super = true :=
    settled_congr hEntered Riscvcpu.super fun _ => rfl
  have hSie : (m.mycpus i).statusSie = false :=
    settled_congr hEntered (fun c => c.statusSie) fun _ => rfl
  rcases (m.mycpus i).on_of_due hDue with hOff | hOn
  · rw [hSuper] at hOff
    cases hOff
  · rw [hSie] at hOn
    cases hOn

theorem entered_inj {irq irq' : Irq} {m t : Machine δ} (h : Entered i (.interrupt irq) m t)
    (h' : Entered i (.interrupt irq') m t) : irq = irq' := by
  have hCode : irq.code = irq'.code :=
    settled_congr (h.symm.trans h') (fun c => c.scauseTrapcode) fun _ => rfl
  cases irq <;> cases irq' <;> first | rfl | exact absurd hCode (by decide)

theorem after_takeInterrupt {m : Machine δ} {Q : Unit → Machine δ → Prop}
    {E : Stop → Machine δ → Prop} :
    After (takeInterrupt b i) Q E m ↔
      match (m.mycpus i).pendingIrq with
      | some irq => After (trap b i (.interrupt irq)) Q E m
      | none => Q () m := by
  unfold takeInterrupt
  rw [after_bind, after_getCpu]
  cases (m.mycpus i).pendingIrq <;> rfl

/-- The trap takes the interrupt that is due where it is for that one, and not at the handler
already. -/
theorem trap_takes_iff {irq irq' : Irq} {m : Machine δ} (hDue : (m.mycpus i).dueIrq ≠ none) :
    After (trap b i (.interrupt irq')) (fun _ t => Entered i (.interrupt irq) m t)
      (fun _ t => Entered i (.interrupt irq) m t) m ↔
      (m.mycpus i).pc ≠ (m.mycpus i).stvec ∧ irq = irq' := by
  constructor
  · intro hTaken
    apply exists_end (hTaken.and (after_trap_entered i (.interrupt irq') m))
    · rintro _ t ⟨hEntered, hNot, hEntered'⟩
      exact ⟨hNot, entered_inj i hEntered hEntered'⟩
    · rintro _ t ⟨hEntered, hEnd⟩
      split at hEnd
      next =>
        subst hEnd
        exact absurd hEntered (not_entered i hDue rfl)
      next hNot => exact ⟨hNot, entered_inj i hEntered hEnd⟩
  · rintro ⟨hNot, rfl⟩
    apply (after_trap_entered i (.interrupt irq) m).mono (fun _ _ h => h.2)
    intro _ t hEnd
    rwa [if_neg hNot] at hEnd

/-- The interrupts that are due are taken, but by a user program with SIE clear, in the order of a
timer and a software interrupt, and where the pc is at the handler. -/
theorem delivers_iff (m : Machine δ) : Delivers b i m ↔ (m.mycpus i).Deliverable := by
  unfold Delivers
  rw [after_takeInterrupt]
  cases hDue : (m.mycpus i).dueIrq with
  | none =>
    rw [(m.mycpus i).pendingIrq_of_due_none hDue]
    refine iff_of_true ?_ (.inl hDue)
    rw [Delivered, hDue]
  | some irq =>
    have hSome : (m.mycpus i).dueIrq ≠ none := by
      rw [hDue]
      exact Option.some_ne_none irq
    have hDelivered : ∀ t, Delivered i m t ↔ Entered i (.interrupt irq) m t := by
      intro t
      rw [Delivered, hDue]
    simp only [hDelivered]
    constructor
    · intro hTaken
      cases hPending : (m.mycpus i).pendingIrq with
      | none =>
        rw [hPending] at hTaken
        exact absurd hTaken (not_entered i hSome rfl)
      | some irq' =>
        rw [hPending] at hTaken
        obtain ⟨hNot, rfl⟩ := (trap_takes_iff i hSome).mp hTaken
        have hSie : (m.mycpus i).statusSie = true := (m.mycpus i).on_of_pending hPending
        have hOrder := ((m.mycpus i).pendingIrq_eq_dueIrq_iff hSie).mp (hPending.trans hDue.symm)
        exact .inr ⟨hSie, hNot, hOrder⟩
    · rintro (hNone | ⟨hSie, hNot, hOrder⟩)
      · rw [hDue] at hNone
        cases hNone
      · rw [((m.mycpus i).pendingIrq_eq_dueIrq_iff hSie).mpr hOrder, hDue]
        exact (trap_takes_iff i hSome).mpr ⟨hNot, rfl⟩

/-- A user program runs with SIE clear while the timer interrupt is there and enabled. -/
theorem not_delivers : ¬∀ (b : Board Unit) (i : Nat) (m : Machine Unit),
    (m.mycpus i).state = .running → Delivers b i m := by
  intro h
  have hTaken := h bareBoard 0 ((machineInit () false).modCpu 0 fun c =>
    { c with super := false, irqTimer := true, ieStie := true }) rfl
  exact absurd ((after_takeInterrupt 0).mp hTaken) (not_entered 0 (by decide) rfl)

end Sys161.Riscv
