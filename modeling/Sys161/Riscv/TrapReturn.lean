import Sys161.Riscv.Csrs
import Sys161.Riscv.Traps

/-!
# Return from a trap

`trap()` keeps the mode, the master switch and the pc in SPP, SPIE and SEPC, and
`sret` takes them from there. A handler that may be interrupted itself saves the
three, and the cause, through the control registers.
-/

namespace Sys161.Riscv

open Exec
open Mips (Board)

set_option autoImplicit false

variable {δ : Type} {b : Board δ} (i : Nat)

/-! ## What is saved -/

/-- The handler has not touched what `sret` takes. -/
structure KeepsReturn (t u : Machine δ) : Prop where
  sepc : (u.mycpus i).sepc = (t.mycpus i).sepc
  spp : (u.mycpus i).statusSpp = (t.mycpus i).statusSpp
  spie : (u.mycpus i).statusSpie = (t.mycpus i).statusSpie
  cext : (u.mycpus i).cext = (t.mycpus i).cext

theorem KeepsReturn.refl (t : Machine δ) : KeepsReturn i t t := ⟨rfl, rfl, rfl, rfl⟩

/-- The trap leaves this of the cpu in the registers that `sret` reads. -/
structure SavedFor (m t : Machine δ) : Prop where
  sepc : (t.mycpus i).sepc = (m.mycpus i).pc
  spp : (t.mycpus i).statusSpp = (m.mycpus i).super
  spie : (t.mycpus i).statusSpie = (m.mycpus i).statusSie
  cext : (t.mycpus i).cext = (m.mycpus i).cext

theorem Entered.savedFor {tr : Trap} {m t : Machine δ} (h : Entered i tr m t) : SavedFor i m t where
  sepc := settled_congr h (fun c => c.sepc) fun _ => rfl
  spp := settled_congr h (fun c => c.statusSpp) fun _ => rfl
  spie := settled_congr h (fun c => c.statusSpie) fun _ => rfl
  cext := settled_congr h (fun c => c.cext) fun _ => rfl

theorem SavedFor.trans {m t u : Machine δ} (h : SavedFor i m t) (h' : KeepsReturn i t u) :
    SavedFor i m u where
  sepc := h'.sepc.trans h.sepc
  spp := h'.spp.trans h.spp
  spie := h'.spie.trans h.spie
  cext := h'.cext.trans h.cext

/-! ## One level -/

/-- The mode, the master switch and the pc are those of before. -/
structure Resumes (m v : Machine δ) : Prop where
  super : (v.mycpus i).super = (m.mycpus i).super
  sie : (v.mycpus i).statusSie = (m.mycpus i).statusSie
  pc : (v.mycpus i).pc = (m.mycpus i).pc
  nextpc : (v.mycpus i).nextpc = (m.mycpus i).pc

variable (b) in
/-- The instruction that was interrupted may fault by now, and does so where it was. -/
def ReturnsTo (m u : Machine δ) : Prop :=
  After (rxDoSret b i) (fun _ v => Resumes i m v)
    (fun e v => (∀ msg, e ≠ .smoke msg) ∧ Resumes i m v) u

/-- The pc is one that an instruction can have. -/
def Riscvcpu.PcAligned (c : Riscvcpu) : Prop := c.pc &&& (if c.cext then 0x1 else 0x3) = 0

theorem and_not_of_and {v mask : Word} (h : v &&& mask = 0) : v &&& ~~~mask = v := by
  calc v &&& ~~~mask = (v &&& mask) ||| (v &&& ~~~mask) := by rw [h]; exact BitVec.zero_or.symm
    _ = v &&& (mask ||| ~~~mask) := BitVec.and_or_distrib_left.symm
    _ = v := by rw [BitVec.or_not_self]; exact BitVec.and_allOnes

theorem sret_pc_iff {m u : Machine δ} (h : SavedFor i m u) :
    (u.mycpus i).sret.pc = (m.mycpus i).pc ↔
      ((m.mycpus i).cext = false → (m.mycpus i).pc &&& 0x3 = 0) := by
  have hPc : (u.mycpus i).sret.pc =
      if (m.mycpus i).cext then (m.mycpus i).pc else (m.mycpus i).pc &&& 0xfffffffc := by
    rw [← h.cext, ← h.sepc]
    rfl
  rw [hPc]
  cases (m.mycpus i).cext with
  | true => exact iff_of_true rfl fun hFalse => absurd hFalse Bool.noConfusion
  | false =>
    refine ⟨fun hSame _ => ?_, fun hAlign => and_not_of_and (hAlign rfl)⟩
    rw [if_neg Bool.false_ne_true] at hSame
    rw [← hSame, BitVec.and_assoc]
    exact BitVec.and_zero

theorem after_precomputePc_odd {m : Machine δ} (hOdd : (m.mycpus i).pc &&& 0x1 ≠ 0)
    {Q : Unit → Machine δ → Prop} {E : Stop → Machine δ → Prop} :
    After (precomputePc b i) Q E m ↔ E (.smoke "Assertion failed") m := by
  unfold precomputePc translatemem
  rw [after_bind, after_getCpu]
  dsimp only
  rw [if_pos hOdd, after_bind, after_throw]

theorem not_smoke_of_transStop {vaddr : Word} {rwx : Memrwx} {e : Stop} (h : TransStop vaddr rwx e)
    (hEven : vaddr &&& 0x1 = 0) (msg : String) : e ≠ .smoke msg := by
  rintro rfl
  rcases h with (⟨tr, hTrap, -⟩ | hCram) | ⟨hOdd, -⟩
  · cases hTrap
  · cases hCram
  · exact hOdd hEven

theorem after_rxDoSret (u : Machine δ) :
    After (rxDoSret b i)
      (fun _ v => (v.mycpus i).settled = (u.mycpus i).sret.settled)
      (fun e v => TransStop (u.mycpus i).sret.pc .execute e ∧
        (v.mycpus i).settled = (u.mycpus i).sret.settled) u := by
  unfold rxDoSret
  rw [after_bind, after_modCpu]
  have hLookup := after_precomputePc_settled (b := b) i (u.modCpu i Riscvcpu.sret)
  rwa [Machine.modCpu_mycpus_self] at hLookup

theorem sret_pc_of_returnsTo {m u : Machine δ} (h : ReturnsTo b i m u) :
    (u.mycpus i).sret.pc = (m.mycpus i).pc := by
  have hPc : ∀ v : Machine δ, (v.mycpus i).settled = (u.mycpus i).sret.settled →
      (v.mycpus i).pc = (u.mycpus i).sret.pc :=
    fun v hv => settled_congr hv (fun c => c.pc) fun _ => rfl
  apply exists_end (h.and (after_rxDoSret i u))
  · rintro _ v ⟨hResumes, hSettled⟩
    exact (hPc v hSettled).symm.trans hResumes.pc
  · rintro e v ⟨⟨-, hResumes⟩, -, hSettled⟩
    exact (hPc v hSettled).symm.trans hResumes.pc

theorem returnsTo_iff {m u : Machine δ} (h : SavedFor i m u) :
    ReturnsTo b i m u ↔ (m.mycpus i).PcAligned := by
  constructor
  · intro hReturns
    have hSame := sret_pc_of_returnsTo i hReturns
    have hAlign := (sret_pc_iff i h).mp hSame
    unfold Riscvcpu.PcAligned
    cases hCext : (m.mycpus i).cext with
    | false => exact hAlign hCext
    | true =>
      rw [if_pos rfl]
      by_contra hOdd
      rw [← hSame] at hOdd
      unfold ReturnsTo rxDoSret at hReturns
      rw [after_bind, after_modCpu,
        after_precomputePc_odd i (by rwa [Machine.modCpu_mycpus_self])] at hReturns
      exact hReturns.1 _ rfl
  · intro hAlign
    have hSame : (u.mycpus i).sret.pc = (m.mycpus i).pc := by
      refine (sret_pc_iff i h).mpr fun hCext => ?_
      rw [Riscvcpu.PcAligned, hCext] at hAlign
      exact hAlign
    have hEven : (u.mycpus i).sret.pc &&& 0x1 = 0 := by
      rw [hSame]
      unfold Riscvcpu.PcAligned at hAlign
      split at hAlign
      · exact hAlign
      · exact even_of_aligned hAlign
    have hResumes : ∀ v : Machine δ,
        (v.mycpus i).settled = (u.mycpus i).sret.settled → Resumes i m v := by
      intro v hv
      have hSuper : (v.mycpus i).super = (u.mycpus i).statusSpp :=
        settled_congr hv Riscvcpu.super fun _ => rfl
      have hSie : (v.mycpus i).statusSie = (u.mycpus i).statusSpie :=
        settled_congr hv (fun c => c.statusSie) fun _ => rfl
      have hPc : (v.mycpus i).pc = (u.mycpus i).sret.pc :=
        settled_congr hv (fun c => c.pc) fun _ => rfl
      have hNext : (v.mycpus i).nextpc = (u.mycpus i).sret.pc :=
        settled_congr hv (fun c => c.nextpc) fun _ => rfl
      exact ⟨hSuper.trans h.spp, hSie.trans h.spie, hPc.trans hSame, hNext.trans hSame⟩
    refine (after_rxDoSret i u).mono (fun _ v hSettled => hResumes v hSettled) ?_
    rintro e v ⟨hStop, hSettled⟩
    exact ⟨not_smoke_of_transStop hStop hEven, hResumes v hSettled⟩

variable (b) in
/-- The page of the handler is found. -/
def HandlerMapped (tr : Trap) (m : Machine δ) : Prop :=
  After (precomputePc b i) (fun _ _ => True) (fun _ _ => False)
    (m.modCpu i fun c => c.enterTrap tr)

theorem handlerMapped_of_disabled (tr : Trap) {m : Machine δ}
    (hOff : (m.mycpus i).mmuEnable = false) (hEven : (m.mycpus i).stvec &&& 0x1 = 0)
    (hPage : mapmem b (m.mycpus i).stvec ≠ none) : HandlerMapped b i tr m := by
  have hPc : ((m.mycpus i).enterTrap tr).pc = (m.mycpus i).stvec := rfl
  have hMmu : ((m.mycpus i).enterTrap tr).mmuEnable = false := hOff
  unfold HandlerMapped precomputePc translatemem
  rw [after_bind, after_getCpu, Machine.modCpu_mycpus_self]
  dsimp only
  rw [hPc, after_bind, if_neg (not_not.mpr hEven), after_bind, after_getCpu,
    Machine.modCpu_mycpus_self, if_pos hMmu, after_pure, after_bind, after_modCpu, if_neg hPage]
  trivial

theorem after_trap_mapped {tr : Trap} {m : Machine δ} (hMapped : HandlerMapped b i tr m)
    {P : Machine δ → Prop} {A : Prop} (hP : ∀ t, Entered i tr m t → (P t ↔ A)) :
    After (trap b i tr) (fun _ t => P t) (fun _ _ => False) m ↔
      (m.mycpus i).pc ≠ (m.mycpus i).stvec ∧ A := by
  constructor
  · intro hTrap
    apply exists_end (hTrap.and (after_trap_entered i tr m))
    · rintro _ t ⟨ht, hNot, hEntered⟩
      exact ⟨hNot, (hP t hEntered).mp ht⟩
    · rintro _ _ ⟨hFalse, -⟩
      exact hFalse.elim
  · rintro ⟨hNot, hA⟩
    apply after_trap
    · exact fun hHere => absurd hHere hNot
    · intro _
      refine (hMapped.and (after_precomputePc_settled i _)).mono ?_ ?_
      · rintro _ t ⟨-, ht⟩
        rw [Machine.modCpu_mycpus_self] at ht
        exact (hP t ht).mpr hA
      · rintro _ _ ⟨hFalse, -⟩
        exact hFalse.elim

variable (b) in
/-- Whatever the handler does, as long as it leaves the three registers, `sret` goes back. -/
def RoundTrip (tr : Trap) (m : Machine δ) : Prop :=
  After (trap b i tr) (fun _ t => ∀ u, KeepsReturn i t u → ReturnsTo b i m u) (fun _ _ => False) m

/-- A trap can be taken here and returned from. -/
def Riscvcpu.Returnable (c : Riscvcpu) : Prop := c.pc ≠ c.stvec ∧ c.PcAligned

theorem roundTrip_iff {tr : Trap} {m : Machine δ} (hMapped : HandlerMapped b i tr m) :
    RoundTrip b i tr m ↔ (m.mycpus i).Returnable := by
  refine after_trap_mapped i hMapped fun t hEntered => ?_
  constructor
  · exact fun hAll => (returnsTo_iff i (hEntered.savedFor i)).mp (hAll t (KeepsReturn.refl i t))
  · exact fun hAlign u hKeeps =>
      (returnsTo_iff i ((hEntered.savedFor i).trans i hKeeps)).mpr hAlign

/-! ## Two levels -/

/-- What a handler saves before it may be interrupted. -/
structure TrapFrame where
  sepc : Word
  scause : Word
  sstatus : Word

namespace Riscvcpu

variable (c : Riscvcpu)

def saveFrame : TrapFrame := ⟨c.readCsrSepc, c.readCsrScause, c.readCsrSstatus⟩

def loadFrame (f : TrapFrame) : Riscvcpu :=
  ((c.writeCsrSepc f.sepc).writeCsrScause f.scause).writeCsrSstatus f.sstatus

def cause : Bool × Word := (c.scauseInterrupt, c.scauseTrapcode)

end Riscvcpu

theorem decide_bit (val : Word) {mask : Word} (k : Nat) (hMask : mask = BitVec.twoPow 32 k)
    (hk : k < 32) : decide (val &&& mask ≠ 0) = val.getLsbD k := by
  have hBit : (BitVec.twoPow 32 k).getLsbD k = true := by simp [hk]
  subst hMask
  rw [BitVec.and_twoPow]
  cases h : val.getLsbD k with
  | false => rfl
  | true =>
    refine decide_eq_true fun hZero => ?_
    rw [if_pos rfl] at hZero
    rw [hZero] at hBit
    cases hBit.symm.trans BitVec.getLsbD_zero

theorem getLsbD_flag (set : Bool) (mask : Word) (k : Nat) :
    (flag set mask).getLsbD k = (set && mask.getLsbD k) := by
  cases set with
  | false => exact BitVec.getLsbD_zero
  | true => rfl

theorem Trap.code_small (tr : Trap) : tr.code &&& 0xf = tr.code := by
  cases tr with
  | exception code val =>
    change code.code &&& 0xf = code.code
    cases code <;> decide
  | interrupt code =>
    change code.code &&& 0xf = code.code
    cases code <;> decide

namespace Riscvcpu

variable (c c' : Riscvcpu)

theorem statusSpp_write : (c'.writeCsrSstatus c.readCsrSstatus).statusSpp = c.statusSpp := by
  refine (decide_bit _ 8 (by decide) (by decide)).trans ?_
  simp only [readCsrSstatus, BitVec.getLsbD_or, getLsbD_flag]
  simp

theorem statusSpie_write : (c'.writeCsrSstatus c.readCsrSstatus).statusSpie = c.statusSpie := by
  refine (decide_bit _ 5 (by decide) (by decide)).trans ?_
  simp only [readCsrSstatus, BitVec.getLsbD_or, getLsbD_flag]
  simp

theorem cause_write {tr : Trap} (h : c.cause = (tr.isirq, tr.code)) :
    (c'.writeCsrScause c.readCsrScause).cause = c.cause := by
  obtain ⟨hIrq, hCode⟩ := Prod.mk.inj h
  have hSmall : c.scauseTrapcode &&& 0xf = c.scauseTrapcode := by
    rw [hCode, tr.code_small]
  have hTop : c.scauseTrapcode.getLsbD 31 = false := by
    rw [← hSmall]
    simp
  refine Prod.ext ?_ ?_
  · refine (decide_bit _ 31 (by decide) (by decide)).trans ?_
    simp only [readCsrScause, BitVec.getLsbD_or, getLsbD_flag, hTop]
    simp [cause]
  · change ((flag c.scauseInterrupt 0x80000000 ||| c.scauseTrapcode) &&& 0x7fffffff) &&& 0xf =
      c.scauseTrapcode
    rw [BitVec.and_assoc, BitVec.and_or_distrib_right, flag_and_mask]
    change flag c.scauseInterrupt 0 ||| c.scauseTrapcode &&& 0xf = c.scauseTrapcode
    rw [hSmall, flag_zero]
    exact BitVec.zero_or

theorem sepc_write (h : c.sepc &&& (if c.cext then 0x1 else 0x3) = 0) :
    (c'.writeCsrSepc c.readCsrSepc).sepc = c.sepc := by
  unfold writeCsrSepc readCsrSepc
  dsimp only
  cases hCext : c.cext with
  | true =>
    rw [hCext] at h
    rw [if_pos rfl]
    exact and_not_of_and h
  | false =>
    rw [hCext] at h
    rw [if_neg Bool.false_ne_true]
    have hWord : c.sepc &&& 0xfffffffc = c.sepc := and_not_of_and h
    rw [hWord]
    exact and_not_of_and (even_of_aligned h)

/-- What is written to SEPC is the address of an instruction. -/
theorem sret_pc_aligned (val : Word) (h : c.sepc = val &&& 0xfffffffe) :
    c.sret.pc &&& (if c.cext then 0x1 else 0x3) = 0 := by
  unfold sret
  dsimp only
  cases c.cext with
  | true =>
    rw [if_pos rfl, if_pos rfl, h]
    exact even_mask val
  | false =>
    rw [if_neg Bool.false_ne_true, if_neg Bool.false_ne_true, BitVec.and_assoc]
    exact BitVec.and_zero

end Riscvcpu

/-- The handler has come as far as to save its registers. -/
structure KeepsTrap (t s : Machine δ) : Prop extends KeepsReturn i t s where
  cause : (s.mycpus i).cause = (t.mycpus i).cause

variable (b) in
/-- A trap in a handler that has saved its registers, which it loads again after that trap has
returned, whatever the cpu is like by then. -/
def NestedTrip (tr tr' : Trap) (m m' : Machine δ) : Prop :=
  RoundTrip b i tr' m' ∧
    After (trap b i tr) (fun _ t => ∀ s v w : Machine δ, KeepsTrap i t s →
      (v.mycpus i).cext = (s.mycpus i).cext →
      w = v.modCpu i (fun c => c.loadFrame (s.mycpus i).saveFrame) →
      (w.mycpus i).cause = (tr.isirq, tr.code) ∧ ∀ u, KeepsReturn i w u → ReturnsTo b i m u)
      (fun _ _ => False) m

theorem nestedTrip_iff {tr tr' : Trap} {m m' : Machine δ} (hMapped : HandlerMapped b i tr m)
    (hMapped' : HandlerMapped b i tr' m') :
    NestedTrip b i tr tr' m m' ↔ (m'.mycpus i).Returnable ∧ (m.mycpus i).Returnable := by
  refine and_congr (roundTrip_iff i hMapped') (after_trap_mapped i hMapped fun t hEntered => ?_)
  have hSaved := hEntered.savedFor i
  have hCause : (t.mycpus i).cause = (tr.isirq, tr.code) :=
    settled_congr hEntered Riscvcpu.cause fun _ => rfl
  constructor
  · intro hAll
    have hReturns := (hAll t t _ ⟨KeepsReturn.refl i t, rfl⟩ rfl rfl).2 _ (KeepsReturn.refl i _)
    have hPc := sret_pc_of_returnsTo i hReturns
    rw [Machine.modCpu_mycpus_self] at hPc
    have hAlign := Riscvcpu.sret_pc_aligned ((t.mycpus i).loadFrame (t.mycpus i).saveFrame)
      (t.mycpus i).readCsrSepc rfl
    rw [hPc] at hAlign
    unfold Riscvcpu.PcAligned
    rw [← hSaved.cext]
    exact hAlign
  · rintro hAlign s v w hKeeps hCext rfl
    have hAt := hSaved.trans i hKeeps.toKeepsReturn
    have hSepc : (s.mycpus i).sepc &&& (if (s.mycpus i).cext then 0x1 else 0x3) = 0 := by
      rw [hAt.sepc, hAt.cext]
      exact hAlign
    have hLoaded : SavedFor i m (v.modCpu i fun c => c.loadFrame (s.mycpus i).saveFrame) := by
      constructor
      · rw [Machine.modCpu_mycpus_self, ← hAt.sepc]
        exact Riscvcpu.sepc_write (s.mycpus i) (v.mycpus i) hSepc
      · rw [Machine.modCpu_mycpus_self, ← hAt.spp]
        exact Riscvcpu.statusSpp_write (s.mycpus i) _
      · rw [Machine.modCpu_mycpus_self, ← hAt.spie]
        exact Riscvcpu.statusSpie_write (s.mycpus i) _
      · rw [Machine.modCpu_mycpus_self, ← hAt.cext]
        exact hCext
    refine ⟨?_, fun u hu => (returnsTo_iff i (hLoaded.trans i hu)).mpr hAlign⟩
    rw [Machine.modCpu_mycpus_self, ← hCause, ← hKeeps.cause]
    exact Riscvcpu.cause_write (s.mycpus i) ((v.mycpus i).writeCsrSepc _)
      (hKeeps.cause.trans hCause)

/-- A trap goes back to where it came from, through one level and through two, unless the pc is the
address of the handler itself, or not one of an instruction. -/
theorem trap_return_iff {tr tr' : Trap} {m m' : Machine δ} (hMapped : HandlerMapped b i tr m)
    (hMapped' : HandlerMapped b i tr' m') :
    (RoundTrip b i tr m ↔ (m.mycpus i).Returnable) ∧
      (NestedTrip b i tr tr' m m' ↔ (m'.mycpus i).Returnable ∧ (m.mycpus i).Returnable) :=
  ⟨roundTrip_iff i hMapped, nestedTrip_iff i hMapped hMapped'⟩

theorem trap_return_iff_ecall :
    RoundTrip bareBoard 0 (.exception .ucall 0) (machineInit () false) ∧
      NestedTrip bareBoard 0 (.interrupt .stimer) (.exception .breakpoint 0) (machineInit () false)
        (machineInit () false) := by
  have hReturnable : ((machineInit () false).mycpus 0).Returnable := ⟨by decide, rfl⟩
  have hMapped : ∀ tr, HandlerMapped bareBoard 0 tr (machineInit () false) :=
    fun tr => handlerMapped_of_disabled 0 tr rfl rfl (by decide)
  exact ⟨(trap_return_iff 0 (hMapped _) (hMapped (.interrupt .stimer))).1.mpr hReturnable,
    (trap_return_iff 0 (hMapped _) (hMapped _)).2.mpr ⟨hReturnable, hReturnable⟩⟩

/-- A user program makes a system call from the address of the handler, in main memory. -/
theorem not_roundTrip : ¬∀ (b : Board Unit) (i : Nat) (tr : Trap) (m : Machine Unit),
    HandlerMapped b i tr m → RoundTrip b i tr m := by
  intro h
  have hMapped := handlerMapped_of_disabled (b := bareBoard) 0 (.exception .ucall 0)
    (m := (machineInit () false).modCpu 0 fun c =>
      { c with super := false, pc := paddrRambase, stvec := paddrRambase }) rfl rfl (by decide)
  exact ((roundTrip_iff 0 hMapped).mp (h bareBoard 0 _ _ hMapped)).1 rfl

end Sys161.Riscv
