import Sys161.Riscv.Rules

/-!
# What accesses come to

A read leaves alone what the bus leaves alone, and a write changes a word of
main memory, or starts and stops cpus, or is such a read. The fetch position
that is looked up for a cpu is the page of its pc.
-/

namespace Sys161.Riscv

open Exec
open Mips (Board Page lamebusConfigSize lamebusControllerSlot lamebusNslots lamebusSlotMem)

set_option autoImplicit false

variable {δ α : Type} (b : Board δ) (i : Nat)

/-! ## Reads -/

/-- A read of an aligned word stops with a fault, or past the end of the registers. -/
theorem keeps_domemFetch {I : Machine δ → Prop} (hBus : BusBlind I) (hFill : FillBlind i I)
    (hCache : ∀ m, I m → (m.mycpus i).CacheAligned) {vaddr : Word} (hAlign : vaddr &&& 0x3 = 0)
    (rwx : Memrwx) : Keeps I (fun e t => I t ∧ TableStop vaddr rwx e) (domemFetch b i vaddr rwx) := by
  intro m hm
  unfold domemFetch
  rw [after_bind]
  refine ((keeps_translatemem b i hBus hFill vaddr rwx m hm).and
    (after_translatemem_again b i vaddr rwx m)).mono ?_ ?_
  · rintro paddr t ⟨ht, hAgain⟩
    have hPaddr : paddr &&& 0x3 = 0 :=
      (align_of_offset (Riscvcpu.offset_translation b (hCache t ht) hAgain)).trans hAlign
    rw [after_bind]
    refine (BusBlind.fetchPhys i hBus paddr t ht).mono ?_ ?_
    · rintro (_ | val) u hu
      · exact ⟨hu, .inl ⟨_, rfl, .inr rfl⟩⟩
      · exact hu
    · rintro e u ⟨rfl | ⟨hOdd, -⟩, hu⟩
      · exact ⟨hu, .inr rfl⟩
      · exact absurd hPaddr hOdd
  · rintro e t ⟨⟨ht, hStop | ⟨hOdd, -⟩⟩, -⟩
    · exact ⟨ht, hStop⟩
    · refine absurd ?_ hOdd
      have hSmaller : vaddr &&& 0x1 = vaddr &&& 0x3 &&& 0x1 := by
        rw [BitVec.and_assoc]
        rfl
      rw [hSmaller, hAlign]
      rfl

/-! ## Writes -/

/-- The physical address of `CPUE`. -/
def cpueAddr : Word := 0xffff7e14

theorem cpueAddr_of_offset {paddr : Word}
    (hSlot : (paddr - paddrBusbase).toNat / lamebusSlotMem = lamebusControllerSlot)
    (hRegion : (paddr - paddrBusbase).toNat % lamebusSlotMem / lamebusConfigSize =
      lamebusControllerSlot)
    (hReg : (paddr - paddrBusbase).toNat % lamebusSlotMem % lamebusConfigSize = 0x214) :
    paddr = cpueAddr := by
  have hOffset : (paddr - paddrBusbase).toNat = 0x1f7e14 := by
    simp only [lamebusSlotMem, lamebusControllerSlot, lamebusConfigSize] at *
    omega
  have hWord : paddr - paddrBusbase = 0x1f7e14 := BitVec.eq_of_toNat_eq hOffset
  rw [← sub_add_cancel paddr paddrBusbase, hWord]
  rfl

section After

variable {J : Machine δ → Prop} {E : Stop → Machine δ → Prop} {m : Machine δ}

theorem after_storeCpu (offset : Nat) (val : Word) (hBus : ∀ t, Bused m t → J t)
    (hStop : E pastCram m) :
    After (lamebusControllerStoreCpu b offset val) (fun _ => J) E m := by
  unfold lamebusControllerStoreCpu
  rw [after_bind, after_get]
  dsimp only
  rw [after_ite]
  split
  · exact hBus m (Bused.refl m)
  · rw [after_ite]
    split
    · unfold cramWord
      rw [after_bind, after_ite]
      split
      · exact hBus _ (Bused.setLamebusCpu m _ _ rfl)
      · exact hStop
    · generalize offset / lamebusConfigSize = region
      have hCpu : ∀ cpu, cpu.cpuEnabled = (m.cpus region).cpuEnabled →
          Bused m (m.setLamebusCpu region cpu) := Bused.setLamebusCpu m region
      split
      · rw [after_bind, after_modify]
        refine hBus _ (.trans (hCpu _ ?_) (Bused.irqupdate b _))
        rfl
      · rw [after_bind, after_modify]
        refine hBus _ (.trans (hCpu _ ?_) (Bused.cpuSetIrqs _ _ _ _))
        rfl
      · exact hBus m (Bused.refl m)

theorem after_storeConfig (offset : Nat) (val : Word) (hBus : ∀ t, Bused m t → J t)
    (hCpue : offset / lamebusConfigSize = lamebusControllerSlot →
      offset % lamebusConfigSize = 0x214 → b.isold = false →
      After (setCpue b val) (fun _ => J) E m) :
    After (lamebusControllerStoreConfig b offset val) (fun _ => J) E m := by
  have hSame := hBus m (Bused.refl m)
  unfold lamebusControllerStoreConfig
  dsimp only
  rw [after_ite]
  split
  · exact hSame
  · rename_i hRegion
    split
    · split
      · exact hBus _ (Bused.hung m _)
      · exact hSame
    · have hEnabled : Bused m { m with busEnabledInterrupts := val } :=
        ⟨fun _ => rfl, rfl, fun _ => rfl, rfl, rfl⟩
      exact hBus _ (hEnabled.trans (Bused.irqupdate b _))
    · rename_i hReg
      rw [after_ite]
      split
      · exact hSame
      · rename_i hOld
        rw [after_bind]
        exact hCpue (not_not.mp hRegion) hReg (by simpa using hOld)
    · exact hSame

/-- A write of a register starts and stops cpus, or nothing that the cpus compute with is changed
but their interrupt lines. -/
theorem after_busIoStore (cpunum : Nat) {paddr val : Word} (hBus : ∀ t, Bused m t → J t)
    (hStop : ∀ e, IoStop paddr e → E e m)
    (hCpue : b.isold = false → paddr = cpueAddr → After (setCpue b val) (fun _ => J) E m) :
    After (busIoStore b cpunum (paddr - paddrBusbase) val) (fun _ => J) E m := by
  have hSame := hBus m (Bused.refl m)
  unfold busIoStore
  dsimp only
  rw [after_ite]
  split
  · exact hSame
  · rw [after_ite]
    split
    · rename_i hOdd
      rw [BusBlind.align_sub_busbase] at hOdd
      exact hStop _ (.inr ⟨hOdd, rfl⟩)
    · rw [after_ite]
      split
      · rename_i hSlot
        unfold lamebusControllerStore
        rw [after_ite]
        split
        · rw [after_ite]
          split
          · exact hSame
          · exact after_storeCpu b _ _ hBus (hStop _ (.inl rfl))
        · refine after_storeConfig b _ _ hBus fun hRegion hReg hOld => ?_
          exact hCpue hOld (cpueAddr_of_offset hSlot hRegion hReg)
      · rw [after_bind, after_get, after_bind, after_modify]
        exact hBus _ (Bused.reply b m _ _)

/-- A write changes a word of main memory, or it is a write of a register. -/
theorem after_storePhys {paddr val : Word}
    (hRam : ∀ ix, J { m with ram := Function.update m.ram ix val })
    (hBus : ∀ t, Bused m t → J t) (hStop : ∀ e, IoStop paddr e → E e m)
    (hCpue : b.isold = false → paddr = cpueAddr → After (setCpue b val) (fun _ => J) E m) :
    After (storePhys b i paddr val) (fun _ => J) E m := by
  have hSame := hBus m (Bused.refl m)
  unfold storePhys
  rw [after_ite]
  split
  · exact hSame
  · rw [after_ite]
    split
    · unfold busMemStore
      rw [after_ite]
      split
      · exact hSame
      · exact hRam _
    · rw [after_ite]
      split
      · exact hSame
      · rw [after_bind, after_getCpu]
        exact after_busIoStore b _ hBus hStop hCpue

theorem bused_mask (m : Machine δ) (mask : Word) : Bused m { m with cpuRunningMask := mask } :=
  ⟨fun _ => rfl, rfl, fun _ => rfl, rfl, rfl⟩

theorem keeps_setCpue {L : Machine δ → Prop} (val : Word) (hBus : BusBlind L)
    (hState : ∀ k m state, L m → L (m.modCpu k fun c => { c with state := state }))
    (hStack : ∀ k m sp arg, L m →
      L (m.modCpu k fun c => { c with x := Function.update (Function.update c.x 2 sp) 10 arg }))
    (hDisable : ∀ k m, val.getLsbD k = false → L m →
      L (m.setLamebusCpu k { m.cpus k with cpuEnabled := false }))
    (hStart : ∀ k m pcva, val.getLsbD k = true → (m.cpus k).cpuEnabled = false → L m →
      After (cpuSetEntrypoint b k pcva) (fun _ => L) E m) :
    Keeps L E (setCpue b val) := by
  refine Keeps.forM fun k _ m hm => ?_
  unfold setCpueCpu
  dsimp only
  rw [after_bind, after_get, after_ite]
  split
  · rename_i hOff
    simp only [Bool.and_eq_true, Bool.not_eq_true'] at hOff
    have hOn := hState k _ .disabled (hDisable k m hOff.2 hm)
    exact hBus _ _ (bused_mask _ _) hOn
  · rw [after_ite]
    split
    · rename_i hOn
      simp only [Bool.and_eq_true, Bool.not_eq_true'] at hOn
      rw [after_bind]
      refine (hStart k m _ hOn.2 hOn.1 hm).mono (fun _ t ht => ?_) fun _ _ he => he
      exact hBus _ _ (bused_mask _ _) (hState k _ .running (hStack k t _ _ ht))
    · exact hm

end After

/-- `P` holds where a write has been translated to `CPUE`. -/
def AtCpue (P : Machine δ → Prop) (vaddr : Word) (m : Machine δ) : Prop :=
  After (translatemem b i vaddr .write) (fun paddr t => b.isold = false → paddr = cpueAddr → P t)
    (fun _ _ => True) m

theorem after_domemStore {I J : Machine δ → Prop} {E : Stop → Machine δ → Prop}
    (hBus : BusBlind I) (hFill : FillBlind i I)
    (hCache : ∀ m, I m → (m.mycpus i).CacheAligned) {vaddr val : Word} (hAlign : vaddr &&& 0x3 = 0)
    {P : Machine δ → Prop} {m : Machine δ} (hm : I m) (hP : AtCpue b i P vaddr m)
    (hRam : ∀ t ix, I t → J { t with ram := Function.update t.ram ix val }) (hle : ∀ t, I t → J t)
    (hStop : ∀ e t, I t → TableStop vaddr .write e → E e t)
    (hFault : ∀ t, J t → E (.trap (accessfault vaddr .write)) t)
    (hCpue : ∀ t, I t → P t → After (setCpue b val) (fun _ => J) E t) :
    After (domemStore b i vaddr val) (fun _ => J) E m := by
  unfold domemStore
  rw [after_bind]
  refine (((keeps_translatemem b i hBus hFill vaddr .write m hm).and
    (after_translatemem_again b i vaddr .write m)).and hP).mono ?_ ?_
  · rintro paddr t ⟨⟨ht, hAgain⟩, hAt⟩
    have hPaddr : paddr &&& 0x3 = 0 :=
      (align_of_offset (Riscvcpu.offset_translation b (hCache t ht) hAgain)).trans hAlign
    rw [after_bind]
    refine (after_storePhys b i (fun ix => hRam t ix ht) (fun u hu => hle u (hBus t u hu ht)) ?_
      fun hOld hAddr => hCpue t ht (hAt hOld hAddr)).mono ?_ fun _ _ he => he
    · rintro e (rfl | ⟨hOdd, -⟩)
      · exact hStop _ t ht (.inr rfl)
      · exact absurd hPaddr hOdd
    · rintro (_ | _) u hu
      · exact hFault u hu
      · exact hu
  · rintro e t ⟨⟨⟨ht, hTable | ⟨hOdd, -⟩⟩, -⟩, -⟩
    · exact hStop e t ht hTable
    · refine absurd ?_ hOdd
      have hSmaller : vaddr &&& 0x1 = vaddr &&& 0x3 &&& 0x1 := by
        rw [BitVec.and_assoc]
        rfl
      rw [hSmaller, hAlign]
      rfl

/-! ## The fetch position -/

/-- The cpu with the page of its pc. -/
def Riscvcpu.place (c : Riscvcpu) (page : Option Page) (physpc : Word) : Riscvcpu :=
  { c with pcpage := page, pcoff := physpc &&& 0xfff, nextpcoff := physpc &&& 0xfff }

theorem after_precomputePc {I : Machine δ → Prop} (hBus : BusBlind I) (hFill : FillBlind i I)
    {m : Machine δ} (hm : I m) :
    After (precomputePc b i)
      (fun _ t' => ∃ t physpc, I t ∧ (t.mycpus i).pc = (m.mycpus i).pc ∧
        (t.mycpus i).translation b t.ram (m.mycpus i).pc .execute = .ok physpc ∧
        mapmem b physpc ≠ none ∧
        t' = t.modCpu i fun c => c.place (mapmem b physpc) physpc)
      (fun e t' => TransStop (m.mycpus i).pc .execute e ∧
        ∃ t page, I t ∧ (t.mycpus i).pc = (m.mycpus i).pc ∧
          t' = t.modCpu i fun c => { c with pcpage := page }) m := by
  have hPcBus : BusBlind fun t => I t ∧ (t.mycpus i).pc = (m.mycpus i).pc :=
    fun t u hu ht => ⟨hBus t u hu ht.1,
      (hu.congr (fun c => c.pc) (fun _ => rfl) i).trans ht.2⟩
  have hPcFill : FillBlind i fun t => I t ∧ (t.mycpus i).pc = (m.mycpus i).pc := by
    refine fun vaddr leaf t ht => ⟨hFill vaddr leaf t ht.1, ?_⟩
    rw [Machine.modCpu_mycpus_self, ← ht.2]
    unfold Riscvcpu.fill
    split <;> rfl
  unfold precomputePc
  rw [after_bind, after_getCpu, after_bind]
  refine ((keeps_translatemem b i hPcBus hPcFill _ .execute m ⟨hm, rfl⟩).and
    (after_translatemem_again b i _ .execute m)).mono ?_ ?_
  · rintro physpc t ⟨⟨ht, hPc⟩, hAgain⟩
    rw [after_bind, after_modCpu, after_ite]
    split
    · exact ⟨.inl (.inl ⟨_, rfl, .inr rfl⟩), t, _, ht, hPc, rfl⟩
    · rename_i hMapped
      refine ⟨t, physpc, ht, hPc, hAgain, hMapped, ?_⟩
      simp only [Machine.modCpu, Machine.setCpu_setCpu, Machine.setCpu_mycpus_self]
      rfl
  · rintro e t ⟨⟨⟨ht, hPc⟩, hStop⟩, -⟩
    refine ⟨hStop, t, (t.mycpus i).pcpage, ht, hPc, ?_⟩
    exact (Machine.setCpu_self t i).symm

end Sys161.Riscv
