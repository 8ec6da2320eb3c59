import Sys161.Lib.ByteOrder
import Sys161.Riscv.Lookup

/-!
# Memory as the debugger sees it

`debug_translatemem` of `riscvcore.h`, the translation of the gdb access code.
It is a copy of `translatemem` that raises nothing, asks nothing about the mode
of the cpu and leaves the cache as it is. Like the original it reads the second
level of the page table wherever that lies, which may be in the registers of a
device. The accesses of `riscv.c` go from there to main memory.
-/

namespace Sys161.Riscv

open ByteOrder Exec
open Mips (Board Page lamebusControllerSlot lamebusNslots lamebusSlotMem wordIndex)

set_option autoImplicit false

variable {δ : Type} (b : Board δ) (i : Nat)

/-- As `topEntry`, where nothing is raised. -/
def debugTopEntry (entry : Word) : Option (Word ⊕ Leaf) :=
  if entry &&& pteV = 0 then none
  else if entry &&& (pteR ||| pteW ||| pteX) ≠ 0 then
    if ((entry &&& ptePpn) <<< 2) &&& 0x003ff000 ≠ 0 then none
    else some (.inr ⟨entry, true⟩)
  else if entry &&& pteUpperPpn ≠ 0 then none
  else some (.inl ((entry &&& ptePpn) <<< 2))

def debugSecondEntry (entry : Word) : Option Leaf :=
  if entry &&& pteV = 0 then none
  else if entry &&& pteUpperPpn ≠ 0 then none
  else some ⟨entry, false⟩

/-- The checks after the entry has been found; the mode of the cpu is not among them. -/
def Leaf.debugCheck (leaf : Leaf) (vaddr : Word) (rwx : Memrwx) : Option Word :=
  if leaf.allows rwx = false then none
  else if rwx = .write ∧ leaf.entry &&& pteD = 0 then none
  else if leaf.entry &&& pteA = 0 then none
  else if leaf.entry &&& pteUpperPpn ≠ 0 then none
  else some (leaf.base ||| leaf.offset vaddr)

def debugTranslatemem (vaddr : Word) (rwx : Memrwx) : M δ (Option Word) := do
  let c ← getCpu i
  if vaddr &&& 0x3 ≠ 0 then
    return none
  else if c.mmuEnable = false then
    return some vaddr
  else if vaddr &&& 0xfffff000 = c.mmuCachedVpage then
    if c.cachedAllows rwx then
      return some (c.mmuCachedPpage ||| (vaddr &&& 0x00000fff))
    else
      return none
  else
    match c.mmuPttoppage with
    | none => return none
    | some page =>
      match debugTopEntry (busUseMap (← get).ram page (topIx vaddr)) with
      | none => return none
      | some (.inr leaf) => return leaf.debugCheck vaddr rwx
      | some (.inl ptpaddr) =>
        match ← fetchPhys b i (ptpaddr + secondIx vaddr) with
        | none => return none
        | some entry =>
          match debugSecondEntry entry with
          | none => return none
          | some leaf => return leaf.debugCheck vaddr rwx

/-! ## Accesses -/

/-- A byte of main memory; the cpu is little-endian. -/
def Machine.busMemFetchbyte (m : Machine δ) (offset : Word) : Option (BitVec 8) :=
  if b.busRamsize ≤ offset then none
  else some (Order.little.byte (m.ram (wordIndex offset)) (offset &&& 0x3).toNat)

def busMemStorebyte (offset : Word) (val : BitVec 8) : M δ Bool := do
  if b.busRamsize ≤ offset then
    return false
  else
    modify fun m =>
      { m with
        ram := Function.update m.ram (wordIndex offset)
          (Order.little.setByte (m.ram (wordIndex offset)) (offset &&& 0x3).toNat val) }
    return true

/-- The word that the byte is in is translated. -/
def cpudebugFetchByte (va : Word) : M δ (Option (BitVec 8)) := do
  match ← debugTranslatemem b i (va &&& 0xfffffffc) .read with
  | none => return none
  | some pa =>
    let pa := pa ||| (va &&& 0x3)
    if pa < paddrRambase ∨ paddrRombase ≤ pa then
      return none
    else
      return (← get).busMemFetchbyte b (pa - paddrRambase)

def cpudebugFetchWord (va : Word) : M δ (Option Word) := do
  match ← debugTranslatemem b i va .read with
  | none => return none
  | some pa =>
    if pa < paddrRambase ∨ paddrRombase ≤ pa then
      return none
    else
      return (← get).busMemFetch b (pa - paddrRambase)

/-- Unlike for a fetch, the address of the byte itself is translated. -/
def cpudebugStoreByte (va : Word) (byte : BitVec 8) : M δ Bool := do
  match ← debugTranslatemem b i va .write with
  | none => return false
  | some pa =>
    if pa < paddrRambase ∨ paddrRombase ≤ pa then
      return false
    else
      busMemStorebyte b (pa - paddrRambase) byte

def cpudebugStoreWord (va word : Word) : M δ Bool := do
  match ← debugTranslatemem b i va .write with
  | none => return false
  | some pa =>
    if pa < paddrRambase ∨ paddrRombase ≤ pa then
      return false
    else
      busMemStore b (pa - paddrRambase) word

/-! ## The copy and the original -/

def Stop.isTrap : Stop → Bool
  | .trap _ => true
  | _ => false

/-- The machine with one of its cpus in supervisor mode, and user pages open to it. -/
def Machine.supervisorMode (m : Machine δ) : Machine δ :=
  m.modCpu i fun c => { c with super := true, statusSum := true }

theorem debugTopEntry_eq (entry vaddr : Word) (rwx : Memrwx) :
    debugTopEntry entry = (topEntry entry vaddr rwx).toOption := by
  unfold debugTopEntry topEntry
  split
  · rfl
  · split
    · split <;> rfl
    · split <;> rfl

theorem debugSecondEntry_eq (entry vaddr : Word) (rwx : Memrwx) :
    debugSecondEntry entry = (secondEntry entry vaddr rwx).toOption := by
  unfold debugSecondEntry secondEntry
  split
  · rfl
  · split <;> rfl

/-- An executable page of the user that the cpu may use. -/
def Leaf.UserCode (leaf : Leaf) : Prop :=
  leaf.entry &&& pteU ≠ 0 ∧ leaf.allows .execute = true ∧ leaf.entry &&& pteA ≠ 0 ∧
    leaf.entry &&& pteUpperPpn = 0

theorem Leaf.debugCheck_execute (leaf : Leaf) (vaddr : Word) :
    leaf.debugCheck vaddr .execute = none ↔
      ¬(leaf.allows .execute = true ∧ leaf.entry &&& pteA ≠ 0 ∧ leaf.entry &&& pteUpperPpn = 0) := by
  unfold debugCheck
  split
  · simp_all
  · simp only [reduceCtorEq, false_and, if_false]
    split
    · simp_all
    · split <;> simp_all

/-- The mode of the cpu matters for a page of the user that is to be executed. -/
theorem Leaf.debugCheck_eq_iff (leaf : Leaf) (vaddr : Word) (rwx : Memrwx) :
    leaf.debugCheck vaddr rwx = (leaf.check true true vaddr rwx).toOption ↔
      (rwx = .execute → ¬leaf.UserCode) := by
  by_cases hMode : rwx = .execute ∧ leaf.entry &&& pteU ≠ 0
  · rcases hMode with ⟨rfl, hUser⟩
    have hRefused : leaf.check true true vaddr .execute = .error (pagefault vaddr .execute) := by
      have hMode : leaf.modeRefused true true .execute = true := by
        simpa [modeRefused] using hUser
      rw [check, if_pos hMode]
    rw [hRefused]
    change leaf.debugCheck vaddr .execute = none ↔ _
    rw [debugCheck_execute]
    simp only [UserCode, hUser, ne_eq, not_false_eq_true, true_and, forall_const]
  · have hRefused : leaf.modeRefused true true rwx = false := by
      unfold modeRefused
      by_cases hUser : leaf.entry &&& pteU = 0 <;> simp_all
    have hBlind : rwx = .execute → ¬leaf.UserCode := by
      intro hExecute hUser
      exact hMode ⟨hExecute, hUser.1⟩
    simp only [iff_true_intro hBlind, iff_true]
    unfold debugCheck check
    simp only [hRefused, Bool.false_eq_true, if_false]
    split
    · rfl
    · split
      · rfl
      · split
        · rfl
        · split <;> rfl

/-! ## Reads of registers -/

@[simp] theorem outcome_getCpu (m : Machine δ) : outcome (getCpu i) m = .ok (m.mycpus i) := rfl

@[simp] theorem final_getCpu (m : Machine δ) : final (getCpu i) m = m := rfl

/-- The controller answers in any mode of the cpu, and does nothing to the cpus. -/
theorem lamebusControllerFetch_apart (m : Machine δ) (cpunum offset : Nat) :
    outcome (lamebusControllerFetch b cpunum offset) (m.supervisorMode i) =
        outcome (lamebusControllerFetch b cpunum offset) m ∧
      (final (lamebusControllerFetch b cpunum offset) m).mycpus = m.mycpus := by
  unfold lamebusControllerFetch
  split
  · split
    · exact ⟨rfl, rfl⟩
    · unfold lamebusControllerFetchCpu
      simp only [outcome_bind, final_bind, outcome_get, final_get]
      split
      · exact ⟨rfl, rfl⟩
      · split
        · unfold cramWord
          split <;> exact ⟨rfl, rfl⟩
        · split <;> exact ⟨rfl, rfl⟩
  · unfold lamebusControllerFetchConfig
    simp only [outcome_bind, final_bind, outcome_get, final_get]
    split
    iterate 3 exact ⟨rfl, rfl⟩
    split
    · exact ⟨rfl, rfl⟩
    · split <;> first | exact ⟨rfl, rfl⟩ | (split <;> exact ⟨rfl, rfl⟩)

/-- A device that is read leaves the cpus alone: they see no change of its interrupt line. -/
def RegisterQuiet (m : Machine δ) (cpunum : Nat) (offset : Word) : Prop :=
  let slot := offset.toNat / lamebusSlotMem
  slot < lamebusControllerSlot →
    (m.reply b slot (b.ldiFetch cpunum slot (BitVec.ofNat 32 (offset.toNat % lamebusSlotMem))
      m.devices)).mycpus = m.mycpus

theorem outcome_busIoFetch_supervisorMode (m : Machine δ) (cpunum : Nat) (offset : Word) :
    outcome (busIoFetch b cpunum offset) (m.supervisorMode i) =
      outcome (busIoFetch b cpunum offset) m := by
  unfold busIoFetch
  dsimp only
  split
  · rfl
  · split
    · rfl
    · split
      · exact (lamebusControllerFetch_apart b i m cpunum _).1
      · rfl

theorem final_busIoFetch_mycpus_iff (m : Machine δ) (cpunum : Nat) {offset : Word}
    (hAlign : offset &&& 0x3 = 0) :
    (final (busIoFetch b cpunum offset) m).mycpus = m.mycpus ↔ RegisterQuiet b m cpunum offset := by
  unfold busIoFetch RegisterQuiet
  dsimp only
  split
  next hSlots =>
    simp only [final_pure, true_iff]
    intro hSlot
    simp only [lamebusNslots, lamebusControllerSlot] at hSlots hSlot
    omega
  next hSlots =>
    rw [if_neg (not_not_intro hAlign)]
    split
    next hController =>
      have hSame := (lamebusControllerFetch_apart b 0 m cpunum (offset.toNat % lamebusSlotMem)).2
      simp only [hSame, true_iff]
      omega
    next hController =>
      have hSlot : offset.toNat / lamebusSlotMem < lamebusControllerSlot := by
        simp only [lamebusNslots, lamebusControllerSlot] at hSlots hController ⊢
        omega
      simp only [hSlot, true_implies]
      rfl

theorem outcome_fetchPhys_supervisorMode (m : Machine δ) (paddr : Word) :
    outcome (fetchPhys b i paddr) (m.supervisorMode i) = outcome (fetchPhys b i paddr) m := by
  have hNum : ((m.supervisorMode i).mycpus i).cpunum = (m.mycpus i).cpunum := by
    rw [Machine.supervisorMode, Machine.modCpu_mycpus_self]
  unfold fetchPhys
  split
  · rfl
  · split
    · rfl
    · split
      · rfl
      · simp only [outcome_bind, outcome_getCpu, final_getCpu, hNum]
        exact outcome_busIoFetch_supervisorMode b i m _ _

theorem final_fetchPhys_mycpus_iff (m : Machine δ) {paddr : Word} (hAlign : paddr &&& 0x3 = 0) :
    (final (fetchPhys b i paddr) m).mycpus = m.mycpus ↔
      (paddrBusbase ≤ paddr →
        RegisterQuiet b m (m.mycpus i).cpunum (paddr - paddrBusbase)) := by
  by_cases hMem : paddr < paddrBusbase
  · have hAfter : After (fetchPhys b i paddr) (fun _ t => t = m) (fun _ t => t = m) m := by
      rw [after_fetchPhys_mem b i hMem]
    have hFinal : final (fetchPhys b i paddr) m = m := by
      rw [after_iff_outcome] at hAfter
      split at hAfter <;> exact hAfter
    simp only [hFinal, true_iff]
    intro hIo
    exact absurd hMem (BitVec.not_lt.mpr hIo)
  · have hIo : paddrBusbase ≤ paddr := BitVec.not_lt.mp hMem
    rw [forall_prop_of_true hIo, ← final_busIoFetch_mycpus_iff b m _ (by
      rwa [BusBlind.align_sub_busbase])]
    have hRam : ¬paddr < paddrRambase := by
      simp only [paddrRambase, paddrBusbase] at hIo ⊢
      bv_omega
    have hRom : ¬paddr < paddrRombase := by
      simp only [paddrRombase, paddrBusbase] at hIo ⊢
      bv_omega
    unfold fetchPhys
    rw [if_neg hRam, if_neg hRom, if_neg hMem, final_bind, outcome_getCpu, final_getCpu]

/-! ## The two translations -/

/-- Where the second level of the page table is read out of a device, the device leaves the cpus
alone. -/
def WalkQuiet (m : Machine δ) (vaddr : Word) : Prop :=
  (m.mycpus i).Walks vaddr → ∀ paddr, (m.mycpus i).entryAddr m.ram vaddr = some paddr →
    paddrBusbase ≤ paddr → RegisterQuiet b m (m.mycpus i).cpunum (paddr - paddrBusbase)

/-- The page table does not lead to code of the user. -/
def WalkNoUserCode (m : Machine δ) (vaddr : Word) : Prop :=
  (m.mycpus i).Walks vaddr → ∀ leaf, outcome (findLeaf b i vaddr .execute) m = .ok leaf →
    ¬leaf.UserCode

theorem final_debugTranslatemem_mycpus_iff (m : Machine δ) {vaddr : Word} (rwx : Memrwx)
    (hAlign : vaddr &&& 0x3 = 0) :
    (final (debugTranslatemem b i vaddr rwx) m).mycpus = m.mycpus ↔ WalkQuiet b i m vaddr := by
  unfold debugTranslatemem WalkQuiet
  rw [final_bind, outcome_getCpu, final_getCpu]
  dsimp only
  rw [if_neg (not_not_intro hAlign)]
  split
  next hDisabled =>
    have hNot : ¬(m.mycpus i).Walks vaddr := fun hWalks => by simp [Riscvcpu.Walks, hDisabled] at hWalks
    simp [hNot]
  next hEnabled =>
    split
    next hHit =>
      have hNot : ¬(m.mycpus i).Walks vaddr := fun hWalks => hWalks.2 hHit
      split <;> simp [hNot]
    next hMiss =>
      have hWalks : (m.mycpus i).Walks vaddr := ⟨by simpa using hEnabled, hMiss⟩
      rw [forall_prop_of_true hWalks]
      unfold Riscvcpu.entryAddr
      cases hTop : (m.mycpus i).mmuPttoppage with
      | none => simp
      | some page =>
        dsimp only
        rw [final_bind, outcome_get, final_get]
        dsimp only
        rw [debugTopEntry_eq _ vaddr .read]
        cases hEntry : topEntry (busUseMap m.ram page (topIx vaddr)) vaddr .read with
        | error t => simp [Except.toOption]
        | ok found =>
          cases found with
          | inr leaf => simp [Except.toOption]
          | inl ptpaddr =>
            simp only [Except.toOption, final_bind, Option.some.injEq, forall_eq']
            rw [← final_fetchPhys_mycpus_iff b i m (align_entryAddr hEntry)]
            cases outcome (fetchPhys b i (ptpaddr + secondIx vaddr)) m with
            | error e => rfl
            | ok entry =>
              cases entry with
              | none => rfl
              | some entry =>
                dsimp only
                cases debugSecondEntry entry <;> rfl

/-- The visit to the page table does not depend on the mode of the cpu. -/
theorem outcome_findLeaf_supervisorMode (m : Machine δ) (vaddr : Word) (rwx : Memrwx) :
    outcome (findLeaf b i vaddr rwx) (m.supervisorMode i) = outcome (findLeaf b i vaddr rwx) m := by
  have hTop : ((m.supervisorMode i).mycpus i).mmuPttoppage = (m.mycpus i).mmuPttoppage := by
    rw [Machine.supervisorMode, Machine.modCpu_mycpus_self]
  have hRam : (m.supervisorMode i).ram = m.ram := rfl
  unfold findLeaf
  simp only [outcome_bind, outcome_getCpu, final_getCpu, hTop]
  cases (m.mycpus i).mmuPttoppage with
  | none => rfl
  | some page =>
    simp only [outcome_bind, outcome_get, final_get, hRam]
    cases topEntry (busUseMap m.ram page (topIx vaddr)) vaddr rwx with
    | error t => rfl
    | ok found =>
      cases found with
      | inr leaf => rfl
      | inl ptpaddr =>
        simp only [liftTrap, outcome_pure, final_pure, outcome_bind,
          outcome_fetchPhys_supervisorMode]
        cases outcome (fetchPhys b i (ptpaddr + secondIx vaddr)) m with
        | error e => rfl
        | ok entry =>
          cases entry with
          | none => rfl
          | some entry => cases hs : secondEntry entry vaddr rwx <;> simp [hs]

theorem outcome_debugTranslatemem (m : Machine δ) {vaddr : Word} (rwx : Memrwx)
    (hAlign : vaddr &&& 0x3 = 0) (hWalks : (m.mycpus i).Walks vaddr) :
    outcome (debugTranslatemem b i vaddr rwx) m =
      (refusing Stop.isTrap (outcome (findLeaf b i vaddr rwx) m)).map
        (·.bind fun leaf => leaf.debugCheck vaddr rwx) := by
  unfold debugTranslatemem findLeaf
  simp only [outcome_bind, outcome_getCpu, final_getCpu]
  rw [if_neg (not_not_intro hAlign), if_neg (by simp [hWalks.1]), if_neg hWalks.2]
  cases (m.mycpus i).mmuPttoppage with
  | none => rfl
  | some page =>
    simp only [outcome_bind, outcome_get, final_get, debugTopEntry_eq _ vaddr rwx]
    cases topEntry (busUseMap m.ram page (topIx vaddr)) vaddr rwx with
    | error t => rfl
    | ok found =>
      cases found with
      | inr leaf => rfl
      | inl ptpaddr =>
        simp only [liftTrap, outcome_pure, final_pure, outcome_bind, Except.toOption]
        have hStop := after_fetchPhys b i (ptpaddr + secondIx vaddr) m
        rw [after_iff_outcome] at hStop
        rcases hRead : outcome (fetchPhys b i (ptpaddr + secondIx vaddr)) m with e | _ | entry
        · rw [hRead] at hStop
          rcases hStop.1 with rfl | ⟨-, rfl⟩ <;> rfl
        · rfl
        · simp only [debugSecondEntry_eq _ vaddr rwx]
          cases hSecond : secondEntry entry vaddr rwx <;>
            simp [Except.toOption, refusing, Stop.isTrap, Except.map]

/-- The visit to the page table leaves the mode of the cpu as it is. -/
theorem outcome_walk_leaf (m : Machine δ) (vaddr : Word) (rwx : Memrwx) :
    outcome (walk b i vaddr rwx) m =
      match outcome (findLeaf b i vaddr rwx) m with
      | .ok leaf =>
        (leaf.check (m.mycpus i).super (m.mycpus i).statusSum vaddr rwx).mapError .trap
      | .error e => .error e := by
  have hBus := after_findLeaf b i vaddr rwx m
  rw [after_iff_outcome] at hBus
  unfold walk
  rw [outcome_bind]
  cases hLeaf : outcome (findLeaf b i vaddr rwx) m with
  | error e => rfl
  | ok leaf =>
    simp only [hLeaf] at hBus
    have hSuper := hBus.1.congr (fun c => c.super) (fun _ => rfl) i
    have hSum := hBus.1.congr (fun c => c.statusSum) (fun _ => rfl) i
    simp only [outcome_bind, outcome_getCpu, final_getCpu, hSuper, hSum]
    cases leaf.check (m.mycpus i).super (m.mycpus i).statusSum vaddr rwx <;> rfl

theorem outcome_walk (m : Machine δ) (vaddr : Word) (rwx : Memrwx) :
    outcome (walk b i vaddr rwx) (m.supervisorMode i) =
      match outcome (findLeaf b i vaddr rwx) m with
      | .ok leaf => (leaf.check true true vaddr rwx).mapError .trap
      | .error e => .error e := by
  rw [outcome_walk_leaf, outcome_findLeaf_supervisorMode, Machine.supervisorMode,
    Machine.modCpu_mycpus_self]

/-- The debugger finds what the supervisor finds, but for code of the user. -/
theorem debugTranslatemem_agrees_iff (m : Machine δ) {vaddr : Word} (rwx : Memrwx)
    (hAlign : vaddr &&& 0x3 = 0) :
    outcome (debugTranslatemem b i vaddr rwx) m =
        refusing Stop.isTrap (outcome (translatemem b i vaddr rwx) (m.supervisorMode i)) ↔
      (rwx = .execute → WalkNoUserCode b i m vaddr) := by
  have hCpu : (m.supervisorMode i).mycpus i =
      { m.mycpus i with super := true, statusSum := true } := by
    rw [Machine.supervisorMode, Machine.modCpu_mycpus_self]
  have hWalks : ((m.mycpus i).Walks vaddr → outcome (translatemem b i vaddr rwx)
      (m.supervisorMode i) = outcome (walk b i vaddr rwx) (m.supervisorMode i)) := by
    intro hWalks
    unfold translatemem
    rw [if_neg (not_not_intro (even_of_aligned hAlign))]
    simp only [outcome_bind, outcome_getCpu, final_getCpu, hCpu]
    rw [if_neg (by simp [hWalks.1]), if_neg hWalks.2]
  by_cases hWalk : (m.mycpus i).Walks vaddr
  · rw [hWalks hWalk, outcome_debugTranslatemem b i m rwx hAlign hWalk, outcome_walk]
    unfold WalkNoUserCode
    cases hLeaf : outcome (findLeaf b i vaddr rwx) m with
    | error e =>
      have hNone : rwx = .execute → (m.mycpus i).Walks vaddr → ∀ leaf,
          outcome (findLeaf b i vaddr .execute) m = .ok leaf → ¬leaf.UserCode := by
        rintro rfl - leaf hOk
        rw [hLeaf] at hOk
        cases hOk
      simp only [iff_true_intro hNone, iff_true]
      cases e <;> rfl
    | ok leaf =>
      have hChecked : refusing Stop.isTrap ((leaf.check true true vaddr rwx).mapError .trap) =
          .ok (leaf.check true true vaddr rwx).toOption := by
        cases leaf.check true true vaddr rwx <;> rfl
      have hCode : (rwx = .execute → (m.mycpus i).Walks vaddr → ∀ leaf',
          outcome (findLeaf b i vaddr .execute) m = .ok leaf' → ¬leaf'.UserCode) ↔
          (rwx = .execute → ¬leaf.UserCode) := by
        constructor
        · rintro hAll rfl
          exact hAll rfl hWalk leaf hLeaf
        · rintro hOne rfl - leaf' hLeaf'
          rw [hLeaf] at hLeaf'
          cases hLeaf'
          exact hOne rfl
      rw [hCode, ← leaf.debugCheck_eq_iff vaddr, hChecked]
      simp [refusing, Except.map]
  · have hNone : rwx = .execute → WalkNoUserCode b i m vaddr := fun _ hWalks => absurd hWalks hWalk
    simp only [iff_true_intro hNone, iff_true]
    unfold debugTranslatemem translatemem
    rw [if_neg (not_not_intro (even_of_aligned hAlign))]
    simp only [outcome_bind, outcome_getCpu, final_getCpu, hCpu]
    rw [if_neg (not_not_intro hAlign)]
    split
    · rfl
    next hEnabled =>
      have hHit : vaddr &&& 0xfffff000 = (m.mycpus i).mmuCachedVpage := by
        by_contra hMiss
        exact hWalk ⟨by simpa using hEnabled, hMiss⟩
      rw [if_pos hHit, if_pos hHit]
      have hAllows : Riscvcpu.cachedAllows { m.mycpus i with super := true, statusSum := true } rwx =
          (m.mycpus i).cachedAllows rwx := rfl
      rw [hAllows]
      split <;> rfl

/-! ## A page table in memory -/

/-- The debugger's translation where no entry of the page table is in the registers of a device. -/
def Riscvcpu.debugTranslation (c : Riscvcpu) (ram : BitVec 30 → Word) (vaddr : Word)
    (rwx : Memrwx) : Option Word :=
  if c.mmuEnable = false then some vaddr
  else if vaddr &&& 0xfffff000 = c.mmuCachedVpage then
    if c.cachedAllows rwx then some (c.mmuCachedPpage ||| (vaddr &&& 0x00000fff)) else none
  else (c.tableLeaf b ram vaddr rwx).toOption.bind fun leaf => leaf.debugCheck vaddr rwx

theorem after_debugTranslatemem_mem {m : Machine δ} {vaddr : Word} (rwx : Memrwx)
    (hAlign : vaddr &&& 0x3 = 0)
    (hMem : (m.mycpus i).Walks vaddr → (m.mycpus i).EntryInMemory m.ram vaddr) :
    After (debugTranslatemem b i vaddr rwx)
      (fun pa t => pa = (m.mycpus i).debugTranslation b m.ram vaddr rwx ∧ t = m)
      (fun _ _ => False) m := by
  unfold debugTranslatemem Riscvcpu.debugTranslation
  rw [after_bind, after_getCpu, if_neg (not_not_intro hAlign)]
  split
  · exact ⟨rfl, rfl⟩
  next hOn =>
    split
    · split <;> exact ⟨rfl, rfl⟩
    next hMiss =>
      have hEntryMem := hMem ⟨by simpa using hOn, hMiss⟩
      unfold Riscvcpu.EntryInMemory Riscvcpu.entryAddr at hEntryMem
      unfold Riscvcpu.tableLeaf
      cases hTop : (m.mycpus i).mmuPttoppage with
      | none => exact ⟨rfl, rfl⟩
      | some page =>
        rw [hTop] at hEntryMem
        dsimp only at hEntryMem ⊢
        rw [after_bind, after_get, debugTopEntry_eq _ vaddr rwx]
        cases hEntry : topEntry (busUseMap m.ram page (topIx vaddr)) vaddr rwx with
        | error t => exact ⟨rfl, rfl⟩
        | ok found =>
          cases found with
          | inr leaf => exact ⟨rfl, rfl⟩
          | inl ptpaddr =>
            rw [(topEntry_inl_iff rwx .read).mp hEntry] at hEntryMem
            dsimp only [Except.toOption]
            rw [after_bind, after_fetchPhys_mem b i (hEntryMem _ rfl)]
            cases memFetch b m.ram (ptpaddr + secondIx vaddr) with
            | none => exact ⟨rfl, rfl⟩
            | some entry =>
              dsimp only
              rw [debugSecondEntry_eq _ vaddr rwx]
              cases secondEntry entry vaddr rwx <;> exact ⟨rfl, rfl⟩

/-- The words of main memory that an address is looked up in. -/
def Riscvcpu.WalkReads (c : Riscvcpu) (ram : BitVec 30 → Word) (vaddr : Word) (ix : BitVec 30) :
    Prop :=
  (∃ base, c.mmuPttoppage = some (.ram base) ∧ ix = wordIndex (base + topIx vaddr)) ∨
    ∃ paddr, c.entryAddr ram vaddr = some paddr ∧ paddrRambase ≤ paddr ∧ paddr < paddrRombase ∧
      ix = wordIndex (paddr - paddrRambase)

theorem Riscvcpu.busUseMap_congr {c : Riscvcpu} {ram ram' : BitVec 30 → Word} {vaddr : Word}
    (hSame : ∀ ix, c.WalkReads ram vaddr ix → ram' ix = ram ix) {page : Page}
    (hTop : c.mmuPttoppage = some page) :
    busUseMap ram' page (topIx vaddr) = busUseMap ram page (topIx vaddr) := by
  cases page with
  | ram base => exact hSame _ (.inl ⟨base, hTop, rfl⟩)
  | rom base => rfl

theorem Riscvcpu.entryAddr_congr {c : Riscvcpu} {ram ram' : BitVec 30 → Word} {vaddr : Word}
    (hSame : ∀ ix, c.WalkReads ram vaddr ix → ram' ix = ram ix) :
    c.entryAddr ram' vaddr = c.entryAddr ram vaddr := by
  unfold entryAddr
  cases hTop : c.mmuPttoppage with
  | none => rfl
  | some page =>
    dsimp only
    rw [busUseMap_congr hSame hTop]

theorem Riscvcpu.tableLeaf_congr {c : Riscvcpu} {ram ram' : BitVec 30 → Word} {vaddr : Word}
    (hSame : ∀ ix, c.WalkReads ram vaddr ix → ram' ix = ram ix) (rwx : Memrwx) :
    c.tableLeaf b ram' vaddr rwx = c.tableLeaf b ram vaddr rwx := by
  unfold tableLeaf
  cases hTop : c.mmuPttoppage with
  | none => rfl
  | some page =>
    dsimp only
    rw [busUseMap_congr hSame hTop]
    cases hEntry : topEntry (busUseMap ram page (topIx vaddr)) vaddr rwx with
    | error t => rfl
    | ok found =>
      cases found with
      | inr leaf => rfl
      | inl ptpaddr =>
        have hAddr : c.entryAddr ram vaddr = some (ptpaddr + secondIx vaddr) := by
          unfold entryAddr
          rw [hTop]
          dsimp only
          rw [(topEntry_inl_iff rwx .read).mp hEntry]
        have hEntryWord : memFetch b ram' (ptpaddr + secondIx vaddr) =
            memFetch b ram (ptpaddr + secondIx vaddr) := by
          unfold memFetch
          split
          · rfl
          next hLow =>
            split
            next hHigh =>
              rw [hSame _ (.inr ⟨_, hAddr, BitVec.not_lt.mp hLow, hHigh, rfl⟩)]
            next => rfl
        dsimp only
        rw [hEntryWord]

theorem Riscvcpu.debugTranslation_congr {c : Riscvcpu} {ram ram' : BitVec 30 → Word} {vaddr : Word}
    (hSame : c.Walks vaddr → ∀ ix, c.WalkReads ram vaddr ix → ram' ix = ram ix) (rwx : Memrwx) :
    c.debugTranslation b ram' vaddr rwx = c.debugTranslation b ram vaddr rwx := by
  unfold debugTranslation
  split
  · rfl
  next hOn =>
    split
    · rfl
    next hMiss => rw [tableLeaf_congr b (hSame ⟨by simpa using hOn, hMiss⟩)]

end Sys161.Riscv
