import Sys161.Riscv.DecodeRuns
import Sys161.Riscv.TornStores

/-!
# Atomic memory operations

An operation reads a word, as one that is written later, and writes it. The
address is translated twice; the second translation finds what the first one
has found.
-/

namespace Sys161.Riscv

open Exec
open Mips (Board wordIndex)

set_option autoImplicit false

variable {δ : Type} {b : Board δ} (i : Nat)

/-! ## The operations -/

/-- What an operation makes of the word in memory and its operand. -/
def Amo.Result (op : Amo) (old val res : Word) : Prop :=
  match op with
  | amoswap => res = val
  | amoadd => res.toNat = (old.toNat + val.toNat) % 2 ^ 32
  | amoand => ∀ k, res.getLsbD k = (old.getLsbD k && val.getLsbD k)
  | amoor => ∀ k, res.getLsbD k = (old.getLsbD k || val.getLsbD k)
  | amoxor => ∀ k, res.getLsbD k = (old.getLsbD k ^^ val.getLsbD k)
  | amomax => res.toInt = max old.toInt val.toInt
  | amomaxu => res.toNat = max old.toNat val.toNat
  | amomin => res.toInt = min old.toInt val.toInt
  | amominu => res.toNat = min old.toNat val.toNat

theorem Amo.result_eval (op : Amo) (old val : Word) : op.Result old val (op.eval old val) := by
  cases op with
  | amoswap => rfl
  | amoadd => exact BitVec.toNat_add old val
  | amoand => exact fun k => BitVec.getLsbD_and
  | amoor => exact fun k => BitVec.getLsbD_or
  | amoxor => exact fun k => BitVec.getLsbD_xor
  | amomax =>
    simp only [Result, eval, BitVec.slt, decide_eq_true_eq]
    split <;> omega
  | amomaxu =>
    simp only [Result, eval, BitVec.ult, decide_eq_true_eq]
    split <;> omega
  | amomin =>
    simp only [Result, eval, BitVec.slt, decide_eq_true_eq]
    split <;> omega
  | amominu =>
    simp only [Result, eval, BitVec.ult, decide_eq_true_eq]
    split <;> omega

/-! ## The second translation -/

variable (b) in
/-- The translation is made without a change to the machine. -/
def Answers (vaddr : Word) (rwx : Memrwx) (paddr : Word) (m : Machine δ) : Prop :=
  (translatemem b i vaddr rwx).run m = .ok paddr m

/-- What the cpu answers from: no table, the cache, or the top level of the table. -/
def Riscvcpu.Near (c : Riscvcpu) (b : Board δ) (ram : BitVec 30 → Word) (vaddr : Word)
    (rwx : Memrwx) : Prop :=
  c.mmuEnable = false ∨ c.Hit vaddr ∨
    ∃ leaf, leaf.superpage = true ∧ c.tableLeaf b ram vaddr rwx = .ok leaf

theorem Riscvcpu.entryInMemory_of_superpage {c : Riscvcpu} {ram : BitVec 30 → Word} {vaddr : Word}
    {rwx : Memrwx} {leaf : Leaf} (hSuper : leaf.superpage = true)
    (hLeaf : c.tableLeaf b ram vaddr rwx = .ok leaf) : c.EntryInMemory ram vaddr := by
  intro paddr hEntry
  unfold entryAddr at hEntry
  unfold tableLeaf at hLeaf
  cases hTop : c.mmuPttoppage with
  | none =>
    rw [hTop] at hEntry
    cases hEntry
  | some page =>
    rw [hTop] at hEntry hLeaf
    dsimp only at hEntry hLeaf
    cases hFound : topEntry (busUseMap ram page (topIx vaddr)) vaddr rwx with
    | error t =>
      rw [hFound] at hLeaf
      cases hLeaf
    | ok found =>
      rw [hFound] at hLeaf
      cases found with
      | inl ptpaddr =>
        dsimp only at hLeaf
        cases hRead : memFetch b ram (ptpaddr + secondIx vaddr) with
        | none =>
          rw [hRead] at hLeaf
          cases hLeaf
        | some entry =>
          rw [hRead] at hLeaf
          rw [leaf_of_secondEntry hLeaf] at hSuper
          cases hSuper
      | inr leaf' =>
        cases hAny : topEntry (busUseMap ram page (topIx vaddr)) vaddr .read with
        | error t =>
          rw [hAny] at hEntry
          cases hEntry
        | ok found' =>
          rw [hAny] at hEntry
          cases found' with
          | inl ptpaddr =>
            rw [(topEntry_inl_iff .read rwx).mp hAny] at hFound
            cases hFound
          | inr leaf'' => cases hEntry

theorem answers_of_near {vaddr paddr : Word} {rwx : Memrwx} {m : Machine δ}
    (hEven : vaddr &&& 0x1 = 0)
    (hTrans : (m.mycpus i).translation b m.ram vaddr rwx = .ok paddr)
    (hNear : (m.mycpus i).Near b m.ram vaddr rwx) : Answers b i vaddr rwx paddr m := by
  have hMem : (m.mycpus i).Walks vaddr → (m.mycpus i).EntryInMemory m.ram vaddr := by
    rintro ⟨hOn, hMiss⟩
    obtain hOff | hHit | ⟨leaf, hSuper, hLeaf⟩ := hNear
    · cases hOff.symm.trans hOn
    · exact absurd hHit.2 hMiss
    · exact Riscvcpu.entryInMemory_of_superpage hSuper hLeaf
  have hRun : After (translatemem b i vaddr rwx) (fun found t => found = paddr ∧ t = m)
      (fun _ _ => False) m := by
    apply (after_translatemem_mem b i hEven hMem).mono
    · rintro found t ⟨hFound, hSame⟩
      refine ⟨Except.ok.inj (hFound.symm.trans hTrans), ?_⟩
      rcases hSame with rfl | ⟨⟨hOn, hMiss⟩, leaf, hLeaf, rfl⟩
      · rfl
      · obtain hOff | hHit | ⟨leaf', hSuper, hLeaf'⟩ := hNear
        · cases hOff.symm.trans hOn
        · exact absurd hHit.2 hMiss
        · obtain rfl := Except.ok.inj (hLeaf.symm.trans hLeaf')
          rw [Machine.modCpu, Riscvcpu.fill, if_pos hSuper, Machine.setCpu_self]
    · rintro e t ⟨tr, hFault, -⟩
      cases hFault.symm.trans hTrans
  unfold After at hRun
  unfold Answers
  cases hEnd : (translatemem b i vaddr rwx).run m with
  | ok found t =>
    rw [hEnd] at hRun
    rw [hRun.1, hRun.2]
  | error e t =>
    rw [hEnd] at hRun
    exact hRun.elim

theorem after_translatemem_near (vaddr : Word) (rwx : Memrwx) (m : Machine δ) :
    After (translatemem b i vaddr rwx)
      (fun _ t => vaddr &&& 0x1 = 0 ∧ (t.mycpus i).Near b t.ram vaddr rwx) (fun _ _ => True) m := by
  unfold translatemem
  rw [after_ite]
  split
  · trivial
  next hEven =>
    rw [not_not] at hEven
    rw [after_bind, after_getCpu, after_ite]
    split
    next hOff => exact ⟨hEven, .inl hOff⟩
    next hOn =>
      rw [after_ite]
      split
      next hPage =>
        rw [after_ite]
        split
        · exact ⟨hEven, .inr (.inl ⟨by simpa using hOn, hPage⟩)⟩
        · trivial
      next hPage =>
        unfold walk
        rw [after_bind]
        refine (after_findLeaf b i vaddr rwx m).mono ?_ fun _ _ _ => trivial
        rintro leaf t ⟨ht, hSuper⟩
        rw [after_bind, after_getCpu, after_bind]
        cases hCheck : leaf.check (t.mycpus i).super (t.mycpus i).statusSum vaddr rwx with
        | error tr => trivial
        | ok paddr =>
          have hOn' : (t.mycpus i).mmuEnable = true := by
            rw [ht.congr (fun c => c.mmuEnable) (fun _ => rfl) i]
            simpa using hOn
          rw [after_liftTrap_ok, after_bind, after_modCpu, after_pure, Machine.modCpu_mycpus_self]
          refine ⟨hEven, .inr ?_⟩
          cases hLeaf : leaf.superpage with
          | false =>
            refine .inl ?_
            rw [Riscvcpu.fill, hLeaf, if_neg Bool.false_ne_true]
            exact ⟨hOn', rfl⟩
          | true =>
            refine .inr ⟨leaf, hLeaf, ?_⟩
            rw [Riscvcpu.fill, hLeaf, if_pos rfl]
            change (t.mycpus i).tableLeaf b t.ram vaddr rwx = .ok leaf
            rw [ht.congr (fun c => c.tableLeaf b t.ram vaddr rwx) (fun _ => rfl) i, ht.ram]
            exact hSuper hLeaf

theorem Answers.of_bused {vaddr paddr : Word} {rwx : Memrwx} {t u : Machine δ}
    (hEven : vaddr &&& 0x1 = 0)
    (hTrans : (t.mycpus i).translation b t.ram vaddr rwx = .ok paddr)
    (hNear : (t.mycpus i).Near b t.ram vaddr rwx) (hu : Bused t u) :
    Answers b i vaddr rwx paddr u := by
  apply answers_of_near i hEven
  · rw [hu.congr (fun c => c.translation b u.ram vaddr rwx) (fun _ => rfl) i, hu.ram]
    exact hTrans
  · rw [hu.congr (fun c => c.Near b u.ram vaddr rwx) (fun _ => rfl) i, hu.ram]
    exact hNear

/-! ## One step -/

/-- The cpu looks the same to an instruction. -/
structure SameHere (m t : Machine δ) : Prop where
  x : (t.mycpus i).x = (m.mycpus i).x
  lr : (t.mycpus i).lrActive = false
  ram : t.ram = m.ram

theorem sameHere_noLr (m : Machine δ) : SameHere i m (m.modCpu i Riscvcpu.noLr) := by
  refine ⟨?_, ?_, rfl⟩
  · rw [Machine.modCpu_mycpus_self]
    rfl
  · rw [Machine.modCpu_mycpus_self]
    rfl

theorem sameHere_bus {m : Machine δ} : BusBlind (SameHere i m) := by
  rintro t u hu ⟨hx, hLr, hRam⟩
  refine ⟨?_, ?_, hu.ram.trans hRam⟩
  · exact (hu.congr (fun c => c.x) (fun _ => rfl) i).trans hx
  · exact (hu.congr (fun c => c.lrActive) (fun _ => rfl) i).trans hLr

theorem sameHere_fill {m : Machine δ} : FillBlind i (SameHere i m) := by
  rintro vaddr leaf t ⟨hx, hLr, hRam⟩
  refine ⟨?_, ?_, hRam⟩
  · rw [Machine.modCpu_mycpus_self, ← hx]
    unfold Riscvcpu.fill
    split <;> rfl
  · rw [Machine.modCpu_mycpus_self, ← hLr]
    unfold Riscvcpu.fill
    split <;> rfl

theorem noLr_of_sameHere {m u : Machine δ} (h : SameHere i m u) :
    (u.modCpu i fun c => { c with lrActive := false }) = u := by
  have hCpu : { u.mycpus i with lrActive := false } = u.mycpus i := by
    rw [← h.lr]
  rw [Machine.modCpu, hCpu, Machine.setCpu_self]

/-- The operation with one translation and nothing between the read and the write. -/
def amoOnce (b : Board δ) (i : Nat) (op : Amo) (rd : Reg) (addr val : Word) : M δ Unit := do
  modCpu i Riscvcpu.noLr
  let paddr ← translatemem b i addr .write
  match ← fetchPhys b i paddr with
  | none => throw (.trap (accessfault addr .write))
  | some old =>
    if ← storePhys b i paddr (op.eval old val) then
      setX i rd old
    else
      throw (.trap (accessfault addr .write))

theorem alignDown_of_aligned {addr : Word} (h : addr &&& 0x3 = 0) : alignDown addr = addr := by
  apply BitVec.eq_of_toNat_eq
  have hNat := congrArg BitVec.toNat h
  rw [PageBits.toNat_align] at hNat
  change addr.toNat % 4 = 0 at hNat
  rw [alignDown, PageBits.toNat_word]
  omega

theorem after_rxDoAmo (op : Amo) (rd rs1 rs2 : Reg) {m : Machine δ}
    (hAlign : (m.mycpus i).x rs1 &&& 0x3 = 0) {Q : Unit → Machine δ → Prop}
    {E : Stop → Machine δ → Prop} :
    After (rxDoAmo b i op rd rs1 rs2) Q E m ↔
      After (amoOnce b i op rd ((m.mycpus i).x rs1) ((m.mycpus i).x rs2)) Q E m := by
  have hHere := sameHere_noLr i m
  unfold rxDoAmo doload amoOnce
  rw [after_bind, after_getCpu]
  dsimp only
  rw [if_pos hAlign, alignDown_of_aligned hAlign, after_bind, after_bind, after_modCpu, after_bind,
    after_modCpu]
  unfold domemFetch
  rw [if_pos rfl, after_bind, after_bind]
  apply after_congr
  refine ((keeps_translatemem b i (sameHere_bus i) (sameHere_fill i) _ .write _ hHere).and
    ((after_translatemem_again b i _ .write _).and (after_translatemem_near i _ .write _))).mono
    ?_ fun _ _ _ => Iff.rfl
  rintro paddr t ⟨ht, hTrans, hEven, hNear⟩
  rw [after_bind, after_bind]
  apply after_congr
  refine (after_fetchPhys b i paddr t).mono ?_ fun _ _ _ => Iff.rfl
  rintro (_ | old) u hu
  · rfl
  have hSame := sameHere_bus i t u hu ht
  have hAgain := Answers.of_bused i hEven hTrans hNear hu
  dsimp only
  rw [after_pure, after_bind, after_getCpu, hSame.x]
  unfold dostore storeWord domemStore
  rw [after_bind, after_bind, after_modCpu, noLr_of_sameHere i hSame, if_pos hAlign, after_bind,
    after_ok_iff hAgain, after_bind, after_bind]
  apply after_congr
  refine after_of_forall (fun stored v => ?_) fun _ _ => Iff.rfl
  cases stored <;> rfl

/-! ## Where it stops -/

/-- A write that is refused has written nothing. -/
theorem after_storeConfig_refused (offset : Nat) (val : Word) (m : Machine δ) :
    After (lamebusControllerStoreConfig b offset val) (fun stored t => stored = false → Bused m t)
      (fun _ _ => True) m := by
  unfold lamebusControllerStoreConfig
  dsimp only
  rw [after_ite]
  split
  · exact fun _ => Bused.refl m
  · split
    · split
      · exact fun _ => Bused.hung m _
      · exact fun _ => Bused.refl m
    · have hEnabled : Bused m { m with busEnabledInterrupts := val } :=
        ⟨fun _ => rfl, rfl, fun _ => rfl, rfl, rfl⟩
      exact fun _ => hEnabled.trans (Bused.irqupdate b _)
    · rw [after_ite]
      split
      · exact fun _ => Bused.refl m
      · rw [after_bind]
        exact after_of_forall (fun _ _ hNot => Bool.noConfusion hNot) fun _ _ => trivial
    · exact fun _ => Bused.refl m

theorem after_storePhys_refused (paddr val : Word) (m : Machine δ) :
    After (storePhys b i paddr val) (fun stored t => stored = false → Bused m t)
      (fun _ _ => True) m := by
  unfold storePhys
  rw [after_ite]
  split
  · exact fun _ => Bused.refl m
  · rw [after_ite]
    split
    · unfold busMemStore
      rw [after_ite]
      split
      · exact fun _ => Bused.refl m
      · exact fun hNot => Bool.noConfusion hNot
    · rw [after_ite]
      split
      · exact fun _ => Bused.refl m
      · rw [after_bind, after_getCpu]
        unfold busIoStore
        dsimp only
        rw [after_ite]
        split
        · exact fun _ => Bused.refl m
        · rw [after_ite]
          split
          · trivial
          · rw [after_ite]
            split
            · unfold lamebusControllerStore
              rw [after_ite]
              split
              · rw [after_ite]
                split
                · exact fun _ => Bused.refl m
                · exact (after_storeCpu b _ _ (J := Bused m) (E := fun _ _ => True)
                    (fun _ ht => ht) trivial).mono (fun _ _ ht _ => ht) fun _ _ _ => trivial
              · exact after_storeConfig_refused _ _ m
            · rw [after_bind, after_get, after_bind, after_modify]
              exact fun _ => Bused.reply b m _ _

theorem after_storePhys_below {paddr val : Word} (hBelow : paddr < paddrBusbase) (m : Machine δ) :
    After (storePhys b i paddr val) (fun _ _ => True) (fun _ _ => False) m := by
  unfold storePhys
  rw [after_ite]
  split
  · trivial
  · rw [after_ite]
    split
    · unfold busMemStore
      rw [after_ite]
      split <;> trivial
    · trivial

/-! ## The instructions -/

section Instruction

variable (op : Amo) (rd : Reg) (addr val : Word) (m : Machine δ)

variable (b) in
/-- The word is read and, with no other access between, written. -/
def Performed (u : Machine δ) : Prop :=
  ∃ paddr t old v new w, (translatemem b i addr .write).run (m.modCpu i Riscvcpu.noLr) = .ok paddr t ∧
    (fetchPhys b i paddr).run t = .ok (some old) v ∧ op.Result old val new ∧
    (storePhys b i paddr new).run v = .ok true w ∧ u = w.modCpu i fun c => c.setX rd old

variable (b) in
/-- The word, or the entry of the page table for it, is a register on the bus. -/
def OnBus : Prop :=
  ¬(m.mycpus i).EntryInMemory m.ram addr ∨
    ∃ paddr t, (translatemem b i addr .write).run (m.modCpu i Riscvcpu.noLr) = .ok paddr t ∧
      paddrBusbase ≤ paddr

variable (b) in
/-- A fault of a store, with nothing changed; there is no other end but at a register of the bus. -/
def Refused (e : Stop) (u : Machine δ) : Prop :=
  (∃ tr, e = .trap tr ∧ IsFault addr .write tr ∧ u.ram = m.ram ∧
    (u.mycpus i).x = (m.mycpus i).x) ∨ e.isTrap = false ∧ OnBus b i addr m

theorem after_amoOnce (hAlign : addr &&& 0x3 = 0) :
    After (amoOnce b i op rd addr val) (fun _ u => Performed b i op rd addr val m u)
      (Refused b i addr m) m := by
  have hEven := even_of_aligned hAlign
  have hHere := sameHere_noLr i m
  have hFault : ∀ u, SameHere i m u →
      Refused b i addr m (.trap (accessfault addr .write)) u :=
    fun u hu => .inl ⟨_, rfl, .inr rfl, hu.ram, hu.x⟩
  unfold amoOnce
  rw [after_bind, after_modCpu, after_bind]
  refine (after_run (keeps_translatemem b i (sameHere_bus i) (sameHere_fill i) addr .write _
    hHere)).mono ?_ ?_
  · rintro paddr t ⟨ht, hTrans⟩
    rw [after_bind]
    refine (after_run (after_fetchPhys b i paddr t)).mono ?_ ?_
    · rintro (_ | old) v ⟨hv, hFetch⟩
      · exact hFault v (sameHere_bus i t v hv ht)
      dsimp only
      rw [after_bind]
      refine (after_run ((after_storePhys_refused i paddr _ v).and
        (storePhys_untrapped b i paddr _ v))).mono ?_ ?_
      · rintro (_ | _) w ⟨⟨hRefused, -⟩, hStore⟩
        · have hSame := sameHere_bus i v w (hRefused rfl) (sameHere_bus i t v hv ht)
          exact hFault w hSame
        · exact ⟨paddr, t, old, v, _, w, hTrans, hFetch, op.result_eval old val, hStore, rfl⟩
      · rintro e w ⟨⟨-, hUntrapped⟩, hStop⟩
        refine .inr ⟨hUntrapped, .inr ⟨paddr, t, hTrans, BitVec.not_lt.mp fun hBelow => ?_⟩⟩
        exact after_of_run_error (after_storePhys_below i hBelow v) hStop
    · rintro e v ⟨⟨hIo, -⟩, hStop⟩
      refine .inr ⟨?_, .inr ⟨paddr, t, hTrans, BitVec.not_lt.mp fun hBelow => ?_⟩⟩
      · rcases hIo with rfl | ⟨-, rfl⟩ <;> rfl
      · have hEnds : After (fetchPhys b i paddr) (fun _ _ => True) (fun _ _ => False) t :=
          (after_fetchPhys_mem b i hBelow).mpr trivial
        exact after_of_run_error hEnds hStop
  · rintro e t ⟨⟨ht, hStop⟩, hTrans⟩
    rcases hStop with (⟨tr, rfl, hIs⟩ | rfl) | ⟨hOdd, -⟩
    · exact .inl ⟨tr, rfl, hIs, ht.ram, ht.x⟩
    · refine .inr ⟨rfl, .inl fun hMem => ?_⟩
      have hEntry : ((m.modCpu i Riscvcpu.noLr).mycpus i).EntryInMemory m.ram addr := by
        rw [Machine.modCpu_mycpus_self]
        exact hMem
      obtain ⟨tr, -, hTrap, -⟩ :=
        after_of_run_error (after_translatemem_mem b i hEven fun _ => hEntry) hTrans
      cases hTrap
    · exact absurd hEven hOdd

/-- Where the address is mapped to a word of main memory for writing, the operation is done. -/
theorem after_amoOnce_mem {paddr : Word} {t : Machine δ}
    (hTrans : (translatemem b i addr .write).run (m.modCpu i Riscvcpu.noLr) = .ok paddr t)
    (hIn : InMemory b paddr) {Q : Unit → Machine δ → Prop} {E : Stop → Machine δ → Prop} :
    After (amoOnce b i op rd addr val) Q E m ↔
      Q () ({ t with
        ram := Function.update t.ram (cell paddr) (op.eval (t.ram (cell paddr)) val) }.modCpu i
          fun c => c.setX rd (t.ram (cell paddr))) := by
  obtain ⟨hLow, hHigh, hInside⟩ := hIn
  have hBelow : paddr < paddrBusbase := by
    simp only [paddrRombase, paddrBusbase] at hHigh ⊢
    bv_omega
  unfold amoOnce
  rw [after_bind, after_modCpu, after_bind, after_ok_iff hTrans, after_bind,
    after_fetchPhys_mem b i hBelow, memFetch, if_neg (BitVec.not_lt.mpr hLow), if_pos hHigh,
    if_neg (BitVec.not_le.mpr hInside)]
  dsimp only
  rw [after_bind, after_storePhys_mem b i ⟨hLow, hHigh, hInside⟩]
  rfl

end Instruction

variable (b) in
/-- The nine operations at an aligned address, with any of the registers the same. -/
theorem amo_exact (op : Amo) (aqrl : BitVec 2) (rd rs1 rs2 : Reg) (m : Machine δ)
    (hAlign : (m.mycpus i).x rs1 &&& 0x3 = 0) :
    let addr := (m.mycpus i).x rs1
    let val := (m.mycpus i).x rs2
    let insn := (Rv32.amo op aqrl rd rs1 rs2).encode
    After (insn32 b i insn) (fun _ u => Performed b i op rd addr val m u) (Refused b i addr m) m ∧
    ∀ paddr t, (translatemem b i addr .write).run (m.modCpu i Riscvcpu.noLr) = .ok paddr t →
      InMemory b paddr → ∃ new, op.Result (m.ram (cell paddr)) val new ∧
        (insn32 b i insn).run m = .ok false
          ({ t with ram := Function.update m.ram (cell paddr) new }.modCpu i
            fun c => c.setX rd (m.ram (cell paddr))) ∧
        (t.mycpus i).x = (m.mycpus i).x ∧ t.ram = m.ram := by
  intro addr val insn
  have hInsn : ∀ (Q : Bool → Machine δ → Prop) (E : Stop → Machine δ → Prop),
      After (insn32 b i insn) Q E m ↔
        After (amoOnce b i op rd addr val) (fun _ => Q false) E m := by
    intro Q E
    rw [insn32_encode b i (Rv32.amo op aqrl rd rs1 rs2) id, Rv32.call, Insn.exec, after_bind,
      after_rxDoAmo i op rd rs1 rs2 hAlign]
    rfl
  refine ⟨(hInsn _ _).mpr (after_amoOnce i op rd addr val m hAlign), fun paddr t hTrans hIn => ?_⟩
  have hHere := sameHere_noLr i m
  have hSame := after_of_run_ok
    (keeps_translatemem b i (sameHere_bus i) (sameHere_fill i) addr .write _ hHere) hTrans
  refine ⟨_, op.result_eval (m.ram (cell paddr)) val, ?_, hSame.x, hSame.ram⟩
  have hEnd : After (insn32 b i insn) (fun stopped u => stopped = false ∧
      u = { t with ram := Function.update m.ram (cell paddr) (op.eval (m.ram (cell paddr)) val) }.modCpu
        i fun c => c.setX rd (m.ram (cell paddr))) (fun _ _ => False) m := by
    rw [hInsn, after_amoOnce_mem i op rd addr val m hTrans hIn, hSame.ram]
    exact ⟨rfl, rfl⟩
  obtain ⟨stopped, u, hRun, rfl, rfl⟩ := exists_of_after hEnd
  exact hRun

/-- `amoswap` of a register with the word at the address that it holds. -/
theorem amo_exact_swap : ∃ u, (insn32 bareBoard 0 (Rv32.amo .amoswap 0 5 6 6).encode).run
      ((machineInit () false).modCpu 0 fun c => { c with x := fun _ => 0xc0000010 }) = .ok false u ∧
    u.ram 4 = 0xc0000010 ∧ (u.mycpus 0).x 5 = 0 ∧ (u.mycpus 0).x 6 = 0xc0000010 := by
  obtain ⟨new, hNew, hRun, hX, -⟩ := (amo_exact bareBoard 0 .amoswap 0 5 6 6
    ((machineInit () false).modCpu 0 fun c => { c with x := fun _ => 0xc0000010 }) rfl).2
    0xc0000010 _ rfl ⟨by decide, by decide, by decide⟩
  refine ⟨_, hRun, hNew, ?_, ?_⟩
  · rw [Machine.modCpu_mycpus_self]
    rfl
  · rw [Machine.modCpu_mycpus_self]
    rfl

end Sys161.Riscv
