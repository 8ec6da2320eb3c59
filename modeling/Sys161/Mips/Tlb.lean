import Mathlib.Logic.Equiv.Basic
import Sys161.Mips.Runs

/-!
# The TLB over a run

No two entries ever match at once unless the machine has hung over it, so that
the scan of the TLB does not depend on the order of its entries.
-/

namespace Sys161.Mips

open Exec Runs

set_option autoImplicit false

variable {δ : Type} {b : Board δ} (i : Nat)

/-! ## Entries that match at once -/

theorem Mipstlb.hits_iff (mt : Mipstlb) (vpage pid : Word) :
    mt.hits vpage pid = true ↔ mt.mtVpn = vpage ∧ (mt.mtPid = pid ∨ mt.mtGlobal = true) := by
  simp [Mipstlb.hits]

theorem Mipstlb.dup_iff (mt mt' : Mipstlb) : mt.dup mt' = true ↔
    mt.mtVpn = mt'.mtVpn ∧ (mt.mtGlobal = true ∨ mt'.mtGlobal = true ∨ mt.mtPid = mt'.mtPid) := by
  simp [Mipstlb.dup, or_assoc]

/-- The ids that a TLB entry can hold. -/
def pidRange : Word := 64

/-- The test of `check_tlb_dups` finds the entries that some id makes match at once. -/
theorem dup_iff_exists_pid {mt mt' : Mipstlb} (hPid : mt.mtPid < pidRange)
    (hPid' : mt'.mtPid < pidRange) : mt.dup mt' = true ↔
      ∃ vpage pid, pid < pidRange ∧ mt.hits vpage pid = true ∧ mt'.hits vpage pid = true := by
  rw [Mipstlb.dup_iff]
  simp only [Mipstlb.hits_iff]
  constructor
  · rintro ⟨hVpn, hGlobal | hGlobal | hSame⟩
    · exact ⟨_, mt'.mtPid, hPid', ⟨rfl, .inr hGlobal⟩, hVpn.symm, .inl rfl⟩
    · exact ⟨_, mt.mtPid, hPid, ⟨rfl, .inl rfl⟩, hVpn.symm, .inr hGlobal⟩
    · exact ⟨_, mt.mtPid, hPid, ⟨rfl, .inl rfl⟩, hVpn.symm, .inl hSame.symm⟩
  · rintro ⟨vpage, pid, -, ⟨rfl, hMatch⟩, hVpn, hMatch'⟩
    refine ⟨hVpn.symm, ?_⟩
    obtain rfl | hGlobal := hMatch
    · exact .inr (hMatch'.elim (fun h => .inr h.symm) .inl)
    · exact .inl hGlobal

theorem dup_of_hits {mt mt' : Mipstlb} {vpage pid : Word} (h : mt.hits vpage pid = true)
    (h' : mt'.hits vpage pid = true) : mt.dup mt' = true := by
  rw [Mipstlb.hits_iff] at h h'
  obtain ⟨rfl, hMatch⟩ := h
  rw [Mipstlb.dup_iff]
  refine ⟨h'.1.symm, ?_⟩
  obtain rfl | hGlobal := hMatch
  · exact .inr (h'.2.elim (fun h => .inr h.symm) .inl)
  · exact .inl hGlobal

/-- At most one entry matches, whatever the page and the id. -/
def TlbUnique (tlb : Nat → Mipstlb) : Prop :=
  ∀ vpage pid ix ix', ix < ntlb → ix' < ntlb → (tlb ix).hits vpage pid = true →
    (tlb ix').hits vpage pid = true → ix = ix'

theorem tlbUnique_reset : TlbUnique resetTlbentry := by
  intro vpage pid ix ix' hix hix' h h'
  rw [Mipstlb.hits_iff] at h h'
  have hVpn : (0x81000000 + BitVec.ofNat 32 ix * 0x1000 : Word) =
      0x81000000 + BitVec.ofNat 32 ix' * 0x1000 := h.1.trans h'.1.symm
  simp only [ntlb] at hix hix'
  bv_omega

theorem TlbUnique.update {tlb : Nat → Mipstlb} (h : TlbUnique tlb) (ix : Nat) (mt : Mipstlb)
    (hNew : ∀ ix' < ntlb, ix' ≠ ix → mt.dup (tlb ix') = false) :
    TlbUnique (Function.update tlb ix mt) := by
  have hOther : ∀ vpage pid ix', ix' < ntlb → ix' ≠ ix → mt.hits vpage pid = true →
      (tlb ix').hits vpage pid = true → False := by
    intro vpage pid ix' hix' hne hHit hHit'
    simpa [hNew ix' hix' hne] using dup_of_hits hHit hHit'
  intro vpage pid ix₁ ix₂ h₁ h₂ hHit₁ hHit₂
  by_cases he₁ : ix₁ = ix <;> by_cases he₂ : ix₂ = ix
  · rw [he₁, he₂]
  · subst he₁
    rw [Function.update_self] at hHit₁
    rw [Function.update_of_ne he₂] at hHit₂
    exact (hOther _ _ _ h₂ he₂ hHit₁ hHit₂).elim
  · subst he₂
    rw [Function.update_of_ne he₁] at hHit₁
    rw [Function.update_self] at hHit₂
    exact (hOther _ _ _ h₁ he₁ hHit₂ hHit₁).elim
  · rw [Function.update_of_ne he₁] at hHit₁
    rw [Function.update_of_ne he₂] at hHit₂
    exact h vpage pid ix₁ ix₂ h₁ h₂ hHit₁ hHit₂

/-! ## The scan -/

/-- In a TLB without duplicates the scan finds the entry that matches. -/
theorem findtlb_eq_some_iff {c : Mipscpu} (h : TlbUnique c.tlb) (vpage : Word) (ix : Nat) :
    findtlb c vpage = some ix ↔
      ix < ntlb ∧ (c.tlb ix).hits vpage c.tlbentry.mtPid = true := by
  have hSound : ∀ ix, findtlb c vpage = some ix →
      ix < ntlb ∧ (c.tlb ix).hits vpage c.tlbentry.mtPid = true := by
    intro ix hFind
    refine ⟨List.mem_range.mp (List.mem_of_find?_eq_some hFind), ?_⟩
    simpa using List.find?_some hFind
  refine ⟨hSound ix, ?_⟩
  rintro ⟨hix, hHit⟩
  cases hFind : findtlb c vpage with
  | none =>
    have hNone := List.find?_eq_none.mp hFind ix (List.mem_range.mpr hix)
    exact absurd hHit hNone
  | some ix' =>
    obtain ⟨hix', hHit'⟩ := hSound ix' hFind
    rw [h _ _ _ _ hix' hix hHit' hHit]

/-- A scan in any order, and of the entries in any order, comes to the same. -/
structure OrderIndependent (c : Mipscpu) : Prop where
  scan : ∀ order : List Nat, order.Perm (List.range ntlb) → ∀ vpage,
    order.find? (fun ix => (c.tlb ix).hits vpage c.tlbentry.mtPid) = findtlb c vpage
  find : ∀ σ : Equiv.Perm Nat, (∀ ix, σ ix < ntlb ↔ ix < ntlb) → ∀ vpage,
    findtlb { c with tlb := c.tlb ∘ σ } vpage = (findtlb c vpage).map σ.symm
  translate : ∀ σ : Equiv.Perm Nat, (∀ ix, σ ix < ntlb ↔ ix < ntlb) → ∀ vaddr iswrite,
    (translate { c with tlb := c.tlb ∘ σ } vaddr iswrite).1 = (translate c vaddr iswrite).1

theorem TlbUnique.comp {tlb : Nat → Mipstlb} (h : TlbUnique tlb) {σ : Equiv.Perm Nat}
    (hσ : ∀ ix, σ ix < ntlb ↔ ix < ntlb) : TlbUnique (tlb ∘ σ) :=
  fun vpage pid ix ix' hix hix' hHit hHit' =>
    σ.injective (h vpage pid _ _ ((hσ ix).mpr hix) ((hσ ix').mpr hix') hHit hHit')

theorem findtlb_comp {c : Mipscpu} (h : TlbUnique c.tlb) {σ : Equiv.Perm Nat}
    (hσ : ∀ ix, σ ix < ntlb ↔ ix < ntlb) (vpage : Word) :
    findtlb { c with tlb := c.tlb ∘ σ } vpage = (findtlb c vpage).map σ.symm := by
  ext ix
  have hComp := findtlb_eq_some_iff (c := { c with tlb := c.tlb ∘ σ }) (h.comp hσ) vpage ix
  rw [hComp, Option.map_eq_some_iff]
  constructor
  · rintro ⟨hix, hHit⟩
    exact ⟨σ ix, (findtlb_eq_some_iff h vpage _).mpr ⟨(hσ ix).mpr hix, hHit⟩, by simp⟩
  · rintro ⟨ix', hFind, rfl⟩
    obtain ⟨hix, hHit⟩ := (findtlb_eq_some_iff h vpage ix').mp hFind
    refine ⟨(hσ _).mp (by simpa using hix), ?_⟩
    simpa using hHit

theorem TlbUnique.orderIndependent {c : Mipscpu} (h : TlbUnique c.tlb) : OrderIndependent c where
  scan order hPerm vpage := by
    cases hFind : findtlb c vpage with
    | none =>
      refine List.find?_eq_none.mpr fun ix hix => ?_
      exact List.find?_eq_none.mp hFind ix (hPerm.mem_iff.mp hix)
    | some ix =>
      obtain ⟨hix, hHit⟩ := (findtlb_eq_some_iff h vpage ix).mp hFind
      cases hOrder : order.find? (fun ix => (c.tlb ix).hits vpage c.tlbentry.mtPid) with
      | none =>
        have hMem := hPerm.mem_iff.mpr (List.mem_range.mpr hix)
        exact absurd hHit (List.find?_eq_none.mp hOrder ix hMem)
      | some ix' =>
        have hix' := List.mem_range.mp (hPerm.mem_iff.mp (List.mem_of_find?_eq_some hOrder))
        have hHit' := List.find?_some hOrder
        rw [h _ _ _ _ hix' hix hHit' hHit]
  find σ hσ vpage := findtlb_comp h hσ vpage
  translate σ hσ vaddr iswrite := by
    have hFind := findtlb_comp (c := c.setVpn (vaddr &&& 0xfffff000)) h hσ (vaddr &&& 0xfffff000)
    have hEntry : ∀ found : Option Nat, (found.map σ.symm).map (c.tlb ∘ σ) = found.map c.tlb := by
      intro found
      cases found <;> simp
    unfold Mips.translate
    split
    · rfl
    · split
      · rfl
      · have hMapped := congrArg (Option.map (c.tlb ∘ σ)) hFind
        rw [hEntry] at hMapped
        exact congrArg (mapped vaddr iswrite) hMapped

/-! ## Writing an entry -/

/-- The messages of `check_tlb_dups`, in the order they are printed in. -/
def dupHangs (tlb : Nat → Mipstlb) (newix : Nat) (l : List Nat) : List Hang :=
  (l.filter fun ix => ix ≠ newix ∧ (tlb newix).dup (tlb ix) = true).map fun ix =>
    .duplicateTlbEntries (tlb ix).mtVpn

theorem dupHangs_eq_nil_iff (tlb : Nat → Mipstlb) (newix : Nat) :
    dupHangs tlb newix (List.range ntlb) = [] ↔
      ∀ ix < ntlb, ix ≠ newix → (tlb newix).dup (tlb ix) = false := by
  simp [dupHangs, List.filter_eq_nil_iff]

theorem after_checkTlbDups (newix : Nat) (m : Machine δ) :
    After (checkTlbDups i newix) (fun _ m' => m'.mycpus = m.mycpus ∧ m'.ram = m.ram ∧
      m'.hangs = (dupHangs (m.mycpus i).tlb newix (List.range ntlb)).reverse ++ m.hangs)
      (fun _ _ => False) m := by
  unfold checkTlbDups
  rw [after_bind, after_getCpu]
  generalize (m.mycpus i).tlb = tlb
  induction List.range ntlb generalizing m with
  | nil => exact ⟨rfl, rfl, by simp [dupHangs]⟩
  | cons ix l ih =>
    rw [List.forM_eq_forM, List.forM_cons, after_bind, after_ite]
    split
    · rename_i hDup
      refine (ih (m.hung _)).mono ?_ fun _ _ h => h
      rintro _ m' ⟨hCpus, hRam, hHangs⟩
      refine ⟨hCpus, hRam, ?_⟩
      rw [hHangs]
      simp [dupHangs, hDup, Machine.hung]
    · rename_i hDup
      refine (ih m).mono ?_ fun _ _ h => h
      rintro _ m' ⟨hCpus, hRam, hHangs⟩
      refine ⟨hCpus, hRam, ?_⟩
      rw [hHangs]
      simp [dupHangs, hDup]

/-- The TLBs of the cpus are `tlbs` and the messages `hangs`. -/
def TlbsAre (tlbs : Nat → Nat → Mipstlb) (hangs : List Hang) (m : Machine δ) : Prop :=
  (∀ j, (m.mycpus j).tlb = tlbs j) ∧ m.hangs = hangs

theorem fetchBlind_tlbsAre (tlbs : Nat → Nat → Mipstlb) (hangs : List Hang) :
    FetchBlind b (TlbsAre (δ := δ) tlbs hangs) where
  fetchState i _ _ hm :=
    ⟨forall_modCpu (P := fun j c => c.tlb = tlbs j) i hm.1 (hm.1 i), hm.2⟩
  exception i _ _ hm :=
    ⟨forall_modCpu (P := fun j c => c.tlb = tlbs j) i hm.1 (hm.1 i), hm.2⟩
  vpn i _ _ hm :=
    ⟨forall_modCpu (P := fun j c => c.tlb = tlbs j) i hm.1 (hm.1 i), hm.2⟩

/-- A write changes one entry, and hangs over each entry that could match together with it. -/
theorem after_writetlb {ix : Nat} (hix : ix < ntlb) (m : Machine δ) :
    let tlb := Function.update (m.mycpus i).tlb ix (m.mycpus i).tlbentry
    After (writetlb b i ix)
      (fun _ => TlbsAre (Function.update (fun j => (m.mycpus j).tlb) i tlb)
        ((dupHangs tlb ix (List.range ntlb)).reverse ++ m.hangs))
      (fun _ _ => False) m := by
  intro tlb
  have hRange : (0 : Int) ≤ ix ∧ (ix : Int) < ntlb := by omega
  unfold writetlb
  rw [if_pos hRange, after_bind, after_modCpu, after_bind, Int.toNat_natCast]
  refine (after_checkTlbDups i ix _).mono ?_ fun _ _ h => h
  rintro _ m' ⟨hCpus, -, hHangs⟩
  refine (fetchBlind_tlbsAre _ _).precomputeBoth i m' ⟨fun j => ?_, ?_⟩
  · rw [hCpus]
    by_cases hj : j = i
    · subst hj
      simp [tlb]
    · rw [Machine.modCpu_mycpus_ne _ _ hj, Function.update_of_ne hj]
  · rw [hHangs, Machine.modCpu_mycpus_self]
    rfl

/-! ## Runs -/

/-- All cpus have the TLB of `mips_init`. -/
structure TlbReset (m : Machine δ) : Prop where
  tlb : ∀ j, (m.mycpus j).tlb = resetTlbentry
  tlbentry : ∀ j, (m.mycpus j).tlbentry = resetTlbentry ntlb

/-- What is asked of an entry is kept by writes of TLBHI and TLBLO. -/
structure EntryLaw (P : Mipstlb → Prop) : Prop where
  vpn : ∀ mt vpage, P mt → P { mt with mtVpn := vpage }
  tlbsetlo : ∀ mt val, P mt → P (Mips.tlbsetlo mt val)
  tlbsethi : ∀ mt val, P mt → P (Mips.tlbsethi mt val)

/-- All entries, and what the next one is written from, meet `P`. -/
def Entries (P : Mipstlb → Prop) (c : Mipscpu) : Prop := (∀ ix, P (c.tlb ix)) ∧ P c.tlbentry

section Entries

variable {P : Mipstlb → Prop} (hP : EntryLaw P)

include hP

theorem cpuBlind_entries : CpuBlind b (Entries P) where
  fetchState _ _ hc := hc
  exception _ _ hc := hc
  vpn _ _ hc := ⟨hc.1, hP.vpn _ _ hc.2⟩
  hitBreakpoint _ _ hc := hc
  exCount _ _ hc := hc
  irqLines _ _ hc := hc
  state _ _ hc := hc
  startReg _ _ _ _ hc := hc

theorem Entries.mtc0 {c : Mipscpu} (h : Entries P c) (greg : Word) (c0 : C0) :
    Entries P (c.mtc0 greg c0) := by
  cases c0 with
  | tlblo => exact ⟨h.1, hP.tlbsetlo _ _ h.2⟩
  | tlbhi => exact ⟨h.1, hP.tlbsethi _ _ h.2⟩
  | _ => exact h

theorem step_entries {m m' : Machine δ} {a : Act δ} (hm : ∀ j, Entries P (m.mycpus j))
    (hStep : Step b m a m') : ∀ j, Entries P (m'.mycpus j) := by
  have hBlind : BusBlind b fun m : Machine δ => ∀ j, Entries P (m.mycpus j) :=
    CpuBlind.busBlind fun _ => cpuBlind_entries hP
  refine hBlind.step_of_rules (fun _ _ _ hm => hm) (fun _ _ hm => hm)
    (fun i m hm => forall_modCpu i hm (hm i)) hm (fun i insn t _ _ => ?_) hStep
  refine hBlind.execBlind.rules i (fun _ _ _ hm => hm) (fun rg val m _ hm => forall_modCpu i hm (hm i))
    (fun _ _ _ _ m hm => forall_modCpu i hm (hm i))
    (fun _ _ _ m hm => forall_modCpu i hm (hm i))
    (fun c0 m _ hm => forall_modCpu i hm ((hm i).mtc0 hP _ c0))
    (fun m hm => forall_modCpu i hm (hm i)) (fun _ _ m hm => forall_modCpu i hm (hm i))
    (fun m hm => forall_modCpu i hm ⟨(hm i).1, (hm i).1 _⟩) ?_
    (fun _ _ m _ hm => forall_modCpu i hm (hm i))
  · refine hBlind.execBlind.writetlb i (fun ix m hm => forall_modCpu i hm ⟨fun ix' => ?_, (hm i).2⟩)
    by_cases hix : ix' = ix
    · subst hix
      simpa using (hm i).2
    · simpa [hix] using (hm i).1 ix'

/-- In a run from a reset TLB every entry meets what the reset entries meet. -/
theorem entries_of_run {m₀ m : Machine δ} (hReset : TlbReset m₀) {p : List (Act δ × Machine δ)}
    (hRun : Path (Step b) m₀ p m) (hStart : ∀ ix, P (resetTlbentry ix)) :
    ∀ j, Entries P (m.mycpus j) := by
  refine hRun.invariant (P := fun m => ∀ j, Entries P (m.mycpus j))
    (fun _ _ _ hm hStep => step_entries hP hm hStep) fun j => ?_
  rw [Entries, hReset.tlb, hReset.tlbentry]
  exact ⟨hStart, hStart _⟩

end Entries

theorem entryLaw_pid : EntryLaw fun mt => mt.mtPid < pidRange where
  vpn _ _ h := h
  tlbsetlo _ _ h := h
  tlbsethi mt val _ := by
    simp only [tlbsethi, pidRange]
    rw [BitVec.lt_def, BitVec.toNat_ushiftRight, BitVec.toNat_and, Nat.shiftRight_eq_div_pow]
    have hMask : val.toNat &&& 4032 ≤ 4032 := Nat.and_le_right
    change (val.toNat &&& 4032) / 2 ^ 6 < 64
    omega

theorem entryLaw_pfn : EntryLaw fun mt => mt.mtPfn &&& 0xfff = 0 where
  vpn _ _ h := h
  tlbsetlo _ val _ := by
    show val &&& 0xfffff000 &&& 0xfff = 0
    rw [BitVec.and_assoc]
    simp
  tlbsethi _ _ h := h

def IsDuplicate (why : Hang) : Prop := ∃ vpage, why = .duplicateTlbEntries vpage

/-- No entries match at once, unless the machine has hung over it. -/
def UniqueUnlessHung (m : Machine δ) : Prop :=
  (∀ why ∈ m.hangs, ¬ IsDuplicate why) → ∀ j, TlbUnique (m.mycpus j).tlb

theorem cpuBlind_tlbUnique : CpuBlind b fun c => TlbUnique c.tlb where
  fetchState _ _ hc := hc
  exception _ _ hc := hc
  vpn _ _ hc := hc
  hitBreakpoint _ _ hc := hc
  exCount _ _ hc := hc
  irqLines _ _ hc := hc
  state _ _ hc := hc
  startReg _ _ _ _ hc := hc

theorem isDuplicate_of_mem_dupHangs {tlb : Nat → Mipstlb} {ix : Nat} {l : List Nat} {why : Hang}
    (h : why ∈ dupHangs tlb ix l) : IsDuplicate why := by
  obtain ⟨ix', -, rfl⟩ := List.mem_map.mp h
  exact ⟨_, rfl⟩

theorem writetlb_uniqueUnlessHung (ix : Int) (m : Machine δ) (hm : UniqueUnlessHung m) :
    After (writetlb b i ix) (fun _ => UniqueUnlessHung) (fun _ => UniqueUnlessHung) m := by
  by_cases hix : 0 ≤ ix ∧ ix < ntlb
  · obtain ⟨n, rfl⟩ := Int.eq_ofNat_of_zero_le hix.1
    have hn : n < ntlb := by omega
    refine (after_writetlb i hn m).mono ?_ fun _ _ h => h.elim
    rintro _ m' ⟨hTlbs, hHangs⟩ hNone j
    rw [hHangs] at hNone
    have hOld := hm fun why hWhy => hNone why (List.mem_append_right _ hWhy)
    rw [hTlbs]
    by_cases hj : j = i
    · subst hj
      rw [Function.update_self]
      refine (hOld j).update n _ fun ix' hix' hne => ?_
      have hNil := (dupHangs_eq_nil_iff _ _).mp (List.eq_nil_iff_forall_not_mem.mpr fun why hWhy =>
        hNone why (List.mem_append_left _ (List.mem_reverse.mpr hWhy))
          (isDuplicate_of_mem_dupHangs hWhy)) ix' hix' hne
      rwa [Function.update_self, Function.update_of_ne hne] at hNil
    · rw [Function.update_of_ne hj]
      exact hOld j
  · unfold writetlb
    rw [if_neg hix]
    exact hm

theorem step_uniqueUnlessHung {m m' : Machine δ} {a : Act δ} (hm : UniqueUnlessHung m)
    (hStep : Step b m a m') : UniqueUnlessHung m' := by
  have hCpu : ∀ (i : Nat) (f : Mipscpu → Mipscpu) (m : Machine δ), (∀ c, (f c).tlb = c.tlb) →
      UniqueUnlessHung m → UniqueUnlessHung (m.modCpu i f) := by
    intro i f m hf hm hNone
    exact forall_modCpu (P := fun _ c => TlbUnique c.tlb) i (hm hNone)
      (by rw [hf]; exact hm hNone i)
  have hBlind : BusBlind b (UniqueUnlessHung (δ := δ)) :=
    (CpuBlind.busBlind fun _ => cpuBlind_tlbUnique).unlessHung IsDuplicate
  refine hBlind.step_of_rules (fun _ _ _ hm => hm) (fun _ _ hm => hm)
    (fun i m => hCpu i _ m fun _ => rfl) hm (fun i insn t _ _ => ?_) hStep
  exact hBlind.execBlind.rules i (fun _ _ _ hm => hm) (fun _ _ m _ => hCpu i _ m fun _ => rfl)
    (fun _ _ _ _ m => hCpu i _ m fun _ => rfl) (fun _ _ _ m => hCpu i _ m fun _ => rfl)
    (fun c0 m _ => hCpu i _ m fun _ => by cases c0 <;> rfl) (fun m => hCpu i _ m fun _ => rfl)
    (fun _ _ m => hCpu i _ m fun _ => rfl) (fun m => hCpu i _ m fun _ => rfl)
    (writetlb_uniqueUnlessHung i) (fun _ _ m _ => hCpu i _ m fun _ => rfl)

/-- In a run from a reset TLB, whatever is written to it: the entries of a TLB do not match at once
unless the machine has hung over it, so that the order of the scan does not matter; and a write
hangs if and only if there is an id for which the new entry and another one match. -/
theorem tlb_unique {m₀ m : Machine δ} (hReset : TlbReset m₀) {p : List (Act δ × Machine δ)}
    (hRun : Path (Step b) m₀ p m) :
    ((∀ vpage, .duplicateTlbEntries vpage ∉ m.hangs) →
      ∀ j, TlbUnique (m.mycpus j).tlb ∧ OrderIndependent (m.mycpus j)) ∧
    ∀ j ix, ix < ntlb → After (writetlb b j ix)
      (fun _ m' => ∃ raised, m'.hangs = raised ++ m.hangs ∧ (∀ why ∈ raised, IsDuplicate why) ∧
        (raised ≠ [] ↔ ∃ vpage pid ix', pid < pidRange ∧ ix' < ntlb ∧ ix' ≠ ix ∧
          (m.mycpus j).tlbentry.hits vpage pid = true ∧
          ((m.mycpus j).tlb ix').hits vpage pid = true))
      (fun _ _ => False) m := by
  have hPids := entries_of_run entryLaw_pid hReset hRun fun _ =>
    (by decide : (0 : Word) < pidRange)
  have hUnique : UniqueUnlessHung m := by
    refine hRun.invariant (fun _ _ _ hm hStep => step_uniqueUnlessHung hm hStep) fun _ j => ?_
    rw [hReset.tlb]
    exact tlbUnique_reset
  refine ⟨fun hNone j => ?_, fun j ix hix => ?_⟩
  · have hj := hUnique (fun why hWhy hDup => by
      obtain ⟨vpage, rfl⟩ := hDup
      exact hNone vpage hWhy) j
    exact ⟨hj, hj.orderIndependent⟩
  · refine (after_writetlb j hix m).mono ?_ fun _ _ h => h
    rintro _ m' ⟨-, hHangs⟩
    refine ⟨_, hHangs, fun why hWhy => isDuplicate_of_mem_dupHangs (List.mem_reverse.mp hWhy), ?_⟩
    rw [Ne, List.reverse_eq_nil_iff, dupHangs_eq_nil_iff]
    push Not
    constructor
    · rintro ⟨ix', hix', hne, hDup⟩
      rw [Function.update_self, Function.update_of_ne hne, Bool.ne_false_iff,
        dup_iff_exists_pid (hPids j).2 ((hPids j).1 ix')] at hDup
      obtain ⟨vpage, pid, hPid, hHit, hHit'⟩ := hDup
      exact ⟨vpage, pid, ix', hPid, hix', hne, hHit, hHit'⟩
    · rintro ⟨vpage, pid, ix', -, hix', hne, hHit, hHit'⟩
      refine ⟨ix', hix', hne, ?_⟩
      rw [Function.update_self, Function.update_of_ne hne, Bool.ne_false_iff]
      exact dup_of_hits hHit hHit'

theorem tlbReset_machineInit (devices : δ) (gdbReady : Bool) :
    TlbReset (machineInit devices gdbReady) where
  tlb _ := rfl
  tlbentry _ := rfl

/-- Moves to TLBHI, TLBLO and INDEX, and TLBWI, which writes entry 0; then INDEX names entry 1. -/
def writeEntry : List (Act Unit) :=
  [.poke 0 0x24021000, .poke 1 0x40825000, .poke 2 0x24030200, .poke 3 0x40831000,
    .poke 4 0x40800000, .poke 5 0x42000002, .poke 6 0x24040100, .poke 7 0x40840000,
    .setEntrypoint 0 0x80000000] ++ List.replicate 8 (.turn 0)

/-- The order of the scan does not matter after the write; to write the same to entry 1 hangs. -/
theorem tlb_unique_written : ∃ p m, Path (Step bareBoard) (machineInit () false) p m ∧
    p.map Prod.fst = writeEntry ∧ ((m.mycpus 0).tlb 0).hits 0x1000 0 = true ∧
    OrderIndependent (m.mycpus 0) ∧
    After (writetlb bareBoard 0 1) (fun _ m' => m'.hangs ≠ []) (fun _ _ => False) m := by
  have hSeen : seen bareBoard writeEntry (machineInit () false) (fun m =>
      (m.hangs, (m.mycpus 0).tlbentry.hits 0x1000 0, ((m.mycpus 0).tlb 0).hits 0x1000 0)) =
      some ([], true, true) := by
    decide +kernel
  obtain ⟨p, m, hPath, hActs, hLook⟩ := path_of_seen hSeen (by decide)
  simp only [Prod.mk.injEq] at hLook
  obtain ⟨hNone, hNew, hOld⟩ := hLook
  obtain ⟨hUnique, hWrite⟩ := tlb_unique (tlbReset_machineInit () false) hPath
  refine ⟨p, m, hPath, hActs, hOld, (hUnique (by simp [hNone]) 0).2, ?_⟩
  refine (hWrite 0 1 (by decide)).mono ?_ fun _ _ h => h
  rintro _ m' ⟨raised, hHangs, -, hIff⟩
  have hRaised : raised ≠ [] :=
    hIff.mpr ⟨0x1000, 0, 0, by decide, by decide, by decide, hNew, hOld⟩
  rw [hHangs]
  exact List.append_ne_nil_of_left_ne_nil hRaised _

end Sys161.Mips
