import Sys161.Mips.FetchPath

/-!
# What is computed ahead of a fetch

The pages of the pc and of the address after it are found one or two cycles
before they are used. Two properties of them are carried through a run by the
same argument, with `L` for what is asked of a page and an offset: that they are
there at all, and that they are what translating the address would give now.
-/

namespace Sys161.Mips

open Exec Runs

set_option autoImplicit false

variable {δ : Type} {b : Board δ} (i : Nat)

/-- The physical pages of the TLB have no bits below the page. -/
def Mapping.Aligned (mp : Mapping) : Prop := ∀ ix, (mp.tlb ix).mtPfn &&& 0xfff = 0

/-- What may be asked of a page and an offset computed ahead for an address: a translation gives
it, and so does counting on within the page. -/
structure Ahead (b : Board δ) (L : Mapping → Word → Page → Word → Prop) : Prop where
  fetch : ∀ {mp vaddr page off}, mp.fetch b vaddr = .ok (page, off) → L mp vaddr page off
  next : ∀ {mp vaddr page off}, mp.Aligned → L mp vaddr page off → (vaddr + 4) &&& 0xfff ≠ 0 →
    L mp (vaddr + 4) page (off + 4)

/-- The fetch position of a cpu. -/
structure Position where
  mapping : Mapping
  pc : Word
  nextpc : Word
  pcpage : Option Page
  pcoff : Word
  nextpcpage : Option Page
  nextpcoff : Word

def Mipscpu.position (c : Mipscpu) : Position :=
  ⟨c.mapping, c.pc, c.nextpc, c.pcpage, c.pcoff, c.nextpcpage, c.nextpcoff⟩

variable {L : Mapping → Word → Page → Word → Prop}

section Ready

variable (L) (p : Position)

def PcReady : Prop := ∃ page, p.pcpage = some page ∧ L p.mapping p.pc page p.pcoff

def NextReady : Prop := ∃ page, p.nextpcpage = some page ∧ L p.mapping p.nextpc page p.nextpcoff

def Ready : Prop := PcReady L p ∧ NextReady L p

/-- If the next translation has been put off, the next instruction is RFE, which brings it up to
date. -/
def SlotIsRfe (ram : BitVec 30 → Word) : Prop :=
  p.nextpcpage = none → ∀ page, p.pcpage = some page → busUseMap ram page p.pcoff = fullopRfe

end Ready

theorem position_translated (c : Mipscpu) (vaddr : Word) (iswrite : Bool) :
    (c.translated vaddr iswrite).position = c.position := by
  obtain h | h := translated_eq c vaddr iswrite <;> rw [h]
  rfl

/-! ## Translations -/

section Local

variable (hL : Ahead b L)

include hL

theorem exception_ready (c : Mipscpu) (e : Exn) : Ready L (c.exception b e).position := by
  obtain ⟨page, hPcpage, hNextpcpage, hPc, hNextpc⟩ := exception_precomputed b c e
  exact ⟨⟨page, hPcpage, hL.fetch hPc⟩, ⟨page, hNextpcpage, hL.fetch hNextpc⟩⟩

/-- An exception on the cpu that leaves it ready. -/
def Faulted (L : Mapping → Word → Page → Word → Prop) (m : Machine δ) (e : Stop) (m' : Machine δ) :
    Prop :=
  e = .exception ∧ ∃ c', m' = m.setCpu i c' ∧ Ready L c'.position

theorem precomputePc_ready (m : Machine δ) :
    After (precomputePc b i) (fun _ m' => ∃ c', m' = m.setCpu i c' ∧ PcReady L c'.position ∧
      c'.mapping = (m.mycpus i).mapping ∧ (NextReady L (m.mycpus i).position → NextReady L c'.position))
      (Faulted i L m) m := by
  rw [after_precomputePc]
  dsimp only
  cases hFetch : (m.mycpus i).mapping.fetch b (m.mycpus i).pc with
  | error e => exact ⟨rfl, _, rfl, exception_ready hL _ e⟩
  | ok at_ =>
    obtain ⟨page, off⟩ := at_
    have hSame := position_translated (m.mycpus i) (m.mycpus i).pc false
    have hAt : L ((m.mycpus i).translated (m.mycpus i).pc false).position.mapping
        ((m.mycpus i).translated (m.mycpus i).pc false).position.pc page off := by
      rw [hSame]
      exact hL.fetch hFetch
    refine ⟨_, rfl, ⟨page, rfl, hAt⟩, congrArg Position.mapping hSame, fun hNext => ?_⟩
    rw [← hSame] at hNext
    exact hNext

theorem precomputeNextpc_ready (m : Machine δ) :
    After (precomputeNextpc b i) (fun _ m' => ∃ c', m' = m.setCpu i c' ∧ NextReady L c'.position ∧
      c'.mapping = (m.mycpus i).mapping ∧ (PcReady L (m.mycpus i).position → PcReady L c'.position))
      (Faulted i L m) m := by
  rw [after_precomputeNextpc]
  dsimp only
  cases hFetch : (m.mycpus i).mapping.fetch b (m.mycpus i).nextpc with
  | error e => exact ⟨rfl, _, rfl, exception_ready hL _ e⟩
  | ok at_ =>
    obtain ⟨page, off⟩ := at_
    have hSame := position_translated (m.mycpus i) (m.mycpus i).nextpc false
    have hAt : L ((m.mycpus i).translated (m.mycpus i).nextpc false).position.mapping
        ((m.mycpus i).translated (m.mycpus i).nextpc false).position.nextpc page off := by
      rw [hSame]
      exact hL.fetch hFetch
    refine ⟨_, rfl, ⟨page, rfl, hAt⟩, congrArg Position.mapping hSame, fun hPc => ?_⟩
    rw [← hSame] at hPc
    exact hPc

omit hL in
/-- A part of the core that has been tried came to its end, or left the cpu ready. -/
theorem attempt_of_faulted {x : M δ Unit} {Q : Unit → Machine δ → Prop} {m : Machine δ}
    (hx : After x Q (Faulted i L m) m) :
    After (attempt x) (fun done m' => (done = true ∧ Q () m') ∨
      (done = false ∧ ∃ c', m' = m.setCpu i c' ∧ Ready L c'.position)) (fun _ _ => False) m := by
  rw [after_attempt]
  refine hx.mono (fun _ m' h => .inl ⟨rfl, h⟩) ?_
  rintro _ m' ⟨rfl, h⟩
  exact .inr ⟨rfl, h⟩

/-- From a translation of the pc on, that of the address after it leaves the cpu ready. -/
theorem attempt_precomputeNextpc_ready (m : Machine δ) (c : Mipscpu) (hc : PcReady L c.position) :
    After (attempt (precomputeNextpc b i)) (fun _ m' => ∃ c', m' = m.setCpu i c' ∧ Ready L c'.position)
      (fun _ _ => False) (m.setCpu i c) := by
  refine (attempt_of_faulted i (precomputeNextpc_ready i hL _)).mono ?_ fun _ _ h => h
  rintro _ m' (⟨-, c', rfl, hNext, -, hPc⟩ | ⟨-, c', rfl, hReady⟩)
  · rw [Machine.setCpu_mycpus_self] at hPc
    exact ⟨c', by simp, hPc hc, hNext⟩
  · exact ⟨c', by simp, hReady⟩

theorem precomputeBoth_ready (m : Machine δ) :
    After (precomputeBoth b i) (fun _ m' => ∃ c', m' = m.setCpu i c' ∧ Ready L c'.position)
      (fun _ _ => False) m := by
  unfold precomputeBoth
  rw [after_bind]
  refine (attempt_of_faulted i (precomputePc_ready i hL m)).mono ?_ fun _ _ h => h
  rintro _ m' (⟨-, c', rfl, hPc, -⟩ | ⟨-, c', rfl, hReady⟩)
  · rw [after_bind]
    exact attempt_precomputeNextpc_ready i hL m c' hPc
  · rw [after_bind]
    exact attempt_precomputeNextpc_ready i hL m c' hReady.1

theorem phonyException_ready (m : Machine δ) :
    After (phonyException b i) (fun _ m' => ∃ c', m' = m.setCpu i c' ∧ Ready L c'.position)
      (fun e _ => ∃ msg, e = .smoke msg) m := by
  unfold phonyException
  rw [after_bind, after_modCpu, after_bind]
  refine (attempt_of_faulted i (precomputePc_ready i hL _)).mono ?_ fun _ _ h => h.elim
  rintro done m' (⟨rfl, c', rfl, hPc, -⟩ | ⟨rfl, -⟩)
  · rw [if_pos rfl, after_bind, Machine.modCpu, Machine.setCpu_setCpu]
    refine (attempt_of_faulted i (precomputeNextpc_ready i hL _)).mono ?_ fun _ _ h => h.elim
    rintro done m' (⟨rfl, c'', rfl, hNext, -, hKeep⟩ | ⟨rfl, -⟩)
    · rw [Machine.setCpu_mycpus_self] at hKeep
      exact ⟨c'', by simp, hKeep hPc, hNext⟩
    · exact ⟨_, rfl⟩
  · exact ⟨_, rfl⟩

/-! ## The course of a turn -/

/-- As the pc moves on, what was computed for the address after it is used. -/
theorem advancePc_ready (m : Machine δ) (insn : Word) (hAligned : (m.mycpus i).mapping.Aligned)
    (hNext : insn ≠ fullopRfe → NextReady L (m.mycpus i).position) :
    After (advancePc b i insn)
      (fun _ m' => ∃ c', m' = m.setCpu i c' ∧ (insn ≠ fullopRfe → Ready L c'.position))
      (Faulted i L m) m := by
  unfold advancePc
  rw [after_bind, after_modCpu, after_bind, after_getCpu, Machine.modCpu,
    Machine.setCpu_mycpus_self]
  split
  · split
    · rename_i hRfe
      exact ⟨_, by simp [Machine.modCpu]; rfl, fun hne => absurd hRfe hne⟩
    · rename_i hRfe
      have hPc : PcReady L (m.mycpus i).advance.position := hNext hRfe
      refine (precomputeNextpc_ready i hL _).mono ?_ ?_
      · rintro _ m' ⟨c', rfl, hNextReady, -, hKeep⟩
        rw [Machine.setCpu_mycpus_self] at hKeep
        exact ⟨c', by simp, fun _ => ⟨hKeep hPc, hNextReady⟩⟩
      · rintro e m' ⟨he, c', rfl, hReady⟩
        exact ⟨he, c', by simp, hReady⟩
  · rename_i hPage
    refine ⟨_, by simp [Machine.modCpu]; rfl, fun hRfe => ?_⟩
    obtain ⟨page, hNextpcpage, hAt⟩ := hNext hRfe
    exact ⟨⟨page, hNextpcpage, hAt⟩, ⟨page, hNextpcpage, hL.next hAligned hAt hPage⟩⟩

/-- What holds of the fetch position of a cpu between two turns. -/
def CpuReady (L : Mapping → Word → Page → Word → Prop) (p : Position) : Prop :=
  PcReady L p ∧ (NextReady L p ∨ p.nextpcpage = none)

omit hL in
theorem Ready.cpuReady {p : Position} (h : Ready L p) : CpuReady L p := ⟨h.1, .inl h.2⟩

theorem startCycle_ready (c : Mipscpu) (hc : CpuReady L c.position) :
    CpuReady L (c.startCycle b).position := by
  have hSame : c.updateExpc.position = c.position := by
    unfold Mipscpu.updateExpc
    split <;> rfl
  unfold Mipscpu.startCycle
  dsimp only
  split
  · exact (exception_ready hL c.updateExpc ⟨.irq, 0, 0⟩).cpuReady
  · rw [hSame]
    exact hc

omit hL in
/-- The other cpus are as they were. -/
def Elsewhere (m m' : Machine δ) : Prop := ∀ j, j ≠ i → m'.mycpus j = m.mycpus j

omit hL in
theorem elsewhere_setCpu (m : Machine δ) (c : Mipscpu) : Elsewhere i m (m.setCpu i c) :=
  fun _ hj => Machine.setCpu_mycpus_ne m c hj

omit hL in
theorem Elsewhere.trans {m m' m'' : Machine δ} (h : Elsewhere i m m') (h' : Elsewhere i m' m'') :
    Elsewhere i m m'' :=
  fun j hj => (h' j hj).trans (h j hj)

/-- How a turn leaves a cpu that was ready before an instruction is executed. -/
def IssueReady (L : Mapping → Word → Page → Word → Prop) (m : Machine δ) (is : Issue)
    (m' : Machine δ) : Prop :=
  Elsewhere i m m' ∧ match is with
    | .idle => CpuReady L (m'.mycpus i).position
    | .fault | .breakpoint => Ready L (m'.mycpus i).position
    | .insn insn => insn ≠ fullopRfe → Ready L (m'.mycpus i).position

theorem fetch_ready (m : Machine δ) (hAligned : (m.mycpus i).mapping.Aligned)
    (hm : CpuReady L (m.mycpus i).position) (hSlot : SlotIsRfe (m.mycpus i).position m.ram) :
    After (fetch b i) (IssueReady i L m) (fun e _ => ∃ msg, e = .smoke msg) m := by
  obtain ⟨⟨page, hPage, -⟩, hNext⟩ := hm
  have hPcpage : (m.mycpus i).pcpage = some page := hPage
  unfold fetch
  rw [after_bind, after_getCpu, after_bind, hPcpage, after_useMap_some, after_bind]
  have hNextReady : busUseMap m.ram page (m.mycpus i).pcoff ≠ fullopRfe →
      NextReady L (m.mycpus i).position := by
    intro hRfe
    refine hNext.resolve_right fun hNone => ?_
    exact hRfe (hSlot hNone page hPage)
  refine (attempt_of_faulted i (advancePc_ready i hL m _ hAligned hNextReady)).mono ?_
    fun _ _ h => h.elim
  generalize busUseMap m.ram page (m.mycpus i).pcoff = insn
  rintro done m' (⟨rfl, c', rfl, hReady⟩ | ⟨rfl, c', rfl, hReady⟩)
  · rw [if_pos rfl, after_bind, after_modCpu, after_bind, after_get, after_bind, after_getCpu,
      Machine.modCpu, Machine.setCpu_setCpu, Machine.setCpu_mycpus_self]
    split
    · rename_i hBreak
      unfold breakpoint
      rw [after_bind, after_bind]
      refine (phonyException_ready i hL _).mono ?_ fun _ _ h => h
      rintro _ m' ⟨c'', rfl, hReady'⟩
      rw [Machine.setCpu_setCpu]
      refine ⟨fun j hj => ?_, ?_⟩
      · exact (Machine.modCpu_mycpus_ne _ _ hj).trans (Machine.setCpu_mycpus_ne m c'' hj)
      · have hSelf := Machine.modCpu_mycpus_self (m.setCpu i c'') i fun c =>
          { c with exCount := c.exCount - 1, hitBreakpoint := true }
        rw [Machine.setCpu_mycpus_self] at hSelf
        exact (congrArg (fun c : Mipscpu => Ready L c.position) hSelf).mpr hReady'
    · refine ⟨elsewhere_setCpu i m _, fun hRfe => ?_⟩
      rw [Machine.setCpu_mycpus_self]
      exact hReady hRfe
  · refine ⟨elsewhere_setCpu i m c', ?_⟩
    rw [Machine.setCpu_mycpus_self]
    exact hReady

theorem issue_ready (m : Machine δ) (hAligned : (m.mycpus i).mapping.Aligned)
    (hm : CpuReady L (m.mycpus i).position)
    (hSlot : (m.mycpus i).state = .running →
      SlotIsRfe ((m.mycpus i).startCycle b).position m.ram) :
    After (issue b i) (IssueReady i L m) (fun e _ => ∃ msg, e = .smoke msg) m := by
  unfold issue
  rw [after_bind, after_getCpu]
  split
  · exact ⟨fun _ _ => rfl, hm⟩
  · rename_i hRunning
    rw [after_bind, after_modCpu, after_bind]
    have hStart := startCycle_ready hL (m.mycpus i) hm
    have hMapping : ((m.mycpus i).startCycle b).mapping.tlb = (m.mycpus i).mapping.tlb := by
      unfold Mipscpu.startCycle Mipscpu.updateExpc
      dsimp only
      split <;> split <;> rfl
    have hSelf : (m.modCpu i fun c => c.startCycle b).mycpus i = (m.mycpus i).startCycle b :=
      Machine.modCpu_mycpus_self m i _
    refine (fetch_ready i hL ((m.modCpu i fun c => c.startCycle b).countStats i
      (PercpuStats.cycle ((m.modCpu i fun c => c.startCycle b).mycpus i).currentUsermode)) ?_ ?_
      ?_).mono ?_ fun _ _ h => h
    · intro ix
      have hTlb : (((m.modCpu i fun c => c.startCycle b).mycpus i).mapping.tlb ix) =
          (m.mycpus i).mapping.tlb ix := by rw [Machine.modCpu_mycpus_self, hMapping]
      exact (congrArg (fun mt : Mipstlb => mt.mtPfn &&& 0xfff) hTlb).trans (hAligned ix)
    · show CpuReady L ((m.modCpu i fun c => c.startCycle b).mycpus i).position
      rw [hSelf]
      exact hStart
    · show SlotIsRfe ((m.modCpu i fun c => c.startCycle b).mycpus i).position m.ram
      rw [hSelf]
      exact hSlot (not_not.mp hRunning)
    · rintro is m' ⟨hElsewhere, hIs⟩
      have hFirst : Elsewhere i m ((m.modCpu i fun c => c.startCycle b).countStats i
          (PercpuStats.cycle ((m.modCpu i fun c => c.startCycle b).mycpus i).currentUsermode)) :=
        elsewhere_setCpu i m _
      exact ⟨hFirst.trans i hElsewhere, hIs⟩

end Local

end Sys161.Mips
