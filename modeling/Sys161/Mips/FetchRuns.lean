import Sys161.Lib.PageBits
import Sys161.Mips.Coherence

/-!
# The fetch position over a run

For every interleaving of the cpus: when the pages computed ahead are there, and
when they are what the machine would find by translating at the fetch.
-/

namespace Sys161.Mips

open Exec Runs

set_option autoImplicit false

variable {δ : Type} {b : Board δ} (i : Nat) {L : Mapping → Word → Page → Word → Prop}

/-! ## A turn -/

def AllReady (L : Mapping → Word → Page → Word → Prop) (m : Machine δ) : Prop :=
  ∀ j, CpuReady L (m.mycpus j).position

/-- The word at the pc is still the RFE for which the next translation was put off, when the cpu
comes to it. -/
def SlotKept (b : Board δ) (i : Nat) (m : Machine δ) : Prop :=
  (m.mycpus i).state = .running → SlotIsRfe ((m.mycpus i).startCycle b).position m.ram

/-- What the instruction that a turn executes makes of a ready cpu. -/
def RemapsReady (b : Board δ) (L : Mapping → Word → Page → Word → Prop) (i : Nat) (m : Machine δ) :
    Prop :=
  ∀ insn t, (issue b i).run m = .ok (.insn insn) t → Ready L (t.mycpus i).position →
    ∀ c', Remapped insn (t.mycpus i) c' → Ready L c'.position

theorem AllReady.elsewhere {m m' : Machine δ} (hm : AllReady L m) (h : Elsewhere i m m')
    (hi : CpuReady L (m'.mycpus i).position) : AllReady L m' := by
  intro j
  by_cases hj : j = i
  · subst hj
    exact hi
  · rw [h j hj]
    exact hm j

theorem AllExecuting.allReady {m t t' : Machine δ} (hm : AllReady L m) (h : Elsewhere i m t)
    (ht : AllExecuting i L t t') : AllReady L t' := by
  intro j
  have hj := ht j
  unfold Executing at hj
  split at hj
  · exact hj
  · rename_i hne
    obtain hReady | hSame := hj
    · exact hReady.cpuReady
    · rw [hSame, h j hne]
      exact hm j

/-- The end of a cycle leaves the fetch position alone. -/
theorem retire_allReady (retirePc : Word) (retireUsermode : Bool) {E : Stop → Machine δ → Prop} :
    Keeps (AllReady L) E (do
      modCpu i Mipscpu.tick
      retire i retirePc retireUsermode : M δ Unit) := by
  refine Keeps.bind (keeps_modCpu_position (K := fun _ => CpuReady L) i fun _ => rfl) fun _ => ?_
  exact keeps_getCpu i fun _ => Keeps.ite (fun _ m hm => hm) fun _ => Keeps.pure _

theorem complete_allReady {m t : Machine δ} (hm : AllReady L m) (h : Elsewhere i m t) {insn : Word}
    (hExec : After (execute b i insn) (fun _ => AllExecuting i L t) (NoNull (AllExecuting i L t)) t) :
    After (complete b i insn) (fun _ => AllReady L)
      (fun e _ => e ≠ .undefined "null page pointer") t := by
  unfold complete
  rw [after_bind, after_getCpu, after_bind, after_attempt]
  refine hExec.mono (fun _ t' ht' => ?_) fun e t' he => ?_
  · exact retire_allReady i _ _ t' (ht'.allReady i hm h)
  · cases e with
    | exception => exact retire_allReady i _ _ t' ((he.1 rfl).allReady i hm h)
    | smoke | undefined => exact he.2

theorem cpuTurn_allReady (hL : Ahead b L) (m : Machine δ)
    (hAligned : (m.mycpus i).mapping.Aligned) (hm : AllReady L m) (hSlot : SlotKept b i m)
    (hRemap : RemapsReady b L i m) :
    After (cpuTurn b i) (fun _ => AllReady L) (fun e _ => e ≠ .undefined "null page pointer") m := by
  unfold cpuTurn
  rw [after_bind]
  refine (after_run (issue_ready i hL m hAligned (hm i) hSlot)).mono ?_ ?_
  · rintro (_ | _ | _ | insn) t ⟨⟨hElsewhere, hIs⟩, hRun⟩
    · exact hm.elsewhere i hElsewhere hIs
    · exact hm.elsewhere i hElsewhere hIs.cpuReady
    · exact hm.elsewhere i hElsewhere hIs.cpuReady
    · have hExec := execute_executing i hL hIs fun hRfe => hRemap insn t hRun (hIs hRfe)
      rw [after_bind]
      exact (complete_allReady i hm hElsewhere hExec).mono (fun _ _ ht => ht) fun _ _ he => he
  · rintro _ t ⟨⟨msg, rfl⟩, -⟩
    simp

/-! ## A step -/

/-- What is asked of a step: the turn of a cpu finds the RFE it was to find, and remaps nothing
under the feet of the cpu. -/
def FetchLaw (b : Board δ) (L : Mapping → Word → Page → Word → Prop) (m : Machine δ) : Act δ → Prop
  | .turn i => SlotKept b i m ∧ RemapsReady b L i m
  | _ => True

theorem step_allReady (hL : Ahead b L) {m m' : Machine δ} {a : Act δ}
    (hAligned : ∀ j, (m.mycpus j).mapping.Aligned) (hm : AllReady L m) (hLaw : FetchLaw b L m a)
    (hStep : Step b m a m') : AllReady L m' := by
  have hIo : IoKeeps b (AllReady (δ := δ) L) fun _ _ => True :=
    ioKeeps_position hL (fun _ _ hReady => hReady.cpuReady) (fun _ _ _ => trivial) fun _ _ => trivial
  cases a with
  | turn i =>
    refine step_after hStep (E := fun _ _ => True) ?_
    simp only [Act.exec, after_bind, after_pure]
    exact (cpuTurn_allReady i hL m (hAligned i) hm hLaw.1 hLaw.2).mono (fun _ _ h => h)
      fun _ _ _ => trivial
  | raiseIrq slot =>
    exact step_after hStep (E := fun _ _ => True) (hIo.deviceIrq slot true m hStep.1 hm)
  | lowerIrq slot =>
    exact step_after hStep (E := fun _ _ => True) (hIo.deviceIrq slot false m hStep.1 hm)
  | devices d => exact step_after hStep (E := fun _ _ => True) hm
  | setIrqs i lamebus ipi =>
    refine step_after hStep (E := fun _ _ => True) fun j => ?_
    rw [cpuSetIrqs_mycpus (g := Mipscpu.position) fun _ _ _ => rfl]
    exact hm j
  | setEntrypoint i addr =>
    exact step_after hStep (cpuSetEntrypoint_position (K := fun _ => CpuReady L) i hL
      (fun _ _ hReady => hReady.cpuReady) (E := fun _ _ => True) addr m hm)
  | setStack i stackaddr argument =>
    refine step_after hStep (E := fun _ _ => True) ?_
    exact keeps_modCpu_position (K := fun _ => CpuReady L) i (f := fun c =>
      { c with r := Function.update (Function.update c.r 29 stackaddr) 4 argument })
      (fun _ => rfl) m hm
  | poke index val => exact step_after hStep (E := fun _ _ => True) hm
  | debugger cycling stopped lethal gdbReady => exact step_after hStep (E := fun _ _ => True) hm

/-! ## Runs -/

theorem resetTlbentry_pfn (ix : Nat) : (resetTlbentry ix).mtPfn &&& 0xfff = 0 := by
  simp [resetTlbentry]

/-- From start-up on, if every step meets its law, all cpus are ready. -/
theorem allReady_of_run (hL : Ahead b L) {m₀ m : Machine δ} (hReset : TlbReset m₀)
    (h₀ : AllReady L m₀) {p : List (Act δ × Machine δ)} (hRun : Path (Step b) m₀ p m)
    (hLaw : AllSteps (fun m a _ => FetchLaw b L m a) m₀ p) : AllReady L m := by
  have hEntries : ∀ j, Entries (fun mt => mt.mtPfn &&& 0xfff = 0) (m₀.mycpus j) := by
    intro j
    rw [Entries, hReset.tlb, hReset.tlbentry]
    exact ⟨resetTlbentry_pfn, resetTlbentry_pfn _⟩
  have hAll : AllStates (fun m : Machine δ =>
      (∀ j, Entries (fun mt => mt.mtPfn &&& 0xfff = 0) (m.mycpus j)) ∧ AllReady L m) m₀ p := by
    refine hRun.allStates_of_allSteps (fun m a m' hm hLaw hStep => ?_) ⟨hEntries, h₀⟩ hLaw
    exact ⟨step_entries entryLaw_pfn hm.1 hStep,
      step_allReady hL (fun j => (hm.1 j).1) hm.2 hLaw hStep⟩
  exact (hRun.last_state hAll).2

/-! ## The pages are there -/

theorem ahead_there : Ahead b fun _ _ _ _ => True where
  fetch _ := trivial
  next _ _ _ := trivial

theorem Remapped.toFetchState {insn : Word} {c c' : Mipscpu} (h : Remapped insn c c') :
    c'.toFetchState = c.toFetchState := by
  obtain ⟨-, ⟨c0, -, rfl⟩ | ⟨-, -, rfl⟩⟩ := h
  · cases c0 <;> rfl
  · rfl

theorem remapsReady_there (m : Machine δ) : RemapsReady b (fun _ _ _ _ => True) i m := by
  rintro insn t - ⟨⟨page, hPage, -⟩, ⟨page', hPage', -⟩⟩ c' hc'
  have hFetch := hc'.toFetchState
  exact ⟨⟨page, (congrArg FetchState.pcpage hFetch).trans hPage, trivial⟩,
    ⟨page', (congrArg FetchState.nextpcpage hFetch).trans hPage', trivial⟩⟩

theorem machineInit_fetch (devices : δ) (gdbReady : Bool) (j : Nat) :
    Ready (fun mp vaddr page off => mp.fetch b vaddr = .ok (page, off))
      ((machineInit devices gdbReady).mycpus j).position := by
  have hRom : ∀ vaddr : Word, vaddr &&& 0x3 = 0 → vaddr >>> 30 = 2 →
      mapmem b (vaddr &&& 0x1fffffff) = some (.rom 0) →
      ((machineInit devices gdbReady).mycpus j).mapping.fetch b vaddr =
        .ok (.rom 0, vaddr &&& 0x1fffffff &&& 0xfff) :=
    fun vaddr hAlign hSeg hPage => fetch_unmapped b rfl hAlign hSeg hPage
  exact ⟨⟨.rom 0, rfl, hRom 0xbfc00000 (by decide) (by decide) rfl⟩,
    ⟨.rom 0, rfl, hRom 0xbfc00004 (by decide) (by decide) rfl⟩⟩

/-- For every interleaving: if each cpu, when it comes to a delay slot for which it has put off a
translation, finds RFE there, then no cpu ever follows a `NULL` page pointer, neither at the start
of a cycle nor at the delay slot of a branch. -/
theorem pcpage_never_null {devices : δ} {gdbReady : Bool} {p : List (Act δ × Machine δ)}
    {m : Machine δ} (hRun : Path (Step b) (machineInit devices gdbReady) p m)
    (hKept : AllSteps (fun m a _ => ∀ i, a = .turn i → SlotKept b i m)
      (machineInit devices gdbReady) p) :
    (∀ j, (m.mycpus j).pcpage ≠ none ∧ ((m.mycpus j).startCycle b).pcpage ≠ none) ∧
    ∀ i, SlotKept b i m → After (cpuTurn b i) (fun _ _ => True)
      (fun e _ => e ≠ .undefined "null page pointer") m := by
  have hEntries := entries_of_run entryLaw_pfn (tlbReset_machineInit devices gdbReady) hRun
    resetTlbentry_pfn
  have hLaw : AllSteps (fun m a _ => FetchLaw b (fun _ _ _ _ => True) m a)
      (machineInit devices gdbReady) p := by
    refine hKept.mono fun m a _ hm => ?_
    cases a with
    | turn i => exact ⟨hm i rfl, remapsReady_there i m⟩
    | _ => trivial
  have hReady := allReady_of_run ahead_there (tlbReset_machineInit devices gdbReady) (fun j => by
    obtain ⟨⟨page, hPage, -⟩, ⟨page', hPage', -⟩⟩ := machineInit_fetch (b := b) devices gdbReady j
    exact ⟨⟨page, hPage, trivial⟩, .inl ⟨page', hPage', trivial⟩⟩) hRun hLaw
  have hThere : ∀ c : Mipscpu, CpuReady (fun _ _ _ _ => True) c.position → c.pcpage ≠ none := by
    rintro c ⟨⟨page, hPage, -⟩, -⟩ hNone
    exact absurd (hNone.symm.trans hPage) (by simp)
  refine ⟨fun j => ⟨hThere _ (hReady j), hThere _ (startCycle_ready ahead_there _ (hReady j))⟩, ?_⟩
  intro i hSlot
  exact (cpuTurn_allReady i ahead_there m (hEntries i).1 hReady hSlot (remapsReady_there i m)).mono
    (fun _ _ _ => trivial) fun _ _ he => he

instance (p : Position) (ram : BitVec 30 → Word) : Decidable (SlotIsRfe p ram) :=
  inferInstanceAs (Decidable (p.nextpcpage = none →
    ∀ page ∈ p.pcpage, busUseMap ram page p.pcoff = fullopRfe))

instance (m : Machine δ) : Decidable (SlotKept b i m) := inferInstanceAs (Decidable (_ → _))

/-- The cpu whose turn it is finds the RFE that it was to find. -/
def slotKept (b : Board δ) (m : Machine δ) (a : Act δ) : Bool :=
  a.turning.all fun i => decide (SlotKept b i m)

theorem of_slotKept {m : Machine δ} {a : Act δ} (h : slotKept b m a = true) (i : Nat)
    (ha : a = .turn i) : SlotKept b i m := by
  subst ha
  exact of_decide_eq_true h

/-- The kernel maps the page at `0x1000`, by moves to TLBHI, TLBLO and INDEX and by TLBWI, and jumps
to `0x1040`, where `addiu $5, $0, 7` is, with RFE to user mode in the delay slot. -/
def enterMapped : List (Act Unit) :=
  [.poke 0 0x24021000, .poke 1 0x40825000, .poke 2 0x24030200, .poke 3 0x40831000,
    .poke 4 0x40800000, .poke 5 0x42000002, .poke 6 0x241a1040, .poke 7 0x24040008,
    .poke 8 0x40846000, .poke 9 0x03400008, .poke 10 fullopRfe, .poke 16 0x24050007,
    .setEntrypoint 0 0x80000000] ++ List.replicate 10 (.turn 0)

/-- The cpu has come to the RFE, and has put off the translation of what is behind it. -/
theorem pcpage_never_null_slot : ∃ p m, Path (Step bareBoard) (machineInit () false) p m ∧
    p.map Prod.fst = enterMapped ∧ (m.mycpus 0).nextpcpage = none ∧ (m.mycpus 0).pcpage ≠ none ∧
    After (cpuTurn bareBoard 0) (fun _ _ => True)
      (fun e _ => e ≠ .undefined "null page pointer") m := by
  have hSeen : Scripts.seenBy (slotKept bareBoard) (Act.exec bareBoard)
      (fun m => ((m.mycpus 0).nextpcpage, decide (SlotKept bareBoard 0 m)))
      enterMapped (machineInit () false) = some (none, true) := by
    decide +kernel
  obtain ⟨p, m, hPath, hActs, hLook, hChecked⟩ :=
    Scripts.path_of_seenBy (Act.Valid bareBoard) hSeen (by decide)
  obtain ⟨hNext, hSlot⟩ := Prod.mk.inj hLook
  obtain ⟨hThere, hTurn⟩ := pcpage_never_null hPath (hChecked.mono fun _ _ _ h => of_slotKept h)
  exact ⟨p, m, hPath, hActs, hNext, (hThere 0).1, hTurn 0 (of_decide_eq_true hSlot)⟩

/-- Two cpus: one sets up the other, starts it, and comes to a branch with RFE in its delay slot;
the other overwrites the RFE before it is fetched. -/
def overwriteSlot : List (Act Unit) :=
  [.poke 0 0x3c02bfff, .poke 1 0x34428000, .poke 2 0x3c048000, .poke 3 0x34840040,
    .poke 4 0xac440700, .poke 5 0x24030003, .poke 6 0xac43fe14, .poke 7 0x10000002,
    .poke 8 fullopRfe, .poke 17 0xaf20ffe0, .setEntrypoint 0 0x80000000] ++
    (List.replicate 9 [.turn 0, .turn 1]).flatten

theorem pcpage_null_after_overwrite : ∃ p m, Path (Step twinBoard) (machineInit () false) p m ∧
    p.map Prod.fst = overwriteSlot ∧ (m.mycpus 0).state = .running ∧ (m.mycpus 0).pcpage = none ∧
    ∃ m', (cpuTurn twinBoard 0).run m = .error (.undefined "null page pointer") m' := by
  have hSeen : seen twinBoard overwriteSlot (machineInit () false) (fun m =>
      ((m.mycpus 0).state, (m.mycpus 0).pcpage, thrown (cpuTurn twinBoard 0) m)) =
      some (.running, none, some (.undefined "null page pointer")) := by
    decide +kernel
  obtain ⟨p, m, hPath, hActs, hLook⟩ := path_of_seen hSeen (by decide)
  obtain ⟨hState, hRest⟩ := Prod.mk.inj hLook
  obtain ⟨hPage, hThrown⟩ := Prod.mk.inj hRest
  exact ⟨p, m, hPath, hActs, hState, hPage, run_of_thrown hThrown⟩

/-! ## The pages are right -/

theorem mapmem_page {paddr paddr' : Word} (h : paddr &&& 0xfffff000 = paddr' &&& 0xfffff000) :
    mapmem b paddr = mapmem b paddr' := by
  unfold mapmem
  rw [h]

theorem translate_next {mp : Mapping} (hAligned : mp.Aligned) {vaddr paddr : Word}
    (h : mp.translate vaddr false = .ok paddr) (hSame : (vaddr + 4) &&& 0xfff ≠ 0) :
    ∃ paddr', mp.translate (vaddr + 4) false = .ok paddr' ∧
      paddr' &&& 0xfffff000 = paddr &&& 0xfffff000 ∧ paddr' &&& 0xfff = (paddr &&& 0xfff) + 4 := by
  unfold Mapping.translate at h ⊢
  split at h
  · cases h
  · rename_i hOk
    have hAlign : vaddr &&& 0x3 = 0 := not_not.mp fun h => hOk (.inr h)
    have hOk' : ¬((0x80000000 ≤ vaddr + 4 ∧ mp.usermode = true) ∨ (vaddr + 4) &&& 0x3 ≠ 0) := by
      rw [PageBits.le_next_iff hAlign hSame, PageBits.next_align hAlign hSame]
      rintro (hUser | hne)
      · exact hOk (.inl hUser)
      · exact hne rfl
    have hOffset := PageBits.next_offset hAlign hSame
    have hPage := PageBits.next_page hAlign hSame
    rw [if_neg hOk', PageBits.next_shift hAlign hSame, hPage]
    split at h
    · rename_i hSeg
      obtain rfl := Except.ok.inj h
      refine ⟨_, if_pos hSeg, ?_, ?_⟩
      · rw [PageBits.page_and_comm, PageBits.page_and_comm, hPage]
      · have hStrip : ∀ u : Word, u &&& 0x1fffffff &&& 0xfff = u &&& 0xfff := by
          intro u
          rw [BitVec.and_assoc]
          rfl
        rw [hStrip, hStrip, hOffset]
    · rename_i hSeg
      rw [if_neg hSeg]
      obtain ⟨mt, hEntry, hValid, hDirty, rfl⟩ := mapped_eq_ok_iff.mp h
      have hPfn : mt.mtPfn &&& 0xfff = 0 := by
        obtain ⟨ix, -, rfl⟩ := Option.map_eq_some_iff.mp hEntry
        exact hAligned ix
      refine ⟨_, mapped_eq_ok_iff.mpr ⟨mt, hEntry, hValid, hDirty, rfl⟩, ?_, ?_⟩
      · rw [PageBits.page_or, PageBits.page_or]
      · rw [PageBits.offset_or _ hPfn, PageBits.offset_or _ hPfn, hOffset]

/-- Within a page the next word translates to the next word. -/
theorem fetch_next {mp : Mapping} (hAligned : mp.Aligned) {vaddr : Word} {page : Page} {off : Word}
    (hFetch : mp.fetch b vaddr = .ok (page, off)) (hSame : (vaddr + 4) &&& 0xfff ≠ 0) :
    mp.fetch b (vaddr + 4) = .ok (page, off + 4) := by
  unfold Mapping.fetch at hFetch ⊢
  cases hPaddr : mp.translate vaddr false with
  | error e => simp [hPaddr] at hFetch
  | ok paddr =>
    obtain ⟨paddr', hPaddr', hPage', hOffset'⟩ := translate_next hAligned hPaddr hSame
    rw [hPaddr] at hFetch
    rw [hPaddr']
    dsimp only at hFetch ⊢
    rw [mapmem_page hPage', hOffset']
    cases hPage : mapmem b paddr with
    | none => simp [hPage] at hFetch
    | some page' =>
      rw [hPage] at hFetch
      obtain ⟨rfl, rfl⟩ : page' = page ∧ paddr &&& 0xfff = off := by simpa using hFetch
      rfl

theorem ahead_right : Ahead b fun mp vaddr page off => mp.fetch b vaddr = .ok (page, off) where
  fetch h := h
  next hAligned h hSame := fetch_next hAligned h hSame

/-- The instruction that a turn executes leaves it where the pc and the address after it lie. -/
def KeepsFetch (b : Board δ) (i : Nat) (m : Machine δ) : Prop :=
  ∀ insn t, (issue b i).run m = .ok (.insn insn) t → ∀ c', Remapped insn (t.mycpus i) c' →
    c'.mapping.fetch b (t.mycpus i).pc = (t.mycpus i).mapping.fetch b (t.mycpus i).pc ∧
    c'.mapping.fetch b (t.mycpus i).nextpc = (t.mycpus i).mapping.fetch b (t.mycpus i).nextpc

theorem KeepsFetch.remapsReady {m : Machine δ} (h : KeepsFetch b i m) :
    RemapsReady b (fun mp vaddr page off => mp.fetch b vaddr = .ok (page, off)) i m := by
  rintro insn t hRun ⟨⟨page, hPage, hPc⟩, ⟨page', hPage', hNextpc⟩⟩ c' hc'
  obtain ⟨hKeepPc, hKeepNextpc⟩ := h insn t hRun c' hc'
  have hFetch := hc'.toFetchState
  have hAt : c'.position = { (t.mycpus i).position with mapping := c'.mapping } := by
    simp only [Mipscpu.position, hFetch]
  rw [hAt]
  exact ⟨⟨page, hPage, hKeepPc.trans hPc⟩, ⟨page', hPage', hKeepNextpc.trans hNextpc⟩⟩

/-- The stored page and offset are where the pc lies now. -/
def Coherent (b : Board δ) (c : Mipscpu) : Prop :=
  ∃ page, c.pcpage = some page ∧ c.mapping.fetch b c.pc = .ok (page, c.pcoff)

/-- The word that a machine which translates at the fetch would find. -/
def freshWord (b : Board δ) (ram : BitVec 30 → Word) (c : Mipscpu) : Option Word :=
  match c.mapping.fetch b c.pc with
  | .ok (page, off) => some (busUseMap ram page off)
  | .error _ => none

theorem Coherent.useMap {c : Mipscpu} (h : Coherent b c) (m : Machine δ) :
    After (useMap c.pcpage c.pcoff) (fun word _ => freshWord b m.ram c = some word)
      (fun _ _ => False) m := by
  obtain ⟨page, hPage, hFetch⟩ := h
  rw [hPage, after_useMap_some]
  simp only [freshWord, hFetch]

/-- For every interleaving: if no instruction changes where the next two are found, and each cpu
finds the RFE for which it has put off a translation, then each cpu is coherent at the start of
every cycle, and fetches the word that translating at the fetch would find. -/
theorem fetch_coherent {devices : δ} {gdbReady : Bool} {p : List (Act δ × Machine δ)}
    {m : Machine δ} (hRun : Path (Step b) (machineInit devices gdbReady) p m)
    (hKept : AllSteps (fun m a _ => ∀ i, a = .turn i → SlotKept b i m ∧ KeepsFetch b i m)
      (machineInit devices gdbReady) p) (j : Nat) :
    Coherent b (m.mycpus j) ∧
    After (useMap ((m.mycpus j).startCycle b).pcpage ((m.mycpus j).startCycle b).pcoff)
      (fun word _ => freshWord b m.ram ((m.mycpus j).startCycle b) = some word)
      (fun _ _ => False) m := by
  have hLaw : AllSteps (fun m a _ =>
      FetchLaw b (fun mp vaddr page off => mp.fetch b vaddr = .ok (page, off)) m a)
      (machineInit devices gdbReady) p := by
    refine hKept.mono fun m a _ hm => ?_
    cases a with
    | turn i => exact ⟨(hm i rfl).1, (hm i rfl).2.remapsReady⟩
    | _ => trivial
  have hReady := allReady_of_run ahead_right (tlbReset_machineInit devices gdbReady)
    (fun j => (machineInit_fetch devices gdbReady j).cpuReady) hRun hLaw j
  exact ⟨hReady.1, Coherent.useMap (startCycle_ready ahead_right _ hReady).1 m⟩

/-- What an instruction makes of a cpu, if it is one that remaps. -/
def remapping (insn : Word) (c : Mipscpu) : Option Mipscpu :=
  if opm insn = .cop ∧ cn insn = 0 then
    if (rs insn).toNat = 4 then (C0.ofRegsel (rd insn) (sel insn)).map (c.mtc0 (c.r (rt insn)))
    else some { c with tlbentry := c.tlb c.tlbindex }
  else none

theorem remapping_of {insn : Word} {c c' : Mipscpu} (h : Remapped insn c c') :
    remapping insn c = some c' := by
  obtain ⟨-, ⟨c0, ⟨hOp, hcn, hrs, hSel⟩, rfl⟩ | ⟨⟨hOp, hcn, hrs⟩, -, rfl⟩⟩ := h
  · rw [remapping, if_pos ⟨hOp, hcn⟩, if_pos hrs, hSel]
    rfl
  · rw [remapping, if_pos ⟨hOp, hcn⟩, if_neg (by omega)]

/-- The turn leaves the pc and the address after it where they lie. -/
def keepsFetch (b : Board δ) (m : Machine δ) (a : Act δ) : Bool :=
  (issued b m a).all fun x =>
    let c := x.2.2.mycpus x.1
    (remapping x.2.1 c).all fun c' =>
      decide (c'.mapping.fetch b c.pc = c.mapping.fetch b c.pc ∧
        c'.mapping.fetch b c.nextpc = c.mapping.fetch b c.nextpc)

theorem of_keepsFetch {m : Machine δ} {a : Act δ} (h : keepsFetch b m a = true) (i : Nat)
    (ha : a = .turn i) : KeepsFetch b i m := by
  subst ha
  intro insn t hIssue c' hRemapped
  rw [keepsFetch, issued_of_run hIssue] at h
  simp only [Option.all_some, remapping_of hRemapped] at h
  exact of_decide_eq_true h

/-- The cpu is behind the instruction of the mapped page, in user mode. -/
theorem fetch_coherent_user : ∃ p m, Path (Step bareBoard) (machineInit () false) p m ∧
    p.map Prod.fst = enterMapped ++ [.turn 0, .turn 0] ∧
    ((m.mycpus 0).pc, (m.mycpus 0).currentUsermode, (m.mycpus 0).r 5) = (0x1044, true, 7) ∧
    Coherent bareBoard (m.mycpus 0) := by
  have hSeen : Scripts.seenBy (fun m a => slotKept bareBoard m a && keepsFetch bareBoard m a)
      (Act.exec bareBoard)
      (fun m => ((m.mycpus 0).pc, (m.mycpus 0).currentUsermode, (m.mycpus 0).r 5))
      (enterMapped ++ [.turn 0, .turn 0]) (machineInit () false) = some (0x1044, true, 7) := by
    decide +kernel
  obtain ⟨p, m, hPath, hActs, hLook, hChecked⟩ :=
    Scripts.path_of_seenBy (Act.Valid bareBoard) hSeen (by decide)
  have hKept : AllSteps (fun m a _ => ∀ i, a = .turn i →
      SlotKept bareBoard i m ∧ KeepsFetch bareBoard i m) (machineInit () false) p := by
    refine hChecked.mono fun m a _ h i ha => ?_
    obtain ⟨hSlot, hFetch⟩ := Bool.and_eq_true_iff.mp h
    exact ⟨of_slotKept hSlot i ha, of_keepsFetch hFetch i ha⟩
  exact ⟨p, m, hPath, hActs, hLook, (fetch_coherent hPath hKept 0).1⟩

/-- The kernel switches itself to user mode with a move to STATUS, which leaves the fetch position
in kseg0. -/
def enterUserMode : List (Act Unit) :=
  [.poke 0 0x24020002, .poke 1 0x40826000, .setEntrypoint 0 0x80000000, .turn 0, .turn 0]

theorem incoherent_after_mtc0 : ∃ p m, Path (Step bareBoard) (machineInit () false) p m ∧
    p.map Prod.fst = enterUserMode ∧ (m.mycpus 0).state = .running ∧
    (m.mycpus 0).pcpage = some (.ram 0) ∧
    (m.mycpus 0).mapping.fetch bareBoard (m.mycpus 0).pc = .error ⟨.adel, 0, 0x80000008⟩ := by
  have hSeen : seen bareBoard enterUserMode (machineInit () false) (fun m =>
      ((m.mycpus 0).state, (m.mycpus 0).pcpage,
        (m.mycpus 0).mapping.fetch bareBoard (m.mycpus 0).pc)) =
      some (.running, some (.ram 0), .error ⟨.adel, 0, 0x80000008⟩) := by
    decide +kernel
  obtain ⟨p, m, hPath, hActs, hLook⟩ := path_of_seen hSeen (by decide)
  obtain ⟨hState, hRest⟩ := Prod.mk.inj hLook
  obtain ⟨hPage, hFetch⟩ := Prod.mk.inj hRest
  exact ⟨p, m, hPath, hActs, hState, hPage, hFetch⟩

end Sys161.Mips
