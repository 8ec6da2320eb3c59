import Sys161.Mips.FetchRuns

/-!
# Breakpoints that the debugger takes

What `cpu_cycle` leaves behind when it goes into the debugger. The cycle is cut
short before COUNT is moved on, and COUNT is moved back all the same.
-/

namespace Sys161.Mips

open Exec Runs

set_option autoImplicit false

variable {δ : Type} {b : Board δ} {i : Nat}

/-- The cpu without what no instruction reads: where it executes, and the mark for the debugger. -/
def Mipscpu.observed (c : Mipscpu) : Mipscpu :=
  { c with toFetchState := ⟨false, false, 0, 0, 0, 0, 0, none, none⟩, hitBreakpoint := false }

/-- The cpu is about to execute the instruction at an address, which is found where it lies. -/
structure Resumes (b : Board δ) (addr : Word) (c : Mipscpu) : Prop where
  pc : c.pc = addr
  nextpc : c.nextpc = addr + 4
  jumping : c.jumping = false
  ready : Ready (fun mp vaddr page off => mp.fetch b vaddr = .ok (page, off)) c.position

/-- Nothing has changed that the guest can observe, and the cpu goes on at the exception pc. -/
structure Noninvasive (b : Board δ) (i : Nat) (m m' : Machine δ) : Prop where
  cpu : (m'.mycpus i).observed = (m.mycpus i).observed
  others : Elsewhere i m m'
  ram : m'.ram = m.ram
  devices : m'.devices = m.devices
  cpus : m'.cpus = m.cpus
  raised : m'.busRaisedInterrupts = m.busRaisedInterrupts
  enabled : m'.busEnabledInterrupts = m.busEnabledInterrupts
  resumes : Resumes b (m.mycpus i).expc (m'.mycpus i)

theorem Noninvasive.of_cpus {m m' : Machine δ} {c : Mipscpu}
    (hCpus : m'.mycpus = Function.update m.mycpus i c)
    (hObserved : c.observed = (m.mycpus i).observed) (hResumes : Resumes b (m.mycpus i).expc c)
    (hRam : m'.ram = m.ram) (hDevices : m'.devices = m.devices) (hController : m'.cpus = m.cpus)
    (hRaised : m'.busRaisedInterrupts = m.busRaisedInterrupts)
    (hEnabled : m'.busEnabledInterrupts = m.busEnabledInterrupts) : Noninvasive b i m m' where
  cpu := by rw [hCpus, Function.update_self, hObserved]
  others j hj := by rw [hCpus, Function.update_of_ne hj]
  ram := hRam
  devices := hDevices
  cpus := hController
  raised := hRaised
  enabled := hEnabled
  resumes := by rwa [hCpus, Function.update_self]

/-! ## The way into the debugger -/

/-- The pc back at the instruction, or at its branch. -/
def Mipscpu.rewound (c : Mipscpu) : Mipscpu :=
  { c with jumping := false, inJumpdelay := false, pc := c.expc, nextpc := c.expc + 4 }

/-- An address at which the mapping finds an instruction. -/
def Mapping.Finds (b : Board δ) (mp : Mapping) (vaddr : Word) : Prop :=
  ∃ page off, mp.fetch b vaddr = .ok (page, off)

/-- The cpu when both translations of `phony_exception` have been made. -/
def Mipscpu.rewoundTo (c : Mipscpu) (page : Page) (off : Word) (page' : Page) (off' : Word) :
    Mipscpu :=
  (((c.rewound.translated c.expc false).setPcpage page off).translated (c.expc + 4) false).setNextpcpage
    page' off'

/-- `phony_exception` comes to its end if both addresses are found, and to one of its aborts
otherwise. -/
theorem after_phonyException {Q : Unit → Machine δ → Prop} {E : Stop → Machine δ → Prop}
    (m : Machine δ) :
    After (phonyException b i) Q E m ↔
      let c := m.mycpus i
      match c.mapping.fetch b c.expc with
      | .error e =>
        E (.smoke "precompute_pc failed in phony_exception")
          (m.setCpu i ((c.rewound.translated c.expc false).exception b e))
      | .ok (page, off) =>
        match c.mapping.fetch b (c.expc + 4) with
        | .error e =>
          E (.smoke "precompute_nextpc failed in phony_exception")
            (m.setCpu i ((((c.rewound.translated c.expc false).setPcpage page off).translated
              (c.expc + 4) false).exception b e))
        | .ok (page', off') => Q () (m.setCpu i (c.rewoundTo page off page' off')) := by
  have hRewound : phonyException b i = (do
      modCpu i Mipscpu.rewound
      if ← attempt (precomputePc b i) then
        if ← attempt (precomputeNextpc b i) then
          pure ()
        else
          throw (.smoke "precompute_nextpc failed in phony_exception")
      else
        throw (.smoke "precompute_pc failed in phony_exception")) := rfl
  have hMapping : (m.mycpus i).rewound.mapping = (m.mycpus i).mapping := rfl
  have hPc : (m.mycpus i).rewound.pc = (m.mycpus i).expc := rfl
  rw [hRewound, after_bind, after_modCpu, after_bind, after_attempt, after_precomputePc,
    Machine.modCpu_mycpus_self, Machine.modCpu]
  dsimp only
  rw [hMapping, hPc]
  cases (m.mycpus i).mapping.fetch b (m.mycpus i).expc with
  | error e =>
    dsimp only [caught]
    rw [if_neg Bool.false_ne_true, after_throw, Machine.setCpu_setCpu]
  | ok at_ =>
    have hNextpc : (((m.mycpus i).rewound.translated (m.mycpus i).expc false).setPcpage
        at_.1 at_.2).nextpc = (m.mycpus i).expc + 4 :=
      congrArg FetchState.nextpc (translated_toFetchState (m.mycpus i).rewound _ false)
    have hSame : (((m.mycpus i).rewound.translated (m.mycpus i).expc false).setPcpage
        at_.1 at_.2).mapping = (m.mycpus i).mapping :=
      (translated_mapping (m.mycpus i).rewound _ false).trans hMapping
    dsimp only
    rw [if_pos rfl, after_bind, after_attempt, after_precomputeNextpc, Machine.setCpu_setCpu,
      Machine.setCpu_mycpus_self]
    dsimp only
    rw [hSame, hNextpc]
    cases (m.mycpus i).mapping.fetch b ((m.mycpus i).expc + 4) with
    | error e =>
      dsimp only [caught]
      rw [if_neg Bool.false_ne_true, after_throw, Machine.setCpu_setCpu]
    | ok at_' =>
      dsimp only
      rw [if_pos rfl, after_pure, Machine.setCpu_setCpu]
      rfl

/-- Where the address after one of kseg0 or kseg1 is found too, it lies there as well. -/
theorem next_unmapped {mp : Mapping} {addr : Word} (hRange : kseg0 ≤ addr ∧ addr < kseg2)
    (hFinds : mp.Finds b addr) : addr >>> 30 = 2 ∧ (addr + 4) >>> 30 = 2 := by
  obtain ⟨page, off, hFetch⟩ := hFinds
  have hSeg : addr >>> 30 = 2 := by
    simp only [kseg0, kseg2] at hRange
    bv_omega
  constructor
  · exact hSeg
  · have hAlign : addr &&& 0x3 = 0 := by
      by_contra hne
      unfold Mapping.fetch Mapping.translate at hFetch
      rw [if_pos (.inr hne)] at hFetch
      cases hFetch
    have hAlignNat := congrArg BitVec.toNat hAlign
    rw [PageBits.toNat_align] at hAlignNat
    have hNotLast : addr ≠ 0xbffffffc := by
      rintro rfl
      have hNone : mapmem b 0x1ffffffc = none := rfl
      unfold Mapping.fetch Mapping.translate at hFetch
      split at hFetch
      · cases hFetch
      · rename_i paddr hPaddr
        split at hPaddr
        · cases hPaddr
        · obtain rfl := Except.ok.inj hPaddr
          rw [show (0xbffffffc &&& 0x1fffffff : Word) = 0x1ffffffc from rfl, hNone] at hFetch
          cases hFetch
    simp only [kseg0, kseg2] at hRange
    change addr.toNat % 4 = 0 at hAlignNat
    bv_omega

/-- The way into the debugger changes nothing but COUNT that the guest can observe. -/
theorem breakpoint_leaves (m : Machine δ)
    (hRange : kseg0 ≤ (m.mycpus i).expc ∧ (m.mycpus i).expc < kseg2) :
    After (breakpoint b i) (fun _ m' => Noninvasive b i
      (m.modCpu i fun c => { c with exCount := c.exCount - 1 }) m')
      (fun _ _ => True) m := by
  unfold breakpoint
  rw [after_bind, after_phonyException]
  dsimp only
  split
  · trivial
  · rename_i page off hPc
    split
    · trivial
    · rename_i page' off' hNextpc
      have hUnmapped := next_unmapped hRange ⟨page, off, hPc⟩
      have hTo : (m.mycpus i).rewoundTo page off page' off' =
          ((m.mycpus i).rewound.setPcpage page off).setNextpcpage page' off' := by
        unfold Mipscpu.rewoundTo
        rw [translated_unmapped hUnmapped.1, translated_unmapped hUnmapped.2]
      rw [hTo]
      refine Noninvasive.of_cpus (c := { ((m.mycpus i).rewound.setPcpage page off).setNextpcpage
        page' off' with exCount := (m.mycpus i).exCount - 1, hitBreakpoint := true }) ?_ ?_ ?_ rfl rfl
        rfl rfl rfl
      · simp [Machine.modCpu, Machine.setCpu, Mipscpu.setPcpage, Mipscpu.setNextpcpage,
          Mipscpu.rewound]
      · rw [Machine.modCpu_mycpus_self]
        rfl
      · rw [Machine.modCpu_mycpus_self]
        exact ⟨rfl, rfl, rfl, ⟨page, rfl, hPc⟩, ⟨page', rfl, hNextpc⟩⟩

theorem fetchBlind_exCount (count : Nat → Word) :
    FetchBlind b fun m : Machine δ => ∀ j, (m.mycpus j).exCount = count j where
  fetchState j _ _ hm := forall_modCpu (P := fun k c => c.exCount = count k) j hm (hm j)
  exception j _ _ hm := forall_modCpu (P := fun k c => c.exCount = count k) j hm (hm j)
  vpn j _ _ hm := forall_modCpu (P := fun k c => c.exCount = count k) j hm (hm j)

theorem fetch_exCount (m : Machine δ) :
    After (fetch b i) (fun is m' => is = .breakpoint →
      (m'.mycpus i).exCount = (m.mycpus i).exCount - 1) (fun _ _ => True) m := by
  have hBlind := fetchBlind_exCount (b := b) fun j => (m.mycpus j).exCount
  unfold fetch
  rw [after_bind, after_getCpu, after_bind]
  have hUse : Keeps (fun t : Machine δ => ∀ j, (t.mycpus j).exCount = (m.mycpus j).exCount) _
      (useMap (m.mycpus i).pcpage (m.mycpus i).pcoff) := FetchBlind.useMap _ _
  refine (hUse m fun _ => rfl).mono ?_ fun _ _ _ => trivial
  intro insn t ht
  rw [after_bind, after_attempt]
  refine (hBlind.advancePc i insn t ht).mono ?_ ?_
  · intro _ t ht
    rw [if_pos rfl, after_bind, after_modCpu, after_bind, after_get, after_bind, after_getCpu,
      after_ite]
    split
    · rename_i hBreak
      have hRange : kseg0 ≤ (t.mycpus i).expc ∧ (t.mycpus i).expc < kseg2 := by
        have hHandle := hBreak.2.2
        simp only [Machine.gdbCanhandle, Machine.modCpu_mycpus_self, Bool.and_eq_true,
          decide_eq_true_eq] at hHandle
        exact hHandle.2
      have hSelf := Machine.modCpu_mycpus_self t i fun c => { c with hitBreakpoint := false }
      rw [after_bind]
      refine (breakpoint_leaves _ (by rw [hSelf]; exact hRange)).mono ?_ fun _ _ _ => trivial
      intro _ m' hLeaves _
      have hCount := congrArg (fun c : Mipscpu => c.exCount) hLeaves.cpu
      rw [Machine.modCpu_mycpus_self, hSelf] at hCount
      exact hCount.trans (congrArg (· - 1) (ht i))
    · exact nofun
  · rintro _ t ⟨rfl, -⟩
    exact nofun

/-- A turn that ends at a breakpoint moves COUNT back. -/
theorem issue_exCount (m : Machine δ) :
    After (issue b i) (fun is m' => is = .breakpoint →
      (m'.mycpus i).exCount = (m.mycpus i).exCount - 1) (fun _ _ => True) m := by
  unfold issue
  rw [after_bind, after_getCpu, after_ite]
  split
  · exact nofun
  · rw [after_bind, after_modCpu, after_bind]
    have hStart := (fetchBlind_exCount (b := b) fun j => (m.mycpus j).exCount).startCycle i m
      (fun _ => rfl) i
    refine (fetch_exCount _).mono ?_ fun _ _ _ => trivial
    intro is m' hCount hIs
    exact (hCount hIs).trans (congrArg (· - 1) hStart)

theorem length_of_mapM {l : List Nat} {m m' : Machine δ} {stopped : List Bool}
    (h : (l.mapM (cpuTurn b)).run m = .ok stopped m') : stopped.length = l.length := by
  induction l generalizing m stopped with
  | nil =>
    obtain ⟨rfl, -⟩ : [] = stopped ∧ m = m' := by simpa [List.mapM_nil] using h
    rfl
  | cons j l ih =>
    rw [List.mapM_cons, EStateM.run_bind] at h
    cases hTurn : (cpuTurn b j).run m with
    | error e t => simp [hTurn] at h
    | ok hit t =>
      rw [hTurn] at h
      dsimp only at h
      rw [EStateM.run_bind] at h
      cases hRest : (l.mapM (cpuTurn b)).run t with
      | error e u => simp [hRest] at h
      | ok hits u =>
        rw [hRest] at h
        obtain ⟨rfl, rfl⟩ : hit :: hits = stopped ∧ u = m' := by simpa using h
        rw [List.length_cons, List.length_cons, ih hRest]

/-- Wherever the debugger takes a breakpoint the guest can tell: COUNT is one less than it was. And
a cycle in which every cpu stops at one is billed. -/
theorem breakpoint_invasive :
    (∀ (i : Nat) (m m' : Machine δ), (issue b i).run m = .ok .breakpoint m' →
      ¬ Noninvasive b i (m.modCpu i fun c => c.startCycle b) m') ∧
    ∀ (m m' : Machine δ) (stopped : List Bool),
      ((List.range b.ncpus).mapM (cpuTurn b)).run m = .ok stopped m' →
      (∀ hit ∈ stopped, hit = true) → (cpuCycle b).run m = .ok true m' := by
  constructor
  · intro i m m' hIssue hSame
    have hBack := after_of_run_ok (issue_exCount m) hIssue rfl
    have hStart := (fetchBlind_exCount (b := b) fun j => (m.mycpus j).exCount).startCycle i m
      (fun _ => rfl) i
    have hCount := congrArg (fun c : Mipscpu => c.exCount) hSame.cpu
    have hEq : (m.mycpus i).exCount - 1 = (m.mycpus i).exCount :=
      hBack.symm.trans (hCount.trans hStart)
    bv_omega
  · intro m m' stopped hTurns hAll
    have hLength : stopped.length = b.ncpus := by
      rw [length_of_mapM hTurns, List.length_range]
    have hCount : stopped.count true = b.ncpus := by
      rw [← hLength]
      exact List.count_eq_length.mpr fun hit hHit => (hAll hit hHit).symm
    unfold cpuCycle
    rw [EStateM.run_bind, hTurns]
    simp [hCount]

/-- A breakpoint at the start of main memory. -/
def breakAtStart : List (Act Unit) := [.poke 0 0x0000000d, .setEntrypoint 0 0x80000000]

theorem breakAtStart_run : ∃ p m m' m'', Path (Step bareBoard) (machineInit () true) p m ∧
    p.map Prod.fst = breakAtStart ∧ (issue bareBoard 0).run m = .ok .breakpoint m' ∧
    ((m.mycpus 0).startCycle bareBoard).exCount = 1 ∧ (m'.mycpus 0).exCount = 0 ∧
    (cpuCycle bareBoard).run m = .ok true m'' := by
  have hSeen : seen bareBoard breakAtStart (machineInit () true) (fun m =>
      (((m.mycpus 0).startCycle bareBoard).exCount,
        yields (issue bareBoard 0) (fun is m' => (is, (m'.mycpus 0).exCount)) m,
        yields (cpuCycle bareBoard) (fun billed _ => billed) m)) =
      some (1, some (.breakpoint, 0), some true) := by
    decide +kernel
  obtain ⟨p, m, hPath, hActs, hLook⟩ := path_of_seen hSeen (by decide)
  obtain ⟨hCount, hRest⟩ := Prod.mk.inj hLook
  obtain ⟨hIssue, hCycle⟩ := Prod.mk.inj hRest
  obtain ⟨is, m', hIssue, hSeen⟩ := run_of_yields hIssue
  obtain ⟨rfl, hCount'⟩ := Prod.mk.inj hSeen
  obtain ⟨billed, m'', hCycle, rfl⟩ := run_of_yields hCycle
  exact ⟨p, m, m', m'', hPath, hActs, hIssue, hCount, hCount', hCycle⟩

theorem breakpoint_invasive_at_start : ∃ m m', Reaches bareBoard (machineInit () true) m ∧
    (issue bareBoard 0).run m = .ok .breakpoint m' ∧
    ¬ Noninvasive bareBoard 0 (m.modCpu 0 fun c => c.startCycle bareBoard) m' := by
  obtain ⟨p, m, m', m'', hPath, -, hIssue, -⟩ := breakAtStart_run
  exact ⟨m, m', ⟨p, hPath⟩, hIssue, breakpoint_invasive.1 0 m m' hIssue⟩

/-- The debugger is entered from a cycle in which COUNT is 1, and it is 0 after that; the cycle is
billed to the only cpu. -/
theorem breakpoint_counts_back : ∃ p m m' m'', Path (Step bareBoard) (machineInit () true) p m ∧
    p.map Prod.fst = breakAtStart ∧ (issue bareBoard 0).run m = .ok .breakpoint m' ∧
    ¬ Noninvasive bareBoard 0 (m.modCpu 0 fun c => c.startCycle bareBoard) m' ∧
    (cpuCycle bareBoard).run m = .ok true m'' := by
  obtain ⟨p, m, m', m'', hPath, hActs, hIssue, hCount, hCount', hCycle⟩ := breakAtStart_run
  refine ⟨p, m, m', m'', hPath, hActs, hIssue, fun hSame => ?_, hCycle⟩
  have hEq := congrArg (fun c : Mipscpu => c.exCount) hSame.cpu
  rw [Machine.modCpu_mycpus_self] at hEq
  have hZero : (0 : Word) = 1 := hCount'.symm.trans (hEq.trans hCount)
  exact absurd hZero (by decide)

end Sys161.Mips
