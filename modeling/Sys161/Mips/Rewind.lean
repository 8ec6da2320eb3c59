import Sys161.Mips.Breakpoints
import Sys161.Mips.CpuStart
import Sys161.Mips.FetchFaults

/-!
# Going back to an instruction

An interlock stall and a breakpoint put the cpu back to where the instruction,
or its branch, was fetched from. Whether that is still found there depends on
what the instructions before it have done to STATUS and TLBHI.
-/

namespace Sys161.Mips

open Exec Runs

set_option autoImplicit false

variable {δ : Type} {b : Board δ} (i : Nat)

/-! ## Fetch positions -/

/-- The fetch position with the exception pc. -/
structure Spot extends Position where
  jumping : Bool
  expc : Word

def Mipscpu.spot (c : Mipscpu) : Spot := ⟨c.position, c.jumping, c.expc⟩

namespace Spot

variable (b) (s : Spot)

def Finds (vaddr : Word) : Prop := s.mapping.Finds b vaddr

/-- The exception pc and the address after it are found. -/
def Fit : Prop := s.Finds b s.expc ∧ s.Finds b (s.expc + 4)

/-- No branch has been taken. -/
def Level : Prop := s.jumping = false ∧ s.nextpc = s.pc + 4

def Straight : Prop := s.Level ∧ s.Finds b s.pc ∧ s.Finds b s.nextpc

/-- The cpu comes to the delay slot of a branch. -/
def Branching : Prop :=
  s.jumping = true ∧ s.Fit b ∧ (s.nextpcpage = none ∨ s.Finds b s.nextpc)

/-- What holds between turns. Where a translation was put off and then not made, no instruction will
be fetched. -/
def Kept : Prop := s.pcpage = none ∨ s.Straight b ∨ s.Branching b

/-- What holds at the start of a cycle. -/
def Started : Prop :=
  s.pcpage = none ∨ (s.Fit b ∧ s.jumping = false ∧ (s.nextpcpage = none ∨ s.Finds b s.nextpc))

/-- What holds of the cpu that is about to execute an instruction. -/
structure Decoded (insn : Word) : Prop where
  fit : s.Fit b
  level : s.Level
  ahead : s.pcpage = none ∨ (s.Finds b s.pc ∧ (insn ≠ fullopRfe → s.Finds b s.nextpc))

end Spot

theorem Spot.Straight.kept {s : Spot} (h : s.Straight b) : s.Kept b := .inr (.inl h)

theorem exception_straight (c : Mipscpu) (e : Exn) : (c.exception b e).spot.Straight b := by
  obtain ⟨page, -, -, hPc, hNextpc⟩ := exception_precomputed b c e
  exact ⟨⟨rfl, rfl⟩, ⟨page, _, hPc⟩, ⟨page, _, hNextpc⟩⟩

theorem spot_translated (c : Mipscpu) (vaddr : Word) (iswrite : Bool) :
    (c.translated vaddr iswrite).spot = c.spot := by
  obtain h | h := translated_eq c vaddr iswrite <;> rw [h]
  rfl

theorem finds_next {mp : Mapping} (hAligned : mp.Aligned) {vaddr : Word} (h : mp.Finds b vaddr)
    (hSame : (vaddr + 4) &&& 0xfff ≠ 0) : mp.Finds b (vaddr + 4) := by
  obtain ⟨page, off, hFetch⟩ := h
  exact ⟨page, off + 4, fetch_next hAligned hFetch hSame⟩

/-! ## Translations -/

theorem attempt_precomputePc_level (m : Machine δ) (hm : (m.mycpus i).spot.Level) :
    After (attempt (precomputePc b i)) (fun _ m' => ∃ c, m' = m.setCpu i c ∧ c.spot.Level ∧
      c.spot.Finds b c.spot.pc) (fun _ _ => False) m := by
  rw [after_attempt, after_precomputePc]
  dsimp only
  have hSpot := spot_translated (m.mycpus i) (m.mycpus i).pc false
  split
  · rename_i page off hFetch
    rw [← hSpot] at hm
    refine ⟨_, rfl, hm, page, off, ?_⟩
    have hMapping := congrArg (fun s : Spot => s.mapping.fetch b s.pc) hSpot
    exact hMapping.trans hFetch
  · rename_i e hFetch
    have hVector := exception_straight (b := b) ((m.mycpus i).translated (m.mycpus i).pc false) e
    exact ⟨_, rfl, hVector.1, hVector.2.1⟩

theorem attempt_precomputeNextpc_level (m : Machine δ) (hm : (m.mycpus i).spot.Level)
    (hPc : (m.mycpus i).spot.Finds b (m.mycpus i).spot.pc) :
    After (attempt (precomputeNextpc b i)) (fun _ m' => ∃ c, m' = m.setCpu i c ∧ c.spot.Straight b)
      (fun _ _ => False) m := by
  rw [after_attempt, after_precomputeNextpc]
  dsimp only
  have hSpot := spot_translated (m.mycpus i) (m.mycpus i).nextpc false
  split
  · rename_i page off hFetch
    rw [← hSpot] at hm hPc
    refine ⟨_, rfl, hm, hPc, page, off, ?_⟩
    have hMapping := congrArg (fun s : Spot => s.mapping.fetch b s.nextpc) hSpot
    exact hMapping.trans hFetch
  · exact ⟨_, rfl, exception_straight _ _⟩

theorem precomputeBoth_straight (m : Machine δ) (hm : (m.mycpus i).spot.Level) :
    After (precomputeBoth b i) (fun _ m' => ∃ c, m' = m.setCpu i c ∧ c.spot.Straight b)
      (fun _ _ => False) m := by
  unfold precomputeBoth
  rw [after_bind]
  refine (attempt_precomputePc_level i m hm).mono ?_ fun _ _ h => h
  rintro _ m' ⟨c, rfl, hLevel, hPc⟩
  rw [after_bind]
  refine (attempt_precomputeNextpc_level i (m.setCpu i c) ?_ ?_).mono ?_ fun _ _ h => h
  · rwa [Machine.setCpu_mycpus_self]
  · rwa [Machine.setCpu_mycpus_self]
  · rintro _ m' ⟨c', rfl, hStraight⟩
    exact ⟨c', Machine.setCpu_setCpu m i c c', hStraight⟩

theorem spot_rewoundTo (c : Mipscpu) (page : Page) (off : Word) (page' : Page) (off' : Word) :
    (c.rewoundTo page off page' off').spot =
      { c.rewound.spot with
        pcpage := some page, pcoff := off, nextpcpage := some page', nextpcoff := off' } := by
  have hSecond := spot_translated ((c.rewound.translated c.expc false).setPcpage page off)
    (c.expc + 4) false
  have hFirst := spot_translated c.rewound c.expc false
  calc (c.rewoundTo page off page' off').spot
      = { (((c.rewound.translated c.expc false).setPcpage page off).translated
            (c.expc + 4) false).spot with nextpcpage := some page', nextpcoff := off' } := rfl
    _ = { (c.rewound.translated c.expc false).spot with
          pcpage := some page, pcoff := off, nextpcpage := some page', nextpcoff := off' } := by
        rw [hSecond]
        rfl
    _ = { c.rewound.spot with
          pcpage := some page, pcoff := off, nextpcpage := some page', nextpcoff := off' } := by
        rw [hFirst]

/-- From an exception pc that is found the way back succeeds. -/
theorem phonyException_fit (m : Machine δ) (hm : (m.mycpus i).spot.Fit b) :
    After (phonyException b i) (fun _ m' => ∃ c, m' = m.setCpu i c ∧ c.spot.Straight b ∧
      c.spot.Fit b ∧ c.pc = (m.mycpus i).expc) (fun _ _ => False) m := by
  obtain ⟨page, off, hPc⟩ := hm.1
  obtain ⟨page', off', hNextpc⟩ := hm.2
  have hPc' : (m.mycpus i).mapping.fetch b (m.mycpus i).expc = .ok (page, off) := hPc
  have hNextpc' : (m.mycpus i).mapping.fetch b ((m.mycpus i).expc + 4) = .ok (page', off') := hNextpc
  rw [after_phonyException]
  dsimp only
  rw [hPc']
  dsimp only
  rw [hNextpc']
  have hSpot := spot_rewoundTo (m.mycpus i) page off page' off'
  refine ⟨_, rfl, ?_, ?_, congrArg (fun s : Spot => s.pc) hSpot⟩
  · rw [hSpot]
    exact ⟨⟨rfl, rfl⟩, hm.1, hm.2⟩
  · rw [hSpot]
    exact hm

/-! ## A turn before the instruction -/

theorem startCycle_started (c : Mipscpu) (hc : c.spot.Kept b) : (c.startCycle b).spot.Started b := by
  have hUpdate : c.updateExpc.spot.Started b := by
    unfold Mipscpu.updateExpc
    obtain hNone | ⟨⟨hLevel, hNextpc⟩, hPc, hFinds⟩ | ⟨hJumping, hFit, hNext⟩ := hc
    · left
      split
      · exact hNone
      · exact hNone
    · have hNotJumping : c.jumping = false := hLevel
      have hNext : c.pc + 4 = c.nextpc := Eq.symm hNextpc
      rw [if_neg (by simp [hNotJumping])]
      refine .inr ⟨⟨hPc, ?_⟩, hNotJumping, .inr hFinds⟩
      show c.mapping.Finds b (c.pc + 4)
      rw [hNext]
      exact hFinds
    · have hBranch : c.jumping = true := hJumping
      rw [if_pos hBranch]
      exact .inr ⟨hFit, rfl, hNext⟩
  unfold Mipscpu.startCycle
  dsimp only
  split
  · obtain ⟨-, hPc, hNextpc⟩ := exception_straight (b := b) c.updateExpc ⟨.irq, 0, 0⟩
    exact .inr ⟨⟨hPc, hNextpc⟩, rfl, .inr hNextpc⟩
  · exact hUpdate

theorem decoded_setNextpcpage {c : Mipscpu} {insn : Word} (h : c.spot.Decoded b insn)
    (page : Page) (off : Word) : (c.setNextpcpage page off).spot.Decoded b insn :=
  ⟨h.fit, h.level, h.ahead⟩

/-- The pc moves on over what was found ahead. -/
theorem advancePc_decoded (m : Machine δ) (insn : Word) (hAligned : (m.mycpus i).mapping.Aligned)
    (hFit : (m.mycpus i).spot.Fit b) (hJumping : (m.mycpus i).spot.jumping = false)
    (hNext : (m.mycpus i).spot.nextpcpage = none ∨
      (m.mycpus i).spot.Finds b (m.mycpus i).spot.nextpc) :
    After (advancePc b i insn) (fun _ m' => ∃ c, m' = m.setCpu i c ∧ c.spot.Decoded b insn)
      (fun e m' => e = .exception ∧ ∃ c, m' = m.setCpu i c ∧ c.spot.Straight b) m := by
  unfold advancePc
  rw [after_bind, after_modCpu, after_bind, after_getCpu, Machine.modCpu,
    Machine.setCpu_mycpus_self]
  split
  · split
    · rename_i hRfe
      rw [after_modCpu, Machine.modCpu, Machine.setCpu_setCpu, Machine.setCpu_mycpus_self]
      refine ⟨_, rfl, hFit, ⟨hJumping, rfl⟩, ?_⟩
      exact hNext.imp id fun hFinds => ⟨hFinds, fun hne => absurd hRfe hne⟩
    · rw [after_precomputeNextpc]
      dsimp only
      rw [Machine.setCpu_mycpus_self]
      have hSpot := spot_translated (m.mycpus i).advance (m.mycpus i).advance.nextpc false
      split
      · rename_i page off hFetch
        have hFinds : (m.mycpus i).advance.spot.Finds b (m.mycpus i).advance.nextpc :=
          ⟨page, off, hFetch⟩
        have hDecoded : (m.mycpus i).advance.spot.Decoded b insn :=
          ⟨hFit, ⟨hJumping, rfl⟩, hNext.imp id fun hPc => ⟨hPc, fun _ => hFinds⟩⟩
        rw [← hSpot] at hDecoded
        exact ⟨_, Machine.setCpu_setCpu m i _ _, decoded_setNextpcpage hDecoded page off⟩
      · exact ⟨rfl, _, Machine.setCpu_setCpu m i _ _, exception_straight _ _⟩
  · rename_i hPage
    rw [after_modCpu, Machine.modCpu, Machine.setCpu_setCpu, Machine.setCpu_mycpus_self]
    refine ⟨_, rfl, hFit, ⟨hJumping, rfl⟩, ?_⟩
    exact hNext.imp id fun hFinds => ⟨hFinds, fun _ => finds_next hAligned hFinds hPage⟩

/-- How a turn leaves the cpu before an instruction is executed. -/
def IssueKept (m : Machine δ) (is : Issue) (m' : Machine δ) : Prop :=
  Elsewhere i m m' ∧ match is with
    | .insn insn => (m'.mycpus i).spot.Decoded b insn
    | _ => (m'.mycpus i).spot.Kept b

/-- Nothing smokes. -/
def NoSmoke (e : Stop) (_ : Machine δ) : Prop := ∀ msg, e ≠ .smoke msg

theorem fetch_kept (m : Machine δ) (hAligned : (m.mycpus i).mapping.Aligned)
    (hm : (m.mycpus i).spot.Started b) :
    After (fetch b i) (IssueKept (b := b) i m) NoSmoke m := by
  unfold fetch
  rw [after_bind, after_getCpu, after_bind]
  cases hPage : (m.mycpus i).pcpage with
  | none => exact nofun
  | some page =>
    have hSome : (m.mycpus i).spot.pcpage ≠ none := by
      show (m.mycpus i).pcpage ≠ none
      simp [hPage]
    obtain ⟨hFit, hJumping, hNext⟩ := hm.resolve_left hSome
    rw [after_useMap_some, after_bind, after_attempt]
    generalize busUseMap m.ram page (m.mycpus i).pcoff = insn
    refine (advancePc_decoded i m insn hAligned hFit hJumping hNext).mono ?_ ?_
    · rintro _ m' ⟨c, rfl, hDecoded⟩
      rw [if_pos rfl, after_bind, after_modCpu, after_bind, after_get, after_bind, after_getCpu,
        Machine.modCpu, Machine.setCpu_setCpu, Machine.setCpu_mycpus_self, after_ite]
      split
      · unfold breakpoint
        rw [after_bind, after_bind]
        refine (phonyException_fit i _ ?_).mono ?_ fun _ _ h => h.elim
        · rw [Machine.setCpu_mycpus_self]
          exact hDecoded.fit
        · rintro _ m' ⟨c', rfl, hStraight, -, -⟩
          rw [Machine.setCpu_setCpu]
          constructor
          · intro j hj
            exact (Machine.modCpu_mycpus_ne _ _ hj).trans (Machine.setCpu_mycpus_ne m c' hj)
          · have hSelf := Machine.modCpu_mycpus_self (m.setCpu i c') i fun c =>
              { c with exCount := c.exCount - 1, hitBreakpoint := true }
            rw [Machine.setCpu_mycpus_self] at hSelf
            exact (congrArg (fun c : Mipscpu => c.spot.Kept b) hSelf).mpr hStraight.kept
      · refine ⟨elsewhere_setCpu i m _, ?_⟩
        dsimp only
        rw [Machine.setCpu_mycpus_self]
        exact hDecoded
    · rintro _ m' ⟨rfl, c, rfl, hStraight⟩
      refine ⟨elsewhere_setCpu i m c, ?_⟩
      dsimp only
      rw [Machine.setCpu_mycpus_self]
      exact hStraight.kept

theorem issue_kept (m : Machine δ) (hAligned : (m.mycpus i).mapping.Aligned)
    (hm : (m.mycpus i).spot.Kept b) : After (issue b i) (IssueKept (b := b) i m) NoSmoke m := by
  unfold issue
  rw [after_bind, after_getCpu, after_ite]
  split
  · exact ⟨fun _ _ => rfl, hm⟩
  · rw [after_bind, after_modCpu, after_bind]
    have hSelf := Machine.modCpu_mycpus_self m i fun c => c.startCycle b
    have hTlb : ((m.mycpus i).startCycle b).mapping.tlb = (m.mycpus i).mapping.tlb := by
      unfold Mipscpu.startCycle Mipscpu.updateExpc
      dsimp only
      split <;> split <;> rfl
    have hRest := fetch_kept (b := b) i ((m.modCpu i fun c => c.startCycle b).countStats i
      (PercpuStats.cycle ((m.modCpu i fun c => c.startCycle b).mycpus i).currentUsermode)) (by
        intro ix
        show (((m.modCpu i fun c => c.startCycle b).mycpus i).mapping.tlb ix).mtPfn &&& 0xfff = 0
        rw [hSelf, hTlb]
        exact hAligned ix) (by
        show ((m.modCpu i fun c => c.startCycle b).mycpus i).spot.Started b
        rw [hSelf]
        exact startCycle_started _ hm)
    refine hRest.mono ?_ fun _ _ h => h
    rintro is m' ⟨hElsewhere, hIs⟩
    exact ⟨(elsewhere_setCpu i m _).trans i hElsewhere, hIs⟩

/-! ## What the bus does to the cpus -/

def AllKept (b : Board δ) (m : Machine δ) : Prop := ∀ j, (m.mycpus j).spot.Kept b

/-- An exception that is posted leaves all cpus as they are to be between turns. -/
def PostsKept (b : Board δ) (e : Stop) (m : Machine δ) : Prop := e = .exception → AllKept b m

def OthersKept (b : Board δ) (m : Machine δ) : Prop := ∀ j, j ≠ i → (m.mycpus j).spot.Kept b

theorem AllKept.others {m : Machine δ} (hm : AllKept b m) : OthersKept i b m := fun j _ => hm j

theorem OthersKept.elsewhere {m m' : Machine δ} (hm : OthersKept i b m) (h : Elsewhere i m m')
    (hi : (m'.mycpus i).spot.Kept b) : AllKept b m' := by
  intro j
  by_cases hj : j = i
  · subst hj
    exact hi
  · rw [h j hj]
    exact hm j hj

/-- What is asked of each cpu is kept where the fetch position is. -/
theorem busKeeps_spot {K : Nat → Spot → Prop} {E : Stop → Machine δ → Prop}
    (hE : ∀ e m, e ≠ .exception → E e m) :
    BusKeeps b (fun m : Machine δ => ∀ j, K j (m.mycpus j).spot) E :=
  busKeeps_mycpus b (fun _ _ _ => rfl) (fun _ m _ => hE _ m nofun) fun m _ => hE _ m (by decide)

/-- A cpu that is put at an address, which is found, or else at the exception vector. -/
def Spot.Entering (b : Board δ) (s : Spot) : Prop :=
  s.Straight b ∨ (s.expc = s.pc ∧ s.nextpc = s.pc + 4 ∧ s.Finds b s.pc)

theorem hangUnless_entering (m : Machine δ) (hExpc : (m.mycpus i).expc = (m.mycpus i).pc)
    (hNextpc : (m.mycpus i).nextpc = (m.mycpus i).pc + 4) :
    After (hangUnless (precomputePc b i)) (fun _ m' => Elsewhere i m m' ∧
      (m'.mycpus i).spot.Entering b) (fun _ _ => False) m := by
  have hSpot := spot_translated (m.mycpus i) (m.mycpus i).pc false
  rw [after_hangUnless, after_precomputePc]
  dsimp only
  split
  · rename_i page off hFetch
    refine ⟨elsewhere_setCpu i m _, ?_⟩
    have hFinds : (m.mycpus i).spot.Finds b (m.mycpus i).spot.pc := ⟨page, off, hFetch⟩
    have hEntered : (m.mycpus i).spot.expc = (m.mycpus i).spot.pc ∧
        (m.mycpus i).spot.nextpc = (m.mycpus i).spot.pc + 4 ∧
        (m.mycpus i).spot.Finds b (m.mycpus i).spot.pc := ⟨hExpc, hNextpc, hFinds⟩
    rw [← hSpot] at hEntered
    rw [Machine.setCpu_mycpus_self]
    exact .inr hEntered
  · refine ⟨elsewhere_setCpu i m _, .inl ?_⟩
    show ((m.setCpu i _).mycpus i).spot.Straight b
    rw [Machine.setCpu_mycpus_self]
    exact exception_straight _ _

theorem hangUnless_kept (m : Machine δ) (hm : (m.mycpus i).spot.Entering b) :
    After (hangUnless (precomputeNextpc b i)) (fun _ m' => Elsewhere i m m' ∧
      (m'.mycpus i).spot.Kept b) (fun _ _ => False) m := by
  have hSpot := spot_translated (m.mycpus i) (m.mycpus i).nextpc false
  rw [after_hangUnless, after_precomputeNextpc]
  dsimp only
  split
  · rename_i page off hFetch
    refine ⟨elsewhere_setCpu i m _, ?_⟩
    have hFinds : (m.mycpus i).spot.Finds b (m.mycpus i).spot.nextpc := ⟨page, off, hFetch⟩
    rw [← hSpot] at hm hFinds
    rw [Machine.setCpu_mycpus_self]
    generalize (m.mycpus i).translated (m.mycpus i).nextpc false = c at hm hFinds
    obtain ⟨hLevel, hPc, -⟩ | ⟨hExpc, hNextpc, hPc⟩ := hm
    · exact Spot.Straight.kept ⟨hLevel, hPc, hFinds⟩
    · cases hJumping : c.jumping with
      | false => exact Spot.Straight.kept ⟨⟨hJumping, hNextpc⟩, hPc, hFinds⟩
      | true =>
        have hFit : c.spot.Fit b := by
          rw [Spot.Fit, hExpc, ← hNextpc]
          exact ⟨hPc, hFinds⟩
        exact .inr (.inr ⟨hJumping, hFit, .inr hFinds⟩)
  · refine ⟨elsewhere_setCpu i m _, Spot.Straight.kept ?_⟩
    show ((m.setCpu i _).mycpus i).spot.Straight b
    rw [Machine.setCpu_mycpus_self]
    exact exception_straight _ _

theorem cpuSetEntrypoint_kept {E : Stop → Machine δ → Prop} (addr : Word) :
    Keeps (AllKept b) E (cpuSetEntrypoint b i addr) := by
  have hRest : Keeps (AllKept b) E (do
      let addr := addr &&& 0xfffffffc
      modCpu i fun c =>
        { c with r := Function.update c.r 25 addr, expc := addr, pc := addr, nextpc := addr + 4 }
      hangUnless (precomputePc b i)
      hangUnless (precomputeNextpc b i)) := by
    intro m hm
    rw [after_bind, after_modCpu, after_bind]
    refine (hangUnless_entering i _ ?_ ?_).mono ?_ fun _ _ h => h.elim
    · rw [Machine.modCpu_mycpus_self]
    · rw [Machine.modCpu_mycpus_self]
    · rintro _ m₁ ⟨hFirst, hEntering⟩
      refine (hangUnless_kept i m₁ hEntering).mono ?_ fun _ _ h => h.elim
      rintro _ m₂ ⟨hSecond, hKept⟩
      exact (hm.others i).elsewhere i (((elsewhere_setCpu i m _).trans i hFirst).trans i hSecond) hKept
  unfold cpuSetEntrypoint
  exact Keeps.ite (fun _ => Keeps.bind (fun _ hm => hm) fun _ => hRest) fun _ => hRest

theorem AllKept.modCpu {m : Machine δ} (hm : AllKept b m) {f : Mipscpu → Mipscpu}
    (hf : ∀ c, (f c).spot = c.spot) : AllKept b (m.modCpu i f) :=
  forall_modCpu (P := fun _ c => c.spot.Kept b) i hm (by rw [hf]; exact hm i)

theorem setCpue_kept {E : Stop → Machine δ → Prop} (val : Word) :
    Keeps (AllKept b) E (setCpue b val) := by
  refine Keeps.forM fun j _ => Keeps.bind Keeps.get fun m => Keeps.ite (fun _ => ?_) fun _ =>
    Keeps.ite (fun _ => ?_) fun _ => Keeps.pure _
  · refine Keeps.bind (fun _ hm => hm) fun _ => ?_
    exact Keeps.bind (fun _ hm => hm.modCpu j fun _ => rfl) fun _ _ hm => hm
  · refine Keeps.bind (cpuSetEntrypoint_kept j _) fun _ => ?_
    refine Keeps.bind (fun _ hm => hm.modCpu j fun _ => rfl) fun _ => ?_
    exact Keeps.bind (fun _ hm => hm.modCpu j fun _ => rfl) fun _ _ hm => hm

theorem ioKeeps_kept : IoKeeps b (AllKept b) (PostsKept b) where
  toBusKeeps := busKeeps_spot (K := fun _ => Spot.Kept b) fun _ _ hne he => absurd he hne
  setCpue := setCpue_kept

/-! ## Stores -/

theorem OthersKept.exception {m : Machine δ} (hm : OthersKept i b m) (c : Mipscpu) (e : Exn) :
    PostsKept b .exception (m.setCpu i (c.exception b e)) := by
  intro _
  refine hm.elsewhere i (elsewhere_setCpu i m _) ?_
  rw [Machine.setCpu_mycpus_self]
  exact (exception_straight c e).kept

theorem keeps_raise_kept {α : Type} (e : Exn) :
    Keeps (AllKept b) (PostsKept b) (raise b i e : M δ α) :=
  fun m hm => (hm.others i).exception i (m.mycpus i) e

theorem translatemem_kept (vaddr : Word) (iswrite : Bool) :
    Keeps (AllKept b) (PostsKept b) (translatemem b i vaddr iswrite) := by
  intro m hm
  rw [after_translatemem]
  split
  · exact hm.modCpu i (f := fun c => c.translated vaddr iswrite) fun c => spot_translated c _ _
  · exact (hm.others i).exception i _ _

theorem domemFetch_kept (vaddr : Word) (willbewrite : Bool) :
    Keeps (AllKept b) (PostsKept b) (domemFetch b i vaddr willbewrite) :=
  ioKeeps_kept.domemFetch i (translatemem_kept i vaddr willbewrite) fun e => keeps_raise_kept i e

theorem domemStore_kept (vaddr val : Word) :
    Keeps (AllKept b) (PostsKept b) (domemStore b i vaddr val) :=
  ioKeeps_kept.domemStore i (translatemem_kept i vaddr true) (fun e => keeps_raise_kept i e)
    fun _ _ hm => hm

theorem setReg_kept {E : Stop → Machine δ → Prop} (rg : Reg) (val : Word) :
    Keeps (AllKept b) E (setReg i rg val) :=
  fun _ hm => hm.modCpu i fun _ => rfl

theorem storeOp_kept (insn : Word) (ms : Memstyles) :
    Keeps (AllKept b) (PostsKept b) (storeOp b i insn ms) := by
  refine keeps_getCpu i fun c => ?_
  have hModify : ∀ addr f, Keeps (AllKept b) (PostsKept b) (modifyWord b i addr f) := fun _ _ =>
    Keeps.bind (domemFetch_kept i _ _) fun _ => domemStore_kept i _ _
  cases ms with
  | sbyte | shalf => exact Keeps.throw fun _ _ => nofun
  | ubyte | uhalf | wordl | wordr => exact hModify _ _

theorem mxSc_kept (insn : Word) : Keeps (AllKept b) (PostsKept b) (mxSc b i insn) := by
  refine keeps_getCpu i fun c => Keeps.ite (fun _ => setReg_kept i _ _) fun _ => ?_
  refine Keeps.bind (domemFetch_kept i _ _) fun temp => ?_
  refine Keeps.ite (fun _ => setReg_kept i _ _) fun _ => ?_
  exact Keeps.bind (domemStore_kept i _ _) fun _ => setReg_kept i _ _

/-- A store may start cpus, this one among them. -/
theorem store_kept {insn : Word} (hStore : IsStore insn) :
    Keeps (AllKept b) (PostsKept b) (execute b i insn) := by
  unfold IsStore at hStore
  unfold execute
  cases hOp : opm insn <;> simp only [hOp] at hStore
  case sw => exact keeps_getCpu i fun _ => domemStore_kept i _ _
  case swc0 => exact mxSc_kept i insn
  all_goals exact storeOp_kept i insn _

/-! ## Other instructions -/

/-- What holds while cpu `i` executes an instruction that neither stores nor changes where anything
is found. -/
def InReach (b : Board δ) (m : Machine δ) : Prop :=
  ∀ j, (m.mycpus j).spot.Kept b ∧ (j = i → (m.mycpus j).spot.Fit b)

theorem InReach.modCpu {m : Machine δ} (hm : InReach i b m) {f : Mipscpu → Mipscpu}
    (hf : ∀ c, (f c).spot = c.spot) : InReach i b (m.modCpu i f) :=
  forall_modCpu (P := fun j c => c.spot.Kept b ∧ (j = i → c.spot.Fit b)) i hm
    (by rw [hf]; exact hm i)

theorem InReach.others {m : Machine δ} (hm : InReach i b m) : OthersKept i b m :=
  fun j _ => (hm j).1

theorem InReach.setCpu {m : Machine δ} (hm : InReach i b m) {c : Mipscpu} (hKept : c.spot.Kept b)
    (hFit : c.spot.Fit b) : InReach i b (m.setCpu i c) := by
  intro j
  by_cases hj : j = i
  · subst hj
    rw [Machine.setCpu_mycpus_self]
    exact ⟨hKept, fun _ => hFit⟩
  · rw [Machine.setCpu_mycpus_ne m c hj]
    exact hm j

theorem translatemem_inReach (vaddr : Word) (iswrite : Bool) :
    Keeps (InReach i b) (PostsKept b) (translatemem b i vaddr iswrite) := by
  intro m hm
  rw [after_translatemem]
  split
  · exact hm.modCpu i (f := fun c => c.translated vaddr iswrite) fun c => spot_translated c _ _
  · exact (hm.others i).exception i _ _

theorem abranch_inReach (addr : Word) :
    Keeps (InReach i b) (PostsKept b) (abranch b i addr) := by
  refine Keeps.ite (fun _ m hm => (hm.others i).exception i (m.mycpus i) _) fun _ m hm => ?_
  obtain ⟨c, hc, hJumping, hFit⟩ : ∃ c : Mipscpu, c = { m.mycpus i with nextpc := addr, jumping := true }
      ∧ c.jumping = true ∧ c.spot.Fit b := ⟨_, rfl, rfl, (hm i).2 rfl⟩
  rw [after_bind, after_modCpu, after_bind, after_getCpu, after_bind, Machine.modCpu,
    Machine.setCpu_mycpus_self, ← hc]
  cases hPage : c.pcpage with
  | none =>
    intro he
    cases he
  | some page =>
    rw [after_useMap_some]
    split
    · rw [after_modCpu, Machine.modCpu, Machine.setCpu_setCpu, Machine.setCpu_mycpus_self]
      exact hm.setCpu i (.inr (.inr ⟨hJumping, hFit, .inl rfl⟩)) hFit
    · rw [after_precomputeNextpc]
      dsimp only
      rw [Machine.setCpu_mycpus_self]
      have hSpot := spot_translated c c.nextpc false
      split
      · rename_i page' off' hFetch
        rw [Machine.setCpu_setCpu]
        have hBranch : c.spot.jumping = true ∧ c.spot.Fit b ∧ c.spot.Finds b c.spot.nextpc :=
          ⟨hJumping, hFit, page', off', hFetch⟩
        rw [← hSpot] at hBranch
        obtain ⟨hJumping', hFit', hNext⟩ := hBranch
        exact hm.setCpu i (.inr (.inr ⟨hJumping', hFit', .inr hNext⟩)) hFit'
      · rw [Machine.setCpu_setCpu]
        exact (hm.others i).exception i _ _

theorem rules_inReach {insn : Word} (hStore : ¬ IsStore insn) (hRemaps : ¬ Remaps insn)
    (hRetranslates : ¬ Retranslates insn) : Rules b i insn (InReach i b) (PostsKept b) where
  smoke _ _ _ := nofun
  undefined _ _ := nofun
  raise e m hm := (hm.others i).exception i (m.mycpus i) e
  reg _ _ _ _ hm := hm.modCpu i fun _ => rfl
  hilo _ _ _ _ _ hm := hm.modCpu i fun _ => rfl
  phonyException m hm := by
    refine (phonyException_fit i m ((hm i).2 rfl)).mono ?_ fun _ _ h => h.elim
    rintro _ m' ⟨c, rfl, hStraight, hFit, -⟩
    exact hm.setCpu i hStraight.kept hFit
  abranch := abranch_inReach i
  translatemem := translatemem_inReach i
  domemFetch vaddr willbewrite :=
    (busKeeps_spot (K := fun j s => s.Kept b ∧ (j = i → s.Fit b)) fun _ _ hne he => absurd he hne
      ).domemFetch i (translatemem_inReach i vaddr willbewrite)
      fun e m hm => (InReach.others i hm).exception i (m.mycpus i) e
  domemStore hInsn := absurd hInsn hStore
  ll _ _ _ _ hm := hm.modCpu i fun _ => rfl
  hang _ _ _ _ hm := hm
  mtc0 c0 m hOp _ hm := by
    refine hm.modCpu i fun c => ?_
    cases c0 with
    | status => exact absurd (.inl hOp) hRemaps
    | tlbhi => exact absurd (.inr (.inl hOp)) hRemaps
    | _ => rfl
  reduceRandom _ _ hm := hm.modCpu i fun _ => rfl
  probetlb m _ hm := by
    unfold probetlb
    rw [after_bind, after_getCpu]
    split
    · exact hm.modCpu i fun _ => rfl
    · exact hm.modCpu i fun _ => rfl
  tlbr _ hOp hFunct _ _ := absurd (.inr (.inr ⟨hOp, hFunct⟩)) hRemaps
  writetlb _ _ hOp hFunct _ _ := absurd ⟨hOp, hFunct.elim .inl fun h => .inr (.inl h)⟩ hRetranslates
  doWait m _ hm := by
    unfold doWait
    rw [after_bind, after_getCpu]
    split
    · exact hm.modCpu i (f := fun c => { c with state := .idle }) fun _ => rfl
    · exact hm
  doRfe _ hOp hFunct _ _ := absurd ⟨hOp, .inr (.inr hFunct)⟩ hRetranslates

/-! ## Instructions that change where things are found -/

theorem precomputeBoth_kept {m m₁ : Machine δ} (hm : OthersKept i b m) (h₁ : Elsewhere i m m₁)
    (hLevel : (m₁.mycpus i).spot.Level) :
    After (precomputeBoth b i) (fun _ => AllKept b) (PostsKept b) m₁ := by
  refine (precomputeBoth_straight i m₁ hLevel).mono ?_ fun _ _ h => h.elim
  rintro _ m' ⟨c, rfl, hStraight⟩
  refine hm.elsewhere i (h₁.trans i (elsewhere_setCpu i m₁ c)) ?_
  rw [Machine.setCpu_mycpus_self]
  exact hStraight.kept

theorem writetlb_kept {m m₁ : Machine δ} (hm : OthersKept i b m) (h₁ : Elsewhere i m m₁)
    (hLevel : (m₁.mycpus i).spot.Level) (ix : Int) :
    After (writetlb b i ix) (fun _ => AllKept b) (PostsKept b) m₁ := by
  unfold writetlb
  split
  · rw [after_bind, after_modCpu, after_bind]
    refine (after_checkTlbDups i _ _).mono ?_ fun _ _ h => h.elim
    rintro _ m' ⟨hCpus, -, -⟩
    refine precomputeBoth_kept i hm (fun j hj => ?_) ?_
    · rw [hCpus]
      exact (Machine.modCpu_mycpus_ne m₁ _ hj).trans (h₁ j hj)
    · rw [hCpus, Machine.modCpu_mycpus_self]
      exact hLevel
  · exact nofun

/-- TLBWI, TLBWR and RFE bring the fetch position up to date themselves. -/
theorem retranslates_kept {insn : Word} (hInsn : Retranslates insn) {t : Machine δ}
    (ht : OthersKept i b t) (hLevel : (t.mycpus i).spot.Level) :
    After (execute b i insn) (fun _ => AllKept b) (PostsKept b) t := by
  obtain ⟨⟨hOp, hcn, hrs⟩, hFunct⟩ := hInsn
  simp only [execute, hOp, mxCopz, after_bind, after_getCpu]
  split
  · exact ht.exception i (t.mycpus i) _
  · rename_i hMode
    have hUser : (t.mycpus i).currentUsermode = false := by simpa [hcn] using hMode
    obtain hWi | hWr | hRfe := hFunct
    · simp only [mxCop0, hWi, mxTlbwi, after_bind, after_getCpu]
      exact writetlb_kept i ht (fun _ _ => rfl) hLevel _
    · simp only [mxCop0, hWr, mxTlbwr, after_bind, after_getCpu, after_modCpu]
      refine writetlb_kept i ht (elsewhere_setCpu i t _) ?_ _
      rw [Machine.setCpu_mycpus_self]
      exact hLevel
    · simp only [mxCop0, hRfe, mxRfe, doRfe, after_bind, after_getCpu, hUser]
      rw [if_neg Bool.false_ne_true, after_bind, after_modCpu]
      refine precomputeBoth_kept i ht (elsewhere_setCpu i t _) ?_
      rw [Machine.modCpu_mycpus_self]
      exact hLevel

/-- MTC0 and TLBR do as they please to the mapping. -/
theorem remaps_kept {insn : Word} (hInsn : Remaps insn) {t : Machine δ} (ht : OthersKept i b t)
    (hRemap : ∀ c, Remapped insn (t.mycpus i) c → c.spot.Kept b) :
    After (execute b i insn) (fun _ => AllKept b) (PostsKept b) t := by
  refine after_remaps i hInsn (ht.exception i (t.mycpus i)) fun c m hRemapped hCpus => ?_
  refine ht.elsewhere i (fun j hj => ?_) ?_
  · rw [hCpus, Function.update_of_ne hj]
  · rw [hCpus, Function.update_self]
    exact hRemap c hRemapped

/-- Where the next two addresses were found, they are found after it as well. -/
def FindsStill (b : Board δ) (c c' : Mipscpu) : Prop :=
  (c.mapping.Finds b c.pc → c'.mapping.Finds b c.pc) ∧
    (c.mapping.Finds b c.nextpc → c'.mapping.Finds b c.nextpc)

theorem execute_kept {insn : Word} {t : Machine δ} (ht : OthersKept i b t)
    (hDecoded : (t.mycpus i).spot.Decoded b insn)
    (hRemap : ∀ c, Remapped insn (t.mycpus i) c → FindsStill b (t.mycpus i) c) :
    After (execute b i insn) (fun _ => AllKept b) (PostsKept b) t := by
  by_cases hRetranslates : Retranslates insn
  · exact retranslates_kept i hRetranslates ht hDecoded.level
  have hRfe : insn ≠ fullopRfe := by
    rintro rfl
    exact hRetranslates ⟨⟨rfl, rfl, by decide⟩, .inr (.inr rfl)⟩
  have hAhead := hDecoded.ahead.imp id fun h => And.intro h.1 (h.2 hRfe)
  by_cases hRemaps : Remaps insn
  · refine remaps_kept i hRemaps ht fun c hRemapped => ?_
    have hFetch := hRemapped.toFetchState
    have hPcpage : c.pcpage = (t.mycpus i).pcpage := congrArg FetchState.pcpage hFetch
    have hJumping : c.jumping = (t.mycpus i).jumping := congrArg FetchState.jumping hFetch
    have hPc : c.pc = (t.mycpus i).pc := congrArg FetchState.pc hFetch
    have hNextpc : c.nextpc = (t.mycpus i).nextpc := congrArg FetchState.nextpc hFetch
    obtain hNone | ⟨hFindsPc, hFindsNext⟩ := hAhead
    · exact .inl (hPcpage.trans hNone)
    · have hStill := hRemap c hRemapped
      obtain ⟨hStraight, hNext⟩ := hDecoded.level
      refine Spot.Straight.kept ⟨⟨hJumping.trans hStraight, ?_⟩, ?_, ?_⟩
      · show c.nextpc = c.pc + 4
        rw [hNextpc, hPc]
        exact hNext
      · show c.mapping.Finds b c.pc
        rw [hPc]
        exact hStill.1 hFindsPc
      · show c.mapping.Finds b c.nextpc
        rw [hNextpc]
        exact hStill.2 hFindsNext
  have hKept : (t.mycpus i).spot.Kept b :=
    hAhead.imp id fun h => .inl ⟨hDecoded.level, h⟩
  by_cases hStore : IsStore insn
  · exact store_kept i hStore t (ht.elsewhere i (fun _ _ => rfl) hKept)
  · refine ((rules_inReach i hStore hRemaps hRetranslates).execute t fun j => ?_).mono
      (fun _ _ h j => (h j).1) fun _ _ h => h
    exact ⟨ht.elsewhere i (fun _ _ => rfl) hKept j, fun hj => hj ▸ hDecoded.fit⟩

/-! ## A turn -/

theorem complete_kept {insn : Word} {t : Machine δ}
    (hExec : After (execute b i insn) (fun _ => AllKept b) (PostsKept b) t) :
    After (complete b i insn) (fun _ => AllKept b) (fun _ _ => True) t := by
  have hEnd : ∀ retirePc retireUsermode, Keeps (AllKept b) (fun _ _ => True) (do
      modCpu i Mipscpu.tick
      retire i retirePc retireUsermode) := fun _ _ =>
    Keeps.bind (fun _ hm => hm.modCpu i fun _ => rfl) fun _ =>
      keeps_getCpu i fun _ => Keeps.ite (fun _ _ hm => hm) fun _ => Keeps.pure _
  unfold complete
  rw [after_bind, after_getCpu, after_bind, after_attempt]
  refine hExec.mono (fun _ t' ht' => hEnd _ _ t' ht') fun e t' he => ?_
  cases e with
  | exception => exact hEnd _ _ t' (he rfl)
  | smoke | undefined => trivial

/-- The instruction that a turn executes leaves the next two within reach. -/
def LeavesFound (b : Board δ) (i : Nat) (m : Machine δ) : Prop :=
  ∀ insn t, (issue b i).run m = .ok (.insn insn) t →
    ∀ c, Remapped insn (t.mycpus i) c → FindsStill b (t.mycpus i) c

theorem cpuTurn_kept (m : Machine δ) (hAligned : (m.mycpus i).mapping.Aligned) (hm : AllKept b m)
    (hLaw : LeavesFound b i m) :
    After (cpuTurn b i) (fun _ => AllKept b) (fun _ _ => True) m := by
  unfold cpuTurn
  rw [after_bind]
  refine (after_run (issue_kept i m hAligned (hm i))).mono ?_ fun _ _ _ => trivial
  rintro (_ | _ | _ | insn) t ⟨⟨hElsewhere, hIs⟩, hRun⟩
  · exact (hm.others i).elsewhere i hElsewhere hIs
  · exact (hm.others i).elsewhere i hElsewhere hIs
  · exact (hm.others i).elsewhere i hElsewhere hIs
  · have ht : OthersKept i b t := fun j hj => by
      rw [hElsewhere j hj]
      exact hm j
    rw [after_bind]
    exact complete_kept i (execute_kept i ht hIs (hLaw insn t hRun))

/-! ## Runs -/

theorem step_kept {m m' : Machine δ} {a : Act δ} (hAligned : ∀ j, (m.mycpus j).mapping.Aligned)
    (hm : AllKept b m) (hLaw : ∀ i, a = .turn i → LeavesFound b i m) (hStep : Step b m a m') :
    AllKept b m' := by
  cases a with
  | turn i =>
    refine step_after hStep (E := fun _ _ => True) ?_
    simp only [Act.exec, after_bind, after_pure]
    exact cpuTurn_kept i m (hAligned i) hm (hLaw i rfl)
  | raiseIrq slot =>
    exact step_after hStep (E := fun _ _ => True) (ioKeeps_kept.deviceIrq slot true m hStep.1 hm)
  | lowerIrq slot =>
    exact step_after hStep (E := fun _ _ => True) (ioKeeps_kept.deviceIrq slot false m hStep.1 hm)
  | devices d => exact step_after hStep (E := fun _ _ => True) hm
  | setIrqs i lamebus ipi =>
    refine step_after hStep (E := fun _ _ => True) fun j => ?_
    rw [cpuSetIrqs_mycpus (g := Mipscpu.spot) fun _ _ _ => rfl]
    exact hm j
  | setEntrypoint i addr =>
    exact step_after hStep (cpuSetEntrypoint_kept i (E := fun _ _ => True) addr m hm)
  | setStack i stackaddr argument =>
    exact step_after hStep (E := fun _ _ => True) (hm.modCpu i fun _ => rfl)
  | poke index val => exact step_after hStep (E := fun _ _ => True) hm
  | debugger cycling stopped lethal gdbReady => exact step_after hStep (E := fun _ _ => True) hm

theorem allKept_machineInit (devices : δ) (gdbReady : Bool) :
    AllKept b (machineInit devices gdbReady) := by
  intro j
  obtain ⟨⟨page, -, hPc⟩, ⟨page', -, hNextpc⟩⟩ := machineInit_fetch (b := b) devices gdbReady j
  exact Spot.Straight.kept ⟨⟨rfl, rfl⟩, ⟨page, _, hPc⟩, ⟨page', _, hNextpc⟩⟩

theorem allKept_of_run {devices : δ} {gdbReady : Bool} {p : List (Act δ × Machine δ)}
    {m : Machine δ} (hRun : Path (Step b) (machineInit devices gdbReady) p m)
    (hLaw : AllSteps (fun m a _ => ∀ i, a = .turn i → LeavesFound b i m)
      (machineInit devices gdbReady) p) : AllKept b m := by
  have hReset := tlbReset_machineInit devices gdbReady
  have hEntries : ∀ j, Entries (fun mt => mt.mtPfn &&& 0xfff = 0)
      ((machineInit devices gdbReady).mycpus j) := by
    intro j
    rw [Entries, hReset.tlb, hReset.tlbentry]
    exact ⟨resetTlbentry_pfn, resetTlbentry_pfn _⟩
  have hAll : AllStates (fun m : Machine δ =>
      (∀ j, Entries (fun mt => mt.mtPfn &&& 0xfff = 0) (m.mycpus j)) ∧ AllKept b m)
      (machineInit devices gdbReady) p := by
    refine hRun.allStates_of_allSteps (fun m a m' hm hLaw hStep => ?_)
      ⟨hEntries, allKept_machineInit devices gdbReady⟩ hLaw
    exact ⟨step_entries entryLaw_pfn hm.1 hStep,
      step_kept (fun j => (hm.1 j).1) hm.2 hLaw hStep⟩
  exact (hRun.last_state hAll).2

/-- The unit that an instruction reads or writes is busy. -/
def stalls (insn : Word) (c : Mipscpu) : Bool :=
  match opm insn, ops insn with
  | .special, .mfhi | .special, .mthi => whi c
  | .special, .mflo | .special, .mtlo => wlo c
  | .special, .mult | .special, .multu | .special, .div | .special, .divu => whilo c
  | _, _ => false

theorem after_execute_stall {insn : Word} {t : Machine δ} {Q : Unit → Machine δ → Prop}
    {E : Stop → Machine δ → Prop} (hStalls : stalls insn (t.mycpus i) = true) :
    After (execute b i insn) Q E t ↔ After (phonyException b i) Q E t := by
  unfold stalls at hStalls
  split at hStalls
  case h_9 => cases hStalls
  case h_7 hOp hFunct =>
    simp only [execute, hOp, executeSpecial, hFunct, mxDiv, after_bind, after_getCpu]
    rw [if_neg (by simp [hStalls]), setHilo, stallOr, after_bind, after_getCpu, if_pos hStalls]
  all_goals
    rename_i hOp hFunct
    simp only [execute, hOp, executeSpecial, hFunct, mxMfhi, mxMthi, mxMflo, mxMtlo, mxMult, mxMultu,
      mxDivu, setHilo, stallOr, after_bind, after_getCpu, hStalls, if_true]

/-- For every interleaving: if no move to STATUS or TLBHI and no TLBR takes the next two addresses
out of reach, then `phony_exception` comes to its end wherever it is called, at a breakpoint or at an
instruction that stalls. -/
theorem phony_exception_succeeds {devices : δ} {gdbReady : Bool} {p : List (Act δ × Machine δ)}
    {m : Machine δ} (hRun : Path (Step b) (machineInit devices gdbReady) p m)
    (hLaw : AllSteps (fun m a _ => ∀ i, a = .turn i → LeavesFound b i m)
      (machineInit devices gdbReady) p) :
    After (issue b i) (fun is t => ∀ insn, is = .insn insn →
      (t.mycpus i).mapping.Finds b (t.mycpus i).expc ∧
      (t.mycpus i).mapping.Finds b ((t.mycpus i).expc + 4) ∧
      (stalls insn (t.mycpus i) = true →
        After (execute b i insn) (fun _ t' => (t'.mycpus i).pc = (t.mycpus i).expc)
          (fun _ _ => False) t)) NoSmoke m := by
  have hEntries := entries_of_run entryLaw_pfn (tlbReset_machineInit devices gdbReady) hRun
    resetTlbentry_pfn
  have hKept := allKept_of_run hRun hLaw i
  refine (issue_kept i m (hEntries i).1 hKept).mono ?_ fun _ _ h => h
  rintro is t ⟨-, hIs⟩ insn rfl
  obtain ⟨hPc, hNextpc⟩ := Spot.Decoded.fit hIs
  refine ⟨hPc, hNextpc, fun hStalls => ?_⟩
  rw [after_execute_stall i hStalls]
  refine (phonyException_fit i t ⟨hPc, hNextpc⟩).mono ?_ fun _ _ h => h
  rintro _ t' ⟨c, rfl, -, -, hAt⟩
  rw [Machine.setCpu_mycpus_self]
  exact hAt

/-- A multiplication, and a move from `lo` right after it, which stalls. -/
def multThenMflo : List (Act Unit) :=
  [.poke 0 0x00000018, .poke 1 0x00001012, .setEntrypoint 0 0x80000000]

theorem phony_exception_succeeds_mflo : ∃ m t, (issue bareBoard 0).run m = .ok (.insn 0x00001012) t ∧
    stalls 0x00001012 (t.mycpus 0) = true ∧ After (execute bareBoard 0 0x00001012)
      (fun _ t' => (t'.mycpus 0).pc = (t.mycpus 0).expc) (fun _ _ => False) t := by
  have hSeen : seen bareBoard multThenMflo (machineInit () false) (fun m =>
      (yields (issue bareBoard 0) (fun is _ => is) m, yields (cpuTurn bareBoard 0) (fun _ m' =>
        yields (issue bareBoard 0) (fun is t => (is, stalls 0x00001012 (t.mycpus 0))) m') m)) =
      some (some (.insn 0x00000018), some (some (.insn 0x00001012, true))) := by
    decide +kernel
  obtain ⟨p, m, hPath, hActs, hLook⟩ := path_of_seen hSeen (by decide)
  obtain ⟨hMult, hTurn⟩ := Prod.mk.inj hLook
  obtain ⟨stopped, m', hTurn, hIssue⟩ := run_of_yields hTurn
  obtain ⟨is, t, hIssue, hLook⟩ := run_of_yields hIssue
  obtain ⟨rfl, hStalls⟩ := Prod.mk.inj hLook
  have hSetup : AllSteps (fun m a _ => ∀ i, a = .turn i → LeavesFound bareBoard i m)
      (machineInit () false) p := by
    refine AllSteps.of_labels fun s a s' ha i hi => ?_
    rw [hActs, hi] at ha
    simp [multThenMflo] at ha
  have hLaw : ∀ i, (Act.turn 0 : Act Unit) = .turn i → LeavesFound bareBoard i m := by
    intro i hi insn t hIssue c hRemapped
    obtain rfl := Act.turn.inj hi
    obtain ⟨is, u, hIssue', rfl⟩ := run_of_yields hMult
    obtain rfl := Issue.insn.inj (EStateM.Result.ok.inj (hIssue'.symm.trans hIssue)).1
    obtain ⟨-, ⟨c0, ⟨hOp, -⟩, -⟩ | ⟨⟨hOp, -⟩, -⟩⟩ := hRemapped <;> exact absurd hOp (by decide)
  have hRun := hPath.append (.cons (step_turn bareBoard.ncpus_pos hTurn) (.nil m'))
  have hAfter := after_of_run_ok (phony_exception_succeeds 0 hRun (hPath.allSteps_concat hSetup hLaw))
    hIssue
  exact ⟨m', t, hIssue, hStalls, (hAfter _ rfl).2.2 hStalls⟩

/-- The kernel switches itself to user mode, and stalls before it has left its page. -/
def stallInUserMode : List (Act Unit) :=
  [.poke 0 0x24020002, .poke 1 0x40826000, .poke 2 0x00000018, .poke 3 0x00001012,
    .setEntrypoint 0 0x80000000, .turn 0, .turn 0, .turn 0]

theorem phony_exception_fails : ∃ p m m', Path (Step bareBoard) (machineInit () false) p m ∧
    p.map Prod.fst = stallInUserMode ∧
    (cpuTurn bareBoard 0).run m = .error (.smoke "precompute_pc failed in phony_exception") m' := by
  have hSeen : seen bareBoard stallInUserMode (machineInit () false)
      (fun m => thrown (cpuTurn bareBoard 0) m) =
      some (some (.smoke "precompute_pc failed in phony_exception")) := by
    decide +kernel
  obtain ⟨p, m, hPath, hActs, hThrown⟩ := path_of_seen hSeen (by decide)
  obtain ⟨m', hRun⟩ := run_of_thrown hThrown
  exact ⟨p, m, m', hPath, hActs, hRun⟩

end Sys161.Mips
