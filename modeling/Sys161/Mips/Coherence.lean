import Sys161.Mips.Ahead
import Sys161.Mips.Tlb

/-!
# Coherence of the fetch position over a run
-/

namespace Sys161.Mips

open Exec Runs

set_option autoImplicit false

variable {δ : Type} {b : Board δ} (i : Nat) {L : Mapping → Word → Page → Word → Prop}

/-! ## Other cpus -/

/-- Cpu `i` is `c` now; the other cpus are as they were. -/
def Sets (c : Mipscpu) (m m' : Machine δ) : Prop := m'.mycpus = Function.update m.mycpus i c

theorem Sets.elsewhere {c : Mipscpu} {m m' : Machine δ} (h : Sets i c m m') : Elsewhere i m m' :=
  fun j hj => by rw [h, Function.update_of_ne hj]

theorem Sets.mycpus_self {c : Mipscpu} {m m' : Machine δ} (h : Sets i c m m') : m'.mycpus i = c := by
  rw [h, Function.update_self]

theorem hangUnless_of_faulted {x : M δ Unit} {Q : Mipscpu → Prop} {m : Machine δ}
    (hQ : ∀ c, Ready L c.position → Q c)
    (hx : After x (fun _ m' => ∃ c', m' = m.setCpu i c' ∧ Q c') (Faulted i L m) m) :
    After (hangUnless x) (fun _ m' => ∃ c', Sets i c' m m' ∧ Q c') (fun _ _ => False) m := by
  unfold hangUnless
  rw [after_bind]
  refine (attempt_of_faulted i hx).mono ?_ fun _ _ h => h
  rintro done m' (⟨rfl, c', rfl, hc⟩ | ⟨rfl, c', rfl, hc⟩)
  · exact ⟨c', rfl, hc⟩
  · exact ⟨c', rfl, hQ c' hc⟩

/-- A cpu that is started is ready, wherever it is to start. -/
theorem cpuSetEntrypoint_ready (hL : Ahead b L) (addr : Word) (m : Machine δ) :
    After (cpuSetEntrypoint b i addr)
      (fun _ m' => Elsewhere i m m' ∧ Ready L (m'.mycpus i).position) (fun _ _ => False) m := by
  have hRest : ∀ m₁ : Machine δ, Elsewhere i m m₁ → After (do
      let addr := addr &&& 0xfffffffc
      modCpu i fun c =>
        { c with r := Function.update c.r 25 addr, expc := addr, pc := addr, nextpc := addr + 4 }
      hangUnless (precomputePc b i)
      hangUnless (precomputeNextpc b i))
      (fun _ m' => Elsewhere i m m' ∧ Ready L (m'.mycpus i).position) (fun _ _ => False) m₁ := by
    intro m₁ h₁
    rw [after_bind, after_modCpu, after_bind]
    generalize hm₂ : m₁.modCpu i _ = m₂
    have h₂ : Elsewhere i m m₂ := by
      rw [← hm₂]
      exact h₁.trans i (elsewhere_setCpu i m₁ _)
    have hPc : After (precomputePc b i)
        (fun _ m' => ∃ c', m' = m₂.setCpu i c' ∧ PcReady L c'.position) (Faulted i L m₂) m₂ :=
      (precomputePc_ready i hL m₂).mono (fun _ _ ⟨c', hc', hReady, _⟩ => ⟨c', hc', hReady⟩)
        fun _ _ h => h
    refine (hangUnless_of_faulted i (fun _ h => h.1) hPc).mono ?_ fun _ _ h => h
    rintro _ m₃ ⟨c₃, h₃, hPcReady⟩
    have hNext : After (precomputeNextpc b i)
        (fun _ m' => ∃ c', m' = m₃.setCpu i c' ∧ Ready L c'.position) (Faulted i L m₃) m₃ := by
      refine (precomputeNextpc_ready i hL m₃).mono ?_ fun _ _ h => h
      rintro _ m' ⟨c', hc', hNextReady, -, hKeep⟩
      rw [h₃.mycpus_self] at hKeep
      exact ⟨c', hc', hKeep hPcReady, hNextReady⟩
    refine (hangUnless_of_faulted i (fun _ h => h) hNext).mono ?_ fun _ _ h => h
    rintro _ m₄ ⟨c₄, h₄, hReady⟩
    refine ⟨(h₂.trans i (h₃.elsewhere i)).trans i (h₄.elsewhere i), ?_⟩
    rw [h₄.mycpus_self]
    exact hReady
  unfold cpuSetEntrypoint
  split
  · rw [after_bind, after_hang]
    exact hRest _ fun _ _ => rfl
  · exact hRest m fun _ _ => rfl

theorem cpuSetEntrypoint_position {K : Nat → Position → Prop} (hL : Ahead b L)
    (hReady : ∀ j p, Ready L p → K j p) {E : Stop → Machine δ → Prop} (addr : Word) :
    Keeps (fun m : Machine δ => ∀ j, K j (m.mycpus j).position) E (cpuSetEntrypoint b i addr) := by
  intro m hm
  refine (cpuSetEntrypoint_ready i hL addr m).mono ?_ fun _ _ h => h.elim
  rintro _ m' ⟨hElsewhere, hi⟩ j
  by_cases hj : j = i
  · subst hj
    exact hReady j _ hi
  · rw [hElsewhere j hj]
    exact hm j

theorem keeps_modCpu_position {K : Nat → Position → Prop} {E : Stop → Machine δ → Prop}
    {f : Mipscpu → Mipscpu} (hf : ∀ c, (f c).position = c.position) :
    Keeps (fun m : Machine δ => ∀ j, K j (m.mycpus j).position) E (modCpu i f : M δ Unit) := by
  intro m hm
  exact forall_modCpu (P := fun j c => K j c.position) i hm (by rw [hf]; exact hm i)

theorem setCpueCpu_position {K : Nat → Position → Prop} (hL : Ahead b L)
    (hReady : ∀ j p, Ready L p → K j p) {E : Stop → Machine δ → Prop} (val : Word) (j : Nat) :
    Keeps (fun m : Machine δ => ∀ j, K j (m.mycpus j).position) E (setCpueCpu b val j) := by
  refine Keeps.bind Keeps.get fun m => Keeps.ite (fun _ => ?_) fun _ =>
    Keeps.ite (fun _ => ?_) fun _ => Keeps.pure _
  · refine Keeps.bind (fun _ hm => hm) fun _ => ?_
    exact Keeps.bind (keeps_modCpu_position j fun _ => rfl) fun _ _ hm => hm
  · refine Keeps.bind (cpuSetEntrypoint_position j hL hReady _) fun _ => ?_
    refine Keeps.bind (keeps_modCpu_position j fun _ => rfl) fun _ => ?_
    exact Keeps.bind (keeps_modCpu_position j fun _ => rfl) fun _ _ hm => hm

/-- What is asked of each cpu is kept where the fetch position is, and holds of a ready cpu. -/
theorem ioKeeps_position {K : Nat → Position → Prop} (hL : Ahead b L)
    (hReady : ∀ j p, Ready L p → K j p) {E : Stop → Machine δ → Prop}
    (hSmoke : ∀ msg m, (∀ j, K j (m.mycpus j).position) → E (.smoke msg) m)
    (hCram : ∀ m, (∀ j, K j (m.mycpus j).position) → E pastCram m) :
    IoKeeps b (fun m : Machine δ => ∀ j, K j (m.mycpus j).position) E where
  toBusKeeps := busKeeps_mycpus b (fun _ _ _ => rfl) hSmoke hCram
  setCpue val := Keeps.forM fun j _ => setCpueCpu_position hL hReady val j

/-! ## An instruction -/

/-- What holds of the cpus while cpu `i` executes an instruction from `t`. -/
def Executing (L : Mapping → Word → Page → Word → Prop) (t : Machine δ) (j : Nat) (p : Position) :
    Prop :=
  if j = i then CpuReady L p else Ready L p ∨ p = (t.mycpus j).position

def AllExecuting (L : Mapping → Word → Page → Word → Prop) (t m : Machine δ) : Prop :=
  ∀ j, Executing i L t j (m.mycpus j).position

/-- No `NULL` pointer is followed. -/
def NoNull (I : Machine δ → Prop) (e : Stop) (m : Machine δ) : Prop :=
  (e = .exception → I m) ∧ e ≠ .undefined "null page pointer"

theorem Ready.executing {t : Machine δ} {j : Nat} {p : Position} (h : Ready L p) :
    Executing i L t j p := by
  unfold Executing
  split
  · exact h.cpuReady
  · exact .inl h

theorem AllExecuting.elsewhere {t m m' : Machine δ} (hm : AllExecuting i L t m)
    (h : Elsewhere i m m') (hi : CpuReady L (m'.mycpus i).position) : AllExecuting i L t m' := by
  intro j
  by_cases hj : j = i
  · subst hj
    rw [Executing, if_pos rfl]
    exact hi
  · rw [h j hj]
    exact hm j

theorem AllExecuting.modCpu {t m : Machine δ} (hm : AllExecuting i L t m)
    {f : Mipscpu → Mipscpu} (hf : ∀ c, (f c).position = c.position) :
    AllExecuting i L t (m.modCpu i f) :=
  forall_modCpu (P := fun j c => Executing i L t j c.position) i hm (by rw [hf]; exact hm i)

theorem AllExecuting.cpuReady {t m : Machine δ} (hm : AllExecuting i L t m) :
    CpuReady L (m.mycpus i).position := by
  have hi := hm i
  rw [Executing, if_pos rfl] at hi
  exact hi

section Execute

variable (hL : Ahead b L) {insn : Word} {t : Machine δ}

include hL

theorem AllExecuting.exception {m : Machine δ} (hm : AllExecuting i L t m) (c : Mipscpu) (e : Exn) :
    NoNull (AllExecuting i L t) .exception (m.setCpu i (c.exception b e)) := by
  refine ⟨fun _ => hm.elsewhere i (elsewhere_setCpu i m _) ?_, by simp⟩
  rw [Machine.setCpu_mycpus_self]
  exact (exception_ready hL c e).cpuReady

theorem keeps_raise_executing {α : Type} (e : Exn) :
    Keeps (AllExecuting i L t) (NoNull (AllExecuting i L t)) (raise b i e : M δ α) :=
  fun m hm => hm.exception i hL (m.mycpus i) e

omit hL in
theorem AllExecuting.setCpu {m : Machine δ} (hm : AllExecuting i L t m) {c : Mipscpu}
    (hc : Ready L c.position) : AllExecuting i L t (m.setCpu i c) := by
  refine hm.elsewhere i (elsewhere_setCpu i m c) ?_
  rw [Machine.setCpu_mycpus_self]
  exact hc.cpuReady

theorem translatemem_executing (vaddr : Word) (iswrite : Bool) :
    Keeps (AllExecuting i L t) (NoNull (AllExecuting i L t)) (translatemem b i vaddr iswrite) := by
  intro m hm
  rw [after_translatemem]
  split
  · exact hm.modCpu i (f := fun c => c.translated vaddr iswrite) fun c => position_translated c _ _
  · exact hm.exception i hL _ _

theorem ioKeeps_executing :
    IoKeeps b (AllExecuting (δ := δ) i L t) (NoNull (AllExecuting i L t)) :=
  ioKeeps_position hL (fun _ _ hReady => hReady.executing i) (fun _ _ hm => ⟨fun _ => hm, by simp⟩)
    fun _ hm => ⟨fun _ => hm, by decide⟩

/-- A branch looks at its delay slot to see whether the translation of its target is put off. -/
theorem abranch_executing (addr : Word) :
    Keeps (AllExecuting i L t) (NoNull (AllExecuting i L t)) (abranch b i addr) := by
  refine Keeps.ite (fun _ => keeps_raise_executing i hL _) fun _ m hm => ?_
  obtain ⟨page, hPage, hAt⟩ := hm.cpuReady.1
  have hPcpage : (m.mycpus i).pcpage = some page := hPage
  rw [after_bind, after_modCpu, after_bind, after_getCpu, after_bind, Machine.modCpu_mycpus_self]
  dsimp only
  rw [hPcpage, after_useMap_some]
  have hElsewhere := elsewhere_setCpu i m { m.mycpus i with nextpc := addr, jumping := true }
  have hPc : PcReady L (Mipscpu.position { m.mycpus i with nextpc := addr, jumping := true }) :=
    hm.cpuReady.1
  split
  · rw [after_modCpu]
    refine hm.elsewhere i (hElsewhere.trans i (elsewhere_setCpu i _ _)) ?_
    rw [Machine.modCpu_mycpus_self, Machine.modCpu_mycpus_self]
    exact ⟨hPc, .inr rfl⟩
  · refine (precomputeNextpc_ready i hL _).mono ?_ ?_
    · rintro _ m' ⟨c', rfl, hNext, -, hKeep⟩
      rw [Machine.modCpu_mycpus_self] at hKeep
      refine hm.elsewhere i (hElsewhere.trans i (elsewhere_setCpu i _ c')) ?_
      rw [Machine.setCpu_mycpus_self]
      exact ⟨hKeep hPc, .inl hNext⟩
    · rintro e m' ⟨rfl, c', rfl, hReady⟩
      refine ⟨fun _ => hm.elsewhere i (hElsewhere.trans i (elsewhere_setCpu i _ c')) ?_, by simp⟩
      rw [Machine.setCpu_mycpus_self]
      exact hReady.cpuReady

theorem precomputeBoth_executing {m m₁ : Machine δ} (hm : AllExecuting i L t m)
    (h₁ : Elsewhere i m m₁) : After (precomputeBoth b i) (fun _ => AllExecuting i L t)
      (NoNull (AllExecuting i L t)) m₁ := by
  refine (precomputeBoth_ready i hL m₁).mono ?_ fun _ _ h => h.elim
  rintro _ m' ⟨c', rfl, hReady⟩
  refine hm.elsewhere i (h₁.trans i (elsewhere_setCpu i m₁ c')) ?_
  rw [Machine.setCpu_mycpus_self]
  exact hReady.cpuReady

/-- The instructions that change the mapping and leave the fetch position as it is. -/
def Remaps (insn : Word) : Prop :=
  IsMtc0 insn .status ∨ IsMtc0 insn .tlbhi ∨ (cop0Op insn ∧ (insn &&& 0x01ffffff).toNat = 1)

theorem rules_executing (hRemaps : ¬ Remaps insn) :
    Rules b i insn (AllExecuting i L t) (NoNull (AllExecuting i L t)) where
  smoke _ _ _ := ⟨nofun, by simp⟩
  undefined _ _ := ⟨nofun, by simp⟩
  raise e m hm := hm.exception i hL (m.mycpus i) e
  reg _ _ _ _ hm := hm.modCpu i fun _ => rfl
  hilo _ _ _ _ _ hm := hm.modCpu i fun _ => rfl
  phonyException m hm := by
    refine (phonyException_ready i hL m).mono ?_ ?_
    · rintro _ m' ⟨c', rfl, hReady⟩
      exact hm.setCpu i hReady
    · rintro _ m' ⟨msg, rfl⟩
      exact ⟨nofun, by simp⟩
  abranch := abranch_executing i hL
  translatemem := translatemem_executing i hL
  domemFetch vaddr willbewrite := (ioKeeps_executing i hL).domemFetch i
    (translatemem_executing i hL vaddr willbewrite) fun e => keeps_raise_executing i hL e
  domemStore _ vaddr val := (ioKeeps_executing i hL).domemStore i
    (translatemem_executing i hL vaddr true) (fun e => keeps_raise_executing i hL e)
    fun _ _ hm => hm
  ll _ _ _ _ hm := hm.modCpu i fun _ => rfl
  hang _ _ _ _ hm := hm
  mtc0 c0 m hOp _ hm := by
    refine forall_modCpu (P := fun j c => Executing i L t j c.position) i hm ?_
    cases c0 with
    | status => exact absurd (.inl hOp) hRemaps
    | tlbhi => exact absurd (.inr (.inl hOp)) hRemaps
    | _ => exact hm i
  reduceRandom _ _ hm := hm.modCpu i fun _ => rfl
  probetlb m _ hm := by
    unfold probetlb
    rw [after_bind, after_getCpu]
    split
    · exact hm.modCpu i fun _ => rfl
    · exact hm.modCpu i fun _ => rfl
  tlbr _ hOp hFunct _ _ := absurd (.inr (.inr ⟨hOp, hFunct⟩)) hRemaps
  writetlb ix m _ _ _ hm := by
    unfold writetlb
    split
    · rw [after_bind, after_modCpu, after_bind]
      refine (after_checkTlbDups i _ _).mono ?_ fun _ _ h => h.elim
      rintro _ m' ⟨hCpus, -, -⟩
      refine precomputeBoth_executing i hL hm fun j hj => ?_
      rw [hCpus]
      exact Machine.modCpu_mycpus_ne m _ hj
    · exact ⟨nofun, by simp⟩
  doWait m _ hm := by
    unfold doWait
    rw [after_bind, after_getCpu]
    split
    · exact hm.modCpu i (f := fun c => { c with state := .idle }) fun _ => rfl
    · exact hm
  doRfe m _ _ hUser hm := by
    unfold doRfe
    rw [after_bind, after_getCpu, if_neg (by simp [hUser]), after_bind, after_modCpu]
    exact precomputeBoth_executing i hL hm (elsewhere_setCpu i m _)

omit hL in
theorem executing_of_elsewhere {m : Machine δ} (h : Elsewhere i t m)
    (hi : Ready L (m.mycpus i).position) : AllExecuting i L t m := by
  intro j
  by_cases hj : j = i
  · subst hj
    exact hi.executing j
  · rw [Executing, if_neg hj, h j hj]
    exact .inr rfl

theorem start_exception (c : Mipscpu) (e : Exn) :
    NoNull (AllExecuting i L t) .exception (t.setCpu i (c.exception b e)) := by
  refine ⟨fun _ => executing_of_elsewhere i (elsewhere_setCpu i t _) ?_, by simp⟩
  rw [Machine.setCpu_mycpus_self]
  exact exception_ready hL c e

/-- RFE brings the fetch position up to date, whatever it was. -/
theorem execute_rfe : After (execute b i fullopRfe) (fun _ => AllExecuting i L t)
    (NoNull (AllExecuting i L t)) t := by
  have hOp : opm fullopRfe = .cop := rfl
  have hcn : cn fullopRfe = 0 := rfl
  have hFunct : (fullopRfe &&& 0x01ffffff).toNat = 16 := rfl
  have hrs : 16 ≤ (rs fullopRfe).toNat := by decide
  simp only [execute, hOp, mxCopz, after_bind, after_getCpu]
  split
  · exact start_exception i hL (t.mycpus i) _
  · rename_i hMode
    have hUser : (t.mycpus i).currentUsermode = false := by simpa [hcn] using hMode
    simp only [mxCop0, hFunct, mxRfe, doRfe, after_bind, after_getCpu, hUser]
    rw [if_neg (by decide), after_bind, after_modCpu]
    refine (precomputeBoth_ready i hL _).mono ?_ fun _ _ h => h.elim
    rintro _ m' ⟨c', rfl, hReady⟩
    refine executing_of_elsewhere i ((elsewhere_setCpu i t _).trans i (elsewhere_setCpu i _ c')) ?_
    rw [Machine.setCpu_mycpus_self]
    exact hReady

/-- What MTC0 and TLBR leave of a cpu, in kernel mode. -/
def Remapped (insn : Word) (c c' : Mipscpu) : Prop :=
  c.currentUsermode = false ∧
    ((∃ c0, IsMtc0 insn c0 ∧ c' = c.mtc0 (c.r (rt insn)) c0) ∨
      (cop0Op insn ∧ (insn &&& 0x01ffffff).toNat = 1 ∧ c' = { c with tlbentry := c.tlb c.tlbindex }))

omit hL in
/-- An instruction that remaps raises an exception, or does what it does to the mapping. -/
theorem after_remaps {Q : Unit → Machine δ → Prop} {E : Stop → Machine δ → Prop}
    (hInsn : Remaps insn)
    (hRaise : ∀ e, E .exception (t.setCpu i ((t.mycpus i).exception b e)))
    (hDone : ∀ c m, Remapped insn (t.mycpus i) c → m.mycpus = Function.update t.mycpus i c → Q () m) :
    After (execute b i insn) Q E t := by
  obtain ⟨c0, hCop, hcn, hrs, hSel⟩ | ⟨⟨hCop, hcn, hrs⟩, hFunct⟩ :
      (∃ c0, IsMtc0 insn c0) ∨ (cop0Op insn ∧ (insn &&& 0x01ffffff).toNat = 1) := by
    obtain h | h | h := hInsn
    · exact .inl ⟨_, h⟩
    · exact .inl ⟨_, h⟩
    · exact .inr h
  · simp only [execute, hCop, mxCopz, after_bind, after_getCpu]
    split
    · exact hRaise _
    · rename_i hMode
      have hUser : (t.mycpus i).currentUsermode = false := by simpa [hcn] using hMode
      have hRemapped : Remapped insn (t.mycpus i) ((t.mycpus i).mtc0 ((t.mycpus i).r (rt insn)) c0) :=
        ⟨hUser, .inl ⟨c0, ⟨hCop, hcn, hrs, hSel⟩, rfl⟩⟩
      rw [if_neg (by omega)]
      simp only [hrs, mxMt, domt, after_bind, after_getCpu, if_neg hMode, hSel]
      split
      · exact hDone _ _ hRemapped rfl
      · exact hDone _ _ hRemapped rfl
  · simp only [execute, hCop, mxCopz, after_bind, after_getCpu]
    split
    · exact hRaise _
    · rename_i hMode
      have hUser : (t.mycpus i).currentUsermode = false := by simpa [hcn] using hMode
      simp only [mxCop0, hFunct, mxTlbr]
      exact hDone _ _ ⟨hUser, .inr ⟨⟨hCop, hcn, hrs⟩, hFunct, rfl⟩⟩ rfl

theorem execute_executing (hReady : insn ≠ fullopRfe → Ready L (t.mycpus i).position)
    (hRemap : insn ≠ fullopRfe → ∀ c', Remapped insn (t.mycpus i) c' → Ready L c'.position) :
    After (execute b i insn) (fun _ => AllExecuting i L t) (NoNull (AllExecuting i L t)) t := by
  by_cases hRfe : insn = fullopRfe
  · subst hRfe
    exact execute_rfe i hL
  · by_cases hRemaps : Remaps insn
    · refine after_remaps i hRemaps (start_exception i hL (t.mycpus i)) fun c m hRemapped hCpus => ?_
      refine executing_of_elsewhere i (fun j hj => ?_) ?_
      · rw [hCpus, Function.update_of_ne hj]
      · rw [hCpus, Function.update_self]
        exact hRemap hRfe c hRemapped
    · have ht : AllExecuting i L t t := executing_of_elsewhere i (fun _ _ => rfl) (hReady hRfe)
      exact (rules_executing i hL hRemaps).execute t ht

end Execute

end Sys161.Mips
