import Sys161.Mips.Waits

/-!
# Turns of a user program

A turn in which no exception and no interrupt comes up, taken apart: the pages
computed ahead stay where the addresses lie, and the course of the turn can be
told from the state the instruction is executed in.
-/

namespace Sys161.Mips

open Exec Runs

set_option autoImplicit false

variable {δ : Type} (b : Board δ) (i : Nat)

/-- A turn in user mode that neither an interrupt nor an exception disturbs: `t` is the machine
about to execute the instruction, and `t'` the one that has. -/
structure UserTurn (m : Machine δ) (insn : Word) (t t' m' : Machine δ) : Prop where
  usermode : (m.mycpus i).currentUsermode = true
  calm : (m.mycpus i).interrupted = false
  issue : (issue b i).run m = .ok (.insn insn) t
  execute : (execute b i insn).run t = .ok () t'
  turn : (cpuTurn b i).run m = .ok false m'

/-- The page computed ahead for the pc is where it lies now, and so is that for the address after
it, unless its translation has been put off. -/
def Poised (c : Mipscpu) : Prop :=
  c.pcpage = none ∨ (Coherent b c ∧
    ((∃ page, c.nextpcpage = some page ∧ c.mapping.fetch b c.nextpc = .ok (page, c.nextpcoff)) ∨
      (c.jumping = true ∧ c.nextpcpage = none)))

variable {b}

/-! ## Poised cpus -/

/-- The page and the offset are those that a fetch gives now. -/
abbrev Right (b : Board δ) (mp : Mapping) (vaddr : Word) (page : Page) (off : Word) : Prop :=
  mp.fetch b vaddr = .ok (page, off)

theorem poised_of_ready {c : Mipscpu} (h : Ready (Right b) c.position) : Poised b c :=
  .inr ⟨h.1, .inl h.2⟩

theorem Poised.same {c c' : Mipscpu} (h : Poised b c) (hPosition : c'.position = c.position)
    (hJumping : c'.jumping = c.jumping) : Poised b c' := by
  have hPcpage : c'.pcpage = c.pcpage := congrArg Position.pcpage hPosition
  have hNextpcpage : c'.nextpcpage = c.nextpcpage := congrArg Position.nextpcpage hPosition
  have hPc : PcReady (Right b) c.position → PcReady (Right b) c'.position := by
    rw [hPosition]
    exact id
  have hNext : NextReady (Right b) c.position → NextReady (Right b) c'.position := by
    rw [hPosition]
    exact id
  obtain hNone | ⟨hAt, hNextAt | ⟨hTaken, hOff⟩⟩ := h
  · exact .inl (hPcpage.trans hNone)
  · exact .inr ⟨hPc hAt, .inl (hNext hNextAt)⟩
  · exact .inr ⟨hPc hAt, .inr ⟨hJumping.trans hTaken, hNextpcpage.trans hOff⟩⟩

/-- The cpu is poised. -/
def PoisedAt (b : Board δ) (i : Nat) (m : Machine δ) : Prop :=
  ∀ j, j = i → Poised b (m.mycpus j)

theorem PoisedAt.same {m : Machine δ} (hm : PoisedAt b i m) (j : Nat) {f : Mipscpu → Mipscpu}
    (hPosition : ∀ c, (f c).position = c.position) (hJumping : ∀ c, (f c).jumping = c.jumping) :
    PoisedAt b i (m.modCpu j f) :=
  forall_modCpu (P := fun j c => j = i → Poised b c) j hm
    fun hj => (hm j hj).same (hPosition _) (hJumping _)

theorem poisedAt_setCpu {m : Machine δ} {c : Mipscpu} (hc : Poised b c) :
    PoisedAt b i (m.setCpu i c) := by
  rintro j rfl
  rw [Machine.setCpu_mycpus_self]
  exact hc

theorem translatemem_poised (vaddr : Word) (iswrite : Bool) :
    Keeps (PoisedAt b i) (fun _ _ => True) (translatemem b i vaddr iswrite) := by
  intro m hm
  rw [after_translatemem]
  split
  · refine PoisedAt.same i hm i (f := fun c => c.translated vaddr iswrite) (fun c => ?_) fun c => ?_
    · exact position_translated c vaddr iswrite
    · exact congrArg FetchState.jumping (translated_toFetchState c vaddr iswrite)
  · trivial

theorem abranch_poised (addr : Word) :
    Keeps (PoisedAt b i) (fun _ _ => True) (abranch b i addr) := by
  refine Keeps.ite (fun _ _ _ => trivial) fun _ m hm => ?_
  rw [after_bind, after_modCpu, after_bind, after_getCpu, after_bind, Machine.modCpu_mycpus_self]
  dsimp only
  obtain hNone | ⟨hPc, -⟩ := hm i rfl
  · rw [hNone, after_useMap_none]
    trivial
  · have hBranch : PcReady (Right b)
        (Mipscpu.position { m.mycpus i with nextpc := addr, jumping := true }) := hPc
    obtain ⟨page, hPage, -⟩ := hPc
    rw [hPage, after_useMap_some]
    split
    · rw [after_modCpu]
      rintro j rfl
      rw [Machine.modCpu_mycpus_self, Machine.modCpu_mycpus_self]
      exact .inr ⟨hBranch, .inr ⟨rfl, rfl⟩⟩
    · refine (precomputeNextpc_ready i ahead_right _).mono ?_ fun _ _ _ => trivial
      rintro _ m' ⟨c, rfl, hNext, -, hKeep⟩
      rw [Machine.modCpu_mycpus_self] at hKeep
      exact poisedAt_setCpu i (poised_of_ready ⟨hKeep hBranch, hNext⟩)

theorem cpuSetEntrypoint_poised {E : Stop → Machine δ → Prop} (j : Nat) (addr : Word) :
    Keeps (PoisedAt b i) E (cpuSetEntrypoint b j addr) := by
  intro m hm
  refine (cpuSetEntrypoint_ready j ahead_right addr m).mono ?_ fun _ _ h => h.elim
  rintro _ m' ⟨hElsewhere, hReady⟩ k hk
  by_cases hj : k = j
  · subst hj
    exact poised_of_ready hReady
  · rw [hElsewhere k hj]
    exact hm k hk

theorem ioKeeps_poised : IoKeeps b (PoisedAt (δ := δ) b i) fun _ _ => True where
  toBusKeeps := busKeeps_mycpus b (g := Poised b) (K := fun j h => j = i → h) (fun _ _ _ => rfl)
    (fun _ _ _ => trivial) fun _ _ => trivial
  setCpue val := by
    refine Keeps.forM fun j _ => Keeps.bind Keeps.get fun m => Keeps.ite (fun _ => ?_) fun _ =>
      Keeps.ite (fun _ => ?_) fun _ => Keeps.pure _
    · refine Keeps.bind (fun _ hm => hm) fun _ => ?_
      exact Keeps.bind (fun _ hm => PoisedAt.same i hm j (fun _ => rfl) fun _ => rfl)
        fun _ _ hm => hm
    · refine Keeps.bind (cpuSetEntrypoint_poised i j _) fun _ => ?_
      refine Keeps.bind (fun _ hm => PoisedAt.same i hm j (fun _ => rfl) fun _ => rfl) fun _ => ?_
      exact Keeps.bind (fun _ hm => PoisedAt.same i hm j (fun _ => rfl) fun _ => rfl)
        fun _ _ hm => hm

/-- No instruction outside the coprocessors changes where addresses lie. -/
theorem rules_poised {insn : Word} (hCop : opm insn ≠ .cop) :
    Rules b i insn (PoisedAt b i) fun _ _ => True where
  smoke _ _ _ := trivial
  undefined _ _ := trivial
  raise _ _ _ := trivial
  reg _ _ _ _ hm := hm.same i i (fun _ => rfl) fun _ => rfl
  hilo _ _ _ _ _ hm := hm.same i i (fun _ => rfl) fun _ => rfl
  phonyException m _ := by
    refine (phonyException_ready i ahead_right m).mono ?_ fun _ _ _ => trivial
    rintro _ m' ⟨c, rfl, hReady⟩
    exact poisedAt_setCpu i (poised_of_ready hReady)
  abranch := abranch_poised i
  translatemem := translatemem_poised i
  domemFetch vaddr willbewrite :=
    (ioKeeps_poised i).domemFetch i (translatemem_poised i vaddr willbewrite) fun _ _ _ => trivial
  domemStore _ vaddr val :=
    (ioKeeps_poised i).domemStore i (translatemem_poised i vaddr true) (fun _ _ _ => trivial)
      fun _ _ hm => hm
  ll _ _ _ _ hm := hm.same i i (fun _ => rfl) fun _ => rfl
  hang _ _ _ _ hm := hm
  mtc0 _ _ hOp := absurd hOp.1 hCop
  reduceRandom _ _ hm := hm.same i i (fun _ => rfl) fun _ => rfl
  probetlb m _ hm := by
    unfold probetlb
    rw [after_bind, after_getCpu]
    split
    · exact hm.same i i (fun _ => rfl) fun _ => rfl
    · exact hm.same i i (fun _ => rfl) fun _ => rfl
  tlbr _ hOp := absurd hOp.1 hCop
  writetlb _ _ hOp := absurd hOp.1 hCop
  doWait m _ hm := by
    unfold doWait
    rw [after_bind, after_getCpu]
    split
    · exact hm.same i i (f := fun c => { c with state := .idle }) (fun _ => rfl) fun _ => rfl
    · exact hm
  doRfe _ hOp := absurd hOp.1 hCop

/-! ## The start of a turn -/

/-- The machine in which the instruction is fetched, if no interrupt comes up. -/
def Machine.fetching (m : Machine δ) (i : Nat) : Machine δ :=
  let m := m.modCpu i Mipscpu.updateExpc
  m.countStats i (PercpuStats.cycle (m.mycpus i).currentUsermode)

theorem fetching_mycpus_self (m : Machine δ) :
    (m.fetching i).mycpus i = (m.mycpus i).updateExpc :=
  m.modCpu_mycpus_self i _

/-- What does not look at the fetch state is as it was. -/
theorem updateExpc_same {β : Type} {f : Mipscpu → β}
    (hf : ∀ c state, f { c with toFetchState := state } = f c) (c : Mipscpu) :
    f c.updateExpc = f c := by
  have hSet : c.updateExpc = { c with toFetchState := c.updateExpc.toFetchState } := by
    unfold Mipscpu.updateExpc
    split <;> rfl
  rw [hSet, hf]

theorem fetching_position (m : Machine δ) :
    ((m.fetching i).mycpus i).position = (m.mycpus i).position := by
  rw [fetching_mycpus_self]
  unfold Mipscpu.updateExpc
  split <;> rfl

theorem run_issue {m : Machine δ} (hRunning : (m.mycpus i).state = .running)
    (hCalm : (m.mycpus i).interrupted = false) :
    (issue b i).run m = (fetch b i).run (m.fetching i) := by
  have hStart : (m.mycpus i).startCycle b = (m.mycpus i).updateExpc := by
    unfold Mipscpu.startCycle
    dsimp only
    rw [updateExpc_same (f := Mipscpu.interrupted) (fun _ _ => rfl), hCalm, if_neg (by decide)]
  have hSet : m.modCpu i (fun c => c.startCycle b) = m.modCpu i Mipscpu.updateExpc :=
    congrArg (m.setCpu i) hStart
  refine run_of_after ?_
  unfold issue
  rw [after_bind, after_getCpu, if_neg (not_not.mpr hRunning), after_bind, after_modCpu, hSet,
    after_bind]
  change After (fetch b i) _ _ (m.fetching i)
  exact (after_run (after_of_forall (fun _ _ => trivial) fun _ _ => trivial)).mono
    (fun _ _ h => h.2) fun _ _ h => h.2

theorem pcpage_of_fetch {m t : Machine δ} {is : Issue}
    (h : (fetch b i).run (m.fetching i) = .ok is t) : (m.mycpus i).pcpage ≠ none := by
  intro hNone
  have hPage : ((m.fetching i).mycpus i).pcpage = none :=
    (congrArg Position.pcpage (fetching_position i m)).trans hNone
  have hUndefined : After (fetch b i) (fun _ _ => False) (fun _ _ => True) (m.fetching i) := by
    unfold fetch
    rw [after_bind, after_getCpu, after_bind, hPage, after_useMap_none]
    trivial
  exact after_of_run_ok hUndefined h

/-- What the pc leaves as it moves on is left by the fetch. -/
theorem fetch_of_advancePc {m : Machine δ} {P : Word → Machine δ → Prop}
    (h : ∀ insn, After (advancePc b i insn) (fun _ => P insn) (fun _ _ => True) m)
    (hBreak : ∀ insn t, P insn t → P insn (t.modCpu i fun c => { c with hitBreakpoint := false })) :
    After (fetch b i) (fun is t => ∀ insn, is = .insn insn → P insn t) (fun _ _ => True) m := by
  unfold fetch
  rw [after_bind, after_getCpu, after_bind]
  cases (m.mycpus i).pcpage with
  | none => trivial
  | some page =>
    rw [after_useMap_some, after_bind, after_attempt]
    generalize busUseMap m.ram page (m.mycpus i).pcoff = insn
    refine (h insn).mono (fun _ t ht => ?_) fun e t _ => ?_
    · rw [if_pos rfl, after_bind, after_modCpu, after_bind, after_get, after_bind, after_getCpu,
        after_ite]
      split
      · rw [after_bind]
        exact after_of_forall (fun _ _ _ => nofun) fun _ _ => trivial
      · intro insn' hInsn
        obtain rfl := Issue.insn.inj hInsn
        exact hBreak insn t ht
    · cases e with
      | exception => exact fun _ => nofun
      | smoke | undefined => trivial

/-- The pc moves on: nothing else but the time differs. -/
structure MovedOn (c c' : Mipscpu) : Prop where
  expc : c'.expc = c.expc
  untimed : c'.untimed = Mipscpu.untimed { c with toFetchState := c'.toFetchState }
  waits : c'.waits = c.waits

theorem MovedOn.same {c c' c'' : Mipscpu} (h : MovedOn c c') (hUntimed : c''.untimed = c'.untimed)
    (hWaits : c''.waits = c'.waits) : MovedOn c c'' where
  expc := (congrArg (fun c : Mipscpu => c.expc) hUntimed).trans h.expc
  untimed := by
    have hSame := congrArg Mipscpu.toFetchState hUntimed
    have hFetch : c''.toFetchState = c'.toFetchState := hSame
    rw [hUntimed, h.untimed, hFetch]
  waits := hWaits.trans h.waits

theorem advancePc_movedOn (insn : Word) (m : Machine δ) :
    After (advancePc b i insn) (fun _ t => ∃ c, t = m.setCpu i c ∧ MovedOn (m.mycpus i) c)
      (fun _ _ => True) m := by
  unfold advancePc
  rw [after_bind, after_modCpu, after_bind, after_getCpu, Machine.modCpu,
    Machine.setCpu_mycpus_self]
  split
  · split
    · rw [after_modCpu, Machine.modCpu, Machine.setCpu_setCpu, Machine.setCpu_mycpus_self]
      exact ⟨_, rfl, rfl, rfl, rfl⟩
    · rw [after_precomputeNextpc]
      dsimp only
      rw [Machine.setCpu_mycpus_self]
      split
      · rename_i page off hFetch
        have hMoved : MovedOn (m.mycpus i) ((m.mycpus i).advance.setNextpcpage page off) :=
          ⟨rfl, rfl, rfl⟩
        refine ⟨_, Machine.setCpu_setCpu m i _ _, hMoved.same ?_ ?_⟩
        · exact congrArg (fun c => c.setNextpcpage page off)
            (untimed_translated (m.mycpus i).advance (m.mycpus i).advance.nextpc false)
        · exact waits_translated (m.mycpus i).advance (m.mycpus i).advance.nextpc false
      · trivial
  · rw [after_modCpu, Machine.modCpu, Machine.setCpu_setCpu, Machine.setCpu_mycpus_self]
    exact ⟨_, rfl, rfl, rfl, rfl⟩

theorem fetch_movedOn (m : Machine δ) :
    After (fetch b i) (fun is t => ∀ insn, is = .insn insn →
      ∃ c, t = m.setCpu i c ∧ MovedOn (m.mycpus i) c) (fun _ _ => True) m := by
  refine fetch_of_advancePc i (fun insn => advancePc_movedOn i insn m) ?_
  rintro _ _ ⟨c, rfl, h⟩
  rw [Machine.modCpu, Machine.setCpu_setCpu, Machine.setCpu_mycpus_self]
  exact ⟨_, rfl, h.expc, h.untimed, h.waits⟩

/-! ## The end of a turn -/

/-- The machine at the end of a turn, from that at the end of the instruction. -/
def Machine.retired (m : Machine δ) (i : Nat) (c : Mipscpu) : Machine δ :=
  let m := m.modCpu i Mipscpu.tick
  if (m.mycpus i).pc = c.pc then m.countStats i (PercpuStats.retired c.currentUsermode) else m

theorem retired_mycpus (m : Machine δ) (c : Mipscpu) :
    (m.retired i c).mycpus = (m.modCpu i Mipscpu.tick).mycpus := by
  unfold Machine.retired
  dsimp only
  split <;> rfl

theorem retired_untimed (m : Machine δ) (c : Mipscpu) :
    (m.retired i c).untimed i = (m.modCpu i Mipscpu.tick).untimed i := by
  unfold Machine.retired
  dsimp only
  split <;> rfl

theorem run_cpuTurn {m t t' : Machine δ} {insn : Word} (hIssue : (issue b i).run m = .ok (.insn insn) t)
    (hExecute : (execute b i insn).run t = .ok () t') :
    (cpuTurn b i).run m = .ok false (t'.retired i (t.mycpus i)) := by
  refine run_of_after ?_
  unfold cpuTurn complete
  rw [after_bind, after_ok_iff hIssue]
  dsimp only
  rw [after_bind, after_bind, after_getCpu, after_bind, after_attempt, after_ok_iff hExecute,
    after_bind, after_modCpu]
  unfold retire
  rw [after_bind, after_getCpu]
  split
  · rename_i hPc
    rw [Machine.retired, if_pos hPc]
    rfl
  · rename_i hPc
    rw [Machine.retired, if_neg hPc]
    rfl

/-! ## A turn -/

theorem advancePc_poised (insn : Word) (m : Machine δ) (hAligned : (m.mycpus i).mapping.Aligned)
    (hNext : (m.mycpus i).nextpcpage = none ∨ NextReady (Right b) (m.mycpus i).position) :
    After (advancePc b i insn) (fun _ t => insn ≠ fullopRfe → Poised b (t.mycpus i))
      (fun _ _ => True) m := by
  obtain hNone | hReady := hNext
  · unfold advancePc
    rw [after_bind, after_modCpu, after_bind, after_getCpu, Machine.modCpu,
      Machine.setCpu_mycpus_self]
    split
    · split
      · rename_i hRfe
        exact fun hne => absurd hRfe hne
      · rw [after_precomputeNextpc]
        dsimp only
        rw [Machine.setCpu_mycpus_self]
        split
        · refine fun _ => .inl ?_
          rw [Machine.setCpu_mycpus_self]
          exact (congrArg FetchState.pcpage (translated_toFetchState _ _ false)).trans hNone
        · trivial
    · rw [after_modCpu, Machine.modCpu, Machine.setCpu_setCpu, Machine.setCpu_mycpus_self]
      refine fun _ => .inl ?_
      rw [Machine.setCpu_mycpus_self]
      exact hNone
  · refine (advancePc_ready i ahead_right m insn hAligned fun _ => hReady).mono ?_
      fun _ _ _ => trivial
    rintro _ t ⟨c, rfl, hc⟩ hRfe
    rw [Machine.setCpu_mycpus_self]
    exact poised_of_ready (hc hRfe)

namespace UserTurn

variable {i} {m t t' m' : Machine δ} {insn : Word} (h : UserTurn b i m insn t t' m')

include h

theorem fetched : (fetch b i).run (m.fetching i) = .ok (.insn insn) t := by
  rw [← run_issue i (running_of_insn h.issue) h.calm]
  exact h.issue

theorem movedOn : ∃ c, t = (m.fetching i).setCpu i c ∧ MovedOn (m.mycpus i).updateExpc c := by
  have hMoved := after_of_run_ok (fetch_movedOn i (m.fetching i)) h.fetched insn rfl
  rwa [fetching_mycpus_self] at hMoved

theorem waits_fetched : (t.mycpus i).waits = (m.mycpus i).waits := by
  obtain ⟨c, rfl, hMoved⟩ := h.movedOn
  rw [Machine.setCpu_mycpus_self]
  exact hMoved.waits.trans (updateExpc_same (f := Mipscpu.waits) (fun _ _ => rfl) _)

theorem pc_fetched : (t.mycpus i).pc = (m.mycpus i).nextpc := by
  have hFetch : After (fetch b i) (fun is t => ∀ insn, is = .insn insn →
      (t.mycpus i).pc = ((m.fetching i).mycpus i).nextpc) (fun _ _ => True) (m.fetching i) := by
    refine fetch_of_advancePc i (fun insn => ?_) fun _ _ ht => ?_
    · refine (advancePc_course i insn _).mono ?_ fun _ _ _ => trivial
      rintro _ t ⟨c, rfl, hCourse⟩
      rw [Machine.setCpu_mycpus_self]
      exact congrArg Course.pc hCourse
    · rw [Machine.modCpu_mycpus_self]
      exact ht
  exact (after_of_run_ok hFetch h.fetched insn rfl).trans
    (congrArg Position.nextpc (fetching_position i m))

theorem usermode_fetched : (t.mycpus i).currentUsermode = true := by
  obtain ⟨c, rfl, hMoved⟩ := h.movedOn
  have hUntimed := congrArg (fun c : Mipscpu => c.currentUsermode) hMoved.untimed
  have hMode := updateExpc_same (f := fun c => c.currentUsermode) (fun _ _ => rfl) (m.mycpus i)
  rw [Machine.setCpu_mycpus_self]
  exact hUntimed.trans (hMode.trans h.usermode)

/-- The system coprocessor is not for user programs. -/
theorem not_cop : opm insn ≠ .cop := by
  intro hOp
  have hRaised : After (Mips.execute b i insn) (fun _ _ => False) (fun _ _ => True) t := by
    simp only [Mips.execute, hOp, mxCopz, after_bind, after_getCpu]
    rw [if_pos (.inr h.usermode_fetched)]
    trivial
  exact after_of_run_ok hRaised h.execute

theorem not_rfe : insn ≠ fullopRfe := by
  rintro rfl
  exact h.not_cop (by decide)

theorem end_eq : m' = t'.retired i (t.mycpus i) :=
  (EStateM.Result.ok.inj (h.turn.symm.trans (run_cpuTurn i h.issue h.execute))).2

/-- What was computed ahead stays right. -/
theorem poised (hAligned : (m.mycpus i).mapping.Aligned) (hm : Poised b (m.mycpus i)) :
    Poised b (m'.mycpus i) := by
  have hPosition := fetching_position i m
  have hNext : ((m.fetching i).mycpus i).nextpcpage = none ∨
      NextReady (Right b) ((m.fetching i).mycpus i).position := by
    have hSame : ((m.fetching i).mycpus i).nextpcpage = (m.mycpus i).nextpcpage :=
      congrArg Position.nextpcpage hPosition
    rw [hPosition, hSame]
    obtain hNone | ⟨-, hReady | ⟨-, hNone⟩⟩ := hm
    · exact absurd hNone (pcpage_of_fetch i h.fetched)
    · exact .inr hReady
    · exact .inl hNone
  have hFetch : After (fetch b i) (fun is t => ∀ insn, is = .insn insn → insn ≠ fullopRfe →
      Poised b (t.mycpus i)) (fun _ _ => True) (m.fetching i) := by
    refine fetch_of_advancePc i (fun insn => advancePc_poised i insn _ ?_ hNext) ?_
    · have hMapping : ((m.fetching i).mycpus i).mapping = (m.mycpus i).mapping :=
        congrArg Position.mapping hPosition
      rwa [hMapping]
    · intro insn t ht hRfe
      rw [Machine.modCpu_mycpus_self]
      exact (ht hRfe).same rfl rfl
  have ht : PoisedAt b i t := by
    rintro j rfl
    exact after_of_run_ok hFetch h.fetched insn rfl h.not_rfe
  have ht' : PoisedAt b i t' :=
    after_of_run_ok (Q := fun _ => PoisedAt b i) ((rules_poised i h.not_cop).execute t ht)
      h.execute
  rw [h.end_eq, retired_mycpus, Machine.modCpu_mycpus_self]
  exact (ht' i rfl).same rfl rfl

end UserTurn

end Sys161.Mips
