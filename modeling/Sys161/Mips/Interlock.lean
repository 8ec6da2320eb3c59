import Sys161.Mips.UserTurns

/-!
# The interlock of the multiply unit

An instruction that finds the multiply unit busy is tried again, through
`phony_exception`. A user program does not notice, as long as the addresses it
is at are found where they were when they were computed ahead.
-/

namespace Sys161.Mips

open Exec Runs

set_option autoImplicit false

variable {δ : Type} (b : Board δ) (i : Nat)

/-! ## With the interlock and without -/

/-- An instruction of a user program retires, by the test in `cpu_cycle`. -/
def Retires (m m' : Machine δ) : Prop :=
  ∃ insn t t', UserTurn b i m insn t t' m' ∧ (t'.mycpus i).pc = (t.mycpus i).pc

/-- It finds the unit busy. -/
def Stalls (m m' : Machine δ) : Prop :=
  ∃ insn t t', UserTurn b i m insn t t' m' ∧ stalls insn (t.mycpus i) = true

/-- An instruction retires after a number of stalled cycles. -/
def RetiresAfter (m : Machine δ) (stalled : Nat) (m' : Machine δ) : Prop :=
  match stalled with
  | 0 => Retires b i m m'
  | n + 1 => ∃ s, Stalls b i m s ∧ RetiresAfter s n m'

def Machine.unlock (m : Machine δ) (i : Nat) : Machine δ :=
  m.modCpu i fun c => { c with lowait := 0, hiwait := 0 }

/-- An instruction retires on a machine without the interlock, where the unit is never busy. -/
def RetiresFree (m : Machine δ) (_ : Unit) (m' : Machine δ) : Prop := Retires b i (m.unlock i) m'

/-- What a user program can see. -/
structure Visible where
  r : Reg → Word
  hi : Word
  lo : Word
  ram : BitVec 30 → Word
  pc : Word

def Machine.visible (m : Machine δ) (i : Nat) : Visible :=
  ⟨(m.mycpus i).r, (m.mycpus i).hi, (m.mycpus i).lo, m.ram, (m.mycpus i).pc⟩

/-- No interrupt comes up before a number of instructions have retired. -/
def CalmFor (n : Nat) (m : Machine δ) : Prop :=
  ∀ c s, Path (RetiresAfter b i) m c s → c.length < n →
    (s.mycpus i).interrupted = false ∧ ∀ s', Stalls b i s s' → (s'.mycpus i).interrupted = false

/-- The same of the machine without the interlock. -/
def CalmFreeFor (n : Nat) (m : Machine δ) : Prop :=
  ∀ q s, Path (RetiresFree b i) m q s → q.length < n → (s.mycpus i).interrupted = false

/-- The machine without the interlock shows the same when an instruction retires, which on the
other has stalled at most once. -/
def Agree (e : Unit × Machine δ) (e' : Nat × Machine δ) : Prop :=
  e'.1 ≤ 1 ∧ e'.2.visible i = e.2.visible i

variable {b}

/-! ## Machines in step -/

/-- As the two start on an instruction, they differ in the time only. -/
def InStep (p m : Machine δ) : Prop := (p.fetching i).untimed i = (m.fetching i).untimed i

theorem updateExpc_of_not_jumping {c : Mipscpu} (h : c.jumping = false) :
    c.updateExpc = { c with expc := c.pc } :=
  if_neg (by simp [h])

theorem updateExpc_untimed (c : Mipscpu) : c.updateExpc.untimed = c.untimed.updateExpc := by
  have hJumping : c.untimed.jumping = c.jumping := rfl
  unfold Mipscpu.updateExpc
  rw [hJumping]
  split <;> rfl

theorem fetching_untimed (m : Machine δ) :
    (m.fetching i).untimed i = (m.untimed i).setCpu i (m.mycpus i).untimed.updateExpc := by
  rw [← updateExpc_untimed]
  exact (Akin.untimed_setCpu m i _).trans (by rw [if_pos rfl])

theorem inStep_of_untimed {p m : Machine δ} (h : p.untimed i = m.untimed i) : InStep i p m := by
  rw [InStep, fetching_untimed, fetching_untimed, h, cpu_of_untimed h]

theorem visible_untimed (m : Machine δ) : (m.untimed i).visible i = m.visible i := by
  unfold Machine.visible
  rw [Machine.untimed_mycpus_self]
  rfl

theorem unlock_mycpus_self (m : Machine δ) :
    (m.unlock i).mycpus i = { m.mycpus i with lowait := 0, hiwait := 0 } :=
  m.modCpu_mycpus_self i _

theorem unlock_untimed (m : Machine δ) : (m.unlock i).untimed i = m.untimed i := by
  have hSet := Akin.untimed_setCpu (i := i) m i { m.mycpus i with lowait := 0, hiwait := 0 }
  have hSelf := Machine.setCpu_self (m.untimed i) i
  rw [Machine.untimed_mycpus_self] at hSelf
  rw [if_pos rfl] at hSet
  exact hSet.trans hSelf

namespace InStep

variable {i} {p m s : Machine δ}

theorem symm (h : InStep i p m) : InStep i m p := Eq.symm h

theorem trans (h : InStep i p m) (h' : InStep i m s) : InStep i p s := Eq.trans h h'

theorem unlock (h : InStep i p m) : InStep i (p.unlock i) m :=
  (inStep_of_untimed i (unlock_untimed i p)).trans h

theorem akin (h : InStep i p m) :
    Akin i (p.mycpus i).waits (m.mycpus i).waits (p.fetching i) (m.fetching i) where
  untimed := h
  waits := by
    rw [fetching_mycpus_self]
    exact updateExpc_same (f := Mipscpu.waits) (fun _ _ => rfl) _
  waits' := by
    rw [fetching_mycpus_self]
    exact updateExpc_same (f := Mipscpu.waits) (fun _ _ => rfl) _

/-- What looks neither at the time nor at the fetch state is the same in both. -/
theorem look (h : InStep i p m) {β : Type} {f : Mipscpu → β}
    (hTime : ∀ c, f c.untimed = f c) (hFetch : ∀ c state, f { c with toFetchState := state } = f c) :
    f (p.mycpus i) = f (m.mycpus i) := by
  have hSame := h.akin.lookCpu hTime i
  rwa [fetching_mycpus_self, fetching_mycpus_self, updateExpc_same hFetch, updateExpc_same hFetch]
    at hSame

end InStep

/-! ## An instruction that does not stall -/

theorem stalls_of_waits {insn : Word} {c c' : Mipscpu} (h : c.waits = c'.waits) :
    stalls insn c = stalls insn c' := by
  obtain ⟨hHi, hLo⟩ := Prod.mk.inj h
  unfold stalls whilo whi wlo
  rw [hHi, hLo]

theorem stalls_of_zero (insn : Word) {c : Mipscpu} (h : c.waits = (0, 0)) :
    stalls insn c = false := by
  obtain ⟨hHi, hLo⟩ := Prod.mk.inj h
  unfold stalls whilo whi wlo
  rw [hHi, hLo]
  split <;> rfl

theorem UserTurn.issued {p u u' p' m t : Machine δ} {insn : Word} (h : UserTurn b i p insn u u' p')
    (hStep : InStep i p m) (hCalm : (m.mycpus i).interrupted = false)
    (hFetch : (fetch b i).run (m.fetching i) = .ok (.insn insn) t) :
    (m.mycpus i).currentUsermode = true ∧ (Mips.issue b i).run m = .ok (.insn insn) t := by
  have hMode := hStep.look (f := fun c => c.currentUsermode) (fun _ => rfl) fun _ _ => rfl
  have hState := hStep.look (f := Mipscpu.state) (fun _ => rfl) fun _ _ => rfl
  exact ⟨hMode.symm.trans h.usermode,
    (run_issue i (hState.symm.trans (running_of_insn h.issue)) hCalm).trans hFetch⟩

/-- Neither run is held up, and both come to the same end. -/
theorem UserTurn.matched {p u u' p' m : Machine δ} {insn : Word} (h : UserTurn b i p insn u u' p')
    (hStep : InStep i p m) (hCalm : (m.mycpus i).interrupted = false)
    (hFree : stalls insn (p.mycpus i) = false) (hReady : stalls insn (m.mycpus i) = false) :
    ∃ t t' m', UserTurn b i m insn t t' m' ∧ t.untimed i = u.untimed i ∧
      t'.untimed i = u'.untimed i := by
  obtain ⟨t, hFetch, hAkin⟩ := blind_fetch.run_ok hStep.akin h.fetched
  obtain ⟨hMode, hIssue⟩ := h.issued i hStep hCalm hFetch
  have hEnd : ∃ t', (Mips.execute b i insn).run t = .ok () t' ∧ t'.untimed i = u'.untimed i := by
    by_cases hUnit : UsesUnit insn
    · obtain ⟨f, hf, traps, hRun⟩ := runsUnit_of_usesUnit (b := b) i hUnit
      have hRegs : (u.mycpus i).r = (t.mycpus i).r :=
        hAkin.lookCpu (f := fun c => c.r) (fun _ => rfl) i
      obtain ⟨-, hFirst⟩ | ⟨hFine, hFirst⟩ := hRun u ((stalls_of_waits hAkin.waits).trans hFree)
      · cases h.execute.symm.trans hFirst
      · obtain ⟨hTraps, -⟩ | ⟨-, hSecond⟩ := hRun t ((stalls_of_waits hAkin.waits').trans hReady)
        · exact absurd (hRegs ▸ hTraps) hFine
        · obtain rfl := (EStateM.Result.ok.inj (h.execute.symm.trans hFirst)).2
          refine ⟨_, hSecond, Eq.symm (hAkin.setCpu ?_ rfl rfl).untimed⟩
          rw [← hf.untimed, hAkin.cpu, hf.untimed]
    · obtain ⟨t', hRun, hAkin'⟩ := (blind_execute h.not_cop hUnit).run_ok hAkin h.execute
      exact ⟨t', hRun, hAkin'.untimed.symm⟩
  obtain ⟨t', hExecute, hSame⟩ := hEnd
  exact ⟨t, t', _, ⟨hMode, hCalm, hIssue, hExecute, run_cpuTurn i hIssue hExecute⟩,
    hAkin.untimed.symm, hSame⟩

theorem UserTurn.untimed_end {m t t' m' : Machine δ} {insn : Word}
    (h : UserTurn b i m insn t t' m') : m'.untimed i =
      (t'.untimed i).setCpu i { (t'.mycpus i).untimed with inJumpdelay := false } := by
  rw [h.end_eq, retired_untimed]
  exact (Akin.untimed_setCpu t' i _).trans (by rw [if_pos rfl]; rfl)

/-- It retires in both, and leaves them in step. -/
theorem UserTurn.retires_matched {p u u' p' m : Machine δ} {insn : Word}
    (h : UserTurn b i p insn u u' p') (hPc : (u'.mycpus i).pc = (u.mycpus i).pc)
    (hStep : InStep i p m) (hCalm : (m.mycpus i).interrupted = false)
    (hFree : stalls insn (p.mycpus i) = false) (hReady : stalls insn (m.mycpus i) = false) :
    ∃ m', Retires b i m m' ∧ InStep i p' m' ∧ m'.visible i = p'.visible i := by
  obtain ⟨t, t', m', h', hStart, hEnd⟩ := h.matched i hStep hCalm hFree hReady
  have hCpu := cpu_of_untimed hEnd
  have hPcStart := congrArg (fun c : Mipscpu => c.pc) (cpu_of_untimed hStart)
  have hPcEnd := congrArg (fun c : Mipscpu => c.pc) hCpu
  have hUntimed : p'.untimed i = m'.untimed i := by
    rw [h.untimed_end, h'.untimed_end, hEnd, hCpu]
  refine ⟨m', ⟨insn, t, t', h', ?_⟩, inStep_of_untimed i hUntimed, ?_⟩
  · exact hPcEnd.trans (hPc.trans hPcStart.symm)
  · rw [← visible_untimed, ← hUntimed, visible_untimed]

/-! ## An instruction that stalls -/

theorem run_stall {t : Machine δ} {c : Mipscpu} {insn : Word} (hCpu : t.mycpus i = c)
    (hStalls : stalls insn c = true) {page page' : Page} {off off' : Word}
    (hPc : c.mapping.fetch b c.expc = .ok (page, off))
    (hNextpc : c.mapping.fetch b (c.expc + 4) = .ok (page', off')) :
    (execute b i insn).run t = .ok () (t.setCpu i (c.rewoundTo page off page' off')) := by
  subst hCpu
  refine run_of_after ?_
  rw [after_execute_stall i hStalls, after_phonyException]
  dsimp only
  rw [hPc, hNextpc]

/-- Where an instruction stalls, no branch has been taken. -/
theorem jumping_of_stalls {c : Mipscpu} {insn : Word} (hRested : c.course.Rested)
    (hStalls : stalls insn c = true) : c.jumping = false := by
  cases hJumping : c.jumping with
  | false => rfl
  | true =>
    obtain ⟨hHi, hLo⟩ := hRested.slot hJumping
    have hWaits : c.waits = (0, 0) := Prod.ext hHi hLo
    rw [stalls_of_zero insn hWaits] at hStalls
    cases hStalls

theorem untimed_atPages (c : Mipscpu) (pc : Word) (page : Page) (off : Word) (page' : Page)
    (off' : Word) : (c.atPages pc page off page' off').untimed =
      c.untimed.atPages pc page off page' off' := rfl

/-- The cpu goes back to where it was. -/
theorem execute_stalled {m t : Machine δ} {insn : Word}
    (hFetch : (fetch b i).run (m.fetching i) = .ok (.insn insn) t)
    (hStalls : stalls insn (m.mycpus i) = true) (hRested : (m.mycpus i).course.Rested)
    (hPoised : Poised b (m.mycpus i)) : ∃ c, (execute b i insn).run t = .ok () (t.setCpu i c) ∧
      c.untimed = (m.mycpus i).updateExpc.untimed ∧ c.waits = (m.mycpus i).waits := by
  have hJumping := jumping_of_stalls hRested hStalls
  have hStart := updateExpc_of_not_jumping hJumping
  have hPcpage := pcpage_of_fetch i hFetch
  obtain ⟨c, rfl, hMoved⟩ := after_of_run_ok (fetch_movedOn i (m.fetching i)) hFetch insn rfl
  rw [fetching_mycpus_self, hStart] at hMoved
  obtain hNone | ⟨⟨page, hPage, hPc⟩, hNext⟩ := hPoised
  · exact absurd hNone hPcpage
  · obtain ⟨page', hPage', hNextpc⟩ | ⟨hTaken, -⟩ := hNext
    · have hLevel : (m.mycpus i).nextpc = (m.mycpus i).pc + 4 := hRested.level hJumping
      have hDelay : (m.mycpus i).inJumpdelay = false := hRested.inJumpdelay
      have hMapping : c.mapping = (m.mycpus i).mapping :=
        congrArg (fun c => c.mapping) hMoved.untimed
      have hExpc : c.expc = (m.mycpus i).pc := hMoved.expc
      have hWaits : c.waits = (m.mycpus i).waits := hMoved.waits
      refine ⟨c.rewoundTo page (m.mycpus i).pcoff page' (m.mycpus i).nextpcoff, ?_, ?_, ?_⟩
      · refine run_stall i (Machine.setCpu_mycpus_self _ i c) ?_ ?_ ?_
        · rw [stalls_of_waits hWaits, hStalls]
        · rw [hMapping, hExpc, hPc]
        · rw [hMapping, hExpc, ← hLevel, hNextpc]
      · have hBack : (m.mycpus i).atPages (m.mycpus i).pc page (m.mycpus i).pcoff page'
            (m.mycpus i).nextpcoff = { m.mycpus i with expc := (m.mycpus i).pc } := by
          simp only [Mipscpu.atPages, hJumping, hDelay, hLevel, hPage, hPage']
        rw [untimed_rewoundTo, hStart, hExpc, ← hBack, untimed_atPages, untimed_atPages, hMoved.untimed]
        rfl
      · exact (waits_rewoundTo c _ _ _ _).trans hWaits
    · exact absurd (hTaken.symm.trans hJumping) (by decide)

theorem UserTurn.execute_stalls {m t t' s : Machine δ} {insn : Word}
    (h : UserTurn b i m insn t t' s) (hStalls : stalls insn (t.mycpus i) = true)
    (hRested : (m.mycpus i).course.Rested) (hPoised : Poised b (m.mycpus i)) :
    ∃ c, t' = (m.fetching i).setCpu i c ∧ c.untimed = (m.mycpus i).updateExpc.untimed ∧
      c.waits = (m.mycpus i).waits := by
  rw [stalls_of_waits h.waits_fetched] at hStalls
  obtain ⟨c, hRun, hUntimed, hWaits⟩ := execute_stalled i h.fetched hStalls hRested hPoised
  obtain ⟨c', rfl, -⟩ := h.movedOn
  have hEnd := (EStateM.Result.ok.inj (h.execute.symm.trans hRun)).2
  rw [Machine.setCpu_setCpu] at hEnd
  exact ⟨c, hEnd, hUntimed, hWaits⟩

/-- The unit is free after a stall, and nothing else has happened. -/
theorem UserTurn.inStep_of_stalls {m t t' s : Machine δ} {insn : Word}
    (h : UserTurn b i m insn t t' s) (hStalls : stalls insn (t.mycpus i) = true)
    (hRested : (m.mycpus i).course.Rested) (hPoised : Poised b (m.mycpus i)) :
    InStep i s m ∧ (s.mycpus i).waits = (0, 0) := by
  obtain ⟨c, hEnd, hUntimed, hWaits⟩ := h.execute_stalls i hStalls hRested hPoised
  have hJumping : (m.mycpus i).jumping = false :=
    jumping_of_stalls hRested ((stalls_of_waits h.waits_fetched).symm.trans hStalls)
  have hStart := updateExpc_of_not_jumping hJumping
  have hDelay : (m.mycpus i).inJumpdelay = false := hRested.inJumpdelay
  have hSelf := Machine.setCpu_self ((m.fetching i).untimed i) i
  rw [Machine.untimed_mycpus_self, fetching_mycpus_self] at hSelf
  have hAgain : t'.untimed i = (m.fetching i).untimed i := by
    rw [hEnd, Akin.untimed_setCpu, if_pos rfl, hUntimed, hSelf]
  have hCpu : (t'.mycpus i).untimed = (m.mycpus i).updateExpc.untimed := by
    rw [hEnd, Machine.setCpu_mycpus_self, hUntimed]
  have hSame : s.untimed i = (m.fetching i).untimed i := by
    have hSlot : { (m.mycpus i).updateExpc.untimed with inJumpdelay := false } =
        (m.mycpus i).updateExpc.untimed := by
      rw [hStart]
      simp only [Mipscpu.untimed, hDelay]
    rw [h.untimed_end, hAgain, hCpu, hSlot, hSelf]
  constructor
  · have hThere := cpu_of_untimed hSame
    have hIdem : (m.mycpus i).updateExpc.untimed.updateExpc = (m.mycpus i).updateExpc.untimed := by
      rw [hStart]
      exact if_neg (by simp [Mipscpu.untimed, hJumping])
    rw [InStep, fetching_untimed, hThere, fetching_mycpus_self, hIdem, hSame, hSelf]
  · obtain ⟨hHi, hLo⟩ := Prod.mk.inj hWaits
    rw [h.end_eq, retired_mycpus, Machine.modCpu_mycpus_self, hEnd, Machine.setCpu_mycpus_self]
    refine Prod.ext ?_ ?_
    · exact Nat.sub_eq_zero_of_le (hHi.trans_le hRested.hiwait)
    · exact Nat.sub_eq_zero_of_le (hLo.trans_le hRested.lowait)

theorem exists_stall {p u u' p' m : Machine δ} {insn : Word} (h : UserTurn b i p insn u u' p')
    (hStep : InStep i p m) (hCalm : (m.mycpus i).interrupted = false)
    (hStalls : stalls insn (m.mycpus i) = true) (hRested : (m.mycpus i).course.Rested)
    (hPoised : Poised b (m.mycpus i)) : ∃ s, Stalls b i m s := by
  obtain ⟨t, hFetch, hAkin⟩ := blind_fetch.run_ok hStep.akin h.fetched
  obtain ⟨hMode, hIssue⟩ := h.issued i hStep hCalm hFetch
  obtain ⟨c, hRun, -, -⟩ := execute_stalled i hFetch hStalls hRested hPoised
  refine ⟨_, insn, t, _, ⟨hMode, hCalm, hIssue, hRun, run_cpuTurn i hIssue hRun⟩, ?_⟩
  rw [stalls_of_waits hAkin.waits', hStalls]

/-! ## Runs -/

/-- What holds of the machine with the interlock along the way. -/
structure Sound (b : Board δ) (i : Nat) (m : Machine δ) : Prop where
  reached : ∃ devices gdbReady p, Path (Step b) (machineInit devices gdbReady) p m
  poised : Poised b (m.mycpus i)

namespace Sound

variable {i} {m m' : Machine δ}

theorem rested (h : Sound b i m) : (m.mycpus i).course.Rested := by
  obtain ⟨devices, gdbReady, p, hRun⟩ := h.reached
  exact rested_of_run hRun i

theorem turn (h : Sound b i m) (hi : i < b.ncpus) {insn : Word} {t t' : Machine δ}
    (hTurn : UserTurn b i m insn t t' m') : Sound b i m' := by
  obtain ⟨devices, gdbReady, p, hRun⟩ := h.reached
  have hEntries := entries_of_run entryLaw_pfn (tlbReset_machineInit devices gdbReady) hRun
    resetTlbentry_pfn
  exact ⟨⟨devices, gdbReady, _, hRun.append (.cons (step_turn hi hTurn.turn) (.nil m'))⟩,
    hTurn.poised (hEntries i).1 h.poised⟩

theorem retiresAfter (h : Sound b i m) (hi : i < b.ncpus) {n : Nat}
    (hRetires : RetiresAfter b i m n m') : Sound b i m' := by
  induction n generalizing m with
  | zero =>
    obtain ⟨insn, t, t', hTurn, -⟩ := hRetires
    exact h.turn hi hTurn
  | succ n ih =>
    obtain ⟨s, ⟨insn, t, t', hTurn, -⟩, hRest⟩ := hRetires
    exact ih (h.turn hi hTurn) hRest

end Sound

/-- What retires without the interlock retires with it, after one stalled cycle at most. -/
theorem retiresAfter_of_free {q q' m : Machine δ} (hStep : InStep i q m)
    (hFree : RetiresFree b i q () q') (hSound : Sound b i m)
    (hCalm : (m.mycpus i).interrupted = false ∧
      ∀ s, Stalls b i m s → (s.mycpus i).interrupted = false) :
    ∃ k m', RetiresAfter b i m k m' ∧ InStep i q' m' ∧ k ≤ 1 ∧ m'.visible i = q'.visible i := by
  obtain ⟨insn, u, u', h, hPc⟩ := hFree
  have hFree : stalls insn ((q.unlock i).mycpus i) = false :=
    stalls_of_zero insn (by rw [unlock_mycpus_self]; rfl)
  cases hStalls : stalls insn (m.mycpus i) with
  | false =>
    obtain ⟨m', hRetires, hStep', hSame⟩ :=
      h.retires_matched i hPc hStep.unlock hCalm.1 hFree hStalls
    exact ⟨0, m', hRetires, hStep', Nat.zero_le 1, hSame⟩
  | true =>
    obtain ⟨s, hStall⟩ := exists_stall i h hStep.unlock hCalm.1 hStalls hSound.rested hSound.poised
    have hCalm' := hCalm.2 s hStall
    obtain ⟨insn', t, t', hTurn, hBusy⟩ := hStall
    obtain ⟨hBack, hWaits⟩ := hTurn.inStep_of_stalls i hBusy hSound.rested hSound.poised
    obtain ⟨m', hRetires, hStep', hSame⟩ := h.retires_matched i hPc (hStep.unlock.trans hBack.symm)
      hCalm' hFree (stalls_of_zero insn hWaits)
    exact ⟨1, m', ⟨s, ⟨insn', t, t', hTurn, hBusy⟩, hRetires⟩, hStep', Nat.le_refl 1, hSame⟩

/-- What retires with the interlock has not stalled in the cycle it retires in. -/
theorem not_stalls_of_retires {m t t' m' : Machine δ} {insn : Word}
    (h : UserTurn b i m insn t t' m') (hPc : (t'.mycpus i).pc = (t.mycpus i).pc)
    (hRested : (m.mycpus i).course.Rested) (hPoised : Poised b (m.mycpus i)) :
    stalls insn (m.mycpus i) = false := by
  rw [← stalls_of_waits h.waits_fetched]
  by_contra hBusy
  rw [Bool.not_eq_false] at hBusy
  obtain ⟨c, hEnd, hUntimed, -⟩ := h.execute_stalls i hBusy hRested hPoised
  have hJumping : (m.mycpus i).jumping = false :=
    jumping_of_stalls hRested ((stalls_of_waits h.waits_fetched).symm.trans hBusy)
  have hLevel : (m.mycpus i).nextpc = (m.mycpus i).pc + 4 := hRested.level hJumping
  have hSame : (m.mycpus i).updateExpc.pc = (m.mycpus i).pc := by
    rw [updateExpc_of_not_jumping hJumping]
  have hBack : c.pc = (m.mycpus i).pc :=
    (congrArg (fun c : Mipscpu => c.pc) hUntimed).trans hSame
  rw [hEnd, Machine.setCpu_mycpus_self, hBack, h.pc_fetched, hLevel] at hPc
  exact absurd hPc (by bv_omega)

/-- What retires with the interlock retires without it, and has stalled at most once. -/
theorem free_of_retiresAfter {m m' q : Machine δ} {k : Nat} (hRetires : RetiresAfter b i m k m')
    (hStep : InStep i m q) (hSound : Sound b i m) (hCalm : (q.mycpus i).interrupted = false) :
    k ≤ 1 ∧ ∃ q', RetiresFree b i q () q' ∧ InStep i m' q' ∧ q'.visible i = m'.visible i := by
  have hCalm' : ((q.unlock i).mycpus i).interrupted = false := by
    rw [unlock_mycpus_self]
    exact hCalm
  have hFree : ∀ insn, stalls insn ((q.unlock i).mycpus i) = false := fun insn =>
    stalls_of_zero insn (by rw [unlock_mycpus_self]; rfl)
  have hUnlock : InStep i m (q.unlock i) := hStep.symm.unlock.symm
  match k, hRetires with
  | 0, hRetires =>
    obtain ⟨insn, t, t', h, hPc⟩ := hRetires
    have hReady := not_stalls_of_retires i h hPc hSound.rested hSound.poised
    exact ⟨Nat.zero_le 1, h.retires_matched i hPc hUnlock hCalm' hReady (hFree insn)⟩
  | n + 1, hRetires =>
    obtain ⟨s, ⟨insn, t, t', hTurn, hBusy⟩, hRest⟩ := hRetires
    obtain ⟨hBack, hWaits⟩ := hTurn.inStep_of_stalls i hBusy hSound.rested hSound.poised
    match n, hRest with
    | 0, hRest =>
      obtain ⟨insn', u, u', h, hPc⟩ := hRest
      exact ⟨Nat.le_refl 1, h.retires_matched i hPc (hBack.trans hUnlock) hCalm'
        (stalls_of_zero insn' hWaits) (hFree insn')⟩
    | n + 1, hRest =>
      obtain ⟨s', ⟨insn', u, u', h, hAgain⟩, -⟩ := hRest
      rw [stalls_of_waits h.waits_fetched, stalls_of_zero insn' hWaits] at hAgain
      cases hAgain

theorem CalmFor.tail {m m' : Machine δ} {n k : Nat} (h : CalmFor b i (n + 1) m)
    (hRetires : RetiresAfter b i m k m') : CalmFor b i n m' :=
  fun c s hPath hLength => h ((k, m') :: c) s (.cons hRetires hPath) (Nat.succ_lt_succ hLength)

theorem CalmFreeFor.tail {q q' : Machine δ} {n : Nat} (h : CalmFreeFor b i (n + 1) q)
    (hFree : RetiresFree b i q () q') : CalmFreeFor b i n q' :=
  fun c s hPath hLength => h (((), q') :: c) s (.cons hFree hPath) (Nat.succ_lt_succ hLength)

/-- For every interleaving that leads to a user program, if the pages computed ahead for it are
where its next addresses lie: as long as no interrupt comes up, the instructions that retire without
the interlock retire with it, and the other way round. They leave the same registers and the same
memory behind, each after one stalled cycle at most. -/
theorem interlock_transparent {devices : δ} {gdbReady : Bool} {p : List (Act δ × Machine δ)}
    {m : Machine δ} (hi : i < b.ncpus) (hRun : Path (Step b) (machineInit devices gdbReady) p m)
    (hPoised : Poised b (m.mycpus i)) :
    (∀ q z, Path (RetiresFree b i) m q z → CalmFor b i q.length m →
      ∃ c z', Path (RetiresAfter b i) m c z' ∧ List.Forall₂ (Agree i) q c) ∧
    (∀ c z, Path (RetiresAfter b i) m c z → CalmFreeFor b i c.length m →
      ∃ q z', Path (RetiresFree b i) m q z' ∧ List.Forall₂ (Agree i) q c) := by
  have hSound : Sound b i m := ⟨⟨devices, gdbReady, p, hRun⟩, hPoised⟩
  constructor
  · intro q z hFree hCalm
    refine hFree.matched (R := fun n q m => InStep i q m ∧ Sound b i m ∧ CalmFor b i n m) ?_
      ⟨rfl, hSound, hCalm⟩
    rintro n q _ q' m ⟨hStep, hSound, hCalm⟩ hFree
    obtain ⟨k, m', hRetires, hStep', hAgree⟩ := retiresAfter_of_free i hStep hFree hSound
      (hCalm [] m (.nil m) (Nat.succ_pos n))
    exact ⟨k, m', hRetires, ⟨hStep', hSound.retiresAfter hi hRetires, hCalm.tail i hRetires⟩, hAgree⟩
  · intro c z hPath hCalm
    have hMatched : ∃ q z', Path (RetiresFree b i) m q z' ∧
        List.Forall₂ (flip (Agree i)) c q := by
      refine hPath.matched (R := fun n m q => InStep i m q ∧ Sound b i m ∧ CalmFreeFor b i n q) ?_
        ⟨rfl, hSound, hCalm⟩
      rintro n m k m' q ⟨hStep, hSound, hCalm⟩ hRetires
      obtain ⟨hOnce, q', hFree, hStep', hSame⟩ := free_of_retiresAfter i hRetires hStep hSound
        (hCalm [] q (.nil q) (Nat.succ_pos n))
      exact ⟨(), q', hFree, ⟨hStep', hSound.retiresAfter hi hRetires, hCalm.tail i hFree⟩,
        hOnce, hSame.symm⟩
    obtain ⟨q, z', hFree, hAgree⟩ := hMatched
    exact ⟨q, z', hFree, hAgree.flip⟩

theorem retiresFree_of_run {m t t' : Machine δ} {insn : Word}
    (hMode : (m.mycpus i).currentUsermode = true) (hCalm : (m.mycpus i).interrupted = false)
    (hIssue : (issue b i).run (m.unlock i) = .ok (.insn insn) t)
    (hExecute : (execute b i insn).run t = .ok () t')
    (hPc : (t'.mycpus i).pc = (t.mycpus i).pc) :
    RetiresFree b i m () (t'.retired i (t.mycpus i)) := by
  refine ⟨insn, t, t', ⟨?_, ?_, hIssue, hExecute, run_cpuTurn i hIssue hExecute⟩, hPc⟩
  · rw [unlock_mycpus_self]
    exact hMode
  · rw [unlock_mycpus_self]
    exact hCalm

theorem turn_unique {m s s' : Machine δ} {stopped : Bool}
    (h : (cpuTurn b i).run m = .ok stopped s) (h' : (cpuTurn b i).run m = .ok false s') : s' = s :=
  (EStateM.Result.ok.inj (h'.symm.trans h)).2

theorem calmFor_one {m s : Machine δ} {stopped : Bool} (hm : (m.mycpus i).interrupted = false)
    (hTurn : (cpuTurn b i).run m = .ok stopped s) (hs : (s.mycpus i).interrupted = false) :
    CalmFor b i 1 m := by
  intro c u hPath hLength
  cases hPath with
  | nil =>
    refine ⟨hm, ?_⟩
    rintro s' ⟨insn, t, t', h, -⟩
    rw [turn_unique i hTurn h.turn]
    exact hs
  | cons _ _ => exact absurd hLength (by simp)

/-- What a single instruction can come to in the first two turns. -/
theorem visible_of_agree {m s s' q z : Machine δ} {stopped stopped' : Bool}
    {c : List (Nat × Machine δ)} (hTurn : (cpuTurn b i).run m = .ok stopped s)
    (hTurn' : (cpuTurn b i).run s = .ok stopped' s') (hPath : Path (RetiresAfter b i) m c z)
    (hAgree : List.Forall₂ (Agree i) [((), q)] c) :
    s.visible i = q.visible i ∨ s'.visible i = q.visible i := by
  obtain ⟨⟨k, m'⟩, c, ⟨hOnce, hSame⟩, -, rfl⟩ := List.forall₂_cons_left_iff.mp hAgree
  cases hPath with
  | cons hFirst _ =>
    match k, hFirst with
    | 0, hRetires =>
      obtain ⟨insn, t, t', h, -⟩ := hRetires
      obtain rfl := turn_unique i hTurn h.turn
      exact .inl hSame
    | 1, hStalled =>
      obtain ⟨u, ⟨insn, t, t', h, -⟩, ⟨insn', v, v', h', -⟩⟩ := hStalled
      obtain rfl := turn_unique i hTurn h.turn
      obtain rfl := turn_unique i hTurn' h'.turn
      exact .inr hSame
    | n + 2, _ => exact absurd hOnce (by omega)

/-- The kernel maps a page and goes to a user program there, which is at its MFLO. -/
def userMflo : List (Act Unit) :=
  [.poke 0 0x40845000, .poke 1 0x409d1000, .poke 2 0x42000002, .poke 3 0x24070008,
    .poke 4 0x40876000, .poke 5 0x24081024, .poke 6 0x01000008, .poke 7 0x42000010,
    .poke 9 0x00e80018, .poke 10 0x00001012, .setStack 0 0x200 0x1040,
    .setEntrypoint 0 0x80000000] ++ List.replicate 9 (.turn 0)

/-- The page of the program has been computed ahead for the pc and for the address after it. -/
def OnPage (b : Board δ) (page : Page) (c : Mipscpu) : Prop :=
  c.pcpage = some page ∧ c.mapping.fetch b c.pc = .ok (page, c.pcoff) ∧
    c.nextpcpage = some page ∧ c.mapping.fetch b c.nextpc = .ok (page, c.nextpcoff)

instance (page : Page) (c : Mipscpu) : Decidable (OnPage b page c) :=
  inferInstanceAs (Decidable (_ ∧ _))

theorem OnPage.poised {page : Page} {c : Mipscpu} (h : OnPage b page c) : Poised b c :=
  .inr ⟨⟨page, h.1, h.2.1⟩, .inl ⟨page, h.2.2.1, h.2.2.2⟩⟩

theorem interlock_transparent_mflo : ∃ m q z c z', Path (RetiresFree bareBoard 0) m q z ∧
    q.length = 1 ∧ Path (RetiresAfter bareBoard 0) m c z' ∧ List.Forall₂ (Agree 0) q c := by
  have hSeen : seen bareBoard userMflo (machineInit () false) (fun m =>
      (decide (OnPage bareBoard (.ram 0) (m.mycpus 0)),
        ((m.mycpus 0).currentUsermode, (m.mycpus 0).interrupted),
        yields (cpuTurn bareBoard 0) (fun _ s => (s.mycpus 0).interrupted) m,
        yields (issue bareBoard 0) (fun is t => (is, yields (execute bareBoard 0 0x00001012)
          (fun _ t' => decide ((t'.mycpus 0).pc = (t.mycpus 0).pc)) t)) (m.unlock 0))) =
      some (true, (true, false), some false, some (.insn 0x00001012, some true)) := by
    decide +kernel
  obtain ⟨p, m, hPath, -, hLook⟩ := path_of_seen hSeen (by decide)
  obtain ⟨hOn, hLook⟩ := Prod.mk.inj hLook
  obtain ⟨hModes, hLook⟩ := Prod.mk.inj hLook
  obtain ⟨hMode, hCalm⟩ := Prod.mk.inj hModes
  obtain ⟨hTurn, hIssue⟩ := Prod.mk.inj hLook
  obtain ⟨stopped, s, hTurn, hCalm'⟩ := run_of_yields hTurn
  obtain ⟨is, t, hIssue, hLook⟩ := run_of_yields hIssue
  obtain ⟨rfl, hExecute⟩ := Prod.mk.inj hLook
  obtain ⟨_, t', hExecute, hPc⟩ := run_of_yields hExecute
  have hFree := retiresFree_of_run 0 hMode hCalm hIssue hExecute (of_decide_eq_true hPc)
  have hRun : Path (RetiresFree bareBoard 0) m _ _ := .cons hFree (.nil _)
  obtain ⟨c, z', hRetires, hAgree⟩ :=
    (interlock_transparent 0 bareBoard.ncpus_pos hPath (of_decide_eq_true hOn).poised).1 _ _ hRun
      (calmFor_one 0 hCalm hTurn hCalm')
  exact ⟨m, _, _, c, z', hRun, rfl, hRetires, hAgree⟩

/-- The kernel has the same page in two address spaces, and changes over to the second one and to
user mode while it runs on the page of the first. There it multiplies. -/
def twoSpaces : List (Act Unit) :=
  [.poke 0 0x40845000, .poke 1 0x409d1000, .poke 2 0x42000002, .poke 3 0x24051040,
    .poke 4 0x40855000, .poke 5 0x24060200, .poke 6 0x40861000, .poke 7 0x42000006,
    .poke 8 0x24070002, .poke 9 0x24081030, .poke 10 0x01000008, .poke 12 0x40845000,
    .poke 13 0x40876000, .poke 14 0x00a60018, .poke 15 0x00001012,
    .setStack 0 0x1fc00200 0x1080, .setEntrypoint 0 0x80000000] ++ List.replicate 15 (.turn 0)

/-- The MFLO that stalls is looked up again, and found in the other space. -/
theorem interlock_visible : ∃ p m q z, Path (Step bareBoard) (machineInit () false) p m ∧
    p.map Prod.fst = twoSpaces ∧ Path (RetiresFree bareBoard 0) m q z ∧
    CalmFor bareBoard 0 q.length m ∧
    ¬∃ c z', Path (RetiresAfter bareBoard 0) m c z' ∧ List.Forall₂ (Agree 0) q c := by
  have hSeen : seen bareBoard twoSpaces (machineInit () false) (fun m =>
      (((m.mycpus 0).currentUsermode, (m.mycpus 0).interrupted),
        yields (cpuTurn bareBoard 0) (fun _ s => decide ((s.mycpus 0).interrupted = false ∧
          (s.mycpus 0).r 2 = 0 ∧
          yields (cpuTurn bareBoard 0) (fun _ s' => (s'.mycpus 0).r 2) s = some 0)) m,
        yields (issue bareBoard 0) (fun is t => (is, yields (execute bareBoard 0 0x00001012)
          (fun _ t' => decide ((t'.mycpus 0).pc = (t.mycpus 0).pc ∧ (t'.mycpus 0).r 2 = 0x208000)) t))
          (m.unlock 0))) =
      some ((true, false), some true, some (.insn 0x00001012, some true)) := by
    decide +kernel
  obtain ⟨p, m, hPath, hActs, hLook⟩ := path_of_seen hSeen (by decide)
  obtain ⟨hModes, hLook⟩ := Prod.mk.inj hLook
  obtain ⟨hMode, hCalm⟩ := Prod.mk.inj hModes
  obtain ⟨hTurn, hIssue⟩ := Prod.mk.inj hLook
  obtain ⟨stopped, s, hTurn, hLook⟩ := run_of_yields hTurn
  obtain ⟨hCalm', hKept, hTurn'⟩ := of_decide_eq_true hLook
  obtain ⟨stopped', s', hTurn', hKept'⟩ := run_of_yields hTurn'
  obtain ⟨is, t, hIssue, hLook⟩ := run_of_yields hIssue
  obtain ⟨rfl, hExecute⟩ := Prod.mk.inj hLook
  obtain ⟨_, t', hExecute, hLook⟩ := run_of_yields hExecute
  obtain ⟨hPc, hMoved⟩ := of_decide_eq_true hLook
  have hFree := retiresFree_of_run 0 hMode hCalm hIssue hExecute hPc
  refine ⟨p, m, _, _, hPath, hActs, .cons hFree (.nil _), calmFor_one 0 hCalm hTurn hCalm', ?_⟩
  rintro ⟨c, z', hRetires, hAgree⟩
  have hRegs : ((t'.retired 0 (t.mycpus 0)).mycpus 0).r 2 = 0x208000 := by
    rw [retired_mycpus, Machine.modCpu_mycpus_self]
    exact hMoved
  obtain hSame | hSame := visible_of_agree 0 hTurn hTurn' hRetires hAgree
  · have hVisible : (s.mycpus 0).r = _ := congrArg Visible.r hSame
    rw [hVisible] at hKept
    exact absurd (hRegs.symm.trans hKept) (by decide)
  · have hVisible : (s'.mycpus 0).r = _ := congrArg Visible.r hSame
    rw [hVisible] at hKept'
    exact absurd (hRegs.symm.trans hKept') (by decide)

end Sys161.Mips
