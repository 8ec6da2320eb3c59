import Sys161.Lib.MatchCounter
import Sys161.Mips.FetchFaults
import Sys161.Mips.StatusStack

/-!
# The on-chip timer

COUNT against the cycles that a cpu executes. The counter is moved on at the end
of a cycle, so a cycle that ends early is not counted; and the write to COMPARE
lets a counter that is at the new limit go on past it.
-/

namespace Sys161.Mips

open Exec Runs MatchCounter

set_option autoImplicit false

variable {δ : Type} {b : Board δ} {i : Nat}

/-- COUNT and the interrupt. -/
def TimerRegs.counter (regs : TimerRegs) : Counter 32 := ⟨regs.exCount, regs.irqTimer⟩

/-- A cycle that is counted. -/
def TimerRegs.tick (regs : TimerRegs) : TimerRegs :=
  let counter := regs.counter.next regs.exCompare
  if regs.exCompareUsed then { regs with exCount := counter.count, irqTimer := counter.met }
  else { regs with exCount := regs.exCount + 1 }

theorem tick_timer (c : Mipscpu) : c.tick.toTimerRegs = c.toTimerRegs.tick := by
  unfold Mipscpu.tick TimerRegs.tick Counter.next TimerRegs.counter
  dsimp only
  cases hUsed : c.exCompareUsed with
  | true =>
    simp only [true_and, if_true]
    split <;> simp
  | false => simp

/-! ## What keeps the timer -/

variable (i) in
def TimerIs (regs : TimerRegs) (m : Machine δ) : Prop := (m.mycpus i).toTimerRegs = regs

section Keep

variable {regs : TimerRegs} {m : Machine δ}

theorem TimerIs.modCpu (h : TimerIs i regs m) (j : Nat) {f : Mipscpu → Mipscpu}
    (hf : j = i → (f (m.mycpus j)).toTimerRegs = (m.mycpus j).toTimerRegs) :
    TimerIs i regs (m.modCpu j f) := by
  unfold TimerIs
  by_cases hj : j = i
  · subst hj
    rw [Machine.modCpu_mycpus_self, hf rfl, h]
  · rw [Machine.modCpu_mycpus_ne m f (Ne.symm hj), h]

theorem execBlind_timer : ExecBlind b (TimerIs (δ := δ) i regs) where
  fetchState j _ _ hm := hm.modCpu j fun _ => rfl
  exception j _ _ hm := hm.modCpu j fun _ => rfl
  vpn j _ _ hm := hm.modCpu j fun _ => rfl
  hang _ _ hm := hm
  devices _ _ hm := hm
  raised _ _ hm := hm
  enabled _ _ hm := hm
  lamebusCpu _ _ _ hm := hm
  irqLines j _ _ hm := hm.modCpu j fun _ => rfl
  state j _ _ hm := hm.modCpu j fun _ => rfl
  runningMask _ _ hm := hm
  startReg j _ _ _ _ hm := hm.modCpu j fun _ => rfl

/-- Any instruction of another cpu, and of cpu `i` all but moves to COUNT and COMPARE. -/
theorem execute_timer (j : Nat) {insn : Word}
    (hWrite : j = i → ¬IsMtc0 insn .count ∧ ¬IsMtc0 insn .compare) :
    Keeps (TimerIs i regs) (fun _ => TimerIs i regs) (execute b j insn) := by
  have hBlind : ExecBlind b (TimerIs (δ := δ) i regs) := execBlind_timer
  refine (hBlind.rules j (fun _ _ _ hm => hm) (fun _ _ _ _ hm => hm.modCpu j fun _ => rfl)
    (fun _ _ _ _ _ hm => hm.modCpu j fun _ => rfl) (fun _ _ _ _ hm => hm.modCpu j fun _ => rfl)
    (fun c0 _ hMtc0 hm => hm.modCpu j fun hj => ?_) (fun _ hm => hm.modCpu j fun _ => rfl)
    (fun _ _ _ hm => hm.modCpu j fun _ => rfl) (fun _ hm => hm.modCpu j fun _ => rfl)
    (hBlind.writetlb j fun _ _ hm => hm.modCpu j fun _ => rfl)
    (fun _ _ _ _ hm => hm.modCpu j fun _ => rfl)).execute
  cases c0 with
  | count => exact absurd hMtc0 (hWrite hj).1
  | compare => exact absurd hMtc0 (hWrite hj).2
  | _ => rfl

/-- Before an instruction is executed only a breakpoint moves COUNT. -/
theorem issue_timer (j : Nat) (hm : TimerIs i regs m) :
    After (issue b j) (fun is t => (j = i → is ≠ .breakpoint) → TimerIs i regs t)
      (fun _ _ => True) m := by
  have hBlind : ExecBlind b (TimerIs (δ := δ) i regs) := execBlind_timer
  unfold issue countCycle
  rw [after_bind, after_getCpu, after_ite]
  split
  · exact fun _ => hm
  rw [after_bind, after_modCpu, after_bind, after_modify]
  have hStart := hBlind.startCycle j m hm
  generalize hm₁ : Machine.countStats _ _ _ = m₁
  have hm₁ : TimerIs i regs m₁ := by
    rw [← hm₁]
    exact hStart
  unfold fetch
  rw [after_bind, after_getCpu, after_bind]
  refine (FetchBlind.useMap _ _ m₁ hm₁).mono (fun insn t ht => ?_) fun _ _ _ => trivial
  rw [after_bind, after_attempt]
  refine (hBlind.advancePc j insn t ht).mono (fun _ t ht => ?_) ?_
  · rw [if_pos rfl, after_bind, after_modCpu, after_bind, after_get, after_bind, after_getCpu,
      after_ite]
    have hHit := ht.modCpu j (f := fun c => { c with hitBreakpoint := false }) fun _ => rfl
    split
    · unfold breakpoint
      rw [after_bind, after_bind]
      refine (hBlind.phonyException j _ hHit).mono (fun _ u hu => ?_) fun _ _ _ => trivial
      have hStopped : TimerIs i regs
          { u with cpuCycling := false, stoppedInDebugger := true, stopIsLethal := false } := hu
      exact fun hOther => hStopped.modCpu j fun hj => absurd rfl (hOther hj)
    · exact fun _ => hHit
  · rintro _ t ⟨rfl, ht⟩
    exact fun _ => ht

/-- In user mode those are exceptions. -/
theorem execute_timer_own {insn : Word} (hm : TimerIs i regs m)
    (hWrite : IsMtc0 insn .count ∨ IsMtc0 insn .compare → (m.mycpus i).currentUsermode = true) :
    After (execute b i insn) (fun _ => TimerIs i regs) (fun _ => TimerIs i regs) m := by
  by_cases hMove : IsMtc0 insn .count ∨ IsMtc0 insn .compare
  · have hOp : opm insn = .cop := hMove.elim And.left And.left
    rw [after_execute_user hOp (hWrite hMove)]
    exact hm.modCpu i fun _ => rfl
  · rw [not_or] at hMove
    exact execute_timer i (fun _ => hMove) m hm

end Keep

/-! ## Cycles -/

/-- A move to COUNT or COMPARE in the kernel. -/
def WritesTimer (b : Board δ) (i : Nat) (m : Machine δ) (a : Act δ) : Prop :=
  a = .turn i ∧ ∃ insn t, (issue b i).run m = .ok (.insn insn) t ∧
    (IsMtc0 insn .count ∨ IsMtc0 insn .compare) ∧ (t.mycpus i).currentUsermode = false

/-- The debugger takes the instruction. -/
def TakesBreakpoint (m : Machine δ) (insn : Word) (c : Mipscpu) : Prop :=
  opm insn = .special ∧ ops insn = .break ∧ m.gdbCanhandle c.expc = true

/-- The cpu has a cycle of its own. -/
def Act.executes (a : Act δ) (i : Nat) (m : Machine δ) : Bool :=
  match a with
  | .turn j => j = i ∧ (m.mycpus i).state = .running
  | _ => false

/-- The cycle does not end before the instruction is executed: the address ahead translates, and
the debugger does not take the instruction. -/
structure Uncut (b : Board δ) (i : Nat) (m : Machine δ) (insn : Word) : Prop where
  ahead : ∀ e, ¬AheadFault b insn ((m.mycpus i).startCycle b) e
  breakpoint : ¬TakesBreakpoint m insn ((m.mycpus i).startCycle b)

/-- All cycles of the cpu are counted. -/
def Counted (b : Board δ) (i : Nat) (m : Machine δ) (a : Act δ) : Prop :=
  a.executes i m = true → ∀ insn, Fetched m.ram ((m.mycpus i).startCycle b) insn → Uncut b i m insn

theorem advancePc_expc (insn : Word) (m : Machine δ) :
    After (advancePc b i insn)
      (fun _ t => (t.mycpus i).expc = (m.mycpus i).expc ∧ t.gdbReady = m.gdbReady)
      (fun _ _ => True) m := by
  unfold advancePc
  rw [after_bind, after_modCpu, after_bind, after_getCpu, after_ite]
  generalize hm₁ : m.modCpu i Mipscpu.advance = m₁
  have hExpc : (m₁.mycpus i).expc = (m.mycpus i).expc := by
    rw [← hm₁, Machine.modCpu_mycpus_self]
    rfl
  have hReady : m₁.gdbReady = m.gdbReady := by
    rw [← hm₁]
    rfl
  split
  · rw [after_ite]
    split
    · rw [after_modCpu, Machine.modCpu_mycpus_self]
      exact ⟨hExpc, hReady⟩
    · rw [after_precomputeNextpc]
      dsimp only
      split
      · have hFetch := congrArg FetchState.expc
          (translated_toFetchState (m₁.mycpus i) (m₁.mycpus i).nextpc false)
        rw [Machine.setCpu_mycpus_self]
        exact ⟨hFetch.trans hExpc, hReady⟩
      · trivial
  · rw [after_modCpu, Machine.modCpu_mycpus_self]
    exact ⟨hExpc, hReady⟩

/-- A turn is idle where the cpu does not run, and stops where the debugger takes the instruction
that was fetched. -/
theorem issue_stops (m : Machine δ) :
    After (issue b i)
      (fun is _ => (is = .idle → (m.mycpus i).state ≠ .running) ∧
        (is = .breakpoint → ∃ insn, Fetched m.ram ((m.mycpus i).startCycle b) insn ∧
          TakesBreakpoint m insn ((m.mycpus i).startCycle b)))
      (fun _ _ => True) m := by
  unfold issue countCycle
  rw [after_bind, after_getCpu, after_ite]
  split
  · rename_i hState
    exact ⟨fun _ => hState, nofun⟩
  rw [after_bind, after_modCpu, after_bind, after_modify]
  generalize hm₁ : Machine.countStats _ _ _ = m₁
  have hCpu : m₁.mycpus i = (m.mycpus i).startCycle b := by
    rw [← hm₁]
    exact Machine.modCpu_mycpus_self m i _
  have hRam : m₁.ram = m.ram := by
    rw [← hm₁]
    rfl
  have hReady : m₁.gdbReady = m.gdbReady := by
    rw [← hm₁]
    rfl
  unfold fetch
  rw [after_bind, after_getCpu, after_bind, hCpu]
  cases hPage : ((m.mycpus i).startCycle b).pcpage with
  | none => trivial
  | some page =>
    rw [after_useMap_some, after_bind, after_attempt, hRam]
    refine (advancePc_expc _ m₁).mono (fun _ t ht => ?_) fun e t _ => ?_
    · rw [if_pos rfl, after_bind, after_modCpu, after_bind, after_get, after_bind, after_getCpu,
        after_ite]
      split
      · rename_i hBreak
        obtain ⟨hOp, hOps, hHandle⟩ := hBreak
        have hSame : (t.modCpu i fun c => { c with hitBreakpoint := false }).gdbCanhandle
            ((t.modCpu i fun c => { c with hitBreakpoint := false }).mycpus i).expc =
            m.gdbCanhandle ((m.mycpus i).startCycle b).expc := by
          rw [Machine.modCpu_mycpus_self, ← hCpu, ← ht.1]
          unfold Machine.gdbCanhandle
          rw [← hReady, ← ht.2]
          rfl
        have hTakes : TakesBreakpoint m _ ((m.mycpus i).startCycle b) :=
          ⟨hOp, hOps, hSame.symm.trans hHandle⟩
        rw [after_bind]
        exact after_of_forall (fun _ _ => ⟨nofun, fun _ => ⟨_, ⟨page, hPage, rfl⟩, hTakes⟩⟩)
          fun _ _ => trivial
      · exact ⟨nofun, nofun⟩
    · cases e with
      | exception => exact ⟨nofun, nofun⟩
      | smoke | undefined => trivial

/-! ## Steps -/

section Step

variable {regs : TimerRegs} {m m' : Machine δ} {a : Act δ}

theorem timer_ticked {u : Machine δ} (h : TimerIs i regs u) (hEnd : u.ticked i m') :
    TimerIs i regs.tick m' := by
  unfold TimerIs
  rw [hEnd.cpu, tick_timer, h]

theorem turn_timer_other {j : Nat} {stopped : Bool} (hTurn : (cpuTurn b j).run m = .ok stopped m')
    (hj : j ≠ i) (hm : TimerIs i regs m) : TimerIs i regs m' := by
  obtain ⟨is, hIssue, -⟩ | ⟨insn, t, u, hExec, hEnd⟩ := turn_inv hTurn
  · exact after_of_run_ok (issue_timer j hm) hIssue fun h => absurd h hj
  · have hOther : Keeps (TimerIs i regs) (fun _ => TimerIs i regs) (execute b j insn) :=
      execute_timer j fun h => absurd h hj
    have hu : TimerIs i regs u := by
      obtain ⟨hIssue, hExec⟩ | ⟨hIssue, hExec⟩ := hExec
      · have ht := after_of_run_ok (issue_timer j hm) hIssue fun h => absurd h hj
        have hOk := after_of_run_ok (hOther t ht) hExec
        exact hOk
      · have ht := after_of_run_ok (issue_timer j hm) hIssue fun h => absurd h hj
        have hError := after_of_run_error (hOther t ht) hExec
        exact hError
    obtain ⟨sp, rfl⟩ := hEnd
    exact hu.modCpu j fun h => absurd h hj

/-- What is done outside the cycles of a cpu leaves its timer alone. -/
theorem step_timer_idle (hStep : Step b m a m') (hIdle : a.executes i m = false)
    (hm : TimerIs i regs m) : TimerIs i regs m' := by
  have hBlind : ExecBlind b (TimerIs (δ := δ) i regs) := execBlind_timer
  by_cases hAct : ∃ j, a = .turn j
  · obtain ⟨j, rfl⟩ := hAct
    by_cases hj : j = i
    · subst hj
      have hState : (m.mycpus j).state ≠ .running := by simpa [Act.executes] using hIdle
      refine step_after hStep (E := fun _ _ => True) ?_
      unfold Act.exec cpuTurn issue
      rw [after_bind, after_bind, after_bind, after_getCpu, after_ite, if_pos hState]
      exact hm
    · obtain ⟨stopped, hTurn⟩ := cpuTurn_of_step j hStep
      exact turn_timer_other hTurn hj hm
  · exact hBlind.step (fun _ _ _ hm => hm) (fun _ _ _ _ _ hm => hm) hm
      (fun j ha => absurd ⟨j, ha⟩ hAct) hStep

/-- A cycle moves the timer on, whatever exceptions it takes, if it comes to its instruction. -/
theorem step_timer (hStep : Step b m a m') (hOwn : a.executes i m = true)
    (hCounted : Counted b i m a) (hWrite : ¬WritesTimer b i m a) (hm : TimerIs i regs m) :
    TimerIs i regs.tick m' := by
  obtain ⟨rfl, hState⟩ : a = .turn i ∧ (m.mycpus i).state = .running := by
    cases a with
    | turn j => simpa [Act.executes] using hOwn
    | _ => cases hOwn
  obtain ⟨stopped, hTurn⟩ := cpuTurn_of_step i hStep
  obtain ⟨is, hIssue, hNone⟩ | ⟨insn, t, u, hExec, hEnd⟩ := turn_inv hTurn
  · cases is with
    | idle => exact absurd hState ((after_of_run_ok (issue_stops m) hIssue).1 rfl)
    | fault =>
      obtain ⟨insn, hFetched, hRaised⟩ := after_of_run_ok (issue_fault m) hIssue rfl
      obtain ⟨e, hAhead, -⟩ := hRaised.took
      exact absurd hAhead ((hCounted hOwn insn hFetched).ahead e)
    | breakpoint =>
      obtain ⟨insn, hFetched, hTakes⟩ := (after_of_run_ok (issue_stops m) hIssue).2 rfl
      exact absurd hTakes (hCounted hOwn insn hFetched).breakpoint
    | insn insn => exact absurd rfl (hNone insn)
  · refine timer_ticked ?_ hEnd
    have hUser : ∀ t, (issue b i).run m = .ok (.insn insn) t →
        IsMtc0 insn .count ∨ IsMtc0 insn .compare → (t.mycpus i).currentUsermode = true := by
      intro t hIssue hMove
      by_contra hUser
      exact hWrite ⟨rfl, insn, t, hIssue, hMove, by simpa using hUser⟩
    obtain ⟨hIssue, hExec⟩ | ⟨hIssue, hExec⟩ := hExec
    · have ht := after_of_run_ok (issue_timer i hm) hIssue fun _ => nofun
      have hOk := after_of_run_ok (execute_timer_own (b := b) ht (hUser t hIssue)) hExec
      exact hOk
    · have ht := after_of_run_ok (issue_timer i hm) hIssue fun _ => nofun
      have hError := after_of_run_error (execute_timer_own (b := b) ht (hUser t hIssue)) hExec
      exact hError

end Step

/-! ## Runs -/

/-- The cycles that a cpu has had in a run. -/
def cyclesOf (i : Nat) : Machine δ → List (Act δ × Machine δ) → Nat
  | _, [] => 0
  | m, (a, m') :: p => (if a.executes i m then 1 else 0) + cyclesOf i m' p

/-- The timer when COMPARE has been written. -/
def TimerRegs.armed (regs : TimerRegs) (val : Word) : TimerRegs where
  exCount := if val < regs.exCount then 0 else regs.exCount
  exCompare := val
  exCompareUsed := true
  irqTimer := false

/-- A turn in which a value is moved to COMPARE. -/
def WritesCompare (b : Board δ) (i : Nat) (val : Word) (m m' : Machine δ) : Prop :=
  Step b m (.turn i) m' ∧ ∃ insn t, (issue b i).run m = .ok (.insn insn) t ∧
    IsMtc0 insn .compare ∧ (t.mycpus i).currentUsermode = false ∧ (t.mycpus i).r (rt insn) = val

section Run

variable {regs : TimerRegs} {val : Word} {m₀ m₁ m : Machine δ} {p : List (Act δ × Machine δ)}

theorem writesCompare_timer (h : WritesCompare b i val m₀ m₁) :
    TimerIs i (((m₀.mycpus i).toTimerRegs.armed val).tick) m₁ := by
  obtain ⟨hStep, insn, t, hIssue, hMove, hUser, hVal⟩ := h
  obtain ⟨stopped, hTurn⟩ := cpuTurn_of_step i hStep
  obtain ⟨u, hExec, hEnd⟩ := turn_ticked hTurn hIssue
  have ht : TimerIs i (m₀.mycpus i).toTimerRegs t :=
    after_of_run_ok (issue_timer i rfl) hIssue fun _ => nofun
  have hArmed : After (execute b i insn)
      (fun _ => TimerIs i ((m₀.mycpus i).toTimerRegs.armed val)) (fun _ _ => False) t := by
    rw [after_execute_mtc0 i hMove nofun hUser, hVal, TimerIs, Machine.modCpu_mycpus_self]
    unfold TimerIs at ht
    rw [← ht]
    rfl
  refine timer_ticked ?_ hEnd
  obtain hExec | hExec := hExec
  · have hOk := after_of_run_ok hArmed hExec
    exact hOk
  · exact (after_of_run_error hArmed hExec).elim

theorem timer_of_run (hRun : Path (Step b) m₁ p m)
    (hWrite : AllSteps (fun m a _ => ¬WritesTimer b i m a) m₁ p)
    (hCounted : AllSteps (fun m a _ => Counted b i m a) m₁ p) (hm : TimerIs i regs m₁) :
    TimerIs i (TimerRegs.tick^[cyclesOf i m₁ p] regs) m := by
  induction hRun generalizing regs with
  | nil m => exact hm
  | cons hStep _ ih =>
    obtain ⟨hNotWritten, hWrite⟩ := hWrite
    obtain ⟨hFirst, hCounted⟩ := hCounted
    unfold cyclesOf
    split
    · rename_i hOwn
      rw [Nat.add_comm, Function.iterate_succ_apply]
      exact ih hWrite hCounted (step_timer hStep hOwn hFirst hNotWritten hm)
    · rename_i hIdle
      rw [Nat.zero_add]
      exact ih hWrite hCounted (step_timer_idle hStep (by simpa using hIdle) hm)

theorem tick_used (hUsed : regs.exCompareUsed = true) :
    regs.tick = { regs with
      exCount := (regs.counter.next regs.exCompare).count
      irqTimer := (regs.counter.next regs.exCompare).met } := by
  unfold TimerRegs.tick
  rw [if_pos hUsed]

/-- A timer in use is a counter with COMPARE for its limit. -/
theorem iterate_tick_used (hUsed : regs.exCompareUsed = true) (n : Nat) :
    TimerRegs.tick^[n] regs = { regs with
      exCount := ((Counter.next regs.exCompare)^[n] regs.counter).count
      irqTimer := ((Counter.next regs.exCompare)^[n] regs.counter).met } := by
  induction n with
  | zero => rfl
  | succ n ih =>
    rw [Function.iterate_succ_apply', ih, tick_used (by exact hUsed), Function.iterate_succ_apply']
    rfl

/-- The timer after a number of cycles, the one of the write counted: COUNT modulo the value in
COMPARE, the interrupt from the first time that COUNT has come to it, and when it comes to it next. -/
structure Timed (start : Nat) (val : Word) (n : Nat) (c : Mipscpu) : Prop where
  count : c.exCount.toNat = (start + n) % val.toNat
  irq : c.irqTimer = decide (val.toNat ≤ start + n)
  next : c.exCount + 1 = val ↔ val.toNat ∣ start + n + 1

/-- COUNT moves on by one, and to 0 with an interrupt where that is the value in COMPARE. -/
def Advances (val : Word) (c c' : Mipscpu) : Prop :=
  if c.exCount + 1 = val then c'.exCount = 0 ∧ c'.irqTimer = true
  else c'.exCount = c.exCount + 1 ∧ c'.irqTimer = c.irqTimer

def Armed (i : Nat) (val : Word) (m : Machine δ) : Prop :=
  (m.mycpus i).exCompare = val ∧ (m.mycpus i).exCompareUsed = true

theorem advances_of_tick {c c' : Mipscpu} (hUsed : c.exCompareUsed = true)
    (h : c'.toTimerRegs = c.toTimerRegs.tick) : Advances c.exCompare c c' := by
  rw [tick_used hUsed] at h
  have hCount := congrArg TimerRegs.exCount h
  have hIrq := congrArg TimerRegs.irqTimer h
  unfold Counter.next TimerRegs.counter at hCount hIrq
  unfold Advances
  dsimp only at hCount hIrq
  split
  · rename_i hMeets
    rw [if_pos hMeets] at hCount hIrq
    exact ⟨hCount, hIrq⟩
  · rename_i hNot
    rw [if_neg hNot] at hCount hIrq
    exact ⟨hCount, hIrq⟩

theorem step_armed {m m' : Machine δ} {a : Act δ} (hm : Armed i val m) (hCounted : Counted b i m a)
    (hWrite : ¬WritesTimer b i m a) (hStep : Step b m a m') :
    Armed i val m' ∧ (a.executes i m = true → Advances val (m.mycpus i) (m'.mycpus i)) := by
  obtain ⟨hCompare, hUsed⟩ := hm
  cases hOwn : a.executes i m with
  | false =>
    have hSame : TimerIs i (m.mycpus i).toTimerRegs m' := step_timer_idle hStep hOwn rfl
    have hCompare' := congrArg TimerRegs.exCompare hSame
    have hUsed' := congrArg TimerRegs.exCompareUsed hSame
    exact ⟨⟨hCompare'.trans hCompare, hUsed'.trans hUsed⟩, nofun⟩
  | true =>
    have hTick : TimerIs i (m.mycpus i).toTimerRegs.tick m' :=
      step_timer hStep hOwn hCounted hWrite rfl
    have hAdvances := advances_of_tick hUsed hTick
    rw [TimerIs, tick_used hUsed] at hTick
    have hCompare' := congrArg TimerRegs.exCompare hTick
    have hUsed' := congrArg TimerRegs.exCompareUsed hTick
    exact ⟨⟨hCompare'.trans hCompare, hUsed'.trans hUsed⟩, fun _ => hCompare ▸ hAdvances⟩

theorem timed_of_armed (regs : TimerRegs) (hVal : 0 < val) (hMissed : regs.exCount ≠ val) {n : Nat}
    {c : Mipscpu} (hc : c.toTimerRegs = TimerRegs.tick^[n] (regs.armed val)) :
    Timed (regs.armed val).exCount.toNat val n c := by
  have hBelow : (regs.armed val).counter.count < val := by
    change (if val < regs.exCount then 0 else regs.exCount) < val
    split
    · exact hVal
    · rename_i hLe
      bv_omega
  rw [iterate_tick_used rfl] at hc
  have hCount : c.exCount = ((Counter.next val)^[n] (regs.armed val).counter).count :=
    congrArg TimerRegs.exCount hc
  have hIrq : c.irqTimer = ((Counter.next val)^[n] (regs.armed val).counter).met :=
    congrArg TimerRegs.irqTimer hc
  constructor
  · rw [hCount, Counter.toNat_iterate_next hBelow]
    rfl
  · rw [hIrq, Counter.met_iterate_next hBelow]
    exact Bool.false_or _
  · rw [hCount, Counter.iterate_meets_iff hBelow]
    rfl

/-- When a value has been written to COMPARE, the interrupt comes when COUNT has counted up to it,
which is within that many cycles of the cpu, and again whenever COUNT has; and COUNT moves on in
every cycle. This takes that COUNT was not at the value when it was written, or else there is no
interrupt for a whole round of the counter; and that no cycle of the cpu is cut short. -/
theorem compare_timer (hWrite : WritesCompare b i val m₀ m₁) (hVal : 0 < val)
    (hRun : Path (Step b) m₁ p m) (hKept : AllSteps (fun m a _ => ¬WritesTimer b i m a) m₁ p)
    (hCounted : AllSteps (fun m a _ => Counted b i m a) m₁ p) :
    ((m₀.mycpus i).exCount ≠ val →
      Timed (if val < (m₀.mycpus i).exCount then 0 else (m₀.mycpus i).exCount.toNat) val
        (1 + cyclesOf i m₁ p) (m.mycpus i)) ∧
    ((m₀.mycpus i).exCount = val → 1 + cyclesOf i m₁ p < 2 ^ 32 →
      (m.mycpus i).irqTimer = false) ∧
    AllSteps (fun m a m' => a.executes i m = true → Advances val (m.mycpus i) (m'.mycpus i))
      m₁ p := by
  have hm₁ := writesCompare_timer hWrite
  have hm := timer_of_run hRun hKept hCounted hm₁
  rw [← Function.iterate_succ_apply, ← Nat.add_one, Nat.add_comm] at hm
  refine ⟨fun hMissed => ?_, fun hAt hn => ?_, ?_⟩
  · have hTimed := timed_of_armed (m₀.mycpus i).toTimerRegs hVal hMissed hm
    have hStart : ((m₀.mycpus i).toTimerRegs.armed val).exCount.toNat =
        if val < (m₀.mycpus i).exCount then 0 else (m₀.mycpus i).exCount.toNat := by
      unfold TimerRegs.armed
      dsimp only
      split <;> rfl
    rwa [hStart] at hTimed
  · have hLimit : ((m₀.mycpus i).toTimerRegs.armed val).counter.count = val := by
      change (if val < (m₀.mycpus i).exCount then 0 else (m₀.mycpus i).exCount) = val
      rw [hAt, if_neg (by bv_omega)]
    rw [TimerIs, iterate_tick_used rfl] at hm
    have hIrq := congrArg TimerRegs.irqTimer hm
    dsimp only at hIrq
    rw [hIrq]
    have hRound := congrArg Counter.met (Counter.iterate_next_of_eq hLimit hn)
    exact hRound
  · have hArmed : Armed i val m₁ := by
      rw [TimerIs, tick_used rfl] at hm₁
      have hCompare := congrArg TimerRegs.exCompare hm₁
      have hUsed := congrArg TimerRegs.exCompareUsed hm₁
      exact ⟨hCompare, hUsed⟩
    exact hRun.allSteps_of_invariant (fun m a m' hm hMeets hStep =>
      step_armed hm hMeets.1 hMeets.2 hStep) hArmed (hCounted.and hKept)

end Run

/-! ## A write to COMPARE -/

/-- `mtc0 $a0, COMPARE`. -/
def compareWord : Word := 0x40845800

/-- A write of a value to COMPARE, at an address of the only page of memory, and no-ops. -/
def writingAt (addr val : Word) : List (Act Unit) :=
  [.poke ((addr.extractLsb' 2 10).setWidth 30) compareWord, .setEntrypoint 0 (kseg0 + addr),
    .setStack 0 0 val]

theorem writesCompare_of_turned {m m' : Machine Unit} {c : Mipscpu} {val : Word}
    (h : turned bareBoard 0 m = some (compareWord, c, m')) (hUser : c.currentUsermode = false)
    (hVal : c.r 4 = val) : WritesCompare bareBoard 0 val m m' := by
  obtain ⟨hStep, t, hIssue, rfl⟩ := of_turned bareBoard.ncpus_pos h
  exact ⟨hStep, compareWord, t, hIssue, ⟨rfl, rfl, rfl, rfl⟩, hUser, hVal⟩

theorem counted_of_insn {m m' t : Machine δ} {stopped : Bool} {insn : Word}
    (hTurn : (cpuTurn b i).run m = .ok stopped m') (hIssue : (issue b i).run m = .ok (.insn insn) t)
    (hReady : m.gdbReady = false) : Counted b i m (.turn i) := by
  intro hOwn insn' hFetched
  have hState : (m.mycpus i).state = .running := by simpa [Act.executes] using hOwn
  constructor
  · intro e hAhead
    have hFault := (refused_iff hTurn hState hFetched).mpr ⟨e, hAhead⟩
    cases (EStateM.Result.ok.inj (hIssue.symm.trans hFault)).1
  · rintro ⟨-, -, hHandle⟩
    simp [Machine.gdbCanhandle, hReady] at hHandle

theorem not_writesTimer_of_insn {m t : Machine δ} {insn : Word}
    (hIssue : (issue b i).run m = .ok (.insn insn) t) (hOp : opm insn ≠ .cop) :
    ¬WritesTimer b i m (.turn i) := by
  rintro ⟨-, insn', t', hIssue', hMove, -⟩
  obtain ⟨hSame, -⟩ := EStateM.Result.ok.inj (hIssue.symm.trans hIssue')
  obtain rfl := Issue.insn.inj hSame
  exact hOp (hMove.elim And.left And.left)

/-- COUNT is 1 when 4 is written; the interrupt comes in the third cycle, that of the write
counted. -/
theorem compare_timer_four : ∃ p m₀ m₁ m₂ m₃,
    Path (Step bareBoard) (machineInit () false) p m₀ ∧ WritesCompare bareBoard 0 4 m₀ m₁ ∧
    Path (Step bareBoard) m₁ [(.turn 0, m₂), (.turn 0, m₃)] m₃ ∧ Timed 1 4 3 (m₃.mycpus 0) := by
  have hSeen : seen bareBoard (writingAt 0 4) (machineInit () false) (fun m₀ =>
      (turned bareBoard 0 m₀).any fun (insn, c, m₁) =>
      (turned bareBoard 0 m₁).any fun (insn₁, _, m₂) =>
      (turned bareBoard 0 m₂).any fun (insn₂, _, _) =>
        insn = compareWord ∧ insn₁ = 0 ∧ insn₂ = 0 ∧ c.currentUsermode = false ∧ c.r 4 = 4 ∧
        (m₀.mycpus 0).exCount = 1 ∧ m₁.gdbReady = false ∧ m₂.gdbReady = false ∧
        (Act.turn 0).executes 0 m₁ = true ∧ (Act.turn 0).executes 0 m₂ = true) = some true := by
    decide +kernel
  obtain ⟨p, m₀, hPath, -, hTurns⟩ := path_of_seen hSeen (by decide)
  simp only [Option.any_eq_true, decide_eq_true_eq, Prod.exists] at hTurns
  obtain ⟨_, c, m₁, hFirst, _, _, m₂, hSecond, _, _, m₃, hThird, rfl, rfl, rfl, hUser, hVal, hCount,
    hReady₁, hReady₂, hOwn₁, hOwn₂⟩ := hTurns
  obtain ⟨hStep₁, t₁, hIssue₁, -⟩ := of_turned bareBoard.ncpus_pos hSecond
  obtain ⟨hStep₂, t₂, hIssue₂, -⟩ := of_turned bareBoard.ncpus_pos hThird
  obtain ⟨_, hTurn₁⟩ := cpuTurn_of_step 0 hStep₁
  obtain ⟨_, hTurn₂⟩ := cpuTurn_of_step 0 hStep₂
  have hWrite := writesCompare_of_turned hFirst hUser hVal
  have hRun : Path (Step bareBoard) m₁ [(.turn 0, m₂), (.turn 0, m₃)] m₃ :=
    .cons hStep₁ (.cons hStep₂ (.nil m₃))
  have hTimer := compare_timer hWrite (by decide) hRun
    ⟨not_writesTimer_of_insn hIssue₁ (by decide), not_writesTimer_of_insn hIssue₂ (by decide),
      trivial⟩
    ⟨counted_of_insn hTurn₁ hIssue₁ hReady₁, counted_of_insn hTurn₂ hIssue₂ hReady₂, trivial⟩
  have hTimed := hTimer.1 (by rw [hCount]; decide)
  have hCycles : cyclesOf 0 m₁ [(.turn 0, m₂), (.turn 0, m₃)] = 2 := by
    simp [cyclesOf, hOwn₁, hOwn₂]
  rw [hCycles, hCount] at hTimed
  exact ⟨p, m₀, m₁, m₂, m₃, hPath, hWrite, hRun, hTimed⟩

/-- 1 is written to COMPARE when COUNT is 1, and a cycle later there is no interrupt. And after a
write of 100, a jump at the end of the page is refused for the address ahead, and COUNT stays. -/
theorem compare_timer_misses :
    (∃ p m₀ m₁ m₂, Path (Step bareBoard) (machineInit () false) p m₀ ∧
      WritesCompare bareBoard 0 1 m₀ m₁ ∧ Step bareBoard m₁ (.turn 0) m₂ ∧
      (Act.turn 0).executes 0 m₁ = true ∧ ¬WritesTimer bareBoard 0 m₁ (.turn 0) ∧
      (m₂.mycpus 0).irqTimer = false) ∧
    ∃ p m₀ m₁ m₂, Path (Step bareBoard) (machineInit () false) p m₀ ∧
      WritesCompare bareBoard 0 100 m₀ m₁ ∧ Step bareBoard m₁ (.turn 0) m₂ ∧
      (Act.turn 0).executes 0 m₁ = true ∧ ¬WritesTimer bareBoard 0 m₁ (.turn 0) ∧
      m₁.gdbReady = false ∧ (m₂.mycpus 0).exCount = (m₁.mycpus 0).exCount := by
  constructor
  · have hSeen : seen bareBoard (writingAt 0 1) (machineInit () false) (fun m₀ =>
        (turned bareBoard 0 m₀).any fun (insn, c, m₁) =>
        (turned bareBoard 0 m₁).any fun (insn₁, _, m₂) =>
          insn = compareWord ∧ insn₁ = 0 ∧ c.currentUsermode = false ∧ c.r 4 = 1 ∧
          (Act.turn 0).executes 0 m₁ = true ∧ (m₂.mycpus 0).irqTimer = false) = some true := by
      decide +kernel
    obtain ⟨p, m₀, hPath, -, hTurns⟩ := path_of_seen hSeen (by decide)
    simp only [Option.any_eq_true, decide_eq_true_eq, Prod.exists] at hTurns
    obtain ⟨_, c, m₁, hFirst, _, _, m₂, hSecond, rfl, rfl, hUser, hVal, hOwn, hIrq⟩ := hTurns
    obtain ⟨hStep, t, hIssue, -⟩ := of_turned bareBoard.ncpus_pos hSecond
    exact ⟨p, m₀, m₁, m₂, hPath, writesCompare_of_turned hFirst hUser hVal, hStep, hOwn,
      not_writesTimer_of_insn hIssue (by decide), hIrq⟩
  · have hSeen : seen bareBoard (.poke 0x3fe jumpWord :: writingAt 0xff4 100) (machineInit () false)
        (fun m₀ => (turned bareBoard 0 m₀).any fun (insn, c, m₁) =>
          insn = compareWord ∧ c.currentUsermode = false ∧ c.r 4 = 100 ∧ m₁.gdbReady = false ∧
          (Act.turn 0).executes 0 m₁ = true ∧
          yields (issue bareBoard 0) (fun is _ => is) m₁ = some .fault ∧
          yields (cpuTurn bareBoard 0) (fun _ m₂ => (m₂.mycpus 0).exCount) m₁ =
            some (m₁.mycpus 0).exCount) = some true := by
      decide +kernel
    obtain ⟨p, m₀, hPath, -, hTurns⟩ := path_of_seen hSeen (by decide)
    simp only [Option.any_eq_true, decide_eq_true_eq, Prod.exists] at hTurns
    obtain ⟨_, c, m₁, hFirst, rfl, hUser, hVal, hReady, hOwn, hFault, hCount⟩ := hTurns
    obtain ⟨_, t, hIssue, rfl⟩ := run_of_yields hFault
    obtain ⟨_, m₂, hTurn, hSame⟩ := run_of_yields hCount
    refine ⟨p, m₀, m₁, m₂, hPath, writesCompare_of_turned hFirst hUser hVal,
      step_turn bareBoard.ncpus_pos hTurn, hOwn, ?_, hReady, hSame⟩
    rintro ⟨-, insn, t', hIssue', -⟩
    cases (EStateM.Result.ok.inj (hIssue.symm.trans hIssue')).1

end Sys161.Mips
