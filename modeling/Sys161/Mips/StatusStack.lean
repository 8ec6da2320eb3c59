import Mathlib.Data.Fin.VecNotation
import Mathlib.Tactic.FinCases
import Sys161.Lib.Flags
import Sys161.Lib.ShiftStack
import Sys161.Mips.FetchFaults
import Sys161.Mips.Random

/-!
# The status register

Three pairs of mode and interrupt bits make a stack that exceptions push to and
RFE pops. As long as exceptions are not nested more than twice, RFE returns to
the bits that the exception found.
-/

namespace Sys161.Mips

open Exec Runs ShiftStack

set_option autoImplicit false

/-! ## The register as it is written and read -/

theorem getstatus_setstatus (c : Mipscpu) (val : Word) :
    (c.setstatus val).getstatus = val &&& 0xf040ff3f := by
  have hOldUser : (if (c.setstatus val).oldUsermode then 0x20 else 0) = val &&& 0x20 :=
    Flags.ite_and_eq val 5 (by decide)
  have hOldIrq : (if (c.setstatus val).oldIrqon then 0x10 else 0) = val &&& 0x10 :=
    Flags.ite_and_eq val 4 (by decide)
  have hPrevUser : (if (c.setstatus val).prevUsermode then 0x8 else 0) = val &&& 0x8 :=
    Flags.ite_and_eq val 3 (by decide)
  have hPrevIrq : (if (c.setstatus val).prevIrqon then 0x4 else 0) = val &&& 0x4 :=
    Flags.ite_and_eq val 2 (by decide)
  have hUser : (if (c.setstatus val).currentUsermode then 0x2 else 0) = val &&& 0x2 :=
    Flags.ite_and_eq val 1 (by decide)
  have hIrq : (if (c.setstatus val).currentIrqon then 0x1 else 0) = val &&& 0x1 :=
    Flags.ite_and_eq val 0 (by decide)
  rw [Mipscpu.getstatus, hOldUser, hOldIrq, hPrevUser, hPrevIrq, hUser, hIrq]
  simp only [Mipscpu.setstatus, ← BitVec.and_or_distrib_left]
  rfl

/-! ## The stack -/

/-- The pairs of bits, from the current one to the old one. -/
def Mipscpu.statusStack (c : Mipscpu) : Fin 3 → Bool × Bool :=
  ![(c.currentUsermode, c.currentIrqon), (c.prevUsermode, c.prevIrqon),
    (c.oldUsermode, c.oldIrqon)]

/-- What RFE does to the status register. -/
def Mipscpu.rollBack (c : Mipscpu) : Mipscpu :=
  { c with
    currentUsermode := c.prevUsermode
    currentIrqon := c.prevIrqon
    prevUsermode := c.oldUsermode
    prevIrqon := c.oldIrqon }

theorem statusStack_rollBack (c : Mipscpu) : c.rollBack.statusStack = pop c.statusStack := by
  funext k
  fin_cases k <;> rfl

variable {δ : Type} (b : Board δ) (i : Nat)

theorem statusStack_exception (c : Mipscpu) (e : Exn) :
    (c.exception b e).statusStack = push (false, false) c.statusStack := by
  funext k
  fin_cases k <;> rfl

theorem statusStack_congr {c c' : Mipscpu} (h : c.toStatusReg = c'.toStatusReg) :
    c.statusStack = c'.statusStack :=
  congrArg (fun s : StatusReg => ![(s.currentUsermode, s.currentIrqon),
    (s.prevUsermode, s.prevIrqon), (s.oldUsermode, s.oldIrqon)]) h

/-! ## Exceptions and returns -/

inductive Event where
  | exception (e : Exn)
  | rfe
  deriving DecidableEq

def Event.move : Event → Move (Bool × Bool)
  | exception _ => .push (false, false)
  | rfe => .pop

/-- Cpu `i` takes an exception or rolls the status bits back; what has no label leaves alone the
status register and what only `exception()` writes. -/
def Happens (m : Machine δ) (event : Option Event) (m' : Machine δ) : Prop :=
  match event with
  | some (.exception e) => m' = m.modCpu i fun c => c.exception b e
  | some .rfe => (m.mycpus i).currentUsermode = false ∧ m' = m.modCpu i Mipscpu.rollBack
  | none => (m'.mycpus i).toStatusReg = (m.mycpus i).toStatusReg ∧
      (m'.mycpus i).excepted = (m.mycpus i).excepted

/-- The moves of the stack in a run. -/
def moves (q : List (Option Event × Machine δ)) : List (Move (Bool × Bool)) :=
  q.filterMap fun entry => entry.1.map Event.move

section Law

variable {b i} {m m' : Machine δ}

theorem Happens.statusStack {event : Option Event} (h : Happens b i m event m') :
    (m'.mycpus i).statusStack =
      run (m.mycpus i).statusStack (event.map Event.move).toList := by
  cases event with
  | none => exact statusStack_congr h.1
  | some event =>
    cases event with
    | exception e =>
      obtain rfl : m' = _ := h
      rw [Machine.modCpu_mycpus_self, statusStack_exception]
      rfl
    | rfe =>
      obtain ⟨-, rfl⟩ := h
      rw [Machine.modCpu_mycpus_self, statusStack_rollBack]
      rfl

theorem statusStack_of_path {q : List (Option Event × Machine δ)} (h : Path (Happens b i) m q m') :
    (m'.mycpus i).statusStack = run (m.mycpus i).statusStack (moves q) := by
  induction h with
  | nil m => rfl
  | @cons m t m' event q hStep _ ih =>
    have hMoves : moves ((event, t) :: q) = (event.map Event.move).toList ++ moves q := by
      cases event <;> rfl
    rw [ih, hStep.statusStack, hMoves, run_append]

/-- Within two exceptions at a time, RFE brings back the bits of the exception it is for. -/
theorem rfe_restores {t t' : Machine δ} {e : Exn} {q : List (Option Event × Machine δ)}
    (hException : Happens b i m (some (.exception e)) t) (hPath : Path (Happens b i) t q t')
    (hNested : Nested 1 (moves q)) (hRfe : Happens b i t' (some .rfe) m') :
    (m'.mycpus i).currentUsermode = (m.mycpus i).currentUsermode ∧
    (m'.mycpus i).currentIrqon = (m.mycpus i).currentIrqon := by
  have hTop : (m'.mycpus i).statusStack 0 = (m.mycpus i).statusStack 0 := by
    rw [hRfe.statusStack, statusStack_of_path hPath, hException.statusStack]
    exact hNested.top (n := 2) (by decide) _ _
  exact Prod.mk.inj hTop

end Law

/-! ## What a machine does -/

/-- Cpu `i` gets from one state to the other by exceptions alone. -/
def Enters (m m' : Machine δ) : Prop :=
  ∃ q, Path (Happens b i) m q m' ∧ some .rfe ∉ q.map Prod.fst

/-- The same with one return in between. -/
def Returns (m m' : Machine δ) : Prop :=
  ∃ t t', Enters b i m t ∧ Happens b i t (some .rfe) t' ∧ Enters b i t' m'

variable {b i}

section Enters

variable {m₀ m m' : Machine δ}

theorem Enters.refl (m : Machine δ) : Enters b i m m := ⟨[], .nil m, nofun⟩

theorem Enters.concat (h : Enters b i m₀ m) {e : Option Event}
    (hEvent : Happens b i m e m') (hRfe : e ≠ some .rfe) : Enters b i m₀ m' := by
  obtain ⟨q, hPath, hNone⟩ := h
  refine ⟨q ++ [(e, m')], hPath.append (.cons hEvent (.nil m')), ?_⟩
  rw [List.map_append, List.mem_append]
  rintro (h | h)
  · exact hNone h
  · exact hRfe (List.mem_singleton.mp h).symm

theorem Enters.quiet (h : Enters b i m₀ m) (hCpu : m'.mycpus i = m.mycpus i) :
    Enters b i m₀ m' := by
  refine h.concat (e := none) ?_ nofun
  rw [Happens, hCpu]
  exact ⟨rfl, rfl⟩

theorem Enters.modCpu (h : Enters b i m₀ m) (j : Nat) {f : Mipscpu → Mipscpu}
    (hf : j = i → (f (m.mycpus j)).toStatusReg = (m.mycpus j).toStatusReg ∧
      (f (m.mycpus j)).excepted = (m.mycpus j).excepted) : Enters b i m₀ (m.modCpu j f) := by
  by_cases hj : j = i
  · subst hj
    refine h.concat (e := none) ?_ nofun
    rw [Happens, Machine.modCpu_mycpus_self]
    exact hf rfl
  · exact h.quiet (Machine.modCpu_mycpus_ne m f (Ne.symm hj))

theorem busBlind_enters (m₀ : Machine δ) : BusBlind b (Enters b i m₀) where
  fetchState j _ _ hm := hm.modCpu j fun _ => ⟨rfl, rfl⟩
  exception j e m hm := by
    by_cases hj : j = i
    · subst hj
      exact hm.concat (e := some (.exception e)) rfl nofun
    · exact hm.modCpu j fun h => absurd h hj
  vpn j _ _ hm := hm.modCpu j fun _ => ⟨rfl, rfl⟩
  stats _ _ hm := hm.quiet rfl
  debugger _ _ _ _ hm := hm.quiet rfl
  hang _ _ hm := hm.quiet rfl
  hitBreakpoint j _ _ hm := hm.modCpu j fun _ => ⟨rfl, rfl⟩
  uncount j _ hm := hm.modCpu j fun _ => ⟨rfl, rfl⟩
  devices _ _ hm := hm.quiet rfl
  raised _ _ hm := hm.quiet rfl
  enabled _ _ hm := hm.quiet rfl
  lamebusCpu _ _ _ hm := hm.quiet rfl
  irqLines j _ _ hm := hm.modCpu j fun _ => ⟨rfl, rfl⟩
  state j _ _ hm := hm.modCpu j fun _ => ⟨rfl, rfl⟩
  runningMask _ _ hm := hm.quiet rfl
  startReg j _ _ _ _ hm := hm.modCpu j fun _ => ⟨rfl, rfl⟩

end Enters

/-! ## Instructions -/

def IsRfe (insn : Word) : Prop := cop0Op insn ∧ (insn &&& 0x01ffffff).toNat = 16

section Execute

variable {m t : Machine δ} {insn : Word}

/-- Any instruction of another cpu, and of cpu `i` all but RFE and moves to the status register. -/
theorem execute_enters (j : Nat) (hRfe : j = i → ¬IsRfe insn)
    (hStatus : j = i → ¬IsMtc0 insn .status) :
    Keeps (Enters b i m) (fun _ => Enters b i m) (execute b j insn) := by
  have hBlind : BusBlind b (Enters b i m) := busBlind_enters m
  refine (hBlind.execBlind.rules j (fun _ _ _ hm => hm.quiet rfl)
    (fun _ _ _ _ hm => hm.modCpu j fun _ => ⟨rfl, rfl⟩)
    (fun _ _ _ _ _ hm => hm.modCpu j fun _ => ⟨rfl, rfl⟩)
    (fun _ _ _ _ hm => hm.modCpu j fun _ => ⟨rfl, rfl⟩)
    (fun c0 _ hMtc0 hm => hm.modCpu j fun hj => ?_)
    (fun _ hm => hm.modCpu j fun _ => ⟨rfl, rfl⟩)
    (fun _ _ _ hm => hm.modCpu j fun _ => ⟨rfl, rfl⟩)
    (fun _ hm => hm.modCpu j fun _ => ⟨rfl, rfl⟩)
    (hBlind.execBlind.writetlb j fun _ _ hm => hm.modCpu j fun _ => ⟨rfl, rfl⟩)
    (fun hOp hFunct _ _ hm => hm.modCpu j fun hj => absurd ⟨hOp, hFunct⟩ (hRfe hj))).execute
  cases c0 with
  | status => exact absurd hMtc0 (hStatus hj)
  | _ => exact ⟨rfl, rfl⟩

theorem after_execute_user {Q : Unit → Machine δ → Prop} {E : Stop → Machine δ → Prop}
    (hOp : opm insn = .cop) (hUser : (t.mycpus i).currentUsermode = true) :
    After (execute b i insn) Q E t ↔
      E .exception (t.modCpu i fun c => c.exception b ⟨.cpu, cn insn, 0⟩) := by
  simp only [execute, hOp, mxCopz, after_bind, after_getCpu, hUser, or_true, if_true, after_raise]

/-- In user mode there is neither. -/
theorem execute_enters_own
    (hRfe : IsRfe insn → (t.mycpus i).currentUsermode = true)
    (hStatus : IsMtc0 insn .status → (t.mycpus i).currentUsermode = true) (ht : Enters b i m t) :
    After (execute b i insn) (fun _ => Enters b i m) (fun _ => Enters b i m) t := by
  by_cases hUser : opm insn = .cop ∧ (t.mycpus i).currentUsermode = true
  · rw [after_execute_user hUser.1 hUser.2]
    exact (busBlind_enters m).exception i _ t ht
  · exact execute_enters i (fun _ h => hUser ⟨h.1.1, hRfe h⟩)
      (fun _ h => hUser ⟨h.1, hStatus h⟩) t ht

theorem execute_returns (hRfe : IsRfe insn) (hUser : (t.mycpus i).currentUsermode = false)
    (ht : Enters b i m t) :
    After (execute b i insn) (fun _ => Returns b i m) (fun _ => Returns b i m) t := by
  rw [after_execute_cop0 i hRfe.1 hUser]
  simp only [mxCop0, hRfe.2, mxRfe]
  unfold doRfe
  rw [after_bind, after_getCpu, if_neg (by simp [hUser]), after_bind, after_modCpu]
  have hRolled : Enters b i (t.modCpu i Mipscpu.rollBack) (t.modCpu i fun c =>
      { c with
        currentUsermode := c.prevUsermode
        currentIrqon := c.prevIrqon
        prevUsermode := c.oldUsermode
        prevIrqon := c.oldIrqon
        inJumpdelay := false
        expc := c.pc }) := by
    refine (Enters.refl _).concat (e := none) ?_ (Option.some_ne_none _).symm
    rw [Happens, Machine.modCpu_mycpus_self, Machine.modCpu_mycpus_self]
    exact ⟨rfl, rfl⟩
  refine ((busBlind_enters _).precomputeBoth i (E := fun _ _ => False) _ hRolled).mono
    (fun _ u hu => ?_) fun _ _ h => h.elim
  exact ⟨t, _, ht, ⟨hUser, rfl⟩, hu⟩

end Execute

/-! ## Steps -/

variable (b i) in
/-- Cpu `i` executes RFE in its turn. -/
def ExecutesRfe (m : Machine δ) (a : Act δ) : Prop :=
  a = .turn i ∧ ∃ insn t, (issue b i).run m = .ok (.insn insn) t ∧ IsRfe insn ∧
    (t.mycpus i).currentUsermode = false

variable (b i) in
/-- Cpu `i` writes its status register. -/
def WritesStatus (m : Machine δ) (a : Act δ) : Prop :=
  a = .turn i ∧ ∃ insn t, (issue b i).run m = .ok (.insn insn) t ∧ IsMtc0 insn .status ∧
    (t.mycpus i).currentUsermode = false

section Step

variable {m m' : Machine δ} {a : Act δ}

theorem step_enters (hStep : Step b m a m') (hRfe : ¬ExecutesRfe b i m a)
    (hStatus : ¬WritesStatus b i m a) : Enters b i m m' := by
  have hBlind : BusBlind b (Enters b i m) := busBlind_enters m
  refine hBlind.step (fun _ _ _ hm => hm.quiet rfl) (fun _ _ hm => hm.quiet rfl) (.refl m)
    (fun j ha => ?_) hStep
  refine hBlind.cpuTurn j (J := Enters b i m) (fun _ hu => hu.modCpu j fun _ => ⟨rfl, rfl⟩) m
    (.refl m) fun insn t hIssue ht => ?_
  by_cases hj : j = i
  · subst hj
    refine execute_enters_own (fun h => ?_) (fun h => ?_) ht
    · by_contra hUser
      exact hRfe ⟨ha, insn, t, hIssue, h, by simpa using hUser⟩
    · by_contra hUser
      exact hStatus ⟨ha, insn, t, hIssue, h, by simpa using hUser⟩
  · exact execute_enters j (fun h => absurd h hj) (fun h => absurd h hj) t ht

theorem Returns.quiet (h : Returns b i m m') {u : Machine δ}
    (hStatus : (u.mycpus i).toStatusReg = (m'.mycpus i).toStatusReg)
    (hExcepted : (u.mycpus i).excepted = (m'.mycpus i).excepted) : Returns b i m u := by
  obtain ⟨t, t', hBefore, hRfe, hAfter⟩ := h
  exact ⟨t, t', hBefore, hRfe, hAfter.concat (e := none) ⟨hStatus, hExcepted⟩ nofun⟩

theorem step_returns (hStep : Step b m a m') (hRfe : ExecutesRfe b i m a) : Returns b i m m' := by
  obtain ⟨rfl, insn, t, hIssue, hInsn, hUser⟩ := hRfe
  have hBlind : BusBlind b (Enters b i m) := busBlind_enters m
  have ht := after_of_run_ok (hBlind.issue i m (.refl m)) hIssue
  obtain ⟨stopped, hTurn⟩ := cpuTurn_of_step i hStep
  obtain ⟨u, hExec, hEnd⟩ := turn_ticked hTurn hIssue
  have hReturns := execute_returns (b := b) hInsn hUser ht
  have hu : Returns b i m u := by
    obtain hExec | hExec := hExec
    · have hOk := after_of_run_ok hReturns hExec
      exact hOk
    · have hError := after_of_run_error hReturns hExec
      exact hError
  refine hu.quiet ?_ ?_
  · rw [hEnd.cpu]
    rfl
  · rw [hEnd.cpu]
    rfl

theorem Enters.path (h : Enters b i m m') : ∃ q, Path (Happens b i) m q m' :=
  let ⟨q, hPath, _⟩ := h
  ⟨q, hPath⟩

theorem Returns.path (h : Returns b i m m') : ∃ q, Path (Happens b i) m q m' := by
  obtain ⟨t, t', ⟨q, hBefore, -⟩, hRfe, ⟨q', hAfter, -⟩⟩ := h
  exact ⟨_, hBefore.append (.cons hRfe hAfter)⟩

theorem step_path (hStep : Step b m a m') (hStatus : ¬WritesStatus b i m a) :
    ∃ q, Path (Happens b i) m q m' := by
  by_cases hRfe : ExecutesRfe b i m a
  · exact (step_returns hStep hRfe).path
  · exact (step_enters hStep hRfe hStatus).path

end Step

/-! ## Runs -/

section Run

variable {m₀ m : Machine δ} {p : List (Act δ × Machine δ)}

/-- A run that does not write the status register is one of exceptions and returns. -/
theorem path_of_run (hRun : Path (Step b) m₀ p m)
    (hStatus : AllSteps (fun m a _ => ¬WritesStatus b i m a) m₀ p) :
    ∃ q, Path (Happens b i) m₀ q m := by
  induction hRun with
  | nil m => exact ⟨[], .nil m⟩
  | cons hStep _ ih =>
    obtain ⟨hFirst, hRest⟩ := hStatus
    obtain ⟨q, hq⟩ := step_path hStep hFirst
    obtain ⟨q', hq'⟩ := ih hRest
    exact ⟨q ++ q', hq.append hq'⟩

/-- Where a move of the stack comes from. -/
theorem moves_eq_append {q : List (Option Event × Machine δ)}
    {before after : List (Move (Bool × Bool))} {move : Move (Bool × Bool)}
    (h : moves q = before ++ move :: after) :
    ∃ q₁ event t q₂, q = q₁ ++ (some event, t) :: q₂ ∧ moves q₁ = before ∧ event.move = move ∧
      moves q₂ = after := by
  obtain ⟨q₁, rest, rfl, hBefore, hRest⟩ := List.filterMap_eq_append_iff.mp h
  obtain ⟨gap, ⟨event, t⟩, q₂, rfl, hGap, hMove, hAfter⟩ := List.filterMap_eq_cons_iff.mp hRest
  obtain ⟨event, rfl, rfl⟩ := Option.map_eq_some_iff.mp hMove
  refine ⟨q₁ ++ gap, event, t, q₂, (List.append_assoc ..).symm, ?_, rfl, hAfter⟩
  rw [moves, List.filterMap_append, List.filterMap_eq_nil_iff.mpr hGap, List.append_nil]
  exact hBefore

variable (b i) in
/-- Each RFE of a sequence brings back the bits that were current at the exception it is for. -/
def Restores (m₀ : Machine δ) (q : List (Option Event × Machine δ)) : Prop :=
  ∀ q₁ t' q₂, q = q₁ ++ (some .rfe, t') :: q₂ →
    ∃ outer e t inner m, q₁ = outer ++ (some (.exception e), t) :: inner ∧ Nested 1 (moves inner) ∧
      Path (Happens b i) m₀ outer m ∧
      (t'.mycpus i).currentUsermode = (m.mycpus i).currentUsermode ∧
      (t'.mycpus i).currentIrqon = (m.mycpus i).currentIrqon

theorem restores_of_nested {q : List (Option Event × Machine δ)} (hPath : Path (Happens b i) m₀ q m)
    (hNested : Nested 2 (moves q)) : Restores b i m₀ q := by
  rintro q₁ t' q₂ rfl
  have hMoves : moves (q₁ ++ (some .rfe, t') :: q₂) = moves q₁ ++ .pop :: moves q₂ := by
    rw [moves, List.filterMap_append]
    rfl
  obtain ⟨outer', a, inner', d, hPush, hInner, hLt⟩ := hNested.matching hMoves
  obtain ⟨outer, event, t, inner, rfl, -, hEvent, rfl⟩ := moves_eq_append hPush
  obtain ⟨e, rfl⟩ : ∃ e, event = .exception e := by
    cases event with
    | exception e => exact ⟨e, rfl⟩
    | rfe => cases hEvent
  have hInner' : Nested 1 (moves inner) := hInner.mono (by omega)
  rw [List.append_assoc] at hPath
  obtain ⟨m₁, hOuter, hRest⟩ := hPath.split
  cases hRest with
  | cons hException hRest =>
    obtain ⟨m₂, hBetween, hTail⟩ := hRest.split
    cases hTail with
    | cons hRfe _ =>
      exact ⟨outer, e, t, inner, m₁, rfl, hInner', hOuter,
        rfe_restores hException hBetween hInner' hRfe⟩

/-- A run in which a cpu does not write its status register is a sequence of exceptions and returns,
with one return for each RFE. In any such sequence that nests at most two exceptions, each return is
to the bits that were current at its exception. What is written to the register is read back, as far
as the bits are there. -/
theorem status_stack (hRun : Path (Step b) m₀ p m)
    (hStatus : AllSteps (fun m a _ => ¬WritesStatus b i m a) m₀ p) :
    (∃ q, Path (Happens b i) m₀ q m) ∧
    AllSteps (fun m a m' => (ExecutesRfe b i m a → Returns b i m m') ∧
      (¬ExecutesRfe b i m a → Enters b i m m')) m₀ p ∧
    (∀ q m', Path (Happens b i) m₀ q m' → Nested 2 (moves q) → Restores b i m₀ q) ∧
    ∀ (c : Mipscpu) (val : Word), (c.mtc0 val .status).mfc0 .status = some (val &&& 0xf040ff3f) := by
  refine ⟨path_of_run hRun hStatus, ?_, fun q m' => restores_of_nested, fun c val => ?_⟩
  · refine hRun.allSteps_of_invariant (P := fun _ => True) (fun m a m' _ hStatus hStep => ?_) trivial
      hStatus
    exact ⟨trivial, step_returns hStep, fun hRfe => step_enters hStep hRfe hStatus⟩
  · exact congrArg some (getstatus_setstatus c val)

end Run

/-! ## A system call -/

/-- A kernel with interrupts on that makes a system call; the handler is an RFE. -/
def calling : Machine Unit :=
  let start := machineInit () false
  { start with
    ram := fun index => if index = 0 then syscallWord else fullopRfe
    mycpus := fun i =>
      { start.mycpus i with
        pc := kseg0
        nextpc := kseg0 + 4
        pcpage := some (.ram 0)
        nextpcpage := some (.ram 0)
        statusBootvectors := 0
        currentIrqon := true } }

/-- Interrupts are off in the handler, and on again after it. -/
theorem status_stack_call : ∃ m₁ m₂ : Machine Unit,
    Step bareBoard calling (.turn 0) m₁ ∧ Step bareBoard m₁ (.turn 0) m₂ ∧
    Enters bareBoard 0 calling m₁ ∧ Returns bareBoard 0 m₁ m₂ ∧
    (m₁.mycpus 0).currentIrqon = false ∧ (m₂.mycpus 0).currentIrqon = true := by
  have hTurns : ((turned bareBoard 0 calling).any fun (insn, _, m₁) =>
      (turned bareBoard 0 m₁).any fun (insn', c, m₂) =>
        insn = syscallWord ∧ insn' = fullopRfe ∧ c.currentUsermode = false ∧
        (m₁.mycpus 0).currentIrqon = false ∧ (m₂.mycpus 0).currentIrqon = true) = true := by
    decide +kernel
  simp only [Option.any_eq_true, decide_eq_true_eq, Prod.exists] at hTurns
  obtain ⟨_, _, m₁, hFirst, _, _, m₂, hSecond, rfl, rfl, hUser, hOff, hOn⟩ := hTurns
  obtain ⟨hStep₁, t₁, hIssue₁, -⟩ := of_turned bareBoard.ncpus_pos hFirst
  obtain ⟨hStep₂, t₂, hIssue₂, rfl⟩ := of_turned bareBoard.ncpus_pos hSecond
  have hOnly : ∀ {m t : Machine Unit} {insn : Word},
      (issue bareBoard 0).run m = .ok (.insn insn) t → ¬IsMtc0 insn .status →
      ¬WritesStatus bareBoard 0 m (.turn 0) := by
    rintro m t insn hIssue hNot ⟨-, insn', t', hIssue', hMtc0, -⟩
    obtain ⟨hSame, -⟩ := EStateM.Result.ok.inj (hIssue.symm.trans hIssue')
    obtain rfl := Issue.insn.inj hSame
    exact hNot hMtc0
  have hStack := status_stack (.cons hStep₁ (.cons hStep₂ (.nil _)))
    ⟨hOnly hIssue₁ (fun h => absurd h.1 (by decide)),
      hOnly hIssue₂ (fun h => absurd h.2.2.1 (by decide)), trivial⟩
  obtain ⟨-, ⟨⟨-, hEnters⟩, ⟨hReturns, -⟩, -⟩, -⟩ := hStack
  refine ⟨m₁, m₂, hStep₁, hStep₂, hEnters ?_, hReturns ?_, hOff, hOn⟩
  · rintro ⟨-, insn, t, hIssue, hRfe, -⟩
    obtain ⟨hSame, -⟩ := EStateM.Result.ok.inj (hIssue₁.symm.trans hIssue)
    obtain rfl := Issue.insn.inj hSame
    exact absurd hRfe.1.1 (by decide)
  · exact ⟨rfl, fullopRfe, t₂, hIssue₂, ⟨⟨rfl, rfl, by decide⟩, rfl⟩, hUser⟩

end Sys161.Mips
