import Sys161.Lib.Scripts
import Sys161.Mips.Frame

/-!
# Runs of the machine

A machine takes steps one cpu at a time: a cycle is a chain of turns. Between
turns the devices, the loader, the debugger and the main loop act on it.
-/

namespace Sys161.Mips

open Exec Runs

set_option autoImplicit false

variable {δ : Type} (b : Board δ)

inductive Act (δ : Type) where
  /-- The share of a cpu of a cycle. -/
  | turn (i : Nat)
  | raiseIrq (slot : Nat)
  | lowerIrq (slot : Nat)
  /-- A timed action of a device. -/
  | devices (d : δ)
  | setIrqs (i : Nat) (lamebus ipi : Bool)
  | setEntrypoint (i : Nat) (addr : Word)
  | setStack (i : Nat) (stackaddr argument : Word)
  /-- The kernel loader and the debugger write main memory. -/
  | poke (index : BitVec 30) (val : Word)
  /-- The main loop starts and stops the cpus, and the debugger comes and goes. -/
  | debugger (cycling stopped lethal gdbReady : Bool)

/-- The numbers of cpus and slots are in range. -/
def Act.Valid : Act δ → Prop
  | turn i | setIrqs i _ _ | setEntrypoint i _ | setStack i _ _ => i < b.ncpus
  | raiseIrq slot | lowerIrq slot => slot < lamebusNslots
  | devices _ | poke _ _ | debugger _ _ _ _ => True

def Act.exec : Act δ → M δ Unit
  | turn i => do
    let _ ← cpuTurn b i
  | raiseIrq slot => modify fun m => m.raiseIrq b slot
  | lowerIrq slot => modify fun m => m.lowerIrq b slot
  | devices d => modify fun m => { m with devices := d }
  | setIrqs i lamebus ipi => modify fun m => m.cpuSetIrqs i lamebus ipi
  | setEntrypoint i addr => cpuSetEntrypoint b i addr
  | setStack i stackaddr argument => cpuSetStack i stackaddr argument
  | poke index val => modify fun m => { m with ram := Function.update m.ram index val }
  | debugger cycling stopped lethal gdbReady => modify fun m =>
    { m with
      cpuCycling := cycling, stoppedInDebugger := stopped, stopIsLethal := lethal
      gdbReady := gdbReady }

def Step (m : Machine δ) (a : Act δ) (m' : Machine δ) : Prop :=
  a.Valid b ∧ (a.exec b).run m = .ok () m'

/-- The machine can get from one state to the other. -/
def Reaches (m m' : Machine δ) : Prop := ∃ p, Path (Step b) m p m'

/-- One cpu, one page of memory and no devices but the controller. -/
def bareBoard : Board Unit where
  ncpus := 1
  ncpus_pos := by decide
  ncpus_le := by decide
  busRamsize := 0x1000
  ramsize_ne := by decide
  ramsize_page := by decide
  ramsize_le := by decide
  isold := false
  isold_ncpus := by decide
  info _ := none
  ldiFetch _ _ _ d := ⟨d, [], false, none⟩
  ldiStore _ _ _ _ d := ⟨d, [], false, none⟩

/-- The same with two cpus. -/
def twinBoard : Board Unit :=
  { bareBoard with ncpus := 2, ncpus_pos := by decide, ncpus_le := by decide, isold_ncpus := nofun }

variable {b}

theorem step_turn {i : Nat} {m m' : Machine δ} (hi : i < b.ncpus) {stopped : Bool}
    (h : (cpuTurn b i).run m = .ok stopped m') : Step b m (.turn i) m' := by
  refine ⟨hi, ?_⟩
  simp only [Act.exec]
  rw [EStateM.run_bind, h]
  rfl

theorem cpuTurn_of_step (i : Nat) {m m' : Machine δ} (h : Step b m (.turn i) m') :
    ∃ stopped, (cpuTurn b i).run m = .ok stopped m' := by
  have hRun := h.2
  simp only [Act.exec] at hRun
  rw [EStateM.run_bind] at hRun
  cases hTurn : (cpuTurn b i).run m with
  | error e t => simp [hTurn] at hRun
  | ok stopped t =>
    rw [hTurn] at hRun
    obtain rfl : t = m' := (EStateM.Result.ok.inj hRun).2
    exact ⟨stopped, rfl⟩

theorem path_of_mapM {l : List Nat} (hl : ∀ i ∈ l, i < b.ncpus) {m m' : Machine δ}
    {stopped : List Bool} (h : (l.mapM (cpuTurn b)).run m = .ok stopped m') :
    ∃ p, Path (Step b) m p m' ∧ p.map Prod.fst = l.map .turn := by
  induction l generalizing m stopped with
  | nil =>
    obtain ⟨-, rfl⟩ : [] = stopped ∧ m = m' := by simpa [List.mapM_nil] using h
    exact ⟨[], .nil m, rfl⟩
  | cons i l ih =>
    rw [List.mapM_cons, EStateM.run_bind] at h
    cases hTurn : (cpuTurn b i).run m with
    | error e t => simp [hTurn] at h
    | ok hit t =>
      rw [hTurn] at h
      dsimp only at h
      rw [EStateM.run_bind] at h
      cases hRest : (l.mapM (cpuTurn b)).run t with
      | error e u => simp [hRest] at h
      | ok hits u =>
        rw [hRest] at h
        obtain ⟨-, rfl⟩ : hit :: hits = stopped ∧ u = m' := by simpa using h
        obtain ⟨p, hPath, hActs⟩ := ih (fun j hj => hl j (by simp [hj])) hRest
        exact ⟨(.turn i, t) :: p, .cons (step_turn (hl i (by simp)) hTurn) hPath, by simp [hActs]⟩

/-- A cycle is a turn of every cpu. -/
theorem path_of_cpuCycle {m m' : Machine δ} {billed : Bool}
    (h : (cpuCycle b).run m = .ok billed m') :
    ∃ p, Path (Step b) m p m' ∧ p.map Prod.fst = (List.range b.ncpus).map .turn := by
  unfold cpuCycle at h
  rw [EStateM.run_bind] at h
  cases hTurns : ((List.range b.ncpus).mapM (cpuTurn b)).run m with
  | error e t => simp [hTurns] at h
  | ok stopped t =>
    rw [hTurns] at h
    obtain ⟨-, rfl⟩ := by simpa using h
    exact path_of_mapM (fun i hi => List.mem_range.mp hi) hTurns

variable (b) in
/-- The acts of a list in order. -/
def runActs : List (Act δ) → M δ Unit
  | [] => pure ()
  | a :: l => do
    a.exec b
    runActs l

theorem path_of_runActs {l : List (Act δ)} (hl : ∀ a ∈ l, a.Valid b) {m m' : Machine δ}
    (h : (runActs b l).run m = .ok () m') : ∃ p, Path (Step b) m p m' ∧ p.map Prod.fst = l := by
  induction l generalizing m with
  | nil =>
    obtain rfl : m = m' := by simpa [runActs] using h
    exact ⟨[], .nil m, rfl⟩
  | cons a l ih =>
    rw [runActs, EStateM.run_bind] at h
    cases hAct : (a.exec b).run m with
    | error e t => simp [hAct] at h
    | ok u t =>
      rw [hAct] at h
      obtain ⟨p, hPath, hActs⟩ := ih (fun a' ha' => hl a' (by simp [ha'])) h
      exact ⟨(a, t) :: p, .cons ⟨hl a (by simp), hAct⟩ hPath, by simp [hActs]⟩

instance (a : Act δ) : Decidable (a.Valid b) :=
  match a with
  | .turn i | .setIrqs i _ _ | .setEntrypoint i _ | .setStack i _ _ =>
    inferInstanceAs (Decidable (i < b.ncpus))
  | .raiseIrq slot | .lowerIrq slot => inferInstanceAs (Decidable (slot < lamebusNslots))
  | .devices _ | .poke _ _ | .debugger _ _ _ _ => inferInstanceAs (Decidable True)

variable (b) in
/-- What can be seen of the state that a list of acts ends in. -/
def seen {α : Type} (l : List (Act δ)) (m : Machine δ) (look : Machine δ → α) : Option α :=
  match (runActs b l).run m with
  | .ok _ m' => some (look m')
  | .error _ _ => none

theorem path_of_seen {α : Type} {l : List (Act δ)} {m : Machine δ} {look : Machine δ → α} {a : α}
    (h : seen b l m look = some a) (hl : ∀ a ∈ l, a.Valid b) :
    ∃ p m', Path (Step b) m p m' ∧ p.map Prod.fst = l ∧ look m' = a := by
  unfold seen at h
  cases hRun : (runActs b l).run m with
  | ok u m' =>
    rw [hRun] at h
    obtain ⟨p, hPath, hActs⟩ := path_of_runActs hl hRun
    exact ⟨p, m', hPath, hActs, Option.some.inj h⟩
  | error e m' => simp [hRun] at h

theorem runActs_append (l l' : List (Act δ)) (m : Machine δ) :
    (runActs b (l ++ l')).run m = match (runActs b l).run m with
      | .ok _ t => (runActs b l').run t
      | .error e t => .error e t := by
  induction l generalizing m with
  | nil => rfl
  | cons a l ih =>
    rw [List.cons_append, runActs, runActs, EStateM.run_bind, EStateM.run_bind]
    cases (a.exec b).run m with
    | ok u t => exact ih t
    | error e t => rfl

/-- What can be seen before and after the last act of a list. -/
theorem step_of_seen {α β : Type} {l : List (Act δ)} {a : Act δ} {m₀ : Machine δ}
    {look : Machine δ → α} {look' : Machine δ → β} {x : α} {y : β}
    (h : seen b l m₀ look = some x) (h' : seen b (l ++ [a]) m₀ look' = some y)
    (hl : ∀ a' ∈ l, a'.Valid b) (ha : a.Valid b) :
    ∃ p m m', Path (Step b) m₀ p m ∧ Step b m a m' ∧ look m = x ∧ look' m' = y := by
  unfold seen at h h'
  cases hRun : (runActs b l).run m₀ with
  | error e m => simp [hRun] at h
  | ok u m =>
    rw [hRun] at h
    rw [runActs_append, hRun] at h'
    dsimp only at h'
    cases hLast : (runActs b [a]).run m with
    | error e m' => simp [hLast] at h'
    | ok u' m' =>
      rw [hLast] at h'
      obtain ⟨p, hPath, -⟩ := path_of_runActs hl hRun
      refine ⟨p, m, m', hPath, ⟨ha, ?_⟩, Option.some.inj h, Option.some.inj h'⟩
      rw [runActs, EStateM.run_bind] at hLast
      cases hAct : (a.exec b).run m with
      | error e t => simp [hAct] at hLast
      | ok v t =>
        rw [hAct] at hLast
        obtain rfl : t = m' := (EStateM.Result.ok.inj hLast).2
        rfl

/-- What a program throws, if anything. -/
def thrown {α : Type} (x : M δ α) (m : Machine δ) : Option Stop :=
  match x.run m with
  | .ok _ _ => none
  | .error e _ => some e

theorem run_of_thrown {α : Type} {x : M δ α} {m : Machine δ} {e : Stop}
    (h : thrown x m = some e) : ∃ m', x.run m = .error e m' := by
  unfold thrown at h
  cases hRun : x.run m with
  | ok _ _ => simp [hRun] at h
  | error e' m' =>
    rw [hRun] at h
    obtain rfl := Option.some.inj h
    exact ⟨m', rfl⟩

/-- What can be seen of what a program comes to, if it comes to its end. -/
def yields {α β : Type} (x : M δ α) (look : α → Machine δ → β) (m : Machine δ) : Option β :=
  match x.run m with
  | .ok a m' => some (look a m')
  | .error _ _ => none

theorem run_of_yields {α β : Type} {x : M δ α} {look : α → Machine δ → β} {m : Machine δ} {y : β}
    (h : yields x look m = some y) : ∃ a m', x.run m = .ok a m' ∧ look a m' = y := by
  unfold yields at h
  cases hRun : x.run m with
  | ok a m' =>
    rw [hRun] at h
    exact ⟨a, m', rfl, Option.some.inj h⟩
  | error e m' => simp [hRun] at h

variable (b) in
/-- The instruction that a cpu executes in its turn, the cpu then, and the machine after the turn. -/
def turned (i : Nat) (m : Machine δ) : Option (Word × Mipscpu × Machine δ) :=
  match (issue b i).run m, ((Act.turn i).exec b).run m with
  | .ok (.insn insn) t, .ok _ m' => some (insn, t.mycpus i, m')
  | _, _ => none

theorem of_turned {i : Nat} {m m' : Machine δ} {insn : Word} {c : Mipscpu} (hi : i < b.ncpus)
    (h : turned b i m = some (insn, c, m')) :
    Step b m (.turn i) m' ∧ ∃ t, (issue b i).run m = .ok (.insn insn) t ∧ t.mycpus i = c := by
  unfold turned at h
  split at h
  · next insn' t u m'' hIssue hTurn =>
    cases h
    exact ⟨⟨hi, hTurn⟩, t, hIssue, rfl⟩
  · cases h

/-- The cpu whose turn it is. -/
def Act.turning : Act δ → Option Nat
  | turn i => some i
  | _ => none

variable (b) in
/-- The instruction that a turn executes, on which cpu, and the machine then. -/
def issued (m : Machine δ) (a : Act δ) : Option (Nat × Word × Machine δ) :=
  a.turning.bind fun i =>
    match (issue b i).run m with
    | .ok (.insn insn) t => some (i, insn, t)
    | _ => none

theorem issued_of_run {i : Nat} {m t : Machine δ} {insn : Word}
    (h : (issue b i).run m = .ok (.insn insn) t) : issued b m (.turn i) = some (i, insn, t) := by
  simp only [issued, Act.turning, Option.bind_some, h]

/-- A cpu that is not running issues nothing. -/
theorem running_of_insn {i : Nat} {m t : Machine δ} {insn : Word}
    (h : (issue b i).run m = .ok (.insn insn) t) : (m.mycpus i).state = .running := by
  have hRunning : After (issue b i)
      (fun is _ => ∀ insn, is = .insn insn → (m.mycpus i).state = .running) (fun _ _ => True) m := by
    unfold issue
    rw [after_bind, after_getCpu]
    split
    · exact nofun
    · rename_i hState
      exact after_of_forall (fun _ _ _ _ => not_not.mp hState) fun _ _ => trivial
  exact after_of_run_ok hRunning h insn rfl

/-! ## Properties kept by a step -/

/-- What holds after an act that comes to its end. -/
theorem step_after {I : Machine δ → Prop} {m m' : Machine δ} {a : Act δ} (hStep : Step b m a m')
    {E : Stop → Machine δ → Prop} (h : After (a.exec b) (fun _ => I) E m) : I m' :=
  after_of_run_ok h hStep.2

/-- A step keeps `I` if the turns do; `hRam` and `hDebugger` say that `I` does not look at main
memory and at the debugger. -/
theorem ExecBlind.step {I : Machine δ → Prop} (h : ExecBlind b I)
    (hRam : ∀ index val m, I m → I { m with ram := Function.update m.ram index val })
    (hDebugger : ∀ cycling stopped lethal ready m, I m → I { m with
      cpuCycling := cycling, stoppedInDebugger := stopped, stopIsLethal := lethal
      gdbReady := ready })
    {m m' : Machine δ} {a : Act δ} (hm : I m)
    (hTurn : ∀ i, a = .turn i → After (cpuTurn b i) (fun _ => I) (fun _ _ => True) m)
    (hStep : Step b m a m') : I m' := by
  cases a with
  | turn i =>
    refine step_after hStep (E := fun _ _ => True) ?_
    simp only [Act.exec, after_bind, after_pure]
    exact hTurn i rfl
  | raiseIrq slot => exact step_after hStep (E := fun _ _ => True) (h.deviceIrq slot true m hm)
  | lowerIrq slot => exact step_after hStep (E := fun _ _ => True) (h.deviceIrq slot false m hm)
  | devices d => exact step_after hStep (E := fun _ _ => True) (h.devices d m hm)
  | setIrqs i lamebus ipi =>
    exact step_after hStep (E := fun _ _ => True) (h.cpuSetIrqs i m lamebus ipi hm)
  | setEntrypoint i addr => exact step_after hStep (h.cpuSetEntrypoint i addr m hm)
  | setStack i stackaddr argument => exact step_after hStep (h.cpuSetStack i stackaddr argument m hm)
  | poke index val => exact step_after hStep (E := fun _ _ => True) (hRam index val m hm)
  | debugger cycling stopped lethal gdbReady =>
    refine step_after hStep (E := fun _ _ => True) ?_
    exact hDebugger cycling stopped lethal gdbReady m hm

theorem BusBlind.step {I : Machine δ → Prop} (h : BusBlind b I)
    (hRam : ∀ index val m, I m → I { m with ram := Function.update m.ram index val })
    (hReady : ∀ ready m, I m → I { m with gdbReady := ready })
    {m m' : Machine δ} {a : Act δ} (hm : I m)
    (hTurn : ∀ i, a = .turn i → After (cpuTurn b i) (fun _ => I) (fun _ _ => True) m)
    (hStep : Step b m a m') : I m' := by
  refine h.execBlind.step hRam (fun cycling stopped lethal ready m hm => ?_) hm hTurn hStep
  exact h.debugger cycling stopped lethal _ (hReady ready m hm)

/-- A step keeps `I` if the instruction that it executes, if any, and the end of a cycle do. -/
theorem BusBlind.step_of_rules {I : Machine δ → Prop} (h : BusBlind b I)
    (hRam : ∀ index val m, I m → I { m with ram := Function.update m.ram index val })
    (hReady : ∀ ready m, I m → I { m with gdbReady := ready })
    (hTick : ∀ i m, I m → I (m.modCpu i Mipscpu.tick))
    {m m' : Machine δ} {a : Act δ} (hm : I m)
    (hRules : ∀ i insn t, a = .turn i → (issue b i).run m = .ok (.insn insn) t →
      Rules b i insn I (fun _ => I))
    (hStep : Step b m a m') : I m' := by
  refine h.step hRam hReady hm (fun i ha => ?_) hStep
  exact h.cpuTurn i (hTick i) m hm fun insn t hIssue ht => (hRules i insn t ha hIssue).execute t ht

end Sys161.Mips
