import Sys161.Clock.WallClock

/-!
# The main loop

`runloop`, `cpu_cycles`, `clock_ticks`, `clock_waitirq` and `tryselect` as one
machine. What the cpus, the devices and the host do in between is open: a cpu
cycle, an event handler or an I/O handler is any list of calls into the clock
and of changes of the running mask.
-/

namespace Sys161.Clock.MainLoop

open Runs WallClock

set_option autoImplicit false

variable {φ δ : Type}

/-! ## Calls made by cpus, devices and I/O handlers -/

inductive Effect (φ δ : Type) where
  | schedule (r : Request φ δ)
  | runningMask (mask : BitVec 32)
  | stopcycling
  | progress
  | setsecs (v : BitVec 32)
  | setnsecs (v : BitVec 32)
  | enterDebugger

def Effect.apply (s : State φ δ) : Effect φ δ → Except String (State φ δ)
  | .schedule r => scheduleEvent s r
  | .runningMask mask => .ok { s with cpuRunningMask := mask }
  | .stopcycling => .ok (cpuStopcycling s)
  | .progress => .ok { s with progress := true }
  | .setsecs v => .ok (clockSetsecs s v)
  | .setnsecs v => .ok (clockSetnsecs s v)
  | .enterDebugger => .ok { s with stoppedInDebugger := true }

def applyEffects (s : State φ δ) : List (Effect φ δ) → Except String (State φ δ)
  | [] => .ok s
  | e :: es => do
    let s ← e.apply s
    applyEffects s es

theorem applyEffects_cons {s s' : State φ δ} {e : Effect φ δ} {es : List (Effect φ δ)}
    (h : applyEffects s (e :: es) = .ok s') :
    ∃ t, e.apply s = .ok t ∧ applyEffects t es = .ok s' := by
  rw [applyEffects] at h
  cases hHead : e.apply s with
  | error msg =>
    rw [hHead] at h
    cases h
  | ok t =>
    rw [hHead] at h
    exact ⟨t, rfl, h⟩

theorem applyEffects_schedule (s : State φ δ) (r : Request φ δ) :
    applyEffects s [.schedule r] = scheduleEvent s r := by
  simp only [applyEffects, Effect.apply]
  cases scheduleEvent s r <;> rfl

/-! ## Pieces of the clock functions -/

def clockNewprogressdeadline (s : State φ δ) : State φ δ :=
  { s with progressDeadline := clockVnow s + s.progressTimeout }

/-- The end of `clock_ticks`, after `check_queue`, with the message it prints. -/
def checkDeadline (s : State φ δ) : State φ δ × Option String :=
  if !s.checkProgress then (s, none)
  else if s.progress then
    ({ clockNewprogressdeadline { s with progress := false } with progressWarned := false }, none)
  else if clockVnow s < s.progressDeadline then (s, none)
  else
    let secs : BitVec 32 := (s.progressTimeout / nsecsPerSec).setWidth 32
    if s.progressWarned then
      ({ clockNewprogressdeadline { s with stoppedInDebugger := true } with
          progressWarned := false },
        some s!"No progress in {secs.toNat * 2} seconds; dropping to debugger")
    else
      ({ clockNewprogressdeadline s with progressWarned := true },
        some s!"Caution: no progress in {secs.toNat} seconds")

/-- How far `vnsecs` is ahead of the host's time of day `(tvSec, tvUsec)`. -/
def clockVahead (s : State φ δ) (vnow vnsecs tvSec tvUsec : BitVec 64) : BitVec 64 :=
  if tvSec.slt (s.startSecs.setWidth 64) then 0
  else
    let pnsecs := (tvSec - s.startSecs.setWidth 64) * nsecsPerSec + tvUsec * 1000
    let pnsecs := pnsecs - s.startNsecs.setWidth 64
    if vnsecs ≤ pnsecs then 0
    else if vnow ≤ pnsecs then vnsecs - pnsecs
    else vnsecs - vnow

/-- What a call of `tryselect` is for: a poll by the main loop, or a wait of `clock_waitirq`. -/
inductive Plan where
  | poll
  | block
  | sleep (wnsecs : BitVec 64)
  | jump (nsecs : BitVec 64)

/-- How `clock_waitirq` decides to wait. -/
def waitPlan (s : State φ δ) (tvSec tvUsec : BitVec 64) : Plan :=
  match s.queuehead with
  | none => .block
  | some ta =>
    let vnow := clockVnow s
    let wnsecs := clockVahead s vnow (s.vtime ta) tvSec tvUsec
    if wnsecs > 10000000 then .sleep wnsecs else .jump (s.vtime ta - vnow)

/-- The `sleptnsecs` that `clock_waitirq` goes on with after `tryselect` returns `slept`. -/
def Plan.slept (plan : Plan) (slept : BitVec 64) : BitVec 64 :=
  match plan with
  | .poll | .block => slept
  | .sleep wnsecs => if slept > wnsecs then wnsecs else slept
  | .jump nsecs => nsecs

/-- `clock_waitirq` after its sleep, up to `check_queue`. -/
def waitAdvance (s : State φ δ) (sleptnsecs : BitVec 64) : State φ δ :=
  let tmp := sleptnsecs + s.idleslop.setWidth 64
  let sleptnsecs := sleptnsecs + s.idleslop.setWidth 64
  clockVadvance
    { s with
      totIcycles := s.totIcycles + tmp / nsecsPerClock
      idleslop := (tmp % nsecsPerClock).setWidth 32 } sleptnsecs

/-- `clock_ticks` up to `check_queue`. -/
def ticksAdvance (s : State φ δ) (nticks : BitVec 64) : State φ δ :=
  clockVadvance { s with totRcycles := s.totRcycles + nticks } (nticks * nsecsPerClock)

/-- The count of `cpu_cycles` after `cpu_cycle` has returned `ok`. -/
def cyclesCount (s : State φ δ) (ok : Bool) (i : BitVec 64) : BitVec 64 × State φ δ :=
  if ok then (i + 1, { s with cpuCyclesCount := i + 1 }) else (i, s)

/-- With every cpu idle nothing occurs until `maxcycles`. -/
def cyclesSkip (s : State φ δ) (i maxcycles : BitVec 64) : BitVec 64 × State φ δ :=
  if s.cpuRunningMask = 0 ∧ s.cpuCycling then
    (maxcycles, { s with totIcycles := s.totIcycles + (maxcycles - i) })
  else (i, s)

/-- The end of one turn of `cpu_cycles`. -/
def cyclesTurn (s : State φ δ) (ok : Bool) (i maxcycles : BitVec 64) : BitVec 64 × State φ δ :=
  let c := cyclesCount s ok i
  cyclesSkip c.2 c.1 maxcycles

/-! ## The machine -/

/-- Who called `cpu_cycles` and `clock_ticks`: the main loop, or a single step from the
debugger inside `tryselect`. -/
inductive Caller where
  | runloop
  | select (plan : Plan) (slept : BitVec 64)

inductive Phase where
  | top
  | cycles (caller : Caller) (i maxcycles : BitVec 64)
  | ticks (caller : Caller) (nticks : BitVec 64)
  | queue (caller : Option Caller) (vnow : BitVec 64)
  | handler (caller : Option Caller) (vnow : BitVec 64) (ta : Slot)
  | waitirq
  | waiting (plan : Plan)
  | selected (plan : Plan) (slept : BitVec 64)

def Caller.back : Caller → Phase
  | .runloop => .top
  | .select plan slept => .selected plan slept

structure Machine (φ δ : Type) where
  clock : State φ δ
  phase : Phase

inductive Label (φ δ : Type) where
  | io (effects : List (Effect φ δ))
  | run (maxcycles : BitVec 32)
  | onecycle
  | cycle (ok : Bool) (effects : List (Effect φ δ))
  | endCycles
  | ticks
  | dispatch
  | handler (effects : List (Effect φ δ))
  | leave
  | waitirq
  | wait (tvSec tvUsec : BitVec 64)
  | woken
  | poll
  | select (slept : BitVec 64)
  | slept

inductive Step : Machine φ δ → Label φ δ → Machine φ δ → Prop where
  /-- Start-up code and I/O handlers that run outside of any sleep. -/
  | io {s s' : State φ δ} {effects : List (Effect φ δ)} :
      applyEffects s effects = .ok s' → Step ⟨s, .top⟩ (.io effects) ⟨s', .top⟩
  | ioSelected {s s' : State φ δ} {plan : Plan} {slept : BitVec 64}
      {effects : List (Effect φ δ)} : applyEffects s effects = .ok s' →
      Step ⟨s, .selected plan slept⟩ (.io effects) ⟨s', .selected plan slept⟩
  /-- The main loop runs for what `clock_getrunticks` says, or less if its rotor is due. -/
  | run {s : State φ δ} {maxcycles : BitVec 32} : maxcycles ≤ (clockGetrunticks s).1 →
      Step ⟨s, .top⟩ (.run maxcycles)
        ⟨{ (clockGetrunticks s).2 with cpuCycling := true },
          .cycles .runloop 0 (maxcycles.setWidth 64)⟩
  | onecycle {s : State φ δ} {plan : Plan} {slept : BitVec 64} :
      Step ⟨s, .selected plan slept⟩ .onecycle
        ⟨{ s with cpuCycling := true }, .cycles (.select plan slept) 0 1⟩
  | cycle {s s' : State φ δ} {caller : Caller} {i maxcycles : BitVec 64} {ok : Bool}
      {effects : List (Effect φ δ)} : i < maxcycles → s.cpuCycling = true →
      applyEffects s effects = .ok s' →
      Step ⟨s, .cycles caller i maxcycles⟩ (.cycle ok effects)
        ⟨(cyclesTurn s' ok i maxcycles).2,
          .cycles caller (cyclesTurn s' ok i maxcycles).1 maxcycles⟩
  | endCycles {s : State φ δ} {caller : Caller} {i maxcycles : BitVec 64} :
      ¬ (i < maxcycles ∧ s.cpuCycling = true) →
      Step ⟨s, .cycles caller i maxcycles⟩ .endCycles
        ⟨{ s with cpuCyclesCount := 0 }, .ticks caller i⟩
  | ticks {s : State φ δ} {caller : Caller} {nticks : BitVec 64} :
      Step ⟨s, .ticks caller nticks⟩ .ticks
        ⟨ticksAdvance s nticks, .queue (some caller) (clockVnow (ticksAdvance s nticks))⟩
  | dispatch {s s' : State φ δ} {caller : Option Caller} {vnow : BitVec 64} {ta : Slot} :
      popDue s vnow = some (ta, s') →
      Step ⟨s, .queue caller vnow⟩ .dispatch ⟨s', .handler caller vnow ta⟩
  | handler {s s' : State φ δ} {caller : Option Caller} {vnow : BitVec 64} {ta : Slot}
      {effects : List (Effect φ δ)} : applyEffects s effects = .ok s' →
      Step ⟨s, .handler caller vnow ta⟩ (.handler effects) ⟨acfree s' ta, .queue caller vnow⟩
  | leaveTicks {s : State φ δ} {caller : Caller} {vnow : BitVec 64} : popDue s vnow = none →
      Step ⟨s, .queue (some caller) vnow⟩ .leave ⟨(checkDeadline s).1, caller.back⟩
  | leaveWait {s : State φ δ} {vnow : BitVec 64} : popDue s vnow = none →
      Step ⟨s, .queue none vnow⟩ .leave ⟨s, .waitirq⟩
  | waitirq {s : State φ δ} : Step ⟨s, .top⟩ .waitirq ⟨s, .waitirq⟩
  | wait {s : State φ δ} {tvSec tvUsec : BitVec 64} : s.cpuRunningMask = 0 →
      Step ⟨s, .waitirq⟩ (.wait tvSec tvUsec) ⟨s, .waiting (waitPlan s tvSec tvUsec)⟩
  | woken {s : State φ δ} : s.cpuRunningMask ≠ 0 → Step ⟨s, .waitirq⟩ .woken ⟨s, .top⟩
  | poll {s : State φ δ} : Step ⟨s, .top⟩ .poll ⟨s, .waiting .poll⟩
  | select {s : State φ δ} {plan : Plan} {slept : BitVec 64} :
      (∀ nsecs, plan = .jump nsecs → slept = 0) →
      Step ⟨s, .waiting plan⟩ (.select slept)
        ⟨{ s with extraSelecttime := slept }, .selected plan slept⟩
  | polled {s : State φ δ} {slept : BitVec 64} :
      Step ⟨s, .selected .poll slept⟩ .slept ⟨{ s with extraSelecttime := 0 }, .top⟩
  | slept {s : State φ δ} {plan : Plan} {slept : BitVec 64} : plan ≠ .poll →
      Step ⟨s, .selected plan slept⟩ .slept
        ⟨waitAdvance { s with extraSelecttime := 0 } (plan.slept slept),
          .queue none
            (clockVnow (waitAdvance { s with extraSelecttime := 0 } (plan.slept slept)))⟩

/-- The machine after `clock_init`. -/
def start (tvSec : BitVec 32) (offset : BitVec 64) : Machine φ δ :=
  ⟨clockInit tvSec offset, .top⟩

/-! ## The steps as a function -/

/-- What a step leads to, where it can be made. -/
def Machine.next (m : Machine φ δ) (l : Label φ δ) : Option (Machine φ δ) :=
  let s := m.clock
  match m.phase, l with
  | .top, .io effects => (applyEffects s effects).toOption.map (⟨·, .top⟩)
  | .selected plan slept, .io effects =>
    (applyEffects s effects).toOption.map (⟨·, .selected plan slept⟩)
  | .top, .run maxcycles =>
    if maxcycles ≤ (clockGetrunticks s).1 then
      some ⟨{ (clockGetrunticks s).2 with cpuCycling := true },
        .cycles .runloop 0 (maxcycles.setWidth 64)⟩
    else none
  | .selected plan slept, .onecycle =>
    some ⟨{ s with cpuCycling := true }, .cycles (.select plan slept) 0 1⟩
  | .cycles caller i maxcycles, .cycle ok effects =>
    if i < maxcycles ∧ s.cpuCycling = true then
      (applyEffects s effects).toOption.map fun s' =>
        ⟨(cyclesTurn s' ok i maxcycles).2, .cycles caller (cyclesTurn s' ok i maxcycles).1 maxcycles⟩
    else none
  | .cycles caller i maxcycles, .endCycles =>
    if i < maxcycles ∧ s.cpuCycling = true then none
    else some ⟨{ s with cpuCyclesCount := 0 }, .ticks caller i⟩
  | .ticks caller nticks, .ticks =>
    some ⟨ticksAdvance s nticks, .queue (some caller) (clockVnow (ticksAdvance s nticks))⟩
  | .queue caller vnow, .dispatch =>
    (popDue s vnow).map fun x => ⟨x.2, .handler caller vnow x.1⟩
  | .handler caller vnow ta, .handler effects =>
    (applyEffects s effects).toOption.map fun s' => ⟨acfree s' ta, .queue caller vnow⟩
  | .queue caller vnow, .leave =>
    if (popDue s vnow).isSome then none
    else
      match caller with
      | some caller => some ⟨(checkDeadline s).1, caller.back⟩
      | none => some ⟨s, .waitirq⟩
  | .top, .waitirq => some ⟨s, .waitirq⟩
  | .waitirq, .wait tvSec tvUsec =>
    if s.cpuRunningMask = 0 then some ⟨s, .waiting (waitPlan s tvSec tvUsec)⟩ else none
  | .waitirq, .woken => if s.cpuRunningMask = 0 then none else some ⟨s, .top⟩
  | .top, .poll => some ⟨s, .waiting .poll⟩
  | .waiting (.jump nsecs), .select slept =>
    if slept = 0 then some ⟨{ s with extraSelecttime := slept }, .selected (.jump nsecs) slept⟩
    else none
  | .waiting plan, .select slept => some ⟨{ s with extraSelecttime := slept }, .selected plan slept⟩
  | .selected .poll _, .slept => some ⟨{ s with extraSelecttime := 0 }, .top⟩
  | .selected plan slept, .slept =>
    let s' := waitAdvance { s with extraSelecttime := 0 } (plan.slept slept)
    some ⟨s', .queue none (clockVnow s')⟩
  | _, _ => none

theorem toOption_map_eq_some {α β : Type} {x : Except String α} {f : α → β} {y : β}
    (h : x.toOption.map f = some y) : ∃ a, x = .ok a ∧ f a = y := by
  cases x with
  | error e => cases h
  | ok a => exact ⟨a, rfl, Option.some.inj h⟩

theorem step_of_next {m m' : Machine φ δ} {l : Label φ δ} (h : m.next l = some m') : Step m l m' := by
  obtain ⟨s, phase⟩ := m
  unfold Machine.next at h
  dsimp only at h
  split at h
  case h_1 =>
    obtain ⟨s', hOk, rfl⟩ := toOption_map_eq_some h
    exact .io hOk
  case h_2 =>
    obtain ⟨s', hOk, rfl⟩ := toOption_map_eq_some h
    exact .ioSelected hOk
  case h_3 =>
    obtain ⟨hLe, rfl⟩ := by simpa using h
    exact .run hLe
  case h_4 => cases h; exact .onecycle
  case h_5 =>
    split at h
    · next hOn =>
      obtain ⟨s', hOk, rfl⟩ := toOption_map_eq_some h
      exact .cycle hOn.1 hOn.2 hOk
    · cases h
  case h_6 =>
    split at h
    · cases h
    · next hOff => cases h; exact .endCycles hOff
  case h_7 => cases h; exact .ticks
  case h_8 =>
    obtain ⟨x, hPop, rfl⟩ := Option.map_eq_some_iff.mp h
    exact .dispatch hPop
  case h_9 =>
    obtain ⟨s', hOk, rfl⟩ := toOption_map_eq_some h
    exact .handler hOk
  case h_10 =>
    split at h
    · cases h
    · next hNone =>
      have hPop := Option.not_isSome_iff_eq_none.mp hNone
      split at h <;> cases h
      · exact .leaveTicks hPop
      · exact .leaveWait hPop
  case h_11 => cases h; exact .waitirq
  case h_12 =>
    obtain ⟨hMask, rfl⟩ := by simpa using h
    exact .wait hMask
  case h_13 =>
    obtain ⟨hMask, rfl⟩ := by simpa using h
    exact .woken hMask
  case h_14 => cases h; exact .poll
  case h_15 =>
    obtain ⟨rfl, rfl⟩ := by simpa using h
    exact .select fun _ _ => rfl
  case h_16 plan _ hJump => 
    cases h
    exact .select fun nsecs hn => absurd hn (hJump nsecs)
  case h_17 => cases h; exact .polled
  case h_18 plan _ hPoll => cases h; exact .slept hPoll
  case h_19 => cases h

theorem next_of_step {m m' : Machine φ δ} {l : Label φ δ} (h : Step m l m') : m.next l = some m' := by
  cases h with
  | io hOk | ioSelected hOk | handler hOk => simp [Machine.next, hOk, Except.toOption]
  | run hLe => simp [Machine.next, hLe]
  | cycle hLt hOn hOk => simp [Machine.next, hLt, hOn, hOk, Except.toOption]
  | endCycles hOff => simp only [Machine.next, if_neg hOff]
  | dispatch hPop | leaveTicks hPop | leaveWait hPop => simp [Machine.next, hPop]
  | wait hMask => simp [Machine.next, hMask]
  | woken hMask => simp only [Machine.next, if_neg hMask]
  | @select s plan slept hJump =>
    cases plan with
    | jump nsecs => simp [Machine.next, hJump nsecs rfl]
    | _ => rfl
  | @slept s plan slept hPoll =>
    cases plan with
    | poll => exact absurd rfl hPoll
    | _ => rfl
  | _ => rfl

theorem step_iff {m m' : Machine φ δ} {l : Label φ δ} : Step m l m' ↔ m.next l = some m' :=
  ⟨next_of_step, step_of_next⟩

/-- A step as a program. -/
def act (l : Label φ δ) : EStateM Unit (Machine φ δ) Unit := fun m =>
  match m.next l with
  | some m' => .ok () m'
  | none => .error () m

theorem step_of_act {m m' : Machine φ δ} {l : Label φ δ} (h : (act l).run m = .ok () m') :
    Step m l m' := by
  simp only [act, EStateM.run] at h
  split at h
  · next hNext =>
    cases h
    exact step_iff.mpr hNext
  · cases h

end Sys161.Clock.MainLoop
