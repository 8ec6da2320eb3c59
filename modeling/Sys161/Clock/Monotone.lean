import Sys161.Clock.Timeliness

/-!
# What observers see of virtual time

Cpus, event handlers and I/O handlers read the present time. An I/O handler that is
called by `tryselect` sees the time it has slept added to it, of which less may be
kept afterwards.
-/

namespace Sys161.Clock.Monotone

open Runs MainLoop Timeliness

set_option autoImplicit false

variable {φ δ : Type}

/-- The call of `tryselect` that a phase is inside of, once it has slept. -/
def select : Phase → Option (Plan × BitVec 64)
  | .selected plan slept | .cycles (.select plan slept) _ _ | .ticks (.select plan slept) _ |
    .queue (some (.select plan slept)) _ | .handler (some (.select plan slept)) _ _ =>
    some (plan, slept)
  | _ => none

/-- The cycles that have been run and are not in `virtual_now` yet. -/
def cyclesDone : Phase → Nat
  | .cycles _ i _ => i.toNat
  | .ticks _ nticks => nticks.toNat
  | _ => 0

/-- What is added to virtual time after a sleep. -/
def kept (idleslop : BitVec 32) : Plan × BitVec 64 → Nat
  | (.poll, _) => 0
  | (plan, slept) => (plan.slept slept).toNat + idleslop.toNat

section Machine

variable (m : Machine φ δ)

/-- Virtual time without any sleep that is being measured. -/
def base : Nat := m.clock.virtualNow.toNat + 40 * cyclesDone m.phase

/-- What every later observer sees at least. -/
def floor : Nat :=
  base m + ((select m.phase).map fun sel => min sel.2.toNat (kept m.clock.idleslop sel)).getD 0

/-- What the clock may come to before it is used again. -/
def peak : Nat :=
  base m + ((select m.phase).map fun sel => max sel.2.toNat (kept m.clock.idleslop sel)).getD 0

/-- No more has been slept than will be kept. -/
def Honest : Prop := ∀ sel, select m.phase = some sel → sel.2.toNat ≤ kept m.clock.idleslop sel

/-- In a `tryselect` of the debugger, or a poll of the main loop. -/
def Polling : Prop := m.phase = .waiting .poll ∨ ∃ slept, select m.phase = some (.poll, slept)

end Machine

/-- Code of a cpu or a device runs in the step, and may read the time. -/
def observes : Label φ δ → Bool
  | .io _ | .cycle _ _ | .handler _ => true
  | _ => false

/-- The times read along a run. -/
def observed : Machine φ δ → List (Label φ δ × Machine φ δ) → List Nat
  | _, [] => []
  | m, (l, m') :: p =>
    if observes l then (clockVnow m.clock).toNat :: observed m' p else observed m' p

/-- Where an observer reads the time, all that has been slept will be kept; and virtual
time does not come to its limit. -/
def Kept (m : Machine φ δ) (l : Label φ δ) (m' : Machine φ δ) : Prop :=
  (observes l = true → Honest m) ∧ peak m' < 2 ^ 64

/-- The cycles that a step completes. -/
def stepped (m m' : Machine φ δ) : Label φ δ → Nat
  | .cycle _ _ => cyclesDone m'.phase - cyclesDone m.phase
  | _ => 0

/-- In the debugger, time is that of the cycles that have been stepped. -/
def Steady (m : Machine φ δ) (l : Label φ δ) (m' : Machine φ δ) : Prop :=
  Polling m → (observes l = true → (clockVnow m.clock).toNat = base m) ∧
    base m' = base m + 40 * stepped m m' l

/-! ## The words of the clock -/

/-- The count of a run of the cpus is that of its cycles until they are skipped. -/
def Counted : Phase → BitVec 64 → Prop
  | .cycles _ i maxcycles, count => i ≤ maxcycles ∧ (i < maxcycles → count = i)
  | _, count => count = 0

/-- Where the present time is, in each phase. -/
structure Timed (m : Machine φ δ) : Prop where
  extra : m.clock.extraSelecttime = ((select m.phase).map Prod.snd).getD 0
  count : Counted m.phase m.clock.cpuCyclesCount

/-- The words that a step leaves alone while it is somewhere else in the same call. -/
structure SameWords (s s' : State φ δ) : Prop where
  virtualNow : s'.virtualNow = s.virtualNow
  idleslop : s'.idleslop = s.idleslop
  cpuCyclesCount : s'.cpuCyclesCount = s.cpuCyclesCount
  extraSelecttime : s'.extraSelecttime = s.extraSelecttime

theorem SameWords.of_sameClock {s s' : State φ δ} (h : SameClock s s') : SameWords s s' :=
  ⟨h.virtualNow, h.idleslop, h.cpuCyclesCount, h.extraSelecttime⟩

theorem SameWords.of_effects {s s' : State φ δ} {es : List (Effect φ δ)}
    (h : applyEffects s es = .ok s') : SameWords s s' where
  virtualNow := (applyEffects_sameTime h).virtualNow
  idleslop := (Accounting.applyEffects_sameAccounts h).idleslop
  cpuCyclesCount := (applyEffects_sameTime h).cpuCyclesCount
  extraSelecttime := (applyEffects_sameTime h).extraSelecttime

theorem SameWords.trans {s t u : State φ δ} (h : SameWords s t) (h' : SameWords t u) :
    SameWords s u where
  virtualNow := h'.virtualNow.trans h.virtualNow
  idleslop := h'.idleslop.trans h.idleslop
  cpuCyclesCount := h'.cpuCyclesCount.trans h.cpuCyclesCount
  extraSelecttime := h'.extraSelecttime.trans h.extraSelecttime

theorem clockGetrunticks_sameWords (s : State φ δ) : SameWords s (clockGetrunticks s).2 := by
  rw [clockGetrunticks]
  split
  · exact ⟨rfl, rfl, rfl, rfl⟩
  · dsimp only
    split
    · exact ⟨rfl, rfl, rfl, rfl⟩
    · split <;> exact ⟨rfl, rfl, rfl, rfl⟩

theorem checkDeadline_sameWords (s : State φ δ) : SameWords s (checkDeadline s).1 where
  virtualNow := (checkDeadline_frame s).2.2.2.virtualNow
  idleslop := (Accounting.checkDeadline_sameAccounts s).idleslop
  cpuCyclesCount := (checkDeadline_frame s).2.2.2.cpuCyclesCount
  extraSelecttime := (checkDeadline_frame s).2.2.2.extraSelecttime

/-- A step that leaves the words alone keeps the floor. -/
structure Quiet (m m' : Machine φ δ) : Prop where
  words : SameWords m.clock m'.clock
  select : select m'.phase = select m.phase
  cycles : cyclesDone m'.phase = cyclesDone m.phase

namespace Quiet

variable {m m' : Machine φ δ} (h : Quiet m m')

include h

theorem base_eq : base m' = base m := by rw [base, base, h.words.virtualNow, h.cycles]

theorem floor_eq : floor m' = floor m := by
  rw [floor, floor, h.base_eq, h.select, h.words.idleslop]

theorem timed (hm : Timed m) (hCount : Counted m'.phase m.clock.cpuCyclesCount) : Timed m' := by
  constructor
  · rw [h.words.extraSelecttime, h.select]
    exact hm.extra
  · rw [h.words.cpuCyclesCount]
    exact hCount

end Quiet

/-- What each step keeps: the words where they are, and the floor below the time. -/
structure Rises (m m' : Machine φ δ) : Prop where
  timed : Timed m'
  floor : floor m ≤ floor m'

theorem Quiet.rises {m m' : Machine φ δ} (h : Quiet m m') (hm : Timed m)
    (hCount : Counted m'.phase m.clock.cpuCyclesCount) : Rises m m' :=
  ⟨h.timed hm hCount, Nat.le_of_eq h.floor_eq.symm⟩

theorem select_queue (caller : Option Caller) (vnow : BitVec 64) (ta : Slot) :
    select (.handler caller vnow ta) = select (.queue caller vnow) := by
  rcases caller with _ | (_ | _) <;> rfl

theorem select_ticks (caller : Caller) (i maxcycles : BitVec 64) :
    select (.ticks caller i) = select (.cycles caller i maxcycles) := by
  cases caller <;> rfl

theorem floor_le_of_base {m m' : Machine φ δ} (hSelect : select m'.phase = select m.phase)
    (hSlop : m'.clock.idleslop = m.clock.idleslop) (hBase : base m ≤ base m') :
    floor m ≤ floor m' := by
  rw [floor, floor, hSelect, hSlop]
  exact Nat.add_le_add_right hBase _

theorem cyclesTurn_cases (s : State φ δ) (ok : Bool) (i maxcycles : BitVec 64) :
    (cyclesTurn s ok i maxcycles).1 = maxcycles ∨
      (cyclesTurn s ok i maxcycles).1 = i + 1 ∧
        (cyclesTurn s ok i maxcycles).2.cpuCyclesCount = i + 1 ∨
      (cyclesTurn s ok i maxcycles).1 = i ∧
        (cyclesTurn s ok i maxcycles).2.cpuCyclesCount = s.cpuCyclesCount := by
  rw [cyclesTurn, cyclesSkip]
  split
  · exact .inl rfl
  · cases ok with
    | true => exact .inr (.inl ⟨rfl, rfl⟩)
    | false => exact .inr (.inr ⟨rfl, rfl⟩)

theorem cyclesTurn_words (s : State φ δ) (ok : Bool) (i maxcycles : BitVec 64) :
    (cyclesTurn s ok i maxcycles).2.virtualNow = s.virtualNow ∧
      (cyclesTurn s ok i maxcycles).2.idleslop = s.idleslop ∧
      (cyclesTurn s ok i maxcycles).2.extraSelecttime = s.extraSelecttime := by
  rw [cyclesTurn, cyclesSkip]
  cases ok with
  | true => split <;> exact ⟨rfl, rfl, rfl⟩
  | false => split <;> exact ⟨rfl, rfl, rfl⟩

theorem base_cycle {s s' : State φ δ} {caller : Caller} {i maxcycles : BitVec 64} {ok : Bool}
    (hLt : i < maxcycles) (hNow : s'.virtualNow = s.virtualNow) :
    base ⟨(cyclesTurn s' ok i maxcycles).2,
        .cycles caller (cyclesTurn s' ok i maxcycles).1 maxcycles⟩ =
      base (⟨s, .cycles caller i maxcycles⟩ : Machine φ δ) +
        40 * ((cyclesTurn s' ok i maxcycles).1.toNat - i.toNat) := by
  have hNow' := congrArg BitVec.toNat ((cyclesTurn_words s' ok i maxcycles).1.trans hNow)
  have hOn := BitVec.lt_def.mp hLt
  have hSucc : (i + 1).toNat = i.toNat + 1 := by bv_omega
  have hCycles : i.toNat ≤ (cyclesTurn s' ok i maxcycles).1.toNat := by
    rcases cyclesTurn_cases s' ok i maxcycles with hEnd | ⟨hNext, _⟩ | ⟨hSame, _⟩
    · rw [hEnd]
      exact Nat.le_of_lt hOn
    · rw [hNext, hSucc]
      exact Nat.le_succ _
    · rw [hSame]
  simp only [base, cyclesDone]
  omega

theorem rises_cycle {s s' : State φ δ} {caller : Caller} {i maxcycles : BitVec 64} {ok : Bool}
    (hm : Timed ⟨s, .cycles caller i maxcycles⟩) (hLt : i < maxcycles) (hWords : SameWords s s') :
    Rises ⟨s, .cycles caller i maxcycles⟩ ⟨(cyclesTurn s' ok i maxcycles).2,
      .cycles caller (cyclesTurn s' ok i maxcycles).1 maxcycles⟩ := by
  have hLe : (cyclesTurn s' ok i maxcycles).1 ≤ maxcycles := Accounting.cyclesTurn_le hLt
  have hTurn := cyclesTurn_cases s' ok i maxcycles
  obtain ⟨_, hSlop, hExtra⟩ := cyclesTurn_words s' ok i maxcycles
  have hSelect : select (.cycles caller (cyclesTurn s' ok i maxcycles).1 maxcycles) =
      select (.cycles caller i maxcycles) := by cases caller <;> rfl
  constructor
  · constructor
    · rw [hSelect]
      exact hExtra.trans (hWords.extraSelecttime.trans hm.extra)
    · refine ⟨hLe, fun hMore => ?_⟩
      rcases hTurn with hEnd | ⟨hNext, hCount⟩ | ⟨hSame, hCount⟩
      · rw [hEnd] at hMore
        exact absurd hMore (BitVec.lt_irrefl _)
      · exact hCount.trans hNext.symm
      · exact hCount.trans ((hWords.cpuCyclesCount.trans (hm.count.2 hLt)).trans hSame.symm)
  · apply floor_le_of_base hSelect (hSlop.trans hWords.idleslop)
    rw [base_cycle hLt hWords.virtualNow]
    exact Nat.le_add_right _ _

theorem base_ticks {s : State φ δ} {caller : Caller} {nticks vnow : BitVec 64}
    (hPeak : peak (⟨s, .ticks caller nticks⟩ : Machine φ δ) < 2 ^ 64) :
    base ⟨ticksAdvance s nticks, .queue (some caller) vnow⟩ =
      base (⟨s, .ticks caller nticks⟩ : Machine φ δ) := by
  have hBase : s.virtualNow.toNat + 40 * nticks.toNat < 2 ^ 64 :=
    Nat.lt_of_le_of_lt (Nat.le_add_right _ _) hPeak
  simp only [base, cyclesDone, ticksAdvance, clockVadvance, BitVec.toNat_add, BitVec.toNat_mul,
    nsecsPerClock_toNat]
  omega

theorem base_slept {s : State φ δ} {plan : Plan} {slept : BitVec 64} (vnow : BitVec 64)
    (hPlan : plan ≠ .poll)
    (hPeak : peak (⟨s, .selected plan slept⟩ : Machine φ δ) < 2 ^ 64) :
    base ⟨waitAdvance { s with extraSelecttime := 0 } (plan.slept slept), .queue none vnow⟩ =
      base (⟨s, .selected plan slept⟩ : Machine φ δ) + kept s.idleslop (plan, slept) := by
  have hKept : kept s.idleslop (plan, slept) = (plan.slept slept).toNat + s.idleslop.toNat := by
    cases plan with
    | poll => exact absurd rfl hPlan
    | _ => rfl
  have hSum : s.virtualNow.toNat + kept s.idleslop (plan, slept) < 2 ^ 64 := by
    apply Nat.lt_of_le_of_lt _ hPeak
    exact Nat.add_le_add_left (Nat.le_max_right _ _) _
  have hSlop : (s.idleslop.setWidth 64).toNat = s.idleslop.toNat := by
    rw [BitVec.toNat_setWidth]
    have hLt := s.idleslop.isLt
    omega
  rw [hKept] at hSum ⊢
  simp only [base, cyclesDone, waitAdvance, clockVadvance, BitVec.toNat_add, hSlop]
  omega

theorem Rises.always {m m' : Machine φ δ} (h : Rises m m') :
    Timed m' ∧ (peak m < 2 ^ 64 → Rises m m') := ⟨h.timed, fun _ => h⟩

/-- Below its limit virtual time does not fall; the words are where they are in any case. -/
theorem rises_of_peak {m m' : Machine φ δ} {l : Label φ δ} (hm : Timed m) (hStep : Step m l m') :
    Timed m' ∧ (peak m < 2 ^ 64 → Rises m m') := by
  cases hStep with
  | io hOk => exact Rises.always <| Quiet.rises ⟨.of_effects hOk, rfl, rfl⟩ hm hm.count
  | ioSelected hOk => exact Rises.always <| Quiet.rises ⟨.of_effects hOk, rfl, rfl⟩ hm hm.count
  | @run s maxcycles hMax =>
    have hWords := clockGetrunticks_sameWords s
    refine Rises.always <| Quiet.rises ⟨⟨hWords.virtualNow, hWords.idleslop,
      hWords.cpuCyclesCount, hWords.extraSelecttime⟩, rfl, rfl⟩ hm ?_
    constructor
    · exact BitVec.le_def.mpr (Nat.zero_le _)
    · exact fun _ => hm.count
  | onecycle =>
    refine Rises.always <| Quiet.rises ⟨⟨rfl, rfl, rfl, rfl⟩, rfl, rfl⟩ hm ?_
    constructor
    · decide
    · exact fun _ => hm.count
  | cycle hLt hOn hOk => exact Rises.always <| rises_cycle hm hLt (.of_effects hOk)
  | @endCycles s caller i maxcycles hEnd =>
    apply Rises.always
    constructor
    · constructor
      · rw [select_ticks caller i maxcycles]
        exact hm.extra
      · rfl
    · exact floor_le_of_base (select_ticks caller i maxcycles) rfl (Nat.le_refl _)
  | @ticks s caller nticks =>
    have hSelect : select (.queue (some caller) (clockVnow (ticksAdvance s nticks))) =
        select (.ticks caller nticks) := by cases caller <;> rfl
    have hTimed : Timed ⟨ticksAdvance s nticks,
        .queue (some caller) (clockVnow (ticksAdvance s nticks))⟩ := by
      constructor
      · rw [hSelect]
        exact hm.extra
      · exact hm.count
    refine ⟨hTimed, fun hPeak => ⟨hTimed, ?_⟩⟩
    exact floor_le_of_base hSelect rfl (Nat.le_of_eq (base_ticks hPeak).symm)
  | @dispatch s s' caller vnow ta hPop =>
    exact Rises.always <| Quiet.rises
      ⟨.of_sameClock (popDue_sameClock hPop), select_queue caller vnow ta, rfl⟩ hm hm.count
  | @handler s s' caller vnow ta effects hOk =>
    have hWords := (SameWords.of_effects hOk).trans (.of_sameClock (acfree_sameClock s' ta))
    exact Rises.always <| Quiet.rises ⟨hWords, (select_queue caller vnow ta).symm, rfl⟩ hm hm.count
  | @leaveTicks s caller vnow hPop =>
    have hWords := checkDeadline_sameWords s
    cases caller with
    | runloop => exact Rises.always <| Quiet.rises ⟨hWords, rfl, rfl⟩ hm hm.count
    | select plan slept => exact Rises.always <| Quiet.rises ⟨hWords, rfl, rfl⟩ hm hm.count
  | leaveWait hPop => exact Rises.always <| Quiet.rises ⟨⟨rfl, rfl, rfl, rfl⟩, rfl, rfl⟩ hm hm.count
  | waitirq => exact Rises.always <| Quiet.rises ⟨⟨rfl, rfl, rfl, rfl⟩, rfl, rfl⟩ hm hm.count
  | wait hMask => exact Rises.always <| Quiet.rises ⟨⟨rfl, rfl, rfl, rfl⟩, rfl, rfl⟩ hm hm.count
  | woken hMask => exact Rises.always <| Quiet.rises ⟨⟨rfl, rfl, rfl, rfl⟩, rfl, rfl⟩ hm hm.count
  | poll => exact Rises.always <| Quiet.rises ⟨⟨rfl, rfl, rfl, rfl⟩, rfl, rfl⟩ hm hm.count
  | select hJump =>
    apply Rises.always
    constructor
    · exact ⟨rfl, hm.count⟩
    · exact Nat.le_add_right _ _
  | polled =>
    apply Rises.always
    constructor
    · exact ⟨rfl, hm.count⟩
    · exact Nat.le_of_eq (congrArg (_ + ·) (Nat.min_zero _))
  | @slept s plan slept hPlan =>
    have hTimed : Timed ⟨waitAdvance { s with extraSelecttime := 0 } (plan.slept slept),
        .queue none
          (clockVnow (waitAdvance { s with extraSelecttime := 0 } (plan.slept slept)))⟩ :=
      ⟨rfl, hm.count⟩
    refine ⟨hTimed, fun hPeak => ⟨hTimed, ?_⟩⟩
    have hBase := base_slept (clockVnow (waitAdvance { s with extraSelecttime := 0 }
      (plan.slept slept))) hPlan hPeak
    apply Nat.le_trans (Nat.add_le_add_left (Nat.min_le_right _ _) _)
    exact Nat.le_of_eq hBase.symm

theorem rises_step {m m' : Machine φ δ} {l : Label φ δ} (hm : Timed m) (hPeak : peak m < 2 ^ 64)
    (hStep : Step m l m') : Rises m m' := (rises_of_peak hm hStep).2 hPeak

theorem Timed.step {m m' : Machine φ δ} {l : Label φ δ} (hm : Timed m) (hStep : Step m l m') :
    Timed m' := (rises_of_peak hm hStep).1

/-! ## What is observed -/

theorem count_of_observes {m m' : Machine φ δ} {l : Label φ δ} (hm : Timed m) (hStep : Step m l m')
    (hSees : observes l = true) : m.clock.cpuCyclesCount.toNat = cyclesDone m.phase := by
  cases hStep with
  | io | ioSelected | handler => exact congrArg BitVec.toNat hm.count
  | cycle hLt => exact congrArg BitVec.toNat (hm.count.2 hLt)
  | _ => cases hSees

theorem clockVnow_toNat {m : Machine φ δ} (hm : Timed m) (hPeak : peak m < 2 ^ 64)
    (hCount : m.clock.cpuCyclesCount.toNat = cyclesDone m.phase) :
    (clockVnow m.clock).toNat = base m + (((select m.phase).map Prod.snd).getD 0).toNat := by
  have hExtra := congrArg BitVec.toNat hm.extra
  have hSum : base m + (((select m.phase).map Prod.snd).getD 0).toNat < 2 ^ 64 := by
    apply Nat.lt_of_le_of_lt _ hPeak
    apply Nat.add_le_add_left
    cases select m.phase with
    | none => exact Nat.le_refl _
    | some sel => exact Nat.le_max_left _ _
  unfold base at hSum ⊢
  simp only [clockVnow, BitVec.toNat_add, BitVec.toNat_mul, nsecsPerClock_toNat, hExtra, hCount]
  omega

/-- An observer who sees no more than will be kept sees the floor. -/
theorem clockVnow_eq_floor {m m' : Machine φ δ} {l : Label φ δ} (hm : Timed m)
    (hPeak : peak m < 2 ^ 64) (hStep : Step m l m') (hSees : observes l = true)
    (hHonest : Honest m) : (clockVnow m.clock).toNat = floor m := by
  rw [clockVnow_toNat hm hPeak (count_of_observes hm hStep hSees), floor]
  cases hSelect : select m.phase with
  | none => rfl
  | some sel => exact congrArg (_ + ·) (Nat.min_eq_left (hHonest sel hSelect)).symm

theorem settled_clockInit (tvSec : BitVec 32) (offset : BitVec 64) :
    Settled (clockInit tvSec offset : State φ δ) := by
  have h := acallocInit_sameClock (clockCoreinit (zeroed : State φ δ) tvSec)
  exact ⟨h.extraSelecttime, h.cpuCyclesCount⟩

theorem timed_start (tvSec : BitVec 32) (offset : BitVec 64) :
    Timed (start tvSec offset : Machine φ δ) :=
  ⟨(settled_clockInit tvSec offset).extraSelecttime, (settled_clockInit tvSec offset).cpuCyclesCount⟩

theorem peak_start (tvSec : BitVec 32) (offset : BitVec 64) :
    peak (start tvSec offset : Machine φ δ) < 2 ^ 64 :=
  (clockInit tvSec offset : State φ δ).virtualNow.isLt

/-! ## Runs -/

/-- All that is observed from a state on is in order, and not below its floor. -/
theorem observed_sorted {m t : Machine φ δ} {p : List (Label φ δ × Machine φ δ)}
    (hp : Path Step m p t) (hm : Timed m) (hPeak : peak m < 2 ^ 64) (hKept : AllSteps Kept m p) :
    (∀ v ∈ observed m p, floor m ≤ v) ∧ (observed m p).Pairwise (· ≤ ·) := by
  induction hp with
  | nil m => exact ⟨nofun, .nil⟩
  | @cons m m' t l p hStep _ ih =>
    obtain ⟨⟨hHonest, hPeak'⟩, hRest⟩ := hKept
    obtain ⟨hm', hRises⟩ := rises_step hm hPeak hStep
    obtain ⟨hFloor, hSorted⟩ := ih hm' hPeak' hRest
    rw [observed]
    split
    · next hSees =>
      have hNow := clockVnow_eq_floor hm hPeak hStep hSees (hHonest hSees)
      have hLater : ∀ v ∈ observed m' p, floor m ≤ v := fun v hv => hRises.trans (hFloor v hv)
      rw [hNow]
      constructor
      · intro v hv
        rcases List.mem_cons.mp hv with rfl | hv
        · exact Nat.le_refl _
        · exact hLater v hv
      · exact .cons hLater hSorted
    · constructor
      · exact fun v hv => hRises.trans (hFloor v hv)
      · exact hSorted

theorem base_eq_of_virtualNow {m m' : Machine φ δ}
    (hNow : m'.clock.virtualNow = m.clock.virtualNow)
    (hCycles : cyclesDone m'.phase = cyclesDone m.phase) : base m' = base m := by
  rw [base, base, hNow, hCycles]

/-- Only cycles move time, and what is kept of a sleep that is no poll. -/
theorem base_step {m m' : Machine φ δ} {l : Label φ δ} (hPeak : peak m < 2 ^ 64)
    (hPolling : Polling m) (hStep : Step m l m') : base m' = base m + 40 * stepped m m' l := by
  cases hStep with
  | io hOk => exact base_eq_of_virtualNow (applyEffects_sameTime hOk).virtualNow rfl
  | ioSelected hOk => exact base_eq_of_virtualNow (applyEffects_sameTime hOk).virtualNow rfl
  | @run s maxcycles hMax => exact base_eq_of_virtualNow (clockGetrunticks_sameWords s).virtualNow rfl
  | cycle hLt hOn hOk => exact base_cycle hLt (applyEffects_sameTime hOk).virtualNow
  | ticks => exact base_ticks hPeak
  | dispatch hPop => exact base_eq_of_virtualNow (popDue_sameClock hPop).virtualNow rfl
  | @handler s s' caller vnow ta effects hOk =>
    have hNow := (acfree_sameClock s' ta).virtualNow.trans (applyEffects_sameTime hOk).virtualNow
    exact base_eq_of_virtualNow hNow rfl
  | @leaveTicks s caller vnow hPop =>
    cases caller <;> exact base_eq_of_virtualNow (checkDeadline_sameWords s).virtualNow rfl
  | @slept s plan slept hPlan =>
    rcases hPolling with hPhase | ⟨slept', hSelect⟩
    · cases hPhase
    · cases hSelect
      exact absurd rfl hPlan
  | _ => rfl

/-- In the debugger time is that of the cycles, and an observer sees nothing else. -/
theorem steady_step {m m' : Machine φ δ} {l : Label φ δ} (hm : Timed m) (hPeak : peak m < 2 ^ 64)
    (hKept : Kept m l m') (hStep : Step m l m') : Steady m l m' := by
  intro hPolling
  constructor
  · intro hSees
    rw [clockVnow_toNat hm hPeak (count_of_observes hm hStep hSees)]
    rcases hPolling with hPhase | ⟨slept, hSelect⟩
    · cases hStep with
      | select => cases hSees
      | _ => cases hPhase
    · have hNone : slept.toNat ≤ 0 := hKept.1 hSees _ hSelect
      rw [hSelect]
      exact congrArg (_ + ·) (Nat.le_zero.mp hNone)
  · exact base_step hPeak hPolling hStep

/-- Where no observer sees more of a sleep than is kept of it, the times that are read
never decrease, and in the debugger they are those of the cycles that are stepped. -/
theorem time_monotone {tvSec : BitVec 32} {offset : BitVec 64} {m : Machine φ δ}
    {p : List (Label φ δ × Machine φ δ)} (hp : Path Step (start tvSec offset) p m)
    (hKept : AllSteps Kept (start tvSec offset) p) :
    (observed (start tvSec offset) p).Pairwise (· ≤ ·) ∧
      AllSteps Steady (start tvSec offset) p := by
  have hTimed := timed_start (φ := φ) (δ := δ) tvSec offset
  have hPeak := peak_start (φ := φ) (δ := δ) tvSec offset
  constructor
  · exact (observed_sorted hp hTimed hPeak hKept).2
  · have hKeep : ∀ (s : Machine φ δ) l s', Timed s ∧ peak s < 2 ^ 64 → Kept s l s' → Step s l s' →
        (Timed s' ∧ peak s' < 2 ^ 64) ∧ Steady s l s' := fun s l s' hs hStep hRun =>
      ⟨⟨(rises_step hs.1 hs.2 hRun).timed, hStep.2⟩, steady_step hs.1 hs.2 hStep hRun⟩
    exact hp.allSteps_of_invariant hKeep ⟨hTimed, hPeak⟩ hKept

/-! ## A key in the debugger -/

/-- The main loop stops in the debugger; a key is pressed after some time, and another at once. -/
def keyTrace (s : State φ δ) (slept : BitVec 64) : List (Label φ δ × Machine φ δ) :=
  let t := { s with stoppedInDebugger := true }
  let u := { t with extraSelecttime := slept }
  let v := { t with extraSelecttime := 0 }
  [(.io [.enterDebugger], ⟨t, .top⟩), (.poll, ⟨t, .waiting .poll⟩),
    (.select slept, ⟨u, .selected .poll slept⟩), (.io [], ⟨u, .selected .poll slept⟩),
    (.slept, ⟨v, .top⟩), (.poll, ⟨v, .waiting .poll⟩), (.select 0, ⟨v, .selected .poll 0⟩),
    (.io [], ⟨v, .selected .poll 0⟩)]

theorem keyTrace_path (s : State φ δ) (slept : BitVec 64) :
    Path Step ⟨s, .top⟩ (keyTrace s slept)
      ⟨{ s with stoppedInDebugger := true, extraSelecttime := 0 }, .selected .poll 0⟩ := by
  apply Path.cons (Step.io rfl)
  apply Path.cons Step.poll
  apply Path.cons (Step.select fun _ hEq => by cases hEq)
  apply Path.cons (Step.ioSelected rfl)
  apply Path.cons Step.polled
  apply Path.cons Step.poll
  apply Path.cons (Step.select fun _ hEq => by cases hEq)
  apply Path.cons (Step.ioSelected rfl)
  exact Path.nil _

theorem observed_keyTrace {s : State φ δ} (hSettled : Settled s) (slept : BitVec 64) :
    observed ⟨s, .top⟩ (keyTrace s slept) =
      [s.virtualNow.toNat, (s.virtualNow + slept).toNat, s.virtualNow.toNat] := by
  have hNow : ∀ extra, clockVnow { s with stoppedInDebugger := true, extraSelecttime := extra } =
      s.virtualNow + extra := by
    intro extra
    simp [clockVnow, hSettled.cpuCyclesCount]
  have hLater := (hNow 0).trans (BitVec.add_zero s.virtualNow)
  simp only [observed, keyTrace, observes, if_true, Bool.false_eq_true, if_false]
  rw [hSettled.clockVnow, hNow slept, hLater]

theorem virtualNow_clockInit (tvSec : BitVec 32) :
    (clockInit tvSec 0 : State φ δ).virtualNow = 0 := by
  have h := (acallocInit_sameClock (clockCoreinit (zeroed : State φ δ) tvSec)).virtualNow
  exact congrArg (· + 0 % 10000000) h

theorem kept_keyTrace (s : State φ δ) : AllSteps Kept ⟨s, .top⟩ (keyTrace s 0) := by
  have hLimit := s.virtualNow.isLt
  simp [keyTrace, Kept, Honest, peak, base, cyclesDone, select, kept, observes, hLimit]

/-- Both keys are pressed at once. -/
theorem time_monotone_keys :
    (observed (start 0 0 : Machine Unit Unit) (keyTrace (clockInit 0 0) 0)).Pairwise (· ≤ ·) ∧
      AllSteps Steady (start 0 0 : Machine Unit Unit) (keyTrace (clockInit 0 0) 0) := by
  apply time_monotone (keyTrace_path (clockInit 0 0) 0)
  exact kept_keyTrace (clockInit 0 0)

/-- The first key is pressed after 5 ms. -/
theorem not_time_monotone : ¬∀ (tvSec : BitVec 32) (offset : BitVec 64) (m : Machine Unit Unit)
    (p : List (Label Unit Unit × Machine Unit Unit)), Path Step (start tvSec offset) p m →
      (observed (start tvSec offset) p).Pairwise (· ≤ ·) ∧
        AllSteps Steady (start tvSec offset) p := by
  intro hAll
  have hSorted := (hAll 0 0 _ _ (keyTrace_path (clockInit 0 0) 5000000)).1
  have hSettled : Settled (clockInit 0 0 : State Unit Unit) := settled_clockInit 0 0
  have hTimes := observed_keyTrace hSettled 5000000
  rw [virtualNow_clockInit] at hTimes
  rw [start, hTimes] at hSorted
  exact absurd hSorted (by decide)

end Sys161.Clock.Monotone
