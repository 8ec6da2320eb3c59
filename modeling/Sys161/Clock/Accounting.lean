import Mathlib.Tactic.LinearCombination
import Sys161.Clock.MainLoop

/-!
# Accounting of virtual time

Virtual time since start-up against the cycles counted as running and as idle.
Two places count twice: a run cut short because every cpu went idle, and a wait
that starts with a residue from the one before.
-/

namespace Sys161.Clock.Accounting

open Runs MainLoop

set_option autoImplicit false

variable {φ δ : Type}

def Balanced (base : BitVec 64) (s : State φ δ) : Prop :=
  s.virtualNow - base =
      nsecsPerClock * (s.totRcycles + s.totIcycles) + s.idleslop.setWidth 64 ∧
    s.idleslop.toNat < 40

structure SameAccounts (s s' : State φ δ) : Prop where
  virtualNow : s'.virtualNow = s.virtualNow
  totRcycles : s'.totRcycles = s.totRcycles
  totIcycles : s'.totIcycles = s.totIcycles
  idleslop : s'.idleslop = s.idleslop

theorem SameAccounts.refl (s : State φ δ) : SameAccounts s s := ⟨rfl, rfl, rfl, rfl⟩

theorem SameAccounts.trans {s t u : State φ δ} (h : SameAccounts s t) (h' : SameAccounts t u) :
    SameAccounts s u where
  virtualNow := h'.virtualNow.trans h.virtualNow
  totRcycles := h'.totRcycles.trans h.totRcycles
  totIcycles := h'.totIcycles.trans h.totIcycles
  idleslop := h'.idleslop.trans h.idleslop

theorem SameAccounts.of_sameClock {s s' : State φ δ} (h : SameClock s s') : SameAccounts s s' :=
  ⟨h.virtualNow, h.totRcycles, h.totIcycles, h.idleslop⟩

theorem SameAccounts.balanced_iff {s s' : State φ δ} (h : SameAccounts s s') (base : BitVec 64) :
    Balanced base s' ↔ Balanced base s := by
  rw [Balanced, h.virtualNow, h.totRcycles, h.totIcycles, h.idleslop, Balanced]

theorem Effect.sameAccounts {s s' : State φ δ} {e : Effect φ δ} (h : e.apply s = .ok s') :
    SameAccounts s s' := by
  cases e with
  | schedule r => exact SameAccounts.of_sameClock (scheduleEvent_sameClock h)
  | _ =>
    cases h
    exact ⟨rfl, rfl, rfl, rfl⟩

theorem applyEffects_sameAccounts {s s' : State φ δ} {es : List (Effect φ δ)}
    (h : applyEffects s es = .ok s') : SameAccounts s s' := by
  induction es generalizing s with
  | nil =>
    cases h
    exact SameAccounts.refl _
  | cons e es ih =>
    rw [applyEffects] at h
    cases hHead : e.apply s with
    | error msg =>
      rw [hHead] at h
      cases h
    | ok t =>
      rw [hHead] at h
      exact (Effect.sameAccounts hHead).trans (ih h)

theorem clockGetrunticks_sameAccounts (s : State φ δ) :
    SameAccounts s (clockGetrunticks s).2 := by
  rw [clockGetrunticks]
  split
  · exact SameAccounts.refl s
  · dsimp only
    split
    · exact SameAccounts.refl s
    · split
      · exact ⟨rfl, rfl, rfl, rfl⟩
      · exact SameAccounts.refl s

theorem checkDeadline_sameAccounts (s : State φ δ) : SameAccounts s (checkDeadline s).1 := by
  rw [checkDeadline]
  split
  · exact SameAccounts.refl s
  · split
    · exact ⟨rfl, rfl, rfl, rfl⟩
    · split
      · exact SameAccounts.refl s
      · dsimp only
        split <;> exact ⟨rfl, rfl, rfl, rfl⟩

/-! ## The steps that move the accounts -/

theorem ticksAdvance_balanced_iff (s : State φ δ) (base nticks : BitVec 64) :
    Balanced base (ticksAdvance s nticks) ↔ Balanced base s := by
  rw [Balanced, Balanced]
  apply and_congr_left
  intro _
  simp only [ticksAdvance, clockVadvance]
  constructor <;> intro h <;> linear_combination h

theorem cyclesCount_le {s : State φ δ} {ok : Bool} {i maxcycles : BitVec 64}
    (hLt : i < maxcycles) : (cyclesCount s ok i).1 ≤ maxcycles := by
  rw [cyclesCount]
  split <;> bv_omega

theorem cyclesCount_sameAccounts (s : State φ δ) (ok : Bool) (i : BitVec 64) :
    SameAccounts s (cyclesCount s ok i).2 := by
  rw [cyclesCount]
  split <;> exact ⟨rfl, rfl, rfl, rfl⟩

/-- Skipped cycles are counted as idle although `clock_ticks` will count them as run. -/
theorem cyclesSkip_balanced_iff {s : State φ δ} {base i maxcycles : BitVec 64}
    (hs : Balanced base s) (hLe : i ≤ maxcycles) (hMax : maxcycles.toNat < 2 ^ 32) :
    Balanced base (cyclesSkip s i maxcycles).2 ↔
      (s.cpuRunningMask = 0 → s.cpuCycling = true → i = maxcycles) := by
  obtain ⟨hEq, hSlop⟩ := hs
  rw [cyclesSkip]
  split
  · next hIdle =>
    simp only [hIdle.1, hIdle.2, true_imp_iff, Balanced, and_iff_left hSlop]
    constructor
    · intro hBal
      have hZero : nsecsPerClock * (maxcycles - i) = 0 := by linear_combination hEq - hBal
      have hSmall : 40 * (maxcycles.toNat - i.toNat) < 2 ^ 64 := by omega
      have hNat : 40 * (maxcycles.toNat - i.toNat) % 2 ^ 64 = 0 := by
        rw [← BitVec.toNat_sub_of_le hLe, ← nsecsPerClock_toNat, ← BitVec.toNat_mul, hZero]
        rfl
      rw [Nat.mod_eq_of_lt hSmall] at hNat
      apply BitVec.eq_of_toNat_eq
      rw [BitVec.le_def] at hLe
      omega
    · intro hEnd
      rw [hEnd]
      linear_combination hEq
  · next hRun =>
    exact iff_of_true ⟨hEq, hSlop⟩ fun hZero hOn => absurd ⟨hZero, hOn⟩ hRun

theorem cyclesTurn_balanced_iff {s : State φ δ} {base i maxcycles : BitVec 64} {ok : Bool}
    (hs : Balanced base s) (hLt : i < maxcycles) (hMax : maxcycles.toNat < 2 ^ 32) :
    Balanced base (cyclesTurn s ok i maxcycles).2 ↔
      (s.cpuRunningMask = 0 → s.cpuCycling = true →
        (if ok then i + 1 else i) = maxcycles) := by
  have hCount := ((cyclesCount_sameAccounts s ok i).balanced_iff base).mpr hs
  rw [cyclesTurn, cyclesSkip_balanced_iff hCount (cyclesCount_le hLt) hMax]
  cases ok <;> rfl

theorem waitAdvance_balanced_iff {s : State φ δ} {base : BitVec 64} (hs : Balanced base s)
    (sleptnsecs : BitVec 64) :
    Balanced base (waitAdvance s sleptnsecs) ↔ s.idleslop = 0 := by
  obtain ⟨hEq, hSlop⟩ := hs
  have hSplit : ∀ tmp : BitVec 64, nsecsPerClock * (tmp / nsecsPerClock) +
      ((tmp % nsecsPerClock).setWidth 32).setWidth 64 = tmp := by
    intro tmp
    apply BitVec.eq_of_toNat_eq
    simp only [BitVec.toNat_add, BitVec.toNat_mul, BitVec.toNat_udiv, BitVec.toNat_setWidth,
      BitVec.toNat_umod, nsecsPerClock_toNat]
    omega
  have hRem : ((waitAdvance s sleptnsecs).idleslop).toNat < 40 := by
    simp only [waitAdvance, clockVadvance, BitVec.toNat_setWidth, BitVec.toNat_umod,
      nsecsPerClock_toNat]
    omega
  have hWide : s.idleslop.setWidth 64 = 0 ↔ s.idleslop = 0 := by
    constructor <;> intro h
    · apply BitVec.eq_of_toNat_eq
      have hNat := congrArg BitVec.toNat h
      rw [BitVec.toNat_setWidth] at hNat
      change s.idleslop.toNat % 2 ^ 64 = 0 at hNat
      change s.idleslop.toNat = 0
      omega
    · rw [h]
      rfl
  rw [Balanced, and_iff_left hRem, ← hWide]
  simp only [waitAdvance, clockVadvance]
  have h := hSplit (sleptnsecs + s.idleslop.setWidth 64)
  constructor
  · intro hBal
    linear_combination hBal - hEq + h
  · intro hZero
    linear_combination hEq - h + hZero

/-! ## Runs -/

/-- All cpus go idle only in the last cycle of a run, and a wait starts without a residue. -/
def Meets (m : Machine φ δ) (l : Label φ δ) (_ : Machine φ δ) : Prop :=
  match m.phase, l with
  | .cycles _ i maxcycles, .cycle ok effects =>
    ∀ s, applyEffects m.clock effects = .ok s → s.cpuRunningMask = 0 → s.cpuCycling = true →
      (if ok then i + 1 else i) = maxcycles
  | .selected plan _, .slept => plan ≠ .poll → m.clock.idleslop = 0
  | _, _ => True

/-- A run is asked for in 32 bits and not overrun. -/
def Bounded (m : Machine φ δ) : Prop :=
  match m.phase with
  | .cycles _ i maxcycles => i ≤ maxcycles ∧ maxcycles.toNat < 2 ^ 32
  | _ => True

theorem cyclesTurn_le {s : State φ δ} {ok : Bool} {i maxcycles : BitVec 64}
    (hLt : i < maxcycles) : (cyclesTurn s ok i maxcycles).1 ≤ maxcycles := by
  rw [cyclesTurn, cyclesSkip]
  split
  · exact BitVec.le_refl _
  · exact cyclesCount_le hLt

theorem Bounded.step {m m' : Machine φ δ} {l : Label φ δ} (h : Bounded m)
    (hStep : Step m l m') : Bounded m' := by
  cases hStep with
  | @run s maxcycles _ =>
    have hMax := maxcycles.isLt
    refine ⟨?_, ?_⟩
    · exact BitVec.le_def.mpr (Nat.zero_le _)
    · rw [BitVec.toNat_setWidth]
      omega
  | onecycle => exact ⟨by decide, by decide⟩
  | cycle hLt _ _ => exact ⟨cyclesTurn_le hLt, h.2⟩
  | @leaveTicks s caller vnow _ => cases caller <;> trivial
  | _ => trivial

theorem step_balanced_iff {m m' : Machine φ δ} {l : Label φ δ} {base : BitVec 64}
    (hBound : Bounded m) (hs : Balanced base m.clock) (hStep : Step m l m') :
    Balanced base m'.clock ↔ Meets m l m' := by
  cases hStep with
  | io h => exact iff_of_true (((applyEffects_sameAccounts h).balanced_iff base).mpr hs) trivial
  | ioSelected h =>
    exact iff_of_true (((applyEffects_sameAccounts h).balanced_iff base).mpr hs) trivial
  | @run s maxcycles _ =>
    have hSame := clockGetrunticks_sameAccounts s
    have hSame' : SameAccounts s { (clockGetrunticks s).2 with cpuCycling := true } :=
      ⟨hSame.virtualNow, hSame.totRcycles, hSame.totIcycles, hSame.idleslop⟩
    exact iff_of_true ((hSame'.balanced_iff base).mpr hs) trivial
  | @cycle s s' caller i maxcycles ok effects hLt _ hOk =>
    have hs' := ((applyEffects_sameAccounts hOk).balanced_iff base).mpr hs
    rw [cyclesTurn_balanced_iff hs' hLt hBound.2]
    simp only [Meets, hOk, Except.ok.injEq, forall_eq']
  | ticks => exact iff_of_true ((ticksAdvance_balanced_iff _ _ _).mpr hs) trivial
  | dispatch h =>
    have hSame := SameAccounts.of_sameClock (popDue_sameClock h)
    exact iff_of_true ((hSame.balanced_iff base).mpr hs) trivial
  | handler h => exact iff_of_true (((applyEffects_sameAccounts h).balanced_iff base).mpr hs) trivial
  | leaveTicks _ =>
    exact iff_of_true (((checkDeadline_sameAccounts _).balanced_iff base).mpr hs) trivial
  | polled => exact iff_of_true hs fun h => absurd rfl h
  | @slept s plan slept hPlan =>
    rw [waitAdvance_balanced_iff (s := { s with extraSelecttime := 0 }) hs]
    exact ⟨fun h _ => h, fun h => h hPlan⟩
  | _ => exact iff_of_true hs trivial

theorem clockInit_balanced (tvSec : BitVec 32) (offset : BitVec 64) :
    Balanced (clockInit tvSec offset : State φ δ).virtualNow
      (clockInit tvSec offset : State φ δ) := by
  have h := acallocInit_sameClock (clockCoreinit (zeroed : State φ δ) tvSec)
  rw [clockInit]
  generalize acallocInit (clockCoreinit (zeroed : State φ δ) tvSec) = s at h ⊢
  simp only [Balanced, clockVadvance, h.totRcycles, h.totIcycles, h.idleslop]
  simp [clockCoreinit, zeroed]

/-- In a run of the main loop virtual time and the cycle counts agree in every state exactly
when no step skips cycles of a run or waits on top of a residue. -/
theorem accounting_balanced_iff {tvSec : BitVec 32} {offset : BitVec 64}
    {p : List (Label φ δ × Machine φ δ)} {m : Machine φ δ}
    (h : Path Step (start tvSec offset) p m) :
    AllStates (fun m => Balanced (clockInit tvSec offset : State φ δ).virtualNow m.clock)
        (start tvSec offset) p ↔
      AllSteps Meets (start tvSec offset) p :=
  h.allStates_iff_allSteps (fun _ _ _ hBound hStep => Bounded.step hBound hStep)
    (fun _ _ _ hBound hs hStep => step_balanced_iff hBound hs hStep) trivial
    (clockInit_balanced tvSec offset)

/-! ## A residue that is carried -/

/-- The clock after one turn of `clock_waitirq` that slept for `nsecs`. -/
def waitOnce (s : State φ δ) (nsecs : BitVec 64) : State φ δ :=
  waitAdvance { s with extraSelecttime := 0 } nsecs

structure Asleep (s : State φ δ) : Prop where
  queuehead : s.queuehead = none
  cpuRunningMask : s.cpuRunningMask = 0

theorem Asleep.waitOnce {s : State φ δ} (h : Asleep s) (nsecs : BitVec 64) :
    Asleep (waitOnce s nsecs) := ⟨h.queuehead, h.cpuRunningMask⟩

def waitTrace (s : State φ δ) (nsecs : BitVec 64) : List (Label φ δ × Machine φ δ) :=
  let u := waitOnce s nsecs
  [(.wait 0 0, ⟨s, .waiting .block⟩),
    (.select nsecs, ⟨{ s with extraSelecttime := nsecs }, .selected .block nsecs⟩),
    (.slept, ⟨u, .queue none (clockVnow u)⟩),
    (.leave, ⟨u, .waitirq⟩)]

theorem waitTrace_path {s : State φ δ} (h : Asleep s) (nsecs : BitVec 64) :
    Path Step ⟨s, .waitirq⟩ (waitTrace s nsecs) ⟨waitOnce s nsecs, .waitirq⟩ := by
  have hPlan : waitPlan s 0 0 = .block := by rw [waitPlan, h.queuehead]
  have hQueue := (h.waitOnce nsecs).queuehead
  have hWait : Step ⟨s, .waitirq⟩ (.wait 0 0) ⟨s, .waiting (waitPlan s 0 0)⟩ :=
    Step.wait h.cpuRunningMask
  rw [hPlan] at hWait
  apply Path.cons hWait
  apply Path.cons (Step.select fun _ hEq => by cases hEq)
  apply Path.cons (Step.slept fun hEq => by cases hEq)
  apply Path.cons (Step.leaveWait (by rw [popDue]; exact hQueue ▸ rfl))
  exact Path.nil _

theorem clockInit_asleep (tvSec : BitVec 32) (offset : BitVec 64) :
    Asleep (clockInit tvSec offset : State φ δ) where
  queuehead := (clockInit_holds tvSec offset).pendingLinked
  cpuRunningMask := by
    have h := (acallocInit_sameClock (clockCoreinit (zeroed : State φ δ) tvSec)).cpuRunningMask
    rw [clockInit]
    generalize acallocInit (clockCoreinit (zeroed : State φ δ) tvSec) = s at h ⊢
    exact h

theorem clockInit_idleslop (tvSec : BitVec 32) (offset : BitVec 64) :
    (clockInit tvSec offset : State φ δ).idleslop = 0 := by
  have h := (acallocInit_sameClock (clockCoreinit (zeroed : State φ δ) tvSec)).idleslop
  rw [clockInit]
  generalize acallocInit (clockCoreinit (zeroed : State φ δ) tvSec) = s at h ⊢
  exact h

theorem waitOnce_idleslop (s : State φ δ) (nsecs : BitVec 64) :
    (waitOnce s nsecs).idleslop =
      ((nsecs + s.idleslop.setWidth 64) % nsecsPerClock).setWidth 32 := rfl

theorem waitOnce_balanced_iff {s : State φ δ} {base : BitVec 64} (hs : Balanced base s)
    (nsecs : BitVec 64) : Balanced base (waitOnce s nsecs) ↔ s.idleslop = 0 :=
  waitAdvance_balanced_iff (s := { s with extraSelecttime := 0 }) hs nsecs

/-- A timer for 1 ms, which `random()` has made 17 ns longer. -/
def millisecond : Request Unit Unit where
  nsecs := 1000000
  jitter := 17
  data := none
  code := 0
  func := ()
  desc := "timer"

/-- The timer is all that is pending, and start-up was just now. -/
structure Armed (s : State Unit Unit) (n : Slot) : Prop where
  queuehead : s.queuehead = some n
  alone : s.next n = none
  vtime : s.vtime n = 1000017
  sameClock : SameClock (clockInit 0 0) s

theorem armed_start : ∃ s n, applyEffects (clockInit 0 0) [.schedule millisecond] = .ok s ∧
    Armed s n := by
  obtain ⟨n, free, hFree⟩ : ∃ n free, (List.finRange maxActions).reverse = n :: free :=
    List.exists_cons_of_length_pos (by simp [maxActions])
  have hHolds : Holds (clockInit 0 0 : State Unit Unit) [] (n :: free) none := by
    rw [← hFree]
    exact clockInit_holds 0 0
  obtain ⟨s, hOk, hSpec, hHolds'⟩ := scheduleEvent_spec hHolds millisecond
  obtain ⟨hHead, hNext⟩ := hHolds'.pendingLinked
  refine ⟨s, n, (applyEffects_schedule _ _).trans hOk, hHead, hNext, ?_, hSpec.sameClock⟩
  have hDue : s.vtime n = dueTime (clockInit 0 0) millisecond := congrArg Prod.fst hSpec.event_new
  rw [hDue, dueTime, WallClock.clockInit_vnow]
  decide

section Timer

variable {s : State Unit Unit} {n : Slot} (h : Armed s n)

include h

theorem Armed.waitPlan_eq : waitPlan s 0 0 = .jump 1000017 := by
  have hVnow : clockVnow s = 0 := h.sameClock.clockVnow.trans (WallClock.clockInit_vnow 0 0)
  have hSecs : s.startSecs = 0 := by
    have hInit := (acallocInit_sameClock (clockCoreinit (zeroed : State Unit Unit) 0)).startSecs
    rw [h.sameClock.startSecs, clockInit, clockVadvance_startSecs, hInit]
    rfl
  have hNsecs : s.startNsecs = 0 :=
    h.sameClock.startNsecs.trans (WallClock.clockInit_startNsecs 0 0)
  have hAhead : clockVahead s 0 1000017 0 0 = 1000017 := by
    rw [clockVahead, hSecs, hNsecs]
    decide
  simp only [waitPlan, h.queuehead, hVnow, h.vtime, hAhead]
  exact if_neg (by decide)

/-- The clock when the timer has been handled; it wakes no cpu. -/
def fired (s : State Unit Unit) (n : Slot) : State Unit Unit :=
  acfree { waitOnce s 1000017 with queuehead := none } n

theorem Armed.fires : ∃ p, Path Step ⟨s, .waitirq⟩ p ⟨fired s n, .waitirq⟩ := by
  have hMask : s.cpuRunningMask = 0 :=
    h.sameClock.cpuRunningMask.trans (clockInit_asleep 0 0).cpuRunningMask
  have hWait : Step ⟨s, .waitirq⟩ (.wait 0 0) ⟨s, .waiting (waitPlan s 0 0)⟩ := Step.wait hMask
  rw [h.waitPlan_eq] at hWait
  have hVnow : clockVnow (waitOnce s 1000017) = 1000017 := by
    have hBefore : clockVnow s = 0 := h.sameClock.clockVnow.trans (WallClock.clockInit_vnow 0 0)
    have hSlop := h.sameClock.idleslop.trans (clockInit_idleslop 0 0)
    have hInit := acallocInit_sameClock (clockCoreinit (zeroed : State Unit Unit) 0)
    have hExtra : s.extraSelecttime = 0 :=
      h.sameClock.extraSelecttime.trans hInit.extraSelecttime
    have hAfter : clockVnow (waitOnce s 1000017) = clockVnow { s with extraSelecttime := 0 } +
        (1000017 + s.idleslop.setWidth 64) := clockVnow_clockVadvance _ _
    rw [hAfter, ← hExtra, hSlop]
    change clockVnow s + _ = _
    rw [hBefore]
    rfl
  have hPop : popDue (waitOnce s 1000017) (clockVnow (waitOnce s 1000017)) =
      some (n, { waitOnce s 1000017 with queuehead := none }) := by
    have hHead : (waitOnce s 1000017).queuehead = some n := h.queuehead
    have hDue : (waitOnce s 1000017).vtime n = 1000017 := h.vtime
    have hNext : (waitOnce s 1000017).next n = none := h.alone
    rw [popDue, hHead]
    dsimp only
    rw [hDue, hNext, hVnow, if_neg (by decide)]
  have hHandled : Step ⟨{ waitOnce s 1000017 with queuehead := none },
      .handler none (clockVnow (waitOnce s 1000017)) n⟩ (.handler [])
        ⟨fired s n, .queue none (clockVnow (waitOnce s 1000017))⟩ := Step.handler rfl
  exact ⟨_, Path.cons hWait (.cons (Step.select fun _ _ => rfl) (.cons
    (Step.slept fun hEq => by cases hEq) (.cons (Step.dispatch hPop) (.cons
      hHandled (.cons (Step.leaveWait rfl) (.nil _))))))⟩

theorem Armed.fired_asleep : Asleep (fired s n) :=
  ⟨rfl, h.sameClock.cpuRunningMask.trans (clockInit_asleep 0 0).cpuRunningMask⟩

theorem Armed.fired_idleslop : (fired s n).idleslop = 17 := by
  have hSlop : (fired s n).idleslop = (waitOnce s 1000017).idleslop := rfl
  rw [hSlop, waitOnce_idleslop, h.sameClock.idleslop, clockInit_idleslop]
  decide

end Timer

/-- A cpu sleeps until the timer and then until something else comes, 1 ms later. The 17 ns that the
first wait has left over are added to virtual time once more. -/
theorem accounting_counts_residue_twice :
    ¬ ∀ (tvSec : BitVec 32) (offset : BitVec 64) (p : List (Label Unit Unit × Machine Unit Unit))
      (m : Machine Unit Unit), Path Step (start tvSec offset) p m →
        Balanced (clockInit tvSec offset : State Unit Unit).virtualNow m.clock := by
  intro hClaim
  obtain ⟨s, n, hOk, hArmed⟩ := armed_start
  obtain ⟨p, hFires⟩ := hArmed.fires
  have hFirst : Path Step (start 0 0) _ ⟨fired s n, .waitirq⟩ :=
    Path.cons (Step.io hOk) (.cons Step.waitirq hFires)
  have hBal := hClaim 0 0 _ _ (hFirst.append (waitTrace_path hArmed.fired_asleep 1000000))
  have hZero := (waitOnce_balanced_iff (hClaim 0 0 _ _ hFirst) 1000000).mp hBal
  rw [hArmed.fired_idleslop] at hZero
  exact absurd hZero (by decide)

/-- Two waits of `nsecs` right after start-up. -/
def twoWaits (s : State φ δ) (nsecs : BitVec 64) : List (Label φ δ × Machine φ δ) :=
  (.waitirq, ⟨s, .waitirq⟩) :: (waitTrace s nsecs ++ waitTrace (waitOnce s nsecs) nsecs)

theorem twoWaits_path {s : State φ δ} (h : Asleep s) (nsecs : BitVec 64) :
    Path Step ⟨s, .top⟩ (twoWaits s nsecs) ⟨waitOnce (waitOnce s nsecs) nsecs, .waitirq⟩ :=
  Path.cons Step.waitirq
    ((waitTrace_path h nsecs).append (waitTrace_path (h.waitOnce nsecs) nsecs))

theorem twoWaits_meets {s : State φ δ} (hSlop : s.idleslop = 0) :
    AllSteps Meets ⟨s, .top⟩ (twoWaits s 1000) := by
  have hFirst : (waitOnce s 1000).idleslop = 0 := by
    rw [waitOnce_idleslop, hSlop]
    decide
  simpa [twoWaits, waitTrace, Meets, hSlop] using hFirst

/-- Waits of a whole number of microseconds leave no residue. -/
theorem accounting_whole_waits :
    AllStates (fun m : Machine Unit Unit => Balanced (clockInit 0 0 : State Unit Unit).virtualNow
      m.clock) (start 0 0) (twoWaits (clockInit 0 0) 1000) :=
  (accounting_balanced_iff (twoWaits_path (clockInit_asleep 0 0) 1000)).mpr
    (twoWaits_meets (clockInit_idleslop 0 0))

end Sys161.Clock.Accounting
