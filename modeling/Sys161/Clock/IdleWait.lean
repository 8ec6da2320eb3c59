import Sys161.Clock.Monotone

/-!
# Waits for the head of the queue

A turn of `clock_waitirq` with an event pending takes the distance to the event
from the host's clock and from virtual time, and adds to what it slept the
residue of the waits before.
-/

namespace Sys161.Clock.IdleWait

open Runs MainLoop Timeliness Clock.Monotone

set_option autoImplicit false

variable {φ δ : Type}

section Turn

variable (s : State φ δ) (ta : Slot) (tvSec tvUsec : BitVec 64)

/-- The host's time of day in nanoseconds since the second of start-up. -/
def hostNsecs : BitVec 64 := (tvSec - s.startSecs.setWidth 64) * nsecsPerSec + tvUsec * 1000

/-- The subtractions of nanoseconds that `clock_vahead` makes. -/
def vaheadSubs (vnow vnsecs : BitVec 64) : List (BitVec 64 × BitVec 64) :=
  if tvSec.slt (s.startSecs.setWidth 64) then []
  else
    let pnsecs := hostNsecs s tvSec tvUsec - s.startNsecs.setWidth 64
    (hostNsecs s tvSec tvUsec, s.startNsecs.setWidth 64) ::
      (if vnsecs ≤ pnsecs then []
      else if vnow ≤ pnsecs then [(vnsecs, pnsecs)]
      else [(vnsecs, vnow)])

/-- Those of a turn of `clock_waitirq` with this event at the head of the queue. -/
def waitSubs : List (BitVec 64 × BitVec 64) :=
  let vnow := clockVnow s
  vaheadSubs s tvSec tvUsec vnow (s.vtime ta) ++
    (if clockVahead s vnow (s.vtime ta) tvSec tvUsec > 10000000 then [] else [(s.vtime ta, vnow)])

/-- No subtraction of the turn goes below zero, `clock_vahead` gives no more than the way to the
event, and virtual time goes on by what was slept and the residue, to the event at most. -/
structure WaitRight (slept : BitVec 64) (s' : State φ δ) : Prop where
  subs : ∀ sub ∈ waitSubs s ta tvSec tvUsec, sub.2 ≤ sub.1
  vahead : (clockVahead s (clockVnow s) (s.vtime ta) tvSec tvUsec).toNat + (clockVnow s).toNat ≤
    (s.vtime ta).toNat
  advance : (clockVnow s').toNat = (clockVnow s).toNat +
    (((waitPlan s tvSec tvUsec).slept slept).toNat + s.idleslop.toNat)
  bound : (clockVnow s').toNat ≤ (s.vtime ta).toNat

/-- How far the event is ahead of virtual time and of the host's time. -/
def ahead : Nat :=
  if tvSec.slt (s.startSecs.setWidth 64) then 0
  else
    min ((s.vtime ta).toNat - (clockVnow s).toNat)
      ((s.vtime ta).toNat - ((hostNsecs s tvSec tvUsec).toNat - s.startNsecs.toNat))

/-- The event is not overdue, the host's clock has come to the nanoseconds that the guest has
set, and no residue is carried into the wait or the sleep ends early enough for it. -/
structure WaitMeets (slept : BitVec 64) : Prop where
  due : (clockVnow s).toNat ≤ (s.vtime ta).toNat
  host : ¬ tvSec.slt (s.startSecs.setWidth 64) →
    s.startNsecs.toNat ≤ (hostNsecs s tvSec tvUsec).toNat
  residue : s.idleslop = 0 ∨ 10000000 < ahead s ta tvSec tvUsec ∧
    min slept.toNat (ahead s ta tvSec tvUsec) + s.idleslop.toNat ≤
      (s.vtime ta).toNat - (clockVnow s).toNat

end Turn

section Distance

variable {s : State φ δ} {ta : Slot} {tvSec tvUsec : BitVec 64}

theorem startNsecs_toNat (s : State φ δ) :
    (s.startNsecs.setWidth 64).toNat = s.startNsecs.toNat := by
  have hLt := s.startNsecs.isLt
  rw [BitVec.toNat_setWidth]
  omega

theorem clockVahead_eq (s : State φ δ) (vnow vnsecs tvSec tvUsec : BitVec 64) :
    clockVahead s vnow vnsecs tvSec tvUsec =
      if tvSec.slt (s.startSecs.setWidth 64) then 0
      else if vnsecs ≤ hostNsecs s tvSec tvUsec - s.startNsecs.setWidth 64 then 0
      else if vnow ≤ hostNsecs s tvSec tvUsec - s.startNsecs.setWidth 64 then
        vnsecs - (hostNsecs s tvSec tvUsec - s.startNsecs.setWidth 64)
      else vnsecs - vnow := rfl

theorem hostNsecs_sub (h : s.startNsecs.toNat ≤ (hostNsecs s tvSec tvUsec).toNat) :
    (hostNsecs s tvSec tvUsec - s.startNsecs.setWidth 64).toNat =
      (hostNsecs s tvSec tvUsec).toNat - s.startNsecs.toNat := by
  rw [← startNsecs_toNat s] at h ⊢
  exact BitVec.toNat_sub_of_le (BitVec.le_def.mpr h)

theorem clockVahead_toNat (hDue : (clockVnow s).toNat ≤ (s.vtime ta).toNat)
    (hHost : ¬ tvSec.slt (s.startSecs.setWidth 64) →
      s.startNsecs.toNat ≤ (hostNsecs s tvSec tvUsec).toNat) :
    (clockVahead s (clockVnow s) (s.vtime ta) tvSec tvUsec).toNat = ahead s ta tvSec tvUsec := by
  rw [clockVahead_eq, ahead]
  by_cases hBefore : tvSec.slt (s.startSecs.setWidth 64) = true
  · rw [if_pos hBefore, if_pos hBefore]
    rfl
  rw [if_neg hBefore, if_neg hBefore]
  have hSub := hostNsecs_sub (hHost hBefore)
  generalize hostNsecs s tvSec tvUsec - s.startNsecs.setWidth 64 = pnsecs at hSub ⊢
  rw [← hSub]
  split
  · next hPast =>
    rw [BitVec.le_def] at hPast
    change 0 = _
    omega
  · next hAhead =>
    rw [BitVec.le_def] at hAhead
    split
    · next hBehind =>
      rw [BitVec.le_def] at hBehind
      rw [BitVec.toNat_sub_of_le (BitVec.le_def.mpr (by omega))]
      omega
    · next hFast =>
      rw [BitVec.le_def] at hFast
      rw [BitVec.toNat_sub_of_le (BitVec.le_def.mpr hDue)]
      omega

theorem mem_vaheadSubs (hDue : (clockVnow s).toNat ≤ (s.vtime ta).toNat)
    (hHost : ¬ tvSec.slt (s.startSecs.setWidth 64) →
      s.startNsecs.toNat ≤ (hostNsecs s tvSec tvUsec).toNat) :
    ∀ sub ∈ vaheadSubs s tvSec tvUsec (clockVnow s) (s.vtime ta), sub.2 ≤ sub.1 := by
  rw [vaheadSubs]
  split
  · exact fun _ h => absurd h List.not_mem_nil
  · next hAfter =>
    have hStart : s.startNsecs.setWidth 64 ≤ hostNsecs s tvSec tvUsec := by
      rw [BitVec.le_def, startNsecs_toNat]
      exact hHost hAfter
    intro sub hSub
    rcases List.mem_cons.mp hSub with rfl | hSub
    · exact hStart
    · split_ifs at hSub with hPast hBehind
      · cases hSub
      · rw [List.mem_singleton.mp hSub]
        exact BitVec.le_of_lt (BitVec.not_le.mp hPast)
      · rw [List.mem_singleton.mp hSub]
        exact BitVec.le_def.mpr hDue

theorem slept_toNat (hHead : s.queuehead = some ta)
    (hDue : (clockVnow s).toNat ≤ (s.vtime ta).toNat)
    (hHost : ¬ tvSec.slt (s.startSecs.setWidth 64) →
      s.startNsecs.toNat ≤ (hostNsecs s tvSec tvUsec).toNat) (slept : BitVec 64) :
    ((waitPlan s tvSec tvUsec).slept slept).toNat =
      if 10000000 < ahead s ta tvSec tvUsec then min slept.toNat (ahead s ta tvSec tvUsec)
      else (s.vtime ta).toNat - (clockVnow s).toNat := by
  have hAhead := clockVahead_toNat hDue hHost
  have hFar : clockVahead s (clockVnow s) (s.vtime ta) tvSec tvUsec > 10000000 ↔
      10000000 < ahead s ta tvSec tvUsec := by
    rw [gt_iff_lt, BitVec.lt_def, hAhead]
    rfl
  simp only [waitPlan, hHead, hFar]
  split
  · rw [Plan.slept, ← hAhead]
    split
    · next hOver =>
      rw [gt_iff_lt, BitVec.lt_def] at hOver
      omega
    · next hUnder =>
      rw [gt_iff_lt, BitVec.lt_def] at hUnder
      omega
  · exact BitVec.toNat_sub_of_le (BitVec.le_def.mpr hDue)

end Distance

/-! ## One turn -/

/-- The steps of a turn: the wait, the sleep, what I/O handlers do, and the time moved on. -/
def turnLabels (tvSec tvUsec slept : BitVec 64) (handlers : List (List (Effect φ δ))) :
    List (Label φ δ) :=
  .wait tvSec tvUsec :: .select slept :: (handlers.map .io ++ [.slept])

section Path

variable {s s' : State φ δ} {tvSec tvUsec slept : BitVec 64}

theorem handlers_path {plan : Plan} {handlers : List (List (Effect φ δ))}
    {q : List (Label φ δ × Machine φ δ)} {phase : Phase} (hPlan : plan ≠ .poll)
    (h : Path Step ⟨s, .selected plan slept⟩ q ⟨s', phase⟩)
    (hLabels : q.map Prod.fst = handlers.map .io ++ [.slept]) :
    ∃ t, SameWords s t ∧
      s' = waitAdvance { t with extraSelecttime := 0 } (plan.slept slept) := by
  induction handlers generalizing s q with
  | nil =>
    cases h with
    | nil => cases hLabels
    | cons hStep hRest =>
      obtain ⟨hLabel, hNil⟩ := List.cons.inj hLabels
      cases List.map_eq_nil_iff.mp hNil
      cases hRest
      cases hStep with
      | slept _ => exact ⟨s, ⟨rfl, rfl, rfl, rfl⟩, rfl⟩
      | polled => exact absurd rfl hPlan
      | _ => cases hLabel
  | cons effects handlers ih =>
    cases h with
    | nil => cases hLabels
    | cons hStep hRest =>
      obtain ⟨hLabel, hTail⟩ := List.cons.inj hLabels
      cases hStep with
      | ioSelected hOk =>
        obtain ⟨t, hSame, hEq⟩ := ih hRest hTail
        exact ⟨t, (SameWords.of_effects hOk).trans hSame, hEq⟩
      | _ => cases hLabel

theorem waitPlan_ne_poll (s : State φ δ) (tvSec tvUsec : BitVec 64) :
    waitPlan s tvSec tvUsec ≠ .poll := by
  rw [waitPlan]
  split
  · exact Plan.noConfusion
  · dsimp only
    split <;> exact Plan.noConfusion

theorem turn_path {handlers : List (List (Effect φ δ))} {q : List (Label φ δ × Machine φ δ)}
    {phase : Phase} (h : Path Step ⟨s, .waitirq⟩ q ⟨s', phase⟩)
    (hLabels : q.map Prod.fst = turnLabels tvSec tvUsec slept handlers) :
    s'.virtualNow = s.virtualNow +
        ((waitPlan s tvSec tvUsec).slept slept + s.idleslop.setWidth 64) ∧
      s'.cpuCyclesCount = s.cpuCyclesCount ∧ s'.extraSelecttime = 0 := by
  cases h with
  | nil => cases hLabels
  | cons hWait hRest =>
    obtain ⟨hLabel, hTail⟩ := List.cons.inj hLabels
    cases hWait with
    | wait hMask =>
      cases hLabel
      cases hRest with
      | nil => cases hTail
      | cons hSelect hRest =>
        obtain ⟨hLabel, hHandlers⟩ := List.cons.inj hTail
        cases hSelect with
        | select hJump =>
          cases hLabel
          obtain ⟨t, hSame, rfl⟩ :=
            handlers_path (waitPlan_ne_poll s tvSec tvUsec) hRest hHandlers
          refine ⟨?_, hSame.cpuCyclesCount, rfl⟩
          simp only [waitAdvance, clockVadvance, hSame.virtualNow, hSame.idleslop]
    | _ => cases hLabel

end Path

theorem timed_of_run {tvSec : BitVec 32} {offset : BitVec 64} {m : Machine φ δ}
    {p : List (Label φ δ × Machine φ δ)} (h : Path Step (start tvSec offset) p m) : Timed m :=
  h.invariant (fun _ _ _ hm hStep => hm.step hStep) (timed_start tvSec offset)

theorem settled_of_run {tvSec : BitVec 32} {offset : BitVec 64} {s : State φ δ}
    {p : List (Label φ δ × Machine φ δ)} (h : Path Step (start tvSec offset) p ⟨s, .waitirq⟩) :
    Settled s := ⟨(timed_of_run h).extra, (timed_of_run h).count⟩

/-- A turn of `clock_waitirq` that waits for an event is right just where the event is not overdue,
the host's clock is not behind the offset, and the residue still fits before the event. -/
theorem idle_wait_iff {tvSec₀ : BitVec 32} {offset : BitVec 64} {s s' : State φ δ} {ta : Slot}
    {p q : List (Label φ δ × Machine φ δ)} {phase : Phase} {tvSec tvUsec slept : BitVec 64}
    {handlers : List (List (Effect φ δ))}
    (hRun : Path Step (start tvSec₀ offset) p ⟨s, .waitirq⟩) (hHead : s.queuehead = some ta)
    (hTurn : Path Step ⟨s, .waitirq⟩ q ⟨s', phase⟩)
    (hLabels : q.map Prod.fst = turnLabels tvSec tvUsec slept handlers) :
    WaitRight s ta tvSec tvUsec slept s' ↔ WaitMeets s ta tvSec tvUsec slept := by
  have hSettled := settled_of_run hRun
  obtain ⟨hNow, hCount, hExtra⟩ := turn_path hTurn hLabels
  have hSlop : (s.idleslop.setWidth 64).toNat = s.idleslop.toNat := by
    have hLt := s.idleslop.isLt
    rw [BitVec.toNat_setWidth]
    omega
  have hNow' : (clockVnow s').toNat = ((clockVnow s).toNat +
      (((waitPlan s tvSec tvUsec).slept slept).toNat + s.idleslop.toNat)) % 2 ^ 64 := by
    have hSettled' : Settled s' := ⟨hExtra, hCount.trans hSettled.cpuCyclesCount⟩
    rw [hSettled'.clockVnow, hNow, hSettled.clockVnow, BitVec.toNat_add, BitVec.toNat_add, hSlop,
      Nat.add_mod_mod]
  constructor
  · intro hRight
    have hDue : (clockVnow s).toNat ≤ (s.vtime ta).toNat :=
      Nat.le_trans (Nat.le_add_left _ _) hRight.vahead
    have hHost : ¬ tvSec.slt (s.startSecs.setWidth 64) →
        s.startNsecs.toNat ≤ (hostNsecs s tvSec tvUsec).toNat := by
      intro hAfter
      rw [← startNsecs_toNat]
      refine BitVec.le_def.mp (hRight.subs (hostNsecs s tvSec tvUsec, _) ?_)
      rw [waitSubs, vaheadSubs, if_neg hAfter]
      exact List.mem_append_left _ List.mem_cons_self
    refine ⟨hDue, hHost, ?_⟩
    have hBound := hRight.advance ▸ hRight.bound
    rw [slept_toNat hHead hDue hHost] at hBound
    split at hBound
    · next hFar => exact .inr ⟨hFar, by omega⟩
    · left
      apply BitVec.eq_of_toNat_eq
      change s.idleslop.toNat = 0
      omega
  · rintro ⟨hDue, hHost, hResidue⟩
    have hLimit := (s.vtime ta).isLt
    have hSlept := slept_toNat hHead hDue hHost slept
    have hAhead := clockVahead_toNat hDue hHost
    have hLe : ahead s ta tvSec tvUsec ≤ (s.vtime ta).toNat - (clockVnow s).toNat := by
      rw [ahead]
      split
      · exact Nat.zero_le _
      · exact Nat.min_le_left _ _
    have hFits : ((waitPlan s tvSec tvUsec).slept slept).toNat + s.idleslop.toNat ≤
        (s.vtime ta).toNat - (clockVnow s).toNat := by
      rw [hSlept]
      rcases hResidue with hNone | ⟨hFar, hFits⟩
      · have hZero : s.idleslop.toNat = 0 := by rw [hNone]; rfl
        split <;> omega
      · rw [if_pos hFar]
        exact hFits
    have hAdvance := hNow'.trans (Nat.mod_eq_of_lt (by omega))
    refine ⟨?_, by omega, hAdvance, by omega⟩
    intro sub hSub
    rcases List.mem_append.mp hSub with hSub | hSub
    · exact mem_vaheadSubs hDue hHost sub hSub
    · split at hSub
      · cases hSub
      · rw [List.mem_singleton.mp hSub]
        exact BitVec.le_def.mpr hDue

/-! ### A wait that ends on the host's time, before the event -/

/-- Start-up was at second 0 of the host, and the queue holds one event for 20000001 ns. -/
structure OneEvent (s : State Unit Unit) (n : Slot) (now : BitVec 64) (slop : BitVec 32) :
    Prop where
  settled : Settled s
  cpuRunningMask : s.cpuRunningMask = 0
  startSecs : s.startSecs = 0
  startNsecs : s.startNsecs = 0
  queuehead : s.queuehead = some n
  vtime : s.vtime n = 20000001
  virtualNow : s.virtualNow = now
  idleslop : s.idleslop = slop

def afterWait (s : State Unit Unit) (tvUsec slept : BitVec 64) : State Unit Unit :=
  waitAdvance { s with extraSelecttime := 0 } ((waitPlan s 0 tvUsec).slept slept)

theorem clockInit_startSecs (tvSec : BitVec 32) (offset : BitVec 64) :
    (clockInit tvSec offset : State φ δ).startSecs = tvSec := by
  have h := (acallocInit_sameClock (clockCoreinit (zeroed : State φ δ) tvSec)).startSecs
  rw [clockInit, clockVadvance_startSecs, h]
  rfl

theorem oneEvent_start : ∃ p s n, Path Step (start 0 0) p ⟨s, .waitirq⟩ ∧ OneEvent s n 0 0 := by
  obtain ⟨n, free, hFree⟩ : ∃ n free, (List.finRange maxActions).reverse = n :: free :=
    List.exists_cons_of_length_pos (by simp [maxActions])
  have hHolds : Holds (clockInit 0 0 : State Unit Unit) [] (n :: free) none := by
    rw [← hFree]
    exact clockInit_holds 0 0
  let r : Request Unit Unit := ⟨20000000, 1, none, 0, (), "timer"⟩
  obtain ⟨s, hOk, hSpec, hHolds'⟩ := scheduleEvent_spec hHolds r
  have hIo : Step (start 0 0 : Machine Unit Unit) (.io [.schedule r]) ⟨s, .top⟩ :=
    Step.io (by rw [applyEffects, Effect.apply, hOk]; rfl)
  refine ⟨_, s, n, Path.cons hIo (Path.cons Step.waitirq (Path.nil _)), ?_⟩
  have hSame := hSpec.sameClock
  constructor
  · exact (clockInit_settled 0 0).of_sameTime (SameTime.of_sameClock hSame)
  · exact hSame.cpuRunningMask.trans (Accounting.clockInit_asleep 0 0).cpuRunningMask
  · exact hSame.startSecs.trans (clockInit_startSecs 0 0)
  · exact hSame.startNsecs.trans (WallClock.clockInit_startNsecs 0 0)
  · exact hHolds'.pendingLinked.1
  · have hDue : s.vtime n = dueTime (clockInit 0 0) r := congrArg Prod.fst hSpec.event_new
    rw [hDue, dueTime, (clockInit_settled 0 0).clockVnow, clockInit_virtualNow_zero]
    decide
  · exact hSame.virtualNow.trans (clockInit_virtualNow_zero 0)
  · exact hSame.idleslop.trans (Accounting.clockInit_idleslop 0 0)

theorem OneEvent.turn {s : State Unit Unit} {n : Slot} {now : BitVec 64} {slop : BitVec 32}
    (h : OneEvent s n now slop) (tvUsec slept : BitVec 64)
    (hJump : ∀ nsecs, waitPlan s 0 tvUsec = .jump nsecs → slept = 0) :
    ∃ q, Path Step ⟨s, .waitirq⟩ q
        ⟨afterWait s tvUsec slept, .queue none (clockVnow (afterWait s tvUsec slept))⟩ ∧
      q.map Prod.fst = turnLabels 0 tvUsec slept [] :=
  ⟨_, .cons (Step.wait h.cpuRunningMask) (.cons (Step.select hJump)
    (.cons (Step.slept (waitPlan_ne_poll s 0 tvUsec)) (.nil _))), rfl⟩

/-- `clock_vahead` of the event, with this time on the host since start-up. -/
def vaheadOf (now pnsecs : BitVec 64) : BitVec 64 :=
  if 20000001 ≤ pnsecs then 0
  else if now ≤ pnsecs then 20000001 - pnsecs
  else 20000001 - now

theorem OneEvent.waitPlan_eq {s : State Unit Unit} {n : Slot} {now : BitVec 64} {slop : BitVec 32}
    (h : OneEvent s n now slop) (tvUsec : BitVec 64) :
    waitPlan s 0 tvUsec =
      if vaheadOf now (tvUsec * 1000) > 10000000 then .sleep (vaheadOf now (tvUsec * 1000))
      else .jump (20000001 - now) := by
  have hBefore : (0 : BitVec 64).slt ((0 : BitVec 32).setWidth 64) = false := by decide
  have hHost : hostNsecs s 0 tvUsec - s.startNsecs.setWidth 64 = tvUsec * 1000 := by
    rw [hostNsecs, h.startSecs, h.startNsecs]
    simp
  have hVnow : clockVnow s = now := h.settled.clockVnow.trans h.virtualNow
  have hVahead : clockVahead s now 20000001 0 tvUsec = vaheadOf now (tvUsec * 1000) := by
    rw [clockVahead_eq, hHost, h.startSecs, hBefore, if_neg Bool.false_ne_true, vaheadOf]
  simp only [waitPlan, h.queuehead, hVnow, h.vtime, hVahead]

/-- The first wait sleeps until the host's time is that of the event; virtual time is behind. -/
theorem OneEvent.first {s : State Unit Unit} {n : Slot} (h : OneEvent s n 0 0) :
    waitPlan s 0 1000 = .sleep 19000001 ∧ OneEvent (afterWait s 1000 19001000) n 19000001 1 := by
  have hPlan : waitPlan s 0 1000 = .sleep 19000001 := by
    have hAhead : vaheadOf 0 (1000 * 1000) = 19000001 := by decide
    rw [h.waitPlan_eq, hAhead, if_pos (by decide)]
  refine ⟨hPlan, ⟨rfl, h.settled.cpuCyclesCount⟩, h.cpuRunningMask, h.startSecs, h.startNsecs,
    h.queuehead, h.vtime, ?_, ?_⟩
  · simp only [afterWait, hPlan, waitAdvance, clockVadvance, h.virtualNow, h.idleslop]
    decide
  · simp only [afterWait, hPlan, waitAdvance, clockVadvance, h.idleslop]
    decide

theorem OneEvent.second {s : State Unit Unit} {n : Slot} (h : OneEvent s n 19000001 1) :
    waitPlan s 0 20001 = .jump 1000000 ∧ (afterWait s 20001 0).virtualNow = 20000002 := by
  have hPlan : waitPlan s 0 20001 = .jump 1000000 := by
    have hAhead : vaheadOf 19000001 (20001 * 1000) = 0 := by decide
    have hLeft : (20000001 - 19000001 : BitVec 64) = 1000000 := by decide
    rw [h.waitPlan_eq, hAhead, if_neg (by decide), hLeft]
  refine ⟨hPlan, ?_⟩
  simp only [afterWait, hPlan, waitAdvance, clockVadvance, h.virtualNow, h.idleslop]
  decide

/-- Without a residue the wait is right. -/
theorem first_wait_right : ∃ p q s s' n, Path Step (start 0 0 : Machine Unit Unit) p ⟨s, .waitirq⟩ ∧
    Path Step ⟨s, .waitirq⟩ q ⟨s', .queue none (clockVnow s')⟩ ∧
    WaitRight s n 0 1000 19001000 s' := by
  obtain ⟨p, s, n, hRun, hOne⟩ := oneEvent_start
  obtain ⟨hPlan, -⟩ := hOne.first
  obtain ⟨q, hTurn, hLabels⟩ := hOne.turn 1000 19001000
    (by rw [hPlan]; exact fun _ h => by cases h)
  refine ⟨p, q, s, _, n, hRun, hTurn, (idle_wait_iff hRun hOne.queuehead hTurn hLabels).mpr ?_⟩
  refine ⟨?_, fun _ => ?_, .inl hOne.idleslop⟩
  · rw [hOne.settled.clockVnow, hOne.virtualNow, hOne.vtime]
    decide
  · rw [hOne.startNsecs]
    exact Nat.zero_le _

/-- The residue of a wait cut short takes virtual time past the event. -/
theorem not_idle_wait : ∃ p q s s' n, Path Step (start 0 0 : Machine Unit Unit) p ⟨s, .waitirq⟩ ∧
    s.queuehead = some n ∧ Path Step ⟨s, .waitirq⟩ q ⟨s', .queue none (clockVnow s')⟩ ∧
    q.map Prod.fst = turnLabels 0 20001 0 [] ∧ ¬ WaitRight s n 0 20001 0 s' := by
  obtain ⟨p, s, n, hRun, hOne⟩ := oneEvent_start
  obtain ⟨hPlan, hNext⟩ := hOne.first
  obtain ⟨q, hTurn, -⟩ := hOne.turn 1000 19001000
    (by rw [hPlan]; exact fun _ h => by cases h)
  obtain ⟨hJump, hPast⟩ := hNext.second
  obtain ⟨q', hTurn', hLabels⟩ := hNext.turn 20001 0 fun _ _ => rfl
  have hLeave : popDue (afterWait s 1000 19001000) (clockVnow (afterWait s 1000 19001000)) =
      none := by
    rw [popDue, hNext.queuehead, hNext.settled.clockVnow, hNext.virtualNow]
    apply if_pos
    rw [hNext.vtime]
    decide
  refine ⟨_, q', _, _, n, (hRun.append hTurn).append (.cons (Step.leaveWait hLeave) (.nil _)),
    hNext.queuehead, hTurn', hLabels, fun hRight => ?_⟩
  have hSettled : Settled (afterWait (afterWait s 1000 19001000) 20001 0) :=
    ⟨rfl, hNext.settled.cpuCyclesCount⟩
  have hBound := hRight.bound
  rw [hSettled.clockVnow, hPast, hNext.vtime] at hBound
  exact absurd hBound (by decide)

/-! ## The head of the queue is not overdue -/

/-- Outside of the dispatcher, nothing on the queue is due before the present. -/
def NoneOverdue (m : Machine φ δ) : Prop :=
  match m.phase with
  | .top | .waitirq | .waiting _ | .selected _ _ => NotOverdue m.clock
  | .cycles _ _ _ | .ticks _ _ => Pending (fun _ => True) m.clock none
  | .queue _ vnow => Pending (fun _ => True) m.clock none ∧ vnow = clockVnow m.clock
  | .handler _ vnow ta => Pending (fun _ => True) m.clock (some ta) ∧ vnow = clockVnow m.clock

/-- Neither a due time nor virtual time wraps around. -/
def Unwrapped (m : Machine φ δ) (l : Label φ δ) (m' : Machine φ δ) : Prop :=
  (∀ effects, l = .io effects ∨ l = .handler effects ∨ (∃ ok, l = .cycle ok effects) →
    AllRequests NoWrap m.clock effects) ∧ peak m' < 2 ^ 64

theorem virtualNow_le {m : Machine φ δ} (hm : Timed m) (hPeak : peak m < 2 ^ 64)
    (hIdle : cyclesDone m.phase = 0) (hCount : m.clock.cpuCyclesCount = 0) :
    m.clock.virtualNow.toNat ≤ (clockVnow m.clock).toNat := by
  rw [clockVnow_toNat hm hPeak (by rw [hIdle, hCount]; rfl)]
  exact Nat.le_trans (Nat.le_add_right _ _) (Nat.le_add_right _ _)

theorem NotOverdue.effects {s s' : State φ δ} {es : List (Effect φ δ)} (h : NotOverdue s)
    (hOk : applyEffects s es = .ok s') (hAll : AllRequests NoWrap s es)
    (hLe : s.virtualNow.toNat ≤ (clockVnow s).toNat) : NotOverdue s' := by
  rw [NotOverdue, (applyEffects_sameTime hOk).virtualNow]
  exact Pending.effects h hOk hAll fun t ht => Nat.le_trans hLe ht

theorem NotOverdue.of_leave {s s' : State φ δ} {vnow : BitVec 64}
    (h : Pending (fun _ => True) s none) (hPop : popDue s vnow = none)
    (hLe : s.virtualNow.toNat ≤ vnow.toNat) (hAction : s'.actionStorage = s.actionStorage)
    (hQueue : s'.queuehead = s.queuehead) (hFree : s'.taFreelist = s.taFreelist)
    (hNow : s'.virtualNow = s.virtualNow) : NotOverdue s' := by
  rw [NotOverdue, hNow]
  exact (h.leave hPop).frame hAction hQueue hFree fun t ht =>
    Nat.le_of_lt (Nat.lt_of_le_of_lt hLe ht)

theorem clockGetrunticks_pending {P : Nat → Prop} {s : State φ δ} {inflight : Option Slot}
    (h : Pending P s inflight) : Pending P (clockGetrunticks s).2 inflight := by
  rw [clockGetrunticks]
  split
  · exact h
  · dsimp only
    split
    · exact h
    · split
      · exact setMark_pending h _
      · exact h

theorem cyclesTurn_queue (s : State φ δ) (ok : Bool) (i maxcycles : BitVec 64) :
    (cyclesTurn s ok i maxcycles).2.actionStorage = s.actionStorage ∧
      (cyclesTurn s ok i maxcycles).2.queuehead = s.queuehead ∧
      (cyclesTurn s ok i maxcycles).2.taFreelist = s.taFreelist := by
  rw [cyclesTurn, cyclesSkip]
  cases ok with
  | true => split <;> exact ⟨rfl, rfl, rfl⟩
  | false => split <;> exact ⟨rfl, rfl, rfl⟩

theorem NoneOverdue.step {m m' : Machine φ δ} {l : Label φ δ} (hm : Timed m)
    (hPeak : peak m < 2 ^ 64) (h : NoneOverdue m) (hUnwrapped : Unwrapped m l m')
    (hStep : Step m l m') : NoneOverdue m' := by
  obtain ⟨hAll, -⟩ := hUnwrapped
  cases hStep with
  | io hOk => exact NotOverdue.effects h hOk (hAll _ (.inl rfl)) (virtualNow_le hm hPeak rfl hm.count)
  | ioSelected hOk =>
    exact NotOverdue.effects h hOk (hAll _ (.inl rfl)) (virtualNow_le hm hPeak rfl hm.count)
  | run =>
    have hMarked := clockGetrunticks_pending (Pending.mono h fun _ _ => trivial)
    exact hMarked.of_same rfl rfl rfl
  | @onecycle s plan slept =>
    have hPending : NotOverdue s := h
    have hAny : Pending (fun _ => True) s none := hPending.mono fun _ _ => trivial
    exact hAny.of_same rfl rfl rfl
  | @cycle s s' caller i maxcycles ok effects hLt hOn hOk =>
    have hPending : Pending (fun _ => True) s none := h
    have hRequested := hPending.effects hOk (hAll _ (.inr (.inr ⟨ok, rfl⟩))) fun _ _ => trivial
    obtain ⟨hAction, hQueue, hFree⟩ := cyclesTurn_queue s' ok i maxcycles
    exact hRequested.of_same hAction hQueue hFree
  | @endCycles s =>
    have hPending : Pending (fun _ => True) s none := h
    exact hPending.of_same rfl rfl rfl
  | @ticks s =>
    have hPending : Pending (fun _ => True) s none := h
    exact ⟨hPending.of_same rfl rfl rfl, rfl⟩
  | dispatch hPop =>
    obtain ⟨hPending, hVnow⟩ := h
    exact ⟨(hPending.pop hPop).2, hVnow.trans (popDue_sameClock hPop).clockVnow.symm⟩
  | @handler s s' caller vnow ta effects hOk =>
    obtain ⟨hPending, hVnow⟩ := h
    have hRequested := hPending.effects hOk (hAll _ (.inr (.inl rfl))) fun _ _ => trivial
    refine ⟨hRequested.acfree, hVnow.trans ?_⟩
    rw [(acfree_sameClock s' ta).clockVnow, (applyEffects_sameTime hOk).clockVnow]
  | @leaveTicks s caller vnow hPop =>
    obtain ⟨hPending, hVnow⟩ := h
    have hLe := virtualNow_le hm hPeak rfl hm.count
    obtain ⟨hAction, hQueue, hFree, hTime⟩ := checkDeadline_frame s
    have hDue : NotOverdue (checkDeadline s).1 :=
      NotOverdue.of_leave hPending hPop (hVnow ▸ hLe) hAction hQueue hFree hTime.virtualNow
    cases caller with
    | runloop => exact hDue
    | select plan slept => exact hDue
  | leaveWait hPop =>
    obtain ⟨hPending, hVnow⟩ := h
    have hLe := virtualNow_le hm hPeak rfl hm.count
    exact NotOverdue.of_leave hPending hPop (hVnow ▸ hLe) rfl rfl rfl rfl
  | @slept s =>
    have hPending : NotOverdue s := h
    have hAny : Pending (fun _ => True) s none := hPending.mono fun _ _ => trivial
    exact ⟨hAny.of_same rfl rfl rfl, rfl⟩
  | @select s =>
    have hPending : NotOverdue s := h
    exact hPending.of_same rfl rfl rfl
  | @polled s =>
    have hPending : NotOverdue s := h
    exact hPending.of_same rfl rfl rfl
  | _ => exact h

/-- In a run in which nothing wraps around, the event that `clock_waitirq` waits for is due. -/
theorem due_of_run {tvSec : BitVec 32} {offset : BitVec 64} {s : State φ δ} {ta : Slot}
    {p : List (Label φ δ × Machine φ δ)} (h : Path Step (start tvSec offset) p ⟨s, .waitirq⟩)
    (hAll : AllSteps Unwrapped (start tvSec offset) p) (hHead : s.queuehead = some ta) :
    (clockVnow s).toNat ≤ (s.vtime ta).toNat := by
  have hStart : Timed (start tvSec offset : Machine φ δ) ∧
      peak (start tvSec offset : Machine φ δ) < 2 ^ 64 ∧
      NoneOverdue (start tvSec offset : Machine φ δ) :=
    ⟨timed_start tvSec offset, peak_start tvSec offset, (start_inv tvSec offset).2⟩
  have hEnd := h.last_state (h.allStates_of_allSteps
    (P := fun m => Timed m ∧ peak m < 2 ^ 64 ∧ NoneOverdue m)
    (fun m l m' hm hUnwrapped hStep => ⟨hm.1.step hStep, hUnwrapped.2,
      hm.2.2.step hm.1 hm.2.1 hUnwrapped hStep⟩) hStart hAll)
  rw [(settled_of_run h).clockVnow]
  exact (Pending.head_le hEnd.2.2 hHead).1

end Sys161.Clock.IdleWait
