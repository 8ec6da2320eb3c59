import Sys161.Clock.Accounting
import Sys161.Lib.Scripts

/-!
# How late an event is dispatched

A run lasts until the head of the queue is due, rounded up to a cpu clock, and
`schedule_event` cuts it short when it puts an event in front of the head it was
computed for. With an empty queue, or a head too far off, there is no such head.
-/

namespace Sys161.Clock.Timeliness

open LinkedList Runs MainLoop

set_option autoImplicit false

variable {φ δ : Type}

/-! ## Bounds on all pending events -/

/-- The queue is in order and the due time of every pending event satisfies `P`. -/
def Pending (P : Nat → Prop) (s : State φ δ) (inflight : Option Slot) : Prop :=
  ∃ pending free, Queued s pending free inflight ∧ ∀ i ∈ pending, P (s.vtime i).toNat

namespace Pending

variable {P Q : Nat → Prop} {s s' : State φ δ} {inflight : Option Slot}

theorem mono (h : Pending P s inflight) (hImp : ∀ t, P t → Q t) : Pending Q s inflight := by
  obtain ⟨pending, free, hQueued, hAll⟩ := h
  exact ⟨pending, free, hQueued, fun i hi => hImp _ (hAll i hi)⟩

theorem of_same (h : Pending P s inflight) (hAction : s'.actionStorage = s.actionStorage)
    (hQueue : s'.queuehead = s.queuehead) (hFree : s'.taFreelist = s.taFreelist) :
    Pending P s' inflight := by
  obtain ⟨pending, free, hQueued, hAll⟩ := h
  refine ⟨pending, free, hQueued.of_same hAction hQueue hFree, ?_⟩
  intro i hi
  have hVtime : s'.vtime i = s.vtime i := by rw [State.vtime, hAction, State.vtime]
  rw [hVtime]
  exact hAll i hi

theorem schedule (h : Pending P s inflight) {r : Request φ δ} (hOk : scheduleEvent s r = .ok s')
    (hDue : P (dueTime s r).toNat) : Pending P s' inflight := by
  obtain ⟨pending, free, hQueued, hAll⟩ := h
  obtain ⟨n, free', rfl, hSpec, hQueued'⟩ := hQueued.schedule hOk
  refine ⟨_, free', hQueued', ?_⟩
  intro i hi
  rcases mem_insertBefore.mp hi with rfl | hMem
  · have hNew : s'.vtime i = dueTime s r := congrArg Prod.fst hSpec.event_new
    rw [hNew]
    exact hDue
  · have hin : i ≠ n := by
      rintro rfl
      exact hQueued.holds.free_not_pending List.mem_cons_self hMem
    have hOld : s'.vtime i = s.vtime i := congrArg Prod.fst (hSpec.event_other i hin)
    rw [hOld]
    exact hAll i hMem

theorem pop (h : Pending P s none) {vnow : BitVec 64} {ta : Slot}
    (hPop : popDue s vnow = some (ta, s')) :
    P (s.vtime ta).toNat ∧ Pending P s' (some ta) := by
  obtain ⟨pending, free, hQueued, hAll⟩ := h
  obtain ⟨-, hEvent, pending', rfl, hQueued'⟩ := hQueued.pop hPop
  have hVtime : s'.vtime = s.vtime := by
    funext i
    exact congrArg Prod.fst (congrFun hEvent i)
  refine ⟨hAll ta (by simp), pending', free, hQueued', ?_⟩
  intro i hi
  rw [hVtime]
  exact hAll i (List.mem_cons_of_mem _ hi)

theorem acfree {ta : Slot} (h : Pending P s (some ta)) : Pending P (acfree s ta) none := by
  obtain ⟨pending, free, hQueued, hAll⟩ := h
  have hVtime : (Clock.acfree s ta).vtime = s.vtime := by
    funext i
    exact congrArg Prod.fst (congrFun (acfree_spec hQueued.holds).2.1 i)
  refine ⟨pending, ta :: free, hQueued.acfree, ?_⟩
  rw [hVtime]
  exact hAll

/-- The head of the queue is the first event due. -/
theorem head_le (h : Pending P s inflight) {ta : Slot} (hHead : s.queuehead = some ta) :
    P (s.vtime ta).toNat ∧ Pending (fun t => (s.vtime ta).toNat ≤ t) s inflight := by
  obtain ⟨pending, free, hQueued, hAll⟩ := h
  have hLinked := hQueued.holds.pendingLinked
  rw [hHead] at hLinked
  obtain ⟨tail, rfl, -⟩ := linked_some hLinked
  refine ⟨hAll ta (by simp), ta :: tail, free, hQueued, ?_⟩
  intro i hi
  rcases List.mem_cons.mp hi with rfl | hi
  · exact Nat.le_refl _
  · exact BitVec.le_def.mp ((List.pairwise_cons.mp hQueued.sorted).1 i hi)

theorem of_empty (h : Pending P s inflight) (hHead : s.queuehead = none) :
    Pending Q s inflight := by
  obtain ⟨pending, free, hQueued, -⟩ := h
  have hLinked := hQueued.holds.pendingLinked
  rw [hHead] at hLinked
  obtain rfl := linked_none hLinked
  exact ⟨[], free, hQueued, by simp⟩

theorem leave (h : Pending P s none) {vnow : BitVec 64} (hPop : popDue s vnow = none) :
    Pending (fun t => vnow.toNat < t) s none := by
  cases hHead : s.queuehead with
  | none => exact h.of_empty hHead
  | some ta =>
    have hLater : vnow.toNat < (s.vtime ta).toNat := by
      rw [popDue, hHead] at hPop
      dsimp only at hPop
      split at hPop
      · next hLt => exact BitVec.lt_def.mp hLt
      · cases hPop
    exact (h.head_le hHead).2.mono fun t ht => Nat.lt_of_lt_of_le hLater ht

end Pending

/-! ## Conditions on what is scheduled -/

/-- `C` holds of every call of `schedule_event` in the list. -/
def AllRequests (C : State φ δ → Request φ δ → Prop) : State φ δ → List (Effect φ δ) → Prop
  | _, [] => True
  | s, e :: es =>
    (∀ r, e = .schedule r → C s r) ∧ ∀ s', e.apply s = .ok s' → AllRequests C s' es

/-- The due time does not wrap around. -/
def NoWrap (s : State φ δ) (r : Request φ δ) : Prop :=
  (clockVnow s).toNat + (r.nsecs + r.jitter).toNat < 2 ^ 64

/-- The head of the queue is the event the cpu was told it can run until, and it is due later. -/
def BeforeMark (s : State φ δ) (vtime : BitVec 64) : Prop :=
  ∃ ta, s.queuehead = some ta ∧ s.marked ta = true ∧ vtime < s.vtime ta

/-- A request made in a run of `maxcycles`: it is due after the present time, and the run is
being stopped, or it stops the run, or the run ends in time for it. -/
def InRun (maxcycles : BitVec 64) (s : State φ δ) (r : Request φ δ) : Prop :=
  NoWrap s r ∧ 0 < (r.nsecs + r.jitter).toNat ∧
    (s.cpuCycling = false ∨ BeforeMark s (dueTime s r) ∨
      s.virtualNow.toNat + 40 * maxcycles.toNat < (dueTime s r).toNat + 40)

theorem dueTime_toNat {s : State φ δ} {r : Request φ δ} (h : NoWrap s r) :
    (dueTime s r).toNat = (clockVnow s).toNat + (r.nsecs + r.jitter).toNat := by
  rw [dueTime, BitVec.toNat_add, Nat.mod_eq_of_lt h]

/-- The words that make up the present time. -/
structure SameTime (s s' : State φ δ) : Prop where
  virtualNow : s'.virtualNow = s.virtualNow
  cpuCyclesCount : s'.cpuCyclesCount = s.cpuCyclesCount
  extraSelecttime : s'.extraSelecttime = s.extraSelecttime

theorem SameTime.refl (s : State φ δ) : SameTime s s := ⟨rfl, rfl, rfl⟩

theorem SameTime.trans {s t u : State φ δ} (h : SameTime s t) (h' : SameTime t u) :
    SameTime s u :=
  ⟨h'.virtualNow.trans h.virtualNow, h'.cpuCyclesCount.trans h.cpuCyclesCount,
    h'.extraSelecttime.trans h.extraSelecttime⟩

theorem SameTime.clockVnow {s s' : State φ δ} (h : SameTime s s') :
    clockVnow s' = clockVnow s := by
  simp only [Clock.clockVnow, h.virtualNow, h.cpuCyclesCount, h.extraSelecttime]

/-- Calls other than `schedule_event` leave the queue and the time alone. -/
theorem Effect.apply_cases {s s' : State φ δ} {e : Effect φ δ} (h : e.apply s = .ok s') :
    (∃ r, e = .schedule r ∧ scheduleEvent s r = .ok s') ∨
      (s'.actionStorage = s.actionStorage ∧ s'.queuehead = s.queuehead ∧
        s'.taFreelist = s.taFreelist ∧ SameTime s s' ∧
        (s'.cpuCycling = s.cpuCycling ∨ s'.cpuCycling = false)) := by
  cases e with
  | schedule r => exact Or.inl ⟨r, rfl, h⟩
  | stopcycling =>
    cases h
    exact Or.inr ⟨rfl, rfl, rfl, ⟨rfl, rfl, rfl⟩, Or.inr rfl⟩
  | _ =>
    cases h
    exact Or.inr ⟨rfl, rfl, rfl, ⟨rfl, rfl, rfl⟩, Or.inl rfl⟩

theorem SameTime.of_sameClock {s s' : State φ δ} (h : SameClock s s') : SameTime s s' :=
  ⟨h.virtualNow, h.cpuCyclesCount, h.extraSelecttime⟩

theorem Effect.sameTime {s s' : State φ δ} {e : Effect φ δ} (h : e.apply s = .ok s') :
    SameTime s s' := by
  rcases Effect.apply_cases h with ⟨r, -, hOk⟩ | ⟨-, -, -, hTime, -⟩
  · exact SameTime.of_sameClock (scheduleEvent_sameClock hOk)
  · exact hTime

theorem applyEffects_sameTime {s s' : State φ δ} {es : List (Effect φ δ)}
    (h : applyEffects s es = .ok s') : SameTime s s' := by
  induction es generalizing s with
  | nil =>
    cases h
    exact SameTime.refl _
  | cons e es ih =>
    obtain ⟨t, hHead, hTail⟩ := applyEffects_cons h
    exact (Effect.sameTime hHead).trans (ih hTail)

/-- Events scheduled without wrapping around are due at the present time or later. -/
theorem Pending.effects {P : Nat → Prop} {s s' : State φ δ} {inflight : Option Slot}
    {es : List (Effect φ δ)} (h : Pending P s inflight) (hOk : applyEffects s es = .ok s')
    (hAll : AllRequests NoWrap s es) (hLater : ∀ t, (clockVnow s).toNat ≤ t → P t) :
    Pending P s' inflight := by
  induction es generalizing s with
  | nil =>
    cases hOk
    exact h
  | cons e es ih =>
    obtain ⟨t, hHead, hTail⟩ := applyEffects_cons hOk
    have hTime := (Effect.sameTime hHead).clockVnow
    refine ih ?_ hTail (hAll.2 t hHead) (by rw [hTime]; exact hLater)
    rcases Effect.apply_cases hHead with ⟨r, rfl, hSchedule⟩ | ⟨hAction, hQueue, hFree, -⟩
    · refine h.schedule hSchedule (hLater _ ?_)
      rw [dueTime_toNat (hAll.1 r rfl)]
      exact Nat.le_add_right _ _
    · exact h.of_same hAction hQueue hFree

/-! ## A run of the cpus -/

/-- The cycle count at which a run in its cycle `i` will end unless it is stopped. -/
def runEnd (s : State φ δ) (i maxcycles : Nat) : Nat :=
  if s.cpuCycling then maxcycles else i + 1

/-- Within cycle `i` of a run, every pending event is due less than a cpu clock before the end. -/
structure InCycle (s : State φ δ) (i maxcycles : Nat) : Prop where
  settled : s.extraSelecttime = 0
  count : s.cpuCyclesCount.toNat = i
  lt : i < maxcycles
  noWrap : s.virtualNow.toNat + 40 * maxcycles < 2 ^ 64
  pending : Pending (fun t => s.virtualNow.toNat + 40 * runEnd s i maxcycles < t + 40) s none

theorem InCycle.clockVnow {s : State φ δ} {i maxcycles : Nat} (h : InCycle s i maxcycles) :
    (clockVnow s).toNat = s.virtualNow.toNat + 40 * i := by
  have hNoWrap := h.noWrap
  have hLt := h.lt
  have hVnow : Clock.clockVnow s = s.virtualNow + nsecsPerClock * s.cpuCyclesCount := by
    simp [Clock.clockVnow, h.settled]
  rw [hVnow, BitVec.toNat_add, BitVec.toNat_mul, nsecsPerClock_toNat, h.count]
  omega

theorem InCycle.succ_le_runEnd {s : State φ δ} {i maxcycles : Nat} (h : InCycle s i maxcycles) :
    i + 1 ≤ runEnd s i maxcycles := by
  have hLt := h.lt
  rw [runEnd]
  split <;> omega

/-- An event put in front of a marked head stops the run. -/
theorem stops_of_beforeMark {s s' : State φ δ} {inflight : Option Slot} {P : Nat → Prop}
    (h : Pending P s inflight) {r : Request φ δ} (hOk : scheduleEvent s r = .ok s')
    (hMark : BeforeMark s (dueTime s r)) : s'.cpuCycling = false := by
  obtain ⟨pending, free, hQueued, -⟩ := h
  obtain ⟨ta, hHead, hMarked, hLt⟩ := hMark
  obtain ⟨n, free', rfl, hSpec, -⟩ := hQueued.schedule hOk
  have hLinked := hQueued.holds.pendingLinked
  rw [hHead] at hLinked
  obtain ⟨tail, rfl, -⟩ := linked_some hLinked
  have hLater : later s (dueTime s r) ta = true := by simpa [later] using hLt
  have hNext : nextAction s (dueTime s r) (ta :: tail) = some ta := by
    simp [nextAction, hLater]
  rw [hSpec.cpuCycling, hNext]
  simp [hMarked]

theorem schedule_cpuCycling {s s' : State φ δ} {inflight : Option Slot} {P : Nat → Prop}
    (h : Pending P s inflight) {r : Request φ δ} (hOk : scheduleEvent s r = .ok s')
    (hOff : s.cpuCycling = false) : s'.cpuCycling = false := by
  obtain ⟨pending, free, hQueued, -⟩ := h
  obtain ⟨n, free', rfl, hSpec, -⟩ := hQueued.schedule hOk
  rw [hSpec.cpuCycling, hOff]
  rfl

theorem runEnd_le {s s' : State φ δ} {i maxcycles : Nat} (hLt : i < maxcycles)
    (h : s.cpuCycling = false → s'.cpuCycling = false) :
    runEnd s' i maxcycles ≤ runEnd s i maxcycles := by
  rw [runEnd, runEnd]
  cases hs : s.cpuCycling with
  | true =>
    rw [if_pos rfl]
    split <;> omega
  | false => rw [h hs]

theorem InCycle.effect {s s' : State φ δ} {i : Nat} {maxcycles : BitVec 64} {e : Effect φ δ}
    (h : InCycle s i maxcycles.toNat) (hOk : e.apply s = .ok s')
    (hRequest : ∀ r, e = .schedule r → InRun maxcycles s r) : InCycle s' i maxcycles.toNat := by
  have hTime := Effect.sameTime hOk
  have hNow := h.clockVnow
  have hSucc := h.succ_le_runEnd
  have hSettled : s'.extraSelecttime = 0 := by rw [hTime.extraSelecttime, h.settled]
  have hCount : s'.cpuCyclesCount.toNat = i := by rw [hTime.cpuCyclesCount, h.count]
  refine ⟨hSettled, hCount, h.lt, by rw [hTime.virtualNow]; exact h.noWrap, ?_⟩
  rw [hTime.virtualNow]
  rcases Effect.apply_cases hOk with ⟨r, rfl, hSchedule⟩ | ⟨hAction, hQueue, hFree, -, hCycling⟩
  · obtain ⟨hNoWrap, hPos, hCase⟩ := hRequest r rfl
    have hDue := dueTime_toNat hNoWrap
    have hOff := schedule_cpuCycling h.pending hSchedule
    have hEnd := runEnd_le h.lt hOff
    have hOld : Pending (fun t => s.virtualNow.toNat + 40 * runEnd s' i maxcycles.toNat < t + 40)
        s none := h.pending.mono fun t ht => by omega
    refine hOld.schedule hSchedule ?_
    cases hOn : s'.cpuCycling with
    | false =>
      have hStop : runEnd s' i maxcycles.toNat = i + 1 := by rw [runEnd, hOn]; rfl
      omega
    | true =>
      have hFull : runEnd s' i maxcycles.toNat = maxcycles.toNat := by rw [runEnd, hOn]; rfl
      rcases hCase with hStopped | hMark | hLate
      · rw [hOff hStopped] at hOn
        cases hOn
      · rw [stops_of_beforeMark h.pending hSchedule hMark] at hOn
        cases hOn
      · omega
  · have hOff : s.cpuCycling = false → s'.cpuCycling = false := by
      intro hs
      rcases hCycling with hEq | hEq
      · rw [hEq, hs]
      · exact hEq
    have hEnd := runEnd_le h.lt hOff
    exact (h.pending.mono fun t ht => by omega).of_same hAction hQueue hFree

theorem InCycle.effects {s s' : State φ δ} {i : Nat} {maxcycles : BitVec 64}
    {es : List (Effect φ δ)} (h : InCycle s i maxcycles.toNat)
    (hOk : applyEffects s es = .ok s') (hAll : AllRequests (InRun maxcycles) s es) :
    InCycle s' i maxcycles.toNat := by
  induction es generalizing s with
  | nil =>
    cases hOk
    exact h
  | cons e es ih =>
    obtain ⟨t, hHead, hTail⟩ := applyEffects_cons hOk
    exact ih (h.effect hHead hAll.1) hTail (hAll.2 t hHead)

/-! ## The machine -/

/-- Between the calls that move time, virtual time is all there is to the present time. -/
structure Settled (s : State φ δ) : Prop where
  extraSelecttime : s.extraSelecttime = 0
  cpuCyclesCount : s.cpuCyclesCount = 0

theorem Settled.clockVnow {s : State φ δ} (h : Settled s) : clockVnow s = s.virtualNow := by
  simp [Clock.clockVnow, h.extraSelecttime, h.cpuCyclesCount]

theorem Settled.of_sameTime {s s' : State φ δ} (h : Settled s) (hTime : SameTime s s') :
    Settled s' :=
  ⟨hTime.extraSelecttime.trans h.extraSelecttime, hTime.cpuCyclesCount.trans h.cpuCyclesCount⟩

/-- No pending event is overdue. -/
def NotOverdue (s : State φ δ) : Prop := Pending (fun t => s.virtualNow.toNat ≤ t) s none

/-- What holds in each phase of the main loop. -/
def Inv (m : Machine φ δ) : Prop :=
  match m.phase with
  | .top | .waitirq | .waiting .poll => Settled m.clock ∧ NotOverdue m.clock
  | .cycles caller i maxcycles =>
    caller = .runloop ∧ m.clock.extraSelecttime = 0 ∧ i ≤ maxcycles ∧
      (i < maxcycles → m.clock.cpuCyclesCount = i) ∧
      m.clock.virtualNow.toNat + 40 * maxcycles.toNat < 2 ^ 64 ∧
      Pending (fun t => m.clock.virtualNow.toNat +
        40 * (if m.clock.cpuCycling then maxcycles.toNat else i.toNat) < t + 40) m.clock none
  | .ticks caller nticks =>
    caller = .runloop ∧ Settled m.clock ∧
      m.clock.virtualNow.toNat + 40 * nticks.toNat < 2 ^ 64 ∧
      Pending (fun t => m.clock.virtualNow.toNat + 40 * nticks.toNat < t + 40) m.clock none
  | .queue (some caller) vnow =>
    caller = .runloop ∧ Settled m.clock ∧ vnow = m.clock.virtualNow ∧
      Pending (fun t => m.clock.virtualNow.toNat < t + 40) m.clock none
  | .queue none vnow =>
    Settled m.clock ∧ vnow = m.clock.virtualNow ∧ Pending (fun _ => True) m.clock none
  | .handler (some caller) vnow ta =>
    caller = .runloop ∧ Settled m.clock ∧ vnow = m.clock.virtualNow ∧
      Pending (fun t => m.clock.virtualNow.toNat < t + 40) m.clock (some ta)
  | .handler none vnow ta =>
    Settled m.clock ∧ vnow = m.clock.virtualNow ∧ Pending (fun _ => True) m.clock (some ta)
  | .waiting _ => Settled m.clock ∧ Pending (fun _ => True) m.clock none
  | .selected .poll slept =>
    m.clock.cpuCyclesCount = 0 ∧ m.clock.extraSelecttime = slept ∧
      m.clock.virtualNow.toNat + slept.toNat < 2 ^ 64 ∧ NotOverdue m.clock
  | .selected _ _ => m.clock.cpuCyclesCount = 0 ∧ Pending (fun _ => True) m.clock none

/-- The main loop runs for all that `clock_getrunticks` says, and neither breakpoints nor single
steps from the debugger come in. -/
def LoopRun (m : Machine φ δ) (l : Label φ δ) (_ : Machine φ δ) : Prop :=
  match l with
  | .run maxcycles => maxcycles = (clockGetrunticks m.clock).1
  | .cycle ok _ => ok = true
  | .onecycle => False
  | _ => True

/-- Nothing wraps around, and what is scheduled in a run is due in the future and stops the run
unless the run ends in time for it. -/
def Prompt (m : Machine φ δ) (l : Label φ δ) (_ : Machine φ δ) : Prop :=
  match m.phase, l with
  | .cycles _ _ maxcycles, .cycle _ effects => AllRequests (InRun maxcycles) m.clock effects
  | _, .io effects | _, .handler effects => AllRequests NoWrap m.clock effects
  | _, .run _ => m.clock.virtualNow.toNat + 5000000 < 2 ^ 64
  | _, .select slept => m.clock.virtualNow.toNat + slept.toNat < 2 ^ 64
  | _, _ => True

/-- An event that `clock_ticks` dispatches is late by less than a cpu clock. -/
def Timely (m : Machine φ δ) (l : Label φ δ) (_ : Machine φ δ) : Prop :=
  match m.phase, l with
  | .queue (some .runloop) vnow, .dispatch =>
    ∀ ta, m.clock.queuehead = some ta → vnow.toNat < (m.clock.vtime ta).toNat + 40
  | _, _ => True

theorem Pending.frame {P Q : Nat → Prop} {s s' : State φ δ} {inflight : Option Slot}
    (h : Pending P s inflight) (hAction : s'.actionStorage = s.actionStorage)
    (hQueue : s'.queuehead = s.queuehead) (hFree : s'.taFreelist = s.taFreelist)
    (hImp : ∀ t, P t → Q t) : Pending Q s' inflight :=
  (h.of_same hAction hQueue hFree).mono hImp

theorem setMark_pending {P : Nat → Prop} {s : State φ δ} {inflight : Option Slot}
    (h : Pending P s inflight) (ta : Slot) :
    Pending P (setAction s ta { s.actionStorage ta with taRunningto := true }) inflight := by
  obtain ⟨pending, free, hQueued, hAll⟩ := h
  set s' := setAction s ta { s.actionStorage ta with taRunningto := true }
  have hNext : s'.next = s.next := by
    funext i
    rcases eq_or_ne i ta with rfl | hne
    · simp [s', State.next, setAction]
    · simp [s', State.next, setAction, hne]
  have hVtime : s'.vtime = s.vtime := by
    funext i
    rcases eq_or_ne i ta with rfl | hne
    · simp [s', State.vtime, setAction]
    · simp [s', State.vtime, setAction, hne]
  refine ⟨pending, free, ⟨hQueued.holds.of_same hNext rfl rfl, ?_⟩, ?_⟩
  · rw [hVtime]
    exact hQueued.sorted
  · rw [hVtime]
    exact hAll

/-- The length of a run: no pending event is due a whole clock or more before its end. -/
theorem clockGetrunticks_spec {s : State φ δ} (hSettled : Settled s) (h : NotOverdue s)
    (hNoWrap : s.virtualNow.toNat + 5000000 < 2 ^ 64) :
    (clockGetrunticks s).1.toNat ≤ 125000 ∧
      Pending (fun t => s.virtualNow.toNat + 40 * (clockGetrunticks s).1.toNat < t + 40)
        (clockGetrunticks s).2 none ∧
      SameTime s (clockGetrunticks s).2 := by
  have hMax : (maxRun.setWidth 32).toNat = 125000 := by decide
  have hVnow := hSettled.clockVnow
  rw [clockGetrunticks]
  cases hHead : s.queuehead with
  | none =>
    dsimp only
    rw [hMax]
    exact ⟨Nat.le_refl _, h.of_empty hHead, SameTime.refl s⟩
  | some ta =>
    obtain ⟨hLe, hMin⟩ := h.head_le hHead
    have hEnd : (s.virtualNow + maxRun * nsecsPerClock).toNat = s.virtualNow.toNat + 5000000 := by
      rw [BitVec.toNat_add, BitVec.toNat_mul, maxRun_toNat, nsecsPerClock_toNat]
      omega
    dsimp only
    rw [hVnow]
    split
    · next hNow =>
      rw [BitVec.le_def] at hNow
      refine ⟨Nat.zero_le _, hMin.mono ?_, SameTime.refl s⟩
      intro t ht
      change _ + 40 * 0 < _
      omega
    · next hLater =>
      rw [BitVec.not_le, BitVec.lt_def] at hLater
      split
      · next hNear =>
        rw [BitVec.lt_def, hEnd] at hNear
        have hDiff : (s.vtime ta - s.virtualNow).toNat =
            (s.vtime ta).toNat - s.virtualNow.toNat :=
          BitVec.toNat_sub_of_le (BitVec.le_def.mpr (Nat.le_of_lt hLater))
        have hTicks : ((BitVec.setWidth 32 (s.vtime ta - s.virtualNow) +
            (nsecsPerClock.setWidth 32 - 1)) / nsecsPerClock.setWidth 32).toNat =
            ((s.vtime ta).toNat - s.virtualNow.toNat + 39) / 40 := by
          have hRound : (nsecsPerClock.setWidth 32 - 1).toNat = 39 := by decide
          have hClock : (nsecsPerClock.setWidth 32).toNat = 40 := by decide
          rw [BitVec.toNat_udiv, BitVec.toNat_add, hRound, hClock, BitVec.toNat_setWidth, hDiff]
          omega
        dsimp only
        rw [hTicks]
        refine ⟨by omega, ?_, ⟨rfl, rfl, rfl⟩⟩
        refine (setMark_pending hMin ta).mono ?_
        intro t ht
        omega
      · next hFar =>
        rw [BitVec.not_lt, BitVec.le_def, hEnd] at hFar
        dsimp only
        rw [hMax]
        refine ⟨Nat.le_refl _, hMin.mono ?_, SameTime.refl s⟩
        intro t ht
        omega

theorem Settled.effects {s s' : State φ δ} {es : List (Effect φ δ)} (h : Settled s)
    (hOk : applyEffects s es = .ok s') : Settled s' ∧ s'.virtualNow = s.virtualNow :=
  ⟨h.of_sameTime (applyEffects_sameTime hOk), (applyEffects_sameTime hOk).virtualNow⟩

/-- Effects outside a run, with a bound that the present time meets. -/
theorem Pending.settledEffects {P : Nat → Prop} {s s' : State φ δ} {inflight : Option Slot}
    {es : List (Effect φ δ)} (h : Pending P s inflight) (hSettled : Settled s)
    (hOk : applyEffects s es = .ok s') (hAll : AllRequests NoWrap s es)
    (hLater : ∀ t, s.virtualNow.toNat ≤ t → P t) : Pending P s' inflight :=
  h.effects hOk hAll (by rw [hSettled.clockVnow]; exact hLater)

theorem checkDeadline_frame (s : State φ δ) :
    (checkDeadline s).1.actionStorage = s.actionStorage ∧
      (checkDeadline s).1.queuehead = s.queuehead ∧
      (checkDeadline s).1.taFreelist = s.taFreelist ∧ SameTime s (checkDeadline s).1 := by
  rw [checkDeadline]
  split
  · exact ⟨rfl, rfl, rfl, SameTime.refl s⟩
  · split
    · exact ⟨rfl, rfl, rfl, ⟨rfl, rfl, rfl⟩⟩
    · split
      · exact ⟨rfl, rfl, rfl, SameTime.refl s⟩
      · dsimp only
        split <;> exact ⟨rfl, rfl, rfl, ⟨rfl, rfl, rfl⟩⟩

/-! ## Steps -/

theorem cyclesTurn_frame (s : State φ δ) (i maxcycles : BitVec 64) :
    let s' := (cyclesTurn s true i maxcycles).2
    s'.actionStorage = s.actionStorage ∧ s'.queuehead = s.queuehead ∧
      s'.taFreelist = s.taFreelist ∧ s'.virtualNow = s.virtualNow ∧
      s'.extraSelecttime = s.extraSelecttime ∧ s'.cpuCycling = s.cpuCycling ∧
      s'.cpuCyclesCount = i + 1 := by
  rw [cyclesTurn, cyclesSkip]
  split <;> exact ⟨rfl, rfl, rfl, rfl, rfl, rfl, rfl⟩

theorem cyclesTurn_fst (s : State φ δ) (i maxcycles : BitVec 64) :
    ((cyclesTurn s true i maxcycles).1 = maxcycles ∧ s.cpuCycling = true) ∨
      (cyclesTurn s true i maxcycles).1 = i + 1 := by
  rw [cyclesTurn, cyclesSkip]
  split
  · next hIdle => exact Or.inl ⟨rfl, hIdle.2⟩
  · exact Or.inr rfl

theorem Inv.cycle {s s' : State φ δ} {caller : Caller} {i maxcycles : BitVec 64}
    {effects : List (Effect φ δ)} (h : Inv ⟨s, .cycles caller i maxcycles⟩) (hLt : i < maxcycles)
    (hOn : s.cpuCycling = true) (hOk : applyEffects s effects = .ok s')
    (hAll : AllRequests (InRun maxcycles) s effects) :
    Inv ⟨(cyclesTurn s' true i maxcycles).2,
      .cycles caller (cyclesTurn s' true i maxcycles).1 maxcycles⟩ := by
  obtain ⟨hCaller, hExtra, -, hCount, hNoWrap, hPending⟩ := h
  dsimp only at hExtra hCount hNoWrap hPending
  rw [hOn, if_pos rfl] at hPending
  have hLt' := BitVec.lt_def.mp hLt
  have hSucc : (i + 1).toNat = i.toNat + 1 := by bv_omega
  have hStart : InCycle s i.toNat maxcycles.toNat :=
    ⟨hExtra, by rw [hCount hLt], hLt', hNoWrap, by rw [runEnd, hOn]; exact hPending⟩
  have hEnd := hStart.effects hOk hAll
  obtain ⟨hAction, hQueue, hFree, hNow, hExtra', hCycling, hCount'⟩ :=
    cyclesTurn_frame s' i maxcycles
  have hFst := cyclesTurn_fst s' i maxcycles
  have hLe : (cyclesTurn s' true i maxcycles).1 ≤ maxcycles := Accounting.cyclesTurn_le hLt
  refine ⟨hCaller, hExtra'.trans hEnd.settled, hLe, ?_, ?_, ?_⟩
  · intro hMore
    rcases hFst with ⟨hEq, -⟩ | hEq
    · rw [hEq] at hMore
      exact absurd hMore (BitVec.lt_irrefl _)
    · rw [hEq]
      exact hCount'
  · dsimp only
    rw [hNow]
    exact hEnd.noWrap
  · dsimp only
    rw [hNow, hCycling]
    refine hEnd.pending.frame hAction hQueue hFree ?_
    intro t ht
    rw [runEnd] at ht
    rcases hFst with ⟨hEq, hOn'⟩ | hEq
    · rw [hOn', if_pos rfl] at ht ⊢
      exact ht
    · rw [hEq, hSucc]
      exact ht

theorem Inv.io {s s' : State φ δ} {effects : List (Effect φ δ)} (h : Inv ⟨s, .top⟩)
    (hOk : applyEffects s effects = .ok s') (hAll : AllRequests NoWrap s effects) :
    Inv ⟨s', .top⟩ := by
  obtain ⟨hSettled, hPending⟩ := h
  obtain ⟨hSettled', hNow⟩ := hSettled.effects hOk
  refine ⟨hSettled', ?_⟩
  rw [NotOverdue]
  dsimp only
  rw [hNow]
  exact hPending.settledEffects hSettled hOk hAll fun t ht => ht

theorem Inv.ioSelected {s s' : State φ δ} {plan : Plan} {slept : BitVec 64}
    {effects : List (Effect φ δ)} (h : Inv ⟨s, .selected plan slept⟩)
    (hOk : applyEffects s effects = .ok s') (hAll : AllRequests NoWrap s effects) :
    Inv ⟨s', .selected plan slept⟩ := by
  have hTime := applyEffects_sameTime hOk
  cases plan with
  | poll =>
    obtain ⟨hCount, hExtra, hNoWrap, hPending⟩ := h
    dsimp only at hCount hExtra hNoWrap
    refine ⟨hTime.cpuCyclesCount.trans hCount, hTime.extraSelecttime.trans hExtra, ?_, ?_⟩
    · dsimp only
      rw [hTime.virtualNow]
      exact hNoWrap
    · rw [NotOverdue]
      dsimp only
      rw [hTime.virtualNow]
      refine hPending.effects hOk hAll ?_
      intro t ht
      have hVnow : clockVnow s = s.virtualNow + slept := by
        simp [Clock.clockVnow, hCount, hExtra]
      rw [hVnow, BitVec.toNat_add, Nat.mod_eq_of_lt hNoWrap] at ht
      exact Nat.le_trans (Nat.le_add_right _ _) ht
  | _ =>
    obtain ⟨hCount, hPending⟩ := h
    exact ⟨hTime.cpuCyclesCount.trans hCount, hPending.effects hOk hAll fun _ _ => trivial⟩

theorem Inv.run {s : State φ δ} (h : Inv ⟨s, .top⟩)
    (hNoWrap : s.virtualNow.toNat + 5000000 < 2 ^ 64) :
    Inv ⟨{ (clockGetrunticks s).2 with cpuCycling := true },
      .cycles .runloop 0 ((clockGetrunticks s).1.setWidth 64)⟩ := by
  obtain ⟨hSettled, hPending⟩ := h
  obtain ⟨hBound, hLast, hTime⟩ := clockGetrunticks_spec (s := s) hSettled hPending hNoWrap
  have hSettled' := hSettled.of_sameTime hTime
  have hWide : ((clockGetrunticks s).1.setWidth 64).toNat = (clockGetrunticks s).1.toNat := by
    rw [BitVec.toNat_setWidth]
    omega
  refine ⟨rfl, hSettled'.extraSelecttime, BitVec.le_def.mpr (Nat.zero_le _), ?_, ?_, ?_⟩
  · intro _
    exact hSettled'.cpuCyclesCount
  · dsimp only
    rw [hTime.virtualNow, hWide]
    omega
  · dsimp only
    rw [hTime.virtualNow, if_pos rfl, hWide]
    exact hLast.of_same rfl rfl rfl

theorem Inv.endCycles {s : State φ δ} {caller : Caller} {i maxcycles : BitVec 64}
    (h : Inv ⟨s, .cycles caller i maxcycles⟩) :
    Inv ⟨{ s with cpuCyclesCount := 0 }, .ticks caller i⟩ := by
  obtain ⟨hCaller, hExtra, hLe, -, hNoWrap, hPending⟩ := h
  dsimp only at hExtra hNoWrap hPending
  have hLe' := BitVec.le_def.mp hLe
  refine ⟨hCaller, ⟨hExtra, rfl⟩, ?_, ?_⟩
  · dsimp only
    omega
  · refine hPending.frame rfl rfl rfl ?_
    intro t ht
    dsimp only
    split at ht
    · omega
    · exact ht

theorem Inv.ticks {s : State φ δ} {caller : Caller} {nticks : BitVec 64}
    (h : Inv ⟨s, .ticks caller nticks⟩) :
    Inv ⟨ticksAdvance s nticks, .queue (some caller) (clockVnow (ticksAdvance s nticks))⟩ := by
  obtain ⟨hCaller, hSettled, hNoWrap, hPending⟩ := h
  dsimp only at hSettled hNoWrap hPending
  have hSettled' : Settled (ticksAdvance s nticks) :=
    ⟨hSettled.extraSelecttime, hSettled.cpuCyclesCount⟩
  have hNow : (ticksAdvance s nticks).virtualNow.toNat =
      s.virtualNow.toNat + 40 * nticks.toNat := by
    simp only [ticksAdvance, clockVadvance, BitVec.toNat_add, BitVec.toNat_mul,
      nsecsPerClock_toNat]
    omega
  refine ⟨hCaller, hSettled', hSettled'.clockVnow, ?_⟩
  dsimp only
  rw [hNow]
  exact hPending.of_same rfl rfl rfl

theorem Inv.dispatch {s s' : State φ δ} {caller : Option Caller} {vnow : BitVec 64} {ta : Slot}
    (h : Inv ⟨s, .queue caller vnow⟩) (hPop : popDue s vnow = some (ta, s')) :
    Inv ⟨s', .handler caller vnow ta⟩ := by
  have hTime := SameTime.of_sameClock (popDue_sameClock hPop)
  cases caller with
  | none =>
    obtain ⟨hSettled, hVnow, hPending⟩ := h
    exact ⟨hSettled.of_sameTime hTime, hVnow.trans hTime.virtualNow.symm, (hPending.pop hPop).2⟩
  | some caller =>
    obtain ⟨hCaller, hSettled, hVnow, hPending⟩ := h
    refine ⟨hCaller, hSettled.of_sameTime hTime, hVnow.trans hTime.virtualNow.symm, ?_⟩
    dsimp only
    rw [hTime.virtualNow]
    exact (hPending.pop hPop).2

theorem Inv.handler {s s' : State φ δ} {caller : Option Caller} {vnow : BitVec 64} {ta : Slot}
    {effects : List (Effect φ δ)} (h : Inv ⟨s, .handler caller vnow ta⟩)
    (hOk : applyEffects s effects = .ok s') (hAll : AllRequests NoWrap s effects) :
    Inv ⟨acfree s' ta, .queue caller vnow⟩ := by
  have hFreed := SameTime.of_sameClock (acfree_sameClock s' ta)
  cases caller with
  | none =>
    obtain ⟨hSettled, hVnow, hPending⟩ := h
    obtain ⟨hSettled', hNow⟩ := hSettled.effects hOk
    have hPending' := hPending.settledEffects hSettled hOk hAll fun _ _ => trivial
    exact ⟨hSettled'.of_sameTime hFreed, hVnow.trans hNow.symm, hPending'.acfree⟩
  | some caller =>
    obtain ⟨hCaller, hSettled, hVnow, hPending⟩ := h
    obtain ⟨hSettled', hNow⟩ := hSettled.effects hOk
    have hPending' := hPending.settledEffects hSettled hOk hAll
      fun t ht => Nat.lt_of_le_of_lt ht (Nat.lt_add_of_pos_right (by decide))
    refine ⟨hCaller, hSettled'.of_sameTime hFreed, hVnow.trans hNow.symm, ?_⟩
    dsimp only
    rw [hFreed.virtualNow, hNow]
    exact hPending'.acfree

theorem Inv.leaveTicks {s : State φ δ} {caller : Caller} {vnow : BitVec 64}
    (h : Inv ⟨s, .queue (some caller) vnow⟩) (hPop : popDue s vnow = none) :
    Inv ⟨(checkDeadline s).1, caller.back⟩ := by
  obtain ⟨rfl, hSettled, hVnow, hPending⟩ := h
  obtain ⟨hAction, hQueue, hFree, hTime⟩ := checkDeadline_frame s
  refine ⟨hSettled.of_sameTime hTime, ?_⟩
  rw [NotOverdue]
  dsimp only
  rw [hTime.virtualNow]
  refine (hPending.leave hPop).frame hAction hQueue hFree ?_
  intro t ht
  rw [hVnow] at ht
  exact Nat.le_of_lt ht

/-- `clock_waitirq` never polls. -/
theorem Inv.wait {s : State φ δ} {tvSec tvUsec : BitVec 64} (h : Inv ⟨s, .waitirq⟩) :
    Inv ⟨s, .waiting (waitPlan s tvSec tvUsec)⟩ := by
  obtain ⟨hSettled, hPending⟩ := h
  have hInv : ∀ plan, plan ≠ Plan.poll → Inv ⟨s, .waiting plan⟩ := by
    intro plan hPlan
    cases plan with
    | poll => exact absurd rfl hPlan
    | _ => exact ⟨hSettled, hPending.mono fun _ _ => trivial⟩
  apply hInv
  rw [waitPlan]
  split
  · exact Plan.noConfusion
  · dsimp only
    split <;> exact Plan.noConfusion

theorem Inv.select {s : State φ δ} {plan : Plan} {slept : BitVec 64} (h : Inv ⟨s, .waiting plan⟩)
    (hNoWrap : s.virtualNow.toNat + slept.toNat < 2 ^ 64) :
    Inv ⟨{ s with extraSelecttime := slept }, .selected plan slept⟩ := by
  cases plan with
  | poll =>
    obtain ⟨hSettled, hPending⟩ := h
    exact ⟨hSettled.cpuCyclesCount, rfl, hNoWrap, hPending.of_same rfl rfl rfl⟩
  | _ =>
    obtain ⟨hSettled, hPending⟩ := h
    exact ⟨hSettled.cpuCyclesCount, hPending.of_same rfl rfl rfl⟩

theorem Inv.slept {s : State φ δ} {plan : Plan} {slept : BitVec 64}
    (h : Inv ⟨s, .selected plan slept⟩) (hPlan : plan ≠ .poll) :
    Inv ⟨waitAdvance { s with extraSelecttime := 0 } (plan.slept slept),
      .queue none (clockVnow (waitAdvance { s with extraSelecttime := 0 } (plan.slept slept)))⟩ := by
  cases plan with
  | poll => exact absurd rfl hPlan
  | _ =>
    obtain ⟨hCount, hPending⟩ := h
    have hSettled : ∀ nsecs, Settled (waitAdvance { s with extraSelecttime := 0 } nsecs) :=
      fun _ => ⟨rfl, hCount⟩
    exact ⟨hSettled _, (hSettled _).clockVnow, hPending.of_same rfl rfl rfl⟩

theorem Inv.step {m m' : Machine φ δ} {l : Label φ δ} (h : Inv m) (hRun : LoopRun m l m')
    (hPrompt : Prompt m l m') (hStep : Step m l m') : Inv m' := by
  cases hStep with
  | io hOk => exact h.io hOk hPrompt
  | ioSelected hOk => exact h.ioSelected hOk hPrompt
  | run hMax =>
    obtain rfl := hRun
    exact h.run hPrompt
  | onecycle => exact hRun.elim
  | cycle hLt hOn hOk =>
    obtain rfl := hRun
    exact h.cycle hLt hOn hOk hPrompt
  | endCycles hEnd => exact h.endCycles
  | ticks => exact h.ticks
  | dispatch hPop => exact h.dispatch hPop
  | handler hOk => exact h.handler hOk hPrompt
  | leaveTicks hPop => exact h.leaveTicks hPop
  | leaveWait hPop =>
    obtain ⟨hSettled, hVnow, hPending⟩ := h
    refine ⟨hSettled, (hPending.leave hPop).mono ?_⟩
    intro t ht
    rw [hVnow] at ht
    exact Nat.le_of_lt ht
  | waitirq => exact h
  | wait _ => exact h.wait
  | woken _ => exact h
  | poll => exact h
  | select _ => exact h.select hPrompt
  | polled =>
    obtain ⟨hCount, -, -, hPending⟩ := h
    exact ⟨⟨rfl, hCount⟩, hPending.of_same rfl rfl rfl⟩
  | slept hPlan => exact h.slept hPlan

theorem Inv.timely {m m' : Machine φ δ} {l : Label φ δ} (h : Inv m) (hStep : Step m l m') :
    Timely m l m' := by
  cases hStep with
  | @dispatch s s' caller vnow ta hPop =>
    cases caller with
    | none => trivial
    | some caller =>
      obtain ⟨rfl, -, hVnow, hPending⟩ := h
      intro ta' hHead
      rw [hVnow]
      exact (hPending.head_le hHead).1
  | @leaveTicks s caller vnow _ => cases caller <;> trivial
  | _ => trivial

theorem start_inv (tvSec : BitVec 32) (offset : BitVec 64) :
    Inv (start tvSec offset : Machine φ δ) := by
  have h := acallocInit_sameClock (clockCoreinit (zeroed : State φ δ) tvSec)
  exact ⟨⟨h.extraSelecttime, h.cpuCyclesCount⟩, [], _,
    ⟨clockInit_holds tvSec offset, List.Pairwise.nil⟩, by simp⟩

/-- In a run of the main loop whose requests are prompt, no event that `clock_ticks` dispatches is
a whole cpu clock late. -/
theorem events_timely {tvSec : BitVec 32} {offset : BitVec 64}
    {p : List (Label φ δ × Machine φ δ)} {m : Machine φ δ}
    (h : Path Step (start tvSec offset) p m) (hRun : AllSteps LoopRun (start tvSec offset) p)
    (hPrompt : AllSteps Prompt (start tvSec offset) p) :
    AllSteps Timely (start tvSec offset) p :=
  h.allSteps_of_invariant (fun _ _ _ hInv hMeets hStep =>
    ⟨Inv.step hInv hMeets.1 hMeets.2 hStep, Inv.timely hInv hStep⟩) (start_inv tvSec offset)
    (hRun.and hPrompt)

/-! ## A late event -/

/-- From `m` the main loop can run into a dispatch that is late. -/
def Late (m : Machine φ δ) : Prop :=
  ∃ p m', Path Step m p m' ∧ AllSteps LoopRun m p ∧ ¬ AllSteps Timely m p

theorem Late.cons {m m₁ : Machine φ δ} {l : Label φ δ} (hStep : Step m l m₁)
    (hRun : LoopRun m l m₁) (h : Late m₁) : Late m := by
  obtain ⟨p, m', hPath, hAll, hNot⟩ := h
  exact ⟨_, m', Path.cons hStep hPath, ⟨hRun, hAll⟩, fun hTimely => hNot hTimely.2⟩

theorem Late.of_dispatch {s s' : State φ δ} {vnow : BitVec 64} {ta : Slot}
    (hPop : popDue s vnow = some (ta, s')) (hHead : s.queuehead = some ta)
    (hLate : (s.vtime ta).toNat + 40 ≤ vnow.toNat) : Late ⟨s, .queue (some .runloop) vnow⟩ := by
  refine ⟨_, _, Path.cons (Step.dispatch hPop) (Path.nil _), ⟨trivial, trivial⟩, ?_⟩
  intro hTimely
  exact absurd (hTimely.1 ta hHead) (Nat.not_lt.mpr hLate)

theorem cyclesTurn_running (i maxcycles : BitVec 64) {s : State φ δ}
    (hMask : s.cpuRunningMask ≠ 0) :
    cyclesTurn s true i maxcycles = (i + 1, { s with cpuCyclesCount := i + 1 }) := by
  rw [cyclesTurn, cyclesSkip]
  apply if_neg
  rintro ⟨hIdle, -⟩
  exact hMask hIdle

/-- With a cpu running and nothing stopping it, a run goes on to its end. -/
theorem Late.of_cycles {maxcycles : BitVec 64} (k : Nat) {s : State φ δ} {i : BitVec 64}
    (hCount : i.toNat + k = maxcycles.toNat) (hOn : s.cpuCycling = true)
    (hMask : s.cpuRunningMask ≠ 0)
    (h : ∀ c, Late ⟨{ s with cpuCyclesCount := c }, .cycles .runloop maxcycles maxcycles⟩) :
    Late ⟨s, .cycles .runloop i maxcycles⟩ := by
  induction k generalizing s i with
  | zero =>
    obtain rfl : i = maxcycles := BitVec.eq_of_toNat_eq (by omega)
    exact h s.cpuCyclesCount
  | succ k ih =>
    have hMax := maxcycles.isLt
    have hLt : i < maxcycles := BitVec.lt_def.mpr (by omega)
    have hSucc : (i + 1).toNat = i.toNat + 1 := by bv_omega
    have hTurn := cyclesTurn_running i maxcycles hMask
    have hStep : Step ⟨s, .cycles .runloop i maxcycles⟩ (.cycle true [])
        ⟨(cyclesTurn s true i maxcycles).2,
          .cycles .runloop (cyclesTurn s true i maxcycles).1 maxcycles⟩ :=
      Step.cycle hLt hOn rfl
    rw [hTurn] at hStep
    exact Late.cons hStep rfl (ih (by rw [hSucc]; omega) hOn hMask h)

/-- A run that ends long after its first event is due dispatches it late. -/
theorem Late.of_end {s : State φ δ} {n : Slot} {maxcycles : BitVec 64}
    (hHead : s.queuehead = some n)
    (hLate : (s.vtime n).toNat + 40 ≤
      (clockVnow (ticksAdvance { s with cpuCyclesCount := 0 } maxcycles)).toNat) :
    Late ⟨s, .cycles .runloop maxcycles maxcycles⟩ := by
  refine Late.cons (Step.endCycles fun h => BitVec.lt_irrefl _ h.1) trivial ?_
  refine Late.cons Step.ticks trivial ?_
  generalize hu : ticksAdvance { s with cpuCyclesCount := 0 } maxcycles = u at hLate ⊢
  have hHead' : u.queuehead = some n := by
    rw [← hu]
    exact hHead
  have hVtime : u.vtime n = s.vtime n := by
    rw [← hu]
    rfl
  rw [← hVtime] at hLate
  have hPop : popDue u (clockVnow u) = some (n, { u with queuehead := u.next n }) := by
    rw [popDue, hHead']
    apply if_neg
    rw [gt_iff_lt, BitVec.lt_def]
    omega
  exact Late.of_dispatch hPop hHead' hLate

/-- With the queue empty a run of 5 ms starts, and what its first cycle schedules for 1 us later
waits for its end. -/
theorem late_of_empty {s : State φ δ} {n : Slot} {free : List Slot} (func : φ)
    (hHolds : Holds s [] (n :: free) none) (hSettled : Settled s) (hNow : s.virtualNow = 0)
    (hMask : s.cpuRunningMask ≠ 0) : Late ⟨s, .top⟩ := by
  have hEmpty : s.queuehead = none := hHolds.pendingLinked
  have hTicks : clockGetrunticks s = (125000, s) := by
    rw [clockGetrunticks, hEmpty]
    rfl
  have hRun : Step ⟨s, .top⟩ (.run 125000)
      ⟨{ (clockGetrunticks s).2 with cpuCycling := true },
        .cycles .runloop 0 ((125000 : BitVec 32).setWidth 64)⟩ := by
    apply Step.run
    rw [hTicks]
    exact BitVec.le_refl _
  rw [hTicks] at hRun
  refine Late.cons hRun (by rw [LoopRun, hTicks]) ?_
  let r : Request φ δ := ⟨1000, 0, none, 0, func, "timer"⟩
  have hHolds₁ : Holds { s with cpuCycling := true } [] (n :: free) none :=
    hHolds.of_same rfl rfl rfl
  obtain ⟨s', hOk, hSpec, hHolds'⟩ := scheduleEvent_spec hHolds₁ r
  have hSame := hSpec.sameClock
  have hOn : s'.cpuCycling = true := hSpec.cpuCycling
  have hMask' : s'.cpuRunningMask ≠ 0 := by
    rw [hSame.cpuRunningMask]
    exact hMask
  have hVtime : s'.vtime n = 1000 := by
    have hDue : s'.vtime n = dueTime { s with cpuCycling := true } r :=
      congrArg Prod.fst hSpec.event_new
    have hVnow : clockVnow { s with cpuCycling := true } = 0 := hSettled.clockVnow.trans hNow
    rw [hDue, dueTime, hVnow]
    rfl
  have hHead : s'.queuehead = some n := hHolds'.pendingLinked.1
  have hNow' : s'.virtualNow = 0 := hSame.virtualNow.trans hNow
  have hExtra : s'.extraSelecttime = 0 := hSame.extraSelecttime.trans hSettled.extraSelecttime
  have hStep : Step ⟨{ s with cpuCycling := true }, .cycles .runloop 0 125000⟩
      (.cycle true [.schedule r])
      ⟨(cyclesTurn s' true 0 125000).2, .cycles .runloop (cyclesTurn s' true 0 125000).1 125000⟩ :=
    Step.cycle (by decide) rfl (by rw [applyEffects, Effect.apply, hOk]; rfl)
  have hTurn := cyclesTurn_running 0 125000 hMask'
  rw [hTurn] at hStep
  refine Late.cons hStep rfl (Late.of_cycles 124999 ?_ hOn hMask' ?_)
  · dsimp only
    decide
  · intro c
    refine Late.of_end (n := n) hHead ?_
    have hVnow : clockVnow (ticksAdvance { s' with cpuCyclesCount := 0 } 125000) = 5000000 := by
      simp only [clockVnow, ticksAdvance, clockVadvance, hNow', hExtra]
      decide
    have hSlot : ({ s' with cpuCyclesCount := c } : State φ δ).vtime n = 1000 := hVtime
    rw [hSlot]
    exact hVnow ▸ (by decide)

theorem late_of_started {s : State φ δ} {n : Slot} {free : List Slot} (func : φ)
    (hHolds : Holds s [] (n :: free) none) (hSettled : Settled s) (hNow : s.virtualNow = 0) :
    Late ⟨s, .top⟩ := by
  have hStep : Step ⟨s, .top⟩ (.io [.runningMask 1]) ⟨{ s with cpuRunningMask := 1 }, .top⟩ :=
    Step.io rfl
  have hOne : (1 : BitVec 32) ≠ 0 := by decide
  exact Late.cons hStep trivial (late_of_empty func (hHolds.of_same rfl rfl rfl)
    ⟨hSettled.extraSelecttime, hSettled.cpuCyclesCount⟩ hNow hOne)

theorem clockInit_settled (tvSec : BitVec 32) (offset : BitVec 64) :
    Settled (clockInit tvSec offset : State φ δ) := by
  have h := acallocInit_sameClock (clockCoreinit (zeroed : State φ δ) tvSec)
  exact ⟨h.extraSelecttime, h.cpuCyclesCount⟩

theorem clockInit_virtualNow_zero (tvSec : BitVec 32) :
    (clockInit tvSec 0 : State φ δ).virtualNow = 0 := by
  rw [← (clockInit_settled tvSec 0).clockVnow, WallClock.clockInit_vnow]
  decide

/-- A timer started for 1 us in the first cycle of a run with nothing else pending is dispatched
almost 5 ms late. -/
theorem event_dispatched_late :
    ¬ ∀ (tvSec : BitVec 32) (offset : BitVec 64) (p : List (Label Unit Unit × Machine Unit Unit))
      (m : Machine Unit Unit), Path Step (start tvSec offset) p m →
        AllSteps LoopRun (start tvSec offset) p → AllSteps Timely (start tvSec offset) p := by
  intro hClaim
  obtain ⟨n, free, hFree⟩ : ∃ n free, (List.finRange maxActions).reverse = n :: free :=
    List.exists_cons_of_length_pos (by simp [maxActions])
  have hHolds : Holds (clockInit 0 0 : State Unit Unit) [] (n :: free) none := by
    rw [← hFree]
    exact clockInit_holds 0 0
  have hLate : Late (start 0 0 : Machine Unit Unit) :=
    late_of_started () hHolds (clockInit_settled 0 0) (clockInit_virtualNow_zero 0)
  obtain ⟨p, m, hPath, hRun, hNot⟩ := hLate
  exact hNot (hClaim 0 0 p m hPath hRun)

/-! ## A run with prompt requests -/

instance (s : State φ δ) (r : Request φ δ) : Decidable (NoWrap s r) :=
  inferInstanceAs (Decidable (_ < _))

instance (s : State φ δ) (vtime : BitVec 64) : Decidable (BeforeMark s vtime) :=
  inferInstanceAs (Decidable (∃ ta ∈ s.queuehead, s.marked ta = true ∧ vtime < s.vtime ta))

instance (maxcycles : BitVec 64) (s : State φ δ) (r : Request φ δ) :
    Decidable (InRun maxcycles s r) := inferInstanceAs (Decidable (_ ∧ _ ∧ _))

/-- A check of every call of `schedule_event` in the list. -/
def allRequests (C : State φ δ → Request φ δ → Bool) (s : State φ δ) : List (Effect φ δ) → Bool
  | [] => true
  | e :: es =>
    (match e with
      | .schedule r => C s r
      | _ => true) &&
    (match e.apply s with
      | .ok s' => allRequests C s' es
      | .error _ => true)

theorem of_allRequests {C : State φ δ → Request φ δ → Prop} {D : State φ δ → Request φ δ → Bool}
    (hD : ∀ s r, D s r = true → C s r) {s : State φ δ} {es : List (Effect φ δ)}
    (h : allRequests D s es = true) : AllRequests C s es := by
  induction es generalizing s with
  | nil => trivial
  | cons e es ih =>
    obtain ⟨hHead, hTail⟩ := Bool.and_eq_true_iff.mp h
    refine ⟨?_, fun s' hOk => ?_⟩
    · rintro r rfl
      exact hD s r hHead
    · rw [hOk] at hTail
      exact ih hTail

/-- What `events_timely` asks of a step. -/
def promptRun (m : Machine φ δ) (l : Label φ δ) : Bool :=
  (match l with
    | .run maxcycles => maxcycles == (clockGetrunticks m.clock).1
    | .cycle ok _ => ok
    | .onecycle => false
    | _ => true) &&
  (match m.phase, l with
    | .cycles _ _ maxcycles, .cycle _ effects =>
      allRequests (fun s r => decide (InRun maxcycles s r)) m.clock effects
    | _, .io effects | _, .handler effects =>
      allRequests (fun s r => decide (NoWrap s r)) m.clock effects
    | _, .run _ => decide (m.clock.virtualNow.toNat + 5000000 < 2 ^ 64)
    | _, .select slept => decide (m.clock.virtualNow.toNat + slept.toNat < 2 ^ 64)
    | _, _ => true)

theorem of_promptRun {m m' : Machine φ δ} {l : Label φ δ} (h : promptRun m l = true) :
    LoopRun m l m' ∧ Prompt m l m' := by
  obtain ⟨hRun, hPrompt⟩ := Bool.and_eq_true_iff.mp h
  constructor
  · unfold LoopRun
    cases l <;> simp_all
  · unfold Prompt
    generalize m.phase = phase at hPrompt ⊢
    split at hPrompt
    case h_1 => exact of_allRequests (fun _ _ => of_decide_eq_true) hPrompt
    case h_2 | h_3 => cases phase <;> exact of_allRequests (fun _ _ => of_decide_eq_true) hPrompt
    case h_4 | h_5 => cases phase <;> simpa using hPrompt
    case h_6 => trivial

/-- An event is due in 2 us, and the cpu runs until then; in the third cycle one is scheduled for
400 ns later, which stops the run. A second run ends when it is due. -/
def stoppedRun : List (Label Unit Unit) :=
  [.io [.runningMask 1, .schedule ⟨2000, 0, none, 0, (), "first"⟩], .run 50, .cycle true [],
    .cycle true [], .cycle true [.schedule ⟨400, 0, none, 0, (), "second"⟩], .endCycles, .ticks,
    .leave, .run 9] ++ List.replicate 9 (.cycle true []) ++
    [.endCycles, .ticks, .dispatch, .handler [], .leave]

open Scripts in
theorem stopped_run_timely : ∃ p m, Path Step (start 0 0 : Machine Unit Unit) p m ∧
    p.map Prod.fst = stoppedRun ∧
    (clockVnow m.clock, m.clock.queuehead.map m.clock.vtime) = (480, some 2000) ∧
    AllSteps Timely (start 0 0 : Machine Unit Unit) p := by
  have hSeen : seenBy promptRun act
      (fun m => (clockVnow m.clock, m.clock.queuehead.map m.clock.vtime)) stoppedRun (start 0 0) =
      some (480, some 2000) := by decide +kernel
  obtain ⟨p, m, hPath, hActs, hLook, hChecked⟩ :=
    path_of_seenBy (fun _ => True) hSeen fun _ _ => trivial
  have hSteps : Path Step (start 0 0) p m := hPath.mono fun _ _ _ h => step_of_act h.2
  exact ⟨p, m, hSteps, hActs, hLook, events_timely hSteps
    (hChecked.mono fun _ _ _ h => (of_promptRun h).1)
    (hChecked.mono fun _ _ _ h => (of_promptRun h).2)⟩

end Sys161.Clock.Timeliness
