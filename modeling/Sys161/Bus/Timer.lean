import Sys161.Bus.CheckQueue

/-!
# The timer and its events

An event of the timer stays on the queue when TIME is written again; only its
generation number tells it from the one that counts. The machine numbers the
calls of `timer_start` without limit.
-/

namespace Sys161.Bus

open Runs Clock MainLoop WallClock

set_option autoImplicit false

/-- A call of `timer_start`: which one it is, the write to TIME that it goes back to, what the
clock read and TIME held, and the delay of its event, jitter included. -/
structure Countdown where
  number : Nat
  write : Nat
  began : BitVec 64
  usecs : BitVec 32
  delay : BitVec 64

structure TimerEvent where
  vtime : BitVec 64
  code : BitVec 32
  countdown : Countdown

/-- The timer with its events on the queue, and how often it was started and TIME was written. -/
structure Timer where
  td : TimerData
  now : BitVec 64
  pending : List TimerEvent
  starts : Nat
  writes : Nat

def Timer.start (now : BitVec 64) : Timer where
  td := timerInit
  now := now
  pending := []
  starts := 0
  writes := 0

/-- The clock takes the event of a start. -/
def Timer.arm (t : Timer) (a : Arm) (write : Nat) (jitter : BitVec 64 → BitVec 64) : Timer :=
  { t with
    starts := t.starts + 1
    pending := t.pending ++ [{
      vtime := t.now + (a.nsecs + jitter a.nsecs)
      code := a.code
      countdown := ⟨t.starts, write, t.now, t.td.tdCountUsecs, a.nsecs + jitter a.nsecs⟩ }] }

def Timer.after (t : Timer) (r : Done TimerData) (write : Nat) (jitter : BitVec 64 → BitVec 64) :
    Timer :=
  match r.arm with
  | none => { t with td := r.dev }
  | some a => Timer.arm { t with td := r.dev } a write jitter

inductive TimerAct where
  | rest (val : BitVec 32)
  | time (val : BitVec 32)
  | fire (e : TimerEvent)
  | elapse

/-- A step, and whether it calls `raise_irq`. -/
structure TimerLabel where
  act : TimerAct
  raised : Bool

inductive Timer.Step : Timer → TimerLabel → Timer → Prop where
  | rest {t : Timer} {val : BitVec 32} :
      Timer.Step t ⟨.rest val, false⟩ { t with td := { t.td with tdRestartflag := val } }
  | time {t : Timer} {val : BitVec 32} {td : TimerData} {a : Arm} {h : Host} :
      timerStart { t.td with tdCountUsecs := val } = (td, a) →
      Timer.Step t ⟨.time val, false⟩
        (Timer.arm { t with td := td, writes := t.writes + 1 } a (t.writes + 1) h.jitter)
  /-- A restart goes back to the same write. -/
  | fire {t : Timer} {before after : List TimerEvent} {e : TimerEvent} {h : Host}
      {r : Done TimerData} :
      t.pending = before ++ e :: after → e.vtime ≤ t.now → timerInterrupt t.td e.code = r →
      Timer.Step t ⟨.fire e, r.irq == some true⟩
        (Timer.after { t with pending := before ++ after } r e.countdown.write h.jitter)
  | elapse {t : Timer} {now : BitVec 64} : Timer.Step t ⟨.elapse, false⟩ { t with now := now }

/-! ## The timer of a slot in the world -/

section World

variable {i : Fin 32} {w w' : World} {t : Timer} {s s' : State Func Data}

def isTimer (i : Fin 32) (e : Ev) : Bool :=
  decide (e.2.2.2 = some .timerInterrupt ∧ e.2.1 = some (.slot i))

def TimerEvent.ev (i : Fin 32) (e : TimerEvent) : Ev :=
  (e.vtime, some (.slot i), e.code, some .timerInterrupt)

/-- The world has the timer in a slot, with its events on the queue. -/
structure Shows (i : Fin 32) (w : World) (t : Timer) : Prop where
  td : w.devices.timers i = t.td
  now : clockVnow w.clock = t.now
  queue : ∃ pending free, Queued w.clock pending free none ∧
    ((agenda w.clock pending).filter (isTimer i)).Perm (t.pending.map (TimerEvent.ev i))

/-- No other handler touches the timer, or puts an event of it on the queue. -/
theorem runHandler_elsewhere {D : Devices} {now : BitVec 32 × BitVec 32} {h : Host}
    {func : Option Func} {data : Option Data} {code : BitVec 32} {r : Handled}
    (hOk : runHandler D now h func data code = .ok r)
    (hNot : ¬(func = some .timerInterrupt ∧ data = some (.slot i))) :
    r.dev.timers i = D.timers i ∧
      ∀ a, r.arm = some a → ¬(a.func = .timerInterrupt ∧ data = some (.slot i)) := by
  unfold runHandler at hOk
  split at hOk
  · next j =>
    cases hOk
    have hij : i ≠ j := by
      rintro rfl
      exact hNot ⟨rfl, rfl⟩
    refine ⟨Function.update_of_ne hij _ _, ?_⟩
    rintro a - ⟨-, hData⟩
    cases hData
    exact hij rfl
  · cases hOk
    exact ⟨rfl, fun a ha => by cases ha⟩
  · next j =>
    cases hOk
    refine ⟨rfl, ?_⟩
    rintro a ha ⟨hFunc, -⟩
    rcases serialPushinput_cases (D.serials j) with ⟨-, hArm, -⟩ | ⟨hArm, -⟩
    · cases hArm.symm.trans ha
    · cases hArm.symm.trans ha
      cases hFunc
  · next j =>
    cases hOk
    refine ⟨rfl, ?_⟩
    rintro a ha ⟨hFunc, -⟩
    obtain ⟨a', ha', hFunc', -⟩ := keepalive_arm (D.nets j) j h.sendto
    cases ha'.symm.trans ha
    cases hFunc'.symm.trans hFunc
  · next j =>
    cases hOk
    exact ⟨rfl, fun a ha => by cases (triggersend_arm (D.nets j) j h.sendto).symm.trans ha⟩
  · obtain ⟨r', hDone, rfl⟩ := map_eq_ok hOk
    refine ⟨rfl, ?_⟩
    rw [Bus.emufsDone] at hDone
    split at hDone
    · cases hDone
    · cases hDone
      exact fun a ha => by cases ha
  · obtain ⟨r', hDone, rfl⟩ := map_eq_ok hOk
    refine ⟨rfl, ?_⟩
    rintro a ha ⟨hFunc, -⟩
    have hOf := ((diskSeekdone_spec hDone).arm a ha).1
    rw [hFunc] at hOf
    cases hOf
  · obtain ⟨r', hDone, rfl⟩ := map_eq_ok hOk
    refine ⟨rfl, ?_⟩
    rintro a ha ⟨hFunc, -⟩
    have hOf := ((diskWaitdone_spec hDone).arm a ha).1
    rw [hFunc] at hOf
    cases hOf
  · cases hOk
    exact ⟨rfl, fun a ha => by cases ha⟩
  · next m =>
    cases hOk
    refine ⟨rfl, ?_⟩
    rintro a - ⟨-, hData⟩
    cases hData
  · cases hOk
    refine ⟨rfl, ?_⟩
    rintro a - ⟨-, hData⟩
    cases hData
  · cases hOk

theorem filter_events {α : Type} {r : Done α} {vnow : BitVec 64} {jitter : BitVec 64 → BitVec 64}
    {data : Option Data}
    (h : ∀ a, r.arm = some a → ¬(a.func = .timerInterrupt ∧ data = some (.slot i))) :
    (r.events vnow jitter data).filter (isTimer i) = [] := by
  rw [List.filter_eq_nil_iff]
  intro e he
  cases hArm : r.arm with
  | none => simp [Done.events, hArm] at he
  | some a =>
    obtain rfl : e = (vnow + (a.nsecs + jitter a.nsecs), data, a.code, some a.func) := by
      simpa [Done.events, hArm] using he
    simpa [isTimer] using h a hArm

/-- The events of the timer with the one that a function of it schedules. -/
theorem pending_after {r : Done TimerData} {write : Nat} {jitter : BitVec 64 → BitVec 64}
    (hFunc : ∀ a, r.arm = some a → a.func = .timerInterrupt) :
    ((r.events t.now jitter (some (.slot i))).filter (isTimer i) ++
        t.pending.map (TimerEvent.ev i)).Perm
      ((t.after r write jitter).pending.map (TimerEvent.ev i)) := by
  cases hArm : r.arm with
  | none => simp [Done.events, Timer.after, hArm]
  | some a =>
    simp only [Done.events, Timer.after, Timer.arm, hArm, Option.map_some, Option.toList_some,
      List.map_append, hFunc a hArm]
    rw [List.filter_cons_of_pos (by simp [isTimer])]
    exact List.perm_append_comm

theorem timerInterrupt_func {td : TimerData} {code : BitVec 32} {a : Arm}
    (h : (timerInterrupt td code).arm = some a) : a.func = .timerInterrupt :=
  (timerInterrupt_arm h).2.2.2.1

@[simp] theorem Timer.after_td (r : Done TimerData) (write : Nat)
    (jitter : BitVec 64 → BitVec 64) : (t.after r write jitter).td = r.dev := by
  unfold Timer.after
  split <;> rfl

@[simp] theorem Timer.after_now (r : Done TimerData) (write : Nat)
    (jitter : BitVec 64 → BitVec 64) : (t.after r write jitter).now = t.now := by
  unfold Timer.after
  split <;> rfl

theorem ev_fields {e : TimerEvent} {ta : Slot} (h : e.ev i = s.event ta) :
    s.vtime ta = e.vtime ∧ (s.actionStorage ta).taData = some (.slot i) ∧
      (s.actionStorage ta).taCode = e.code ∧
      (s.actionStorage ta).taFunc = some .timerInterrupt := by
  simp only [TimerEvent.ev, State.event, Prod.mk.injEq] at h
  exact ⟨h.1.symm, h.2.1.symm, h.2.2.1.symm, h.2.2.2.symm⟩

/-- The line of the slot is up. -/
def World.raisedAt (w : World) (i : Fin 32) : Prop := w.devices.raised.getLsbD i = true

/-- An iteration of `check_queue` fires an event of the timer that is due, or has nothing to do
with it. -/
theorem Shows.turn {host : Host} (h : Shows i w t)
    (hTurn : turn (clockVnow w.clock) host w = some (.ok w')) :
    Shows i w' t ∨ ∃ e raised t', Timer.Step t ⟨.fire e, raised⟩ t' ∧ Shows i w' t' ∧
      (raised = true → w'.raisedAt i) := by
  obtain ⟨pending, free, hQueued, hPending⟩ := h.queue
  obtain ⟨ta, rest, r, pending', free', rfl, hDue, hHandle, hDevices, -, hQueued', hNow, hPerm⟩ :=
    turn_spec hQueued hTurn
  have hFilter := hPerm.filter (isTimer i)
  rw [List.filter_append] at hFilter
  by_cases hOwn : isTimer i (w.clock.event ta) = true
  · rw [agenda, List.map_cons, List.filter_cons_of_pos hOwn] at hPending
    have hMem : w.clock.event ta ∈ t.pending.map (TimerEvent.ev i) :=
      hPending.mem_iff.mp List.mem_cons_self
    obtain ⟨e, he, hEv⟩ := List.mem_map.mp hMem
    obtain ⟨before, after, hSplit⟩ := List.append_of_mem he
    rw [hSplit, List.map_append, List.map_cons, hEv] at hPending
    have hRest := (hPending.trans List.perm_middle).cons_inv
    rw [← List.map_append] at hRest
    obtain ⟨hVtime, hData, hCode, hFunc⟩ := ev_fields hEv
    rw [handle, hData, hCode, hFunc] at hHandle
    cases hHandle
    rw [h.td] at hDevices hFilter
    rw [hVtime, h.now] at hDue
    have hStep := Timer.Step.fire (h := host) hSplit hDue rfl
    refine .inr ⟨e, _, _, hStep, ⟨?_, ?_, ?_⟩, ?_⟩
    · rw [hDevices, Timer.after_td]
      exact Function.update_self ..
    · rw [hNow, h.now, Timer.after_now]
    · refine ⟨pending', _, hQueued', (hFilter.trans (hRest.append_left _)).trans ?_⟩
      rw [h.now, hData]
      exact pending_after (t := { t with pending := before ++ after })
        (r := timerInterrupt t.td e.code) (fun a ha => timerInterrupt_func ha)
    · intro hRaised
      rw [beq_iff_eq] at hRaised
      rw [World.raisedAt, hDevices]
      simp [Devices.timerDone, Done.into, setLine, hRaised]
  · have hNot : ¬((w.clock.actionStorage ta).taFunc = some .timerInterrupt ∧
        (w.clock.actionStorage ta).taData = some (.slot i)) :=
      fun hIs => hOwn (decide_eq_true hIs)
    obtain ⟨hSame, hArm⟩ := runHandler_elsewhere hHandle hNot
    rw [agenda, List.map_cons, List.filter_cons_of_neg hOwn] at hPending
    rw [filter_events hArm, List.nil_append] at hFilter
    refine .inl ⟨?_, hNow.trans h.now, pending', _, hQueued', hFilter.trans hPending⟩
    rw [hDevices, hSame, h.td]

theorem event_of_same (h : s'.actionStorage = s.actionStorage) : s'.event = s.event := by
  funext j
  rw [State.event, h, State.event]

/-- What leaves the timer and its events alone. -/
theorem Shows.of_same (h : Shows i w t) (hTimer : w'.devices.timers i = w.devices.timers i)
    (hNow : clockVnow w'.clock = clockVnow w.clock)
    (hAction : w'.clock.actionStorage = w.clock.actionStorage)
    (hHead : w'.clock.queuehead = w.clock.queuehead)
    (hFree : w'.clock.taFreelist = w.clock.taFreelist) : Shows i w' t := by
  obtain ⟨pending, free, hQueued, hPending⟩ := h.queue
  refine ⟨hTimer.trans h.td, hNow.trans h.now, pending, free, hQueued.of_same hAction hHead hFree, ?_⟩
  rwa [agenda, event_of_same hAction]

/-- A write to TIME. -/
theorem Shows.time {val : BitVec 32} {host : Host} {td : TimerData} {a : Arm}
    (h : Shows i w t) (hStart : timerStart { t.td with tdCountUsecs := val } = (td, a))
    (hOk : scheduleEvent w.clock (a.request (some (.slot i)) host.jitter) = .ok s') :
    Shows i ⟨s', { w.devices with timers := Function.update w.devices.timers i td }⟩
      (Timer.arm { t with td := td, writes := t.writes + 1 } a (t.writes + 1) host.jitter) := by
  obtain ⟨pending, free, hQueued, hPending⟩ := h.queue
  have hCalls : applyEffects w.clock
      (Done.calls { dev := td, arm := some a } (some (.slot i)) host.jitter) = .ok s' := by
    rw [applyEffects_calls]
    exact hOk
  obtain ⟨-, hNow, pending', free', hQueued', hPerm⟩ := calls_spec hQueued hCalls
  have hFunc : a.func = .timerInterrupt := by
    cases hStart
    rfl
  refine ⟨Function.update_self .., hNow.trans h.now, pending', free', hQueued', ?_⟩
  have hFilter := hPerm.filter (isTimer i)
  rw [List.filter_append, h.now] at hFilter
  refine (hFilter.trans (hPending.append_left _)).trans ?_
  exact pending_after (t := { t with td := td, writes := t.writes + 1 })
    (r := { dev := td, arm := some a }) (fun a' ha => by cases ha; exact hFunc)

theorem Shows.store {offset val : BitVec 32} {host : Host} {known : Bool} (h : Shows i w t)
    (hStore : timerStore w i offset val host = .ok (known, w')) :
    Shows i w' t ∨ ∃ l t', Timer.Step t l t' ∧ Shows i w' t' := by
  obtain ⟨pending, free, hQueued, hPending⟩ := h.queue
  unfold timerStore at hStore
  split at hStore
  · cases hStore
    exact .inl (h.of_same rfl rfl rfl rfl rfl)
  · cases hStore
    exact .inl (h.of_same rfl rfl rfl rfl rfl)
  · cases hStore
    refine .inr ⟨_, _, @Timer.Step.rest t val, ?_, h.now, pending, free, hQueued, hPending⟩
    rw [← h.td]
    exact Function.update_self ..
  · rw [h.td] at hStore
    obtain ⟨s', hOk, hRest⟩ := bind_eq_ok hStore
    cases hRest
    exact .inr ⟨_, _, .time rfl, h.time rfl hOk⟩
  · cases hStore
    exact .inl h
  · cases hStore
    exact .inl (h.of_same rfl rfl rfl rfl rfl)
  · cases hStore
    exact .inl (h.of_same rfl rfl rfl rfl rfl)
  · cases hStore
    exact .inl (h.of_same rfl rfl rfl rfl rfl)
  · cases hStore
    exact .inl h

/-- What can happen to the world, as the timer in a slot sees it. -/
inductive World.Move (i : Fin 32) : World → World → Prop where
  | store {w w' : World} {offset val : BitVec 32} {host : Host} {known : Bool} :
      timerStore w i offset val host = .ok (known, w') → World.Move i w w'
  | turn {w w' : World} {host : Host} :
      turn (clockVnow w.clock) host w = some (.ok w') → World.Move i w w'
  /-- Other devices schedule events of their own. -/
  | others {w : World} {s : State Func Data} {D : Devices} {r : Done Unit} {data : Option Data}
      {jitter : BitVec 64 → BitVec 64} :
      D.timers i = w.devices.timers i →
      (∀ a, r.arm = some a → ¬(a.func = .timerInterrupt ∧ data = some (.slot i))) →
      applyEffects w.clock (r.calls data jitter) = .ok s → World.Move i w ⟨s, D⟩
  | elapse {w : World} {s : State Func Data} :
      s.actionStorage = w.clock.actionStorage → s.queuehead = w.clock.queuehead →
      s.taFreelist = w.clock.taFreelist → World.Move i w ⟨s, w.devices⟩

theorem Shows.move (h : Shows i w t) (hMove : World.Move i w w') :
    Shows i w' t ∨ ∃ l t', Timer.Step t l t' ∧ Shows i w' t' := by
  cases hMove with
  | store hStore => exact h.store hStore
  | turn hTurn =>
    rcases h.turn hTurn with hSame | ⟨e, raised, t', hStep, hShows, -⟩
    · exact .inl hSame
    · exact .inr ⟨_, t', hStep, hShows⟩
  | others hTimer hArm hCalls =>
    obtain ⟨pending, free, hQueued, hPending⟩ := h.queue
    obtain ⟨-, hNow, pending', free', hQueued', hPerm⟩ := calls_spec hQueued hCalls
    have hFilter := hPerm.filter (isTimer i)
    rw [List.filter_append, filter_events hArm, List.nil_append] at hFilter
    exact .inl ⟨hTimer.trans h.td, hNow.trans h.now, pending', free', hQueued',
      hFilter.trans hPending⟩
  | @elapse s hAction hHead hFree =>
    have hStep : Timer.Step t ⟨.elapse, false⟩ { t with now := clockVnow s } := .elapse
    obtain ⟨pending, free, hQueued, hPending⟩ := h.queue
    refine .inr ⟨_, _, hStep, h.td, rfl, pending, free, hQueued.of_same hAction hHead hFree, ?_⟩
    rwa [agenda, event_of_same hAction]

/-- The timer that `timer_init` leaves, with nothing on the queue. -/
theorem shows_start {free : List Slot} (hTimer : w.devices.timers i = timerInit)
    (hQueue : Queued w.clock [] free none) : Shows i w (Timer.start (clockVnow w.clock)) :=
  ⟨hTimer, rfl, [], free, hQueue, .refl _⟩

/-- Every run of the world is one of the timer. -/
theorem Shows.run (h : Shows i w t) (hRun : Relation.ReflTransGen (World.Move i) w w') :
    ∃ p t', Path Timer.Step t p t' ∧ Shows i w' t' := by
  induction hRun with
  | refl => exact ⟨[], t, .nil t, h⟩
  | tail _ hMove ih =>
    obtain ⟨p, t₁, hPath, h₁⟩ := ih
    rcases h₁.move hMove with hSame | ⟨l, t', hStep, h'⟩
    · exact ⟨p, t₁, hPath, hSame⟩
    · exact ⟨p ++ [(l, t')], t', hPath.append (.cons hStep (.nil t')), h'⟩

end World

end Sys161.Bus
