import Sys161.Bus.Handlers

/-!
# Termination of check_queue

The length of the queue is no measure, since handlers put events back into the
list being drained. What decrease are the events now due together with the work
the disks and the serial ports have left; what can stop the decrease is a
handler that puts its event back at or before the time the loop works up to.
-/

namespace Sys161.Bus

open Runs Clock MainLoop WallClock

set_option autoImplicit false

/-! ## Turns of the loop -/

abbrev Ev := BitVec 64 × Option Data × BitVec 32 × Option Func

def agenda (s : State Func Data) (pending : List Slot) : List Ev := pending.map s.event

/-- What the call of `schedule_event` of a handler puts on the queue at the time `vnow`. -/
def Done.events {α : Type} (r : Done α) (vnow : BitVec 64) (jitter : BitVec 64 → BitVec 64)
    (data : Option Data) : List Ev :=
  (r.arm.map fun a => (vnow + (a.nsecs + jitter a.nsecs), data, a.code, some a.func)).toList

section Turns

variable {α : Type} {s s' : State Func Data} {pending free : List Slot} {inflight : Option Slot}

/-- The state in which a handler calls `schedule_event`. -/
def halted (s : State Func Data) (hung : Option String) : State Func Data :=
  if hung.isSome then { cpuStopcycling s with stoppedInDebugger := true } else s

theorem halted_same (s : State Func Data) (hung : Option String) :
    (halted s hung).actionStorage = s.actionStorage ∧ (halted s hung).queuehead = s.queuehead ∧
      (halted s hung).taFreelist = s.taFreelist ∧ clockVnow (halted s hung) = clockVnow s := by
  rw [halted]
  split <;> exact ⟨rfl, rfl, rfl, rfl⟩

theorem applyEffects_calls (r : Done α) (data : Option Data) (jitter : BitVec 64 → BitVec 64) :
    applyEffects s (r.calls data jitter) =
      match r.arm with
      | none => .ok (halted s r.hung)
      | some a => scheduleEvent (halted s r.hung) (a.request data jitter) := by
  rw [Done.calls, halted]
  cases r.hung <;> cases r.arm with
  | none => rfl
  | some a => exact applyEffects_schedule _ (a.request data jitter)

theorem agenda_halted (hung : Option String) : agenda (halted s hung) pending = agenda s pending := by
  have hEvent : (halted s hung).event = s.event := by
    funext i
    rw [State.event, State.event, (halted_same s hung).1]
  rw [agenda, hEvent, agenda]

theorem calls_spec (h : Queued s pending free inflight) {r : Done α} {data : Option Data}
    {jitter : BitVec 64 → BitVec 64} (hOk : applyEffects s (r.calls data jitter) = .ok s') :
    (r.arm ≠ none → free ≠ []) ∧ clockVnow s' = clockVnow s ∧
      ∃ pending' free', Queued s' pending' free' inflight ∧
        (agenda s' pending').Perm (r.events (clockVnow s) jitter data ++ agenda s pending) := by
  obtain ⟨hAction, hHead, hFree, hVnow⟩ := halted_same s r.hung
  have hHalted : Queued (halted s r.hung) pending free inflight := h.of_same hAction hHead hFree
  rw [applyEffects_calls] at hOk
  cases hArm : r.arm with
  | none =>
    rw [hArm] at hOk
    cases hOk
    refine ⟨fun hNe => absurd rfl hNe, hVnow, pending, free, hHalted, ?_⟩
    rw [agenda_halted, Done.events, hArm]
    exact List.Perm.refl _
  | some a =>
    rw [hArm] at hOk
    obtain ⟨n, free', rfl, hSpec, hQueued⟩ := hHalted.schedule hOk
    refine ⟨fun _ => List.cons_ne_nil _ _, ?_, _, free', hQueued, ?_⟩
    · rw [hSpec.sameClock.clockVnow, hVnow]
    · have hn : n ∉ pending := h.holds.free_not_pending (by simp)
      have hOld : pending.map s'.event = agenda s pending := by
        rw [← agenda_halted r.hung]
        refine List.map_congr_left fun i hi => hSpec.event_other i ?_
        rintro rfl
        exact hn hi
      have hPerm := (LinkedList.insertBefore_perm
        (later (halted s r.hung) (dueTime (halted s r.hung) (a.request data jitter)))
        n pending).map s'.event
      rw [List.map_cons, hSpec.event_new, hOld] at hPerm
      rw [Done.events, hArm]
      simpa [agenda, Request.event, Arm.request, dueTime, hVnow] using hPerm

theorem calls_ok (h : Queued s pending free inflight) {r : Done α} (hRoom : free ≠ [] ∨ r.arm = none)
    (data : Option Data) (jitter : BitVec 64 → BitVec 64) :
    ∃ s', applyEffects s (r.calls data jitter) = .ok s' := by
  obtain ⟨hAction, hHead, hFree, -⟩ := halted_same s r.hung
  rw [applyEffects_calls]
  cases hArm : r.arm with
  | none => exact ⟨_, rfl⟩
  | some a =>
    cases free with
    | nil => simp [hArm] at hRoom
    | cons n free =>
      obtain ⟨s', hOk, -⟩ := scheduleEvent_spec (h.of_same hAction hHead hFree).holds
        (a.request data jitter)
      exact ⟨s', hOk⟩

end Turns

/-- The call of its handler for the event in a slot. -/
def handle (w : World) (h : Host) (ta : Slot) : Except String Handled :=
  let e := w.clock.actionStorage ta
  runHandler w.devices (clockTime w.clock) h e.taFunc e.taData e.taCode

/-- All that an iteration does. -/
theorem turn_spec {w w' : World} {h : Host} {pending free : List Slot}
    (hQueue : Queued w.clock pending free none)
    (hTurn : turn (clockVnow w.clock) h w = some (.ok w')) :
    ∃ ta rest r pending' free', pending = ta :: rest ∧
      w.clock.vtime ta ≤ clockVnow w.clock ∧ handle w h ta = .ok r ∧ w'.devices = r.dev ∧
      (r.arm ≠ none → free ≠ []) ∧ Queued w'.clock pending' (ta :: free') none ∧
      clockVnow w'.clock = clockVnow w.clock ∧
      (agenda w'.clock pending').Perm
        (r.events (clockVnow w.clock) h.jitter (w.clock.actionStorage ta).taData ++
          agenda w.clock rest) := by
  rw [turn] at hTurn
  cases hPop : popDue w.clock (clockVnow w.clock) with
  | none =>
    rw [hPop] at hTurn
    cases hTurn
  | some p =>
    obtain ⟨ta, s⟩ := p
    rw [hPop] at hTurn
    obtain ⟨hDue, hEvent, rest, rfl, hPopped⟩ := hQueue.pop hPop
    have hAction : s.actionStorage = w.clock.actionStorage := popDue_actionStorage hPop
    have hVnow : clockVnow s = clockVnow w.clock := (popDue_sameClock hPop).clockVnow
    have hTime : clockTime s = clockTime w.clock := clockTime_sameClock (popDue_sameClock hPop)
    simp only [Option.some.injEq, hAction, hTime] at hTurn
    obtain ⟨r, hHandle, hTurn⟩ := bind_eq_ok hTurn
    obtain ⟨s', hCalls, hTurn⟩ := bind_eq_ok hTurn
    cases hTurn
    obtain ⟨hRoom, hVnow', pending', free', hQueue', hPerm⟩ := calls_spec hPopped hCalls
    refine ⟨ta, rest, r, pending', free', rfl, hDue, hHandle, rfl, hRoom,
      hQueue'.acfree, ?_, ?_⟩
    · rw [(acfree_sameClock s' ta).clockVnow, hVnow', hVnow]
    · have hFreed : agenda (acfree s' ta) pending' = agenda s' pending' := by
        rw [agenda, (acfree_spec hQueue'.holds).2.1, agenda]
      have hOld : agenda s rest = agenda w.clock rest := by rw [agenda, hEvent, agenda]
      rwa [hFreed, ← hOld, ← hVnow]

/-- An iteration comes to its end when its handler does and there is an action for what it
schedules. -/
theorem turn_ok {w : World} {h : Host} {ta : Slot} {rest free : List Slot}
    (hQueue : Queued w.clock (ta :: rest) free none)
    (hDue : w.clock.vtime ta ≤ clockVnow w.clock)
    {r : Handled} (hHandle : handle w h ta = .ok r) (hRoom : free ≠ [] ∨ r.arm = none) :
    ∃ w', turn (clockVnow w.clock) h w = some (.ok w') := by
  obtain ⟨s, hPop⟩ : ∃ s, popDue w.clock (clockVnow w.clock) = some (ta, s) := by
    rw [popDue, hQueue.holds.pendingLinked.1]
    exact ⟨_, if_neg (BitVec.not_lt.mpr hDue)⟩
  obtain ⟨-, -, rest', -, hPopped⟩ := hQueue.pop hPop
  have hTime : clockTime s = clockTime w.clock := clockTime_sameClock (popDue_sameClock hPop)
  obtain ⟨s', hCalls⟩ := calls_ok hPopped hRoom (w.clock.actionStorage ta).taData h.jitter
  refine ⟨{ clock := acfree s' ta, devices := r.dev }, ?_⟩
  rw [handle] at hHandle
  simp only [turn, hPop, popDue_actionStorage hPop, hTime, hHandle]
  show some (applyEffects s _ >>= _) = _
  rw [hCalls]
  rfl

/-! ## A bound on the iterations -/

def Ev.rearms (vnow : BitVec 64) (D : Devices) (e : Ev) : Prop :=
  Rearms vnow D e.2.2.2 e.2.1 e.2.2.1

def dueCount (vnow : BitVec 64) (l : List Ev) : Nat := l.countP fun e => e.1 ≤ vnow

/-- No event now due keeps coming back, and `n` counts the events due and the work left. -/
def Ranked (vnow : BitVec 64) (n : Nat) (w : World) : Prop :=
  clockVnow w.clock = vnow ∧ ∃ pending free, Queued w.clock pending free none ∧
    (∀ e ∈ agenda w.clock pending, e.1 ≤ vnow → ¬ Ev.rearms vnow w.devices e) ∧
    dueCount vnow (agenda w.clock pending) + w.devices.backlog = n

theorem events_due {α : Type} {r : Done α} {vnow : BitVec 64} {jitter : BitVec 64 → BitVec 64}
    {data : Option Data} (hJitter : ∀ n, jitter n ≤ n / 100) {e : Ev}
    (he : e ∈ r.events vnow jitter data) (hDue : e.1 ≤ vnow) :
    ∃ a, r.arm = some a ∧ CanBeDue vnow a.nsecs := by
  cases hArm : r.arm with
  | none => simp [Done.events, hArm] at he
  | some a =>
    have hEvent : e = (vnow + (a.nsecs + jitter a.nsecs), data, a.code, some a.func) := by
      simpa [Done.events, hArm] using he
    rw [hEvent] at hDue
    exact ⟨a, rfl, jitter a.nsecs, hJitter _, hDue⟩

theorem dueCount_events_le {α : Type} (r : Done α) (vnow : BitVec 64)
    (jitter : BitVec 64 → BitVec 64) (data : Option Data) :
    dueCount vnow (r.events vnow jitter data) ≤ 1 := by
  refine List.countP_le_length.trans ?_
  rw [Done.events]
  cases r.arm <;> simp

theorem Ranked.turn {vnow : BitVec 64} {n : Nat} {w w' : World} (h : Ranked vnow n w)
    (hTurn : Turn vnow w w') : ∃ m, m < n ∧ Ranked vnow m w' := by
  obtain ⟨hNow, pending, free, hQueue, hHarmless, hCount⟩ := h
  obtain ⟨host, hTurn⟩ := hTurn
  rw [← hNow] at hTurn
  obtain ⟨ta, rest, r, pending', free', rfl, hDue, hHandle, hDevices, -, hQueue', hVnow,
    hPerm⟩ := turn_spec hQueue hTurn
  rw [hNow] at hDue hVnow hPerm
  have hNot : ¬ Ev.rearms vnow w.devices (w.clock.event ta) :=
    hHarmless _ (List.mem_map_of_mem List.mem_cons_self) hDue
  obtain ⟨hSame, hBacklog, hArm⟩ := runHandler_spec hHandle hNot
  have hBefore : dueCount vnow (agenda w.clock (ta :: rest)) =
      dueCount vnow (agenda w.clock rest) + 1 :=
    List.countP_cons_of_pos (decide_eq_true hDue)
  have hAfter : dueCount vnow (agenda w'.clock pending') =
      dueCount vnow (r.events vnow host.jitter (w.clock.actionStorage ta).taData) +
        dueCount vnow (agenda w.clock rest) :=
    (hPerm.countP_eq _).trans List.countP_append
  have hOne := dueCount_events_le r vnow host.jitter (w.clock.actionStorage ta).taData
  have hNew : dueCount vnow (r.events vnow host.jitter (w.clock.actionStorage ta).taData) = 0 ∨
      r.dev.backlog < w.devices.backlog := by
    by_cases hZero : dueCount vnow
        (r.events vnow host.jitter (w.clock.actionStorage ta).taData) = 0
    · exact Or.inl hZero
    · obtain ⟨e, he, hDueE⟩ := List.countP_pos_iff.mp (Nat.pos_of_ne_zero hZero)
      obtain ⟨a, ha, hCan⟩ := events_due host.jitter_le he (by simpa using hDueE)
      exact Or.inr ((hArm a ha).2 hCan)
  refine ⟨_, ?_, hVnow, pending', ta :: free', hQueue', ?_, rfl⟩
  · rw [hDevices]
    omega
  · intro e he hDueE
    rw [hDevices]
    intro hAgain
    have hAgain' := (hSame _ _ _).mp hAgain
    rcases List.mem_append.mp (hPerm.mem_iff.mp he) with hEvent | hOld
    · cases hArmCase : r.arm with
      | none => simp [Done.events, hArmCase] at hEvent
      | some a =>
        have hEq : e = (vnow + (a.nsecs + host.jitter a.nsecs),
            (w.clock.actionStorage ta).taData, a.code, some a.func) := by
          simpa [Done.events, hArmCase] using hEvent
        rw [hEq] at hAgain'
        exact (hArm a hArmCase).1 hAgain'
    · exact hHarmless e (List.mem_cons_of_mem _ hOld) hDueE hAgain'

/-- Where no event now due keeps coming back, the loop ends. -/
theorem terminates_of_harmless {w : World} {pending free : List Slot}
    (hQueue : Queued w.clock pending free none)
    (hHarmless : ∀ ta ∈ pending, w.clock.vtime ta ≤ clockVnow w.clock →
      ¬ Ev.rearms (clockVnow w.clock) w.devices (w.clock.event ta)) :
    ¬ Diverges (Turn (clockVnow w.clock)) w := by
  refine not_diverges_of_rank (fun n s s' hs hTurn => Ranked.turn hs hTurn)
    (n := dueCount (clockVnow w.clock) (agenda w.clock pending) + w.devices.backlog)
    ⟨rfl, pending, free, hQueue, ?_, rfl⟩
  intro e he hDue
  obtain ⟨ta, hta, rfl⟩ := List.mem_map.mp he
  exact hHarmless ta hta hDue

/-! ## A loop that goes on forever -/

def isEmufsDone (i : Fin 32) (e : Ev) : Bool :=
  decide (e.2.2.2 = some .emufsDone ∧ e.2.1 = some (.slot i))

/-- The handlers of the pending events can be run: they have the pointer they expect, a busy
filesystem device has its one completion pending, and the disks have their track tables. -/
structure Sound (D : Devices) (l : List Ev) : Prop where
  takes : ∀ e ∈ l, ∃ func, e.2.2.2 = some func ∧ func.takes e.2.1
  emufs : ∀ i, l.countP (isEmufsDone i) ≤ if (D.emufs i).edBusy = 1 then 1 else 0
  disks : ∀ i, (D.disks i).geometryOk

theorem Sound.perm {D : Devices} {l l' : List Ev} (h : Sound D l) (hPerm : l'.Perm l) :
    Sound D l' where
  takes := fun e he => h.takes e (hPerm.mem_iff.mp he)
  emufs := fun i => (hPerm.countP_eq _).le.trans (h.emufs i)
  disks := h.disks

theorem Sound.runHandler_ok {D : Devices} {e : Ev} {l : List Ev} (h : Sound D (e :: l))
    (now : BitVec 32 × BitVec 32) (host : Host) :
    ∃ r, runHandler D now host e.2.2.2 e.2.1 e.2.2.1 = .ok r := by
  obtain ⟨func, hFunc, hTakes⟩ := h.takes e List.mem_cons_self
  rw [hFunc]
  refine Bus.runHandler_ok hTakes ?_ h.disks now host _
  rintro i rfl hData
  have hCount := h.emufs i
  rw [List.countP_cons_of_pos (by simp [isEmufsDone, hFunc, hData])] at hCount
  by_contra hIdle
  rw [if_neg hIdle] at hCount
  omega

theorem Sound.handler {D : Devices} {e : Ev} {l : List Ev} (h : Sound D (e :: l))
    {now : BitVec 32 × BitVec 32} {host : Host} {r : Handled}
    (hOk : runHandler D now host e.2.2.2 e.2.1 e.2.2.1 = .ok r) (vnow : BitVec 64) :
    Sound r.dev (r.events vnow host.jitter e.2.1 ++ l) := by
  have hFrame := runHandler_frame hOk
  have hNew {e' : Ev} (he : e' ∈ r.events vnow host.jitter e.2.1) :
      ∃ a, r.arm = some a ∧ e'.2.2.2 = some a.func ∧ e'.2.1 = e.2.1 := by
    cases hArm : r.arm with
    | none => simp [Done.events, hArm] at he
    | some a =>
      have hEq : e' = (vnow + (a.nsecs + host.jitter a.nsecs), e.2.1, a.code, some a.func) := by
        simpa [Done.events, hArm] using he
      rw [hEq]
      exact ⟨a, rfl, rfl, rfl⟩
  refine ⟨?_, ?_, fun i => hFrame.geometry i (h.disks i)⟩
  · intro e' he
    rcases List.mem_append.mp he with hEvent | hOld
    · obtain ⟨a, hArm, hFunc, hData⟩ := hNew hEvent
      rw [hFunc, hData]
      exact ⟨a.func, rfl, hFrame.takes a hArm⟩
    · exact h.takes e' (List.mem_cons_of_mem _ hOld)
  · intro i
    have hNone : (r.events vnow host.jitter e.2.1).countP (isEmufsDone i) = 0 := by
      rw [List.countP_eq_zero]
      intro e' he hIs
      obtain ⟨a, hArm, hFunc, -⟩ := hNew he
      have hEmufs : e'.2.2.2 = some .emufsDone := (of_decide_eq_true hIs).1
      exact hFrame.arm a hArm (Option.some.inj (hFunc.symm.trans hEmufs))
    rw [List.countP_append, hNone, Nat.zero_add]
    have hCount := h.emufs i
    by_cases hIs : e.2.2.2 = some .emufsDone ∧ e.2.1 = some (.slot i)
    · rw [List.countP_cons_of_pos (by simp [isEmufsDone, hIs])] at hCount
      have hLe : (if (D.emufs i).edBusy = 1 then 1 else 0) ≤ 1 := by split <;> omega
      omega
    · rw [List.countP_cons_of_neg (by simpa [isEmufsDone] using hIs)] at hCount
      rwa [hFrame.busy i hIs]

/-- A free action, and a due event that keeps coming back. -/
def Feeding (vnow : BitVec 64) (w : World) : Prop :=
  clockVnow w.clock = vnow ∧ ∃ pending free, Queued w.clock pending free none ∧ free ≠ [] ∧
    Sound w.devices (agenda w.clock pending) ∧
    ∃ ta ∈ pending, w.clock.vtime ta ≤ vnow ∧ Ev.rearms vnow w.devices (w.clock.event ta)

/-- A host that does nothing out of the ordinary. -/
def quietHost (jitter : BitVec 64 → BitVec 64) (jitter_le : ∀ n, jitter n ≤ n / 100) : Host where
  jitter := jitter
  jitter_le := jitter_le
  sendto := .sent
  ioError := false
  sector := fun _ => 0
  rotdelay := 0
  pc := 0

/-- The host whose `random()` makes an event due at once that can be. -/
theorem exists_host {vnow nsecs : BitVec 64} (h : CanBeDue vnow nsecs) :
    ∃ host : Host, vnow + (nsecs + host.jitter nsecs) ≤ vnow := by
  obtain ⟨j, hj, hDue⟩ := h
  refine ⟨quietHost (fun n => if n = nsecs then j else 0) ?_, ?_⟩
  · intro n
    split
    · next hEq => rwa [hEq]
    · simp [BitVec.le_def]
  · simpa [quietHost] using hDue

theorem head_due {s : State Func Data} {ta i : Slot} {rest free : List Slot} {vnow : BitVec 64}
    (hQueue : Queued s (ta :: rest) free none) (hi : i ∈ ta :: rest) (hDue : s.vtime i ≤ vnow) :
    s.vtime ta ≤ vnow := by
  rcases List.mem_cons.mp hi with rfl | hi
  · exact hDue
  · exact BitVec.le_trans ((List.pairwise_cons.mp hQueue.sorted).1 i hi) hDue

/-- An iteration at whose end an event that keeps coming back is due leaves such a state. -/
theorem feeding_of_turn {w w' : World} {ta : Slot} {rest pending' free' : List Slot}
    {host : Host} {r : Handled}
    (hSound : Sound w.devices (agenda w.clock (ta :: rest)))
    (hHandle : handle w host ta = .ok r) (hDevices : w'.devices = r.dev)
    (hQueue' : Queued w'.clock pending' (ta :: free') none)
    (hVnow : clockVnow w'.clock = clockVnow w.clock)
    (hPerm : (agenda w'.clock pending').Perm
      (r.events (clockVnow w.clock) host.jitter (w.clock.actionStorage ta).taData ++
        agenda w.clock rest))
    {e : Ev}
    (he : e ∈ r.events (clockVnow w.clock) host.jitter (w.clock.actionStorage ta).taData ++
      agenda w.clock rest)
    (hDue : e.1 ≤ clockVnow w.clock) (hAgain : Ev.rearms (clockVnow w.clock) r.dev e) :
    Feeding (clockVnow w.clock) w' := by
  refine ⟨hVnow, pending', ta :: free', hQueue', List.cons_ne_nil _ _, ?_, ?_⟩
  · rw [hDevices]
    exact (Sound.handler (e := w.clock.event ta) hSound hHandle _).perm hPerm
  · obtain ⟨i, hi, hEvent⟩ := List.mem_map.mp (hPerm.mem_iff.mpr he)
    rw [hDevices]
    refine ⟨i, hi, ?_, ?_⟩
    · have hTime : w'.clock.vtime i = e.1 := congrArg Prod.fst hEvent
      rwa [hTime]
    · rwa [hEvent]

theorem mem_events {α : Type} {r : Done α} {vnow : BitVec 64} {jitter : BitVec 64 → BitVec 64}
    {data : Option Data} {a : Arm} (h : r.arm = some a) :
    (vnow + (a.nsecs + jitter a.nsecs), data, a.code, some a.func) ∈
      r.events vnow jitter data := by
  rw [Done.events, h]
  exact List.mem_singleton_self _

/-- An event that stays in the queue while another handler runs. -/
theorem feeding_of_other {w w' : World} {ta i : Slot} {rest free : List Slot} {host : Host}
    (hQueue : Queued w.clock (ta :: rest) free none)
    (hSound : Sound w.devices (agenda w.clock (ta :: rest)))
    (hHead : ¬ Ev.rearms (clockVnow w.clock) w.devices (w.clock.event ta))
    (hi : i ∈ ta :: rest) (hDue : w.clock.vtime i ≤ clockVnow w.clock)
    (hAgain : Ev.rearms (clockVnow w.clock) w.devices (w.clock.event i))
    (hTurn : turn (clockVnow w.clock) host w = some (.ok w')) :
    Feeding (clockVnow w.clock) w' := by
  have hOld : i ∈ rest := by
    rcases List.mem_cons.mp hi with rfl | hi
    · exact absurd hAgain hHead
    · exact hi
  obtain ⟨ta', rest', r, pending', free', hPending, -, hHandle, hDevices, -, hQueue', hVnow,
    hPerm⟩ := turn_spec hQueue hTurn
  cases hPending
  refine feeding_of_turn hSound hHandle hDevices hQueue' hVnow hPerm
    (List.mem_append_right _ (List.mem_map_of_mem hOld)) hDue ?_
  exact ((runHandler_spec hHandle hHead).rearms_iff _ _ _).mpr hAgain

theorem Feeding.turn {vnow : BitVec 64} {w : World} (h : Feeding vnow w) :
    ∃ w', Turn vnow w w' ∧ Feeding vnow w' := by
  obtain ⟨rfl, pending, free, hQueue, hFree, hSound, i, hi, hDue, hAgain⟩ := h
  cases pending with
  | nil => cases hi
  | cons ta rest =>
    have hHeadDue := head_due hQueue hi hDue
    by_cases hHead : Ev.rearms (clockVnow w.clock) w.devices (w.clock.event ta)
    · obtain ⟨nsecs, hCan, hRun⟩ := runHandler_rearms hHead
      obtain ⟨host, hNew⟩ := exists_host hCan
      obtain ⟨r, a, hOk, hArm, hNsecs, hAgain'⟩ := hRun (clockTime w.clock) host
      obtain ⟨w', hTurn⟩ := turn_ok hQueue hHeadDue hOk (Or.inl hFree)
      refine ⟨w', ⟨host, hTurn⟩, ?_⟩
      obtain ⟨ta', rest', r', pending', free', hPending, -, hHandle, hDevices, -, hQueue',
        hVnow, hPerm⟩ := turn_spec hQueue hTurn
      cases hPending
      cases hOk.symm.trans hHandle
      refine feeding_of_turn hSound hHandle hDevices hQueue' hVnow hPerm
        (List.mem_append_left _ (mem_events hArm)) ?_ hAgain'
      rwa [hNsecs]
    · obtain ⟨r, hOk⟩ := Sound.runHandler_ok (e := w.clock.event ta) hSound (clockTime w.clock)
        (quietHost (fun _ => 0) (by simp [BitVec.le_def]))
      obtain ⟨w', hTurn⟩ := turn_ok hQueue hHeadDue hOk (Or.inl hFree)
      exact ⟨w', ⟨_, hTurn⟩, feeding_of_other hQueue hSound hHead hi hDue hAgain hTurn⟩

theorem Feeding.diverges {vnow : BitVec 64} {w : World} (h : Feeding vnow w) :
    Diverges (Turn vnow) w := diverges_of_invariant (fun _ => Feeding.turn) h

/-! ## When the loop ends -/

/-- Some event now due has a handler that keeps putting it back at or before the present. -/
def SelfFeeding (w : World) (pending : List Slot) : Prop :=
  ∃ ta ∈ pending, w.clock.vtime ta ≤ clockVnow w.clock ∧
    Ev.rearms (clockVnow w.clock) w.devices (w.clock.event ta)

/-- No action is free, and the handler of the first event needs one whatever the host does, so
that `acalloc` ends the program. -/
def OutOfActions (w : World) (pending free : List Slot) : Prop :=
  free = [] ∧ ∀ ta, pending.head? = some ta → ∀ host r, handle w host ta = .ok r → r.arm ≠ none

/-- Without a free action the loop goes on if its first iteration frees one. -/
theorem diverges_of_idle {w : World} {rest : List Slot} {ta : Slot} {host : Host}
    {r : Handled} (hQueue : Queued w.clock (ta :: rest) [] none)
    (hSound : Sound w.devices (agenda w.clock (ta :: rest)))
    (hFeeding : SelfFeeding w (ta :: rest)) (hHandle : handle w host ta = .ok r)
    (hIdle : r.arm = none) : Diverges (Turn (clockVnow w.clock)) w := by
  obtain ⟨i, hi, hDue, hAgain⟩ := hFeeding
  have hHead : ¬ Ev.rearms (clockVnow w.clock) w.devices (w.clock.event ta) := by
    intro hHead
    obtain ⟨nsecs, -, hRun⟩ := runHandler_rearms hHead
    obtain ⟨r', a, hOk, hArm, -⟩ := hRun (clockTime w.clock) host
    cases hOk.symm.trans hHandle
    rw [hIdle] at hArm
    cases hArm
  obtain ⟨w', hTurn⟩ := turn_ok hQueue (head_due hQueue hi hDue) hHandle (Or.inr hIdle)
  exact Diverges.of_turn ⟨host, hTurn⟩
    (feeding_of_other hQueue hSound hHead hi hDue hAgain hTurn).diverges

theorem not_diverges_of_outOfActions {w : World} {pending free : List Slot}
    (hQueue : Queued w.clock pending free none) (hOut : OutOfActions w pending free) :
    ¬ Diverges (Turn (clockVnow w.clock)) w := by
  intro hLoop
  obtain ⟨w', ⟨host, hTurn⟩, -⟩ := hLoop.exists_turn
  obtain ⟨ta, rest, r, pending', free', rfl, -, hHandle, -, hRoom, -⟩ := turn_spec hQueue hTurn
  exact hRoom (hOut.2 ta rfl host r hHandle) hOut.1

theorem check_queue_terminates_iff {w : World} {pending free : List Slot}
    (hQueue : Queued w.clock pending free none)
    (hSound : Sound w.devices (agenda w.clock pending)) :
    ¬ Diverges (Turn (clockVnow w.clock)) w ↔
      (SelfFeeding w pending → OutOfActions w pending free) := by
  constructor
  · intro hEnds hFeeding
    by_contra hNot
    obtain ⟨i, hi, hDue, hAgain⟩ := hFeeding
    cases free with
    | cons n free =>
      exact hEnds (Feeding.diverges ⟨rfl, pending, n :: free, hQueue, List.cons_ne_nil _ _, hSound,
        i, hi, hDue, hAgain⟩)
    | nil =>
      cases pending with
      | nil => cases hi
      | cons ta rest =>
        refine hNot ⟨rfl, ?_⟩
        rintro _ ⟨⟩ host r hHandle hIdle
        exact hEnds (diverges_of_idle hQueue hSound ⟨i, hi, hDue, hAgain⟩ hHandle hIdle)
  · intro hCondition
    by_cases hFeeding : SelfFeeding w pending
    · exact not_diverges_of_outOfActions hQueue (hCondition hFeeding)
    · exact terminates_of_harmless hQueue fun ta hta hDue hAgain => hFeeding ⟨ta, hta, hDue, hAgain⟩

/-! ### A timer programmed with a countdown of zero -/

/-- A system in which no device has been used yet. -/
def bare : Devices where
  timers := fun _ => timerInit
  serials := fun _ => serialInit
  nets := fun _ => ⟨"", false, 0, 0, 0, 0, fun _ => 0, fun _ => 0⟩
  emufs := fun _ => ⟨0, 0, 0⟩
  disks := fun _ => ⟨[], 0, 0, 0, 0, -1, false, 0, 0, 0, fun _ => 0⟩
  meters := fun _ => ⟨200000000, -1⟩
  prof := ⟨false, 0, 0, fun _ => 0⟩
  raised := 0
  shutoff := false

def calmHost : Host := quietHost (fun _ => 0) stillHost.jitter_le

/-- The guest writes the restart flag and then 0 to the countdown of the timer in slot 0. -/
def programTimer (w : World) (restart : BitVec 32) : Except String World := do
  let (_, w) ← timerStore w 0 0x08 restart calmHost
  let (_, w) ← timerStore w 0 0x10 0 calmHost
  return w

def zeroTimer (restart : BitVec 32) : TimerData where
  tdRestartflag := restart
  tdCountUsecs := 0
  tdGeneration := 1

def withTimer (td : TimerData) : Devices :=
  { bare with timers := Function.update bare.timers 0 td }

theorem programTimer_spec {s : State Func Data} {n : Slot} {free : List Slot}
    (hHolds : Holds s [] (n :: free) none) (restart : BitVec 32) :
    ∃ s', programTimer ⟨s, bare⟩ restart = .ok ⟨s', withTimer (zeroTimer restart)⟩ ∧
      Queued s' [n] free none ∧
      s'.event n = (clockVnow s', some (.slot 0), 1, some .timerInterrupt) := by
  let arm : Arm := { nsecs := 0, code := 1, func := .timerInterrupt, desc := "timer" }
  have hQueue : Queued s [] (n :: free) none := ⟨hHolds, List.Pairwise.nil⟩
  obtain ⟨s', hOk, -⟩ := scheduleEvent_spec hHolds (arm.request (some (.slot 0)) calmHost.jitter)
  obtain ⟨n', free', hFree, hSpec, hQueue'⟩ := hQueue.schedule hOk
  cases hFree
  refine ⟨s', ?_, hQueue', ?_⟩
  · have hRest : timerStore ⟨s, bare⟩ 0 0x08 restart calmHost =
        .ok (true, ⟨s, withTimer { timerInit with tdRestartflag := restart }⟩) := rfl
    have hTime : timerStore ⟨s, withTimer { timerInit with tdRestartflag := restart }⟩ 0 0x10 0
        calmHost = .ok (true, ⟨s', withTimer (zeroTimer restart)⟩) := by
      have hStart : timerStart { (withTimer { timerInit with tdRestartflag := restart }).timers 0
          with tdCountUsecs := 0 } = (zeroTimer restart, arm) := by
        simp [timerStart, withTimer, timerInit, zeroTimer, TimerData.nsecs, arm]
      rw [timerStore_time hStart hOk]
      simp [withTimer]
    rw [programTimer, hRest]
    show (timerStore _ 0 0x10 0 calmHost >>= _) = _
    rw [hTime]
    rfl
  · rw [hSpec.event_new, hSpec.sameClock.clockVnow]
    simp [Request.event, Arm.request, dueTime, arm, calmHost, quietHost]

theorem zeroTimer_sound (restart : BitVec 32) (t : BitVec 64) :
    Sound (withTimer (zeroTimer restart)) [(t, some (.slot 0), 1, some .timerInterrupt)] where
  takes := by
    intro e he
    rw [List.mem_singleton.mp he]
    exact ⟨_, rfl, trivial⟩
  emufs := fun i => Nat.zero_le _
  disks := fun i => by
    show DiskData.geometryOk ⟨[], 0, 0, 0, 0, -1, false, 0, 0, 0, fun _ => 0⟩
    simp [DiskData.geometryOk]

theorem zeroTimer_rearms_iff (vnow : BitVec 64) (restart : BitVec 32) :
    (zeroTimer restart).Rearms vnow 1 ↔ restart ≠ 0 := by
  have hNsecs : (zeroTimer restart).nsecs = 0 := by simp [zeroTimer, TimerData.nsecs]
  have hDue : CanBeDue vnow (zeroTimer restart).nsecs := by
    rw [hNsecs]
    exact ⟨0, by decide, by simp⟩
  exact ⟨fun h => h.2.1, fun h => ⟨rfl, h, hDue⟩⟩

theorem two_actions : ∃ n m free, (List.finRange maxActions).reverse = n :: m :: free := by
  have hLength : (List.finRange maxActions).reverse.length = 1024 := by simp [maxActions]
  generalize (List.finRange maxActions).reverse = l at hLength
  match l, hLength with
  | n :: m :: free, _ => exact ⟨n, m, free, rfl⟩

/-- After the guest has set the restart flag and a countdown of 0, `check_queue` never returns. -/
theorem check_queue_never_returns : ∃ w, programTimer ⟨clockInit 0 0, bare⟩ 1 = .ok w ∧
    (∃ pending free, Queued w.clock pending free none ∧
      Sound w.devices (agenda w.clock pending)) ∧
    Diverges (Turn (clockVnow w.clock)) w := by
  obtain ⟨n, m, free, hFree⟩ := two_actions
  have hHolds : Holds (clockInit 0 0 : State Func Data) [] (List.finRange maxActions).reverse none :=
    clockInit_holds 0 0
  rw [hFree] at hHolds
  generalize (clockInit 0 0 : State Func Data) = s at hHolds ⊢
  obtain ⟨s', hOk, hQueue, hEvent⟩ := programTimer_spec hHolds 1
  have hSound : Sound (withTimer (zeroTimer 1)) (agenda s' [n]) := by
    rw [agenda, List.map_singleton, hEvent]
    exact zeroTimer_sound 1 _
  refine ⟨_, hOk, ⟨[n], m :: free, hQueue, hSound⟩, ?_⟩
  refine Feeding.diverges ⟨rfl, [n], m :: free, hQueue, List.cons_ne_nil _ _, hSound, n,
    List.mem_cons_self, ?_, ?_⟩
  · have hTime : s'.vtime n = clockVnow s' := congrArg Prod.fst hEvent
    exact BitVec.le_of_eq hTime
  · rw [hEvent]
    exact (zeroTimer_rearms_iff _ 1).mpr (by decide)

/-- Without the restart flag the countdown of 0 is over after one interrupt. -/
theorem check_queue_returns_one_shot : ∃ w, programTimer ⟨clockInit 0 0, bare⟩ 0 = .ok w ∧
    ¬ Diverges (Turn (clockVnow w.clock)) w := by
  obtain ⟨n, m, free, hFree⟩ := two_actions
  have hHolds : Holds (clockInit 0 0 : State Func Data) [] (List.finRange maxActions).reverse none :=
    clockInit_holds 0 0
  rw [hFree] at hHolds
  generalize (clockInit 0 0 : State Func Data) = s at hHolds ⊢
  obtain ⟨s', hOk, hQueue, hEvent⟩ := programTimer_spec hHolds 0
  have hSound : Sound (withTimer (zeroTimer 0)) (agenda s' [n]) := by
    rw [agenda, List.map_singleton, hEvent]
    exact zeroTimer_sound 0 _
  refine ⟨_, hOk, (check_queue_terminates_iff hQueue hSound).mpr ?_⟩
  rintro ⟨ta, hta, -, hAgain⟩
  rw [List.mem_singleton.mp hta, hEvent] at hAgain
  exact absurd rfl ((zeroTimer_rearms_iff _ 0).mp hAgain)

end Sys161.Bus
