import Sys161.Clock.State

/-!
# The lists behind the pool and the queue

`Holds s pending free inflight` says which slots the queue and the free list
link, and that with the action in flight they make up all of `action_storage`.
Each operation of the clock is described by what it does to the two lists.
-/

namespace Sys161.Clock

open LinkedList

set_option autoImplicit false

variable {φ δ : Type}

structure Holds (s : State φ δ) (pending free : List Slot) (inflight : Option Slot) : Prop where
  pendingLinked : Linked s.next s.queuehead pending
  freeLinked : Linked s.next s.taFreelist free
  partition : (inflight.toList ++ pending ++ free).Perm (List.finRange maxActions)

/-- What an event carries, apart from its links and its mark. -/
def State.event (s : State φ δ) (i : Slot) : BitVec 64 × Option δ × BitVec 32 × Option φ :=
  let ta := s.actionStorage i
  (ta.taVtime, ta.taData, ta.taCode, ta.taFunc)

def Request.event (r : Request φ δ) (vtime : BitVec 64) :
    BitVec 64 × Option δ × BitVec 32 × Option φ :=
  (vtime, r.data, r.code, some r.func)

def State.marked (s : State φ δ) (i : Slot) : Bool := (s.actionStorage i).taRunningto

/-- The time `schedule_event` gives to a request. -/
def dueTime (s : State φ δ) (r : Request φ δ) : BitVec 64 :=
  clockVnow s + (r.nsecs + r.jitter)

/-- The clock words that the queue operations leave alone. -/
structure SameClock (s s' : State φ δ) : Prop where
  virtualNow : s'.virtualNow = s.virtualNow
  startSecs : s'.startSecs = s.startSecs
  startNsecs : s'.startNsecs = s.startNsecs
  idleslop : s'.idleslop = s.idleslop
  cpuCyclesCount : s'.cpuCyclesCount = s.cpuCyclesCount
  cpuRunningMask : s'.cpuRunningMask = s.cpuRunningMask
  extraSelecttime : s'.extraSelecttime = s.extraSelecttime
  totRcycles : s'.totRcycles = s.totRcycles
  totIcycles : s'.totIcycles = s.totIcycles

theorem SameClock.refl (s : State φ δ) : SameClock s s :=
  ⟨rfl, rfl, rfl, rfl, rfl, rfl, rfl, rfl, rfl⟩

theorem SameClock.trans {s t u : State φ δ} (h : SameClock s t) (h' : SameClock t u) :
    SameClock s u where
  virtualNow := h'.virtualNow.trans h.virtualNow
  startSecs := h'.startSecs.trans h.startSecs
  startNsecs := h'.startNsecs.trans h.startNsecs
  idleslop := h'.idleslop.trans h.idleslop
  cpuCyclesCount := h'.cpuCyclesCount.trans h.cpuCyclesCount
  cpuRunningMask := h'.cpuRunningMask.trans h.cpuRunningMask
  extraSelecttime := h'.extraSelecttime.trans h.extraSelecttime
  totRcycles := h'.totRcycles.trans h.totRcycles
  totIcycles := h'.totIcycles.trans h.totIcycles

theorem SameClock.clockVnow {s s' : State φ δ} (h : SameClock s s') : clockVnow s' = clockVnow s := by
  simp only [Clock.clockVnow, h.virtualNow, h.cpuCyclesCount, h.extraSelecttime]

namespace Holds

variable {s : State φ δ} {pending free : List Slot} {inflight : Option Slot}

theorem nodup (h : Holds s pending free inflight) :
    (inflight.toList ++ pending ++ free).Nodup :=
  h.partition.nodup_iff.mpr (List.nodup_finRange _)

theorem pending_nodup (h : Holds s pending free inflight) : pending.Nodup :=
  (List.nodup_append.mp (List.nodup_append.mp h.nodup).1).2.1

theorem free_nodup (h : Holds s pending free inflight) : free.Nodup :=
  (List.nodup_append.mp h.nodup).2.1

theorem free_not_pending (h : Holds s pending free inflight) {i : Slot} (hi : i ∈ free) :
    i ∉ pending := by
  intro hp
  exact (List.nodup_append.mp h.nodup).2.2 i (by simp [hp]) i hi rfl

theorem inflight_not_mem {ta : Slot} (h : Holds s pending free (some ta)) :
    ta ∉ pending ∧ ta ∉ free := by
  have hNodup : (ta :: (pending ++ free)).Nodup := by simpa using h.nodup
  simpa using (List.nodup_cons.mp hNodup).1

theorem pending_length (h : Holds s pending free inflight) : pending.length ≤ maxActions := by
  have hLength := h.partition.length_eq
  simp only [List.length_append, List.length_finRange] at hLength
  omega

theorem mem (h : Holds s pending free inflight) (i : Slot) :
    inflight = some i ∨ i ∈ pending ∨ i ∈ free := by
  have hi := h.partition.mem_iff.mpr (List.mem_finRange i)
  simpa [or_assoc, eq_comm] using hi

/-- The lists are determined by the pointers. -/
theorem unique {pending' free' : List Slot} {inflight' : Option Slot}
    (h : Holds s pending free inflight) (h' : Holds s pending' free' inflight') :
    pending' = pending ∧ free' = free :=
  ⟨linked_unique h'.pendingLinked h.pendingLinked, linked_unique h'.freeLinked h.freeLinked⟩

/-- A change of state that keeps the links keeps the lists. -/
theorem of_same {s' : State φ δ} (h : Holds s pending free inflight) (hNext : s'.next = s.next)
    (hQueue : s'.queuehead = s.queuehead) (hFree : s'.taFreelist = s.taFreelist) :
    Holds s' pending free inflight :=
  ⟨by rw [hNext, hQueue]; exact h.pendingLinked, by rw [hNext, hFree]; exact h.freeLinked, h.partition⟩

end Holds

/-! ## Filling the free list -/

theorem acfree_next (s : State φ δ) (ta : Slot) :
    (acfree s ta).next = Function.update s.next ta s.taFreelist := by
  funext i
  by_cases h : i = ta
  · subst h
    simp [State.next, acfree, setAction]
  · simp [State.next, acfree, setAction, h]

theorem acfree_linked {s : State φ δ} {free : List Slot} {ta : Slot}
    (hFree : Linked s.next s.taFreelist free) (hta : ta ∉ free) :
    Linked (acfree s ta).next (acfree s ta).taFreelist (ta :: free) := by
  rw [acfree_next]
  refine ⟨rfl, ?_⟩
  rw [Function.update_self]
  refine linked_congr (fun i hi => Function.update_of_ne ?_ _ _) hFree
  rintro rfl
  exact hta hi

theorem acfree_queue_linked {s : State φ δ} {pending : List Slot} {ta : Slot}
    (hPending : Linked s.next s.queuehead pending) (hta : ta ∉ pending) :
    Linked (acfree s ta).next (acfree s ta).queuehead pending := by
  rw [acfree_next]
  refine linked_congr (fun i hi => Function.update_of_ne ?_ _ _) hPending
  rintro rfl
  exact hta hi

theorem acfree_foldl_linked (slots free : List Slot) {s : State φ δ}
    (hFree : Linked s.next s.taFreelist free) (hNodup : (slots ++ free).Nodup) :
    Linked (slots.foldl acfree s).next (slots.foldl acfree s).taFreelist (slots.reverse ++ free) := by
  induction slots generalizing s free with
  | nil => exact hFree
  | cons ta slots ih =>
    have hta : ta ∉ slots ++ free := (List.nodup_cons.mp hNodup).1
    have hStep := acfree_linked hFree fun h => hta (List.mem_append_right _ h)
    have hRest := ih _ hStep (by
      rw [List.nodup_middle]
      exact hNodup)
    simpa using hRest

theorem acfree_foldl_queuehead (slots : List Slot) (s : State φ δ) :
    (slots.foldl acfree s).queuehead = s.queuehead := by
  induction slots generalizing s with
  | nil => rfl
  | cons ta slots ih => exact ih (acfree s ta)

theorem acfree_foldl_linked_reverse {s : State φ δ} {slots : List Slot} (hNodup : slots.Nodup)
    (hFree : s.taFreelist = none) :
    Linked (slots.foldl acfree s).next (slots.foldl acfree s).taFreelist slots.reverse := by
  have h := acfree_foldl_linked slots [] (s := s) hFree (by rwa [List.append_nil])
  rwa [List.append_nil] at h

theorem acallocInit_holds {s : State φ δ} (hQueue : s.queuehead = none)
    (hFree : s.taFreelist = none) :
    Holds (acallocInit s) [] (List.finRange maxActions).reverse none where
  pendingLinked := by
    rw [acallocInit, acfree_foldl_queuehead]
    exact hQueue
  freeLinked := by
    have hNodup : (List.finRange maxActions).Nodup := List.nodup_finRange _
    rw [acallocInit]
    generalize List.finRange maxActions = slots at hNodup ⊢
    exact acfree_foldl_linked_reverse hNodup hFree
  partition := by
    rw [Option.toList_none, List.nil_append, List.nil_append]
    exact List.reverse_perm _

theorem clockInit_holds (tvSec : BitVec 32) (offset : BitVec 64) :
    Holds (clockInit tvSec offset : State φ δ) [] (List.finRange maxActions).reverse none := by
  have h : Holds (acallocInit (clockCoreinit (zeroed : State φ δ) tvSec)) []
      (List.finRange maxActions).reverse none := acallocInit_holds rfl rfl
  rw [clockInit]
  generalize acallocInit (clockCoreinit (zeroed : State φ δ) tvSec) = s at h
  exact h.of_same rfl rfl rfl

theorem acfree_sameClock (s : State φ δ) (ta : Slot) : SameClock s (acfree s ta) :=
  ⟨rfl, rfl, rfl, rfl, rfl, rfl, rfl, rfl, rfl⟩

theorem acallocInit_sameClock (s : State φ δ) : SameClock s (acallocInit s) := by
  rw [acallocInit]
  generalize List.finRange maxActions = slots
  induction slots generalizing s with
  | nil => exact SameClock.refl s
  | cons ta slots ih =>
    exact (acfree_sameClock s ta).trans (ih (acfree s ta))

/-! ## Scheduling -/

/-- An action of the queue that is due later than the request. -/
def later (s : State φ δ) (vtime : BitVec 64) (i : Slot) : Bool := vtime < s.vtime i

/-- The action the request is linked in front of. -/
def nextAction (s : State φ δ) (vtime : BitVec 64) (pending : List Slot) : Option Slot :=
  (pending.dropWhile fun i => !later s vtime i).head?

/-- What a successful `schedule_event` does to the data of the clock. -/
structure Scheduled (s : State φ δ) (r : Request φ δ) (n : Slot) (next : Option Slot)
    (s' : State φ δ) : Prop where
  event_new : s'.event n = r.event (dueTime s r)
  event_other : ∀ i, i ≠ n → s'.event i = s.event i
  marked_new : s'.marked n = false
  marked_next : ∀ i, next = some i → s'.marked i = false
  marked_other : ∀ i, i ≠ n → next ≠ some i → s'.marked i = s.marked i
  cpuCycling : s'.cpuCycling = (s.cpuCycling && !next.any s.marked)
  sameClock : SameClock s s'

theorem stopRunningto_next (s : State φ δ) (next : Option Slot) :
    (stopRunningto s next).next = s.next := by
  cases next with
  | none => rfl
  | some c =>
    rw [stopRunningto]
    split
    · funext i
      by_cases h : i = c
      · subst h
        simp [State.next, setAction, cpuStopcycling]
      · simp [State.next, setAction, cpuStopcycling, h]
    · rfl

theorem stopRunningto_event (s : State φ δ) (next : Option Slot) :
    (stopRunningto s next).event = s.event := by
  cases next with
  | none => rfl
  | some c =>
    rw [stopRunningto]
    split
    · funext i
      by_cases h : i = c
      · subst h
        simp [State.event, setAction, cpuStopcycling]
      · simp [State.event, setAction, cpuStopcycling, h]
    · rfl

theorem stopRunningto_marked (s : State φ δ) (next : Option Slot) (i : Slot) :
    (stopRunningto s next).marked i = if next = some i then false else s.marked i := by
  cases next with
  | none => rfl
  | some c =>
    rw [stopRunningto]
    by_cases h : i = c
    · subst h
      split
      · simp [State.marked, setAction]
      · next hMark => simpa [State.marked] using hMark
    · have hc : some c ≠ some i := fun hEq => h (Option.some.inj hEq).symm
      rw [if_neg hc]
      split <;> simp [State.marked, setAction, cpuStopcycling, h]

theorem stopRunningto_cpuCycling (s : State φ δ) (next : Option Slot) :
    (stopRunningto s next).cpuCycling = (s.cpuCycling && !next.any s.marked) := by
  cases next with
  | none => simp [stopRunningto]
  | some c =>
    rw [stopRunningto]
    cases h : (s.actionStorage c).taRunningto <;>
      simp [State.marked, h, setAction, cpuStopcycling]

theorem stopRunningto_sameClock (s : State φ δ) (next : Option Slot) :
    SameClock s (stopRunningto s next) := by
  cases next with
  | none => exact SameClock.refl s
  | some c =>
    rw [stopRunningto]
    split
    · exact ⟨rfl, rfl, rfl, rfl, rfl, rfl, rfl, rfl, rfl⟩
    · exact SameClock.refl s

theorem stopRunningto_queuehead (s : State φ δ) (next : Option Slot) :
    (stopRunningto s next).queuehead = s.queuehead := by
  cases next with
  | none => rfl
  | some c =>
    rw [stopRunningto]
    split <;> rfl

theorem stopRunningto_taFreelist (s : State φ δ) (next : Option Slot) :
    (stopRunningto s next).taFreelist = s.taFreelist := by
  cases next with
  | none => rfl
  | some c =>
    rw [stopRunningto]
    split <;> rfl

/-- The state in which `schedule_event` starts to look for the place of its action. -/
def filled (s : State φ δ) (r : Request φ δ) (n : Slot) : State φ δ :=
  setAction { s with taFreelist := s.next n } n (r.action (dueTime s r))

theorem filled_next (s : State φ δ) (r : Request φ δ) {n i : Slot} (h : i ≠ n) :
    (filled s r n).next i = s.next i := by
  simp [filled, State.next, setAction, h]

theorem filled_vtime (s : State φ δ) (r : Request φ δ) {n i : Slot} (h : i ≠ n) :
    (filled s r n).vtime i = s.vtime i := by
  simp [filled, State.vtime, setAction, h]

theorem filled_vtime_self (s : State φ δ) (r : Request φ δ) (n : Slot) :
    (filled s r n).vtime n = dueTime s r := by
  simp [filled, State.vtime, setAction, Request.action]

theorem scheduleEvent_eq {s : State φ δ} {n : Slot} (hFree : s.taFreelist = some n)
    (r : Request φ δ) :
    scheduleEvent s r =
      .ok (stopRunningto (insertAction (filled s r n) n).1 (insertAction (filled s r n) n).2) := by
  simp only [scheduleEvent, acalloc, hFree]
  rfl

theorem scheduleEvent_none {s : State φ δ} (hFree : s.taFreelist = none) (r : Request φ δ) :
    scheduleEvent s r = .error "Too many pending hardware interrupts" := by
  simp only [scheduleEvent, acalloc, hFree]
  rfl

theorem filled_pending {s : State φ δ} {n : Slot} {pending free : List Slot}
    {inflight : Option Slot} (h : Holds s pending (n :: free) inflight) (r : Request φ δ) :
    Linked (filled s r n).next (filled s r n).queuehead pending := by
  have hn : n ∉ pending := h.free_not_pending (by simp)
  refine linked_congr (fun i hi => filled_next s r ?_) h.pendingLinked
  rintro rfl
  exact hn hi

/-- The walk of `schedule_event` links the new action where the list has it. -/
theorem insertAction_spec {s : State φ δ} {n : Slot} {pending free : List Slot}
    {inflight : Option Slot} (h : Holds s pending (n :: free) inflight) (r : Request φ δ) :
    Holds (insertAction (filled s r n) n).1 (insertBefore (later s (dueTime s r)) n pending)
        free inflight ∧
      (insertAction (filled s r n) n).2 = nextAction s (dueTime s r) pending := by
  have hn : n ∉ pending := h.free_not_pending (by simp)
  have hLinked := filled_pending h r
  have hStop : ∀ i ∈ pending,
      decide ((filled s r n).vtime n < (filled s r n).vtime i) = later s (dueTime s r) i := by
    intro i hi
    have hin : i ≠ n := by
      rintro rfl
      exact hn hi
    rw [filled_vtime_self, filled_vtime s r hin, later]
  obtain ⟨hInsert, hPrev⟩ := seek_link
    (fun i => decide ((filled s r n).vtime n < (filled s r n).vtime i))
    h.pending_length hn h.pending_nodup hLinked
  rw [insertBefore_congr hStop] at hInsert
  constructor
  · refine ⟨hInsert, ?_, ?_⟩
    · have hFree := (linked_cons _ _ _ _).mp h.freeLinked
      refine linked_congr (fun i hi => ?_) hFree.2
      have hin : i ≠ n := by
        rintro rfl
        exact (List.nodup_cons.mp h.free_nodup).1 hi
      have hip : i ∉ pending := h.free_not_pending (List.mem_cons_of_mem _ hi)
      exact (link_other hin (fun hEq => hip (hPrev i hEq)) _).trans (filled_next s r hin)
    · refine List.Perm.trans ?_ h.partition
      have hPerm := insertBefore_perm (later s (dueTime s r)) n pending
      rw [List.append_assoc, List.append_assoc]
      refine List.Perm.append_left _ ((hPerm.append_right free).trans ?_)
      rw [List.cons_append]
      exact List.perm_middle.symm
  · have hSnd := seek_snd (fun i => decide ((filled s r n).vtime n < (filled s r n).vtime i))
      none h.pending_length hLinked
    rw [nextAction, ← dropWhile_congr hStop]
    exact hSnd

theorem filled_event_self (s : State φ δ) (r : Request φ δ) (n : Slot) :
    (filled s r n).event n = r.event (dueTime s r) := by
  simp [filled, State.event, setAction, Request.action, Request.event]

theorem filled_event (s : State φ δ) (r : Request φ δ) {n i : Slot} (h : i ≠ n) :
    (filled s r n).event i = s.event i := by
  simp [filled, State.event, setAction, h]

theorem filled_marked_self (s : State φ δ) (r : Request φ δ) (n : Slot) :
    (filled s r n).marked n = false := by
  simp [filled, State.marked, setAction, Request.action]

theorem filled_marked (s : State φ δ) (r : Request φ δ) {n i : Slot} (h : i ≠ n) :
    (filled s r n).marked i = s.marked i := by
  simp [filled, State.marked, setAction, h]

theorem nextAction_mem {s : State φ δ} {vtime : BitVec 64} {pending : List Slot} {i : Slot}
    (h : nextAction s vtime pending = some i) : i ∈ pending :=
  (List.dropWhile_suffix _).subset (List.mem_of_head? h)

theorem scheduleEvent_spec {s : State φ δ} {n : Slot} {pending free : List Slot}
    {inflight : Option Slot} (h : Holds s pending (n :: free) inflight) (r : Request φ δ) :
    ∃ s', scheduleEvent s r = .ok s' ∧
      Scheduled s r n (nextAction s (dueTime s r) pending) s' ∧
      Holds s' (insertBefore (later s (dueTime s r)) n pending) free inflight := by
  obtain ⟨hHolds, hNext⟩ := insertAction_spec h r
  refine ⟨_, scheduleEvent_eq h.freeLinked.1 r, ?_, ?_⟩
  · rw [hNext]
    set next := nextAction s (dueTime s r) pending with hDef
    have hne : ∀ i, next = some i → i ≠ n := by
      rintro i hi rfl
      exact h.free_not_pending (by simp) (nextAction_mem hi)
    constructor
    · rw [stopRunningto_event]
      exact filled_event_self s r n
    · intro i hi
      rw [stopRunningto_event]
      exact filled_event s r hi
    · rw [stopRunningto_marked]
      split
      · rfl
      · exact filled_marked_self s r n
    · intro i hi
      rw [stopRunningto_marked, if_pos hi]
    · intro i hi hOther
      rw [stopRunningto_marked, if_neg hOther]
      exact filled_marked s r hi
    · rw [stopRunningto_cpuCycling]
      have hAny : next.any (insertAction (filled s r n) n).1.marked = next.any s.marked := by
        cases hCase : next with
        | none => rfl
        | some c => exact filled_marked s r (hne c hCase)
      rw [hAny]
      rfl
    · have hInsert : SameClock s (insertAction (filled s r n) n).1 :=
        ⟨rfl, rfl, rfl, rfl, rfl, rfl, rfl, rfl, rfl⟩
      exact hInsert.trans (stopRunningto_sameClock _ _)
  · exact hHolds.of_same (stopRunningto_next _ _) (stopRunningto_queuehead _ _)
      (stopRunningto_taFreelist _ _)

/-- `schedule_event` fails only with the pool used up. -/
theorem scheduleEvent_ok {s s' : State φ δ} {pending free : List Slot} {inflight : Option Slot}
    (h : Holds s pending free inflight) {r : Request φ δ} (hOk : scheduleEvent s r = .ok s') :
    ∃ n free', free = n :: free' ∧ Scheduled s r n (nextAction s (dueTime s r) pending) s' ∧
      Holds s' (insertBefore (later s (dueTime s r)) n pending) free' inflight := by
  cases free with
  | nil =>
    rw [scheduleEvent_none h.freeLinked] at hOk
    cases hOk
  | cons n free =>
    obtain ⟨t, ht, hSpec, hHolds⟩ := scheduleEvent_spec h r
    rw [ht] at hOk
    cases hOk
    exact ⟨n, free, rfl, hSpec, hHolds⟩

theorem scheduleEvent_sameClock {s s' : State φ δ} {r : Request φ δ}
    (hOk : scheduleEvent s r = .ok s') : SameClock s s' := by
  cases hFree : s.taFreelist with
  | none =>
    rw [scheduleEvent_none hFree] at hOk
    cases hOk
  | some n =>
    rw [scheduleEvent_eq hFree] at hOk
    cases hOk
    have hInsert : SameClock s (insertAction (filled s r n) n).1 :=
      ⟨rfl, rfl, rfl, rfl, rfl, rfl, rfl, rfl, rfl⟩
    exact hInsert.trans (stopRunningto_sameClock _ _)

/-- The queue is in order of time. -/
structure Queued (s : State φ δ) (pending free : List Slot) (inflight : Option Slot) : Prop where
  holds : Holds s pending free inflight
  sorted : pending.Pairwise fun i j => s.vtime i ≤ s.vtime j

theorem Queued.of_same {s s' : State φ δ} {pending free : List Slot} {inflight : Option Slot}
    (h : Queued s pending free inflight) (hAction : s'.actionStorage = s.actionStorage)
    (hQueue : s'.queuehead = s.queuehead) (hFree : s'.taFreelist = s.taFreelist) :
    Queued s' pending free inflight := by
  have hNext : s'.next = s.next := by
    funext i
    rw [State.next, hAction, State.next]
  have hVtime : s'.vtime = s.vtime := by
    funext i
    rw [State.vtime, hAction, State.vtime]
  exact ⟨h.holds.of_same hNext hQueue hFree, by rw [hVtime]; exact h.sorted⟩

theorem Queued.schedule {s s' : State φ δ} {pending free : List Slot} {inflight : Option Slot}
    (h : Queued s pending free inflight) {r : Request φ δ} (hOk : scheduleEvent s r = .ok s') :
    ∃ n free', free = n :: free' ∧ Scheduled s r n (nextAction s (dueTime s r) pending) s' ∧
      Queued s' (insertBefore (later s (dueTime s r)) n pending) free' inflight := by
  obtain ⟨n, free', rfl, hSpec, hHolds⟩ := scheduleEvent_ok h.holds hOk
  have hn : n ∉ pending := h.holds.free_not_pending (by simp)
  have hNew : s'.vtime n = dueTime s r := congrArg Prod.fst hSpec.event_new
  have hOld : ∀ i ∈ pending, s'.vtime i = s.vtime i := by
    intro i hi
    refine congrArg Prod.fst (hSpec.event_other i ?_)
    rintro rfl
    exact hn hi
  refine ⟨n, free', rfl, hSpec, hHolds, pairwise_insertBefore ?_ ?_ ?_ ?_⟩
  · refine h.sorted.imp_of_mem ?_
    intro i j hi hj hij
    rwa [hOld i hi, hOld j hj]
  · intro i hi hPass
    rw [hOld i hi, hNew]
    simpa [later] using hPass
  · intro i hi hStop
    rw [hOld i hi, hNew]
    exact BitVec.le_of_lt (by simpa [later] using hStop)
  · intro i _ j _ hni hij
    exact BitVec.le_trans hni hij

/-! ## Dispatching -/

theorem popDue_sameClock {s s' : State φ δ} {vnow : BitVec 64} {ta : Slot}
    (h : popDue s vnow = some (ta, s')) : SameClock s s' := by
  rw [popDue] at h
  split at h
  · cases h
  · split at h
    · cases h
    · cases h
      exact ⟨rfl, rfl, rfl, rfl, rfl, rfl, rfl, rfl, rfl⟩

theorem popDue_actionStorage {s s' : State φ δ} {vnow : BitVec 64} {ta : Slot}
    (h : popDue s vnow = some (ta, s')) : s'.actionStorage = s.actionStorage := by
  rw [popDue] at h
  split at h
  · cases h
  · split at h
    · cases h
    · cases h
      rfl

theorem popDue_eq_none_iff {s : State φ δ} {pending free : List Slot} {inflight : Option Slot}
    (h : Holds s pending free inflight) (vnow : BitVec 64) :
    popDue s vnow = none ↔ ∀ ta, pending.head? = some ta → vnow < s.vtime ta := by
  cases pending with
  | nil => simp [popDue, (linked_nil _ _).mp h.pendingLinked]
  | cons ta pending =>
    simp only [popDue, h.pendingLinked.1, gt_iff_lt]
    split <;> simp_all

theorem popDue_eq_some {s s' : State φ δ} {pending free : List Slot} {vnow : BitVec 64} {ta : Slot}
    (h : Holds s pending free none) (hPop : popDue s vnow = some (ta, s')) :
    s.vtime ta ≤ vnow ∧ ∃ pending', pending = ta :: pending' ∧ Holds s' pending' free (some ta) ∧
      s'.event = s.event ∧ s'.marked = s.marked ∧ s'.cpuCycling = s.cpuCycling ∧ SameClock s s' := by
  cases pending with
  | nil => simp [popDue, (linked_nil _ _).mp h.pendingLinked] at hPop
  | cons i pending =>
    obtain ⟨hHead, hTail⟩ := h.pendingLinked
    simp only [popDue, hHead, gt_iff_lt] at hPop
    split at hPop
    · cases hPop
    · next hDue =>
      cases hPop
      refine ⟨BitVec.not_lt.mp hDue, pending, rfl, ⟨hTail, h.freeLinked, ?_⟩, rfl, rfl, rfl,
        ⟨rfl, rfl, rfl, rfl, rfl, rfl, rfl, rfl, rfl⟩⟩
      simpa using h.partition

theorem acfree_spec {s : State φ δ} {pending free : List Slot} {ta : Slot}
    (h : Holds s pending free (some ta)) :
    Holds (acfree s ta) pending (ta :: free) none ∧ (acfree s ta).event = s.event ∧
      (acfree s ta).marked = s.marked ∧ (acfree s ta).cpuCycling = s.cpuCycling ∧
      SameClock s (acfree s ta) := by
  refine ⟨⟨acfree_queue_linked h.pendingLinked h.inflight_not_mem.1,
    acfree_linked h.freeLinked h.inflight_not_mem.2, ?_⟩, ?_, ?_, rfl,
    ⟨rfl, rfl, rfl, rfl, rfl, rfl, rfl, rfl, rfl⟩⟩
  · refine List.Perm.trans ?_ h.partition
    simp [List.perm_middle]
  · funext i
    by_cases hi : i = ta
    · subst hi
      simp [State.event, acfree, setAction]
    · simp [State.event, acfree, setAction, hi]
  · funext i
    by_cases hi : i = ta
    · subst hi
      simp [State.marked, acfree, setAction]
    · simp [State.marked, acfree, setAction, hi]

theorem Queued.pop {s s' : State φ δ} {pending free : List Slot} {vnow : BitVec 64} {ta : Slot}
    (h : Queued s pending free none) (hPop : popDue s vnow = some (ta, s')) :
    s.vtime ta ≤ vnow ∧ s'.event = s.event ∧
      ∃ pending', pending = ta :: pending' ∧ Queued s' pending' free (some ta) := by
  obtain ⟨hDue, pending', rfl, hHolds, hEvent, -⟩ := popDue_eq_some h.holds hPop
  have hVtime : s'.vtime = s.vtime := by
    funext i
    exact congrArg Prod.fst (congrFun hEvent i)
  refine ⟨hDue, hEvent, pending', rfl, hHolds, ?_⟩
  rw [hVtime]
  exact h.sorted.of_cons

theorem Queued.acfree {s : State φ δ} {pending free : List Slot} {ta : Slot}
    (h : Queued s pending free (some ta)) : Queued (acfree s ta) pending (ta :: free) none := by
  obtain ⟨hHolds, hEvent, -⟩ := acfree_spec h.holds
  have hVtime : (Clock.acfree s ta).vtime = s.vtime := by
    funext i
    exact congrArg Prod.fst (congrFun hEvent i)
  refine ⟨hHolds, ?_⟩
  rw [hVtime]
  exact h.sorted

end Sys161.Clock
