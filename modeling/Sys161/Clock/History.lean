import Sys161.Clock.Queue
import Sys161.Lib.Runs

/-!
# Every interleaving of scheduling, time and dispatch

`check_queue` is taken one turn at a time, so that handlers may schedule in the
middle of its loop. The machine also numbers the events in the order in which
they are scheduled and keeps the log of those dispatched.
-/

namespace Sys161.Clock.History

open LinkedList Runs

set_option autoImplicit false

variable {φ δ : Type}

/-- Where the clock stands with respect to `check_queue`, and the `vnow` that call sampled. -/
inductive Call where
  | outside
  | loop (vnow : BitVec 64)
  | handler (vnow : BitVec 64) (ta : Slot)

def Call.inflight : Call → Option Slot
  | .handler _ ta => some ta
  | _ => none

def Call.sampled : Call → Option (BitVec 64)
  | .outside => none
  | .loop vnow => some vnow
  | .handler vnow _ => some vnow

structure Machine (φ δ : Type) where
  clock : State φ δ
  call : Call
  count : Nat
  owner : Slot → Nat
  due : Nat → BitVec 64
  log : List (Nat × BitVec 64)

inductive Label (φ δ : Type) where
  | schedule (r : Request φ δ)
  | advance (virtualNow cpuCyclesCount extraSelecttime : BitVec 64)
  | enter
  | dispatch
  | finish
  | leave

def Machine.dispatched (m : Machine φ δ) : List Nat := m.log.map Prod.fst

inductive Step : Machine φ δ → Label φ δ → Machine φ δ → Prop where
  | schedule {m : Machine φ δ} {r : Request φ δ} {n : Slot} {s : State φ δ} :
      (∀ vnow, m.call ≠ .loop vnow) → m.clock.taFreelist = some n →
      scheduleEvent m.clock r = .ok s →
      Step m (.schedule r)
        { m with
          clock := s
          count := m.count + 1
          owner := Function.update m.owner n m.count
          due := Function.update m.due m.count (s.vtime n) }
  | advance {m : Machine φ δ} {virtualNow cpuCyclesCount extraSelecttime : BitVec 64} :
      (∀ vnow, m.call.sampled = some vnow →
        vnow ≤ virtualNow + nsecsPerClock * cpuCyclesCount + extraSelecttime) →
      Step m (.advance virtualNow cpuCyclesCount extraSelecttime)
        { m with
          clock := { m.clock with
            virtualNow := virtualNow
            cpuCyclesCount := cpuCyclesCount
            extraSelecttime := extraSelecttime } }
  | enter {m : Machine φ δ} : m.call = .outside →
      Step m .enter { m with call := .loop (clockVnow m.clock) }
  | dispatch {m : Machine φ δ} {vnow : BitVec 64} {ta : Slot} {s : State φ δ} :
      m.call = .loop vnow → popDue m.clock vnow = some (ta, s) →
      Step m .dispatch
        { m with
          clock := s
          call := .handler vnow ta
          log := (m.owner ta, clockVnow s) :: m.log }
  | finish {m : Machine φ δ} {vnow : BitVec 64} {ta : Slot} : m.call = .handler vnow ta →
      Step m .finish { m with clock := acfree m.clock ta, call := .loop vnow }
  | leave {m : Machine φ δ} {vnow : BitVec 64} : m.call = .loop vnow → popDue m.clock vnow = none →
      Step m .leave { m with call := .outside }

def start (tvSec : BitVec 32) (offset : BitVec 64) : Machine φ δ where
  clock := clockInit tvSec offset
  call := .outside
  count := 0
  owner := fun _ => 0
  due := fun _ => 0
  log := []

/-- Event `k` goes before event `l`: it is due earlier, or at the same time and scheduled first. -/
def Precedes (due : Nat → BitVec 64) (k l : Nat) : Prop :=
  due k < due l ∨ due k = due l ∧ k < l

theorem precedes_asymm {due : Nat → BitVec 64} {k l : Nat} (h : Precedes due k l) :
    ¬ Precedes due l k := by
  rintro (h' | ⟨h', hlk⟩) <;> rcases h with h | ⟨h, hkl⟩ <;> bv_omega

/-- The state of the queue and the history at every point of a run. -/
structure Discipline (m : Machine φ δ) (pending free : List Slot) : Prop where
  holds : Holds m.clock pending free m.call.inflight
  sorted : pending.Pairwise fun i j => Precedes m.due (m.owner i) (m.owner j)
  vtime : ∀ i ∈ pending, m.due (m.owner i) = m.clock.vtime i
  once : (m.dispatched ++ pending.map m.owner).Perm (List.range m.count)
  notEarly : ∀ e ∈ m.log, m.due e.1 ≤ e.2
  sampled : ∀ vnow, m.call.sampled = some vnow → vnow ≤ clockVnow m.clock

theorem start_discipline (tvSec : BitVec 32) (offset : BitVec 64) :
    Discipline (start tvSec offset : Machine φ δ) [] (List.finRange maxActions).reverse where
  holds := clockInit_holds tvSec offset
  sorted := List.Pairwise.nil
  vtime := by simp
  once := List.Perm.refl []
  notEarly := by simp [start]
  sampled := by simp [start, Call.sampled]

namespace Discipline

variable {m : Machine φ δ} {pending free : List Slot}

theorem number_lt (h : Discipline m pending free) {i : Slot} (hi : i ∈ pending) :
    m.owner i < m.count := by
  have hMem := h.once.mem_iff.mp (List.mem_append_right _ (List.mem_map_of_mem hi))
  exact List.mem_range.mp hMem

theorem dispatched_lt (h : Discipline m pending free) {k : Nat} (hk : k ∈ m.dispatched) :
    k < m.count :=
  List.mem_range.mp (h.once.mem_iff.mp (List.mem_append_left _ hk))

theorem dispatched_nodup (h : Discipline m pending free) : m.dispatched.Nodup :=
  (List.nodup_append.mp (h.once.nodup_iff.mpr List.nodup_range)).1

/-- No event is lost: one that is not dispatched is still pending. -/
theorem pending_of_not_dispatched (h : Discipline m pending free) {k : Nat} (hk : k < m.count)
    (hNot : k ∉ m.dispatched) : ∃ i ∈ pending, m.owner i = k := by
  have hMem := h.once.mem_iff.mpr (List.mem_range.mpr hk)
  rcases List.mem_append.mp hMem with hLog | hPending
  · exact absurd hLog hNot
  · exact List.mem_map.mp hPending

/-- Scheduling puts the new event behind all those that are not due later. -/
theorem schedule (h : Discipline m pending free) {r : Request φ δ} {n : Slot} {s : State φ δ}
    (hFree : m.clock.taFreelist = some n) (hOk : scheduleEvent m.clock r = .ok s) :
    ∃ pending' free', Discipline
      { m with
        clock := s
        count := m.count + 1
        owner := Function.update m.owner n m.count
        due := Function.update m.due m.count (s.vtime n) } pending' free' := by
  obtain ⟨n', free', rfl, hSpec, hHolds⟩ := scheduleEvent_ok h.holds hOk
  obtain rfl : n' = n := by
    rw [h.holds.freeLinked.1] at hFree
    exact Option.some.inj hFree
  have hn : n' ∉ pending := h.holds.free_not_pending (by simp)
  have hne : ∀ i ∈ pending, i ≠ n' := by
    rintro i hi rfl
    exact hn hi
  have hNew : s.vtime n' = dueTime m.clock r := congrArg Prod.fst hSpec.event_new
  have hOld : ∀ i ∈ pending, s.vtime i = m.clock.vtime i := fun i hi =>
    congrArg Prod.fst (hSpec.event_other i (hne i hi))
  have hOwner : ∀ i ∈ pending, Function.update m.owner n' m.count i = m.owner i := fun i hi =>
    Function.update_of_ne (hne i hi) _ _
  have hDue : ∀ k, k < m.count → Function.update m.due m.count (dueTime m.clock r) k = m.due k :=
    fun k hk => Function.update_of_ne (Nat.ne_of_lt hk) _ _
  rw [hNew]
  refine ⟨_, free', hHolds, ?_, ?_, ?_, ?_, ?_⟩
  · have hOrder : ∀ i ∈ pending,
        Function.update m.due m.count (dueTime m.clock r) (m.owner i) = m.clock.vtime i := by
      intro i hi
      rw [hDue _ (h.number_lt hi), h.vtime i hi]
    apply pairwise_insertBefore
    · refine h.sorted.imp_of_mem ?_
      intro i j hi hj hij
      simpa only [Precedes, hOwner i hi, hOwner j hj, hOrder i hi, hOrder j hj, h.vtime i hi,
        h.vtime j hj] using hij
    · intro i hi hPass
      have hLe : m.clock.vtime i ≤ dueTime m.clock r := by
        simpa [later] using hPass
      have hLt := h.number_lt hi
      simp only [Precedes, hOwner i hi, hOrder i hi, Function.update_self]
      bv_omega
    · intro i hi hStop
      have hLt : dueTime m.clock r < m.clock.vtime i := by
        simpa [later] using hStop
      simp only [Precedes, hOwner i hi, hOrder i hi, Function.update_self]
      exact Or.inl hLt
    · intro i hi j hj hni hij
      simp only [Precedes, hOwner i hi, hOwner j hj, hOrder i hi, hOrder j hj,
        Function.update_self] at hni hij ⊢
      have hLt := h.number_lt hi
      bv_omega
  · intro i hi
    rcases mem_insertBefore.mp hi with rfl | hi
    · simp [hNew]
    · simp only [hOwner i hi, hDue _ (h.number_lt hi), h.vtime i hi, hOld i hi]
  · have hPerm := (insertBefore_perm (later m.clock (dueTime m.clock r)) n' pending).map
      (Function.update m.owner n' m.count)
    have hMap : pending.map (Function.update m.owner n' m.count) = pending.map m.owner :=
      List.map_congr_left hOwner
    rw [List.map_cons, Function.update_self, hMap] at hPerm
    refine (hPerm.append_left m.dispatched).trans ?_
    rw [List.range_succ]
    refine List.perm_middle.trans ?_
    exact (h.once.cons m.count).trans (List.perm_append_singleton _ _).symm
  · intro e he
    have hLt := h.dispatched_lt (List.mem_map_of_mem he)
    simpa only [hDue _ hLt] using h.notEarly e he
  · intro vnow hCall
    rw [hSpec.sameClock.clockVnow]
    exact h.sampled vnow hCall

theorem advance (h : Discipline m pending free)
    {virtualNow cpuCyclesCount extraSelecttime : BitVec 64}
    (hSampled : ∀ vnow, m.call.sampled = some vnow →
      vnow ≤ virtualNow + nsecsPerClock * cpuCyclesCount + extraSelecttime) :
    Discipline
      { m with
        clock := { m.clock with
          virtualNow := virtualNow
          cpuCyclesCount := cpuCyclesCount
          extraSelecttime := extraSelecttime } } pending free where
  holds := h.holds.of_same rfl rfl rfl
  sorted := h.sorted
  vtime := h.vtime
  once := h.once
  notEarly := h.notEarly
  sampled := hSampled

theorem dispatch (h : Discipline m pending free) {vnow : BitVec 64} {ta : Slot} {s : State φ δ}
    (hCall : m.call = .loop vnow) (hPop : popDue m.clock vnow = some (ta, s)) :
    ∃ pending', pending = ta :: pending' ∧ Discipline
      { m with
        clock := s
        call := .handler vnow ta
        log := (m.owner ta, clockVnow s) :: m.log } pending' free := by
  have hHolds := h.holds
  rw [hCall] at hHolds
  obtain ⟨hDue, pending', rfl, hHolds', hEvent, -, -, hClock⟩ := popDue_eq_some hHolds hPop
  have hVtime : s.vtime = m.clock.vtime := by
    funext i
    exact congrArg Prod.fst (congrFun hEvent i)
  have hSampled : vnow ≤ clockVnow s := by
    rw [hClock.clockVnow]
    exact h.sampled vnow (by rw [hCall]; rfl)
  refine ⟨pending', rfl, hHolds', h.sorted.of_cons, ?_, ?_, ?_, ?_⟩
  · intro i hi
    rw [hVtime]
    exact h.vtime i (List.mem_cons_of_mem _ hi)
  · refine List.Perm.trans ?_ h.once
    rw [List.map_cons]
    exact List.perm_middle.symm
  · intro e he
    rcases List.mem_cons.mp he with rfl | he
    · rw [h.vtime ta (by simp)]
      exact BitVec.le_trans hDue hSampled
    · exact h.notEarly e he
  · intro v hv
    cases hv
    exact hSampled

theorem finish (h : Discipline m pending free) {vnow : BitVec 64} {ta : Slot}
    (hCall : m.call = .handler vnow ta) :
    Discipline { m with clock := acfree m.clock ta, call := .loop vnow } pending (ta :: free) := by
  have hHolds := h.holds
  rw [hCall] at hHolds
  obtain ⟨hHolds', hEvent, -, -, hClock⟩ := acfree_spec hHolds
  refine ⟨hHolds', h.sorted, ?_, h.once, h.notEarly, ?_⟩
  · intro i hi
    have hVtime : (acfree m.clock ta).vtime i = m.clock.vtime i :=
      congrArg Prod.fst (congrFun hEvent i)
    rw [hVtime]
    exact h.vtime i hi
  · intro v hv
    cases hv
    rw [hClock.clockVnow]
    exact h.sampled vnow (by rw [hCall]; rfl)

theorem step (h : Discipline m pending free) {l : Label φ δ} {m' : Machine φ δ}
    (hStep : Step m l m') : ∃ pending' free', Discipline m' pending' free' := by
  cases hStep with
  | schedule _ hFree hOk => exact h.schedule hFree hOk
  | advance hSampled => exact ⟨pending, free, h.advance hSampled⟩
  | enter hCall =>
    have hHolds := h.holds
    rw [hCall] at hHolds
    refine ⟨pending, free, hHolds, h.sorted, h.vtime, h.once, h.notEarly, ?_⟩
    intro v hv
    cases hv
    exact BitVec.le_refl _
  | dispatch hCall hPop =>
    obtain ⟨pending', -, h'⟩ := h.dispatch hCall hPop
    exact ⟨pending', free, h'⟩
  | finish hCall => exact ⟨pending, _, h.finish hCall⟩
  | leave hCall hPop =>
    have hHolds := h.holds
    rw [hCall] at hHolds
    exact ⟨pending, free, hHolds, h.sorted, h.vtime, h.once, h.notEarly, by simp [Call.sampled]⟩

/-- When the loop of `check_queue` ends, whatever is still pending is due later. -/
theorem dispatched_of_leave (h : Discipline m pending free) {vnow : BitVec 64}
    (hCall : m.call = .loop vnow) (hPop : popDue m.clock vnow = none) {k : Nat} (hk : k < m.count)
    (hDue : m.due k ≤ vnow) : k ∈ m.dispatched := by
  have hHolds := h.holds
  rw [hCall] at hHolds
  by_contra hNot
  obtain ⟨i, hi, rfl⟩ := h.pending_of_not_dispatched hk hNot
  cases pending with
  | nil => simp at hi
  | cons ta pending =>
    have hHead : vnow < m.due (m.owner ta) := by
      rw [h.vtime ta (by simp)]
      exact (popDue_eq_none_iff hHolds vnow).mp hPop ta rfl
    rcases List.mem_cons.mp hi with rfl | hi
    · bv_omega
    · have hOrder := (List.pairwise_cons.mp h.sorted).1 i hi
      simp only [Precedes] at hOrder
      bv_omega

end Discipline

/-! ## Orders of dispatch -/

/-- In the log, wherever `l` has been dispatched, `k` was dispatched before it. -/
def Before (log : List (Nat × BitVec 64)) (k l : Nat) : Prop :=
  ∀ newer v older, log = newer ++ (l, v) :: older → k ∈ older.map Prod.fst

theorem before_of_not_mem {log : List (Nat × BitVec 64)} {l : Nat} (h : l ∉ log.map Prod.fst)
    (k : Nat) : Before log k l := by
  rintro newer v older rfl
  exact absurd (by simp) h

theorem before_cons {log : List (Nat × BitVec 64)} {k l : Nat} (h : Before log k l)
    (x : Nat × BitVec 64) (hx : x.1 = l → k ∈ log.map Prod.fst) : Before (x :: log) k l := by
  intro newer v older hLog
  cases newer with
  | nil =>
    obtain ⟨rfl, rfl⟩ := List.cons.inj hLog
    exact hx rfl
  | cons y newer => exact h newer v older (List.cons.inj hLog).2

/-- Both events are scheduled, `k` precedes `l`, and the log has them in that order. -/
structure Ordered (m : Machine φ δ) (k l : Nat) : Prop where
  discipline : ∃ pending free, Discipline m pending free
  left : k < m.count
  right : l < m.count
  precedes : Precedes m.due k l
  before : Before m.log k l

theorem Ordered.step {m m' : Machine φ δ} {k l : Nat} (h : Ordered m k l) {i : Label φ δ}
    (hStep : Step m i m') : Ordered m' k l := by
  obtain ⟨pending, free, hDisc⟩ := h.discipline
  have hDisc' := hDisc.step hStep
  obtain ⟨-, hk, hl, hPrec, hBefore⟩ := h
  cases hStep with
  | schedule _ _ _ =>
    refine ⟨hDisc', Nat.lt_succ_of_lt hk, Nat.lt_succ_of_lt hl, ?_, hBefore⟩
    simpa only [Precedes, Function.update_of_ne (Nat.ne_of_lt hk),
      Function.update_of_ne (Nat.ne_of_lt hl)] using hPrec
  | advance _ => exact ⟨hDisc', hk, hl, hPrec, hBefore⟩
  | enter _ => exact ⟨hDisc', hk, hl, hPrec, hBefore⟩
  | finish _ => exact ⟨hDisc', hk, hl, hPrec, hBefore⟩
  | leave _ _ => exact ⟨hDisc', hk, hl, hPrec, hBefore⟩
  | @dispatch vnow ta s hCall hPop =>
    refine ⟨hDisc', hk, hl, hPrec, before_cons hBefore _ ?_⟩
    intro hta
    obtain ⟨pending', rfl, -⟩ := hDisc.dispatch hCall hPop
    by_contra hNot
    obtain ⟨j, hj, rfl⟩ := hDisc.pending_of_not_dispatched hk hNot
    change m.owner ta = l at hta
    subst hta
    -- the head of a sorted list is preceded by nothing that is pending
    rcases List.mem_cons.mp hj with rfl | hj
    · exact precedes_asymm hPrec hPrec
    · exact precedes_asymm hPrec ((List.pairwise_cons.mp hDisc.sorted).1 j hj)

theorem reached_discipline {tvSec : BitVec 32} {offset : BitVec 64}
    {p : List (Label φ δ × Machine φ δ)} {m : Machine φ δ}
    (h : Path Step (start tvSec offset) p m) : ∃ pending free, Discipline m pending free := by
  refine h.invariant (P := fun m => ∃ pending free, Discipline m pending free) ?_
    ⟨_, _, start_discipline tvSec offset⟩
  rintro m i m' ⟨pending, free, hDisc⟩ hStep
  exact hDisc.step hStep

/-- In every run, the lists are sorted and partition the pool, every event is dispatched at most
once and never early, two events that were pending together are dispatched in order, and
`check_queue` returns with all that was due at its sampled time dispatched. -/
theorem event_queue_correct {tvSec : BitVec 32} {offset : BitVec 64}
    {p : List (Label φ δ × Machine φ δ)} {m : Machine φ δ}
    (h : Path Step (start tvSec offset) p m) :
    ∃ pending free, Discipline m pending free ∧ m.dispatched.Nodup ∧
      (∀ m', Step m .leave m' → ∀ vnow, m.call = .loop vnow →
        ∀ k, k < m.count → m.due k ≤ vnow → k ∈ m.dispatched) ∧
      ∀ i ∈ pending, ∀ j ∈ pending, Precedes m.due (m.owner i) (m.owner j) →
        ∀ q m', Path Step m q m' → Before m'.log (m.owner i) (m.owner j) := by
  obtain ⟨pending, free, hDisc⟩ := reached_discipline h
  refine ⟨pending, free, hDisc, hDisc.dispatched_nodup, ?_, ?_⟩
  · intro m' hLeave vnow hCall k hk hDue
    cases hLeave with
    | leave hCall' hPop =>
      rw [hCall] at hCall'
      cases hCall'
      exact hDisc.dispatched_of_leave hCall hPop hk hDue
  · intro i hi j hj hPrec q m' hPath
    have hj' : m.owner j ∉ m.dispatched := by
      intro hMem
      have hNodup := hDisc.once.nodup_iff.mpr List.nodup_range
      exact (List.nodup_append.mp hNodup).2.2 _ hMem _ (List.mem_map_of_mem hj) rfl
    have hStart : Ordered m (m.owner i) (m.owner j) :=
      ⟨⟨pending, free, hDisc⟩, hDisc.number_lt hi, hDisc.number_lt hj, hPrec,
        before_of_not_mem hj' _⟩
    exact (hPath.invariant (fun _ _ _ hOrd hStep => Ordered.step hOrd hStep) hStart).before

/-- An event due at once is scheduled, dispatched and freed by one call of `check_queue`. -/
theorem one_event_run : ∃ p m, Path Step (start 0 0 : Machine Unit Unit) p m ∧ p.length = 5 ∧
    m.count = 1 ∧ m.dispatched = [0] ∧ ∃ pending free, Discipline m pending free := by
  obtain ⟨n, free, hFree⟩ : ∃ n free, (List.finRange maxActions).reverse = n :: free :=
    List.exists_cons_of_length_pos (by simp [maxActions])
  have hHolds : Holds (start 0 0 : Machine Unit Unit).clock [] (List.finRange maxActions).reverse
      none := (start_discipline 0 0).holds
  rw [hFree] at hHolds
  let r : Request Unit Unit := ⟨0, 0, none, 0, (), ""⟩
  obtain ⟨s, hOk, hSpec, hHolds₁⟩ := scheduleEvent_spec hHolds r
  have hDue : s.vtime n = clockVnow s := by
    have hNew : s.vtime n = dueTime (start 0 0 : Machine Unit Unit).clock r :=
      congrArg Prod.fst hSpec.event_new
    rw [hNew, hSpec.sameClock.clockVnow]
    simp [dueTime, r]
  have hHead : s.queuehead = some n := hHolds₁.pendingLinked.1
  have hPop : popDue s (clockVnow s) = some (n, { s with queuehead := s.next n }) := by
    simp [popDue, hHead, hDue, BitVec.lt_irrefl]
  have hEnd : s.next n = none := hHolds₁.pendingLinked.2
  have hPath : Path Step (start 0 0 : Machine Unit Unit) _ _ :=
    Path.cons (Step.schedule (r := r) (by simp [start]) hHolds.freeLinked.1 hOk) <|
    Path.cons (Step.enter rfl) <|
    Path.cons (Step.dispatch rfl hPop) <|
    Path.cons (Step.finish rfl) <|
    Path.cons (Step.leave rfl (by simp [popDue, acfree, setAction, hEnd])) <|
    Path.nil _
  obtain ⟨pending, free, hDisc, -⟩ := event_queue_correct hPath
  refine ⟨_, _, hPath, rfl, rfl, ?_, pending, free, hDisc⟩
  simp [Machine.dispatched, start]

end Sys161.Clock.History
