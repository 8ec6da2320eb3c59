import Sys161.Bus.Timer

/-!
# What holds over every run of the timer

The generation is the number of starts in 32 bits. As long as an event fires
within a turn of that counter, it matches just when it is the last start's, and
the countdowns of the earlier ones are those that TIME was written over.
-/

namespace Sys161.Bus

open Runs

set_option autoImplicit false

variable {t t' : Timer} {l : TimerLabel} {p : List (TimerLabel × Timer)} {k : Nat}

/-! ## The events on the queue -/

/-- When the countdown is over. -/
def Countdown.ends (c : Countdown) : Nat := c.began.toNat + 1000 * c.usecs.toNat

/-- The time of its event is before the end of the clock. -/
def Countdown.Fits (c : Countdown) : Prop := c.began.toNat + c.delay.toNat < 2 ^ 64

/-- What an event on the queue carries, after a number of starts and writes. -/
structure TimerEvent.Of (e : TimerEvent) (starts writes : Nat) : Prop where
  code : e.code = BitVec.ofNat 32 (e.countdown.number + 1)
  number_lt : e.countdown.number < starts
  write_le : e.countdown.write ≤ writes
  current : e.countdown.write = writes ↔ e.countdown.number + 1 = starts
  due : e.countdown.Fits → e.countdown.ends ≤ e.vtime.toNat

structure Timer.Sound (t : Timer) : Prop where
  generation : t.td.tdGeneration = BitVec.ofNat 32 t.starts
  events : ∀ e ∈ t.pending, e.Of t.starts t.writes
  nodup : (t.pending.map fun e => e.countdown.number).Nodup

/-- The event fires less than a turn of the generation after its start. -/
def FewStarts (t : Timer) (l : TimerLabel) (_ : Timer) : Prop :=
  ∀ e, l.act = .fire e → t.starts - (e.countdown.number + 1) < 2 ^ 32

/-- The three ways out of `timer_interrupt`. -/
inductive Interrupted (td : TimerData) (code : BitVec 32) (r : Done TimerData) : Prop where
  | stale : code ≠ td.tdGeneration → r.dev = td → r.irq = none → r.arm = none →
      Interrupted td code r
  | last : code = td.tdGeneration → r.dev = td → r.irq = some true → r.arm = none →
      Interrupted td code r
  | again {a : Arm} : code = td.tdGeneration → timerStart td = (r.dev, a) → r.irq = some true →
      r.arm = some a → Interrupted td code r

theorem interrupted_timerInterrupt (td : TimerData) (code : BitVec 32) :
    Interrupted td code (timerInterrupt td code) := by
  unfold timerInterrupt
  split
  · next hGen => exact .stale hGen rfl rfl rfl
  · next hGen =>
    rw [not_not] at hGen
    split
    · exact .again hGen rfl rfl rfl
    · exact .last hGen rfl rfl rfl

theorem due_of_arm {now nsecs j : BitVec 64} {usecs : BitVec 32}
    (hNsecs : nsecs = usecs.setWidth 64 * 1000) (hJitter : j ≤ nsecs / 100)
    (hFits : now.toNat + (nsecs + j).toNat < 2 ^ 64) :
    now.toNat + 1000 * usecs.toNat ≤ (now + (nsecs + j)).toNat := by
  have hUsecs := usecs.isLt
  have hValue : nsecs.toNat = 1000 * usecs.toNat := by
    have hThousand : (1000 : BitVec 64).toNat = 1000 := rfl
    rw [hNsecs, BitVec.toNat_mul, BitVec.toNat_setWidth, hThousand]
    omega
  have hDiv : (nsecs / 100).toNat = nsecs.toNat / 100 := BitVec.toNat_udiv
  rw [BitVec.le_def, hDiv, hValue] at hJitter
  rw [BitVec.toNat_add, Nat.mod_eq_of_lt hFits, BitVec.toNat_add, hValue]
  omega

/-- A start leaves the queue in order if it was so for the start to come. -/
theorem Timer.Sound.arm {td₀ td : TimerData} {a : Arm} {write : Nat} {h : Host}
    (hStart : timerStart td₀ = (td, a)) (hGen : td₀.tdGeneration = BitVec.ofNat 32 t.starts)
    (hTd : t.td = td) (hWrite : write = t.writes)
    (hEvents : ∀ e ∈ t.pending, e.countdown.number < t.starts ∧ e.Of (t.starts + 1) t.writes)
    (hNodup : (t.pending.map fun e => e.countdown.number).Nodup) :
    (t.arm a write h.jitter).Sound := by
  subst hWrite
  obtain ⟨hDev, hArm⟩ := Prod.mk.inj hStart
  have hNext : t.td.tdGeneration = BitVec.ofNat 32 (t.starts + 1) := by
    rw [BitVec.ofNat_add, ← hGen, hTd, ← hDev]
    rfl
  have hCode : a.code = t.td.tdGeneration := by rw [← hArm, hTd, ← hDev]
  have hNsecs : a.nsecs = t.td.tdCountUsecs.setWidth 64 * 1000 := by
    rw [← hArm, hTd, ← hDev]
    rfl
  constructor
  · exact hNext
  · intro e he
    rcases List.mem_append.mp he with hOld | hNew
    · exact (hEvents e hOld).2
    · obtain rfl := List.mem_singleton.mp hNew
      refine ⟨hCode.trans hNext, Nat.lt_succ_self _, Nat.le_refl _, iff_of_true rfl rfl, ?_⟩
      exact due_of_arm hNsecs (h.jitter_le _)
  · have hFresh : t.starts ∉ t.pending.map fun e => e.countdown.number := by
      intro hMem
      obtain ⟨e, he, hNumber⟩ := List.mem_map.mp hMem
      exact absurd hNumber (Nat.ne_of_lt (hEvents e he).1)
    have hAll := hNodup.concat hFresh
    rw [List.concat_eq_append] at hAll
    rwa [Timer.arm, List.map_append]

theorem FewStarts.code_iff {e : TimerEvent} (hs : t.Sound) (hEvent : e.Of t.starts t.writes)
    (hFew : t.starts - (e.countdown.number + 1) < 2 ^ 32) :
    e.code = t.td.tdGeneration ↔ e.countdown.number + 1 = t.starts := by
  have hLt := hEvent.number_lt
  rw [hEvent.code, hs.generation, ← BitVec.toNat_inj, BitVec.toNat_ofNat, BitVec.toNat_ofNat]
  omega

/-- Without one of its events the queue is as much in order. -/
theorem Timer.Sound.without {before after : List TimerEvent} {e : TimerEvent} (hs : t.Sound)
    (hPending : t.pending = before ++ e :: after) :
    (∀ x ∈ before ++ after, x ∈ t.pending ∧ x.countdown.number ≠ e.countdown.number) ∧
      ((before ++ after).map fun x => x.countdown.number).Nodup := by
  have hNodup := hs.nodup
  rw [hPending, List.map_append, List.map_cons] at hNodup
  have hPerm := List.nodup_middle.mp hNodup
  rw [← List.map_append, List.nodup_cons] at hPerm
  refine ⟨fun x hx => ⟨?_, ?_⟩, hPerm.2⟩
  · rw [hPending]
    rcases List.mem_append.mp hx with hx | hx
    · exact List.mem_append_left _ hx
    · exact List.mem_append_right _ (List.mem_cons_of_mem _ hx)
  · intro hSame
    exact hPerm.1 (List.mem_map.mpr ⟨x, hx, hSame⟩)

/-- What a step does to the queue: nothing, or a write to TIME starts a countdown, or an event
leaves it, which is the last start's just where it raises the interrupt, and may start another. -/
inductive Timer.Did (t : Timer) (l : TimerLabel) (t' : Timer) : Prop where
  | quiet : (∀ val, l.act ≠ .time val) → (∀ e, l.act ≠ .fire e) → l.raised = false →
      t'.pending = t.pending → t'.starts = t.starts → t'.writes = t.writes → Timer.Did t l t'
  | started {val : BitVec 32} {e : TimerEvent} : l.act = .time val → l.raised = false →
      t'.pending = t.pending ++ [e] → e.countdown.number = t.starts → t'.starts = t.starts + 1 →
      Timer.Did t l t'
  | fired {before after : List TimerEvent} {e : TimerEvent} : l.act = .fire e →
      t.pending = before ++ e :: after → e.vtime ≤ t.now →
      (l.raised = true ↔ e.countdown.number + 1 = t.starts) →
      (t'.pending = before ++ after ∧ t'.starts = t.starts ∨
        l.raised = true ∧ t'.starts = t.starts + 1 ∧
          ∃ e', e'.countdown.number = t.starts ∧ t'.pending = before ++ after ++ [e']) →
      Timer.Did t l t'

theorem TimerEvent.Of.superseded {e : TimerEvent} {starts writes : Nat}
    (h : e.Of starts writes) : e.Of (starts + 1) (writes + 1) := by
  have hLt := h.number_lt
  have hLe := h.write_le
  exact ⟨h.code, by omega, by omega, by omega, h.due⟩

theorem TimerEvent.Of.restarted {e : TimerEvent} {starts writes : Nat}
    (h : e.Of starts writes) (hOld : e.countdown.number + 1 ≠ starts) : e.Of (starts + 1) writes := by
  have hLt := h.number_lt
  have hNot := mt h.current.mp hOld
  exact ⟨h.code, by omega, h.write_le, by omega, h.due⟩

/-- Under the condition a step keeps the queue in order, and does one of three things. -/
theorem Timer.Sound.step (hs : t.Sound) (hFew : FewStarts t l t') (h : Timer.Step t l t') :
    t'.Sound ∧ Timer.Did t l t' := by
  cases h with
  | rest =>
    refine ⟨⟨hs.generation, hs.events, hs.nodup⟩, .quiet ?_ ?_ rfl rfl rfl rfl⟩
    · simp
    · simp
  | elapse =>
    refine ⟨⟨hs.generation, hs.events, hs.nodup⟩, .quiet ?_ ?_ rfl rfl rfl rfl⟩
    · simp
    · simp
  | @time val td a h hStart =>
    constructor
    · exact Timer.Sound.arm (t := { t with td := td, writes := t.writes + 1 }) hStart hs.generation
        rfl rfl (fun e he => ⟨(hs.events e he).number_lt, (hs.events e he).superseded⟩) hs.nodup
    · exact .started rfl rfl rfl rfl rfl
  | @fire before after e h r hPending hDue hRun =>
    obtain ⟨hRest, hNodup⟩ := hs.without hPending
    have hEvent : e.Of t.starts t.writes := hs.events e (by simp [hPending])
    have hLast := FewStarts.code_iff hs hEvent (hFew e rfl)
    have hEvents : ∀ x ∈ before ++ after, x.Of t.starts t.writes := fun x hx =>
      hs.events x (hRest x hx).1
    have hOthers : e.countdown.number + 1 = t.starts → ∀ x ∈ before ++ after,
        x.countdown.number < t.starts ∧ x.Of (t.starts + 1) t.writes := by
      intro hCode x hx
      have hOld : x.countdown.number + 1 ≠ t.starts := by
        have hNe := (hRest x hx).2
        omega
      exact ⟨(hEvents x hx).number_lt, (hEvents x hx).restarted hOld⟩
    rw [← hRun]
    cases interrupted_timerInterrupt t.td e.code with
    | stale hCode hDev hIrq hArm =>
      rw [Timer.after, hArm, hDev, hIrq]
      refine ⟨⟨hs.generation, hEvents, hNodup⟩, .fired rfl hPending hDue ?_ (.inl ⟨rfl, rfl⟩)⟩
      exact iff_of_false Bool.false_ne_true (mt hLast.mpr hCode)
    | last hCode hDev hIrq hArm =>
      rw [Timer.after, hArm, hDev, hIrq]
      refine ⟨⟨hs.generation, hEvents, hNodup⟩, .fired rfl hPending hDue ?_ (.inl ⟨rfl, rfl⟩)⟩
      exact iff_of_true rfl (hLast.mp hCode)
    | @again a hCode hStart hIrq hArm =>
      have hNumber := hLast.mp hCode
      rw [Timer.after, hArm, hIrq]
      constructor
      · apply Timer.Sound.arm (t := { t with
          td := (timerInterrupt t.td e.code).dev, pending := before ++ after }) hStart hs.generation
          rfl (hEvent.current.mpr hNumber) (hOthers hNumber) hNodup
      · exact .fired rfl hPending hDue (iff_of_true rfl hNumber)
          (.inr ⟨rfl, rfl, _, rfl, rfl⟩)

/-! ## The countdowns of a run -/

/-- The step raises the interrupt for a countdown. -/
def TimerLabel.raises (k : Nat) (l : TimerLabel) : Bool :=
  match l.act with
  | .fire e => l.raised && e.countdown.number == k
  | _ => false

/-- How often the interrupt is raised for a countdown. -/
def raisesOf (k : Nat) (p : List (TimerLabel × Timer)) : Nat := p.countP fun x => x.1.raises k

/-- TIME was written after the start of the countdown, and before its interrupt. -/
def Superseded (k : Nat) (p : List (TimerLabel × Timer)) : Prop :=
  ∃ q x r, p = q ++ x :: r ∧ (∃ val, x.1.act = .time val) ∧ k + 1 < x.2.starts ∧ raisesOf k q = 0

/-- What has become of a countdown: one that TIME was written over never raises the interrupt, and
any other does so once, until when it is the last one and its event is on the queue. -/
inductive Fate (k : Nat) (p : List (TimerLabel × Timer)) (t : Timer) : Prop where
  | superseded : Superseded k p → raisesOf k p = 0 → Fate k p t
  | raised : ¬ Superseded k p → raisesOf k p = 1 → Fate k p t
  | pending {e : TimerEvent} : ¬ Superseded k p → raisesOf k p = 0 → k + 1 = t.starts →
      e ∈ t.pending → e.countdown.number = k → Fate k p t

theorem raisesOf_concat (k : Nat) (p : List (TimerLabel × Timer)) (l : TimerLabel) (t : Timer) :
    raisesOf k (p ++ [(l, t)]) = raisesOf k p + if l.raises k then 1 else 0 := by
  rw [raisesOf, List.countP_append, List.countP_singleton]
  rfl

theorem superseded_concat_iff :
    Superseded k (p ++ [(l, t)]) ↔ Superseded k p ∨
      ((∃ val, l.act = .time val) ∧ k + 1 < t.starts ∧ raisesOf k p = 0) := by
  constructor
  · rintro ⟨q, x, r, hEq, hTime, hStarts, hNone⟩
    rcases List.eq_nil_or_concat r with rfl | ⟨r, y, rfl⟩
    · obtain ⟨rfl, hLast⟩ := List.append_inj' hEq rfl
      cases hLast
      exact .inr ⟨hTime, hStarts, hNone⟩
    · rw [List.concat_eq_append, ← List.cons_append, ← List.append_assoc] at hEq
      obtain ⟨rfl, -⟩ := List.append_inj' hEq rfl
      exact .inl ⟨q, x, r, rfl, hTime, hStarts, hNone⟩
  · rintro (⟨q, x, r, rfl, hRest⟩ | hNew)
    · exact ⟨q, x, r ++ [(l, t)], by simp, hRest⟩
    · exact ⟨p, (l, t), [], rfl, hNew⟩

/-- The account of a run. -/
structure Ledger (p : List (TimerLabel × Timer)) (t : Timer) : Prop where
  fates : ∀ k < t.starts, Fate k p t
  raised : ∀ k, raisesOf k p ≠ 0 → k < t.starts ∧ ∀ e ∈ t.pending, e.countdown.number ≠ k
  superseded : ∀ k, Superseded k p → k + 1 < t.starts

/-- The start to come has no history. -/
theorem Ledger.fresh (h : Ledger p t) : raisesOf t.starts p = 0 ∧ ¬ Superseded t.starts p := by
  constructor
  · by_contra hRaised
    exact absurd (h.raised _ hRaised).1 (Nat.lt_irrefl _)
  · intro hSuperseded
    have hLt := h.superseded _ hSuperseded
    omega

/-- A step that raises no interrupt and does not write TIME adds nothing to the account. -/
theorem same_concat (hRaised : l.raised = false) (hAct : ∀ val, l.act ≠ .time val) (k : Nat)
    (t' : Timer) : raisesOf k (p ++ [(l, t')]) = raisesOf k p ∧
      (Superseded k (p ++ [(l, t')]) ↔ Superseded k p) := by
  constructor
  · have hNone : l.raises k = false := by
      unfold TimerLabel.raises
      split
      · simp [hRaised]
      · rfl
    simp [raisesOf_concat, hNone]
  · rw [superseded_concat_iff]
    apply or_iff_left
    rintro ⟨⟨val, hTime⟩, -⟩
    exact hAct val hTime

theorem Ledger.started {val : BitVec 32} {e : TimerEvent} (h : Ledger p t)
    (hAct : l.act = .time val) (hPending : t'.pending = t.pending ++ [e])
    (hNumber : e.countdown.number = t.starts) (hStarts : t'.starts = t.starts + 1) :
    Ledger (p ++ [(l, t')]) t' := by
  have hRaises : ∀ k, raisesOf k (p ++ [(l, t')]) = raisesOf k p := by
    intro k
    simp [raisesOf_concat, TimerLabel.raises, hAct]
  have hSuperseded : ∀ k, Superseded k (p ++ [(l, t')]) ↔
      Superseded k p ∨ k < t.starts ∧ raisesOf k p = 0 := by
    intro k
    rw [superseded_concat_iff, hStarts, Nat.add_lt_add_iff_right]
    exact or_congr Iff.rfl (and_iff_right ⟨val, hAct⟩)
  constructor
  · intro k hk
    rw [hStarts, Nat.lt_succ_iff_lt_or_eq] at hk
    rcases hk with hOld | rfl
    · cases h.fates k hOld with
      | superseded hAlready hNone =>
        exact .superseded ((hSuperseded k).mpr (.inl hAlready)) ((hRaises k).trans hNone)
      | raised hNot hOnce =>
        refine .raised ?_ ((hRaises k).trans hOnce)
        rw [hSuperseded, hOnce]
        simpa using hNot
      | pending _ hNone =>
        exact .superseded ((hSuperseded k).mpr (.inr ⟨hOld, hNone⟩)) ((hRaises k).trans hNone)
    · obtain ⟨hNone, hNot⟩ := h.fresh
      refine .pending ?_ ((hRaises _).trans hNone) hStarts.symm (by simp [hPending]) hNumber
      rw [hSuperseded]
      simpa using hNot
  · intro k hk
    rw [hRaises] at hk
    obtain ⟨hLt, hGone⟩ := h.raised k hk
    refine ⟨by omega, fun x hx => ?_⟩
    rw [hPending] at hx
    rcases List.mem_append.mp hx with hOld | hNew
    · exact hGone x hOld
    · rw [List.mem_singleton.mp hNew, hNumber]
      exact (Nat.ne_of_lt hLt).symm
  · intro k hk
    rcases (hSuperseded k).mp hk with hOld | ⟨hLt, -⟩
    · have hLt := h.superseded k hOld
      omega
    · omega

/-- The account stays as it is where no interrupt is raised, and no event leaves the queue but one
of an earlier start. -/
theorem Ledger.kept (h : Ledger p t) (hRaised : l.raised = false) (hTime : ∀ val, l.act ≠ .time val)
    (hStarts : t'.starts = t.starts) (hPending : ∀ x ∈ t'.pending, x ∈ t.pending)
    (hLast : ∀ x ∈ t.pending, x.countdown.number + 1 = t.starts → x ∈ t'.pending) :
    Ledger (p ++ [(l, t')]) t' := by
  have hSame := fun k => same_concat (p := p) hRaised hTime k t'
  constructor
  · intro k hk
    rw [hStarts] at hk
    cases h.fates k hk with
    | superseded hAlready hNone =>
      exact .superseded ((hSame k).2.mpr hAlready) ((hSame k).1.trans hNone)
    | raised hNot hOnce => exact .raised (mt (hSame k).2.mp hNot) ((hSame k).1.trans hOnce)
    | @pending x hNot hNone hStart hx hNumber =>
      exact .pending (mt (hSame k).2.mp hNot) ((hSame k).1.trans hNone) (hStart.trans hStarts.symm)
        (hLast x hx (by rw [hNumber, hStart])) hNumber
  · intro k hk
    rw [(hSame k).1] at hk
    rw [hStarts]
    exact ⟨(h.raised k hk).1, fun x hx => (h.raised k hk).2 x (hPending x hx)⟩
  · intro k hk
    rw [hStarts]
    exact h.superseded k ((hSame k).2.mp hk)

/-- The event of the last start raises the interrupt, and may start the next countdown. -/
theorem Ledger.struck {before after : List TimerEvent} {e : TimerEvent} (hs : t.Sound)
    (h : Ledger p t) (hAct : l.act = .fire e) (hRaised : l.raised = true)
    (hPending : t.pending = before ++ e :: after) (hLast : e.countdown.number + 1 = t.starts)
    (hStarts : t.starts ≤ t'.starts)
    (hLater : ∀ x ∈ t'.pending, x ∈ before ++ after ∨ x.countdown.number = t.starts)
    (hNew : t'.starts = t.starts ∨ t'.starts = t.starts + 1 ∧
      ∃ x ∈ t'.pending, x.countdown.number = t.starts) : Ledger (p ++ [(l, t')]) t' := by
  have hRaises : ∀ k, raisesOf k (p ++ [(l, t')]) =
      raisesOf k p + if e.countdown.number = k then 1 else 0 := by
    intro k
    simp [raisesOf_concat, TimerLabel.raises, hAct, hRaised]
  have hSuperseded : ∀ k, Superseded k (p ++ [(l, t')]) ↔ Superseded k p := by
    intro k
    rw [superseded_concat_iff]
    simp [hAct]
  have hOther : ∀ k, e.countdown.number ≠ k → raisesOf k (p ++ [(l, t')]) = raisesOf k p := by
    intro k hk
    rw [hRaises, if_neg hk, Nat.add_zero]
  have hHere : ∀ k, Superseded k p ∨ raisesOf k p ≠ 0 → e.countdown.number ≠ k := by
    rintro k (hAlready | hOnce) rfl
    · have hLt := h.superseded _ hAlready
      omega
    · exact (h.raised _ hOnce).2 e (by simp [hPending]) rfl
  constructor
  · intro k hk
    by_cases hk' : e.countdown.number = k
    · subst hk'
      have hNone : raisesOf e.countdown.number p = 0 := by
        by_contra hOnce
        exact hHere _ (.inr hOnce) rfl
      refine .raised ?_ (by rw [hRaises, if_pos rfl, hNone])
      rw [hSuperseded]
      exact fun hAlready => hHere _ (.inl hAlready) rfl
    · by_cases hOld : k < t.starts
      · cases h.fates k hOld with
        | superseded hAlready hNone =>
          exact .superseded ((hSuperseded k).mpr hAlready) ((hOther k hk').trans hNone)
        | raised hNot hOnce =>
          exact .raised (mt (hSuperseded k).mp hNot) ((hOther k hk').trans hOnce)
        | pending _ _ hLast' => omega
      · obtain ⟨hNone, hNot⟩ := h.fresh
        rcases hNew with hSame | ⟨hNext, x, hx, hNumber⟩
        · omega
        · obtain rfl : k = t.starts := by omega
          exact .pending (mt (hSuperseded _).mp hNot) ((hOther _ hk').trans hNone) hNext.symm hx
            hNumber
  · intro k hk
    obtain ⟨hRest, -⟩ := hs.without hPending
    by_cases hk' : e.countdown.number = k
    · subst hk'
      refine ⟨by omega, fun x hx => ?_⟩
      rcases hLater x hx with hOld | hNumber
      · exact (hRest x hOld).2
      · omega
    · rw [hOther k hk'] at hk
      obtain ⟨hLt, hGone⟩ := h.raised k hk
      refine ⟨by omega, fun x hx => ?_⟩
      rcases hLater x hx with hOld | hNumber
      · exact hGone x (hRest x hOld).1
      · omega
  · intro k hk
    have hLt := h.superseded k ((hSuperseded k).mp hk)
    omega

theorem Ledger.step (hs : t.Sound) (h : Ledger p t) (hDid : Timer.Did t l t') :
    Ledger (p ++ [(l, t')]) t' := by
  cases hDid with
  | quiet hTime hFire hRaised hPending hStarts =>
    exact h.kept hRaised hTime hStarts (fun x hx => hPending ▸ hx) (fun x hx _ => hPending.symm ▸ hx)
  | started hAct _ hPending hNumber hStarts => exact h.started hAct hPending hNumber hStarts
  | @fired before after e hAct hPending _ hRaised hCase =>
    rcases hCase with ⟨hPending', hStarts⟩ | ⟨hOn, hStarts, x, hNumber, hPending'⟩
    · cases hOn : l.raised with
      | false =>
        have hOld := mt hRaised.mpr (Bool.eq_false_iff.mp hOn)
        have hMem : ∀ x, x ∈ t.pending ↔ x = e ∨ x ∈ t'.pending := by
          intro x
          rw [hPending, hPending']
          simp only [List.mem_append, List.mem_cons]
          tauto
        refine h.kept hOn (by simp [hAct]) hStarts (fun x hx => (hMem x).mpr (.inr hx)) ?_
        intro x hx hNumber
        refine ((hMem x).mp hx).resolve_left ?_
        rintro rfl
        exact hOld hNumber
      | true =>
        exact h.struck hs hAct hOn hPending (hRaised.mp hOn) hStarts.ge
          (fun x hx => .inl (hPending' ▸ hx)) (.inl hStarts)
    · refine h.struck hs hAct hOn hPending (hRaised.mp hOn) (by omega) ?_
        (.inr ⟨hStarts, x, ?_, hNumber⟩)
      · intro y hy
        rw [hPending'] at hy
        rcases List.mem_append.mp hy with hOld | hNew
        · exact .inl hOld
        · rw [List.mem_singleton.mp hNew]
          exact .inr hNumber
      · simp [hPending']

theorem sound_start (now : BitVec 64) : (Timer.start now).Sound :=
  ⟨rfl, nofun, .nil⟩

theorem ledger_start (now : BitVec 64) : Ledger [] (Timer.start now) := by
  constructor
  · exact fun k hk => absurd hk (Nat.not_lt_zero k)
  · exact fun k hk => absurd rfl hk
  · rintro k ⟨q, x, r, hEq, -⟩
    simp at hEq

theorem ledger_of_run {now : BitVec 64} (hRun : Path Timer.Step (Timer.start now) p t)
    (hFew : AllSteps FewStarts (Timer.start now) p) : Ledger p t := by
  have hBoth : AllSteps FewStarts (Timer.start now) p → t.Sound ∧ Ledger p t := by
    refine hRun.invariant_history
      (P := fun p t => AllSteps FewStarts (Timer.start now) p → t.Sound ∧ Ledger p t) ?_ ?_
    · exact fun _ => ⟨sound_start now, ledger_start now⟩
    · intro q u l u' hPath hu hStep hAll
      rw [hPath.allSteps_append_iff] at hAll
      obtain ⟨hSound, hLedger⟩ := hu hAll.1
      obtain ⟨hSound', hDid⟩ := hSound.step hAll.2.1 hStep
      exact ⟨hSound', hLedger.step hSound hDid⟩
  exact (hBoth hFew).2

/-! ## Each step -/

/-- The interrupt is raised by the last countdown of the last write to TIME, and an event of
an earlier write does nothing. -/
structure OfLastWrite (t : Timer) (l : TimerLabel) (t' : Timer) : Prop where
  raised : l.raised = true → ∃ e, l.act = .fire e ∧ e.countdown.write = t.writes ∧
    e.countdown.number + 1 = t.starts
  superseded : ∀ e, l.act = .fire e → e.countdown.write ≠ t.writes →
    l.raised = false ∧ t'.starts = t.starts

/-- The interrupt is not raised before the countdown is over. -/
def NotEarly (t : Timer) (l : TimerLabel) (_ : Timer) : Prop :=
  ∀ e, l.act = .fire e → l.raised = true → e.countdown.ends ≤ t.now.toNat

theorem ofLastWrite_step (hs : t.Sound) (hFew : FewStarts t l t') (h : Timer.Step t l t') :
    OfLastWrite t l t' := by
  cases (hs.step hFew h).2 with
  | quiet _ hFire hRaised => exact ⟨by simp [hRaised], fun e hAct => absurd hAct (hFire e)⟩
  | started hAct hRaised => exact ⟨by simp [hRaised], by simp [hAct]⟩
  | @fired before after e hAct hPending hDue hRaised hCase =>
    have hEvent : e.Of t.starts t.writes := hs.events e (by simp [hPending])
    constructor
    · intro hOn
      exact ⟨e, hAct, hEvent.current.mpr (hRaised.mp hOn), hRaised.mp hOn⟩
    · intro x hx hOld
      obtain rfl : e = x := by simpa [hAct] using hx
      have hOff : ¬ l.raised = true := mt hRaised.mp (mt hEvent.current.mpr hOld)
      rcases hCase with ⟨-, hStarts⟩ | ⟨hOn, -⟩
      · exact ⟨Bool.eq_false_iff.mpr hOff, hStarts⟩
      · exact absurd hOn hOff

theorem notEarly_step (hs : t.Sound) (h : Timer.Step t l t')
    (hFits : ∀ e, l.act = .fire e → e.countdown.Fits) : NotEarly t l t' := by
  intro e hAct _
  cases h with
  | rest => cases hAct
  | time => cases hAct
  | elapse => cases hAct
  | @fire before after x h r hPending hDue hRun =>
    obtain rfl : x = e := by simpa using hAct
    have hEvent : x.Of t.starts t.writes := hs.events x (by simp [hPending])
    exact (hEvent.due (hFits x rfl)).trans (BitVec.le_def.mp hDue)

/-- In every run in which no event fires a whole turn of the generation after its start, each
countdown has its fate; no interrupt is raised but by the last write's countdown, nor before
its end where the time of its event is before the end of the clock. -/
theorem timer_countdown {now : BitVec 64} (hRun : Path Timer.Step (Timer.start now) p t)
    (hFew : AllSteps FewStarts (Timer.start now) p) :
    (∀ k < t.starts, Fate k p t) ∧ AllSteps OfLastWrite (Timer.start now) p ∧
      AllSteps (fun t l t' => (∀ e, l.act = .fire e → e.countdown.Fits) → NotEarly t l t')
        (Timer.start now) p := by
  refine ⟨(ledger_of_run hRun hFew).fates, ?_, ?_⟩
  · refine hRun.allSteps_of_invariant (P := Timer.Sound) ?_ (sound_start now) hFew
    intro t l t' hs hFew hStep
    exact ⟨(hs.step hFew hStep).1, ofLastWrite_step hs hFew hStep⟩
  · refine hRun.allSteps_of_invariant (P := Timer.Sound) ?_ (sound_start now) hFew
    intro t l t' hs hFew hStep
    exact ⟨(hs.step hFew hStep).1, notEarly_step hs hStep⟩

/-- TIME is written twice with REST set; the second countdown ends and restarts, then the event of
the first comes. -/
theorem time_twice : ∃ p t, Path Timer.Step (Timer.start 0) p t ∧
    AllSteps FewStarts (Timer.start 0) p ∧ t.starts = 3 ∧ raisesOf 0 p = 0 ∧ raisesOf 1 p = 1 := by
  refine ⟨_, _, .cons (@Timer.Step.rest _ 1)
    (.cons (@Timer.Step.time _ 5 _ _ stillHost rfl)
    (.cons (@Timer.Step.time _ 1 _ _ stillHost rfl)
    (.cons (@Timer.Step.elapse _ 1000)
    (.cons (@Timer.Step.fire _ [_] [] _ stillHost _ rfl (by decide) rfl)
    (.cons (@Timer.Step.elapse _ 5000)
    (.cons (@Timer.Step.fire _ [] [_] _ stillHost _ rfl (by decide) rfl) (.nil _))))))),
    ?_, ?_, ?_, ?_⟩
  · refine ⟨nofun, nofun, nofun, nofun, ?_, nofun, ?_, trivial⟩
    · rintro e hAct
      cases hAct
      decide
    · rintro e hAct
      cases hAct
      decide
  · rfl
  · rfl
  · rfl

theorem timer_countdown_twice : ∃ p t, Path Timer.Step (Timer.start 0) p t ∧ raisesOf 1 p = 1 ∧
    (∀ k < t.starts, Fate k p t) ∧ AllSteps OfLastWrite (Timer.start 0) p ∧
    AllSteps (fun t l t' => (∀ e, l.act = .fire e → e.countdown.Fits) → NotEarly t l t')
      (Timer.start 0) p := by
  obtain ⟨p, t, hRun, hFew, -, -, hOnce⟩ := time_twice
  exact ⟨p, t, hRun, hOnce, timer_countdown hRun hFew⟩

/-- TIME is set to 1 when the clock is 500 ns from its end. -/
theorem time_at_end : ∃ p t, Path Timer.Step (Timer.start 0) p t ∧
    AllSteps FewStarts (Timer.start 0) p ∧ ¬ AllSteps NotEarly (Timer.start 0) p := by
  refine ⟨_, _, .cons (@Timer.Step.elapse _ 0xfffffffffffffe0c)
    (.cons (@Timer.Step.time _ 1 _ _ stillHost rfl)
    (.cons (@Timer.Step.elapse _ 0xfffffffffffffe34)
    (.cons (@Timer.Step.fire _ [] [] _ stillHost _ rfl (by decide) rfl) (.nil _)))), ?_, ?_⟩
  · refine ⟨nofun, nofun, nofun, ?_, trivial⟩
    rintro e hAct
    cases hAct
    decide
  · rintro ⟨-, -, -, hEarly, -⟩
    have hEnds := hEarly _ rfl rfl
    revert hEnds
    decide

theorem not_timer_countdown : ¬ ∀ (now : BitVec 64) (p : List (TimerLabel × Timer)) (t : Timer),
    Path Timer.Step (Timer.start now) p t → AllSteps FewStarts (Timer.start now) p →
    (∀ k < t.starts, Fate k p t) ∧ AllSteps OfLastWrite (Timer.start now) p ∧
      AllSteps NotEarly (Timer.start now) p := by
  intro hAll
  obtain ⟨p, t, hRun, hFew, hEarly⟩ := time_at_end
  exact hEarly (hAll 0 p t hRun hFew).2.2

end Sys161.Bus
