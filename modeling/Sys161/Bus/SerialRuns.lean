import Sys161.Bus.Handlers
import Sys161.Bus.Serial

/-!
# What holds over every run of the serial port

The outcomes of `serial_pushinput` are told apart once; the order of the
characters, the events on the queue and the pace are read off them.
-/

namespace Sys161.Bus

open Runs

set_option autoImplicit false

/-- The characters that wait. -/
def SerData.ring (sd : SerData) : List (BitVec 8) :=
  Ring.contents sd.sdInbuf sd.sdInbufhead sd.sdInbuftail

/-- A character is presented that the guest has not read. -/
def SerData.unread (sd : SerData) : Prop := sd.sdDidread = false ∧ sd.sdRirq.siReady = true

/-- The three ways out of `serial_pushinput`. -/
inductive Pushed (sd : SerData) (r : Done SerData) : Prop where
  | empty : sd.ring = [] → r.dev = { sd with sdRbusy := false } → r.arm = none → Pushed sd r
  | heldUp {dropped : BitVec 32} : sd.ring ≠ [] → sd.unread →
      r.dev = { sd with sdDroppedreads := dropped } → r.arm = some serialRead → Pushed sd r
  | deliver {ch : BitVec 8} : ¬ sd.unread → sd.ring = ch :: r.dev.ring →
      sd.placed r.dev = some (ch.setWidth 32) → r.dev.sdDidread = false → r.dev.sdRbusy = true →
      r.arm = some serialRead → Pushed sd r

theorem ring_eq_nil_iff (sd : SerData) : sd.ring = [] ↔ sd.sdInbufhead = sd.sdInbuftail :=
  Ring.contents_eq_nil_iff _

theorem ring_full_iff (sd : SerData) : sd.ring.length = 511 ↔ sd.sdInbuftail + 1 = sd.sdInbufhead :=
  Ring.full_iff _

theorem placed_of_head {sd sd' : SerData} (h : sd'.sdInbufhead = sd.sdInbufhead) :
    sd.placed sd' = none := by
  simp [SerData.placed, h]

theorem pushed_serialPushinput (sd : SerData) : Pushed sd (serialPushinput sd) := by
  by_cases hEmpty : sd.sdInbufhead = sd.sdInbuftail
  · rw [serialPushinput_empty hEmpty]
    exact .empty ((ring_eq_nil_iff sd).mpr hEmpty) rfl rfl
  by_cases hUnread : sd.unread
  · obtain ⟨hArm, hDev⟩ := serialPushinput_unread hEmpty hUnread.1 hUnread.2
    exact .heldUp (mt (ring_eq_nil_iff sd).mp hEmpty) hUnread hDev hArm
  · have hCase : ¬((!sd.sdDidread && sd.sdRirq.siReady) = true) := by
      simpa [SerData.unread] using hUnread
    have hMoved : sd.sdInbufhead + 1 ≠ sd.sdInbufhead := by simp
    rw [serialPushinput, if_neg hEmpty, if_neg hCase]
    refine .deliver hUnread (Ring.contents_pop _ hEmpty) ?_ rfl rfl rfl
    simp [SerData.placed, hMoved]

/-! ## Every character in its turn -/

section Fifo

variable {s s' : Serial} {l : SerialLabel} {p : List (SerialLabel × Serial)}

def SerData.waiting (sd : SerData) : List (BitVec 32) := sd.ring.map (BitVec.setWidth 32)

/-- The character that a step takes from the keyboard, if there is room for it. -/
def SerialAct.accepted (sd : SerData) : SerialAct → List (BitVec 32)
  | .type ch _ => if sd.ring.length = 511 then [] else [(ch.setWidth 8).setWidth 32]
  | _ => []

/-- The characters accepted along a run. -/
def accepted : Serial → List (SerialLabel × Serial) → List (BitVec 32)
  | _, [] => []
  | s, (l, s') :: p => l.act.accepted s.sd ++ accepted s' p

/-- The values put into the character register along a run. -/
def placings (p : List (SerialLabel × Serial)) : List (BitVec 32) := p.filterMap fun e => e.1.placed

/-- The times at which characters were put into the register. -/
def placingTimes (p : List (SerialLabel × Serial)) : List (BitVec 64) :=
  p.filterMap fun e => e.1.placed.map fun _ => e.1.vnow

theorem Pushed.waiting {sd : SerData} {r : Done SerData} (h : Pushed sd r) :
    sd.waiting = (sd.placed r.dev).toList ++ r.dev.waiting := by
  cases h with
  | empty _ hDev _ =>
    rw [hDev]
    simp [SerData.placed, SerData.waiting, SerData.ring]
  | heldUp _ _ hDev _ =>
    rw [hDev]
    simp [SerData.placed, SerData.waiting, SerData.ring]
  | deliver _ hRing hPlaced =>
    simp [SerData.waiting, hRing, hPlaced]

theorem placed_writedone (sd : SerData) :
    sd.placed (serialWritedone sd).dev = none ∧ (serialWritedone sd).dev.waiting = sd.waiting :=
  ⟨placed_of_head rfl, rfl⟩

theorem serialFire_cases {sd : SerData} {a : Arm} {r : Done SerData} (h : serialFire sd a = .ok r) :
    (a.func = .serialPushinput ∧ r = serialPushinput sd) ∨
      (a.func = .serialWritedone ∧ r = serialWritedone sd) := by
  unfold serialFire at h
  split at h
  · exact .inr ⟨‹_›, (Except.ok.inj h).symm⟩
  · exact .inl ⟨‹_›, (Except.ok.inj h).symm⟩
  · cases h

theorem serialInput_cases {sd : SerData} {overrun overrun' : Bool} {ch : BitVec 32}
    {r : Done SerData} (h : serialInput overrun sd ch = (overrun', r)) :
    (sd.ring.length = 511 ∧ r.dev = sd ∧ r.arm = none) ∨
      ∃ sd₁, sd.ring.length ≠ 511 ∧ sd₁.ring = sd.ring ++ [ch.setWidth 8] ∧
        sd₁.sdInbufhead = sd.sdInbufhead ∧ sd₁.sdRbusy = sd.sdRbusy ∧
        sd₁.sdDidread = sd.sdDidread ∧ sd₁.sdRirq = sd.sdRirq ∧
        r = if sd.sdRbusy then { dev := sd₁ } else serialPushinput sd₁ := by
  unfold serialInput at h
  dsimp only at h
  split at h
  · next hFull =>
    cases h
    exact .inl ⟨(ring_full_iff sd).mpr hFull, rfl, rfl⟩
  · next hRoom =>
    cases h
    refine .inr ⟨{ sd with
      sdInbuf := Function.update sd.sdInbuf sd.sdInbuftail (ch.setWidth 8)
      sdInbuftail := sd.sdInbuftail + 1 }, mt (ring_full_iff sd).mp hRoom, ?_, rfl, rfl, rfl, rfl, rfl⟩
    exact Ring.contents_push _ _ hRoom

theorem serialFetch_same (sd : SerData) (offset : BitVec 32) :
    (serialFetch sd offset).2 =
      { sd with sdDidread := decide (offset.toNat = serregChar) || sd.sdDidread } := by
  unfold serialFetch
  split
  · simp [*]
  · simp only [*, decide_false, Bool.false_or]
    split
    · rfl
    · split <;> rfl

theorem serialStore_same {sd : SerData} {offset val : BitVec 32} {r : Done SerData}
    {putc : Option (BitVec 32)} (h : serialStore sd offset val = some (r, putc)) :
    r.dev.ring = sd.ring ∧ r.dev.sdDidread = sd.sdDidread ∧ r.dev.sdRbusy = sd.sdRbusy ∧
      ∀ a, r.arm = some a → a.func = .serialWritedone := by
  unfold serialStore at h
  split at h
  · split at h
    · cases h
      exact ⟨rfl, rfl, rfl, fun a ha => by cases ha⟩
    · cases h
      refine ⟨rfl, rfl, rfl, fun a ha => ?_⟩
      cases ha
      rfl
  · split at h
    · cases h
      exact ⟨rfl, rfl, rfl, fun a ha => by cases ha⟩
    · split at h
      · cases h
        exact ⟨rfl, rfl, rfl, fun a ha => by cases ha⟩
      · cases h

/-- What a step takes in, puts out and leaves. -/
theorem Serial.Step.waiting (h : Serial.Step s l s') :
    s.sd.waiting ++ l.act.accepted s.sd = l.placed.toList ++ s'.sd.waiting := by
  cases h with
  | @type ch ahead host overrun r hInput =>
    rcases serialInput_cases hInput with ⟨hFull, hDev, -⟩ | ⟨sd₁, hRoom, hRing, hHead, -, -, -, rfl⟩
    · simp only [SerialAct.accepted, hFull, Serial.after, hDev, placed_of_head]
      simp
    · have hWaiting : s.sd.waiting ++ SerialAct.accepted s.sd (.type ch ahead) = sd₁.waiting := by
        simp [SerialAct.accepted, hRoom, SerData.waiting, hRing]
      rw [hWaiting]
      cases hBusy : s.sd.sdRbusy with
      | true =>
        simp only [if_true, Serial.after, placed_of_head hHead]
        rfl
      | false =>
        simp only [Bool.false_eq_true, if_false, Serial.after]
        rw [(pushed_serialPushinput sd₁).waiting]
        simp only [SerData.placed, hHead]
  | @fetch offset =>
    rw [serialFetch_same]
    simp [SerialAct.accepted, SerData.waiting, SerData.ring]
  | store hStore =>
    simp [SerialAct.accepted, SerData.waiting, Serial.after, (serialStore_same hStore).1]
  | fire _ _ hFire =>
    rcases serialFire_cases hFire with ⟨-, rfl⟩ | ⟨-, rfl⟩
    · simpa [SerialAct.accepted] using (pushed_serialPushinput s.sd).waiting
    · obtain ⟨hPlaced, hWaiting⟩ := placed_writedone s.sd
      simp [SerialAct.accepted, hPlaced, Serial.after, hWaiting]
  | advance => simp [SerialAct.accepted]

theorem waiting_of_run (hRun : Path Serial.Step s p s') :
    s.sd.waiting ++ accepted s p = placings p ++ s'.sd.waiting := by
  induction hRun with
  | nil s => simp [accepted, placings]
  | @cons s s₁ s' l p hStep _ ih =>
    have hHead : placings ((l, s₁) :: p) = l.placed.toList ++ placings p := by
      cases hPlaced : l.placed <;> simp [placings, hPlaced]
    rw [accepted, ← List.append_assoc, hStep.waiting, List.append_assoc, ih, hHead,
      List.append_assoc]

/-! ### Nothing unread is overwritten -/

def SerialAct.ReadsChar : SerialAct → Prop
  | .fetch offset => offset.toNat = serregChar
  | _ => False

/-- A character was placed, and the guest has not read the register since. -/
def PlacedUnread (p : List (SerialLabel × Serial)) : Prop :=
  ∃ q e r, p = q ++ e :: r ∧ e.1.placed.isSome ∧ ∀ x ∈ r, ¬ x.1.act.ReadsChar

theorem PlacedUnread.concat {e : SerialLabel × Serial} (h : PlacedUnread (p ++ [e])) :
    e.1.placed.isSome ∨ (PlacedUnread p ∧ ¬ e.1.act.ReadsChar) := by
  obtain ⟨q, x, r, hEq, hPlaced, hUnread⟩ := h
  rcases List.eq_nil_or_concat r with rfl | ⟨r, y, rfl⟩
  · obtain ⟨-, hLast⟩ := List.append_inj' hEq rfl
    obtain rfl : e = x := by simpa using hLast
    exact .inl hPlaced
  · rw [List.concat_eq_append, ← List.cons_append, ← List.append_assoc] at hEq
    obtain ⟨rfl, hLast⟩ := List.append_inj' hEq rfl
    obtain rfl : e = y := by simpa using hLast
    exact .inr ⟨⟨q, x, r, rfl, hPlaced, fun z hz => hUnread z (by simp [hz])⟩,
      hUnread e (by simp)⟩

theorem Pushed.register {sd : SerData} {r : Done SerData} (h : Pushed sd r) :
    ((sd.placed r.dev).isSome → ¬ sd.unread ∧ r.dev.sdDidread = false) ∧
      (sd.sdDidread = false → r.dev.sdDidread = false) := by
  cases h with
  | empty _ hDev _ =>
    rw [hDev]
    simp [SerData.placed]
  | heldUp _ _ hDev _ =>
    rw [hDev]
    simp [SerData.placed]
  | deliver hFree _ _ hRead => exact ⟨fun _ => ⟨hFree, hRead⟩, fun _ => hRead⟩

theorem Serial.Step.register (h : Serial.Step s l s') :
    (l.placed.isSome → ¬ s.sd.unread ∧ s'.sd.sdDidread = false) ∧
      (¬ l.act.ReadsChar → s.sd.sdDidread = false → s'.sd.sdDidread = false) := by
  cases h with
  | type hInput =>
    rcases serialInput_cases hInput with ⟨-, hDev, -⟩ | ⟨sd₁, -, -, hHead, -, hRead, hIrq, rfl⟩
    · simp [SerData.placed, hDev]
    · cases hBusy : s.sd.sdRbusy with
      | true => simp [SerData.placed, hHead, hRead]
      | false =>
        have hPushed := (pushed_serialPushinput sd₁).register
        simp only [SerData.placed, SerData.unread, hHead, hRead, hIrq] at hPushed
        simp only [Bool.false_eq_true, if_false, Serial.after_sd, SerData.placed, SerData.unread]
        exact ⟨hPushed.1, fun _ => hPushed.2⟩
  | fetch =>
    rw [serialFetch_same]
    simp +contextual [SerialAct.ReadsChar]
  | store hStore => simp [(serialStore_same hStore).2.1]
  | fire _ _ hFire =>
    rcases serialFire_cases hFire with ⟨-, rfl⟩ | ⟨-, rfl⟩
    · obtain ⟨hPlaced, hKept⟩ := (pushed_serialPushinput s.sd).register
      exact ⟨hPlaced, fun _ => hKept⟩
    · simp [SerData.placed, serialWritedone]
  | advance => simp

theorem didread_of_run (hRun : Path Serial.Step s p s') :
    PlacedUnread p → s'.sd.sdDidread = false := by
  refine hRun.invariant_history (P := fun p s => PlacedUnread p → s.sd.sdDidread = false) ?_ ?_
  · rintro ⟨q, e, r, hEq, -⟩
    simp at hEq
  · intro p t l t' _ ht hStep hPlaced
    rcases hPlaced.concat with hNew | ⟨hOld, hKept⟩
    · exact (hStep.register.1 hNew).2
    · exact hStep.register.2 hKept (ht hOld)

/-- Three keys while the guest does not look, then two reads: the second and the third character
arrive together. -/
theorem keys_while_unread : ∃ p s, Path Serial.Step (Serial.start (fun _ => 0) 0) p s ∧
    placings p = [97, 98, 99] ∧ placingTimes p = [0, 2 * serialNsecs, 2 * serialNsecs] ∧
    s.pending.map (fun e => e.arm.func) = [.serialPushinput, .serialPushinput] := by
  refine ⟨_, _, .cons (@Serial.Step.type _ 97 0 stillHost _ _ rfl)
    (.cons (@Serial.Step.advance _ serialNsecs)
    (.cons (@Serial.Step.fire _ [] [] _ stillHost _ rfl (by decide) rfl)
    (.cons (@Serial.Step.type _ 98 0 stillHost _ _ rfl)
    (.cons (@Serial.Step.type _ 99 0 stillHost _ _ rfl)
    (.cons (@Serial.Step.fetch _ 0)
    (.cons (@Serial.Step.advance _ serialNsecs)
    (.cons (@Serial.Step.fire _ [] [_] _ stillHost _ rfl (by decide) rfl)
    (.cons (@Serial.Step.fetch _ 0)
    (.cons (@Serial.Step.fire _ [] [_] _ stillHost _ rfl (by decide) rfl) (.nil _)))))))))),
    ?_, ?_, ?_⟩
  · rfl
  · rfl
  · rfl

end Fifo

/-! ## The busy flag and the events -/

section Pacing

variable {s s' : Serial} {l : SerialLabel} {p : List (SerialLabel × Serial)}

/-- The events that will call `serial_pushinput`. -/
def Serial.pushes (s : Serial) : List SerialEvent :=
  s.pending.filter fun e => e.arm.func = .serialPushinput

def Serial.OnePush (s : Serial) : Prop :=
  (s.sd.sdRbusy = true ↔ s.pushes.length = 1) ∧ s.pushes.length ≤ 1

/-- No key comes to an idle port that still presents an unread character. -/
def NoKeyUnread (s : Serial) (l : SerialLabel) (_ : Serial) : Prop :=
  ∀ ch ahead, l.act = .type ch ahead → s.sd.sdRbusy = false → ¬ s.sd.unread

/-- An event scheduled for the next character. -/
def SerialEvent.Next (vnow : BitVec 64) (e : SerialEvent) : Prop :=
  ∃ j, j ≤ serialNsecs / 100 ∧ e.vtime = vnow + (serialNsecs + j)

/-- `Pushed` with the queue. -/
inductive Serial.PushedAt (s : Serial) (vnow : BitVec 64) (s' : Serial) : Prop where
  | empty : s.sd.ring = [] → s'.sd.ring = [] → s'.sd.sdRbusy = false → s'.pushes = s.pushes →
      s.sd.placed s'.sd = none → Serial.PushedAt s vnow s'
  | heldUp {e : SerialEvent} : s.sd.unread → s'.sd.sdRbusy = s.sd.sdRbusy →
      s'.pushes = s.pushes ++ [e] → e.Next vnow → s.sd.placed s'.sd = none →
      Serial.PushedAt s vnow s'
  | deliver {e : SerialEvent} : ¬ s.sd.unread → s'.sd.sdRbusy = true →
      s'.pushes = s.pushes ++ [e] → e.Next vnow → Serial.PushedAt s vnow s'

theorem pushes_after_none {r : Done SerData} (hArm : ∀ a, r.arm = some a → a.func = .serialWritedone)
    (vnow : BitVec 64) (jitter : BitVec 64 → BitVec 64) :
    (s.after r vnow jitter).pushes = s.pushes := by
  cases hEq : r.arm with
  | none => simp [Serial.after, Serial.pushes, hEq]
  | some a => simp [Serial.after, Serial.pushes, hEq, hArm a hEq]

theorem pushes_after_read {r : Done SerData} (hArm : r.arm = some serialRead) (vnow : BitVec 64)
    (h : Host) : ∃ e : SerialEvent, e.Next vnow ∧
      (s.after r vnow h.jitter).pushes = s.pushes ++ [e] := by
  refine ⟨⟨vnow + (serialNsecs + h.jitter serialNsecs), serialRead⟩,
    ⟨h.jitter serialNsecs, h.jitter_le _, rfl⟩, ?_⟩
  simp [Serial.after, Serial.pushes, hArm, serialRead]

theorem pushedAt (s : Serial) (vnow : BitVec 64) (h : Host) :
    s.PushedAt vnow (s.after (serialPushinput s.sd) vnow h.jitter) := by
  cases pushed_serialPushinput s.sd with
  | empty hRing hDev hArm =>
    apply Serial.PushedAt.empty hRing
    · rw [Serial.after_sd, hDev]
      exact hRing
    · simp [hDev]
    · exact pushes_after_none (by simp [hArm]) ..
    · simp [hDev, SerData.placed]
  | heldUp _ hUnread hDev hArm =>
    obtain ⟨e, hNext, hPushes⟩ := pushes_after_read (s := s) hArm vnow h
    refine .heldUp hUnread ?_ hPushes hNext ?_
    · simp [hDev]
    · simp [hDev, SerData.placed]
  | deliver hFree _ _ _ hBusy hArm =>
    obtain ⟨e, hNext, hPushes⟩ := pushes_after_read (s := s) hArm vnow h
    exact .deliver hFree hBusy hPushes hNext

/-- What a step does to the flag, the ring and the events. -/
inductive Serial.Did (s : Serial) (l : SerialLabel) (s' : Serial) : Prop where
  | quiet : s'.sd.sdRbusy = s.sd.sdRbusy → s'.pushes = s.pushes →
      (s'.sd.ring = s.sd.ring ∨ s.sd.sdRbusy = true) →
      (∀ ch ahead, l.act = .type ch ahead → s.sd.sdRbusy = true ∨ s.sd.ring ≠ []) →
      l.placed = none → Serial.Did s l s'
  | typed (s₁ : Serial) {ch : BitVec 32} {ahead : BitVec 64} : l.act = .type ch ahead →
      s.sd.sdRbusy = false → s₁.pushes = s.pushes → s₁.sd.ring ≠ [] → s₁.sd.sdRbusy = false →
      (s₁.sd.unread ↔ s.sd.unread) → s₁.sd.placed s'.sd = l.placed →
      Serial.PushedAt s₁ l.vnow s' → Serial.Did s l s'
  | fired (s₁ : Serial) {before after : List SerialEvent} {e : SerialEvent} :
      l.act = .fire e → s.pushes = before ++ e :: after → s₁.pushes = before ++ after →
      s₁.sd = s.sd → s₁.sd.placed s'.sd = l.placed → Serial.PushedAt s₁ l.vnow s' → Serial.Did s l s'

theorem Serial.Step.did (h : Serial.Step s l s') : s.Did l s' := by
  cases h with
  | @type ch ahead host overrun r hInput =>
    rcases serialInput_cases hInput with
      ⟨hFull, hDev, hArm⟩ | ⟨sd₁, -, hRing, hHead, hBusy, hRead, hIrq, rfl⟩
    · have hSome : s.sd.ring ≠ [] := by
        intro hNil
        simp [hNil] at hFull
      refine .quiet ?_ (pushes_after_none (by simp [hArm]) ..) (.inl ?_) (fun _ _ _ => .inr hSome) ?_
      · simp [hDev]
      · simp [hDev]
      · simp [hDev, SerData.placed]
    · cases hIdle : s.sd.sdRbusy with
      | true =>
        refine .quiet ?_ (pushes_after_none (by simp) ..) (.inr hIdle) (fun _ _ _ => .inl hIdle) ?_
        · simp [hBusy]
        · simp [hHead, SerData.placed]
      | false =>
        rw [hIdle] at hBusy
        refine .typed { s with sd := sd₁, overrun := overrun } rfl hIdle rfl ?_ hBusy ?_ ?_
          (pushedAt _ (s.now + ahead) host)
        · simp [hRing]
        · simp [SerData.unread, hRead, hIrq]
        · simp [SerData.placed, hHead]
  | fetch =>
    rw [serialFetch_same]
    exact .quiet rfl rfl (.inl rfl) (by simp) rfl
  | store hStore =>
    obtain ⟨hRing, -, hBusy, hArm⟩ := serialStore_same hStore
    exact .quiet hBusy (pushes_after_none hArm ..) (.inl hRing) (by simp) rfl
  | @fire before after e host r hPending _ hFire =>
    rcases serialFire_cases hFire with ⟨hFunc, rfl⟩ | ⟨hFunc, rfl⟩
    · refine .fired { s with pending := before ++ after } rfl ?_ (List.filter_append ..) rfl rfl
        (pushedAt _ s.now host)
      simp [Serial.pushes, hPending, hFunc]
    · refine .quiet rfl ?_ (.inl rfl) (by simp) ?_
      · rw [pushes_after_none (by simp [serialWritedone])]
        simp [Serial.pushes, hPending, hFunc]
      · simp [SerData.placed, serialWritedone]
  | advance => exact .quiet rfl rfl (.inl rfl) (by simp) rfl

/-- The port never rests with a character waiting. -/
structure Serial.Attended (s : Serial) : Prop where
  busy : s.sd.sdRbusy = true → s.pushes ≠ []
  idle : s.pushes = [] → s.sd.ring = []

theorem Serial.Attended.step (hs : s.Attended) (h : Serial.Step s l s') : s'.Attended := by
  cases h.did with
  | quiet hBusy hPushes hRing =>
    constructor
    · rw [hBusy, hPushes]
      exact hs.busy
    · intro hNone
      rw [hPushes] at hNone
      rcases hRing with hRing | hRbusy
      · rw [hRing]
        exact hs.idle hNone
      · exact absurd hNone (hs.busy hRbusy)
  | typed _ _ _ _ hSome _ _ _ hAt =>
    cases hAt with
    | empty hNil => exact absurd hNil hSome
    | heldUp _ _ hPushes => constructor <;> simp [hPushes]
    | deliver _ _ hPushes => constructor <;> simp [hPushes]
  | fired _ _ _ _ _ _ hAt =>
    cases hAt with
    | empty _ hRing hBusy => exact ⟨by simp [hBusy], fun _ => hRing⟩
    | heldUp _ _ hPushes => constructor <;> simp [hPushes]
    | deliver _ _ hPushes => constructor <;> simp [hPushes]

theorem onePush_iff (hs : s.Attended) :
    s.OnePush ↔ s.pushes.length ≤ 1 ∧ (s.sd.sdRbusy = false → s.pushes = []) := by
  have hLength : s.pushes = [] ↔ s.pushes.length = 0 := List.length_eq_zero_iff.symm
  have hBusy := hs.busy
  rw [Ne, hLength] at hBusy
  rw [Serial.OnePush, hLength]
  cases h : s.sd.sdRbusy with
  | true =>
    have hSome := hBusy h
    simp only [true_iff, reduceCtorEq, false_implies, and_true]
    omega
  | false =>
    simp only [Bool.false_eq_true, false_iff, forall_const]
    omega

theorem onePush_step_iff (hs : s.Attended) (hOne : s.OnePush) (h : Serial.Step s l s') :
    s'.OnePush ↔ NoKeyUnread s l s' := by
  have hs' := hs.step h
  rw [onePush_iff hs] at hOne
  rw [onePush_iff hs']
  obtain ⟨hFew, hIdle⟩ := hOne
  cases h.did with
  | quiet hBusy hPushes _ hTyped =>
    rw [hBusy, hPushes]
    refine iff_of_true ⟨hFew, hIdle⟩ ?_
    intro ch ahead hAct hNot
    rcases hTyped ch ahead hAct with hRbusy | hRing
    · simp [hNot] at hRbusy
    · exact absurd (hs.idle (hIdle hNot)) hRing
  | @typed s₁ ch ahead hAct hNot hPushes₁ hSome hIdle₁ hSame _ hAt =>
    have hNone : s.pushes = [] := hIdle hNot
    have hMeets : NoKeyUnread s l s' ↔ ¬ s.sd.unread :=
      ⟨fun hKey => hKey ch ahead hAct hNot, fun hFree _ _ _ _ => hFree⟩
    rw [hMeets, ← hSame]
    cases hAt with
    | empty hNil => exact absurd hNil hSome
    | heldUp hUnread hBusy hPushes =>
      rw [hBusy, hPushes]
      simp [hIdle₁, hUnread]
    | deliver hFree hBusy hPushes =>
      rw [hBusy, hPushes, hPushes₁, hNone]
      simp [hFree]
  | @fired s₁ before after e hAct hBefore hAfter hSame _ hAt =>
    have hMeets : NoKeyUnread s l s' := by
      intro ch ahead hType
      simp [hAct] at hType
    have hBusy : s.sd.sdRbusy = true := by
      by_contra hNot
      have hNone := hIdle (by simpa using hNot)
      simp [hBefore] at hNone
    have hNone : s₁.pushes = [] := by
      rw [hBefore] at hFew
      rw [hAfter]
      simp at hFew ⊢
      exact ⟨List.eq_nil_of_length_eq_zero (by omega), List.eq_nil_of_length_eq_zero (by omega)⟩
    refine iff_of_true ?_ hMeets
    cases hAt with
    | empty _ _ hIdle' hPushes => simp [hPushes, hNone]
    | heldUp _ hBusy' hPushes => simp [hPushes, hNone, hBusy', hSame, hBusy]
    | deliver _ hBusy' hPushes => simp [hPushes, hNone, hBusy']

/-! ### The pace -/

def SerialAct.ahead : SerialAct → BitVec 64
  | .type _ ahead => ahead
  | .advance nsecs => nsecs
  | _ => 0

/-- The clock does not come within the time of a character of its end. -/
def ClockGoesOn (s : Serial) (l : SerialLabel) (_ : Serial) : Prop :=
  s.now.toNat + l.act.ahead.toNat + serialNsecs.toNat + serialNsecs.toNat / 100 < 2 ^ 64

def Apart (t u : BitVec 64) : Prop := t.toNat + serialNsecs.toNat ≤ u.toNat

theorem Apart.trans_le {t u v : BitVec 64} (h : Apart t u) (hLe : u.toNat ≤ v.toNat) : Apart t v :=
  Nat.le_trans h hLe

theorem SerialEvent.Next.apart {e : SerialEvent} {vnow : BitVec 64} (h : e.Next vnow)
    (hClock : vnow.toNat + serialNsecs.toNat + serialNsecs.toNat / 100 < 2 ^ 64) :
    Apart vnow e.vtime := by
  obtain ⟨j, hj, hVtime⟩ := h
  have hDiv : (serialNsecs / 100).toNat = serialNsecs.toNat / 100 := BitVec.toNat_udiv
  rw [BitVec.le_def, hDiv] at hj
  rw [Apart, hVtime, BitVec.toNat_add, BitVec.toNat_add]
  omega

theorem Serial.Step.clock (h : Serial.Step s l s') (hClock : ClockGoesOn s l s') :
    s.now.toNat ≤ l.vnow.toNat ∧ s.now.toNat ≤ s'.now.toNat ∧
      l.vnow.toNat + serialNsecs.toNat + serialNsecs.toNat / 100 < 2 ^ 64 ∧
      ∀ e, l.act = .fire e → e.vtime.toNat ≤ s.now.toNat := by
  unfold ClockGoesOn at hClock
  cases h with
  | type =>
    simp only [SerialAct.ahead] at hClock
    simp only [Serial.after_now, BitVec.toNat_add, reduceCtorEq, false_implies, implies_true, and_true]
    omega
  | fire _ hDue =>
    refine ⟨Nat.le_refl _, Nat.le_refl _, ?_, ?_⟩
    · dsimp only
      omega
    · intro e hAct
      cases hAct
      exact hDue
  | advance =>
    simp only [SerialAct.ahead] at hClock
    simp only [BitVec.toNat_add, reduceCtorEq, false_implies, implies_true, and_true]
    omega
  | fetch =>
    dsimp only
    exact ⟨Nat.le_refl _, Nat.le_refl _, by omega, by simp⟩
  | store =>
    dsimp only
    exact ⟨Nat.le_refl _, Nat.le_refl _, by omega, by simp⟩

theorem placingTimes_concat (p : List (SerialLabel × Serial)) (l : SerialLabel) (s : Serial) :
    placingTimes (p ++ [(l, s)]) = placingTimes p ++ (l.placed.map fun _ => l.vnow).toList := by
  cases h : l.placed <;> simp [placingTimes, h]

/-- The characters so far came one after the other, and the next is a whole character's time
away. -/
structure Paced (times : List (BitVec 64)) (s : Serial) : Prop where
  apart : times.Pairwise Apart
  next : ∀ t ∈ times, ∀ e ∈ s.pushes, Apart t e.vtime
  idle : s.sd.sdRbusy = false → ∀ t ∈ times, Apart t s.now

theorem Paced.pushed {times : List (BitVec 64)} {vnow : BitVec 64} {s₁ : Serial} {e : SerialEvent}
    {placed : Option (BitVec 32)} (hTimes : times.Pairwise Apart)
    (hNow : ∀ t ∈ times, Apart t vnow) (hNext : Apart vnow e.vtime) (hPushes : s₁.pushes = [e])
    (hBusy : s₁.sd.sdRbusy = true) : Paced (times ++ (placed.map fun _ => vnow).toList) s₁ := by
  have hAll : ∀ t ∈ times ++ (placed.map fun _ => vnow).toList, Apart t e.vtime := by
    intro t ht
    rcases List.mem_append.mp ht with hOld | hNew
    · exact (hNow t hOld).trans_le (Nat.le_trans (Nat.le_add_right ..) hNext)
    · obtain ⟨-, -, rfl⟩ : ∃ x, placed = some x ∧ vnow = t := by simpa using hNew
      exact hNext
  constructor
  · rw [List.pairwise_append]
    refine ⟨hTimes, ?_, ?_⟩
    · cases placed <;> simp
    · intro t ht u hu
      obtain ⟨-, -, rfl⟩ : ∃ x, placed = some x ∧ vnow = u := by simpa using hu
      exact hNow t ht
  · simpa [hPushes] using hAll
  · simp [hBusy]

theorem Paced.step {times : List (BitVec 64)} (hPaced : Paced times s) (hs : s.Attended)
    (hOne : s.OnePush) (hKey : NoKeyUnread s l s') (hClock : ClockGoesOn s l s')
    (h : Serial.Step s l s') :
    Paced (times ++ (l.placed.map fun _ => l.vnow).toList) s' := by
  obtain ⟨hTimes, hNext, hIdle⟩ := hPaced
  obtain ⟨hAhead, hLater, hEnd, hDue⟩ := h.clock hClock
  obtain ⟨hFew, hNone⟩ := (onePush_iff hs).mp hOne
  cases h.did with
  | quiet hBusy hPushes _ _ hPlaced =>
    rw [hPlaced, Option.map_none, Option.toList_none, List.append_nil]
    refine ⟨hTimes, ?_, ?_⟩
    · rwa [hPushes]
    · rw [hBusy]
      exact fun hNot t ht => (hIdle hNot t ht).trans_le hLater
  | @typed s₁ ch ahead hAct hNot hPushes₁ hSome hIdle₁ hSame hPlaced hAt =>
    have hFree := hKey ch ahead hAct hNot
    cases hAt with
    | empty hNil => exact absurd hNil hSome
    | heldUp hUnread => exact absurd (hSame.mp hUnread) hFree
    | deliver _ hBusy hPushes hArmed =>
      rw [hPushes₁, hNone hNot, List.nil_append] at hPushes
      apply Paced.pushed hTimes ?_ (hArmed.apart hEnd) hPushes hBusy
      exact fun t ht => (hIdle hNot t ht).trans_le hAhead
  | @fired s₁ before after e hAct hBefore hAfter hSame hPlaced hAt =>
    have hBusy : s.sd.sdRbusy = true := by
      by_contra hNot
      have hNil := hNone (by simpa using hNot)
      simp [hBefore] at hNil
    have hNil : s₁.pushes = [] := by
      rw [hBefore, List.length_append, List.length_cons] at hFew
      rw [hAfter, ← List.length_eq_zero_iff, List.length_append]
      omega
    have hOld : ∀ t ∈ times, Apart t s.now := fun t ht =>
      (hNext t ht e (by simp [hBefore])).trans_le (hDue e hAct)
    have hNow : ∀ t ∈ times, Apart t l.vnow := fun t ht => (hOld t ht).trans_le hAhead
    cases hAt with
    | empty _ _ _ hPushes hStays =>
      rw [← hPlaced, hStays, Option.map_none, Option.toList_none, List.append_nil]
      refine ⟨hTimes, ?_, ?_⟩
      · simp [hPushes, hNil]
      · exact fun _ t ht => (hOld t ht).trans_le hLater
    | heldUp _ hBusy' hPushes hArmed =>
      rw [hNil, List.nil_append] at hPushes
      rw [hSame, hBusy] at hBusy'
      exact Paced.pushed hTimes hNow (hArmed.apart hEnd) hPushes hBusy'
    | deliver _ hBusy' hPushes hArmed =>
      rw [hNil, List.nil_append] at hPushes
      exact Paced.pushed hTimes hNow (hArmed.apart hEnd) hPushes hBusy'

theorem Serial.start_attended (inbuf : Fin 512 → BitVec 8) (now : BitVec 64) :
    (Serial.start inbuf now).Attended where
  busy h := by simp [Serial.start, serialInit] at h
  idle _ := by simp [SerData.ring, Serial.start, serialInit]

theorem Serial.start_onePush (inbuf : Fin 512 → BitVec 8) (now : BitVec 64) :
    (Serial.start inbuf now).OnePush := by
  simp [Serial.OnePush, Serial.pushes, Serial.start, serialInit]

theorem paced_of_run {inbuf : Fin 512 → BitVec 8} {now : BitVec 64}
    (hRun : Path Serial.Step (Serial.start inbuf now) p s)
    (hKeys : AllSteps NoKeyUnread (Serial.start inbuf now) p)
    (hClock : AllSteps ClockGoesOn (Serial.start inbuf now) p) : Paced (placingTimes p) s := by
  have hRest : AllSteps NoKeyUnread (Serial.start inbuf now) p →
      AllSteps ClockGoesOn (Serial.start inbuf now) p →
      s.Attended ∧ s.OnePush ∧ Paced (placingTimes p) s := by
    refine hRun.invariant_history (P := fun p s => AllSteps NoKeyUnread _ p →
      AllSteps ClockGoesOn _ p → s.Attended ∧ s.OnePush ∧ Paced (placingTimes p) s) ?_ ?_
    · intro _ _
      refine ⟨Serial.start_attended .., Serial.start_onePush .., ?_⟩
      constructor <;> simp [placingTimes]
    · intro p s l s' hPath hs hStep hKeys hClock
      rw [hPath.allSteps_append_iff] at hKeys hClock
      obtain ⟨hAttended, hOne, hPaced⟩ := hs hKeys.1 hClock.1
      have hPaced' := hPaced.step hAttended hOne hKeys.2.1 hClock.2.1 hStep
      rw [← placingTimes_concat p l s'] at hPaced'
      exact ⟨hAttended.step hStep, (onePush_step_iff hAttended hOne hStep).mpr hKeys.2.1, hPaced'⟩
  exact (hRest hKeys hClock).2.2

/-- The busy flag says that one event is pending in all states of a run just where no key came to
an idle port with an unread character; the characters then keep their distance. -/
theorem serial_input_paced {inbuf : Fin 512 → BitVec 8} {now : BitVec 64}
    (hRun : Path Serial.Step (Serial.start inbuf now) p s) :
    (AllStates Serial.OnePush (Serial.start inbuf now) p ↔
        AllSteps NoKeyUnread (Serial.start inbuf now) p) ∧
      (AllSteps NoKeyUnread (Serial.start inbuf now) p →
        AllSteps ClockGoesOn (Serial.start inbuf now) p → (placingTimes p).Pairwise Apart) := by
  constructor
  · apply hRun.allStates_iff_allSteps (Q := Serial.Attended)
    · exact fun s l s' hs hStep => hs.step hStep
    · exact fun s l s' hs hOne hStep => onePush_step_iff hs hOne hStep
    · exact Serial.start_attended ..
    · exact Serial.start_onePush ..
  · exact fun hKeys hClock => (paced_of_run hRun hKeys hClock).apart

theorem not_serial_input_paced : ∃ p s, Path Serial.Step (Serial.start (fun _ => 0) 0) p s ∧
    ¬ AllStates Serial.OnePush (Serial.start (fun _ => 0) 0) p ∧
    ¬ (placingTimes p).Pairwise Apart := by
  obtain ⟨p, s, hRun, -, hTimes, hPending⟩ := keys_while_unread
  refine ⟨p, s, hRun, ?_, ?_⟩
  · intro hStates
    have hFew : s.pushes.length ≤ 1 := (hRun.last_state hStates).2
    have hTwo : s.pushes.length = 2 := by
      rw [Serial.pushes, ← List.countP_eq_length_filter]
      have hCount := congrArg (List.countP (· = .serialPushinput)) hPending
      rw [List.countP_map] at hCount
      exact hCount
    omega
  · rw [hTimes]
    simp [Apart]
    decide

/-- The guest reads before the second key. -/
theorem key_after_read : ∃ p s, Path Serial.Step (Serial.start (fun _ => 0) 0) p s ∧
    placings p = [97, 98] ∧ AllSteps NoKeyUnread (Serial.start (fun _ => 0) 0) p ∧
    AllSteps ClockGoesOn (Serial.start (fun _ => 0) 0) p := by
  refine ⟨_, _, .cons (@Serial.Step.type _ 97 0 stillHost _ _ rfl)
    (.cons (@Serial.Step.advance _ serialNsecs)
    (.cons (@Serial.Step.fire _ [] [] _ stillHost _ rfl (by decide) rfl)
    (.cons (@Serial.Step.fetch _ 0)
    (.cons (@Serial.Step.type _ 98 0 stillHost _ _ rfl) (.nil _))))), rfl, ?_, ?_⟩
  · refine ⟨?_, ?_, ?_, ?_, ?_, trivial⟩
    · exact fun _ _ _ _ hUnread => nomatch hUnread.1
    · exact fun _ _ hAct => nomatch hAct
    · exact fun _ _ hAct => nomatch hAct
    · exact fun _ _ hAct => nomatch hAct
    · exact fun _ _ _ _ hUnread => nomatch hUnread.1
  · refine ⟨?_, ?_, ?_, ?_, ?_, trivial⟩
    all_goals
      unfold ClockGoesOn
      decide

theorem serial_input_paced_read : ∃ p s, Path Serial.Step (Serial.start (fun _ => 0) 0) p s ∧
    placings p = [97, 98] ∧ AllStates Serial.OnePush (Serial.start (fun _ => 0) 0) p ∧
    (placingTimes p).Pairwise Apart := by
  obtain ⟨p, s, hRun, hPlaced, hKeys, hClock⟩ := key_after_read
  obtain ⟨hOne, hApart⟩ := serial_input_paced hRun
  exact ⟨p, s, hRun, hPlaced, hOne.mpr hKeys, hApart hKeys hClock⟩

end Pacing

end Sys161.Bus
