import Sys161.Clock.Queue
import Sys161.Lib.Runs

/-!
# The wall clock shown to the guest

`clock_time` adds two offsets to virtual time. The nanosecond offset is an
unsigned word that stands for a signed correction, so the phase of the displayed
second, offset plus sub-second part, can leave the range of a second on either
side.
-/

namespace Sys161.Clock.WallClock

open Runs

set_option autoImplicit false

variable {φ δ : Type}

def clockTime (s : State φ δ) : BitVec 32 × BitVec 32 :=
  let now := clockVnow s
  let secs : BitVec 32 := (s.startSecs.setWidth 64 + now / nsecsPerSec).setWidth 32
  let nsecs : BitVec 32 := (s.startNsecs.setWidth 64 + now % nsecsPerSec).setWidth 32
  if nsecs.setWidth 64 > nsecsPerSec then
    (secs + 1, (nsecs.setWidth 64 - nsecsPerSec).setWidth 32)
  else (secs, nsecs)

theorem clockTime_sameClock {s s' : State φ δ} (h : SameClock s s') :
    clockTime s' = clockTime s := by
  simp only [clockTime, h.clockVnow, h.startSecs, h.startNsecs]

def clockSetsecs (s : State φ δ) (newsecs : BitVec 32) : State φ δ :=
  let now := clockVnow s
  let oldsecs : BitVec 32 := (s.startSecs.setWidth 64 + now / nsecsPerSec).setWidth 32
  let offset := newsecs - oldsecs
  { s with startSecs := s.startSecs + offset }

def clockSetnsecs (s : State φ δ) (newnsecs : BitVec 32) : State φ δ :=
  let now := clockVnow s
  let oldnsecs : BitVec 32 := (s.startNsecs.setWidth 64 + now % nsecsPerSec).setWidth 32
  let offset := newnsecs - oldnsecs
  { s with startNsecs := s.startNsecs + offset }

inductive Label where
  | setsecs (v : BitVec 32)
  | setnsecs (v : BitVec 32)
  | advance (nsecs : BitVec 64)

/-- The guest writes TSEC or TNSEC, or virtual time moves on while anything else happens. -/
inductive Step : State φ δ → Label → State φ δ → Prop where
  | setsecs {s : State φ δ} {v : BitVec 32} : Step s (.setsecs v) (clockSetsecs s v)
  | setnsecs {s : State φ δ} {v : BitVec 32} : v.toNat < 1000000000 →
      Step s (.setnsecs v) (clockSetnsecs s v)
  | advance {s s' : State φ δ} {nsecs : BitVec 64} : clockVnow s' = clockVnow s + nsecs →
      s'.startSecs = s.startSecs → s'.startNsecs = s.startNsecs → Step s (.advance nsecs) s'

/-- The pair read as nanoseconds, modulo 2^32 seconds. -/
def reading (s : State φ δ) : Nat :=
  ((clockTime s).1.toNat * 1000000000 + (clockTime s).2.toNat) % 4294967296000000000

def ReadOk (s : State φ δ) : Prop := (clockTime s).2.toNat < 1000000000

def StepOk (s : State φ δ) (l : Label) (s' : State φ δ) : Prop :=
  match l with
  | .setsecs v => (clockTime s').1 = v
  | .setnsecs v => (clockTime s').2 = v
  | .advance nsecs => reading s' = (reading s + nsecs.toNat) % 4294967296000000000

/-- The signed nanosecond offset plus the sub-second part of the time `now`. -/
def phase (s : State φ δ) (now : Nat) : Int :=
  s.startNsecs.toInt + (now % 1000000000 : Nat)

/-- TSEC is written only while no carry is pending, and time moves on only to where the
displayed second is neither before its start nor exactly at its end. -/
def Meets (s : State φ δ) (l : Label) (_ : State φ δ) : Prop :=
  match l with
  | .setsecs _ => phase s (clockVnow s).toNat < 1000000000
  | .setnsecs _ => True
  | .advance nsecs =>
    (clockVnow s).toNat + nsecs.toNat < 2 ^ 64 ∧
      0 ≤ phase s ((clockVnow s).toNat + nsecs.toNat) ∧
      phase s ((clockVnow s).toNat + nsecs.toNat) ≠ 1000000000

/-- The offset word stands for a correction of less than a second. -/
def OffsetOk (s : State φ δ) : Prop :=
  s.startNsecs.toNat < 1000000000 ∨ 2 ^ 32 - 1000000000 < s.startNsecs.toNat

theorem clockTime_toNat (s : State φ δ) :
    let raw := (s.startNsecs.toNat + (clockVnow s).toNat % 1000000000) % 2 ^ 32
    let secs := (s.startSecs.toNat + (clockVnow s).toNat / 1000000000) % 2 ^ 32
    (1000000000 < raw ∧ (clockTime s).1.toNat = (secs + 1) % 2 ^ 32 ∧
        (clockTime s).2.toNat = raw - 1000000000) ∨
      (raw ≤ 1000000000 ∧ (clockTime s).1.toNat = secs ∧ (clockTime s).2.toNat = raw) := by
  intro raw secs
  have hNow := (clockVnow s).isLt
  have hStart := s.startSecs.isLt
  have hOffset := s.startNsecs.isLt
  have hRaw : (BitVec.setWidth 32
      (s.startNsecs.setWidth 64 + clockVnow s % nsecsPerSec)).toNat = raw := by
    simp only [nsecsPerSec_toNat, BitVec.toNat_setWidth, BitVec.toNat_add, BitVec.toNat_umod]
    omega
  have hSecs : (BitVec.setWidth 32
      (s.startSecs.setWidth 64 + clockVnow s / nsecsPerSec)).toNat = secs := by
    simp only [nsecsPerSec_toNat, BitVec.toNat_setWidth, BitVec.toNat_add, BitVec.toNat_udiv]
    omega
  rw [clockTime]
  generalize BitVec.setWidth 32 (s.startNsecs.setWidth 64 + clockVnow s % nsecsPerSec) = r at hRaw ⊢
  generalize BitVec.setWidth 32 (s.startSecs.setWidth 64 + clockVnow s / nsecsPerSec) = q at hSecs ⊢
  have hr := r.isLt
  have hCarry : r.setWidth 64 > nsecsPerSec ↔ 1000000000 < raw := by
    simp only [gt_iff_lt, BitVec.lt_def, nsecsPerSec_toNat, BitVec.toNat_setWidth]
    omega
  by_cases h : 1000000000 < raw
  · left
    simp only [if_pos (hCarry.mpr h)]
    refine ⟨h, ?_, ?_⟩
    · rw [BitVec.toNat_add, hSecs]
      rfl
    · simp only [nsecsPerSec_toNat, BitVec.toNat_setWidth, BitVec.toNat_sub]
      omega
  · right
    simp only [if_neg (fun hc => h (hCarry.mp hc))]
    exact ⟨by omega, hSecs, hRaw⟩

/-- With the phase inside a second, on either side of the carry, the clock reads the time. -/
theorem reading_of_phase {s : State φ δ} (hOffset : OffsetOk s)
    (hNonneg : 0 ≤ phase s (clockVnow s).toNat) :
    (reading s : Int) =
      (s.startSecs.toNat * 1000000000 + s.startNsecs.toInt + (clockVnow s).toNat) %
        4294967296000000000 := by
  have hNow := (clockVnow s).isLt
  have hSecs := s.startSecs.isLt
  have hInt := s.startNsecs.toInt_eq_toNat_cond
  have hRead := clockTime_toNat s
  rw [phase] at hNonneg
  rw [reading]
  rcases hOffset with h | h
  all_goals
    rw [hInt] at hNonneg ⊢
    split at hNonneg <;> rename_i hHalf <;> simp only [hHalf, if_true, if_false] <;>
    rcases hRead with ⟨hCarry, h₁, h₂⟩ | ⟨hCarry, h₁, h₂⟩ <;> rw [h₁, h₂] <;> omega

theorem readOk_iff_phase {s : State φ δ} (hOffset : OffsetOk s) :
    ReadOk s ↔ 0 ≤ phase s (clockVnow s).toNat ∧ phase s (clockVnow s).toNat ≠ 1000000000 := by
  have hInt := s.startNsecs.toInt_eq_toNat_cond
  have hRead := clockTime_toNat s
  rw [phase, ReadOk, hInt]
  rcases hOffset with h | h <;> split <;> rcases hRead with ⟨hCarry, -, h₂⟩ | ⟨hCarry, -, h₂⟩ <;>
    rw [h₂] <;> omega

/-- The seconds read are those of the offset plus the carry of the phase. -/
theorem clockTime_secs {s : State φ δ} (hOffset : OffsetOk s) (hRead : ReadOk s) :
    (clockTime s).1.toNat = (s.startSecs.toNat + (clockVnow s).toNat / 1000000000 +
      if phase s (clockVnow s).toNat < 1000000000 then 0 else 1) % 2 ^ 32 := by
  obtain ⟨hNonneg, hNe⟩ := (readOk_iff_phase hOffset).mp hRead
  have hInt := s.startNsecs.toInt_eq_toNat_cond
  have hTime := clockTime_toNat s
  rw [phase, hInt] at hNonneg hNe ⊢
  rcases hOffset with h | h <;> split at hNonneg <;> rename_i hHalf <;>
    simp only [hHalf, if_true, if_false] at hNe ⊢ <;> split <;>
    rcases hTime with ⟨hCarry, h₁, -⟩ | ⟨hCarry, h₁, -⟩ <;> rw [h₁] <;> omega

theorem clockSetsecs_startSecs (s : State φ δ) (v : BitVec 32) :
    (clockSetsecs s v).startSecs.toNat =
      (v.toNat + 2 ^ 64 - (clockVnow s).toNat / 1000000000) % 2 ^ 32 := by
  have hNow := (clockVnow s).isLt
  have hSecs := s.startSecs.isLt
  simp only [clockSetsecs, BitVec.toNat_add, BitVec.toNat_sub, BitVec.toNat_setWidth,
    BitVec.toNat_udiv, nsecsPerSec_toNat]
  omega

theorem clockSetnsecs_startNsecs (s : State φ δ) (v : BitVec 32) :
    (clockSetnsecs s v).startNsecs.toNat =
      (v.toNat + 2 ^ 32 - (clockVnow s).toNat % 1000000000) % 2 ^ 32 := by
  have hNow := (clockVnow s).isLt
  have hNsecs := s.startNsecs.isLt
  simp only [clockSetnsecs, BitVec.toNat_add, BitVec.toNat_sub, BitVec.toNat_setWidth,
    BitVec.toNat_umod, nsecsPerSec_toNat]
  omega

theorem clockSetsecs_vnow (s : State φ δ) (v : BitVec 32) :
    clockVnow (clockSetsecs s v) = clockVnow s := by
  simp only [clockVnow, clockSetsecs]

theorem clockSetnsecs_vnow (s : State φ δ) (v : BitVec 32) :
    clockVnow (clockSetnsecs s v) = clockVnow s := by
  simp only [clockVnow, clockSetnsecs]

/-! ## What each step does to a good clock -/

theorem OffsetOk.step {s s' : State φ δ} {l : Label} (h : OffsetOk s) (hStep : Step s l s') :
    OffsetOk s' := by
  cases hStep with
  | setsecs => exact h
  | @setnsecs v hv =>
    rw [OffsetOk, clockSetnsecs_startNsecs]
    omega
  | advance _ _ hNsecs =>
    rw [OffsetOk, hNsecs]
    exact h

theorem setsecs_good_iff {s : State φ δ} (hOffset : OffsetOk s) (hRead : ReadOk s)
    (v : BitVec 32) :
    ReadOk (clockSetsecs s v) ∧ (clockTime (clockSetsecs s v)).1 = v ↔
      phase s (clockVnow s).toNat < 1000000000 := by
  have hPhase : ∀ now, phase (clockSetsecs s v) now = phase s now := fun _ => rfl
  have hOffset' : OffsetOk (clockSetsecs s v) := hOffset
  have hRead' : ReadOk (clockSetsecs s v) := by
    rw [readOk_iff_phase hOffset', clockSetsecs_vnow, hPhase, ← readOk_iff_phase hOffset]
    exact hRead
  have hSecs := clockTime_secs hOffset' hRead'
  rw [clockSetsecs_vnow, hPhase, clockSetsecs_startSecs] at hSecs
  have hv := v.isLt
  have hNow := (clockVnow s).isLt
  constructor
  · rintro ⟨-, hEq⟩
    rw [hEq] at hSecs
    split at hSecs
    · assumption
    · omega
  · intro h
    rw [if_pos h] at hSecs
    refine ⟨hRead', BitVec.eq_of_toNat_eq ?_⟩
    omega

theorem setnsecs_good {s : State φ δ} {v : BitVec 32} (hv : v.toNat < 1000000000) :
    ReadOk (clockSetnsecs s v) ∧ (clockTime (clockSetnsecs s v)).2 = v := by
  have hTime := clockTime_toNat (clockSetnsecs s v)
  rw [clockSetnsecs_startNsecs, clockSetnsecs_vnow] at hTime
  have hNow := (clockVnow s).isLt
  have hEq : (clockTime (clockSetnsecs s v)).2.toNat = v.toNat := by
    rcases hTime with ⟨hCarry, -, h₂⟩ | ⟨hCarry, -, h₂⟩ <;> rw [h₂] <;> omega
  constructor
  · rw [ReadOk, hEq]
    exact hv
  · exact BitVec.eq_of_toNat_eq hEq

/-- A clock that wraps around does not show the elapsed time. -/
theorem no_wrap {x : Int} {now nsecs : Nat} (hNow : now < 2 ^ 64) (hNsecs : nsecs < 2 ^ 64)
    (h : (x + ((now + nsecs) % 2 ^ 64 : Nat)) % 4294967296000000000 =
      (x + now + nsecs) % 4294967296000000000) : now + nsecs < 2 ^ 64 := by
  by_contra hWrap
  obtain ⟨k, hk⟩ : ∃ k, now + nsecs = k + 2 ^ 64 := Nat.exists_eq_add_of_le' (not_lt.mp hWrap)
  have hSum : x + now + nsecs = x + k + 2 ^ 64 := by
    rw [add_assoc, ← Nat.cast_add, hk]
    push_cast
    exact (add_assoc _ _ _).symm
  have hLt : k < 2 ^ 64 := by
    clear h hSum
    omega
  rw [hk, Nat.add_mod_right, Nat.mod_eq_of_lt hLt, hSum] at h
  have hDiff := Int.emod_eq_emod_iff_emod_sub_eq_zero.mp h.symm
  rw [add_sub_cancel_left] at hDiff
  exact absurd hDiff (by decide)

theorem advance_good_iff {s s' : State φ δ} {nsecs : BitVec 64} (hOffset : OffsetOk s)
    (hRead : ReadOk s) (hNow : clockVnow s' = clockVnow s + nsecs)
    (hSecs : s'.startSecs = s.startSecs) (hNsecs : s'.startNsecs = s.startNsecs) :
    ReadOk s' ∧ reading s' = (reading s + nsecs.toNat) % 4294967296000000000 ↔
      (clockVnow s).toNat + nsecs.toNat < 2 ^ 64 ∧
        0 ≤ phase s ((clockVnow s).toNat + nsecs.toNat) ∧
        phase s ((clockVnow s).toNat + nsecs.toNat) ≠ 1000000000 := by
  have hOffset' : OffsetOk s' := by
    rw [OffsetOk, hNsecs]
    exact hOffset
  have hPhase : ∀ now, phase s' now = phase s now := fun now => by rw [phase, hNsecs, phase]
  have hReading := reading_of_phase hOffset ((readOk_iff_phase hOffset).mp hRead).1
  have hNow' : (clockVnow s').toNat = ((clockVnow s).toNat + nsecs.toNat) % 2 ^ 64 := by
    rw [hNow, BitVec.toNat_add]
  have hShift : (((reading s + nsecs.toNat) % 4294967296000000000 : Nat) : Int) =
      (s.startSecs.toNat * 1000000000 + s.startNsecs.toInt + (clockVnow s).toNat + nsecs.toNat) %
        4294967296000000000 := by
    push_cast
    rw [hReading, Int.emod_add_emod]
  have hReading' (hNonneg : 0 ≤ phase s (clockVnow s').toNat) :=
    reading_of_phase hOffset' (by rwa [hPhase])
  rw [hSecs, hNsecs, hNow'] at hReading'
  constructor
  · rintro ⟨hRead', hEq⟩
    obtain ⟨hNonneg, hNe⟩ := (readOk_iff_phase hOffset').mp hRead'
    rw [hPhase, hNow'] at hNonneg hNe
    have hTime := hReading' hNonneg
    rw [hEq, hShift] at hTime
    have hWrap := no_wrap (clockVnow s).isLt nsecs.isLt hTime.symm
    rw [Nat.mod_eq_of_lt hWrap] at hNonneg hNe
    exact ⟨hWrap, hNonneg, hNe⟩
  · rintro ⟨hWrap, hNonneg, hNe⟩
    rw [Nat.mod_eq_of_lt hWrap] at hReading' hNow'
    constructor
    · rw [readOk_iff_phase hOffset', hPhase, hNow']
      exact ⟨hNonneg, hNe⟩
    · apply Int.ofNat.inj
      rw [Int.ofNat_eq_natCast, Int.ofNat_eq_natCast, hShift, hReading' hNonneg, Nat.cast_add,
        add_assoc _ (((clockVnow s).toNat : Int))]

/-- From a good clock, a step is good exactly when it meets the condition. -/
theorem step_good_iff {s s' : State φ δ} {l : Label} (hOffset : OffsetOk s) (hRead : ReadOk s)
    (hStep : Step s l s') : ReadOk s' ∧ StepOk s l s' ↔ Meets s l s' := by
  cases hStep with
  | setsecs => exact setsecs_good_iff hOffset hRead _
  | setnsecs hv => exact iff_of_true (setnsecs_good hv) trivial
  | advance hNow hSecs hNsecs => exact advance_good_iff hOffset hRead hNow hSecs hNsecs

theorem clockInit_startNsecs (tvSec : BitVec 32) (offset : BitVec 64) :
    (clockInit tvSec offset : State φ δ).startNsecs = 0 :=
  (acallocInit_sameClock (clockCoreinit zeroed tvSec)).startNsecs

theorem clockInit_readOk (tvSec : BitVec 32) (offset : BitVec 64) :
    OffsetOk (clockInit tvSec offset : State φ δ) ∧ ReadOk (clockInit tvSec offset : State φ δ) := by
  have hOffset : OffsetOk (clockInit tvSec offset : State φ δ) := by
    rw [OffsetOk, clockInit_startNsecs]
    decide
  refine ⟨hOffset, (readOk_iff_phase hOffset).mpr ?_⟩
  rw [phase, clockInit_startNsecs]
  have hZero : (0 : BitVec 32).toInt = 0 := by decide
  rw [hZero]
  omega

/-- The readings of a run from start-up, and what they show of each step, are those of a clock
exactly when every step meets the condition. -/
theorem wall_clock_good_iff {tvSec : BitVec 32} {offset : BitVec 64}
    {p : List (Label × State φ δ)} {t : State φ δ} (h : Path Step (clockInit tvSec offset) p t) :
    AllStates ReadOk (clockInit tvSec offset) p ∧ AllSteps StepOk (clockInit tvSec offset) p ↔
      AllSteps Meets (clockInit tvSec offset) p := by
  have hInit : OffsetOk (clockInit tvSec offset : State φ δ) ∧
      ReadOk (clockInit tvSec offset : State φ δ) := clockInit_readOk tvSec offset
  exact h.good_iff_allSteps (fun _ _ _ hOk hStep => OffsetOk.step hOk hStep)
    (fun _ _ _ hOk hRead hStep => step_good_iff hOk hRead hStep) hInit.1 hInit.2

theorem clockInit_vnow (tvSec : BitVec 32) (offset : BitVec 64) :
    clockVnow (clockInit tvSec offset : State φ δ) = offset % 10000000 := by
  have h := acallocInit_sameClock (clockCoreinit (zeroed : State φ δ) tvSec)
  rw [clockInit]
  generalize acallocInit (clockCoreinit (zeroed : State φ δ) tvSec) = s at h ⊢
  simp only [clockVnow, clockVadvance, h.virtualNow, h.cpuCyclesCount, h.extraSelecttime]
  simp [clockCoreinit, zeroed]

/-- The nanosecond word is set and time moves on by `nsecs`. -/
def setThenAdvance (s : State φ δ) (v : BitVec 32) (nsecs : BitVec 64) :
    List (Label × State φ δ) :=
  [(.setnsecs v, clockSetnsecs s v), (.advance nsecs, clockVadvance (clockSetnsecs s v) nsecs)]

theorem setThenAdvance_path (s : State φ δ) {v : BitVec 32} (hv : v.toNat < 1000000000)
    (nsecs : BitVec 64) :
    Path Step s (setThenAdvance s v nsecs) (clockVadvance (clockSetnsecs s v) nsecs) :=
  Path.cons (Step.setnsecs hv) (Path.cons
    (Step.advance (clockVnow_clockVadvance _ _) (clockVadvance_startSecs _ _)
      (clockVadvance_startNsecs _ _)) (Path.nil _))

theorem setThenAdvance_phase {v : BitVec 32} (hv : v.toNat < 1000000000) (now : Nat) :
    phase (clockSetnsecs (clockInit 0 0 : State Unit Unit) v) now =
      v.toNat + (now % 1000000000 : Nat) := by
  have hInt := (clockSetnsecs (clockInit 0 0 : State Unit Unit) v).startNsecs.toInt_eq_toNat_cond
  rw [clockSetnsecs_startNsecs, clockInit_vnow] at hInt
  have hZero : ((0 : BitVec 64) % 10000000).toNat = 0 := by decide
  rw [hZero] at hInt
  rw [phase, hInt]
  split <;> omega

/-- Forty nanoseconds before the end of a second, one cpu clock later the guest reads a full
second of nanoseconds. -/
theorem wall_clock_reads_full_second :
    ¬ ∀ (tvSec : BitVec 32) (offset : BitVec 64) (p : List (Label × State Unit Unit))
      (t : State Unit Unit), Path Step (clockInit tvSec offset) p t →
        AllStates ReadOk (clockInit tvSec offset) p ∧
          AllSteps StepOk (clockInit tvSec offset) p := by
  intro hClaim
  have hv : (999999960 : BitVec 32).toNat < 1000000000 := by decide
  have hPath := setThenAdvance_path (clockInit 0 0 : State Unit Unit) hv 40
  obtain ⟨hStates, -⟩ := hClaim _ _ _ _ hPath
  have hRead := hPath.last_state hStates
  have hSet : OffsetOk (clockSetnsecs (clockInit 0 0 : State Unit Unit) 999999960) :=
    OffsetOk.step (clockInit_readOk 0 0).1 (Step.setnsecs hv)
  have hOffset : OffsetOk (clockVadvance (clockSetnsecs (clockInit 0 0 : State Unit Unit)
      999999960) 40) := hSet
  have hNow : (clockVnow (clockVadvance (clockSetnsecs (clockInit 0 0 : State Unit Unit)
      999999960) 40)).toNat = 40 := by
    rw [clockVnow_clockVadvance, clockSetnsecs_vnow, clockInit_vnow]
    decide
  obtain ⟨-, hNe⟩ := (readOk_iff_phase hOffset).mp hRead
  rw [hNow] at hNe
  apply hNe
  change phase (clockSetnsecs (clockInit 0 0 : State Unit Unit) 999999960) 40 = 1000000000
  rw [setThenAdvance_phase hv]
  decide

/-- Set at the start of a second, the clock is right one cpu clock later. -/
theorem wall_clock_good_run :
    AllStates ReadOk (clockInit 0 0) (setThenAdvance (clockInit 0 0 : State Unit Unit) 5 40) ∧
      AllSteps StepOk (clockInit 0 0) (setThenAdvance (clockInit 0 0 : State Unit Unit) 5 40) := by
  have hv : (5 : BitVec 32).toNat < 1000000000 := by decide
  apply (wall_clock_good_iff (setThenAdvance_path (clockInit 0 0 : State Unit Unit) hv 40)).mpr
  simp only [setThenAdvance, allSteps_cons, allSteps_nil, Meets, setThenAdvance_phase hv,
    clockSetnsecs_vnow, clockInit_vnow]
  decide

end Sys161.Clock.WallClock
