import Mathlib.Data.List.GetD
import Sys161.Bus.Disk
import Sys161.Clock.WallClock
import Sys161.Lib.Loops

/-!
# Rotational delays

The delays of `disk_work` against the readings of the clock they are computed
from. A write looks only at the nanoseconds of one reading. A read compares two
readings, of the time the head came to the track and of the present, and the
guest can set the clock in between.
-/

namespace Sys161.Bus

open Loops Clock WallClock

set_option autoImplicit false

/-! ## Speeds -/

/-- The `rpm=` that `disk_init` does not die of. -/
def RpmOk (rpm : BitVec 32) : Prop := ¬ rpm < 60 ∧ rpm % 60 = 0

def nsecsPerRev (rpm : BitVec 32) : BitVec 32 := 1000000000 / (rpm / 60)

theorem nsecsPerRev_toNat (rpm : BitVec 32) :
    (nsecsPerRev rpm).toNat = 1000000000 / (rpm.toNat / 60) := by
  rw [nsecsPerRev, BitVec.toNat_udiv, BitVec.toNat_udiv]
  rfl

theorem nsecsPerRev_bounds {rpm : BitVec 32} (h : RpmOk rpm) :
    0 < (nsecsPerRev rpm).toNat ∧ (nsecsPerRev rpm).toNat ≤ 1000000000 := by
  have hLow : 60 ≤ rpm.toNat := by
    have hNot := h.1
    rw [BitVec.lt_def] at hNot
    exact Nat.not_lt.mp hNot
  have hHigh := rpm.isLt
  rw [nsecsPerRev_toNat]
  constructor
  · exact Nat.div_pos (by omega) (by omega)
  · exact Nat.div_le_self _ _

/-- The nanoseconds of a reading: a word, less a second where it is over one. -/
theorem clockTime_nsecs {φ δ : Type} (s : State φ δ) : (clockTime s).2.toNat ≤ 3294967295 := by
  rcases clockTime_toNat s with ⟨hCarry, -, hNsecs⟩ | ⟨hNoCarry, -, hNsecs⟩
  · have hLt := Nat.mod_lt (s.startNsecs.toNat + (clockVnow s).toNat % 1000000000)
      (Nat.two_pow_pos 32)
    omega
  · omega

/-! ## The loops -/

/-- Where the loop of `stepUp` ends. -/
theorem stepUp_toNat {bound step : BitVec 32} (hStep : 0 < step.toNat)
    (hRoom : bound.toNat + step.toNat ≤ 2 ^ 32) (fuel : Nat) {t : BitVec 32}
    (hFuel : bound.toNat ≤ t.toNat + fuel) :
    (stepUp bound step fuel t).toNat = firstFrom t.toNat step.toNat bound.toNat := by
  induction fuel generalizing t with
  | zero =>
    rw [Nat.add_zero] at hFuel
    rw [stepUp, firstFrom_of_le hStep hFuel]
  | succ fuel ih =>
    rw [stepUp]
    by_cases hMore : t < bound
    · have hNext := add_toNat hRoom hMore
      rw [if_pos hMore, ih (by omega), hNext, ← firstFrom_of_lt hStep (BitVec.lt_def.mp hMore)]
    · rw [if_neg hMore]
      rw [BitVec.lt_def, Nat.not_lt] at hMore
      rw [firstFrom_of_le hStep hMore]

/-- `stepUp` and `carrySecs` take turns of the two loops until there is none. -/
theorem stepUp_reaches (bound step : BitVec 32) (fuel : Nat) (t : BitVec 32) :
    Relation.ReflTransGen (UpTurn bound step) t (stepUp bound step fuel t) := by
  induction fuel generalizing t with
  | zero => exact .refl
  | succ fuel ih =>
    rw [stepUp]
    split
    · next hMore => exact .head ⟨hMore, rfl⟩ (ih _)
    · exact .refl

theorem carrySecs_reaches (fuel : Nat) (secs nsecs : BitVec 32) :
    Relation.ReflTransGen (CarryTurn 1000000000) (secs, nsecs) (carrySecs fuel secs nsecs) := by
  induction fuel generalizing secs nsecs with
  | zero => exact .refl
  | succ fuel ih =>
    rw [carrySecs]
    split
    · next hMore => exact .head ⟨hMore, rfl⟩ (ih _ _)
    · exact .refl

theorem carrySecs_eq (fuel : Nat) (secs nsecs : BitVec 32)
    (hFuel : nsecs.toNat < 1000000000 * (fuel + 1))
    (hFits : secs.toNat + nsecs.toNat / 1000000000 < 2 ^ 32) :
    (carrySecs fuel secs nsecs).1.toNat = secs.toNat + nsecs.toNat / 1000000000 ∧
      (carrySecs fuel secs nsecs).2.toNat = nsecs.toNat % 1000000000 := by
  induction fuel generalizing secs nsecs with
  | zero =>
    rw [carrySecs]
    constructor
    · dsimp only
      omega
    · dsimp only
      omega
  | succ fuel ih =>
    rw [carrySecs]
    split
    · next hMore =>
      have hLe : 1000000000 ≤ nsecs.toNat := BitVec.le_def.mp hMore
      have hSub : (nsecs - 1000000000).toNat = nsecs.toNat - 1000000000 :=
        BitVec.toNat_sub_of_le hMore
      have hSucc : (secs + 1).toNat = secs.toNat + 1 := by
        rw [succ_toNat]
        omega
      obtain ⟨hSecs, hNsecs⟩ := ih (secs + 1) (nsecs - 1000000000) (by omega) (by omega)
      rw [hSecs, hNsecs, hSub, hSucc]
      omega
    · next hLess =>
      rw [ge_iff_le, BitVec.le_def] at hLess
      have hLt : nsecs.toNat < 1000000000 := Nat.not_le.mp hLess
      dsimp only
      omega

/-! ## The delays -/

/-- One revolution and one sector. -/
def rotationLimit (rev sectors : BitVec 32) : Nat := rev.toNat + (rev / sectors).toNat

/-- The loop of `disk_writerotdelay` ends without wrapping around, and the delay is in the limit. -/
structure WriteRight (rev sectors rotoffset : BitVec 32) (now : BitVec 32 × BitVec 32) : Prop where
  turns : Clean (UpTurn now.2 rev) (fun t t' => t'.toNat = t.toNat + rev.toNat)
    (rotoffset * (rev / sectors))
  delay : (diskWriterotdelay rev sectors rotoffset now).toNat < rotationLimit rev sectors

/-- `targnsecs` of `disk_readrotdelay` after its first loop. -/
def targNsecs (dd : DiskData) (rev sectors rotoffset : BitVec 32) : BitVec 32 :=
  stepUp dd.ddTrackarrivalNsecs rev dd.ddTrackarrivalNsecs.toNat
    ((rotoffset + 1) % sectors * (rev / sectors))

structure ReadRight (dd : DiskData) (rev sectors rotoffset : BitVec 32)
    (now : BitVec 32 × BitVec 32) : Prop where
  turns : Clean (UpTurn dd.ddTrackarrivalNsecs rev) (fun t t' => t'.toNat = t.toNat + rev.toNat)
    ((rotoffset + 1) % sectors * (rev / sectors))
  carries : Clean (CarryTurn 1000000000) (fun p p' => p'.1.toNat = p.1.toNat + 1)
    (dd.ddTrackarrivalSecs, targNsecs dd rev sectors rotoffset)
  delay : (diskReadrotdelay dd rev sectors rotoffset now).toNat < rotationLimit rev sectors

/-- The nanoseconds, from the second of the arrival on, at which the sector has passed under the
head: the platter is at position 0 when a second starts. -/
def passed (rev sectors rotoffset : Nat) (arrival : BitVec 32 × BitVec 32) : Nat :=
  firstFrom ((rotoffset + 1) % sectors * (rev / sectors)) rev arrival.2.toNat

/-- The time of it has not wrapped around in seconds, and the clock reads that time or later, or
is behind it by less than the limit in words of 32 bits. -/
def ReadMeets (rev sectors rotoffset : BitVec 32) (arrival now : BitVec 32 × BitVec 32) : Prop :=
  let t := passed rev.toNat sectors.toNat rotoffset.toNat arrival
  arrival.1.toNat + t / 1000000000 < 2 ^ 32 ∧
    (arrival.1.toNat + t / 1000000000 < now.1.toNat ∨
      (arrival.1.toNat + t / 1000000000 = now.1.toNat ∧ t % 1000000000 ≤ now.2.toNat) ∨
      ((1000000000 * arrival.1.toNat + t : Int) - (1000000000 * now.1.toNat + now.2.toNat)) %
        2 ^ 32 < rotationLimit rev sectors)

section Delay

variable {rev sectors rotoffset : BitVec 32}

/-- A sector of the track starts before the revolution is over. -/
theorem sector_toNat {n : BitVec 32} (h : n < sectors) (hRev : 0 < rev.toNat) :
    (n * (rev / sectors)).toNat = n.toNat * (rev.toNat / sectors.toNat) ∧
      n.toNat * (rev.toNat / sectors.toNat) < rev.toNat := by
  have hLt : n.toNat < sectors.toNat := BitVec.lt_def.mp h
  have hBound : n.toNat * (rev.toNat / sectors.toNat) < rev.toNat := by
    rcases Nat.eq_zero_or_pos (rev.toNat / sectors.toNat) with hZero | hPos
    · rw [hZero, Nat.mul_zero]
      exact hRev
    · exact Nat.lt_of_lt_of_le (Nat.mul_lt_mul_of_pos_right hLt hPos)
        (Nat.mul_div_le rev.toNat sectors.toNat)
  have hRev' := rev.isLt
  rw [BitVec.toNat_mul, BitVec.toNat_udiv]
  exact ⟨Nat.mod_eq_of_lt (by omega), hBound⟩

theorem writeRight {now : BitVec 32 × BitVec 32} (hRev : 0 < rev.toNat)
    (hMax : rev.toNat ≤ 1000000000) (hSector : rotoffset < sectors)
    (hNow : now.2.toNat ≤ 3294967295) : WriteRight rev sectors rotoffset now := by
  have hRoom : now.2.toNat + rev.toNat ≤ 2 ^ 32 := by omega
  refine ⟨clean_up hRev hRoom _, ?_⟩
  obtain ⟨hStart, hLess⟩ := sector_toNat hSector hRev
  have hTarg := stepUp_toNat hRev hRoom now.2.toNat (t := rotoffset * (rev / sectors))
    (Nat.le_add_left _ _)
  have hLow : now.2.toNat ≤ (stepUp now.2 rev now.2.toNat (rotoffset * (rev / sectors))).toNat :=
    hTarg ▸ le_firstFrom hRev
  have hHigh := hTarg ▸ firstFrom_lt hRev
  have hSectorTime : (rev / sectors).toNat ≤ rev.toNat := by
    rw [BitVec.toNat_udiv]
    exact Nat.div_le_self _ _
  rw [diskWriterotdelay, rotationLimit]
  generalize stepUp now.2 rev now.2.toNat (rotoffset * (rev / sectors)) = targ at hLow hHigh ⊢
  generalize rev / sectors = time at hSectorTime ⊢
  simp only [BitVec.toNat_sub, BitVec.toNat_add]
  omega

theorem targNsecs_toNat (dd : DiskData) (hRev : 0 < rev.toNat) (hMax : rev.toNat ≤ 1000000000)
    (hSector : rotoffset < sectors) (hArrival : dd.ddTrackarrivalNsecs.toNat ≤ 3294967295) :
    (targNsecs dd rev sectors rotoffset).toNat = passed rev.toNat sectors.toNat rotoffset.toNat
      (dd.ddTrackarrivalSecs, dd.ddTrackarrivalNsecs) := by
  have hLt : rotoffset.toNat < sectors.toNat := BitVec.lt_def.mp hSector
  have hNext : ((rotoffset + 1) % sectors).toNat = (rotoffset.toNat + 1) % sectors.toNat := by
    have hSectors := sectors.isLt
    rw [BitVec.toNat_umod, succ_toNat, Nat.mod_eq_of_lt (by omega : rotoffset.toNat + 1 < 2 ^ 32)]
  have hOn : (rotoffset + 1) % sectors < sectors := by
    rw [BitVec.lt_def, hNext]
    exact Nat.mod_lt _ (by omega)
  obtain ⟨hStart, -⟩ := sector_toNat hOn hRev
  have hRoom : dd.ddTrackarrivalNsecs.toNat + rev.toNat ≤ 2 ^ 32 := by omega
  rw [targNsecs, stepUp_toNat hRev hRoom _ (Nat.le_add_left _ _), hStart, hNext]
  rfl

/-- The delay of a read, where the seconds have not wrapped around. -/
theorem readrotdelay_toNat {dd : DiskData} {now : BitVec 32 × BitVec 32}
    (hFits : dd.ddTrackarrivalSecs.toNat + (targNsecs dd rev sectors rotoffset).toNat / 1000000000 <
      2 ^ 32) :
    ((diskReadrotdelay dd rev sectors rotoffset now).toNat : Int) =
      let secs := dd.ddTrackarrivalSecs.toNat
      let nsecs := (targNsecs dd rev sectors rotoffset).toNat
      if secs + nsecs / 1000000000 < now.1.toNat ∨
          (secs + nsecs / 1000000000 = now.1.toNat ∧ nsecs % 1000000000 ≤ now.2.toNat) then 0
      else ((1000000000 * secs + nsecs : Int) - (1000000000 * now.1.toNat + now.2.toNat)) %
        2 ^ 32 := by
  have hTarg : diskReadrotdelay dd rev sectors rotoffset now =
      let targ := carrySecs 5 dd.ddTrackarrivalSecs (targNsecs dd rev sectors rotoffset)
      if targ.1 < now.1 ∨ (targ.1 = now.1 ∧ targ.2 ≤ now.2) then 0
      else targ.2 - now.2 + 1000000000 * (targ.1 - now.1) := rfl
  have hWord := (targNsecs dd rev sectors rotoffset).isLt
  obtain ⟨hSecs, hNsecs⟩ := carrySecs_eq 5 dd.ddTrackarrivalSecs (targNsecs dd rev sectors rotoffset)
    (by omega) hFits
  rw [hTarg]
  generalize carrySecs 5 _ (targNsecs dd rev sectors rotoffset) = targ at hSecs hNsecs ⊢
  have hSecs' := targ.1.isLt
  dsimp only
  simp only [BitVec.lt_def, BitVec.le_def, ← BitVec.toNat_inj, hSecs, hNsecs]
  split
  · rfl
  · have hSecond : (1000000000 : BitVec 32).toNat = 1000000000 := by decide
    have hNowSecs := now.1.isLt
    have hNowNsecs := now.2.isLt
    simp only [BitVec.toNat_add, BitVec.toNat_sub, BitVec.toNat_mul, hSecs, hNsecs, hSecond]
    omega

theorem readRight_iff {dd : DiskData} {now : BitVec 32 × BitVec 32} (hRev : 0 < rev.toNat)
    (hMax : rev.toNat ≤ 1000000000) (hSector : rotoffset < sectors)
    (hArrival : dd.ddTrackarrivalNsecs.toNat ≤ 3294967295) :
    ReadRight dd rev sectors rotoffset now ↔
      ReadMeets rev sectors rotoffset (dd.ddTrackarrivalSecs, dd.ddTrackarrivalNsecs) now := by
  have hRoom : dd.ddTrackarrivalNsecs.toNat + rev.toNat ≤ 2 ^ 32 := by omega
  have hTarg := targNsecs_toNat dd hRev hMax hSector hArrival
  have hCarries := clean_carry_iff (m := (1000000000 : BitVec 32)) (by decide)
    (dd.ddTrackarrivalSecs, targNsecs dd rev sectors rotoffset)
  have hLimit : 0 < rotationLimit rev sectors := Nat.lt_of_lt_of_le hRev (Nat.le_add_right _ _)
  rw [ReadMeets, ← hTarg]
  constructor
  · rintro ⟨-, hCarry, hLess⟩
    have hFits := hCarries.mp hCarry
    refine ⟨hFits, ?_⟩
    have hCase := Int.ofNat_lt.mpr hLess
    rw [readrotdelay_toNat hFits] at hCase
    dsimp only at hCase
    split at hCase
    · next hReached => exact hReached.imp_right .inl
    · exact .inr (.inr hCase)
  · rintro ⟨hFits, hCase⟩
    refine ⟨clean_up hRev hRoom _, hCarries.mpr hFits, Int.ofNat_lt.mp ?_⟩
    rw [readrotdelay_toNat hFits]
    dsimp only
    split
    · exact Int.ofNat_lt.mpr hLimit
    · next hAhead =>
      rcases hCase with hPast | hNow | hNear
      · exact absurd (.inl hPast) hAhead
      · exact absurd (.inr hNow) hAhead
      · exact hNear

/-- How far the clock has been set back between two readings, in nanoseconds. -/
def setBack (arrival now : BitVec 32 × BitVec 32) : Int :=
  (1000000000 * arrival.1.toNat + arrival.2.toNat : Int) -
    (1000000000 * now.1.toNat + now.2.toNat)

/-- The second in which the sector has passed under the head does not wrap around. -/
def TargetFits (rev sectors rotoffset : BitVec 32) (arrival : BitVec 32 × BitVec 32) : Prop :=
  arrival.1.toNat + passed rev.toNat sectors.toNat rotoffset.toNat arrival / 1000000000 < 2 ^ 32

/-- The sector passes within a revolution of the arrival. -/
theorem passed_bounds (hRev : 0 < rev.toNat) (hSector : rotoffset < sectors)
    (arrival : BitVec 32 × BitVec 32) :
    arrival.2.toNat ≤ passed rev.toNat sectors.toNat rotoffset.toNat arrival ∧
      passed rev.toNat sectors.toNat rotoffset.toNat arrival < arrival.2.toNat + rev.toNat := by
  have hLt : rotoffset.toNat < sectors.toNat := BitVec.lt_def.mp hSector
  have hStart : (rotoffset.toNat + 1) % sectors.toNat * (rev.toNat / sectors.toNat) < rev.toNat := by
    have hOn := Nat.mod_lt (rotoffset.toNat + 1) (Nat.zero_lt_of_lt hLt)
    rcases Nat.eq_zero_or_pos (rev.toNat / sectors.toNat) with hZero | hPos
    · rw [hZero, Nat.mul_zero]
      exact hRev
    · exact Nat.lt_of_lt_of_le (Nat.mul_lt_mul_of_pos_right hOn hPos)
        (Nat.mul_div_le rev.toNat sectors.toNat)
  have hSoon : passed rev.toNat sectors.toNat rotoffset.toNat arrival <
      max (arrival.2.toNat + rev.toNat) _ := firstFrom_lt hRev
  exact ⟨le_firstFrom hRev, by omega⟩

/-- A clock that has not been set back meets the condition. -/
theorem readMeets_of_forward {arrival now : BitVec 32 × BitVec 32} (hRev : 0 < rev.toNat)
    (hSector : rotoffset < sectors) (hNow : now.2.toNat < 1000000000)
    (hForward : setBack arrival now ≤ 0) (hFits : TargetFits rev sectors rotoffset arrival) :
    ReadMeets rev sectors rotoffset arrival now := by
  obtain ⟨-, hSoon⟩ := passed_bounds hRev hSector arrival
  have hRev' := rev.isLt
  refine ⟨hFits, ?_⟩
  rw [rotationLimit]
  rw [setBack] at hForward
  generalize passed rev.toNat sectors.toNat rotoffset.toNat arrival = t at hSoon ⊢
  omega

/-- A clock that has been set back by the limit or more does not, until the words of the delay wrap
around. -/
theorem not_readMeets_of_back {arrival now : BitVec 32 × BitVec 32} (hRev : 0 < rev.toNat)
    (hSector : rotoffset < sectors) (hBack : rotationLimit rev sectors ≤ setBack arrival now)
    (hWrap : setBack arrival now ≤ 2 ^ 32 - rotationLimit rev sectors) :
    ¬ ReadMeets rev sectors rotoffset arrival now := by
  obtain ⟨hPast, hSoon⟩ := passed_bounds hRev hSector arrival
  have hLimit : rev.toNat ≤ rotationLimit rev sectors := Nat.le_add_right _ _
  rintro ⟨-, hMeets⟩
  rw [setBack] at hBack hWrap
  generalize passed rev.toNat sectors.toNat rotoffset.toNat arrival = t at hPast hSoon hMeets
  generalize rotationLimit rev sectors = limit at hLimit hBack hWrap hMeets
  have hWord : ((1000000000 * arrival.1.toNat + t : Int) -
      (1000000000 * now.1.toNat + now.2.toNat)) % 2 ^ 32 =
        (1000000000 * arrival.1.toNat + t : Int) - (1000000000 * now.1.toNat + now.2.toNat) :=
    Int.emod_eq_of_lt (by omega) (by omega)
  rw [hWord] at hMeets
  omega

end Delay

/-- The sector that `disk_work` waits for is one of its track. -/
theorem locateFrom_rotoffset {l : List (BitVec 32)} {start sector rotoffset : BitVec 32} {cyl : Nat}
    (h : locateFrom l start sector = some (cyl, rotoffset)) :
    rotoffset < l.reverse.getD cyl 0 := by
  induction l generalizing start with
  | nil => cases h
  | cons count inner ih =>
    rw [locateFrom] at h
    rw [List.reverse_cons]
    split at h
    · next hHere =>
      cases h
      rw [List.getD_append_right _ _ _ _ (by rw [List.length_reverse]), List.length_reverse,
        Nat.sub_self]
      change sector - start < count
      bv_omega
    · have hInner := ih h
      by_cases hIn : cyl < inner.reverse.length
      · rw [List.getD_append _ _ _ _ hIn]
        exact hInner
      · rw [List.getD_eq_default _ _ (Nat.not_lt.mp hIn)] at hInner
        exact absurd hInner (Nat.not_lt_zero _)

theorem locateSector_rotoffset {dd : DiskData} {sector rotoffset : BitVec 32} {cyl : Nat}
    (h : locateSector dd sector = .ok (cyl, rotoffset)) : rotoffset < dd.ddSectors.getD cyl 0 := by
  rw [locateSector] at h
  split at h
  · next hLocate =>
    cases h
    have hLt := locateFrom_rotoffset hLocate
    rwa [List.reverse_reverse] at hLt
  · cases h

theorem rotdelay_iff {φ δ : Type} {rpm sectors rotoffset : BitVec 32} {dd : DiskData}
    {s s' : State φ δ} (hRpm : RpmOk rpm) (hSector : rotoffset < sectors)
    (hArrival : (dd.ddTrackarrivalSecs, dd.ddTrackarrivalNsecs) = clockTime s) :
    WriteRight (nsecsPerRev rpm) sectors rotoffset (clockTime s') ∧
        ReadRight dd (nsecsPerRev rpm) sectors rotoffset (clockTime s') ↔
      ReadMeets (nsecsPerRev rpm) sectors rotoffset (clockTime s) (clockTime s') := by
  obtain ⟨hRev, hMax⟩ := nsecsPerRev_bounds hRpm
  have hNsecs : dd.ddTrackarrivalNsecs.toNat ≤ 3294967295 := by
    have hReading := clockTime_nsecs s
    rw [← hArrival] at hReading
    exact hReading
  rw [readRight_iff hRev hMax hSector hNsecs, hArrival]
  exact and_iff_right (writeRight hRev hMax hSector (clockTime_nsecs s'))

/-- The loops of both delays end without wrapping around and both are less than a revolution and a
sector, if the clock has not been set back since the head came to the track and the second in which
the sector passes does not wrap around. They do not if that second wraps around, or if the clock has
been set back by a revolution and a sector or more, as far as the words of the delay go. -/
theorem disk_rotdelay {φ δ : Type} {rpm sectors rotoffset : BitVec 32} {dd : DiskData}
    {s s' : State φ δ} (hRpm : RpmOk rpm) (hSector : rotoffset < sectors)
    (hArrival : (dd.ddTrackarrivalSecs, dd.ddTrackarrivalNsecs) = clockTime s) :
    ((clockTime s').2.toNat < 1000000000 → setBack (clockTime s) (clockTime s') ≤ 0 →
        TargetFits (nsecsPerRev rpm) sectors rotoffset (clockTime s) →
      WriteRight (nsecsPerRev rpm) sectors rotoffset (clockTime s') ∧
        ReadRight dd (nsecsPerRev rpm) sectors rotoffset (clockTime s')) ∧
    (WriteRight (nsecsPerRev rpm) sectors rotoffset (clockTime s') ∧
        ReadRight dd (nsecsPerRev rpm) sectors rotoffset (clockTime s') →
      TargetFits (nsecsPerRev rpm) sectors rotoffset (clockTime s) ∧
        ¬ (rotationLimit (nsecsPerRev rpm) sectors ≤ setBack (clockTime s) (clockTime s') ∧
          setBack (clockTime s) (clockTime s') ≤
            2 ^ 32 - rotationLimit (nsecsPerRev rpm) sectors)) := by
  obtain ⟨hRev, -⟩ := nsecsPerRev_bounds hRpm
  rw [rotdelay_iff hRpm hSector hArrival]
  refine ⟨readMeets_of_forward hRev hSector, fun hMeets => ⟨hMeets.1, ?_⟩⟩
  rintro ⟨hBack, hWrap⟩
  exact not_readMeets_of_back hRev hSector hBack hWrap hMeets

/-- A clock that reads 100 s. -/
def clockAt100 : State Unit Unit := { zeroed with startSecs := 100 }

/-- The head came to its track at 100 s. -/
def arrivedAt100 : DiskData where
  ddSectors := [64]
  ddTotsectors := 64
  ddCurrentTrack := 0
  ddTrackarrivalSecs := 100
  ddTrackarrivalNsecs := 0
  ddIostatus := 1
  ddTimedop := false
  ddWorktries := 1
  ddStat := diskstatReading
  ddSect := 0
  ddBuf _ := 0

/-- A microsecond later the sector has not passed yet. -/
def clockAfter100 : State Unit Unit := { clockAt100 with virtualNow := 1000 }

theorem rotdelay_after_arrival :
    (WriteRight (nsecsPerRev 3600) 64 0 (clockTime clockAfter100) ∧
      ReadRight arrivedAt100 (nsecsPerRev 3600) 64 0 (clockTime clockAfter100)) ∧
    ¬ (WriteRight (nsecsPerRev 3600) 64 0 (clockTime (clockSetsecs clockAfter100 98)) ∧
      ReadRight arrivedAt100 (nsecsPerRev 3600) 64 0
        (clockTime (clockSetsecs clockAfter100 98))) := by
  have hRpm : RpmOk 3600 := ⟨by decide, by decide⟩
  have hArrival : (arrivedAt100.ddTrackarrivalSecs, arrivedAt100.ddTrackarrivalNsecs) =
      clockTime clockAt100 := by decide
  constructor
  · have hTarget : passed (nsecsPerRev 3600).toNat 64 0 (clockTime clockAt100) = 260416 := by
      decide
    refine (disk_rotdelay hRpm (by decide) hArrival).1 (by decide) (by decide) ?_
    change 100 + passed (nsecsPerRev 3600).toNat 64 0 (clockTime clockAt100) / 1000000000 < 2 ^ 32
    rw [hTarget]
    decide
  · intro hRight
    obtain ⟨-, hNot⟩ := (disk_rotdelay hRpm (by decide) hArrival).2 hRight
    exact hNot ⟨by decide, by decide⟩

/-- With the clock set back by two seconds the delay is two seconds long. -/
theorem not_disk_rotdelay : RpmOk 3600 ∧
    (arrivedAt100.ddTrackarrivalSecs, arrivedAt100.ddTrackarrivalNsecs) = clockTime clockAt100 ∧
    diskReadrotdelay arrivedAt100 (nsecsPerRev 3600) 64 0
      (clockTime (clockSetsecs clockAt100 98)) = 2000260416 ∧
    ¬ ReadRight arrivedAt100 (nsecsPerRev 3600) 64 0
      (clockTime (clockSetsecs clockAt100 98)) := by
  refine ⟨⟨by decide, by decide⟩, by decide, by decide, fun hRight => ?_⟩
  exact absurd hRight.delay (by decide)

end Sys161.Bus
