import Sys161.Bus.DiskTiming

/-!
# How often `disk_work` works on an operation

The counter that guards the timing code is cleared where an operation ends, and nowhere
else: an operation that is aborted leaves its tries to the next one.
-/

namespace Sys161.Bus

open Runs

set_option autoImplicit false

/-- The counter is that of the operation in progress, and under its limit. -/
def Counted (s : Disk × Watch) : Prop :=
  (s.1.dd.inProgress = true → s.1.dd.ddWorktries = s.2.works) ∧ s.1.dd.ddWorktries ≤ maxWorktries

/-- The sector register stays as it is while an operation is in progress. -/
def SectorKept (s : Disk × Watch) (l : DiskLabel) : Prop :=
  s.1.dd.inProgress = true → l.act.sect s.1.dd = s.1.dd.ddSect

/-- An operation is started on a cleared counter, or ends at once. -/
def StartsFresh (s : Disk × Watch) (l : DiskLabel) : Prop :=
  l.act.starts → s.1.dd.ddWorktries = 0 ∨
    (s.1.dd.ddTimedop = false ∧ s.1.dd.ddTotsectors ≤ s.1.dd.ddSect)

/-- The calls an operation has had when `disk_work` turns to it. -/
inductive Due (dd : DiskData) : Prop where
  | fresh : dd.ddIostatus = 0 → dd.ddWorktries = 0 → Due dd
  | arrived : dd.ddIostatus = 0 → dd.cylOf dd.ddSect = some dd.ddCurrentTrack →
      dd.ddWorktries ≤ 1 → Due dd
  | written : dd.ddIostatus = 1 → dd.isWrite = true →
      dd.cylOf dd.ddSect = some dd.ddCurrentTrack → dd.ddWorktries ≤ 2 → Due dd
  | turned : dd.ddIostatus = 2 → dd.cylOf dd.ddSect = some dd.ddCurrentTrack →
      dd.ddWorktries ≤ 3 → Due dd
  | read : dd.ddIostatus = 3 → dd.isWrite = false → dd.cylOf dd.ddSect = some dd.ddCurrentTrack →
      dd.ddWorktries ≤ 4 → Due dd

/-- The calls it has had while it waits for an event. -/
inductive Plan (dd : DiskData) (a : Arm) : Prop where
  | seek : a.func = .diskSeekdone → dd.cylOf dd.ddSect = some a.code.toInt → dd.ddIostatus = 0 →
      dd.ddWorktries ≤ 1 → Plan dd a
  | cacheWrite : a.func = .diskWaitdone → a.code = 1 → dd.isWrite = true →
      dd.cylOf dd.ddSect = some dd.ddCurrentTrack → dd.ddWorktries ≤ 2 → Plan dd a
  | rotation : a.func = .diskWaitdone → a.code = 2 →
      dd.cylOf dd.ddSect = some dd.ddCurrentTrack → dd.ddWorktries ≤ 3 → Plan dd a
  | cacheRead : a.func = .diskWaitdone → a.code = 3 → dd.isWrite = false →
      dd.cylOf dd.ddSect = some dd.ddCurrentTrack → dd.ddWorktries ≤ 4 → Plan dd a

theorem Due.le {dd : DiskData} (h : Due dd) : dd.ddWorktries ≤ 4 := by
  cases h with
  | fresh _ hTries => omega
  | arrived _ _ hTries => omega
  | written _ _ _ hTries => omega
  | turned _ _ hTries => omega
  | read _ _ _ hTries => omega

theorem Plan.le {dd : DiskData} {a : Arm} (h : Plan dd a) : dd.ddWorktries ≤ 4 := by
  cases h with
  | seek _ _ _ hTries => omega
  | cacheWrite _ _ _ _ hTries => omega
  | rotation _ _ _ hTries => omega
  | cacheRead _ _ _ _ hTries => omega

theorem locateFrom_lt {l : List (BitVec 32)} {start sector rotoffset : BitVec 32} {cyl : Nat}
    (h : locateFrom l start sector = some (cyl, rotoffset)) : cyl < l.length := by
  induction l generalizing start with
  | nil => cases h
  | cons count inner ih =>
    rw [locateFrom] at h
    split at h
    · cases h
      exact Nat.lt_succ_self _
    · exact Nat.lt_succ_of_lt (ih h)

/-- A track number survives being the code of an event. -/
theorem locateSector_code {dd : DiskData} {rotoffset : BitVec 32} {cyl : Nat}
    (hTracks : dd.ddSectors.length = numtracks)
    (h : locateSector dd dd.ddSect = .ok (cyl, rotoffset)) :
    (BitVec.ofNat 32 cyl).toInt = (cyl : Int) := by
  have hLt : cyl < 320 := by
    rw [locateSector] at h
    cases hLocate : locateFrom dd.ddSectors.reverse 0 dd.ddSect with
    | none =>
      rw [hLocate] at h
      cases h
    | some q =>
      rw [hLocate] at h
      cases h
      have hLength := locateFrom_lt hLocate
      rwa [List.length_reverse, hTracks] at hLength
  rw [BitVec.toInt_eq_toNat_of_lt]
  · rw [BitVec.toNat_ofNat, Nat.mod_eq_of_lt (by omega)]
  · rw [BitVec.toNat_ofNat, Nat.mod_eq_of_lt (by omega)]
    omega

theorem phase_counted {dd : DiskData} {cyl : Nat} {h : Host} {r : Done DiskData}
    (hPhase : Phase dd.tried cyl h r) (hCyl : dd.cylOf dd.ddSect = some (cyl : Int))
    (hCode : (BitVec.ofNat 32 cyl).toInt = (cyl : Int)) (hDue : Due dd) :
    r.msgs = [] ∧ (r.dev.inProgress = true → r.dev.ddWorktries = dd.ddWorktries + 1 ∧
      ∃ a, r.arm = some a ∧ Plan r.dev a) := by
  have hTrack (hHere : dd.ddCurrentTrack = (cyl : Int)) :
      dd.cylOf dd.ddSect = some dd.ddCurrentTrack := hCyl.trans (congrArg some hHere.symm)
  cases hPhase with
  | seek hAway =>
    refine ⟨rfl, fun _ => ⟨rfl, _, rfl, ?_⟩⟩
    have hNot : ¬ dd.cylOf dd.ddSect = some dd.ddCurrentTrack := by
      rw [hCyl]
      intro hEq
      exact hAway (Option.some.inj hEq).symm
    cases hDue with
    | fresh hStatus hTries =>
      refine Plan.seek rfl (hCyl.trans (congrArg some hCode.symm)) hStatus ?_
      show dd.ddWorktries + 1 ≤ 1
      omega
    | arrived _ hHere _ => exact absurd hHere hNot
    | written _ _ hHere _ => exact absurd hHere hNot
    | turned _ hHere _ => exact absurd hHere hNot
    | read _ _ hHere _ => exact absurd hHere hNot
  | cacheWrite hHere hWrite hBefore =>
    refine ⟨rfl, fun _ => ⟨rfl, _, rfl, Plan.cacheWrite rfl rfl hWrite (hTrack hHere) ?_⟩⟩
    have hBefore' : dd.ddIostatus < 1 := hBefore
    show dd.ddWorktries + 1 ≤ 2
    cases hDue <;> omega
  | rotation hHere hCopied hBefore =>
    refine ⟨rfl, fun _ => ⟨rfl, _, rfl, Plan.rotation rfl rfl (hTrack hHere) ?_⟩⟩
    have hBefore' : dd.ddIostatus < 2 := hBefore
    show dd.ddWorktries + 1 ≤ 3
    cases hDue <;> omega
  | cacheRead hHere hRead hBefore hZero =>
    have hSame := rotated_same dd.tried
    refine ⟨rfl, fun _ => ⟨rotated_ddWorktries dd.tried, _, rfl, Plan.cacheRead rfl rfl ?_ ?_ ?_⟩⟩
    · exact (rotated_isWrite dd.tried).trans hRead
    · show dd.tried.rotated.cylOf dd.tried.rotated.ddSect = some dd.tried.rotated.ddCurrentTrack
      rw [rotated_ddCurrentTrack, hSame.2.1, DiskData.cylOf, hSame.1.1]
      exact hTrack hHere
    · have hBefore' : dd.ddIostatus < 3 := hBefore
      show dd.tried.rotated.ddWorktries ≤ 4
      rw [rotated_ddWorktries]
      show dd.ddWorktries + 1 ≤ 4
      cases hDue <;> omega
  | transfer _ _ _ _ =>
    refine ⟨rfl, fun hBusy => ?_⟩
    rw [forceio_inProgress] at hBusy
    cases hBusy

/-- The phase that ends an operation is its transfer, and that clears the counter. -/
theorem phase_ended {dd : DiskData} {cyl : Nat} {h : Host} {r : Done DiskData}
    (hPhase : Phase dd.tried cyl h r) (hProgress : dd.inProgress = true)
    (hEnd : r.dev.inProgress = false) : r.dev.ddWorktries = 0 ∧ r.arm = none := by
  have hNot {dd' : DiskData} (hStat : dd'.ddStat = dd.ddStat) (hEnd : dd'.inProgress = false) :
      False := by
    rw [DiskData.inProgress, hStat] at hEnd
    rw [DiskData.inProgress, hEnd] at hProgress
    cases hProgress
  cases hPhase with
  | seek _ => exact (hNot rfl hEnd).elim
  | cacheWrite _ _ _ => exact (hNot rfl hEnd).elim
  | rotation _ _ _ => exact (hNot rfl hEnd).elim
  | cacheRead _ _ _ _ => exact (hNot (rotated_same dd.tried).2.2.1 hEnd).elim
  | transfer _ _ _ _ => exact ⟨rfl, rfl⟩

/-- What the counter is after a call of `disk_work` that has not had its tries. -/
structure Tried (dd : DiskData) (r : Done DiskData) : Prop where
  msgs : r.msgs = []
  range : 0 ≤ r.dev.ddWorktries ∧ r.dev.ddWorktries ≤ maxWorktries
  waiting : dd.ddTimedop = true → r.dev = dd
  busy : dd.ddTimedop = false → r.dev.inProgress = true → dd.works = true ∧
    r.dev.ddWorktries = dd.ddWorktries + 1 ∧ ∃ a, r.arm = some a ∧ Plan r.dev a
  armed : dd.ddTimedop = false → r.arm = none ∨ r.dev.inProgress = true

theorem zero_in_range : (0 : Int) ≤ 0 ∧ 0 ≤ maxWorktries := by decide

theorem worked_counted {dd : DiskData} {now : BitVec 32 × BitVec 32} {h : Host} {r : Done DiskData}
    (hWorked : Worked dd now h r) (hTracks : dd.ddSectors.length = numtracks)
    (hRange : 0 ≤ dd.ddWorktries ∧ dd.ddWorktries ≤ maxWorktries)
    (hDue : dd.works = true → Due dd) : Tried dd r := by
  cases hWorked with
  | waiting hBusy =>
    refine ⟨rfl, hRange, fun _ => rfl, fun hFree => ?_, fun hFree => ?_⟩
    · rw [hFree] at hBusy
      cases hBusy
    · rw [hFree] at hBusy
      cases hBusy
  | idle _ hIdle =>
    refine ⟨rfl, hRange, fun _ => rfl, fun _ hBusy => ?_, fun _ => Or.inl rfl⟩
    rw [show dd.inProgress = true from hBusy] at hIdle
    cases hIdle
  | invalid hFree _ _ =>
    refine ⟨rfl, zero_in_range, fun hTimed => ?_, fun _ hBusy => ?_, fun _ => Or.inl rfl⟩
    · rw [hFree] at hTimed
      cases hTimed
    · rw [finish_inProgress rfl] at hBusy
      cases hBusy
  | forced hFree hProgress hValid hMany =>
    have hFew := (hDue (works_iff.mpr ⟨hFree, hProgress, hValid⟩)).le
    have hLimit : maxWorktries = 10 := rfl
    omega
  | @phase cyl rotoffset _ hFree hProgress hValid _ hLocate hPhase =>
    have hWorks := works_iff.mpr ⟨hFree, hProgress, hValid⟩
    obtain ⟨hMsgs, hBusy⟩ := phase_counted hPhase (cylOf_eq hLocate)
      (locateSector_code hTracks hLocate) (hDue hWorks)
    refine ⟨hMsgs, ?_, fun hTimed => ?_, fun _ hProgress' => ⟨hWorks, hBusy hProgress'⟩, fun _ => ?_⟩
    · cases hEnd : r.dev.inProgress with
      | true =>
        obtain ⟨hTries, a, -, hPlan⟩ := hBusy hEnd
        have hLe := hPlan.le
        have hLimit : maxWorktries = 10 := rfl
        omega
      | false =>
        rw [(phase_ended hPhase hProgress hEnd).1]
        exact zero_in_range
    · rw [hFree] at hTimed
      cases hTimed
    · cases hEnd : r.dev.inProgress with
      | true => exact Or.inr rfl
      | false => exact Or.inl (phase_ended hPhase hProgress hEnd).2

/-! ## Runs -/

/-- What holds between two steps when every operation starts on a cleared counter. -/
structure Counting (s : Disk × Watch) : Prop where
  sound : s.1.Sound
  tracks : s.1.dd.ddSectors.length = numtracks
  range : 0 ≤ s.1.dd.ddWorktries ∧ s.1.dd.ddWorktries ≤ maxWorktries
  tried : s.1.dd.ddTimedop = true → 1 ≤ s.1.dd.ddWorktries
  busy : s.1.dd.inProgress = true → s.1.dd.ddTimedop = true
  count : s.1.dd.inProgress = true → s.1.dd.ddWorktries = s.2.works
  plan : s.1.dd.inProgress = true → ∀ a ∈ s.1.pending, Plan s.1.dd a

theorem Counting.counted {s : Disk × Watch} (h : Counting s) : Counted s := ⟨h.count, h.range.2⟩

/-- An event of the operation brings it to its next call. -/
theorem due_of_plan {dd dd' : DiskData} {a : Arm} {now : BitVec 32 × BitVec 32} (hPlan : Plan dd a)
    (hEnters : (DiskAct.fire a).enters dd now = some dd') : Due dd' := by
  cases hPlan with
  | seek hFunc hCyl hStatus hTries =>
    rw [enters_seekdone hFunc] at hEnters
    cases hEnters
    exact Due.arrived hStatus hCyl hTries
  | cacheWrite hFunc hCode hWrite hCyl hTries =>
    rw [enters_waitdone hFunc, hCode] at hEnters
    cases hEnters
    exact Due.written rfl hWrite hCyl hTries
  | rotation hFunc hCode hCyl hTries =>
    rw [enters_waitdone hFunc, hCode] at hEnters
    cases hEnters
    exact Due.turned rfl hCyl hTries
  | cacheRead hFunc hCode hRead hCyl hTries =>
    rw [enters_waitdone hFunc, hCode] at hEnters
    cases hEnters
    exact Due.read rfl hRead hCyl hTries

theorem Plan.of_register {dd : DiskData} {a : Arm} (h : Plan dd a) (buf : Nat → BitVec 8) :
    Plan { dd with ddBuf := buf } a := by
  cases h with
  | seek hFunc hCyl hStatus hTries => exact Plan.seek hFunc hCyl hStatus hTries
  | cacheWrite hFunc hCode hWrite hCyl hTries => exact Plan.cacheWrite hFunc hCode hWrite hCyl hTries
  | rotation hFunc hCode hCyl hTries => exact Plan.rotation hFunc hCode hCyl hTries
  | cacheRead hFunc hCode hRead hCyl hTries => exact Plan.cacheRead hFunc hCode hRead hCyl hTries

variable {c : DiskConfig} {bigEndian : Bool} {s s' : Disk × Watch} {l : DiskLabel}

theorem arrive_works (w : Watch) (a : Arm) : (w.arrive a).works = w.works := by
  rw [Watch.arrive]
  split <;> rfl

theorem work_works {w : Watch} {dd dd' : DiskData} (hWorks : dd.works = true) :
    (w.work dd dd').works = w.works + 1 := by
  rw [Watch.work, if_pos hWorks]

/-- A step that comes to `disk_work`: `dd` and `w` are what it finds there. -/
theorem Counting.after {d : Disk} {dd : DiskData} {w : Watch} {pending : List Arm} {doom : Doom}
    {now : BitVec 32 × BitVec 32} {h : Host} {r : Done DiskData} (hUpdate : c.update dd now h = .ok r)
    (hSound : (Disk.after { d with pending := pending } r doom).Sound)
    (hTracks : dd.ddSectors.length = numtracks)
    (hRange : 0 ≤ dd.ddWorktries ∧ dd.ddWorktries ≤ maxWorktries)
    (hTried : dd.ddTimedop = true → dd.inProgress = false ∧ 1 ≤ dd.ddWorktries)
    (hCount : dd.works = true → dd.ddWorktries = w.works) (hDue : dd.works = true → Due dd)
    (hFree : dd.ddTimedop = false → pending = []) :
    Counting (Disk.after { d with pending := pending } r doom, w.work dd r.dev) ∧ r.msgs = [] := by
  have hUpdated := update_spec hUpdate
  obtain ⟨r', hWorked, rfl⟩ := update_cases hUpdate
  have hTries := worked_counted hWorked hTracks hRange hDue
  refine ⟨?_, hTries.msgs⟩
  have hNow (hProgress : r'.dev.inProgress = true) : dd.ddTimedop = false := by
    cases hTimed : dd.ddTimedop with
    | false => rfl
    | true =>
      have hIdle := (hTried hTimed).1
      rw [hTries.waiting hTimed, hIdle] at hProgress
      cases hProgress
  refine ⟨hSound, ?_, hTries.range, ?_, ?_, ?_, ?_⟩
  · show r'.dev.ddSectors.length = numtracks
    rw [show r'.dev.ddSectors = dd.ddSectors from hUpdated.geometry.1]
    exact hTracks
  · intro hTimed'
    show 1 ≤ r'.dev.ddWorktries
    cases hTimed : dd.ddTimedop with
    | true =>
      rw [hTries.waiting hTimed]
      exact (hTried hTimed).2
    | false =>
      have hArmed : r'.dev.ddTimedop = r'.arm.isSome := hUpdated.armed hTimed
      rcases hTries.armed hTimed with hNone | hProgress
      · rw [show r'.dev.ddTimedop = true from hTimed', hNone] at hArmed
        cases hArmed
      · have hMore := (hTries.busy hTimed hProgress).2.1
        omega
  · intro hProgress
    obtain ⟨-, -, a, hArm, -⟩ := hTries.busy (hNow hProgress) hProgress
    have hArmed : r'.dev.ddTimedop = r'.arm.isSome := hUpdated.armed (hNow hProgress)
    rw [hArm] at hArmed
    exact hArmed
  · intro hProgress
    obtain ⟨hWorks, hMore, -⟩ := hTries.busy (hNow hProgress) hProgress
    show r'.dev.ddWorktries = (w.work dd r'.dev).works
    rw [work_works hWorks, hMore, hCount hWorks]
    rfl
  · intro hProgress a ha
    obtain ⟨-, -, a', hArm, hPlan⟩ := hTries.busy (hNow hProgress) hProgress
    have hMem : a ∈ pending ++ r'.arm.toList := ha
    rw [hFree (hNow hProgress), hArm] at hMem
    cases List.mem_singleton.mp hMem
    exact hPlan

/-- Where a store starts an operation that `disk_work` works on, the counter is at 0. -/
theorem Counting.cleared (h : Counting s) (hFresh : StartsFresh s l) (hStarts : l.act.starts)
    (hWorks : s.1.dd.ddTimedop = true ∨ s.1.dd.ddSect < s.1.dd.ddTotsectors) :
    s.1.dd.ddTimedop = false ∧ s.1.dd.ddWorktries = 0 := by
  rcases hFresh hStarts with hZero | ⟨hFree, hInvalid⟩
  · refine ⟨?_, hZero⟩
    by_contra hBusy
    have hOne := h.tried (by simpa using hBusy)
    omega
  · rcases hWorks with hBusy | hValid
    · rw [hFree] at hBusy
      cases hBusy
    · exact absurd hInvalid (BitVec.not_le.mpr hValid)

theorem Counting.step (h : Counting s) (hKept : SectorKept s l) (hFresh : StartsFresh s l)
    (hStep : Watched.Step c bigEndian s l s') : Counting s' ∧ l.msgs = [] := by
  obtain ⟨hDisk⟩ := hStep
  rename_i d d' w
  have hStepped := step_cases hDisk
  have hSound : d'.Sound := hStepped.sound h.sound
  cases hStepped with
  | @register offset val now _ buf hEnters hDev hLine hPending =>
    have hNext : w.next d ⟨.store offset val, now, none, []⟩ d' = w := next_of_register rfl hEnters
    refine ⟨⟨hSound, ?_, ?_, ?_, ?_, ?_, ?_⟩, rfl⟩
    · show d'.dd.ddSectors.length = numtracks
      rw [hDev]
      exact h.tracks
    · show 0 ≤ d'.dd.ddWorktries ∧ d'.dd.ddWorktries ≤ maxWorktries
      rw [hDev]
      exact h.range
    · show d'.dd.ddTimedop = true → 1 ≤ d'.dd.ddWorktries
      rw [hDev]
      exact h.tried
    · show d'.dd.inProgress = true → d'.dd.ddTimedop = true
      rw [hDev]
      exact h.busy
    · rw [hNext]
      show d'.dd.inProgress = true → d'.dd.ddWorktries = w.works
      rw [hDev]
      exact h.count
    · show d'.dd.inProgress = true → ∀ a ∈ d'.pending, Plan d'.dd a
      rw [hDev, hPending]
      intro hProgress a ha
      have hSect : (DiskAct.store offset val).sect d.dd = d.dd.ddSect := hKept hProgress
      rw [hSect]
      exact (h.plan hProgress a ha).of_register buf
  | @update act now host dd doom pending r hEnters hLeaves hUpdate =>
    have hEntered := enters_spec hEnters
    have hTries := enters_worktries hEnters
    have hNext (d' : Disk) : w.next d ⟨act, now, r.hostIo, r.msgs⟩ d' =
        (w.meet d.dd act).work dd d'.dd := next_of_enters hEnters
    have hTracks : dd.ddSectors.length = numtracks := by
      rw [hEntered.geometry.1]
      exact h.tracks
    have hRange : 0 ≤ dd.ddWorktries ∧ dd.ddWorktries ≤ maxWorktries := by
      rw [hTries]
      exact h.range
    rw [hNext]
    cases act with
    | store offset val =>
      have hPending : pending = d.pending := hLeaves
      have hTimed : dd.ddTimedop = d.dd.ddTimedop := hEntered.timed offset val rfl
      have hClear (hStarts : (DiskAct.store offset val).starts) (hWorks : d.dd.ddTimedop = true ∨
          d.dd.ddSect < d.dd.ddTotsectors) : d.dd.ddTimedop = false ∧ d.dd.ddWorktries = 0 :=
        h.cleared hFresh hStarts hWorks
      refine Counting.after hUpdate hSound hTracks hRange ?_ ?_ ?_ ?_
      · intro hBusy
        rw [hTimed] at hBusy
        rw [hTries]
        rcases enters_store hEnters with ⟨-, rfl⟩ | ⟨hStarts, rfl⟩
        · exact ⟨idle_inProgress d.dd, h.tried hBusy⟩
        · rw [(hClear hStarts (Or.inl hBusy)).1] at hBusy
          cases hBusy
      · intro hWorks
        rcases enters_store hEnters with ⟨-, rfl⟩ | ⟨hStarts, rfl⟩
        · have hBusy := (works_iff.mp hWorks).2.1
          rw [idle_inProgress] at hBusy
          cases hBusy
        · rw [meet_start hStarts, hTries]
          exact (hClear hStarts (Or.inr (works_iff.mp hWorks).2.2)).2
      · intro hWorks
        rcases enters_store hEnters with ⟨-, rfl⟩ | ⟨hStarts, rfl⟩
        · have hBusy := (works_iff.mp hWorks).2.1
          rw [idle_inProgress] at hBusy
          cases hBusy
        · exact Due.fresh rfl (hClear hStarts (Or.inr (works_iff.mp hWorks).2.2)).2
      · intro hFree
        rw [hPending]
        exact h.sound.pending_eq_nil (hTimed.symm.trans hFree)
    | fire a =>
      obtain ⟨hPending, hNone⟩ := h.sound.fired hLeaves
      have hProgress (hWorks : dd.works = true) : d.dd.inProgress = true :=
        hEntered.progress (fun hStarts => hStarts) (works_iff.mp hWorks).2.1
      refine Counting.after hUpdate hSound hTracks hRange ?_ ?_ ?_ fun _ => hNone
      · intro hTimed
        rw [hEntered.fired a rfl] at hTimed
        cases hTimed
      · intro hWorks
        rw [hTries]
        show d.dd.ddWorktries = (w.arrive a).works
        rw [arrive_works]
        exact h.count (hProgress hWorks)
      · intro hWorks
        exact due_of_plan
          (h.plan (hProgress hWorks) a (by rw [hPending]; exact List.mem_singleton.mpr rfl)) hEnters

theorem start_inProgress (dd : DiskData) {val : BitVec 32}
    (h : val = diskstatReading ∨ val = diskstatWriting) : (dd.start val).inProgress = true := by
  have hBit : val &&& diskbitInprogress = 1 := by
    rcases h with rfl | rfl
    · rfl
    · rfl
  simp [DiskData.inProgress, DiskData.start, hBit]

/-- The first phase of an operation that has just been started is not its transfer. -/
theorem phase_started {dd : DiskData} {val : BitVec 32} {cyl : Nat} {h : Host} {r : Done DiskData}
    (hPhase : Phase (dd.start val).tried cyl h r)
    (hVal : val = diskstatReading ∨ val = diskstatWriting) :
    r.dev.inProgress = true ∧ r.dev.ddWorktries = dd.ddWorktries + 1 ∧ ∃ a, r.arm = some a := by
  have hStart := start_inProgress dd hVal
  cases hPhase with
  | seek _ => exact ⟨hStart, rfl, _, rfl⟩
  | cacheWrite _ _ _ => exact ⟨hStart, rfl, _, rfl⟩
  | rotation _ _ _ => exact ⟨hStart, rfl, _, rfl⟩
  | cacheRead _ _ _ _ =>
    refine ⟨?_, rotated_ddWorktries (dd.start val).tried, _, rfl⟩
    show (dd.start val).tried.rotated.inProgress = true
    rw [DiskData.inProgress, (rotated_same (dd.start val).tried).2.2.1]
    exact hStart
  | transfer _ hWrite hRead _ =>
    have hStatus : (dd.start val).tried.ddIostatus = 0 := rfl
    cases hIs : (dd.start val).tried.isWrite with
    | true =>
      have hOne := hWrite hIs
      omega
    | false =>
      have hThree := hRead hIs
      omega

/-- A start that keeps the count right found the counter cleared. -/
theorem startsFresh_of_counted (hStep : Watched.Step c bigEndian s l s') (hCounted : Counted s')
    (hMsgs : l.msgs = []) : StartsFresh s l := by
  intro hStarts
  obtain ⟨hDisk⟩ := hStep
  rename_i d d' w
  cases step_cases hDisk with
  | register buf hEnters _ _ _ =>
    obtain ⟨hOffset, hVal⟩ := hStarts
    rw [enters_start hOffset hVal] at hEnters
    cases hEnters
  | @update act now host dd doom pending r hEnters hLeaves hUpdate =>
    cases act with
    | fire a => exact hStarts.elim
    | store offset val =>
      have hVal := hStarts.2
      have hStart : (DiskAct.store offset val).enters d.dd now = some (d.dd.start val) :=
        enters_start hStarts.1 hVal
      rw [hStart] at hEnters
      cases hEnters
      have hNext : w.next d ⟨.store offset val, now, r.hostIo, r.msgs⟩
          (Disk.after { d with pending := pending } r doom) =
          (w.begin d.dd.ddCurrentTrack).work (d.dd.start val) r.dev := by
        rw [next_of_enters hStart, meet_start hStarts]
        rfl
      rw [hNext] at hCounted
      have hCount : r.dev.inProgress = true → r.dev.ddWorktries =
          ((w.begin d.dd.ddCurrentTrack).work (d.dd.start val) r.dev).works := hCounted.1
      obtain ⟨r', hWorked, rfl⟩ := update_cases hUpdate
      cases hWorked with
      | waiting hBusy =>
        left
        have hEq := hCount (start_inProgress d.dd hVal)
        rw [Watch.work, if_neg] at hEq
        · exact hEq
        · intro hWorks
          rw [(works_iff.mp hWorks).1] at hBusy
          cases hBusy
      | idle _ hIdle =>
        rw [start_inProgress d.dd hVal] at hIdle
        cases hIdle
      | invalid hFree _ hInvalid => exact Or.inr ⟨hFree, hInvalid⟩
      | forced _ _ _ _ => cases hMsgs
      | phase hFree hProgress hValid _ _ hPhase =>
        left
        obtain ⟨hBusy, hTries, -⟩ := phase_started hPhase hVal
        have hEq := hCount hBusy
        rw [work_works (works_iff.mpr ⟨hFree, hProgress, hValid⟩)] at hEq
        have hOne : r'.dev.ddWorktries = ((0 + 1 : Nat) : Int) := hEq
        show d.dd.ddWorktries = 0
        omega

theorem Disk.Init.counting {d : Disk} (h : d.Init) : Counting (d, Watch.fresh) := by
  have hIdle : d.dd.inProgress = false := by
    rw [DiskData.inProgress, h.stat]
    rfl
  refine ⟨h.sound, h.tracks, ?_, ?_, ?_, ?_, ?_⟩
  · show 0 ≤ d.dd.ddWorktries ∧ d.dd.ddWorktries ≤ maxWorktries
    rw [h.worktries]
    exact zero_in_range
  · intro hTimed
    rw [h.timedop] at hTimed
    cases hTimed
  · intro hBusy
    rw [hIdle] at hBusy
    cases hBusy
  · intro hBusy
    rw [hIdle] at hBusy
    cases hBusy
  · intro hBusy
    rw [hIdle] at hBusy
    cases hBusy

theorem startsFresh_of_run {p : List (DiskLabel × (Disk × Watch))}
    (hRun : Path (Watched.Step c bigEndian) s p s') (hStates : AllStates Counted s p)
    (hMsgs : AllSteps (fun _ l _ => l.msgs = []) s p) :
    AllSteps (fun s l _ => StartsFresh s l) s p := by
  induction hRun with
  | nil s => trivial
  | cons hStep _ ih =>
    rw [allStates_cons] at hStates
    rw [allSteps_cons] at hMsgs
    exact ⟨startsFresh_of_counted hStep hStates.2.1 hMsgs.1, ih hStates.2 hMsgs.2⟩

/-- Where the sector register is left alone, the counter is right and the timing is never
skipped exactly when no operation starts on the tries of another. -/
theorem counted_iff_starts_fresh {d : Disk} {p : List (DiskLabel × (Disk × Watch))}
    (hInit : d.Init) (hRun : Path (Watched.Step c bigEndian) (d, Watch.fresh) p s')
    (hKept : AllSteps (fun s l _ => SectorKept s l) (d, Watch.fresh) p) :
    AllStates Counted (d, Watch.fresh) p ∧
        AllSteps (fun _ l _ => l.msgs = []) (d, Watch.fresh) p ↔
      AllSteps (fun s l _ => StartsFresh s l) (d, Watch.fresh) p := by
  constructor
  · rintro ⟨hStates, hMsgs⟩
    exact startsFresh_of_run hRun hStates hMsgs
  · intro hFresh
    have hMeets := hKept.and hFresh
    constructor
    · obtain ⟨hHead, hTail⟩ := hRun.allStates_of_allSteps (P := Counting)
        (fun _ _ _ hs hBoth hStep => (hs.step hBoth.1 hBoth.2 hStep).1) hInit.counting hMeets
      exact ⟨hHead.counted, fun e he => (hTail e he).counted⟩
    · exact hRun.allSteps_of_invariant (P := Counting)
        (fun _ _ _ hs hBoth hStep => hs.step hBoth.1 hBoth.2 hStep) hInit.counting hMeets

theorem startsFresh_of_zero (h : s.1.dd.ddWorktries = 0) : StartsFresh s l := fun _ => Or.inl h

theorem startsFresh_fire {a : Arm} (h : l.act = .fire a) : StartsFresh s l := by
  intro hStarts
  rw [h] at hStarts
  exact hStarts.elim

set_option maxRecDepth 20000 in
theorem counted_small : ∃ p s, Path (Watched.Step smallConfig true) (smallDisk, Watch.fresh) p s ∧
    s.1.line = true ∧ AllStates Counted (smallDisk, Watch.fresh) p := by
  obtain ⟨p, s, hRun, hLine, hKept, hFresh⟩ : ∃ p s,
      Path (Watched.Step smallConfig true) (smallDisk, Watch.fresh) p s ∧ s.1.line = true ∧
      AllSteps (fun s l _ => SectorKept s l) (smallDisk, Watch.fresh) p ∧
      AllSteps (fun s l _ => StartsFresh s l) (smallDisk, Watch.fresh) p := by
    exact ⟨_, _,
      .cons (.mk (@Disk.Step.store smallConfig true _ 4 1 (0, 0) stillHost _ _ _ rfl))
      (.cons (.mk (@Disk.Step.fire smallConfig true _ [] _ _ (0, 0) stillHost _ rfl rfl))
      (.cons (.mk (@Disk.Step.fire smallConfig true _ [] _ _ (1, 0) stillHost _ rfl rfl))
      (.cons (.mk (@Disk.Step.fire smallConfig true _ [] _ _ (1, 0) stillHost _ rfl rfl)) (.nil _)))),
      rfl, ⟨fun _ => rfl, fun _ => rfl, fun _ => rfl, fun _ => rfl, trivial⟩,
      ⟨startsFresh_of_zero rfl, startsFresh_fire rfl, startsFresh_fire rfl, startsFresh_fire rfl,
        trivial⟩⟩
  exact ⟨p, s, hRun, hLine, ((counted_iff_starts_fresh smallDisk_init hRun hKept).mpr hFresh).1⟩

/-! ### Reads that are aborted while they seek -/

/-- Nothing is in progress and nothing is awaited, and `n` calls have not been cleared. -/
structure Idling (n : Nat) (d : Disk) : Prop where
  sound : d.Sound
  geometry : d.dd.geometryOk
  sect : d.dd.ddSect < d.dd.ddTotsectors
  free : d.dd.ddTimedop = false
  worktries : d.dd.ddWorktries = n

theorem update_ok (c : DiskConfig) {dd : DiskData} (hGeometry : dd.geometryOk)
    (now : BitVec 32 × BitVec 32) (h : Host) : ∃ r, c.update dd now h = .ok r :=
  diskUpdate_ok hGeometry now _

theorem step_start {d : Disk} {now : BitVec 32 × BitVec 32} {h : Host} {r : Done DiskData}
    (hUpdate : c.update (d.dd.start diskstatReading) now h = .ok r) :
    Disk.Step c bigEndian d ⟨.store 4 diskstatReading, now, r.hostIo, r.msgs⟩ (d.after r d.doom) := by
  have hStore : diskStore c bigEndian d.dd d.doom 4 diskstatReading now h =
      (c.update (d.dd.start diskstatReading) now h).map fun r => (true, r, d.doom) := by
    show ((c.update (d.dd.start diskstatReading) now h).map _).map _ = _
    cases c.update (d.dd.start diskstatReading) now h <;> rfl
  rw [hUpdate] at hStore
  exact .store hStore

theorem step_abort {d : Disk} {now : BitVec 32 × BitVec 32} {h : Host} {r : Done DiskData}
    (hUpdate : c.update d.dd.idle now h = .ok r) :
    Disk.Step c bigEndian d ⟨.store 4 diskstatIdle, now, r.hostIo, r.msgs⟩ (d.after r d.doom) := by
  have hStore : diskStore c bigEndian d.dd d.doom 4 diskstatIdle now h =
      (c.update d.dd.idle now h).map fun r => (true, r, d.doom) := by
    show ((c.update d.dd.idle now h).map _).map _ = _
    cases c.update d.dd.idle now h <;> rfl
  rw [hUpdate] at hStore
  exact .store hStore

theorem update_waiting {dd : DiskData} {now : BitVec 32 × BitVec 32} {h : Host} {r : Done DiskData}
    (hUpdate : c.update dd now h = .ok r) (hBusy : dd.ddTimedop = true) :
    r.dev = dd ∧ r.arm = none := by
  obtain ⟨r', hWorked, rfl⟩ := update_cases hUpdate
  cases hWorked with
  | waiting _ => exact ⟨rfl, rfl⟩
  | idle hFree _ => simp [hFree] at hBusy
  | invalid hFree _ _ => simp [hFree] at hBusy
  | forced hFree _ _ _ => simp [hFree] at hBusy
  | phase hFree _ _ _ _ _ => simp [hFree] at hBusy

theorem update_idle {dd : DiskData} {now : BitVec 32 × BitVec 32} {h : Host} {r : Done DiskData}
    (hUpdate : c.update dd now h = .ok r) (hIdle : dd.inProgress = false) : r.dev = dd := by
  obtain ⟨r', hWorked, rfl⟩ := update_cases hUpdate
  cases hWorked with
  | waiting _ => rfl
  | idle _ _ => rfl
  | invalid _ hBusy _ => simp [hBusy] at hIdle
  | forced _ hBusy _ _ => simp [hBusy] at hIdle
  | phase _ hBusy _ _ _ _ => simp [hBusy] at hIdle

theorem exists_enters {a : Arm} (h : a.func.ofDisk) (dd : DiskData) (now : BitVec 32 × BitVec 32) :
    ∃ dd', (DiskAct.fire a).enters dd now = some dd' := by
  cases hFunc : a.func with
  | diskSeekdone => exact ⟨_, enters_seekdone hFunc dd now⟩
  | diskWaitdone => exact ⟨_, enters_waitdone hFunc dd now⟩
  | _ =>
    rw [hFunc] at h
    exact h.elim

theorem fire_of_enters {a : Arm} {dd dd' : DiskData} {now : BitVec 32 × BitVec 32} {h : Host}
    (hEnters : (DiskAct.fire a).enters dd now = some dd') :
    c.fire dd a now h = c.update dd' now h := by
  rw [DiskAct.enters] at hEnters
  rw [DiskConfig.fire]
  cases hFunc : a.func with
  | diskSeekdone =>
    rw [hFunc] at hEnters
    cases hEnters
    rfl
  | diskWaitdone =>
    rw [hFunc] at hEnters
    cases hEnters
    rfl
  | _ =>
    rw [hFunc] at hEnters
    cases hEnters

theorem Idling.started {n : Nat} {d : Disk} (h : Idling n d) (hn : n < 10)
    {now : BitVec 32 × BitVec 32} {host : Host} {r : Done DiskData}
    (hUpdate : c.update (d.dd.start diskstatReading) now host = .ok r) :
    ∃ a, r.arm = some a ∧ a.func.ofDisk ∧ r.dev.ddTimedop = true ∧ r.dev.ddWorktries = n + 1 := by
  have hUpdated := update_spec hUpdate
  have hFree : (d.dd.start diskstatReading).ddTimedop = false := h.free
  have hProgress := start_inProgress d.dd (Or.inl (Eq.refl diskstatReading))
  obtain ⟨r', hWorked, rfl⟩ := update_cases hUpdate
  cases hWorked with
  | waiting hTimed =>
    rw [hFree] at hTimed
    cases hTimed
  | idle _ hIdle =>
    rw [hProgress] at hIdle
    cases hIdle
  | invalid _ _ hInvalid => exact absurd hInvalid (BitVec.not_le.mpr h.sect)
  | forced _ _ _ hMany =>
    have hTries : (d.dd.start diskstatReading).ddWorktries = n := h.worktries
    have hLimit : maxWorktries = 10 := rfl
    omega
  | phase _ _ _ _ _ hPhase =>
    obtain ⟨-, hTries, a, hArm⟩ := phase_started hPhase (Or.inl (Eq.refl diskstatReading))
    refine ⟨a, hArm, hUpdated.disk a hArm, ?_, ?_⟩
    · have hTimed : r'.dev.ddTimedop = r'.arm.isSome := hUpdated.armed hFree
      rw [hArm] at hTimed
      exact hTimed
    · rw [← h.worktries]
      exact hTries

/-- A read, its abort, and the event that is left of it. -/
theorem Idling.round {n : Nat} (h : Idling n s.1) (hn : n < 10) :
    ∃ p s', Path (Watched.Step c bigEndian) s p s' ∧
      AllSteps (fun s l _ => SectorKept s l) s p ∧ Idling (n + 1) s'.1 := by
  obtain ⟨d, w⟩ := s
  have hStart : (d.dd.start diskstatReading).geometryOk := h.geometry
  obtain ⟨r, hr⟩ := update_ok c hStart (0, 0) stillHost
  obtain ⟨a, hArm, hDisk, hBusy, hTries⟩ := h.started hn hr
  have hRead := update_spec hr
  have hPending : (d.after r d.doom).pending = [a] := by
    rw [Disk.after, hArm, h.sound.pending_eq_nil h.free]
    rfl
  -- the read is aborted while its event is on the queue
  have hIdle : r.dev.idle.geometryOk := hRead.geometry.geometryOk hStart
  obtain ⟨r₁, hr₁⟩ := update_ok c hIdle (0, 0) stillHost
  have hWait : r₁.dev = r.dev.idle ∧ r₁.arm = none := update_waiting hr₁ hBusy
  -- the event fires, and finds nothing to do
  obtain ⟨dd, hEnters⟩ := exists_enters hDisk r₁.dev (0, 0)
  have hEntered := enters_spec hEnters
  have hFired : dd.geometryOk := by
    refine hEntered.geometry.geometryOk ?_
    rw [hWait.1]
    exact hIdle
  obtain ⟨r₂, hr₂⟩ := update_ok c hFired (0, 0) stillHost
  have hNothing : dd.inProgress = false := by
    by_contra hNot
    have hBefore := hEntered.progress (fun hStarts => hStarts) (by simpa using hNot)
    rw [hWait.1, idle_inProgress] at hBefore
    cases hBefore
  have hRest : r₂.dev = dd := update_idle hr₂ hNothing
  have hStep : Disk.Step c bigEndian d ⟨.store 4 diskstatReading, (0, 0), r.hostIo, r.msgs⟩
      (d.after r d.doom) := step_start hr
  have hStep₁ : Disk.Step c bigEndian (d.after r d.doom)
      ⟨.store 4 diskstatIdle, (0, 0), r₁.hostIo, r₁.msgs⟩ ((d.after r d.doom).after r₁ d.doom) :=
    step_abort hr₁
  have hPending₁ : ((d.after r d.doom).after r₁ d.doom).pending = [] ++ a :: [] := by
    rw [Disk.after, hPending, hWait.2]
    rfl
  have hStep₂ : Disk.Step c bigEndian _ _ _ :=
    .fire hPending₁ ((fire_of_enters hEnters).trans hr₂)
  refine ⟨_, _, .cons (.mk hStep) (.cons (.mk hStep₁) (.cons (.mk hStep₂) (.nil _))),
    ⟨fun _ => rfl, fun _ => rfl, fun _ => rfl, trivial⟩, ?_, ?_, ?_, ?_, ?_⟩
  · have hSound := (step_cases hStep₁).sound ((step_cases hStep).sound h.sound)
    exact (step_cases hStep₂).sound hSound
  · show r₂.dev.geometryOk
    rw [hRest]
    exact hFired
  · show r₂.dev.ddSect < r₂.dev.ddTotsectors
    have hSect : dd.ddSect = d.dd.ddSect := by
      rw [hEntered.sect, hWait.1]
      exact hRead.sect
    have hTotal : dd.ddTotsectors = d.dd.ddTotsectors := by
      rw [hEntered.geometry.2, hWait.1]
      exact hRead.geometry.2
    rw [hRest, hSect, hTotal]
    exact h.sect
  · show r₂.dev.ddTimedop = false
    rw [hRest]
    exact hEntered.fired a rfl
  · show r₂.dev.ddWorktries = ((n + 1 : Nat) : Int)
    rw [hRest, enters_worktries hEnters, hWait.1]
    exact hTries

theorem Idling.rounds {n : Nat} (h : Idling 0 s.1) (hn : n ≤ 10) :
    ∃ p s', Path (Watched.Step c bigEndian) s p s' ∧
      AllSteps (fun s l _ => SectorKept s l) s p ∧ Idling n s'.1 := by
  induction n with
  | zero => exact ⟨[], s, .nil s, trivial, h⟩
  | succ n ih =>
    obtain ⟨p, s₁, hRun, hKept, hIdling⟩ := ih (by omega)
    obtain ⟨q, s₂, hRun', hKept', hIdling'⟩ := hIdling.round (c := c) (by omega)
    exact ⟨p ++ q, s₂, hRun.append hRun', hRun.allSteps_append_iff.mpr ⟨hKept, hKept'⟩, hIdling'⟩

/-- With its tries used up by the reads aborted before it, a read skips all timing. -/
theorem Idling.fault {d : Disk} (h : Idling 10 d) {now : BitVec 32 × BitVec 32} {host : Host}
    {r : Done DiskData} (hUpdate : c.update (d.dd.start diskstatReading) now host = .ok r) :
    r.msgs = ["Geometry modeling fault! Please report to maintainer."] := by
  obtain ⟨r', hWorked, rfl⟩ := update_cases hUpdate
  have hFree : (d.dd.start diskstatReading).ddTimedop = false := h.free
  have hProgress := start_inProgress d.dd (Or.inl (Eq.refl diskstatReading))
  cases hWorked with
  | waiting hTimed =>
    rw [hFree] at hTimed
    cases hTimed
  | idle _ hIdle =>
    rw [hProgress] at hIdle
    cases hIdle
  | invalid _ _ hInvalid => exact absurd hInvalid (BitVec.not_le.mpr h.sect)
  | forced _ _ _ _ => rfl
  | phase _ _ _ hFew _ _ =>
    have hTries : (d.dd.start diskstatReading).ddWorktries = ((10 : Nat) : Int) := h.worktries
    have hLimit : maxWorktries = 10 := rfl
    omega

theorem smallDisk_idling : Idling 0 smallDisk where
  sound := smallDisk_init.sound
  geometry := by
    have hSectors : smallDisk.dd.ddSectors = List.replicate numtracks 2 := rfl
    rw [DiskData.geometryOk, hSectors, List.map_replicate, List.sum_replicate]
    decide
  sect := by decide
  free := rfl
  worktries := rfl

/-- Eleven reads in a row, ten of them aborted. -/
theorem aborted_reads_fault : ∃ p s, Path (Watched.Step smallConfig true)
    (smallDisk, Watch.fresh) p s ∧
    AllSteps (fun s l _ => SectorKept s l) (smallDisk, Watch.fresh) p ∧
    ¬(AllStates Counted (smallDisk, Watch.fresh) p ∧
      AllSteps (fun _ l _ => l.msgs = []) (smallDisk, Watch.fresh) p) := by
  obtain ⟨p, ⟨d, w⟩, hRun, hKept, hIdling⟩ : ∃ p s, Path (Watched.Step smallConfig true)
      (smallDisk, Watch.fresh) p s ∧
      AllSteps (fun s l _ => SectorKept s l) (smallDisk, Watch.fresh) p ∧ Idling 10 s.1 :=
    Idling.rounds smallDisk_idling (le_refl 10)
  have hStart : (d.dd.start diskstatReading).geometryOk := hIdling.geometry
  obtain ⟨r, hr⟩ := update_ok smallConfig hStart (0, 0) stillHost
  have hLast : Watched.Step smallConfig true (d, w) _ _ := .mk (step_start hr)
  refine ⟨_, _, hRun.append (.cons hLast (.nil _)),
    hRun.allSteps_append_iff.mpr ⟨hKept, fun _ => rfl, trivial⟩, ?_⟩
  rintro ⟨-, hMsgs⟩
  have hEnd := (hRun.allSteps_append_iff.mp hMsgs).2.1
  rw [hIdling.fault hr] at hEnd
  cases hEnd

end Sys161.Bus
