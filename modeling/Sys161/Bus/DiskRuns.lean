import Sys161.Bus.Disk
import Sys161.Bus.Handlers

/-!
# What holds over every run of the disk

What one call of `disk_work` does is said once, case by case; the transfers, the
line, the events and the status bits of a run are read off those cases.
-/

namespace Sys161.Bus

open Runs

set_option autoImplicit false

/-! ## One call of `disk_work` -/

/-- No delay is left once the head has seen the sector pass. -/
def DiskData.rotated (dd : DiskData) : DiskData :=
  if dd.ddIostatus < 2 then { dd with ddIostatus := 2 } else dd

def DiskData.tried (dd : DiskData) : DiskData := { dd with ddWorktries := dd.ddWorktries + 1 }

def DiskData.derailed (dd : DiskData) (now : BitVec 32 × BitVec 32) : DiskData :=
  { dd.tried with
    ddCurrentTrack := 0
    ddTrackarrivalSecs := now.1
    ddTrackarrivalNsecs := now.2
    ddIostatus := -1
    ddTimedop := false }

/-- The outcomes of `diskPhase`, each with the condition it comes under. -/
inductive Phase (dd : DiskData) (cyl : Nat) (h : Host) : Done DiskData → Prop where
  | seek : dd.ddCurrentTrack ≠ cyl →
      Phase dd cyl h (dd.wait ((diskSeektime (cyl - dd.ddCurrentTrack).natAbs).setWidth 64)
        (BitVec.ofNat 32 cyl) .diskSeekdone "disk seek")
  | cacheWrite : dd.ddCurrentTrack = cyl → dd.isWrite = true → dd.ddIostatus < 1 →
      Phase dd cyl h (dd.wait cacheWriteTime 1 .diskWaitdone "disk cache write")
  | rotation : dd.ddCurrentTrack = cyl → (dd.isWrite = true → 1 ≤ dd.ddIostatus) →
      dd.ddIostatus < 2 →
      Phase dd cyl h (dd.wait (h.rotdelay.setWidth 64) 2 .diskWaitdone "disk rotation")
  | cacheRead : dd.ddCurrentTrack = cyl → dd.isWrite = false → dd.ddIostatus < 3 →
      (dd.ddIostatus < 2 → h.rotdelay = 0) →
      Phase dd cyl h (dd.rotated.wait cacheReadTime 3 .diskWaitdone "disk cache read")
  | transfer : dd.ddCurrentTrack = cyl → (dd.isWrite = true → 1 ≤ dd.ddIostatus) →
      (dd.isWrite = false → 3 ≤ dd.ddIostatus) → (dd.ddIostatus < 2 → h.rotdelay = 0) →
      Phase dd cyl h (forceio dd.rotated h)

/-- The outcomes of `disk_work`. -/
inductive Worked (dd : DiskData) (now : BitVec 32 × BitVec 32) (h : Host) : Done DiskData → Prop where
  | waiting : dd.ddTimedop = true → Worked dd now h { dev := dd }
  | idle : dd.ddTimedop = false → dd.inProgress = false → Worked dd now h { dev := dd }
  | invalid : dd.ddTimedop = false → dd.inProgress = true → dd.ddTotsectors ≤ dd.ddSect →
      Worked dd now h { dev := dd.finish (diskbitComplete ||| diskbitInvsect) }
  | forced : dd.ddTimedop = false → dd.inProgress = true → dd.ddSect < dd.ddTotsectors →
      maxWorktries ≤ dd.ddWorktries →
      Worked dd now h { forceio (dd.derailed now) h with
        msgs := ["Geometry modeling fault! Please report to maintainer."] }
  | phase {cyl : Nat} {rotoffset : BitVec 32} {r : Done DiskData} : dd.ddTimedop = false →
      dd.inProgress = true → dd.ddSect < dd.ddTotsectors → dd.ddWorktries < maxWorktries →
      locateSector dd dd.ddSect = .ok (cyl, rotoffset) → Phase dd.tried cyl h r → Worked dd now h r

theorem rotated_same (dd : DiskData) : dd.sameGeometry dd.rotated ∧
    dd.rotated.ddSect = dd.ddSect ∧ dd.rotated.ddStat = dd.ddStat ∧
    dd.rotated.ddTimedop = dd.ddTimedop := by
  rw [DiskData.rotated]
  split <;> exact ⟨⟨rfl, rfl⟩, rfl, rfl, rfl⟩

theorem rotated_ddCurrentTrack (dd : DiskData) : dd.rotated.ddCurrentTrack = dd.ddCurrentTrack := by
  rw [DiskData.rotated]
  split <;> rfl

theorem rotated_ddWorktries (dd : DiskData) : dd.rotated.ddWorktries = dd.ddWorktries := by
  rw [DiskData.rotated]
  split <;> rfl

theorem rotated_ddIostatus {dd : DiskData} (h : dd.ddIostatus < 2) : dd.rotated.ddIostatus = 2 := by
  rw [DiskData.rotated, if_pos h]

theorem rotated_isWrite (dd : DiskData) : dd.rotated.isWrite = dd.isWrite := by
  rw [DiskData.rotated]
  split <;> rfl

theorem diskPhase_cases (dd : DiskData) (cyl : Nat) (h : Host) :
    Phase dd cyl h (diskPhase dd cyl h) := by
  rw [diskPhase]
  split
  · exact Phase.seek ‹_›
  · next hTrack =>
    have hTrack' : dd.ddCurrentTrack = cyl := not_not.mp hTrack
    split
    · next hCache => exact Phase.cacheWrite hTrack' hCache.1 hCache.2
    · next hCache =>
      have hCopied : dd.isWrite = true → 1 ≤ dd.ddIostatus := by
        intro hWrite
        by_contra hNot
        exact hCache ⟨hWrite, not_le.mp hNot⟩
      split
      · next hDelay => exact Phase.rotation hTrack' hCopied hDelay.1
      · next hDelay =>
        have hZero : dd.ddIostatus < 2 → h.rotdelay = 0 := by
          intro hBefore
          by_contra hNot
          exact hDelay ⟨hBefore, (BitVec.pos_iff_ne_zero _).mpr hNot⟩
        change Phase dd cyl h (if (!dd.rotated.isWrite) = true ∧ dd.rotated.ddIostatus < 3 then
          dd.rotated.wait cacheReadTime 3 .diskWaitdone "disk cache read"
          else forceio dd.rotated h)
        have hStatus : dd.rotated.ddIostatus < 3 ↔ dd.ddIostatus < 3 := by
          rw [DiskData.rotated]
          split
          · next hBefore =>
            constructor
            · intro _
              omega
            · intro _
              exact (by decide : (2 : Int) < 3)
          · rfl
        split
        · next hRead =>
          rw [rotated_isWrite] at hRead
          exact Phase.cacheRead hTrack' (by simpa using hRead.1) (hStatus.mp hRead.2) hZero
        · next hDone =>
          refine Phase.transfer hTrack' hCopied ?_ hZero
          intro hRead
          by_contra hNot
          refine hDone ⟨?_, hStatus.mpr (not_le.mp hNot)⟩
          rw [rotated_isWrite, hRead]
          rfl

theorem diskWork_cases {dd : DiskData} {now : BitVec 32 × BitVec 32} {h : Host}
    {r : Done DiskData} (hOk : diskWork dd now h = .ok r) : Worked dd now h r := by
  rw [diskWork] at hOk
  split at hOk
  · cases hOk
    exact Worked.waiting ‹_›
  · next hTimed =>
    have hFree : dd.ddTimedop = false := by simpa using hTimed
    split at hOk
    · next hIdle =>
      cases hOk
      exact Worked.idle hFree (by simpa using hIdle)
    · next hBusy =>
      have hProgress : dd.inProgress = true := by simpa using hBusy
      split at hOk
      · cases hOk
        exact Worked.invalid hFree hProgress ‹_›
      · next hSect =>
        have hValid : dd.ddSect < dd.ddTotsectors := BitVec.not_le.mp hSect
        dsimp only at hOk
        split at hOk
        · next hTries =>
          cases hOk
          refine Worked.forced hFree hProgress hValid ?_
          exact Int.lt_add_one_iff.mp hTries
        · next hTries =>
          obtain ⟨⟨cyl, rotoffset⟩, hLocate, rfl⟩ := map_eq_ok hOk
          refine Worked.phase hFree hProgress hValid ?_ hLocate (diskPhase_cases _ _ _)
          exact Int.lt_of_add_one_le (not_lt.mp hTries)

/-- `disk_update` adds the line to what `disk_work` did. -/
theorem update_cases {c : DiskConfig} {dd : DiskData} {now : BitVec 32 × BitVec 32} {h : Host}
    {r : Done DiskData} (hOk : c.update dd now h = .ok r) :
    ∃ w, Worked dd now { h with rotdelay := c.rotdelay dd now } w ∧
      r = { w with irq := some (decide (w.dev.ddStat &&& diskbitComplete ≠ 0)) } := by
  obtain ⟨w, hWork, rfl⟩ := map_eq_ok hOk
  exact ⟨w, diskWork_cases hWork, rfl⟩

def DiskData.complete (dd : DiskData) : Bool := dd.ddStat &&& diskbitComplete ≠ 0

/-- The transfer of one sector, behind the header. -/
def DiskData.transfer (dd : DiskData) : HostIo where
  write := dd.isWrite
  offset := dd.ddSect.toNat * sectsize + headersize
  length := sectsize

/-- What any call of `disk_update` keeps, and what it leaves when it makes a transfer. -/
structure Updated (dd : DiskData) (r : Done DiskData) : Prop where
  geometry : dd.sameGeometry r.dev
  sect : r.dev.ddSect = dd.ddSect
  irq : r.irq = some r.dev.complete
  busy : dd.ddTimedop = true → r.dev.ddTimedop = true ∧ r.arm = none
  armed : dd.ddTimedop = false → r.dev.ddTimedop = r.arm.isSome
  disk : ∀ a, r.arm = some a → a.func.ofDisk
  apart : (dd.inProgress = true → dd.complete = false) →
    r.dev.inProgress = true → r.dev.complete = false
  progress : r.dev.inProgress = true → dd.inProgress = true
  io : ∀ io, r.hostIo = some io → dd.inProgress = true ∧ r.dev.inProgress = false ∧
    dd.ddSect < dd.ddTotsectors ∧ io = dd.transfer

theorem forceio_inProgress (dd : DiskData) (h : Host) : (forceio dd h).dev.inProgress = false := by
  refine finish_inProgress ?_
  split <;> rfl

theorem forceio_ddTimedop (dd : DiskData) (h : Host) :
    (forceio dd h).dev.ddTimedop = dd.ddTimedop := by
  rw [forceio]
  cases dd.isWrite <;> rfl

theorem forceio_ddIostatus (dd : DiskData) (h : Host) :
    (forceio dd h).dev.ddIostatus = dd.ddIostatus := by
  rw [forceio]
  cases dd.isWrite <;> rfl

theorem forceio_ddSect (dd : DiskData) (h : Host) : (forceio dd h).dev.ddSect = dd.ddSect := by
  rw [forceio]
  cases dd.isWrite <;> rfl

/-- A transfer as the end of a call. -/
theorem updated_forceio (dd dd' : DiskData) (hGeometry : dd.sameGeometry dd')
    (hSect : dd'.ddSect = dd.ddSect) (hStat : dd'.ddStat = dd.ddStat)
    (hFree' : dd'.ddTimedop = false) (hFree : dd.ddTimedop = false) (hProgress : dd.inProgress = true)
    (hValid : dd.ddSect < dd.ddTotsectors) (h : Host) (msgs : List String) :
    Updated dd { forceio dd' h with
      msgs := msgs, irq := some (forceio dd' h).dev.complete } where
  geometry := ⟨(forceio_geometry dd' h).1.trans hGeometry.1,
    (forceio_geometry dd' h).2.trans hGeometry.2⟩
  sect := (forceio_ddSect dd' h).trans hSect
  irq := rfl
  busy hBusy := by
    rw [hFree] at hBusy
    cases hBusy
  armed _ := (forceio_ddTimedop dd' h).trans hFree'
  disk a ha := by cases ha
  apart _ hNot := by
    rw [forceio_inProgress] at hNot
    cases hNot
  progress _ := hProgress
  io io hIo := by
    refine ⟨hProgress, forceio_inProgress dd' h, hValid, ?_⟩
    cases hIo
    simp only [DiskData.transfer, DiskData.isWrite, hSect, hStat]

/-- A wait as the end of a call. -/
theorem updated_wait (dd dd' : DiskData) (hGeometry : dd.sameGeometry dd')
    (hSect : dd'.ddSect = dd.ddSect) (hStat : dd'.ddStat = dd.ddStat)
    (hFree : dd.ddTimedop = false) (hProgress : dd.inProgress = true) (nsecs : BitVec 64)
    (code : BitVec 32) (func : Func) (desc : String) (hFunc : func.ofDisk) :
    Updated dd { dd'.wait nsecs code func desc with
      irq := some (dd'.wait nsecs code func desc).dev.complete } where
  geometry := hGeometry
  sect := hSect
  irq := rfl
  busy hBusy := by
    rw [hFree] at hBusy
    cases hBusy
  armed _ := rfl
  disk a ha := by
    cases ha
    exact hFunc
  apart hApart _ := by
    have hComplete : dd.complete = false := hApart hProgress
    simpa only [DiskData.complete, DiskData.wait, hStat] using hComplete
  progress _ := hProgress
  io io hIo := by cases hIo

theorem Updated.idle {dd : DiskData} {r : Done DiskData} (h : Updated dd r)
    (hIdle : dd.inProgress = false) : r.hostIo = none ∧ r.dev.inProgress = false := by
  constructor
  · cases hIo : r.hostIo with
    | none => rfl
    | some io =>
      have hBusy := (h.io io hIo).1
      rw [hIdle] at hBusy
      cases hBusy
  · by_contra hBusy
    have hBefore := h.progress (by simpa using hBusy)
    rw [hIdle] at hBefore
    cases hBefore

theorem update_spec {c : DiskConfig} {dd : DiskData} {now : BitVec 32 × BitVec 32} {h : Host}
    {r : Done DiskData} (hOk : c.update dd now h = .ok r) : Updated dd r := by
  obtain ⟨w, hWorked, rfl⟩ := update_cases hOk
  have hRest : (dd.ddTimedop = false → dd.inProgress = false) →
      Updated dd { dev := dd, irq := some dd.complete } := by
    intro _
    exact {
      geometry := ⟨rfl, rfl⟩
      sect := rfl
      irq := rfl
      busy := fun hBusy => ⟨hBusy, rfl⟩
      armed := fun hFree => hFree
      disk := fun a ha => by cases ha
      apart := fun hApart => hApart
      progress := fun hProgress => hProgress
      io := fun io hIo => by cases hIo }
  cases hWorked with
  | waiting hBusy => exact hRest fun hFree => by simp [hBusy] at hFree
  | idle _ hIdle => exact hRest fun _ => hIdle
  | invalid hFree hProgress _ =>
    exact {
      geometry := ⟨rfl, rfl⟩
      sect := rfl
      irq := rfl
      busy := fun hBusy => by simp [hFree] at hBusy
      armed := fun _ => hFree
      disk := fun a ha => by cases ha
      apart := fun _ hNot => by
        rw [finish_inProgress rfl] at hNot
        cases hNot
      progress := fun _ => hProgress
      io := fun io hIo => by cases hIo }
  | forced hFree hProgress hValid _ =>
    exact updated_forceio dd (dd.derailed now) ⟨rfl, rfl⟩ rfl rfl rfl hFree hProgress hValid _ _
  | phase hFree hProgress hValid _ _ hPhase =>
    cases hPhase with
    | seek _ =>
      exact updated_wait dd dd.tried ⟨rfl, rfl⟩ rfl rfl hFree hProgress _ _ .diskSeekdone _ trivial
    | cacheWrite _ _ _ =>
      exact updated_wait dd dd.tried ⟨rfl, rfl⟩ rfl rfl hFree hProgress _ _ .diskWaitdone _ trivial
    | rotation _ _ _ =>
      exact updated_wait dd dd.tried ⟨rfl, rfl⟩ rfl rfl hFree hProgress _ _ .diskWaitdone _ trivial
    | cacheRead _ _ _ _ =>
      obtain ⟨hGeometry, hSect, hStat, _⟩ := rotated_same dd.tried
      exact updated_wait dd dd.tried.rotated hGeometry hSect hStat hFree hProgress _ _ .diskWaitdone _
        trivial
    | transfer _ _ _ _ =>
      obtain ⟨hGeometry, hSect, hStat, hTimed⟩ := rotated_same dd.tried
      exact updated_forceio dd dd.tried.rotated hGeometry hSect hStat (hTimed.trans hFree) hFree
        hProgress hValid _ _

/-! ## Steps -/

def DiskAct.writesStat : DiskAct → Prop
  | .store offset _ => offset.toNat = diskregStat
  | .fire _ => False

def DiskAct.aborts : DiskAct → Prop
  | .store offset val => offset.toNat = diskregStat ∧ val = diskstatIdle
  | .fire _ => False

def DiskAct.starts : DiskAct → Prop
  | .store offset val =>
    offset.toNat = diskregStat ∧ (val = diskstatReading ∨ val = diskstatWriting)
  | .fire _ => False

/-- The data on which `disk_update` is called in the course of the step, if it is. -/
def DiskAct.enters (dd : DiskData) (now : BitVec 32 × BitVec 32) : DiskAct → Option DiskData
  | .store offset val =>
    if offset.toNat = diskregStat then
      if val = diskstatIdle then some dd.idle
      else if val = diskstatReading ∨ val = diskstatWriting then some (dd.start val)
      else none
    else none
  | .fire a =>
    match a.func with
    | .diskSeekdone => some { dd with
        ddCurrentTrack := a.code.toInt
        ddTrackarrivalSecs := now.1
        ddTrackarrivalNsecs := now.2
        ddTimedop := false }
    | .diskWaitdone => some { dd with ddIostatus := a.code.toInt, ddTimedop := false }
    | _ => none

theorem setstatus_cases {c : DiskConfig} {dd : DiskData} {doom doom' : Doom} {val : BitVec 32}
    {now : BitVec 32 × BitVec 32} {h : Host} {r : Done DiskData}
    (hOk : diskSetstatus c dd doom val now h = .ok (r, doom')) :
    (val = diskstatIdle ∧ c.update dd.idle now h = .ok r) ∨
    ((val = diskstatReading ∨ val = diskstatWriting) ∧ c.update (dd.start val) now h = .ok r) ∨
    (val ≠ diskstatIdle ∧ ¬(val = diskstatReading ∨ val = diskstatWriting) ∧ r.dev = dd ∧
      r.irq = none ∧ r.arm = none ∧ r.hostIo = none ∧ r.msgs = []) := by
  rw [diskSetstatus] at hOk
  split at hOk
  · next hIdle =>
    obtain ⟨r', hUpdate, hr⟩ := map_eq_ok hOk
    cases hr
    exact Or.inl ⟨hIdle, hUpdate⟩
  · next hIdle =>
    split at hOk
    · next hReading =>
      obtain ⟨r', hUpdate, hr⟩ := map_eq_ok hOk
      cases hr
      exact Or.inr (Or.inl ⟨Or.inl hReading, hUpdate⟩)
    · next hReading =>
      split at hOk
      · next hWriting =>
        obtain ⟨r', hUpdate, hr⟩ := map_eq_ok hOk
        cases hr
        exact Or.inr (Or.inl ⟨Or.inr hWriting, hUpdate⟩)
      · next hWriting =>
        cases hOk
        exact Or.inr (Or.inr ⟨hIdle, not_or.mpr ⟨hReading, hWriting⟩, rfl, rfl, rfl, rfl, rfl⟩)

/-- The sector register after the step. -/
def DiskAct.sect (dd : DiskData) : DiskAct → BitVec 32
  | .store offset val => if offset.toNat = diskregSect then val else dd.ddSect
  | .fire _ => dd.ddSect

/-- What is on the queue while the step runs: an event that fires has left it. -/
def DiskAct.leaves (pending : List Arm) : DiskAct → List Arm → Prop
  | .store _ _, pending' => pending' = pending
  | .fire a, pending' => ∃ before after, pending = before ++ a :: after ∧ pending' = before ++ after

/-- The two kinds of step: a store that `disk_update` never sees, and a call of it. -/
inductive Stepped (c : DiskConfig) (d : Disk) : DiskLabel → Disk → Prop where
  | register {offset val : BitVec 32} {now : BitVec 32 × BitVec 32} {d' : Disk}
      (buf : Nat → BitVec 8) : (DiskAct.store offset val).enters d.dd now = none →
      d'.dd = { d.dd with ddBuf := buf, ddSect := (DiskAct.store offset val).sect d.dd } →
      d'.line = d.line → d'.pending = d.pending →
      Stepped c d ⟨.store offset val, now, none, []⟩ d'
  | update {act : DiskAct} {now : BitVec 32 × BitVec 32} {h : Host} {dd : DiskData} {doom : Doom}
      {pending : List Arm} {r : Done DiskData} : act.enters d.dd now = some dd →
      act.leaves d.pending pending → c.update dd now h = .ok r →
      Stepped c d ⟨act, now, r.hostIo, r.msgs⟩ (Disk.after { d with pending := pending } r doom)

theorem diskregStat_lt : diskregStat < diskBufStart := by simp [diskregStat, diskBufStart]

theorem diskregSect_lt : diskregSect < diskBufStart := by simp [diskregSect, diskBufStart]

theorem diskregStat_ne_sect : diskregStat ≠ diskregSect := by decide

theorem reading_ne_idle : ¬(diskstatReading = diskstatIdle) := by decide

theorem writing_ne_idle : ¬(diskstatWriting = diskstatIdle) := by decide

theorem enters_start {dd : DiskData} {now : BitVec 32 × BitVec 32} {offset val : BitVec 32}
    (hOffset : offset.toNat = diskregStat) (hVal : val = diskstatReading ∨ val = diskstatWriting) :
    (DiskAct.store offset val).enters dd now = some (dd.start val) := by
  have hIdle : ¬(val = diskstatIdle) := by
    rcases hVal with rfl | rfl
    · exact reading_ne_idle
    · exact writing_ne_idle
  rw [DiskAct.enters, if_pos hOffset, if_neg hIdle, if_pos hVal]

theorem enters_idle {dd : DiskData} {now : BitVec 32 × BitVec 32} {offset : BitVec 32}
    (hOffset : offset.toNat = diskregStat) :
    (DiskAct.store offset diskstatIdle).enters dd now = some dd.idle := by
  rw [DiskAct.enters, if_pos hOffset, if_pos rfl]

/-- A store beside the status register. -/
theorem stepped_register {c : DiskConfig} {d : Disk} {offset val sect : BitVec 32}
    {now : BitVec 32 × BitVec 32} {buf : Nat → BitVec 8} {r : Done DiskData} {doom : Doom}
    (hStat : ¬ offset.toNat = diskregStat)
    (hDev : r.dev = { d.dd with ddBuf := buf, ddSect := sect }) (hIrq : r.irq = none)
    (hArm : r.arm = none) (hIo : r.hostIo = none) (hMsgs : r.msgs = [])
    (hSect : (DiskAct.store offset val).sect d.dd = sect) :
    Stepped c d ⟨.store offset val, now, r.hostIo, r.msgs⟩ (d.after r doom) := by
  rw [hIo, hMsgs]
  refine Stepped.register buf ?_ ?_ ?_ ?_
  · rw [DiskAct.enters, if_neg hStat]
  · rw [hSect]
    exact hDev
  · rw [Disk.after, hIrq]
    rfl
  · rw [Disk.after, hArm]
    exact List.append_nil _

theorem step_cases {c : DiskConfig} {bigEndian : Bool} {d d' : Disk} {l : DiskLabel}
    (hStep : Disk.Step c bigEndian d l d') : Stepped c d l d' := by
  cases hStep with
  | @store offset val now h found r doom hStore =>
    rw [diskStore] at hStore
    split at hStore
    · next hBuf =>
      have hNe {reg : Nat} (hReg : reg < diskBufStart) : ¬ offset.toNat = reg := by
        intro hEq
        exact absurd hBuf.1 (by omega)
      cases hStore
      refine stepped_register (hNe diskregStat_lt) rfl rfl rfl rfl rfl ?_
      rw [DiskAct.sect, if_neg (hNe diskregSect_lt)]
    · split at hStore
      · next hStat =>
        obtain ⟨⟨r', doom'⟩, hSet, hr⟩ := map_eq_ok hStore
        cases hr
        rcases setstatus_cases hSet with ⟨rfl, hUpdate⟩ | ⟨hVal, hUpdate⟩ | ⟨hIdle, hStart, hRest⟩
        · exact Stepped.update (enters_idle hStat) rfl hUpdate
        · exact Stepped.update (enters_start hStat hVal) rfl hUpdate
        · obtain ⟨hDev, hIrq, hArm, hIo, hMsgs⟩ := hRest
          rw [hIo, hMsgs]
          refine Stepped.register d.dd.ddBuf ?_ ?_ ?_ ?_
          · rw [DiskAct.enters, if_pos hStat, if_neg hIdle, if_neg hStart]
          · rw [DiskAct.sect, if_neg (by rw [hStat]; exact diskregStat_ne_sect)]
            exact hDev
          · rw [Disk.after, hIrq]
            rfl
          · rw [Disk.after, hArm]
            exact List.append_nil _
      · next hStat =>
        split at hStore
        · next hSect =>
          cases hStore
          refine stepped_register hStat rfl rfl rfl rfl rfl ?_
          rw [DiskAct.sect, if_pos hSect]
        · next hSect =>
          cases hStore
          refine stepped_register hStat rfl rfl rfl rfl rfl ?_
          rw [DiskAct.sect, if_neg hSect]
  | @fire before after a now h r hPending hFire =>
    have hLeaves : (DiskAct.fire a).leaves d.pending (before ++ after) :=
      ⟨before, after, hPending, rfl⟩
    rw [DiskConfig.fire] at hFire
    cases hFunc : a.func with
    | diskSeekdone =>
      rw [hFunc] at hFire
      refine Stepped.update ?_ hLeaves hFire
      rw [DiskAct.enters, hFunc]
    | diskWaitdone =>
      rw [hFunc] at hFire
      refine Stepped.update ?_ hLeaves hFire
      rw [DiskAct.enters, hFunc]
    | _ =>
      rw [hFunc] at hFire
      cases hFire

/-- What the step has done to the data by the time `disk_update` sees them. -/
structure Entered (act : DiskAct) (dd dd' : DiskData) : Prop where
  geometry : dd.sameGeometry dd'
  sect : dd'.ddSect = dd.ddSect
  timed : ∀ offset val, act = .store offset val → dd'.ddTimedop = dd.ddTimedop
  fired : ∀ a, act = .fire a → dd'.ddTimedop = false
  apart : (dd.inProgress = true → dd.complete = false) → dd'.inProgress = true → dd'.complete = false
  progress : ¬ act.starts → dd'.inProgress = true → dd.inProgress = true
  aborted : act.aborts → dd'.inProgress = false

theorem idle_inProgress (dd : DiskData) : dd.idle.inProgress = false := by
  simp [DiskData.inProgress, DiskData.idle, diskstatIdle]

theorem idle_complete (dd : DiskData) : dd.idle.complete = false := by
  simp [DiskData.complete, DiskData.idle, diskstatIdle]

theorem start_complete (dd : DiskData) {val : BitVec 32}
    (h : val = diskstatReading ∨ val = diskstatWriting) : (dd.start val).complete = false := by
  have hBit : val &&& diskbitComplete = 0 := by
    rcases h with rfl | rfl
    · rfl
    · rfl
  simp [DiskData.complete, DiskData.start, hBit]

theorem enters_spec {act : DiskAct} {dd dd' : DiskData} {now : BitVec 32 × BitVec 32}
    (h : act.enters dd now = some dd') : Entered act dd dd' := by
  cases act with
  | store offset val =>
    rw [DiskAct.enters] at h
    split at h
    · next hOffset =>
      split at h
      · cases h
        exact {
          geometry := ⟨rfl, rfl⟩
          sect := rfl
          timed := fun _ _ _ => rfl
          fired := fun _ hAct => by cases hAct
          apart := fun _ _ => idle_complete dd
          progress := fun _ hProgress => by
            rw [idle_inProgress] at hProgress
            cases hProgress
          aborted := fun _ => idle_inProgress dd }
      · next hIdle =>
        split at h
        · next hVal =>
          cases h
          exact {
            geometry := ⟨rfl, rfl⟩
            sect := rfl
            timed := fun _ _ _ => rfl
            fired := fun _ hAct => by cases hAct
            apart := fun _ _ => start_complete dd hVal
            progress := fun hStarts _ => absurd ⟨hOffset, hVal⟩ hStarts
            aborted := fun hAborts => absurd hAborts.2 hIdle }
        · cases h
    · cases h
  | fire a =>
    have hSame {dd' : DiskData} (hGeometry : dd.sameGeometry dd') (hSect : dd'.ddSect = dd.ddSect)
        (hTimed : dd'.ddTimedop = false) (hStat : dd'.ddStat = dd.ddStat) :
        Entered (.fire a) dd dd' := by
      have hProgress : dd'.inProgress = dd.inProgress := by
        rw [DiskData.inProgress, DiskData.inProgress, hStat]
      have hComplete : dd'.complete = dd.complete := by
        rw [DiskData.complete, DiskData.complete, hStat]
      exact {
        geometry := hGeometry
        sect := hSect
        timed := fun _ _ hAct => by cases hAct
        fired := fun _ _ => hTimed
        apart := by
          rw [hProgress, hComplete]
          exact fun hApart => hApart
        progress := fun _ h => hProgress ▸ h
        aborted := fun hAborts => hAborts.elim }
    rw [DiskAct.enters] at h
    split at h
    · cases h
      exact hSame ⟨rfl, rfl⟩ rfl rfl rfl
    · cases h
      exact hSame ⟨rfl, rfl⟩ rfl rfl rfl
    · cases h

/-! ## Runs -/

/-- Status, events and line belong together. -/
structure Disk.Sound (d : Disk) : Prop where
  timed : d.pending.length = if d.dd.ddTimedop then 1 else 0
  line : d.line = d.dd.complete
  apart : d.dd.inProgress = true → d.dd.complete = false

variable {c : DiskConfig} {bigEndian : Bool} {d d' : Disk} {l : DiskLabel} {p : List (DiskLabel × Disk)}

theorem Disk.Init.sound (h : d.Init) : d.Sound where
  timed := by
    rw [h.pending, h.timedop]
    rfl
  line := by
    rw [h.line, DiskData.complete, h.stat]
    rfl
  apart _ := by
    rw [DiskData.complete, h.stat]
    rfl

theorem Stepped.sound (h : Stepped c d l d') (hd : d.Sound) : d'.Sound := by
  cases h with
  | register buf hEnters hDev hLine hPending =>
    refine ⟨?_, ?_, ?_⟩
    · rw [hPending, hDev]
      exact hd.timed
    · rw [hLine, hDev]
      exact hd.line
    · rw [hDev]
      exact hd.apart
  | @update act now host dd doom pending r hEnters hLeaves hUpdate =>
    have hEntered := enters_spec hEnters
    have hUpdated := update_spec hUpdate
    refine ⟨?_, ?_, hUpdated.apart (hEntered.apart hd.apart)⟩
    · have hBefore : pending.length = if dd.ddTimedop then 1 else 0 := by
        cases act with
        | store offset val =>
          rw [show pending = d.pending from hLeaves, hEntered.timed offset val rfl]
          exact hd.timed
        | fire a =>
          obtain ⟨before, after, hPending, rfl⟩ := hLeaves
          have hOne := hd.timed
          rw [hPending] at hOne
          rw [hEntered.fired a rfl]
          rw [List.length_append, List.length_cons] at hOne
          rw [List.length_append]
          split at hOne
          · simp only [Bool.false_eq_true, if_false]
            omega
          · omega
      show (pending ++ r.arm.toList).length = if r.dev.ddTimedop then 1 else 0
      rw [List.length_append, hBefore]
      cases hTimed : dd.ddTimedop with
      | true =>
        obtain ⟨hBusy, hArm⟩ := hUpdated.busy hTimed
        rw [hBusy, hArm]
        rfl
      | false =>
        rw [hUpdated.armed hTimed]
        cases r.arm <;> rfl
    · show r.irq.getD d.line = r.dev.complete
      rw [hUpdated.irq]
      rfl

theorem Stepped.total (h : Stepped c d l d') : d'.dd.ddTotsectors = d.dd.ddTotsectors := by
  cases h with
  | register buf hEnters hDev hLine hPending => rw [hDev]
  | update hEnters hLeaves hUpdate =>
    exact (update_spec hUpdate).geometry.2.trans (enters_spec hEnters).geometry.2

/-- A transfer is of the sector in the register, and ends the operation. -/
theorem Stepped.io (h : Stepped c d l d') {io : HostIo} (hIo : l.io = some io) :
    d.dd.ddSect < d.dd.ddTotsectors ∧ io.length = sectsize ∧
      io.offset = headersize + sectsize * d.dd.ddSect.toNat ∧ d'.dd.inProgress = false := by
  cases h with
  | register buf hEnters hDev hLine hPending => cases hIo
  | update hEnters hLeaves hUpdate =>
    have hEntered := enters_spec hEnters
    obtain ⟨-, hEnd, hValid, rfl⟩ := (update_spec hUpdate).io io hIo
    rw [hEntered.sect, hEntered.geometry.2] at hValid
    refine ⟨hValid, rfl, ?_, hEnd⟩
    rw [DiskData.transfer, hEntered.sect, Nat.add_comm, Nat.mul_comm]

/-- Without an operation there is no transfer, until one is started. -/
theorem Stepped.idle (h : Stepped c d l d') (hStarts : ¬ l.act.starts)
    (hIdle : d.dd.inProgress = false) : l.io = none ∧ d'.dd.inProgress = false := by
  cases h with
  | register buf hEnters hDev hLine hPending =>
    rw [hDev]
    exact ⟨rfl, hIdle⟩
  | @update act now host dd doom pending r hEnters hLeaves hUpdate =>
    have hUpdated := update_spec hUpdate
    have hNot : dd.inProgress = false := by
      by_contra hBusy
      have hBefore := (enters_spec hEnters).progress hStarts (by simpa using hBusy)
      rw [hIdle] at hBefore
      cases hBefore
    exact hUpdated.idle hNot

theorem Stepped.aborted (h : Stepped c d l d') (hAborts : l.act.aborts) :
    l.io = none ∧ d'.dd.inProgress = false := by
  cases h with
  | register buf hEnters hDev hLine hPending =>
    obtain ⟨hOffset, rfl⟩ := hAborts
    rw [enters_idle hOffset] at hEnters
    cases hEnters
  | @update act now host dd doom pending r hEnters hLeaves hUpdate =>
    have hUpdated := update_spec hUpdate
    have hNot : dd.inProgress = false := (enters_spec hEnters).aborted hAborts
    exact hUpdated.idle hNot

/-- The transfers made along a run. -/
def transfers (p : List (DiskLabel × Disk)) : List HostIo := p.filterMap fun e => e.1.io

theorem transfers_none (hIo : l.io = none) : transfers ((l, d) :: p) = transfers p :=
  List.filterMap_cons_none (f := fun e : DiskLabel × Disk => e.1.io) hIo

theorem transfers_some {io : HostIo} (hIo : l.io = some io) :
    transfers ((l, d) :: p) = io :: transfers p :=
  List.filterMap_cons_some (f := fun e : DiskLabel × Disk => e.1.io) hIo

theorem transfers_idle (hRun : Path (Disk.Step c bigEndian) d p d')
    (hStarts : ∀ e ∈ p, ¬ e.1.act.starts) (hIdle : d.dd.inProgress = false) : transfers p = [] := by
  induction hRun with
  | nil d => rfl
  | cons hStep _ ih =>
    obtain ⟨hIo, hIdle'⟩ := (step_cases hStep).idle (hStarts _ (List.mem_cons_self ..)) hIdle
    rw [transfers_none hIo]
    exact ih (fun e he => hStarts e (List.mem_cons_of_mem _ he)) hIdle'

theorem transfers_le_one (hRun : Path (Disk.Step c bigEndian) d p d')
    (hStarts : ∀ e ∈ p.tail, ¬ e.1.act.starts) : (transfers p).length ≤ 1 := by
  induction hRun with
  | nil d => exact Nat.zero_le 1
  | @cons d d₁ d' l p hStep hRest ih =>
    rw [List.tail_cons] at hStarts
    cases hIo : l.io with
    | none =>
      rw [transfers_none hIo]
      exact ih fun e he => hStarts e (List.mem_of_mem_tail he)
    | some io =>
      have hIdle := ((step_cases hStep).io hIo).2.2.2
      rw [transfers_some hIo, transfers_idle hRest hStarts hIdle]
      exact le_refl 1

theorem DiskAct.starts.writesStat {act : DiskAct} (h : act.starts) : act.writesStat := by
  cases act with
  | store offset val => exact h.1
  | fire a => exact h.elim

theorem run_sound (hInit : d.Init) (hRun : Path (Disk.Step c bigEndian) d p d') :
    AllStates Disk.Sound d p :=
  hRun.allStates_of_step (P := Disk.Sound) (fun _ _ _ hs hStep => (step_cases hStep).sound hs)
    hInit.sound

theorem Disk.Sound.pending_eq_one_iff (h : d.Sound) : d.dd.ddTimedop = true ↔ d.pending.length = 1 := by
  rw [h.timed]
  cases d.dd.ddTimedop <;> simp

theorem Disk.Sound.pending_le_one (h : d.Sound) : d.pending.length ≤ 1 := by
  rw [h.timed]
  split <;> omega

theorem transfers_placed (hRun : Path (Disk.Step c bigEndian) d p d') :
    ∀ io ∈ transfers p, io.length = sectsize ∧ ∃ sector < d.dd.ddTotsectors.toNat,
      io.offset = headersize + sectsize * sector := by
  induction hRun with
  | nil d =>
    intro io hIo
    cases hIo
  | @cons d d₁ d' l p hStep hRest ih =>
    have hStepped := step_cases hStep
    rw [hStepped.total] at ih
    cases hIo : l.io with
    | none =>
      rw [transfers_none hIo]
      exact ih
    | some io₀ =>
      rw [transfers_some hIo]
      intro io hMem
      rcases List.mem_cons.mp hMem with rfl | hMem
      · obtain ⟨hValid, hLength, hOffset, -⟩ := hStepped.io hIo
        exact ⟨hLength, _, BitVec.lt_def.mp hValid, hOffset⟩
      · exact ih io hMem

/-- The disk over any run from its initial state. -/
theorem disk_state_machine (hInit : d.Init) (hRun : Path (Disk.Step c bigEndian) d p d') :
    AllStates (fun s => (s.dd.ddTimedop = true ↔ s.pending.length = 1) ∧ s.pending.length ≤ 1 ∧
      (s.line = true ↔ s.dd.complete = true) ∧
      ¬(s.dd.inProgress = true ∧ s.dd.complete = true)) d p ∧
    (∀ io ∈ transfers p, io.length = sectsize ∧ ∃ sector < d.dd.ddTotsectors.toNat,
      io.offset = headersize + sectsize * sector) ∧
    (∀ q e r rest, p = q ++ (e :: r ++ rest) → e.1.act.aborts → (∀ x ∈ r, ¬ x.1.act.starts) →
      transfers (e :: r) = []) ∧
    ∀ q e r rest, p = q ++ (e :: r ++ rest) → e.1.act.writesStat → (∀ x ∈ r, ¬ x.1.act.writesStat) →
      (transfers (e :: r)).length ≤ 1 := by
  have hPart : ∀ {q r rest : List (DiskLabel × Disk)}, p = q ++ (r ++ rest) →
      ∃ s t, Path (Disk.Step c bigEndian) s r t := by
    rintro q r rest rfl
    obtain ⟨s, -, hTail⟩ := hRun.split
    obtain ⟨t, hPath, -⟩ := hTail.split
    exact ⟨s, t, hPath⟩
  refine ⟨?_, transfers_placed hRun, ?_, ?_⟩
  · have hSound := run_sound hInit hRun
    have hEach {s : Disk} (hs : s.Sound) : (s.dd.ddTimedop = true ↔ s.pending.length = 1) ∧
        s.pending.length ≤ 1 ∧ (s.line = true ↔ s.dd.complete = true) ∧
        ¬(s.dd.inProgress = true ∧ s.dd.complete = true) := by
      refine ⟨hs.pending_eq_one_iff, hs.pending_le_one, by rw [hs.line], ?_⟩
      rintro ⟨hProgress, hComplete⟩
      rw [hs.apart hProgress] at hComplete
      cases hComplete
    exact ⟨hEach hSound.1, fun e he => hEach (hSound.2 e he)⟩
  · intro q e r rest hp hAborts hStarts
    obtain ⟨s, t, hPath⟩ := hPart hp
    cases hPath with
    | cons hStep hRest =>
      obtain ⟨hIo, hIdle⟩ := (step_cases hStep).aborted hAborts
      rw [transfers_none hIo]
      exact transfers_idle hRest hStarts hIdle
  · intro q e r rest hp _ hWrites
    obtain ⟨s, t, hPath⟩ := hPart hp
    exact transfers_le_one hPath fun x hx hStarts => hWrites x hx hStarts.writesStat

/-! ### A small disk, and a read of its first sector -/

def smallDisk : Disk where
  dd := {
    ddSectors := List.replicate numtracks 2
    ddTotsectors := 600
    ddCurrentTrack := 0
    ddTrackarrivalSecs := 0
    ddTrackarrivalNsecs := 0
    ddIostatus := -1
    ddTimedop := false
    ddWorktries := 0
    ddStat := diskstatIdle
    ddSect := 0
    ddBuf := fun _ => 0 }
  doom := { counter := 0, died := false }
  line := false
  pending := []

/-- 3600 rpm. -/
def smallConfig : DiskConfig where
  ddUsedoom := true
  ddNsecsPerRev := 16666666

theorem smallDisk_init : smallDisk.Init where
  tracks := List.length_replicate
  positive n hn := by
    rw [List.eq_of_mem_replicate hn]
    decide
  sum := by
    have hSectors : smallDisk.dd.ddSectors = List.replicate numtracks 2 := rfl
    rw [hSectors, List.map_replicate, List.sum_replicate]
    decide
  track := rfl
  iostatus := rfl
  timedop := rfl
  worktries := rfl
  stat := rfl
  sect := rfl
  line := rfl
  pending := rfl

set_option maxRecDepth 20000 in
/-- Seek, rotation, copy, transfer. -/
theorem smallDisk_read : ∃ p d, Path (Disk.Step smallConfig true) smallDisk p d ∧
    (transfers p).length = 1 ∧ d.line = true := by
  refine ⟨_, _, .cons (@Disk.Step.store smallConfig true _ 4 1 (0, 0) stillHost _ _ _ rfl)
    (.cons (@Disk.Step.fire smallConfig true _ [] _ _ (0, 0) stillHost _ rfl rfl)
    (.cons (@Disk.Step.fire smallConfig true _ [] _ _ (1, 0) stillHost _ rfl rfl)
    (.cons (@Disk.Step.fire smallConfig true _ [] _ _ (1, 0) stillHost _ rfl rfl) (.nil _)))),
    rfl, rfl⟩

theorem disk_state_machine_small : ∃ p d, Path (Disk.Step smallConfig true) smallDisk p d ∧
    (transfers p).length = 1 ∧ d.line = true ∧
    (∀ io ∈ transfers p, io.length = sectsize ∧ ∃ sector < smallDisk.dd.ddTotsectors.toNat,
      io.offset = headersize + sectsize * sector) ∧
    AllStates (fun s => (s.dd.ddTimedop = true ↔ s.pending.length = 1) ∧ s.pending.length ≤ 1 ∧
      (s.line = true ↔ s.dd.complete = true) ∧
      ¬(s.dd.inProgress = true ∧ s.dd.complete = true)) smallDisk p := by
  obtain ⟨p, d, hRun, hOne, hLine⟩ := smallDisk_read
  obtain ⟨hStates, hPlaced, -, -⟩ := disk_state_machine smallDisk_init hRun
  exact ⟨p, d, hRun, hOne, hLine, hPlaced, hStates⟩

end Sys161.Bus
