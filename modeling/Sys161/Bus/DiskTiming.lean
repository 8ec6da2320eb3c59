import Sys161.Bus.DiskRuns

/-!
# Which waits belong to which operation

A history is kept beside the disk: the number of the operation in progress, what it has gone
through since it was started, and the operation and sector for which the event on the
queue was scheduled. The history reads the disk and never steers it.
-/

namespace Sys161.Bus

open Runs

set_option autoImplicit false

/-- The track `locate_sector` finds. -/
def DiskData.cylOf (dd : DiskData) (sector : BitVec 32) : Option Int :=
  (locateFrom dd.ddSectors.reverse 0 sector).map fun p => (p.1 : Int)

inductive Stage where
  | seek (cyl : Int)
  | cacheWrite
  | rotation (sector : BitVec 32)
  | cacheRead
deriving DecidableEq

/-- What has been gone through when the event fires. -/
def Arm.stage (a : Arm) (sector : BitVec 32) : Stage :=
  match a.func with
  | .diskSeekdone => .seek a.code.toInt
  | _ => if a.code = 1 then .cacheWrite else if a.code = 2 then .rotation sector else .cacheRead

/-- `op` counts the operations started; `origin` is where the head was when the last one was. -/
structure Watch where
  op : Nat
  origin : Int
  stages : List Stage
  works : Nat
  owner : Nat
  sector : BitVec 32

def Watch.fresh : Watch where
  op := 0
  origin := 0
  stages := []
  works := 0
  owner := 0
  sector := 0

def Watch.begin (w : Watch) (head : Int) : Watch :=
  { w with op := w.op + 1, origin := head, stages := [], works := 0 }

def Watch.arrive (w : Watch) (a : Arm) : Watch :=
  if w.owner = w.op then { w with stages := w.stages ++ [a.stage w.sector] } else w

/-- `disk_work` goes to work on an operation. -/
def DiskData.works (dd : DiskData) : Bool :=
  !dd.ddTimedop && dd.inProgress && decide (dd.ddSect < dd.ddTotsectors)

/-- A delay of zero has been waited for at once. -/
def Watch.work (w : Watch) (dd dd' : DiskData) : Watch :=
  if dd.works then
    { w with
      works := w.works + 1
      owner := w.op
      sector := dd.ddSect
      stages := if dd.ddIostatus < 2 ∧ dd'.ddIostatus = 2 then w.stages ++ [.rotation dd.ddSect]
        else w.stages }
  else w

instance : DecidablePred DiskAct.starts
  | .store offset val => inferInstanceAs (Decidable (offset.toNat = diskregStat ∧
      (val = diskstatReading ∨ val = diskstatWriting)))
  | .fire _ => inferInstanceAs (Decidable False)

def Watch.meet (w : Watch) (dd : DiskData) (act : DiskAct) : Watch :=
  match act with
  | .store offset val => if (DiskAct.store offset val).starts then w.begin dd.ddCurrentTrack else w
  | .fire a => w.arrive a

def Watch.next (w : Watch) (d : Disk) (l : DiskLabel) (d' : Disk) : Watch :=
  match l.act.enters d.dd l.now with
  | none => w.meet d.dd l.act
  | some dd => (w.meet d.dd l.act).work dd d'.dd

inductive Watched.Step (c : DiskConfig) (bigEndian : Bool) :
    Disk × Watch → DiskLabel → Disk × Watch → Prop where
  | mk {d d' : Disk} {w : Watch} {l : DiskLabel} : Disk.Step c bigEndian d l d' →
      Watched.Step c bigEndian (d, w) l (d', w.next d l d')

/-- Every run of the disk has its history. -/
theorem exists_watched {c : DiskConfig} {bigEndian : Bool} {d d' : Disk}
    {p : List (DiskLabel × Disk)} (hRun : Path (Disk.Step c bigEndian) d p d') (w : Watch) :
    ∃ q w', Path (Watched.Step c bigEndian) (d, w) q (d', w') ∧
      q.map (fun e => (e.1, e.2.1)) = p := by
  induction hRun generalizing w with
  | nil d => exact ⟨[], w, .nil _, rfl⟩
  | @cons d d₁ d' l p hStep _ ih =>
    obtain ⟨q, w', hPath, hMap⟩ := ih (w.next d l d₁)
    exact ⟨_, w', .cons (.mk hStep) hPath, by rw [List.map_cons, hMap]⟩

/-! ## The phases of an operation -/

def Headed (w : Watch) (head : Int) (stages : List Stage) : Prop :=
  w.origin = head ∨ .seek head ∈ stages

/-- The operation has gone through its own phases, for the sector it transfers. -/
def Served (dd : DiskData) (write : Bool) (w : Watch) : Prop :=
  ∃ cyl stages, dd.cylOf dd.ddSect = some cyl ∧ Headed w cyl stages ∧
    if write then w.stages = stages ++ [.rotation dd.ddSect] ∧ .cacheWrite ∈ stages
    else w.stages = stages ++ [.rotation dd.ddSect, .cacheRead]

/-- What the operation has behind it when `disk_work` turns to it. -/
inductive Ready (dd : DiskData) (w : Watch) : Prop where
  | early : dd.ddIostatus < 2 →
      (dd.isWrite = true → 1 ≤ dd.ddIostatus → .cacheWrite ∈ w.stages) →
      (dd.cylOf dd.ddSect = some dd.ddCurrentTrack → Headed w dd.ddCurrentTrack w.stages) →
      Ready dd w
  | turned (stages : List Stage) : dd.ddIostatus = 2 →
      dd.cylOf dd.ddSect = some dd.ddCurrentTrack → w.stages = stages ++ [.rotation dd.ddSect] →
      (dd.isWrite = true → .cacheWrite ∈ stages) → Headed w dd.ddCurrentTrack stages → Ready dd w
  | copied (stages : List Stage) : dd.ddIostatus = 3 → dd.isWrite = false →
      dd.cylOf dd.ddSect = some dd.ddCurrentTrack →
      w.stages = stages ++ [.rotation dd.ddSect, .cacheRead] →
      Headed w dd.ddCurrentTrack stages → Ready dd w

/-- What the operation has behind it while it waits for an event of its own. -/
inductive Waits (dd : DiskData) (w : Watch) (a : Arm) : Prop where
  | seek : a.func = .diskSeekdone → dd.ddIostatus < 2 →
      (dd.isWrite = true → 1 ≤ dd.ddIostatus → .cacheWrite ∈ w.stages) → Waits dd w a
  | cacheWrite : a.func = .diskWaitdone → a.code = 1 → Headed w dd.ddCurrentTrack w.stages →
      Waits dd w a
  | rotation : a.func = .diskWaitdone → a.code = 2 → dd.cylOf w.sector = some dd.ddCurrentTrack →
      (dd.isWrite = true → .cacheWrite ∈ w.stages) → Headed w dd.ddCurrentTrack w.stages →
      Waits dd w a
  | cacheRead (stages : List Stage) : a.func = .diskWaitdone → a.code = 3 → dd.isWrite = false →
      dd.cylOf w.sector = some dd.ddCurrentTrack → w.stages = stages ++ [.rotation w.sector] →
      Headed w dd.ddCurrentTrack stages → Waits dd w a

theorem Headed.append {w : Watch} {head : Int} {stages : List Stage} (h : Headed w head stages)
    (more : List Stage) : Headed w head (stages ++ more) :=
  h.imp id fun hSeek => List.mem_append_left _ hSeek

theorem cylOf_eq {dd : DiskData} {sector rotoffset : BitVec 32} {cyl : Nat}
    (h : locateSector dd sector = .ok (cyl, rotoffset)) : dd.cylOf sector = some (cyl : Int) := by
  rw [locateSector] at h
  rw [DiskData.cylOf]
  cases hLocate : locateFrom dd.ddSectors.reverse 0 sector with
  | none =>
    rw [hLocate] at h
    cases h
  | some p =>
    rw [hLocate] at h
    cases h
    rfl

theorem works_iff {dd : DiskData} : dd.works = true ↔
    dd.ddTimedop = false ∧ dd.inProgress = true ∧ dd.ddSect < dd.ddTotsectors := by
  simp [DiskData.works, and_assoc]

/-- A wait that leaves the status alone adds nothing to the stages. -/
theorem work_stages_same {w : Watch} {dd dd' : DiskData} (h : dd'.ddIostatus = dd.ddIostatus) :
    (w.work dd dd').stages = w.stages := by
  rw [Watch.work]
  split
  · rw [h]
    exact if_neg fun hBoth => absurd hBoth.1 (by omega)
  · rfl

theorem work_stages_late {w : Watch} {dd dd' : DiskData} (h : 2 ≤ dd.ddIostatus) :
    (w.work dd dd').stages = w.stages := by
  rw [Watch.work]
  split
  · exact if_neg fun hBoth => absurd hBoth.1 (by omega)
  · rfl

theorem work_stages_rotated {w : Watch} {dd dd' : DiskData} (hWorks : dd.works = true)
    (hBefore : dd.ddIostatus < 2) (hAfter : dd'.ddIostatus = 2) :
    (w.work dd dd').stages = w.stages ++ [.rotation dd.ddSect] := by
  rw [Watch.work, if_pos hWorks]
  exact if_pos ⟨hBefore, hAfter⟩

theorem work_origin (w : Watch) (dd dd' : DiskData) : (w.work dd dd').origin = w.origin := by
  rw [Watch.work]
  split <;> rfl

theorem work_op (w : Watch) (dd dd' : DiskData) : (w.work dd dd').op = w.op := by
  rw [Watch.work]
  split <;> rfl

theorem work_sector {w : Watch} {dd dd' : DiskData} (hWorks : dd.works = true) :
    (w.work dd dd').sector = dd.ddSect := by
  rw [Watch.work, if_pos hWorks]

theorem work_owner {w : Watch} {dd dd' : DiskData} (hWorks : dd.works = true) :
    (w.work dd dd').owner = w.op := by
  rw [Watch.work, if_pos hWorks]

theorem Headed.work {w : Watch} {head : Int} {stages : List Stage} (h : Headed w head stages)
    (dd dd' : DiskData) : Headed (w.work dd dd') head stages := by
  rw [Headed, work_origin]
  exact h

/-- `disk_work` on a read after the rotation. -/
theorem waits_cacheRead {dd dd' : DiskData} {w : Watch} {stages : List Stage}
    (hDev : dd' = (dd.tried.rotated.wait cacheReadTime 3 .diskWaitdone "disk cache read").dev)
    (hWorks : dd.works = true) (hHere : dd.cylOf dd.ddSect = some dd.ddCurrentTrack)
    (hRead : dd.tried.isWrite = false)
    (hStages : (w.work dd dd').stages = stages ++ [.rotation dd.ddSect])
    (hHead : Headed w dd.ddCurrentTrack stages) :
    Waits dd' (w.work dd dd') ⟨cacheReadTime, 3, .diskWaitdone, "disk cache read"⟩ := by
  subst hDev
  have hSector : (w.work dd (dd.tried.rotated.wait cacheReadTime 3 .diskWaitdone
      "disk cache read").dev).sector = dd.ddSect := work_sector hWorks
  have hCur : (dd.tried.rotated.wait cacheReadTime 3 .diskWaitdone
      "disk cache read").dev.ddCurrentTrack = dd.ddCurrentTrack := rotated_ddCurrentTrack dd.tried
  refine Waits.cacheRead stages rfl rfl ?_ ?_ ?_ ?_
  · exact (rotated_isWrite dd.tried).trans hRead
  · rw [hSector, hCur]
    refine Eq.trans ?_ hHere
    exact congrArg (fun l => (locateFrom l.reverse 0 dd.ddSect).map _) (rotated_same dd.tried).1.1
  · rw [hSector]
    exact hStages
  · rw [hCur]
    exact hHead.work _ _

/-- `disk_work` where it transfers the sector. -/
theorem served_transfer {dd : DiskData} {w : Watch} {cyl : Nat} {h : Host} {stages : List Stage}
    (hCyl : dd.cylOf dd.ddSect = some (cyl : Int)) (hHead : Headed w cyl stages)
    (hStages : if dd.isWrite then (w.work dd (forceio dd.tried.rotated h).dev).stages =
        stages ++ [.rotation dd.ddSect] ∧ .cacheWrite ∈ stages
      else (w.work dd (forceio dd.tried.rotated h).dev).stages =
        stages ++ [.rotation dd.ddSect, .cacheRead]) :
    Served dd dd.tried.rotated.isWrite (w.work dd (forceio dd.tried.rotated h).dev) := by
  refine ⟨cyl, stages, hCyl, hHead.work _ _, ?_⟩
  rw [rotated_isWrite]
  exact hStages

/-- One call of `disk_work` on an operation that has its own phases behind it. -/
theorem phase_timely {dd : DiskData} {w : Watch} {cyl : Nat} {h : Host} {r : Done DiskData}
    (hPhase : Phase dd.tried cyl h r) (hCyl : dd.cylOf dd.ddSect = some (cyl : Int))
    (hWorks : dd.works = true) (hReady : Ready dd w) :
    (r.dev.inProgress = true → ∃ a, r.arm = some a ∧ Waits r.dev (w.work dd r.dev) a) ∧
      ∀ io, r.hostIo = some io → Served dd io.write (w.work dd r.dev) := by
  have hTrack (hHere : dd.ddCurrentTrack = (cyl : Int)) :
      dd.cylOf dd.ddSect = some dd.ddCurrentTrack := hCyl.trans (congrArg some hHere.symm)
  cases hPhase with
  | seek hAway =>
    refine ⟨fun _ => ⟨_, rfl, ?_⟩, fun io hIo => by cases hIo⟩
    have hNot : ¬ dd.cylOf dd.ddSect = some dd.ddCurrentTrack := by
      rw [hCyl]
      intro hEq
      exact hAway (Option.some.inj hEq).symm
    cases hReady with
    | early hBefore hCopied _ =>
      refine Waits.seek rfl hBefore ?_
      rw [work_stages_same (by rfl)]
      exact hCopied
    | turned _ _ hHere _ _ _ => exact absurd hHere hNot
    | copied _ _ _ hHere _ _ => exact absurd hHere hNot
  | cacheWrite hHere hWrite hBefore =>
    refine ⟨fun _ => ⟨_, rfl, ?_⟩, fun io hIo => by cases hIo⟩
    have hBefore' : dd.ddIostatus < 1 := hBefore
    cases hReady with
    | early _ _ hHead =>
      refine Waits.cacheWrite rfl rfl ?_
      rw [work_stages_same (by rfl)]
      exact (hHead (hTrack hHere)).work _ _
    | turned _ hStatus _ _ _ _ => omega
    | copied _ hStatus _ _ _ _ => omega
  | rotation hHere hCopied hBefore =>
    refine ⟨fun _ => ⟨_, rfl, ?_⟩, fun io hIo => by cases hIo⟩
    have hBefore' : dd.ddIostatus < 2 := hBefore
    cases hReady with
    | early _ hCache hHead =>
      refine Waits.rotation rfl rfl ?_ ?_ ?_
      · rw [work_sector hWorks]
        exact hTrack hHere
      · rw [work_stages_same (by rfl)]
        exact fun hWrite => hCache hWrite (hCopied hWrite)
      · rw [work_stages_same (by rfl)]
        exact (hHead (hTrack hHere)).work _ _
    | turned _ hStatus _ _ _ _ => omega
    | copied _ hStatus _ _ _ _ => omega
  | cacheRead hHere hRead hBefore hZero =>
    refine ⟨fun _ => ⟨_, rfl, ?_⟩, fun io hIo => by cases hIo⟩
    have hBefore' : dd.ddIostatus < 3 := hBefore
    cases hReady with
    | early hEarly hCache hHead =>
      refine waits_cacheRead rfl hWorks (hTrack hHere) hRead ?_ (hHead (hTrack hHere))
      exact work_stages_rotated hWorks hEarly (rotated_ddIostatus hEarly)
    | turned stages hStatus _ hStages _ hHead =>
      refine waits_cacheRead rfl hWorks (hTrack hHere) hRead ?_ hHead
      rw [work_stages_late hStatus.ge]
      exact hStages
    | copied _ hStatus _ _ _ _ => omega
  | transfer hHere hCopied hRead hZero =>
    constructor
    · intro hBusy
      rw [forceio_inProgress] at hBusy
      cases hBusy
    · intro io hIo
      cases hIo
      have hCopied' : dd.isWrite = true → 1 ≤ dd.ddIostatus := hCopied
      have hRead' : dd.isWrite = false → 3 ≤ dd.ddIostatus := hRead
      cases hReady with
      | early hEarly hCache hHead =>
        have hWrite : dd.isWrite = true := by
          by_contra hNot
          exact absurd (hRead' (by simpa using hNot)) (by omega)
        refine served_transfer hCyl (hHere ▸ hHead (hTrack hHere)) ?_
        rw [if_pos hWrite]
        refine ⟨work_stages_rotated hWorks hEarly ?_, hCache hWrite (hCopied' hWrite)⟩
        rw [forceio_ddIostatus]
        exact rotated_ddIostatus hEarly
      | turned stages hStatus _ hStages hCache hHead =>
        have hWrite : dd.isWrite = true := by
          by_contra hNot
          exact absurd (hRead' (by simpa using hNot)) (by omega)
        refine served_transfer hCyl (hHere ▸ hHead) ?_
        rw [if_pos hWrite, work_stages_late hStatus.ge]
        exact ⟨hStages, hCache hWrite⟩
      | copied stages hStatus hNotWrite _ hStages hHead =>
        refine served_transfer hCyl (hHere ▸ hHead) ?_
        rw [hNotWrite, work_stages_late (by omega)]
        exact hStages

theorem worked_timely {dd : DiskData} {w : Watch} {now : BitVec 32 × BitVec 32} {h : Host}
    {r : Done DiskData} (hWorked : Worked dd now h r)
    (hTries : dd.works = true → dd.ddWorktries < maxWorktries)
    (hReady : dd.works = true → Ready dd w) :
    (dd.ddTimedop = false → r.dev.inProgress = true → dd.works = true ∧
      ∃ a, r.arm = some a ∧ Waits r.dev (w.work dd r.dev) a) ∧
      ∀ io, r.hostIo = some io → Served dd io.write (w.work dd r.dev) := by
  cases hWorked with
  | waiting hBusy =>
    refine ⟨fun hFree => ?_, fun io hIo => by cases hIo⟩
    rw [hFree] at hBusy
    cases hBusy
  | idle _ hIdle =>
    refine ⟨fun _ hBusy => ?_, fun io hIo => by cases hIo⟩
    rw [show dd.inProgress = true from hBusy] at hIdle
    cases hIdle
  | invalid _ _ _ =>
    refine ⟨fun _ hBusy => ?_, fun io hIo => by cases hIo⟩
    rw [finish_inProgress rfl] at hBusy
    cases hBusy
  | forced hFree hProgress hValid hMany =>
    have hFew := hTries (works_iff.mpr ⟨hFree, hProgress, hValid⟩)
    omega
  | phase hFree hProgress hValid _ hLocate hPhase =>
    have hWorks := works_iff.mpr ⟨hFree, hProgress, hValid⟩
    obtain ⟨hWait, hServed⟩ := phase_timely hPhase (cylOf_eq hLocate) hWorks (hReady hWorks)
    exact ⟨fun _ hBusy => ⟨hWorks, hWait hBusy⟩, hServed⟩

/-! ## Runs in which the waits are the operation's own -/

/-- An event that an earlier operation left behind, and that this one can take: a seek to a track
where its sector is not, or a copy that a read has not got. -/
def DiskData.Harmless (dd : DiskData) (a : Arm) : Prop :=
  match a.func with
  | .diskSeekdone => dd.cylOf dd.ddSect ≠ some a.code.toInt
  | _ => a.code = 1 ∧ dd.isWrite = false

/-- The operation is tried no more than it may be, the sector it has turned for is still the one
in the register, and no wait but its own counts for it. -/
structure Timely (s : Disk × Watch) (l : DiskLabel) : Prop where
  tries : ∀ dd, l.act.enters s.1.dd l.now = some dd → dd.works = true →
    s.1.dd.ddWorktries < maxWorktries
  sector : ∀ a, l.act = .fire a → s.1.dd.inProgress = true →
    s.1.dd.ddSect < s.1.dd.ddTotsectors → s.2.owner = s.2.op → a.func = .diskWaitdone →
    a.code ≠ 1 → s.1.dd.ddSect = s.2.sector
  own : ∀ a, l.act = .fire a → s.1.dd.inProgress = true → s.1.dd.ddSect < s.1.dd.ddTotsectors →
    s.2.owner = s.2.op ∨ s.1.dd.Harmless a

/-- The transfer comes after the phases of its own operation. -/
def ServedStep (s : Disk × Watch) (l : DiskLabel) (s' : Disk × Watch) : Prop :=
  ∀ io, l.io = some io → Served s.1.dd io.write s'.2

/-- What links the history with the disk between two steps. -/
structure InTime (s : Disk × Watch) : Prop where
  sound : s.1.Sound
  owner : s.2.owner ≤ s.2.op
  busy : s.1.dd.inProgress = true → s.1.dd.ddTimedop = true
  own : s.1.dd.inProgress = true → s.2.owner = s.2.op → ∀ a ∈ s.1.pending, Waits s.1.dd s.2 a
  stale : s.1.dd.inProgress = true → s.2.owner ≠ s.2.op →
    s.1.dd.ddIostatus = 0 ∧ s.2.stages = [] ∧ s.2.origin = s.1.dd.ddCurrentTrack

theorem ready_of_start (dd : DiskData) (w : Watch) (val : BitVec 32) :
    Ready (dd.start val) (w.begin dd.ddCurrentTrack) := by
  have hStatus : (dd.start val).ddIostatus = 0 := rfl
  refine Ready.early (by omega) ?_ fun _ => Or.inl rfl
  intro _ hCopied
  omega

theorem arrive_own {w : Watch} (h : w.owner = w.op) (a : Arm) :
    w.arrive a = { w with stages := w.stages ++ [a.stage w.sector] } := if_pos h

theorem arrive_stale {w : Watch} (h : w.owner ≠ w.op) (a : Arm) : w.arrive a = w := if_neg h

theorem enters_seekdone {a : Arm} (h : a.func = .diskSeekdone) (dd : DiskData)
    (now : BitVec 32 × BitVec 32) : (DiskAct.fire a).enters dd now = some { dd with
      ddCurrentTrack := a.code.toInt
      ddTrackarrivalSecs := now.1
      ddTrackarrivalNsecs := now.2
      ddTimedop := false } := by
  rw [DiskAct.enters, h]

theorem enters_waitdone {a : Arm} (h : a.func = .diskWaitdone) (dd : DiskData)
    (now : BitVec 32 × BitVec 32) : (DiskAct.fire a).enters dd now =
      some { dd with ddIostatus := a.code.toInt, ddTimedop := false } := by
  rw [DiskAct.enters, h]

theorem stage_seekdone {a : Arm} (h : a.func = .diskSeekdone) (sector : BitVec 32) :
    a.stage sector = .seek a.code.toInt := by
  rw [Arm.stage, h]

theorem stage_waitdone {a : Arm} (h : a.func = .diskWaitdone) (sector : BitVec 32) :
    a.stage sector =
      if a.code = 1 then .cacheWrite else if a.code = 2 then .rotation sector else .cacheRead := by
  rw [Arm.stage, h]

theorem code_one_lt : BitVec.toInt (1 : BitVec 32) < 2 := by decide

/-- The operation's own event takes it a stage further. -/
theorem ready_of_own {dd dd' : DiskData} {w : Watch} {a : Arm} {now : BitVec 32 × BitVec 32}
    (hWaits : Waits dd w a) (hOwn : w.owner = w.op)
    (hSector : a.func = .diskWaitdone → a.code ≠ 1 → dd.ddSect = w.sector)
    (hEnters : (DiskAct.fire a).enters dd now = some dd') : Ready dd' (w.arrive a) := by
  rw [arrive_own hOwn]
  cases hWaits with
  | seek hFunc hBefore hCache =>
    rw [enters_seekdone hFunc] at hEnters
    cases hEnters
    rw [stage_seekdone hFunc]
    refine Ready.early hBefore ?_ ?_
    · intro hWrite hCopied
      exact List.mem_append_left _ (hCache hWrite hCopied)
    · intro _
      exact Or.inr (List.mem_append_right _ (List.mem_singleton.mpr rfl))
  | cacheWrite hFunc hCode hHead =>
    rw [enters_waitdone hFunc] at hEnters
    cases hEnters
    rw [stage_waitdone hFunc, if_pos hCode, hCode]
    refine Ready.early code_one_lt ?_ ?_
    · intro _ _
      exact List.mem_append_right _ (List.mem_singleton.mpr rfl)
    · intro _
      exact hHead.append _
  | rotation hFunc hCode hCyl hCache hHead =>
    have hNot : ¬ a.code = 1 := by
      rw [hCode]
      decide
    have hSect := hSector hFunc hNot
    rw [enters_waitdone hFunc] at hEnters
    cases hEnters
    rw [stage_waitdone hFunc, if_neg hNot, if_pos hCode, hCode, ← hSect]
    rw [← hSect] at hCyl
    exact Ready.turned w.stages rfl hCyl rfl hCache hHead
  | cacheRead stages hFunc hCode hRead hCyl hStages hHead =>
    have hNot : ¬ a.code = 1 := by
      rw [hCode]
      decide
    have hNot' : ¬ a.code = 2 := by
      rw [hCode]
      decide
    have hSect := hSector hFunc hNot
    rw [enters_waitdone hFunc] at hEnters
    cases hEnters
    rw [stage_waitdone hFunc, if_neg hNot, if_neg hNot', hCode]
    rw [← hSect] at hCyl hStages
    refine Ready.copied stages rfl hRead hCyl ?_ hHead
    show w.stages ++ [.cacheRead] = _
    rw [hStages, List.append_assoc]
    rfl

/-- An event that does not matter leaves the operation where it has only been started. -/
theorem ready_of_stale {dd dd' : DiskData} {w : Watch} {a : Arm} {now : BitVec 32 × BitVec 32}
    (hStatus : dd.ddIostatus = 0) (hOrigin : w.origin = dd.ddCurrentTrack)
    (hStale : w.owner ≠ w.op) (hHarmless : dd.Harmless a)
    (hEnters : (DiskAct.fire a).enters dd now = some dd') : Ready dd' (w.arrive a) := by
  rw [arrive_stale hStale]
  cases hFunc : a.func with
  | diskSeekdone =>
    rw [DiskData.Harmless, hFunc] at hHarmless
    rw [enters_seekdone hFunc] at hEnters
    cases hEnters
    refine Ready.early (by show dd.ddIostatus < 2; omega) ?_ fun hHere => absurd hHere hHarmless
    intro _ hCopied
    have hCopied' : 1 ≤ dd.ddIostatus := hCopied
    omega
  | diskWaitdone =>
    rw [DiskData.Harmless, hFunc] at hHarmless
    obtain ⟨hCode, hRead⟩ := hHarmless
    rw [enters_waitdone hFunc] at hEnters
    cases hEnters
    rw [hCode]
    refine Ready.early code_one_lt ?_ fun _ => Or.inl hOrigin
    intro hWrite _
    rw [show dd.isWrite = true from hWrite] at hRead
    cases hRead
  | _ =>
    rw [DiskAct.enters, hFunc] at hEnters
    cases hEnters

theorem Waits.of_register {dd : DiskData} {w : Watch} {a : Arm} (h : Waits dd w a)
    (buf : Nat → BitVec 8) (sect : BitVec 32) :
    Waits { dd with ddBuf := buf, ddSect := sect } w a := by
  cases h with
  | seek hFunc hBefore hCache => exact Waits.seek hFunc hBefore hCache
  | cacheWrite hFunc hCode hHead => exact Waits.cacheWrite hFunc hCode hHead
  | rotation hFunc hCode hCyl hCache hHead => exact Waits.rotation hFunc hCode hCyl hCache hHead
  | cacheRead stages hFunc hCode hRead hCyl hStages hHead =>
    exact Waits.cacheRead stages hFunc hCode hRead hCyl hStages hHead

/-- A store with which `disk_update` has to do writes the status register. -/
theorem enters_store {dd dd' : DiskData} {now : BitVec 32 × BitVec 32} {offset val : BitVec 32}
    (h : (DiskAct.store offset val).enters dd now = some dd') :
    (¬ (DiskAct.store offset val).starts ∧ dd' = dd.idle) ∨
      ((DiskAct.store offset val).starts ∧ dd' = dd.start val) := by
  rw [DiskAct.enters] at h
  split at h
  · next hOffset =>
    split at h
    · next hIdle =>
      cases h
      refine Or.inl ⟨?_, rfl⟩
      rintro ⟨-, hVal⟩
      rw [hIdle] at hVal
      rcases hVal with hVal | hVal
      · exact reading_ne_idle hVal.symm
      · exact writing_ne_idle hVal.symm
    · split at h
      · next hVal =>
        cases h
        exact Or.inr ⟨⟨hOffset, hVal⟩, rfl⟩
      · cases h
  · cases h

variable {c : DiskConfig} {bigEndian : Bool} {s s' : Disk × Watch} {l : DiskLabel}

theorem next_of_enters {d d' : Disk} {w : Watch} {dd : DiskData}
    (h : l.act.enters d.dd l.now = some dd) :
    w.next d l d' = (w.meet d.dd l.act).work dd d'.dd := by
  rw [Watch.next, h]

theorem next_of_register {d d' : Disk} {w : Watch} {offset val : BitVec 32}
    (hAct : l.act = .store offset val) (h : l.act.enters d.dd l.now = none) : w.next d l d' = w := by
  rw [Watch.next, h, hAct]
  refine if_neg ?_
  rintro ⟨hOffset, hVal⟩
  rw [hAct, enters_start hOffset hVal] at h
  cases h

/-- Only one event is ever on the queue. -/
theorem Disk.Sound.fired {d : Disk} {a : Arm} {pending : List Arm} (h : d.Sound)
    (hLeaves : (DiskAct.fire a).leaves d.pending pending) : d.pending = [a] ∧ pending = [] := by
  obtain ⟨before, after, hPending, rfl⟩ := hLeaves
  have hOne := h.pending_le_one
  rw [hPending, List.length_append, List.length_cons] at hOne
  have hBefore : before = [] := List.eq_nil_of_length_eq_zero (by omega)
  have hAfter : after = [] := List.eq_nil_of_length_eq_zero (by omega)
  rw [hPending, hBefore, hAfter]
  exact ⟨rfl, rfl⟩

theorem Disk.Sound.pending_eq_nil {d : Disk} (h : d.Sound) (hFree : d.dd.ddTimedop = false) :
    d.pending = [] := by
  have hNone := h.timed
  rw [hFree] at hNone
  exact List.eq_nil_of_length_eq_zero hNone

/-- A step that comes to `disk_work`: `dd` and `w` are what it finds there. -/
theorem InTime.after {d : Disk} {dd : DiskData} {w : Watch} {pending : List Arm} {doom : Doom}
    {now : BitVec 32 × BitVec 32} {h : Host} {r : Done DiskData} (hUpdate : c.update dd now h = .ok r)
    (hSound : (Disk.after { d with pending := pending } r doom).Sound) (hOwner : w.owner ≤ w.op)
    (hTries : dd.works = true → dd.ddWorktries < maxWorktries)
    (hReady : dd.works = true → Ready dd w) (hFree : dd.ddTimedop = false → pending = [])
    (hStale : dd.ddTimedop = true → dd.inProgress = true → w.owner ≠ w.op ∧ dd.ddIostatus = 0 ∧
      w.stages = [] ∧ w.origin = dd.ddCurrentTrack) :
    InTime (Disk.after { d with pending := pending } r doom, w.work dd r.dev) ∧
      ∀ io, r.hostIo = some io → Served dd io.write (w.work dd r.dev) := by
  have hUpdated := update_spec hUpdate
  obtain ⟨r', hWorked, rfl⟩ := update_cases hUpdate
  obtain ⟨hWait, hServed⟩ := worked_timely hWorked hTries hReady
  refine ⟨?_, hServed⟩
  have hIdleWatch (hTimed : dd.ddTimedop = true) (dd' : DiskData) : w.work dd dd' = w := by
    refine if_neg ?_
    intro hWorks
    rw [(works_iff.mp hWorks).1] at hTimed
    cases hTimed
  have hSame (hTimed : dd.ddTimedop = true) : r'.dev = dd := by
    cases hWorked with
    | waiting _ => rfl
    | idle hNot _ => simp [hNot] at hTimed
    | invalid hNot _ _ => simp [hNot] at hTimed
    | forced hNot _ _ _ => simp [hNot] at hTimed
    | phase hNot _ _ _ _ _ => simp [hNot] at hTimed
  refine ⟨hSound, ?_, ?_, ?_, ?_⟩
  · show (w.work dd r'.dev).owner ≤ (w.work dd r'.dev).op
    rw [work_op]
    by_cases hWorks : dd.works = true
    · rw [work_owner hWorks]
    · rw [Watch.work, if_neg hWorks]
      exact hOwner
  · intro hProgress
    cases hTimed : dd.ddTimedop with
    | true => exact (hUpdated.busy hTimed).1
    | false =>
      obtain ⟨-, a, hArm, -⟩ := hWait hTimed hProgress
      show r'.dev.ddTimedop = true
      rw [show r'.dev.ddTimedop = r'.arm.isSome from hUpdated.armed hTimed, hArm]
      rfl
  · intro hProgress hOwn a ha
    cases hTimed : dd.ddTimedop with
    | true =>
      have hEq : (w.work dd r'.dev).owner = (w.work dd r'.dev).op := hOwn
      rw [hIdleWatch hTimed] at hEq
      exact absurd hEq (hStale hTimed (hUpdated.progress hProgress)).1
    | false =>
      obtain ⟨-, a', hArm, hWaits⟩ := hWait hTimed hProgress
      have hMem : a ∈ pending ++ r'.arm.toList := ha
      rw [hFree hTimed, hArm] at hMem
      cases List.mem_singleton.mp hMem
      exact hWaits
  · intro hProgress hOwn
    cases hTimed : dd.ddTimedop with
    | true =>
      obtain ⟨-, hStatus, hStages, hOrigin⟩ := hStale hTimed (hUpdated.progress hProgress)
      show r'.dev.ddIostatus = 0 ∧ (w.work dd r'.dev).stages = [] ∧
        (w.work dd r'.dev).origin = r'.dev.ddCurrentTrack
      rw [hSame hTimed, hIdleWatch hTimed]
      exact ⟨hStatus, hStages, hOrigin⟩
    | false =>
      have hNot : (w.work dd r'.dev).owner ≠ (w.work dd r'.dev).op := hOwn
      obtain ⟨hWorks, -⟩ := hWait hTimed hProgress
      rw [work_owner hWorks, work_op] at hNot
      exact absurd rfl hNot

theorem enters_worktries {act : DiskAct} {dd dd' : DiskData} {now : BitVec 32 × BitVec 32}
    (h : act.enters dd now = some dd') : dd'.ddWorktries = dd.ddWorktries := by
  cases act with
  | store offset val =>
    rcases enters_store h with ⟨-, rfl⟩ | ⟨-, rfl⟩
    · rfl
    · rfl
  | fire a =>
    rw [DiskAct.enters] at h
    split at h
    · cases h
      rfl
    · cases h
      rfl
    · cases h

theorem meet_owner {d : Disk} {w : Watch} (h : w.owner ≤ w.op) (act : DiskAct) :
    (w.meet d.dd act).owner ≤ (w.meet d.dd act).op := by
  cases act with
  | store offset val =>
    rw [Watch.meet]
    split
    · exact Nat.le_succ_of_le h
    · exact h
  | fire a =>
    show (w.arrive a).owner ≤ (w.arrive a).op
    rw [Watch.arrive]
    split
    · exact h
    · exact h

theorem meet_start {dd : DiskData} {w : Watch} {act : DiskAct} (h : act.starts) :
    w.meet dd act = w.begin dd.ddCurrentTrack := by
  cases act with
  | store offset val => exact if_pos h
  | fire a => exact h.elim

theorem Served.congr {dd dd' : DiskData} {write : Bool} {w : Watch} (h : Served dd' write w)
    (hSectors : dd'.ddSectors = dd.ddSectors) (hSect : dd'.ddSect = dd.ddSect) :
    Served dd write w := by
  obtain ⟨cyl, stages, hCyl, hHead, hStages⟩ := h
  rw [hSect] at hCyl hStages
  rw [DiskData.cylOf, hSectors] at hCyl
  exact ⟨cyl, stages, hCyl, hHead, hStages⟩

/-- A step that meets the condition keeps the history in time, and transfers in time. -/
theorem InTime.step (h : InTime s) (hTimely : Timely s l)
    (hStep : Watched.Step c bigEndian s l s') : InTime s' ∧ ServedStep s l s' := by
  obtain ⟨hDisk⟩ := hStep
  rename_i d d' w
  have hStepped := step_cases hDisk
  have hSound : d'.Sound := hStepped.sound h.sound
  cases hStepped with
  | @register offset val now _ buf hEnters hDev hLine hPending =>
    have hNext : w.next d ⟨.store offset val, now, none, []⟩ d' = w := next_of_register rfl hEnters
    refine ⟨⟨hSound, ?_, ?_, ?_, ?_⟩, fun io hIo => by cases hIo⟩
    · rw [hNext]
      exact h.owner
    · show d'.dd.inProgress = true → d'.dd.ddTimedop = true
      rw [hDev]
      exact h.busy
    · rw [hNext]
      show d'.dd.inProgress = true → w.owner = w.op → ∀ a ∈ d'.pending, Waits d'.dd w a
      rw [hDev, hPending]
      exact fun hProgress hOwn a ha => (h.own hProgress hOwn a ha).of_register _ _
    · rw [hNext]
      show d'.dd.inProgress = true → w.owner ≠ w.op →
        d'.dd.ddIostatus = 0 ∧ w.stages = [] ∧ w.origin = d'.dd.ddCurrentTrack
      rw [hDev]
      exact h.stale
  | @update act now host dd doom pending r hEnters hLeaves hUpdate =>
    have hEntered := enters_spec hEnters
    have hNext (d' : Disk) : w.next d ⟨act, now, r.hostIo, r.msgs⟩ d' =
        (w.meet d.dd act).work dd d'.dd := next_of_enters hEnters
    have hTries : dd.works = true → dd.ddWorktries < maxWorktries := by
      intro hWorks
      rw [enters_worktries hEnters]
      exact hTimely.tries dd hEnters hWorks
    suffices hAfter : InTime (Disk.after { d with pending := pending } r doom,
        (w.meet d.dd act).work dd r.dev) ∧
        ∀ io, r.hostIo = some io → Served dd io.write ((w.meet d.dd act).work dd r.dev) by
      rw [hNext]
      refine ⟨hAfter.1, fun io hIo => ?_⟩
      exact (hAfter.2 io hIo).congr hEntered.geometry.1 hEntered.sect
    have hOwner := meet_owner (d := d) h.owner act
    have hValid : dd.works = true → d.dd.ddSect < d.dd.ddTotsectors := by
      intro hWorks
      have hSect := (works_iff.mp hWorks).2.2
      rwa [hEntered.sect, hEntered.geometry.2] at hSect
    cases act with
    | store offset val =>
      have hPending : pending = d.pending := hLeaves
      refine InTime.after hUpdate hSound hOwner hTries ?_ ?_ ?_
      · intro hWorks
        rcases enters_store hEnters with ⟨-, rfl⟩ | ⟨hStarts, rfl⟩
        · have hBusy := (works_iff.mp hWorks).2.1
          rw [idle_inProgress] at hBusy
          cases hBusy
        · rw [meet_start hStarts]
          exact ready_of_start d.dd w val
      · intro hFree
        rw [hPending]
        exact h.sound.pending_eq_nil ((hEntered.timed offset val rfl).symm.trans hFree)
      · intro _ hProgress
        rcases enters_store hEnters with ⟨-, rfl⟩ | ⟨hStarts, rfl⟩
        · rw [idle_inProgress] at hProgress
          cases hProgress
        · rw [meet_start hStarts]
          exact ⟨(Nat.lt_succ_of_le h.owner).ne, rfl, rfl, rfl⟩
    | fire a =>
      obtain ⟨hPending, hNone⟩ := h.sound.fired hLeaves
      refine InTime.after hUpdate hSound hOwner hTries ?_ (fun _ => hNone) ?_
      · intro hWorks
        have hProgress : d.dd.inProgress = true :=
          hEntered.progress (fun hStarts => hStarts) (works_iff.mp hWorks).2.1
        by_cases hOwn : w.owner = w.op
        · have hWaits := h.own hProgress hOwn a (by rw [hPending]; exact List.mem_singleton.mpr rfl)
          refine ready_of_own hWaits hOwn ?_ hEnters
          exact hTimely.sector a rfl hProgress (hValid hWorks) hOwn
        · obtain ⟨hStatus, -, hOrigin⟩ := h.stale hProgress hOwn
          have hHarmless := (hTimely.own a rfl hProgress (hValid hWorks)).resolve_left hOwn
          exact ready_of_stale hStatus hOrigin hOwn hHarmless hEnters
      · intro hTimed
        rw [hEntered.fired a rfl] at hTimed
        cases hTimed

theorem Disk.Init.inTime {d : Disk} (h : d.Init) : InTime (d, Watch.fresh) := by
  have hIdle : d.dd.inProgress = false := by
    rw [DiskData.inProgress, h.stat]
    rfl
  refine ⟨h.sound, le_refl 0, ?_, ?_, ?_⟩
  · intro hBusy
    rw [hIdle] at hBusy
    cases hBusy
  · intro hBusy
    rw [hIdle] at hBusy
    cases hBusy
  · intro hBusy
    rw [hIdle] at hBusy
    cases hBusy

theorem timely_own (hTries : s.1.dd.ddWorktries < maxWorktries)
    (hSector : s.1.dd.ddSect = s.2.sector) (hOwn : s.2.owner = s.2.op) : Timely s l where
  tries _ _ _ := hTries
  sector _ _ _ _ _ _ _ := hSector
  own _ _ _ _ := Or.inl hOwn

set_option maxRecDepth 20000 in
theorem smallDisk_timely : ∃ p s, Path (Watched.Step smallConfig true) (smallDisk, Watch.fresh) p s ∧
    s.1.line = true ∧ AllSteps (fun s l _ => Timely s l) (smallDisk, Watch.fresh) p := by
  refine ⟨_, _,
    .cons (.mk (@Disk.Step.store smallConfig true _ 4 1 (0, 0) stillHost _ _ _ rfl))
    (.cons (.mk (@Disk.Step.fire smallConfig true _ [] _ _ (0, 0) stillHost _ rfl rfl))
    (.cons (.mk (@Disk.Step.fire smallConfig true _ [] _ _ (1, 0) stillHost _ rfl rfl))
    (.cons (.mk (@Disk.Step.fire smallConfig true _ [] _ _ (1, 0) stillHost _ rfl rfl)) (.nil _)))),
    rfl, timely_own ?_ rfl rfl, timely_own ?_ rfl rfl, timely_own ?_ rfl rfl, timely_own ?_ rfl rfl,
    trivial⟩
  · exact (by decide : (0 : Int) < maxWorktries)
  · exact (by decide : (1 : Int) < maxWorktries)
  · exact (by decide : (2 : Int) < maxWorktries)
  · exact (by decide : (3 : Int) < maxWorktries)

end Sys161.Bus
