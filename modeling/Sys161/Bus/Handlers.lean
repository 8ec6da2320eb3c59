import Mathlib.Algebra.BigOperators.Fin
import Mathlib.Algebra.Order.BigOperators.Group.Finset
import Sys161.Bus.World

/-!
# What the handlers put on the queue

A handler may put its event back. One that can do so at the time the loop works
up to, and will do so again, is described by `Rearms`; of every other handler
the work left in the devices bounds how often it is due again at once.
-/

namespace Sys161.Bus

open Runs Clock MainLoop WallClock

set_option autoImplicit false

/-- With some jitter an event scheduled now with this delay is due at once: the delay is zero,
or the sum wraps around. -/
def CanBeDue (vnow nsecs : BitVec 64) : Prop := ∃ j, j ≤ nsecs / 100 ∧ vnow + (nsecs + j) ≤ vnow

theorem canBeDue_iff {vnow nsecs : BitVec 64} (h : nsecs.toNat < 2 ^ 62) :
    CanBeDue vnow nsecs ↔
      nsecs = 0 ∨ 2 ^ 64 ≤ vnow.toNat + (nsecs.toNat + nsecs.toNat / 100) := by
  have hv := vnow.isLt
  have hDiv : (nsecs / 100).toNat = nsecs.toNat / 100 := BitVec.toNat_udiv
  have hZero : nsecs = 0 ↔ nsecs.toNat = 0 := by
    rw [← BitVec.toNat_inj]
    rfl
  rw [hZero]
  constructor
  · rintro ⟨j, hj, hDue⟩
    rw [BitVec.le_def, hDiv] at hj
    rw [BitVec.le_def, BitVec.toNat_add, BitVec.toNat_add] at hDue
    omega
  · intro hCase
    refine ⟨nsecs / 100, BitVec.le_refl _, ?_⟩
    rw [BitVec.le_def, BitVec.toNat_add, BitVec.toNat_add, hDiv]
    omega

/-! ## Handlers that put their own event back -/

def TimerData.Rearms (vnow : BitVec 64) (td : TimerData) (gen : BitVec 32) : Prop :=
  gen = td.tdGeneration ∧ td.tdRestartflag ≠ 0 ∧ CanBeDue vnow td.nsecs

/-- Input is waiting, and the guest has not read the character before it, or more follows. -/
def SerData.backedUp (sd : SerData) : Prop :=
  sd.sdInbufhead ≠ sd.sdInbuftail ∧
    ((sd.sdDidread = false ∧ sd.sdRirq.siReady = true) ∨ sd.sdInbufhead + 1 ≠ sd.sdInbuftail)

def SerData.Rearms (vnow : BitVec 64) (sd : SerData) : Prop :=
  sd.backedUp ∧ CanBeDue vnow serialNsecs

def Meter.Rearms (vnow : BitVec 64) (m : Meter) : Prop := 0 ≤ m.fd ∧ CanBeDue vnow m.interval

/-- The handler puts its event back so that it can be due at once, and will do so again. -/
def Rearms (vnow : BitVec 64) (D : Devices) (func : Option Func) (data : Option Data)
    (code : BitVec 32) : Prop :=
  match func, data with
  | some .timerInterrupt, some (.slot i) => (D.timers i).Rearms vnow code
  | some .serialPushinput, some (.slot i) => (D.serials i).Rearms vnow
  | some .keepalive, some (.slot _) => CanBeDue vnow 1000000000
  | some .meterUpdate, some (.meter m) => (D.meters m).Rearms vnow
  | some .profSample, none => CanBeDue vnow profileNsecs
  | _, _ => False

/-! ## The work left in a device -/

/-- The characters waiting in the ring. -/
def SerData.backlog (sd : SerData) : Nat := (sd.sdInbuftail - sd.sdInbufhead).val

/-- How often `disk_work` can still go on before it forces the operation to its end. -/
def DiskData.budget (dd : DiskData) : Nat :=
  if dd.inProgress then (maxWorktries + 1 - dd.ddWorktries).toNat else 0

/-! ### The timer -/

theorem timerInterrupt_arm {td : TimerData} {gen : BitVec 32} {a : Arm}
    (h : (timerInterrupt td gen).arm = some a) :
    gen = td.tdGeneration ∧ td.tdRestartflag ≠ 0 ∧ a.nsecs = td.nsecs ∧
      a.func = .timerInterrupt ∧ a.code = (timerInterrupt td gen).dev.tdGeneration := by
  rw [timerInterrupt] at h ⊢
  split at h
  · cases h
  · next hGen =>
    split at h
    · next hRestart =>
      cases h
      rw [if_neg hGen, if_pos hRestart]
      exact ⟨not_not.mp hGen, hRestart, rfl, rfl, rfl⟩
    · cases h

theorem timerInterrupt_same (td : TimerData) (gen : BitVec 32) :
    (timerInterrupt td gen).dev.tdRestartflag = td.tdRestartflag ∧
      (timerInterrupt td gen).dev.nsecs = td.nsecs := by
  rw [timerInterrupt]
  split
  · exact ⟨rfl, rfl⟩
  · split <;> exact ⟨rfl, rfl⟩

theorem timerInterrupt_rearms {vnow : BitVec 64} {td : TimerData} {gen : BitVec 32}
    (h : td.Rearms vnow gen) :
    ∃ a, (timerInterrupt td gen).arm = some a ∧ a.nsecs = td.nsecs ∧
      a.func = .timerInterrupt ∧ (timerInterrupt td gen).dev.Rearms vnow a.code := by
  obtain ⟨hGen, hRestart, hDue⟩ := h
  obtain ⟨hSame, hNsecs⟩ := timerInterrupt_same td gen
  have hArm : (timerInterrupt td gen).arm = some (timerStart td).2 := by
    rw [timerInterrupt, if_neg (not_not.mpr hGen), if_pos hRestart]
  obtain ⟨-, -, hDelay, hFunc, hCode⟩ := timerInterrupt_arm hArm
  refine ⟨_, hArm, hDelay, hFunc, hCode, ?_, ?_⟩
  · rwa [hSame]
  · rwa [hNsecs]

/-- A timer that does not restart at once leaves every event of the timer as harmless as it was. -/
theorem timerInterrupt_rearms_iff {vnow : BitVec 64} {td : TimerData} {gen : BitVec 32}
    (h : ¬ td.Rearms vnow gen) (code : BitVec 32) :
    (timerInterrupt td gen).dev.Rearms vnow code ↔ td.Rearms vnow code := by
  obtain ⟨hSame, hNsecs⟩ := timerInterrupt_same td gen
  rw [TimerData.Rearms, TimerData.Rearms, hSame, hNsecs]
  cases hArm : (timerInterrupt td gen).arm with
  | some a =>
    obtain ⟨hGen, hRestart, -⟩ := timerInterrupt_arm hArm
    have hNot : ¬ CanBeDue vnow td.nsecs := fun hDue => h ⟨hGen, hRestart, hDue⟩
    simp only [hNot, and_false]
  | none =>
    have hDev : (timerInterrupt td gen).dev = td := by
      rw [timerInterrupt] at hArm ⊢
      split
      · rfl
      · next hGen =>
        rw [if_neg hGen] at hArm
        split at hArm
        · cases hArm
        · next hRestart => rw [if_neg hRestart]
    rw [hDev]

/-! ### The serial port -/

theorem serialPushinput_empty {sd : SerData} (h : sd.sdInbufhead = sd.sdInbuftail) :
    serialPushinput sd = { dev := { sd with sdRbusy := false } } := by
  rw [serialPushinput, if_pos h]

theorem serialPushinput_unread {sd : SerData} (h : sd.sdInbufhead ≠ sd.sdInbuftail)
    (hRead : sd.sdDidread = false) (hReady : sd.sdRirq.siReady = true) :
    (serialPushinput sd).arm = some serialRead ∧
      (serialPushinput sd).dev =
        { sd with sdDroppedreads := sd.sdDroppedreads + 1 } := by
  rw [serialPushinput, if_neg h, if_pos (by simp [hRead, hReady])]
  exact ⟨rfl, rfl⟩

theorem serialPushinput_read {sd : SerData} (h : sd.sdInbufhead ≠ sd.sdInbuftail)
    (hRead : ¬ (sd.sdDidread = false ∧ sd.sdRirq.siReady = true)) :
    (serialPushinput sd).arm = some serialRead ∧
      (serialPushinput sd).dev.sdInbufhead = sd.sdInbufhead + 1 ∧
      (serialPushinput sd).dev.sdInbuftail = sd.sdInbuftail ∧
      (serialPushinput sd).dev.sdDidread = false ∧
      (serialPushinput sd).dev.sdRirq.siReady = true := by
  rw [serialPushinput, if_neg h, if_neg (by simpa using hRead)]
  exact ⟨rfl, rfl, rfl, rfl, rfl⟩

/-- `serial_pushinput` puts itself back unless the ring is empty, and takes at most a character. -/
theorem serialPushinput_cases (sd : SerData) :
    (sd.sdInbufhead = sd.sdInbuftail ∧ (serialPushinput sd).arm = none ∧
        (serialPushinput sd).dev.backlog = sd.backlog ∧
        ¬ sd.backedUp ∧ ¬ (serialPushinput sd).dev.backedUp) ∨
      ((serialPushinput sd).arm = some serialRead ∧
        (sd.backedUp ∧ (serialPushinput sd).dev.backedUp ∧
            (serialPushinput sd).dev.backlog ≤ sd.backlog ∨
          ¬ sd.backedUp ∧ ¬ (serialPushinput sd).dev.backedUp ∧
            (serialPushinput sd).dev.backlog < sd.backlog)) := by
  by_cases hEmpty : sd.sdInbufhead = sd.sdInbuftail
  · left
    rw [serialPushinput_empty hEmpty]
    exact ⟨hEmpty, rfl, rfl, fun h => h.1 hEmpty, fun h => h.1 hEmpty⟩
  · right
    by_cases hRead : sd.sdDidread = false ∧ sd.sdRirq.siReady = true
    · obtain ⟨hArm, hDev⟩ := serialPushinput_unread hEmpty hRead.1 hRead.2
      rw [hDev]
      exact ⟨hArm, Or.inl ⟨⟨hEmpty, Or.inl hRead⟩, ⟨hEmpty, Or.inl hRead⟩, Nat.le_refl _⟩⟩
    · obtain ⟨hArm, hHead, hTail, hDidread, hReady⟩ := serialPushinput_read hEmpty hRead
      have hLess : (serialPushinput sd).dev.backlog < sd.backlog := by
        rw [SerData.backlog, SerData.backlog, hHead, hTail]
        have hNe : sd.sdInbufhead.val ≠ sd.sdInbuftail.val := fun h => hEmpty (Fin.ext h)
        simp only [Fin.sub_def, Fin.add_def]
        have h1 : ((1 : Fin 512) : Nat) = 1 := rfl
        rw [h1]
        have := sd.sdInbufhead.isLt
        have := sd.sdInbuftail.isLt
        omega
      refine ⟨hArm, ?_⟩
      by_cases hMore : sd.sdInbufhead + 1 = sd.sdInbuftail
      · refine Or.inr ⟨?_, ?_, hLess⟩
        · rintro ⟨-, hCase | hCase⟩
          · exact hRead hCase
          · exact hCase hMore
        · rintro ⟨hNe, -⟩
          rw [hHead, hTail] at hNe
          exact hNe hMore
      · refine Or.inl ⟨⟨hEmpty, Or.inr hMore⟩, ⟨?_, Or.inl ⟨hDidread, hReady⟩⟩, hLess.le⟩
        rw [hHead, hTail]
        exact hMore

/-! ### The disk -/

theorem finish_inProgress {dd : DiskData} {bits : BitVec 32} (h : bits &&& diskbitInprogress = 0) :
    (dd.finish bits).inProgress = false := by
  have hStat : (dd.ddStat &&& ~~~diskbitInprogress ||| bits) &&& diskbitInprogress = 0 := by
    rw [BitVec.and_comm, BitVec.and_or_distrib_left, BitVec.and_comm _ bits, h,
      BitVec.and_comm dd.ddStat, ← BitVec.and_assoc]
    simp
  simp [DiskData.inProgress, DiskData.finish, hStat]

theorem finish_budget {dd : DiskData} {bits : BitVec 32} (h : bits &&& diskbitInprogress = 0) :
    (dd.finish bits).budget = 0 := by
  rw [DiskData.budget, finish_inProgress h]
  rfl

theorem forceio_budget (dd : DiskData) (h : Host) : (forceio dd h).dev.budget = 0 := by
  have hBits : ((if h.ioError then diskbitComplete ||| diskbitMediaerr else diskbitComplete) &&&
      diskbitInprogress) = 0 := by
    cases h.ioError <;> rfl
  exact finish_budget hBits

/-- The handlers that only the disk puts on the queue. -/
def Func.ofDisk : Func → Prop
  | .diskSeekdone | .diskWaitdone => True
  | _ => False

def DiskData.sameGeometry (dd dd' : DiskData) : Prop :=
  dd'.ddSectors = dd.ddSectors ∧ dd'.ddTotsectors = dd.ddTotsectors

/-- What a call of the disk leads to: it comes to rest, or waits for an event of its own with
less of its tries left. -/
structure DiskSpec (dd : DiskData) (r : Done DiskData) : Prop where
  geometry : dd.sameGeometry r.dev
  budget : r.dev.budget ≤ dd.budget
  arm : ∀ a, r.arm = some a → a.func.ofDisk ∧ r.dev.budget < dd.budget

theorem forceio_geometry (dd : DiskData) (h : Host) : dd.sameGeometry (forceio dd h).dev := by
  rw [forceio]
  cases dd.isWrite <;> exact ⟨rfl, rfl⟩

theorem diskPhase_spec (dd : DiskData) (cyl : Nat) (h : Host) :
    dd.sameGeometry (diskPhase dd cyl h).dev ∧ (diskPhase dd cyl h).dev.budget ≤ dd.budget ∧
      ∀ a, (diskPhase dd cyl h).arm = some a → a.func.ofDisk := by
  have hForce (dd' : DiskData) (hSame : dd.sameGeometry dd') :
      dd.sameGeometry (forceio dd' h).dev ∧ (forceio dd' h).dev.budget ≤ dd.budget ∧
        ∀ a, (forceio dd' h).arm = some a → a.func.ofDisk := by
    obtain ⟨hSectors, hTotal⟩ := forceio_geometry dd' h
    refine ⟨⟨hSectors.trans hSame.1, hTotal.trans hSame.2⟩, ?_, ?_⟩
    · rw [forceio_budget]
      exact Nat.zero_le _
    · intro a ha
      cases ha
  have hWait {nsecs : BitVec 64} {code : BitVec 32} {func : Func} {desc : String}
      (dd' : DiskData) (hSame : dd.sameGeometry dd') (hBudget : dd'.budget = dd.budget)
      (hFunc : func.ofDisk) :
      dd.sameGeometry (dd'.wait nsecs code func desc).dev ∧
        (dd'.wait nsecs code func desc).dev.budget ≤ dd.budget ∧
        ∀ a, (dd'.wait nsecs code func desc).arm = some a → a.func.ofDisk := by
    refine ⟨hSame, hBudget.le, ?_⟩
    intro a ha
    cases ha
    exact hFunc
  have hSame : dd.sameGeometry dd := ⟨rfl, rfl⟩
  rw [diskPhase]
  split
  · exact hWait dd hSame rfl trivial
  · split
    · exact hWait dd hSame rfl trivial
    · split
      · exact hWait dd hSame rfl trivial
      · dsimp only
        split
        · split
          · exact hWait _ ⟨rfl, rfl⟩ rfl trivial
          · exact hForce _ ⟨rfl, rfl⟩
        · split
          · exact hWait dd hSame rfl trivial
          · exact hForce dd hSame

theorem diskWork_spec {dd : DiskData} {now : BitVec 32 × BitVec 32} {h : Host}
    {r : Done DiskData} (hOk : diskWork dd now h = .ok r) : DiskSpec dd r := by
  have hRest (dd' : DiskData) (hSame : dd.sameGeometry dd') (hBudget : dd'.budget ≤ dd.budget) :
      DiskSpec dd { dev := dd' } :=
    ⟨hSame, hBudget, fun a ha => by cases ha⟩
  rw [diskWork] at hOk
  split at hOk
  · cases hOk
    exact hRest dd ⟨rfl, rfl⟩ (Nat.le_refl _)
  · split at hOk
    · cases hOk
      exact hRest dd ⟨rfl, rfl⟩ (Nat.le_refl _)
    · next hProgress =>
      have hBusy : dd.inProgress = true := by simpa using hProgress
      split at hOk
      · cases hOk
        refine hRest _ ⟨rfl, rfl⟩ ?_
        rw [finish_budget rfl]
        exact Nat.zero_le _
      · dsimp only at hOk
        split at hOk
        · cases hOk
          refine ⟨forceio_geometry _ _, ?_, ?_⟩
          · exact (forceio_budget _ _).le.trans (Nat.zero_le _)
          · intro a ha
            cases ha
        · next hTries =>
          obtain ⟨p, -, rfl⟩ := map_eq_ok hOk
          obtain ⟨hSame, hLess, hArm⟩ :=
            diskPhase_spec { dd with ddWorktries := dd.ddWorktries + 1 } p.1 h
          have hStep : DiskData.budget { dd with ddWorktries := dd.ddWorktries + 1 } <
              dd.budget := by
            have hBusy' : DiskData.inProgress { dd with ddWorktries := dd.ddWorktries + 1 } =
              true := hBusy
            rw [DiskData.budget, DiskData.budget, if_pos hBusy, if_pos hBusy']
            simp only [maxWorktries] at hTries ⊢
            omega
          exact ⟨hSame, hLess.trans hStep.le, fun a ha => ⟨hArm a ha, hLess.trans_lt hStep⟩⟩

theorem diskUpdate_spec {dd : DiskData} {now : BitVec 32 × BitVec 32} {h : Host}
    {r : Done DiskData} (hOk : diskUpdate dd now h = .ok r) : DiskSpec dd r := by
  obtain ⟨r', hWork, rfl⟩ := map_eq_ok hOk
  obtain ⟨hSame, hBudget, hArm⟩ := diskWork_spec hWork
  exact ⟨hSame, hBudget, hArm⟩

theorem diskSeekdone_spec {dd : DiskData} {cyl : BitVec 32} {now : BitVec 32 × BitVec 32}
    {h : Host} {r : Done DiskData} (hOk : diskSeekdone dd cyl now h = .ok r) : DiskSpec dd r := by
  obtain ⟨hSame, hBudget, hArm⟩ := diskUpdate_spec hOk
  exact ⟨hSame, hBudget, hArm⟩

theorem diskWaitdone_spec {dd : DiskData} {status : BitVec 32} {now : BitVec 32 × BitVec 32}
    {h : Host} {r : Done DiskData} (hOk : diskWaitdone dd status now h = .ok r) :
    DiskSpec dd r := by
  obtain ⟨hSame, hBudget, hArm⟩ := diskUpdate_spec hOk
  exact ⟨hSame, hBudget, hArm⟩

/-! ## The handlers together -/

theorem sum_update_le {α : Type} (g : α → Nat) (s : Fin 32 → α) {k : Fin 32} {x : α}
    (h : g x ≤ g (s k)) : ∑ i, g (Function.update s k x i) ≤ ∑ i, g (s i) := by
  refine Finset.sum_le_sum fun i _ => ?_
  by_cases hi : i = k
  · subst hi
    rwa [Function.update_self]
  · rw [Function.update_of_ne hi]

theorem sum_update_lt {α : Type} (g : α → Nat) (s : Fin 32 → α) {k : Fin 32} {x : α}
    (h : g x < g (s k)) : ∑ i, g (Function.update s k x i) < ∑ i, g (s i) := by
  refine Finset.sum_lt_sum (fun i _ => ?_) ⟨k, Finset.mem_univ k, ?_⟩
  · by_cases hi : i = k
    · subst hi
      rw [Function.update_self]
      exact h.le
    · rw [Function.update_of_ne hi]
  · rwa [Function.update_self]

/-- The work left in all devices. -/
def Devices.backlog (D : Devices) : Nat :=
  ∑ i, (D.serials i).backlog + ∑ i, (D.disks i).budget

theorem rearms_congr {vnow : BitVec 64} {D D' : Devices}
    (hTimer : ∀ i gen, (D'.timers i).Rearms vnow gen ↔ (D.timers i).Rearms vnow gen)
    (hSerial : ∀ i, (D'.serials i).Rearms vnow ↔ (D.serials i).Rearms vnow)
    (hMeter : ∀ m, (D'.meters m).Rearms vnow ↔ (D.meters m).Rearms vnow)
    (func : Option Func) (data : Option Data) (code : BitVec 32) :
    Rearms vnow D' func data code ↔ Rearms vnow D func data code := by
  cases func with
  | none => exact Iff.rfl
  | some f =>
    cases data with
    | none => cases f <;> exact Iff.rfl
    | some d =>
      cases d with
      | slot i =>
        cases f with
        | timerInterrupt => exact hTimer i code
        | serialPushinput => exact hSerial i
        | _ => exact Iff.rfl
      | meter m =>
        cases f with
        | meterUpdate => exact hMeter m
        | _ => exact Iff.rfl

/-- What a handler does whose event does not keep coming back: no event becomes one that does,
and if it may be due again at once the devices have less work left. -/
structure HandlerSpec (vnow : BitVec 64) (D : Devices) (data : Option Data) (r : Handled) :
    Prop where
  rearms_iff : ∀ f d c, Rearms vnow r.dev f d c ↔ Rearms vnow D f d c
  backlog : r.dev.backlog ≤ D.backlog
  arm : ∀ a, r.arm = some a → ¬ Rearms vnow D (some a.func) data a.code ∧
    (CanBeDue vnow a.nsecs → r.dev.backlog < D.backlog)

section Spec

variable {vnow : BitVec 64} {D : Devices} {i : Fin 32}

theorem timer_spec {gen : BitVec 32} (hNot : ¬ (D.timers i).Rearms vnow gen) :
    HandlerSpec vnow D (some (.slot i)) (D.timerDone i (timerInterrupt (D.timers i) gen)) where
  rearms_iff := by
    refine rearms_congr (fun j code => ?_) (fun _ => Iff.rfl) (fun _ => Iff.rfl)
    by_cases hj : j = i
    · subst hj
      simp only [Devices.timerDone, Done.into, Function.update_self]
      exact timerInterrupt_rearms_iff hNot code
    · simp only [Devices.timerDone, Done.into, Function.update_of_ne hj]
  backlog := Nat.le_refl _
  arm := by
    intro a ha
    obtain ⟨hGen, hRestart, hNsecs, hFunc, -⟩ := timerInterrupt_arm ha
    have hLate : ¬ CanBeDue vnow (D.timers i).nsecs := fun hDue => hNot ⟨hGen, hRestart, hDue⟩
    rw [hNsecs, hFunc]
    exact ⟨fun h => hLate h.2.2, fun hDue => absurd hDue hLate⟩

theorem serialWritedone_rearms_iff (sd : SerData) :
    (serialWritedone sd).dev.Rearms vnow ↔ sd.Rearms vnow := Iff.rfl

theorem serialDone_rearms_iff {r : Done SerData}
    (h : r.dev.Rearms vnow ↔ (D.serials i).Rearms vnow) (func : Option Func)
    (data : Option Data) (code : BitVec 32) :
    Rearms vnow (D.serialDone i r).dev func data code ↔ Rearms vnow D func data code := by
  have hTimer : ∀ j gen, ((D.serialDone i r).dev.timers j).Rearms vnow gen ↔
      (D.timers j).Rearms vnow gen := fun _ _ => Iff.rfl
  refine rearms_congr hTimer (fun j => ?_) (fun _ => Iff.rfl) func data code
  by_cases hj : j = i
  · subst hj
    simp only [Devices.serialDone, Done.into, Function.update_self]
    exact h
  · simp only [Devices.serialDone, Done.into, Function.update_of_ne hj]

theorem serialDone_backlog_le {r : Done SerData} (h : r.dev.backlog ≤ (D.serials i).backlog) :
    (D.serialDone i r).dev.backlog ≤ D.backlog :=
  Nat.add_le_add_right (sum_update_le SerData.backlog D.serials h) _

theorem serialDone_backlog_lt {r : Done SerData} (h : r.dev.backlog < (D.serials i).backlog) :
    (D.serialDone i r).dev.backlog < D.backlog :=
  Nat.add_lt_add_right (sum_update_lt SerData.backlog D.serials h) _

theorem serialWritedone_spec :
    HandlerSpec vnow D (some (.slot i)) (D.serialDone i (serialWritedone (D.serials i))) where
  rearms_iff := serialDone_rearms_iff (serialWritedone_rearms_iff _)
  backlog := serialDone_backlog_le (Nat.le_refl _)
  arm := by
    intro a ha
    cases ha

theorem serialPushinput_spec (hNot : ¬ (D.serials i).Rearms vnow) :
    HandlerSpec vnow D (some (.slot i)) (D.serialDone i (serialPushinput (D.serials i))) := by
  rcases serialPushinput_cases (D.serials i) with
    ⟨-, hArm, hBacklog, hBefore, hAfter⟩ | ⟨hArm, ⟨hBefore, hAfter, hLe⟩ | ⟨hBefore, hAfter, hLt⟩⟩
  · refine ⟨serialDone_rearms_iff ?_, serialDone_backlog_le hBacklog.le, ?_⟩
    · exact iff_of_false (fun h => hAfter h.1) (fun h => hBefore h.1)
    · intro a ha
      rw [Devices.serialDone, Done.into, hArm] at ha
      cases ha
  · have hLate : ¬ CanBeDue vnow serialNsecs := fun hDue => hNot ⟨hBefore, hDue⟩
    refine ⟨serialDone_rearms_iff ?_, serialDone_backlog_le hLe, ?_⟩
    · exact iff_of_false (fun h => hLate h.2) (fun h => hLate h.2)
    · intro a ha
      rw [Devices.serialDone, Done.into, hArm] at ha
      cases ha
      exact ⟨hNot, fun hDue => absurd hDue hLate⟩
  · refine ⟨serialDone_rearms_iff ?_, serialDone_backlog_le hLt.le, ?_⟩
    · exact iff_of_false (fun h => hAfter h.1) (fun h => hBefore h.1)
    · intro a ha
      rw [Devices.serialDone, Done.into, hArm] at ha
      cases ha
      exact ⟨hNot, fun _ => serialDone_backlog_lt hLt⟩

theorem disk_spec {data : Option Data} {r : Done DiskData} (h : DiskSpec (D.disks i) r) :
    HandlerSpec vnow D data (D.diskDone i r) where
  rearms_iff := fun _ _ _ => Iff.rfl
  backlog := Nat.add_le_add_left (sum_update_le DiskData.budget D.disks h.budget) _
  arm := by
    intro a ha
    obtain ⟨hFunc, hBudget⟩ := h.arm a ha
    refine ⟨?_, fun _ => Nat.add_lt_add_left (sum_update_lt DiskData.budget D.disks hBudget) _⟩
    revert hFunc
    cases a.func <;> simp [Func.ofDisk, Rearms]

theorem net_spec {r : Done NetData} (h : ∀ a, r.arm = some a → a.func = .keepalive ∧
    ¬ CanBeDue vnow 1000000000 ∧ a.nsecs = 1000000000) :
    HandlerSpec vnow D (some (.slot i)) (D.netDone i r) where
  rearms_iff := fun _ _ _ => Iff.rfl
  backlog := Nat.le_refl _
  arm := by
    intro a ha
    obtain ⟨hFunc, hLate, hNsecs⟩ := h a ha
    rw [hFunc, hNsecs]
    exact ⟨hLate, fun hDue => absurd hDue hLate⟩

theorem keepalive_arm (nd : NetData) (slot : Fin 32) (sendto : SendResult) :
    ∃ a, (keepalive nd slot sendto).arm = some a ∧ a.func = .keepalive ∧ a.nsecs = 1000000000 := by
  cases sendto with
  | sent => exact ⟨_, rfl, rfl, rfl⟩
  | failed noCarrier error => cases noCarrier <;> exact ⟨_, rfl, rfl, rfl⟩

theorem triggersend_arm (nd : NetData) (slot : Fin 32) (sendto : SendResult) :
    (triggersend nd slot sendto).arm = none := by
  simp only [triggersend, dosend]
  split <;> rfl

theorem meter_spec {m : Nat} (hNot : ¬ (D.meters m).Rearms vnow) :
    HandlerSpec vnow D (some (.meter m)) (D.meterDone m (meterUpdate (D.meters m))) := by
  have hDev : (meterUpdate (D.meters m)).dev = D.meters m := by
    rw [meterUpdate]
    split <;> rfl
  refine ⟨rearms_congr (fun _ _ => Iff.rfl) (fun _ => Iff.rfl) (fun k => ?_), Nat.le_refl _, ?_⟩
  · rw [Devices.meterDone, Done.into, hDev, Function.update_eq_self]
  · intro a ha
    rw [Devices.meterDone, Done.into, meterUpdate] at ha
    split at ha
    · cases ha
    · next hOpen =>
      cases ha
      exact ⟨hNot, fun hDue => absurd ⟨not_lt.mp hOpen, hDue⟩ hNot⟩

theorem profSample_arm (p : Prof) (pc : BitVec 32) :
    ∃ a, (profSample p pc).arm = some a ∧ a.func = .profSample ∧ a.nsecs = profileNsecs := by
  simp only [profSample]
  split
  · split <;> exact ⟨_, rfl, rfl, rfl⟩
  · exact ⟨_, rfl, rfl, rfl⟩

theorem prof_spec {pc : BitVec 32} (hNot : ¬ CanBeDue vnow profileNsecs) :
    HandlerSpec vnow D none (D.profDone (profSample D.prof pc)) where
  rearms_iff := fun _ _ _ => Iff.rfl
  backlog := Nat.le_refl _
  arm := by
    intro a ha
    obtain ⟨a', ha', hFunc, hNsecs⟩ := profSample_arm D.prof pc
    cases ha'.symm.trans ha
    rw [hFunc, hNsecs]
    exact ⟨hNot, fun hDue => absurd hDue hNot⟩

theorem idle_spec {data : Option Data} {r : Handled}
    (hRearms : ∀ f d c, Rearms vnow r.dev f d c ↔ Rearms vnow D f d c)
    (hBacklog : r.dev.backlog = D.backlog) (hArm : r.arm = none) : HandlerSpec vnow D data r where
  rearms_iff := hRearms
  backlog := hBacklog.le
  arm := by
    intro a ha
    rw [hArm] at ha
    cases ha

theorem runHandler_spec {now : BitVec 32 × BitVec 32} {h : Host} {func : Option Func}
    {data : Option Data} {code : BitVec 32} {r : Handled}
    (hOk : runHandler D now h func data code = .ok r) (hNot : ¬ Rearms vnow D func data code) :
    HandlerSpec vnow D data r := by
  unfold runHandler at hOk
  split at hOk
  · cases hOk
    exact timer_spec hNot
  · cases hOk
    exact serialWritedone_spec
  · cases hOk
    exact serialPushinput_spec hNot
  · next i =>
    cases hOk
    refine net_spec fun a ha => ?_
    obtain ⟨a', ha', hFunc, hNsecs⟩ := keepalive_arm (D.nets i) i h.sendto
    cases ha'.symm.trans ha
    exact ⟨hFunc, hNot, hNsecs⟩
  · next i =>
    cases hOk
    exact idle_spec (fun _ _ _ => Iff.rfl) rfl (triggersend_arm (D.nets i) i h.sendto)
  · next i =>
    obtain ⟨r', hDone, rfl⟩ := map_eq_ok hOk
    refine idle_spec (fun _ _ _ => Iff.rfl) rfl ?_
    rw [Bus.emufsDone] at hDone
    split at hDone
    · cases hDone
    · cases hDone
      rfl
  · obtain ⟨r', hDone, rfl⟩ := map_eq_ok hOk
    exact disk_spec (diskSeekdone_spec hDone)
  · obtain ⟨r', hDone, rfl⟩ := map_eq_ok hOk
    exact disk_spec (diskWaitdone_spec hDone)
  · cases hOk
    exact idle_spec (fun _ _ _ => Iff.rfl) rfl rfl
  · cases hOk
    exact meter_spec hNot
  · cases hOk
    exact prof_spec hNot
  · cases hOk

/-- A handler whose event keeps coming back runs to its end and puts it back, always with the
same delay. -/
theorem runHandler_rearms {func : Option Func} {data : Option Data} {code : BitVec 32}
    (hRearms : Rearms vnow D func data code) :
    ∃ nsecs, CanBeDue vnow nsecs ∧ ∀ now h, ∃ r a, runHandler D now h func data code = .ok r ∧
      r.arm = some a ∧ a.nsecs = nsecs ∧ Rearms vnow r.dev (some a.func) data a.code := by
  unfold Rearms at hRearms
  split at hRearms
  · next i =>
    obtain ⟨a, hArm, hNsecs, hFunc, hAgain⟩ := timerInterrupt_rearms hRearms
    refine ⟨_, hRearms.2.2, fun now h => ⟨_, a, rfl, hArm, hNsecs, ?_⟩⟩
    rw [hFunc]
    show ((D.timerDone i _).dev.timers i).Rearms vnow a.code
    simp only [Devices.timerDone, Done.into, Function.update_self]
    exact hAgain
  · next i =>
    obtain ⟨hBacked, hDue⟩ := hRearms
    rcases serialPushinput_cases (D.serials i) with
      ⟨-, -, -, hNot, -⟩ | ⟨hArm, ⟨-, hAgain, -⟩ | ⟨hNot, -⟩⟩
    · exact absurd hBacked hNot
    · refine ⟨_, hDue, fun now h => ⟨_, _, rfl, hArm, rfl, ?_⟩⟩
      show ((D.serialDone i _).dev.serials i).Rearms vnow
      simp only [Devices.serialDone, Done.into, Function.update_self]
      exact ⟨hAgain, hDue⟩
    · exact absurd hBacked hNot
  · next i =>
    refine ⟨_, hRearms, fun now h => ?_⟩
    obtain ⟨a, hArm, hFunc, hNsecs⟩ := keepalive_arm (D.nets i) i h.sendto
    refine ⟨_, a, rfl, hArm, hNsecs, ?_⟩
    rw [hFunc]
    exact hRearms
  · next m =>
    obtain ⟨hOpen, hDue⟩ := hRearms
    have hUpdate : meterUpdate (D.meters m) =
        { dev := D.meters m
          arm := some { nsecs := (D.meters m).interval, code := 0, func := .meterUpdate
                        desc := "perfmeter" } } := by
      rw [meterUpdate, if_neg (not_lt.mpr hOpen)]
    refine ⟨_, hDue, fun now h => ⟨_, _, rfl, by rw [Devices.meterDone, hUpdate]; rfl, rfl, ?_⟩⟩
    show ((D.meterDone m _).dev.meters m).Rearms vnow
    rw [hUpdate]
    simp only [Devices.meterDone, Done.into, Function.update_self]
    exact ⟨hOpen, hDue⟩
  · refine ⟨_, hRearms, fun now h => ?_⟩
    obtain ⟨a, hArm, hFunc, hNsecs⟩ := profSample_arm D.prof h.pc
    refine ⟨_, a, rfl, hArm, hNsecs, ?_⟩
    rw [hFunc]
    exact hRearms
  · exact absurd hRearms id

end Spec

/-! ## Handlers that come to their end -/

/-- The kind of pointer that each handler is scheduled with. -/
def Func.takes : Func → Option Data → Prop
  | .dopoweroff, none | .profSample, none | .meterUpdate, some (.meter _) => True
  | .dopoweroff, _ | .profSample, _ | .meterUpdate, _ => False
  | _, some (.slot _) => True
  | _, _ => False

/-- The track table holds all the sectors, and their number fits a word. -/
def DiskData.geometryOk (dd : DiskData) : Prop :=
  (dd.ddSectors.map BitVec.toNat).sum < 2 ^ 32 ∧
    dd.ddTotsectors.toNat ≤ (dd.ddSectors.map BitVec.toNat).sum

theorem locateFrom_isSome (l : List (BitVec 32)) (start sector : BitVec 32)
    (hFits : start.toNat + (l.map BitVec.toNat).sum < 2 ^ 32) (hStart : start ≤ sector)
    (hLast : sector.toNat < start.toNat + (l.map BitVec.toNat).sum) :
    ∃ p, locateFrom l start sector = some p := by
  induction l generalizing start with
  | nil =>
    rw [BitVec.le_def] at hStart
    simp only [List.map_nil, List.sum_nil] at hLast
    omega
  | cons count inner ih =>
    simp only [List.map_cons, List.sum_cons] at hFits hLast
    have hSum : (start + count).toNat = start.toNat + count.toNat := by
      rw [BitVec.toNat_add]
      omega
    rw [locateFrom]
    by_cases hHere : sector < start + count
    · exact ⟨_, if_pos ⟨hStart, hHere⟩⟩
    · simp only [hHere, and_false, if_false]
      exact ih (start + count) (by omega) (BitVec.not_lt.mp hHere) (by omega)

theorem locateSector_ok {dd : DiskData} (hGeometry : dd.geometryOk)
    (hSector : dd.ddSect < dd.ddTotsectors) : ∃ p, locateSector dd dd.ddSect = .ok p := by
  obtain ⟨hFits, hTotal⟩ := hGeometry
  have hSum : (dd.ddSectors.reverse.map BitVec.toNat).sum = (dd.ddSectors.map BitVec.toNat).sum := by
    rw [List.map_reverse, List.sum_reverse]
  have hLast := (BitVec.lt_def.mp hSector).trans_le hTotal
  obtain ⟨p, hp⟩ := locateFrom_isSome dd.ddSectors.reverse 0 dd.ddSect
    (by simpa [hSum] using hFits) (by simp [BitVec.le_def]) (by simpa [hSum] using hLast)
  exact ⟨p, by rw [locateSector, hp]⟩

theorem diskWork_ok {dd : DiskData} (hGeometry : dd.geometryOk) (now : BitVec 32 × BitVec 32)
    (h : Host) : ∃ r, diskWork dd now h = .ok r := by
  rw [diskWork]
  split
  · exact ⟨_, rfl⟩
  · split
    · exact ⟨_, rfl⟩
    · split
      · exact ⟨_, rfl⟩
      · next hSector =>
        dsimp only
        split
        · exact ⟨_, rfl⟩
        · obtain ⟨p, hp⟩ := locateSector_ok hGeometry (BitVec.not_le.mp hSector)
          have hTry : locateSector { dd with ddWorktries := dd.ddWorktries + 1 } dd.ddSect =
              .ok p := hp
          rw [hTry]
          exact ⟨_, rfl⟩

theorem diskUpdate_ok {dd : DiskData} (hGeometry : dd.geometryOk) (now : BitVec 32 × BitVec 32)
    (h : Host) : ∃ r, diskUpdate dd now h = .ok r := by
  obtain ⟨r, hr⟩ := diskWork_ok hGeometry now h
  exact ⟨_, by rw [diskUpdate, hr]; rfl⟩

theorem DiskData.sameGeometry.geometryOk {dd dd' : DiskData} (h : dd.sameGeometry dd')
    (hOk : dd.geometryOk) : dd'.geometryOk := by
  rw [DiskData.geometryOk, h.1, h.2]
  exact hOk

theorem runHandler_ok {D : Devices} {func : Func} {data : Option Data} (hData : func.takes data)
    (hEmufs : ∀ i, func = .emufsDone → data = some (.slot i) → (D.emufs i).edBusy = 1)
    (hDisks : ∀ i, (D.disks i).geometryOk) (now : BitVec 32 × BitVec 32) (h : Host)
    (code : BitVec 32) : ∃ r, runHandler D now h (some func) data code = .ok r := by
  cases data with
  | none => cases func <;> first | exact ⟨_, rfl⟩ | exact absurd hData id
  | some d =>
    cases d with
    | meter m => cases func <;> first | exact ⟨_, rfl⟩ | exact absurd hData id
    | slot i =>
      cases func with
      | emufsDone =>
        obtain ⟨r, hr⟩ : ∃ r, Bus.emufsDone (D.emufs i) = .ok r :=
          ⟨_, if_neg (not_not.mpr (hEmufs i rfl rfl))⟩
        exact ⟨_, by rw [runHandler, hr]; rfl⟩
      | diskSeekdone =>
        have hGeometry : DiskData.geometryOk { D.disks i with
            ddCurrentTrack := code.toInt
            ddTrackarrivalSecs := now.1
            ddTrackarrivalNsecs := now.2
            ddTimedop := false } := hDisks i
        obtain ⟨r, hr⟩ := diskUpdate_ok hGeometry now h
        exact ⟨_, by rw [runHandler, diskSeekdone, hr]; rfl⟩
      | diskWaitdone =>
        have hGeometry : DiskData.geometryOk { D.disks i with
            ddIostatus := code.toInt
            ddTimedop := false } := hDisks i
        obtain ⟨r, hr⟩ := diskUpdate_ok hGeometry now h
        exact ⟨_, by rw [runHandler, diskWaitdone, hr]; rfl⟩
      | dopoweroff => exact absurd hData id
      | profSample => exact absurd hData id
      | meterUpdate => exact absurd hData id
      | _ => exact ⟨_, rfl⟩

/-- What handlers leave of the conditions under which handlers come to their end. -/
structure Frame (D : Devices) (func : Option Func) (data : Option Data) (r : Handled) : Prop where
  takes : ∀ a, r.arm = some a → a.func.takes data
  arm : ∀ a, r.arm = some a → a.func ≠ .emufsDone
  busy : ∀ i, ¬ (func = some .emufsDone ∧ data = some (.slot i)) →
    (r.dev.emufs i).edBusy = (D.emufs i).edBusy
  geometry : ∀ i, (D.disks i).geometryOk → (r.dev.disks i).geometryOk

theorem disk_frame {D : Devices} {i : Fin 32} {func : Func} {r : Done DiskData}
    (h : DiskSpec (D.disks i) r) : Frame D (some func) (some (.slot i)) (D.diskDone i r) where
  takes := by
    intro a ha
    have hFunc := (h.arm a ha).1
    revert hFunc
    cases a.func <;> simp [Func.ofDisk, Func.takes]
  arm := by
    intro a ha
    have hFunc := (h.arm a ha).1
    revert hFunc
    cases a.func <;> simp [Func.ofDisk]
  busy := fun _ _ => rfl
  geometry := by
    intro j hj
    by_cases hij : j = i
    · subst hij
      simp only [Devices.diskDone, Done.into, Function.update_self]
      exact h.geometry.geometryOk hj
    · simpa only [Devices.diskDone, Done.into, Function.update_of_ne hij] using hj

theorem frame_of_same {D : Devices} {func : Option Func} {data : Option Data} {r : Handled}
    (hArm : ∀ a, r.arm = some a → a.func.takes data ∧ a.func ≠ .emufsDone)
    (hEmufs : r.dev.emufs = D.emufs) (hDisks : r.dev.disks = D.disks) : Frame D func data r where
  takes := fun a ha => (hArm a ha).1
  arm := fun a ha => (hArm a ha).2
  busy := fun i _ => by rw [hEmufs]
  geometry := fun i hi => by rwa [hDisks]

theorem emufs_frame {D : Devices} {i : Fin 32} {r : Done EmufsData} (hArm : r.arm = none) :
    Frame D (some .emufsDone) (some (.slot i)) (D.emufsDone i r) where
  takes := by
    intro a ha
    rw [Devices.emufsDone, Done.into, hArm] at ha
    cases ha
  arm := by
    intro a ha
    rw [Devices.emufsDone, Done.into, hArm] at ha
    cases ha
  busy := by
    intro j hj
    have hji : j ≠ i := by
      rintro rfl
      exact hj ⟨rfl, rfl⟩
    simp only [Devices.emufsDone, Done.into, Function.update_of_ne hji]
  geometry := fun _ hi => hi

theorem runHandler_frame {D : Devices} {now : BitVec 32 × BitVec 32} {h : Host}
    {func : Option Func} {data : Option Data} {code : BitVec 32} {r : Handled}
    (hOk : runHandler D now h func data code = .ok r) : Frame D func data r := by
  unfold runHandler at hOk
  split at hOk
  · cases hOk
    refine frame_of_same (fun a ha => ?_) rfl rfl
    obtain ⟨-, -, -, hFunc, -⟩ := timerInterrupt_arm ha
    rw [hFunc]
    exact ⟨trivial, by decide⟩
  · cases hOk
    exact frame_of_same (fun a ha => by cases ha) rfl rfl
  · next i =>
    cases hOk
    refine frame_of_same (fun a ha => ?_) rfl rfl
    have hRead : a = serialRead := by
      rcases serialPushinput_cases (D.serials i) with ⟨-, hArm, -⟩ | ⟨hArm, -⟩
      · cases hArm.symm.trans ha
      · cases hArm.symm.trans ha
        rfl
    rw [hRead]
    exact ⟨trivial, by decide⟩
  · next i =>
    cases hOk
    refine frame_of_same (fun a ha => ?_) rfl rfl
    obtain ⟨a', ha', hFunc, -⟩ := keepalive_arm (D.nets i) i h.sendto
    cases ha'.symm.trans ha
    rw [hFunc]
    exact ⟨trivial, by decide⟩
  · next i =>
    cases hOk
    refine frame_of_same (fun a ha => ?_) rfl rfl
    cases (triggersend_arm (D.nets i) i h.sendto).symm.trans ha
  · obtain ⟨r', hDone, rfl⟩ := map_eq_ok hOk
    refine emufs_frame ?_
    rw [Bus.emufsDone] at hDone
    split at hDone
    · cases hDone
    · cases hDone
      rfl
  · obtain ⟨r', hDone, rfl⟩ := map_eq_ok hOk
    exact disk_frame (diskSeekdone_spec hDone)
  · obtain ⟨r', hDone, rfl⟩ := map_eq_ok hOk
    exact disk_frame (diskWaitdone_spec hDone)
  · cases hOk
    exact frame_of_same (fun a ha => by cases ha) rfl rfl
  · next m =>
    cases hOk
    refine frame_of_same (fun a ha => ?_) rfl rfl
    rw [Devices.meterDone, Done.into, meterUpdate] at ha
    split at ha
    · cases ha
    · cases ha
      exact ⟨trivial, Func.noConfusion⟩
  · cases hOk
    refine frame_of_same (fun a ha => ?_) rfl rfl
    obtain ⟨a', ha', hFunc, -⟩ := profSample_arm D.prof h.pc
    cases ha'.symm.trans ha
    rw [hFunc]
    exact ⟨trivial, by decide⟩
  · cases hOk

end Sys161.Bus
