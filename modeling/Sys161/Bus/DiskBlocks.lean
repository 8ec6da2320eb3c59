import Sys161.Bus.DiskImage
import Sys161.Bus.DiskRuns
import Sys161.Lib.BlockStore

/-!
# The disk as a store of blocks

The disk together with its image. The transfers that the device makes, whatever is
written to its registers and whenever its events fire, are those of a store of
blocks that hold what was last written to them.
-/

namespace Sys161.Bus

open Buffer Runs

set_option autoImplicit false

/-! ## The disk and its image -/

abbrev SectorTransfer := BlockStore.Transfer (BitVec 8)

def DiskData.sectorData (dd : DiskData) : List (BitVec 8) := contents dd.ddBuf sectsize

/-- The transfer of a step, with the sector in the register and the buffer as it is after it. -/
def Done.carried (r : Done DiskData) (h : Host) : Option SectorTransfer :=
  r.hostIo.map fun io =>
    { write := io.write
      block := r.dev.ddSect.toNat
      data := r.dev.sectorData
      ok := !h.ioError }

/-- What `disk_readsector` and `disk_writesector` do, which the device is told the outcome of. -/
inductive Carries (paranoid : Bool) (dd : DiskData) (r : Done DiskData) (h : Host) (img : Image) :
    Image → Prop where
  | none : r.hostIo = none → Carries paranoid dd r h img img
  | read {io : HostIo} {s : IoScript} : r.hostIo = some io → io.write = false →
      (img.doread s io.offset io.length).2 = some (!h.ioError) →
      h.sector = store dd.ddBuf 0 (img.doread s io.offset io.length).1 →
      Carries paranoid dd r h img img
  | write {io : HostIo} {s : IoScript} : r.hostIo = some io → io.write = true →
      (img.dowrite paranoid s io.offset (contents dd.ddBuf io.length)).2 = some (!h.ioError) →
      Carries paranoid dd r h img
        (img.dowrite paranoid s io.offset (contents dd.ddBuf io.length)).1

structure BlockLabel where
  disk : DiskLabel
  transfer : Option SectorTransfer

/-- A step of the disk with its image. There are none once the doom counter has run out. -/
inductive BlockStep (c : DiskConfig) (bigEndian paranoid : Bool) :
    Disk × Image → BlockLabel → Disk × Image → Prop where
  | store {d : Disk} {img img' : Image} {offset val : BitVec 32} {now : BitVec 32 × BitVec 32}
      {h : Host} {found : Bool} {r : Done DiskData} {doom : Doom} : d.doom.died = false →
      diskStore c bigEndian d.dd d.doom offset val now h = .ok (found, r, doom) →
      Carries paranoid d.dd r h img img' →
      BlockStep c bigEndian paranoid (d, img)
        ⟨⟨.store offset val, now, r.hostIo, r.msgs⟩, r.carried h⟩ (d.after r doom, img')
  | fire {d : Disk} {img img' : Image} {before after : List Arm} {a : Arm}
      {now : BitVec 32 × BitVec 32} {h : Host} {r : Done DiskData} : d.doom.died = false →
      d.pending = before ++ a :: after → c.fire d.dd a now h = .ok r →
      Carries paranoid d.dd r h img img' →
      BlockStep c bigEndian paranoid (d, img) ⟨⟨.fire a, now, r.hostIo, r.msgs⟩, r.carried h⟩
        (Disk.after { d with pending := before ++ after } r d.doom, img')

def DiskData.mediaerr (dd : DiskData) : Bool := dd.ddStat &&& diskbitMediaerr ≠ 0

def sectorPos (n : Nat) : Nat := n * sectsize + headersize

/-- The sectors of an image. -/
def Image.blocks (img : Image) : BlockStore.Blocks (BitVec 8) :=
  fun n => img.slice (sectorPos n) sectsize

/-! ## The buffer and the status -/

/-- What a call of `disk_update` does to the buffer, and how it ends an operation. -/
structure Moved (dd : DiskData) (h : Host) (r : Done DiskData) : Prop where
  still : r.hostIo = none → r.dev.ddBuf = dd.ddBuf
  written : ∀ io, r.hostIo = some io → io.write = true → r.dev.ddBuf = dd.ddBuf
  read : ∀ io, r.hostIo = some io → io.write = false → r.dev.ddBuf = h.sector
  complete : ∀ io, r.hostIo = some io → r.dev.complete = true ∧
    (dd.mediaerr = false → r.dev.mediaerr = h.ioError)

theorem rotated_ddBuf (dd : DiskData) : dd.rotated.ddBuf = dd.ddBuf := by
  rw [DiskData.rotated]
  split <;> rfl

theorem finish_complete (dd : DiskData) {bits : BitVec 32} (h : bits &&& diskbitComplete ≠ 0) :
    (dd.finish bits).complete = true := by
  rw [DiskData.complete, DiskData.finish, decide_eq_true_iff]
  intro hZero
  dsimp only at hZero
  rw [BitVec.and_or_distrib_right] at hZero
  exact h (BitVec.or_eq_zero_iff.mp hZero).2

theorem finish_mediaerr {dd : DiskData} (hClear : dd.mediaerr = false) (bits : BitVec 32) :
    (dd.finish bits).mediaerr = decide (bits &&& diskbitMediaerr ≠ 0) := by
  have hStat : dd.ddStat &&& diskbitMediaerr = 0 := by
    by_contra hSet
    rw [DiskData.mediaerr, decide_eq_true hSet] at hClear
    cases hClear
  have hMask : ~~~diskbitInprogress &&& diskbitMediaerr = diskbitMediaerr := by decide
  have hOr : 0 ||| (bits &&& diskbitMediaerr) = bits &&& diskbitMediaerr := BitVec.zero_or
  rw [DiskData.mediaerr, DiskData.finish]
  dsimp only
  rw [BitVec.and_or_distrib_right, BitVec.and_assoc, hMask, hStat, hOr]

theorem forceio_moved (dd : DiskData) (h : Host) : Moved dd h (forceio dd h) where
  still := fun hNone => by cases hNone
  written := by
    intro io hIo hWrite
    cases hIo
    have hWrite' : dd.isWrite = true := hWrite
    rw [forceio]
    dsimp only
    rw [hWrite']
    rfl
  read := by
    intro io hIo hWrite
    cases hIo
    have hRead : dd.isWrite = false := hWrite
    rw [forceio]
    dsimp only
    rw [hRead]
    rfl
  complete := by
    intro io _
    constructor
    · refine finish_complete _ ?_
      split <;> decide
    · intro hClear
      have hSame : (if dd.isWrite then dd else { dd with ddBuf := h.sector }).mediaerr = false := by
        cases dd.isWrite <;> exact hClear
      refine (finish_mediaerr hSame _).trans ?_
      cases h.ioError <;> decide

/-- The buffer, the status and the geometry do not depend on the rest. -/
theorem Moved.congr {dd dd' : DiskData} {h h' : Host} {r r' : Done DiskData} (hMoved : Moved dd h r)
    (hBuf : dd'.ddBuf = dd.ddBuf) (hStat : dd'.ddStat = dd.ddStat)
    (hSector : h'.sector = h.sector) (hError : h'.ioError = h.ioError) (hDev : r'.dev = r.dev)
    (hIo : r'.hostIo = r.hostIo) : Moved dd' h' r' where
  still := by
    rw [hIo, hDev, hBuf]
    exact hMoved.still
  written := by
    rw [hIo, hDev, hBuf]
    exact hMoved.written
  read := by
    rw [hIo, hDev, hSector]
    exact hMoved.read
  complete := by
    have hMedia : dd'.mediaerr = dd.mediaerr := by rw [DiskData.mediaerr, DiskData.mediaerr, hStat]
    rw [hIo, hDev, hError, hMedia]
    exact hMoved.complete

theorem moved_still {dd : DiskData} {h : Host} {r : Done DiskData} (hIo : r.hostIo = none)
    (hBuf : r.dev.ddBuf = dd.ddBuf) : Moved dd h r where
  still := fun _ => hBuf
  written := by
    intro io hSome
    rw [hIo] at hSome
    cases hSome
  read := by
    intro io hSome
    rw [hIo] at hSome
    cases hSome
  complete := by
    intro io hSome
    rw [hIo] at hSome
    cases hSome

theorem worked_moved {dd : DiskData} {now : BitVec 32 × BitVec 32} {h : Host} {r : Done DiskData}
    (hWorked : Worked dd now h r) : Moved dd h r := by
  cases hWorked with
  | waiting _ => exact moved_still rfl rfl
  | idle _ _ => exact moved_still rfl rfl
  | invalid _ _ _ => exact moved_still rfl rfl
  | forced _ _ _ _ => exact (forceio_moved (dd.derailed now) h).congr rfl rfl rfl rfl rfl rfl
  | phase _ _ _ _ _ hPhase =>
    cases hPhase with
    | seek _ => exact moved_still rfl rfl
    | cacheWrite _ _ _ => exact moved_still rfl rfl
    | rotation _ _ _ => exact moved_still rfl rfl
    | cacheRead _ _ _ _ => exact moved_still rfl (rotated_ddBuf dd.tried)
    | transfer _ _ _ _ =>
      exact (forceio_moved dd.tried.rotated h).congr (rotated_ddBuf dd.tried).symm
        (rotated_same dd.tried).2.2.1.symm rfl rfl rfl rfl

theorem update_moved {c : DiskConfig} {dd : DiskData} {now : BitVec 32 × BitVec 32} {h : Host}
    {r : Done DiskData} (hOk : c.update dd now h = .ok r) : Moved dd h r := by
  obtain ⟨w, hWorked, rfl⟩ := update_cases hOk
  exact (worked_moved hWorked).congr rfl rfl rfl rfl rfl rfl

/-! ## Steps -/

theorem setBuf_ddStat (dd : DiskData) (buf : Nat → BitVec 8) :
    ({ dd with ddBuf := buf } : DiskData).ddStat = dd.ddStat := rfl

theorem store_cases {c : DiskConfig} {bigEndian : Bool} {dd : DiskData} {doom doom' : Doom}
    {offset val : BitVec 32} {now : BitVec 32 × BitVec 32} {h : Host} {found : Bool}
    {r : Done DiskData} (hOk : diskStore c bigEndian dd doom offset val now h = .ok (found, r, doom')) :
    (r.hostIo = none ∧ r.dev.ddStat = dd.ddStat) ∨
      ∃ dd', (DiskAct.store offset val).enters dd now = some dd' ∧ c.update dd' now h = .ok r := by
  rw [diskStore] at hOk
  split at hOk
  · cases hOk
    exact .inl ⟨rfl, setBuf_ddStat dd _⟩
  · split at hOk
    · next hStat =>
      obtain ⟨⟨r', doom₁⟩, hSet, hr⟩ := map_eq_ok hOk
      cases hr
      rcases setstatus_cases hSet with ⟨rfl, hUpdate⟩ | ⟨hVal, hUpdate⟩ | ⟨-, -, hDev, -, -, hIo, -⟩
      · exact .inr ⟨_, enters_idle hStat, hUpdate⟩
      · exact .inr ⟨_, enters_start hStat hVal, hUpdate⟩
      · exact .inl ⟨hIo, by rw [hDev]⟩
    · split at hOk
      · cases hOk
        exact .inl ⟨rfl, rfl⟩
      · cases hOk
        exact .inl ⟨rfl, rfl⟩

theorem fire_cases {c : DiskConfig} {dd : DiskData} {a : Arm} {now : BitVec 32 × BitVec 32}
    {h : Host} {r : Done DiskData} (hOk : c.fire dd a now h = .ok r) :
    ∃ dd', (DiskAct.fire a).enters dd now = some dd' ∧ c.update dd' now h = .ok r := by
  rw [DiskConfig.fire] at hOk
  rw [DiskAct.enters]
  cases hFunc : a.func with
  | diskSeekdone =>
    rw [hFunc] at hOk
    exact ⟨_, rfl, hOk⟩
  | diskWaitdone =>
    rw [hFunc] at hOk
    exact ⟨_, rfl, hOk⟩
  | _ =>
    rw [hFunc] at hOk
    cases hOk

/-- An operation starts without an error. -/
def DiskData.Clean (dd : DiskData) : Prop := dd.inProgress = true → dd.mediaerr = false

theorem clean_of_stat {dd dd' : DiskData} (h : dd.Clean) (hStat : dd'.ddStat = dd.ddStat) :
    dd'.Clean := by
  intro hProgress
  rw [DiskData.inProgress, hStat] at hProgress
  rw [DiskData.mediaerr, hStat]
  exact h hProgress

theorem enters_clean {act : DiskAct} {dd dd' : DiskData} {now : BitVec 32 × BitVec 32}
    (h : act.enters dd now = some dd') (hClean : dd.Clean) :
    dd'.ddBuf = dd.ddBuf ∧ dd'.Clean := by
  cases act with
  | store offset val =>
    rw [DiskAct.enters] at h
    split at h
    · split at h
      · cases h
        refine ⟨rfl, fun hProgress => ?_⟩
        rw [idle_inProgress] at hProgress
        cases hProgress
      · split at h
        · next hVal =>
          cases h
          refine ⟨rfl, fun _ => ?_⟩
          have hBit : val &&& diskbitMediaerr = 0 := by
            rcases hVal with rfl | rfl
            · rfl
            · rfl
          simp [DiskData.mediaerr, DiskData.start, hBit]
        · cases h
    · cases h
  | fire a =>
    rw [DiskAct.enters] at h
    split at h
    · cases h
      exact ⟨rfl, clean_of_stat hClean rfl⟩
    · cases h
      exact ⟨rfl, clean_of_stat hClean rfl⟩
    · cases h

theorem worked_clean {dd : DiskData} {now : BitVec 32 × BitVec 32} {h : Host} {r : Done DiskData}
    (hWorked : Worked dd now h r) (hClean : dd.Clean) : r.dev.Clean := by
  have hEnded {dd' : DiskData} (h : dd'.inProgress = false) : dd'.Clean := by
    intro hProgress
    rw [h] at hProgress
    cases hProgress
  cases hWorked with
  | waiting _ => exact hClean
  | idle _ _ => exact hClean
  | invalid _ _ _ => exact hEnded (finish_inProgress rfl)
  | forced _ _ _ _ => exact hEnded (forceio_inProgress (dd.derailed now) h)
  | phase _ _ _ _ _ hPhase =>
    cases hPhase with
    | seek _ => exact clean_of_stat hClean rfl
    | cacheWrite _ _ _ => exact clean_of_stat hClean rfl
    | rotation _ _ _ => exact clean_of_stat hClean rfl
    | cacheRead _ _ _ _ => exact clean_of_stat hClean (rotated_same dd.tried).2.2.1
    | transfer _ _ _ _ => exact hEnded (forceio_inProgress dd.tried.rotated h)

/-- A transfer as the guest sees it, and as it changes the image. -/
structure Transferred (dd dd' : DiskData) (img img' : Image) (t : SectorTransfer) : Prop where
  block : t.block = dd.ddSect.toNat
  valid : t.block < dd.ddTotsectors.toNat
  data : t.data = dd'.sectorData
  source : t.write = true → t.data = dd.sectorData
  ended : dd'.inProgress = false ∧ dd'.complete = true ∧ dd'.mediaerr = !t.ok
  store : BlockStore.Step img.blocks t img'.blocks
  outside : ∀ i, i < sectorPos t.block ∨ sectorPos t.block + sectsize ≤ i →
    img'.bytes i = img.bytes i
  length : img'.length ≤ max img.length (sectorPos t.block + sectsize)

theorem sectorPos_apart {n k : Nat} (h : n ≠ k) :
    sectorPos n + sectsize ≤ sectorPos k ∨ sectorPos k + sectsize ≤ sectorPos n := by
  rw [sectorPos, sectorPos]
  rcases Nat.lt_or_gt_of_ne h with h | h
  · refine .inl ?_
    have hMul := Nat.mul_le_mul_right sectsize (Nat.succ_le_of_lt h)
    rw [Nat.succ_mul] at hMul
    omega
  · refine .inr ?_
    have hMul := Nat.mul_le_mul_right sectsize (Nat.succ_le_of_lt h)
    rw [Nat.succ_mul] at hMul
    omega

/-- Some of a sector, or all of it, is written over. -/
theorem blocks_write {img : Image} {n : Nat} {data : List (BitVec 8)} (h : data.length ≤ sectsize) :
    (img.write (sectorPos n) data).blocks =
      Function.update img.blocks n (data ++ (img.blocks n).drop data.length) := by
  funext k
  by_cases hk : k = n
  · subst hk
    rw [Function.update_self]
    exact Image.slice_write_front h
  · rw [Function.update_of_ne hk]
    apply Image.slice_write_apart
    rcases sectorPos_apart hk with hApart | hApart
    · exact .inr hApart
    · exact .inl (by omega)

theorem length_sectorData (dd : DiskData) : dd.sectorData.length = sectsize := length_contents _ _

theorem written_step {paranoid : Bool} {img : Image} {s : IoScript} {n : Nat} {ok : Bool}
    {data : List (BitVec 8)} (hData : data.length = sectsize)
    (hOk : (img.dowrite paranoid s (sectorPos n) data).2 = some ok) :
    BlockStore.Step img.blocks ⟨true, n, data, ok⟩
        (img.dowrite paranoid s (sectorPos n) data).1.blocks ∧
      (∀ i, i < sectorPos n ∨ sectorPos n + sectsize ≤ i →
        (img.dowrite paranoid s (sectorPos n) data).1.bytes i = img.bytes i) ∧
      (img.dowrite paranoid s (sectorPos n) data).1.length ≤
        max img.length (sectorPos n + sectsize) := by
  obtain ⟨k, hk, hImage, hAll⟩ := dowrite_spec paranoid img s (sectorPos n) data
  have hTake : (data.take k).length = k := by rw [List.length_take, min_eq_left hk]
  have hFits : (data.take k).length ≤ sectsize := by omega
  rw [hImage]
  refine ⟨?_, ?_, Image.length_write_le hFits⟩
  · rw [blocks_write hFits, hTake]
    cases ok with
    | false => exact .torn k rfl rfl
    | true =>
      have hWhole := hAll hOk
      have hRest : (img.blocks n).drop k = [] := by
        rw [List.drop_eq_nil_iff, Image.blocks, Image.length_slice]
        omega
      rw [hRest, List.append_nil, hWhole, List.take_length]
      exact .written rfl rfl
  · intro i hi
    rw [Image.bytes_write, dif_neg]
    omega

theorem carries_spec {c : DiskConfig} {paranoid : Bool} {act : DiskAct} {dd dd' : DiskData}
    {now : BitVec 32 × BitVec 32} {h : Host} {r : Done DiskData} {img img' : Image}
    (hEnters : act.enters dd now = some dd') (hUpdate : c.update dd' now h = .ok r)
    (hClean : dd.Clean) (hCarries : Carries paranoid dd r h img img') :
    (r.hostIo = none ∧ img' = img) ∨
      ∃ t, r.carried h = some t ∧ Transferred dd r.dev img img' t := by
  obtain ⟨hBuf, hClean'⟩ := enters_clean hEnters hClean
  have hEntered := enters_spec hEnters
  have hUpdated := update_spec hUpdate
  have hMoved := update_moved hUpdate
  have hFacts {io : HostIo} (hIo : r.hostIo = some io) : io.offset = sectorPos dd.ddSect.toNat ∧
      io.length = sectsize ∧ r.dev.ddSect = dd.ddSect ∧
      dd.ddSect.toNat < dd.ddTotsectors.toNat ∧ r.dev.inProgress = false ∧
      r.dev.complete = true ∧ r.dev.mediaerr = h.ioError := by
    obtain ⟨hBusy, hEnd, hValid, rfl⟩ := hUpdated.io io hIo
    obtain ⟨hComplete, hMedia⟩ := hMoved.complete _ hIo
    rw [hEntered.sect, hEntered.geometry.2] at hValid
    refine ⟨?_, rfl, hUpdated.sect.trans hEntered.sect, BitVec.lt_def.mp hValid, hEnd, hComplete,
      hMedia (hClean' hBusy)⟩
    rw [DiskData.transfer, hEntered.sect]
    rfl
  cases hCarries with
  | none hIo => exact .inl ⟨hIo, rfl⟩
  | @read io s hIo hRead hOk hSector =>
    obtain ⟨hOffset, hLength, hSect, hValid, hEnd, hComplete, hMedia⟩ := hFacts hIo
    have hData : r.dev.ddBuf = store dd.ddBuf 0 (img.doread s io.offset io.length).1 :=
      (hMoved.read io hIo hRead).trans hSector
    obtain ⟨-, hWhole⟩ := doread_spec img s io.offset io.length
    refine .inr ⟨⟨io.write, r.dev.ddSect.toNat, r.dev.sectorData, !h.ioError⟩, ?_, ?_⟩
    · rw [Done.carried, hIo]
      rfl
    · refine ⟨by rw [hSect], by rw [hSect]; exact hValid, by dsimp only, ?_, ⟨hEnd, hComplete, ?_⟩, ?_,
        fun _ _ => rfl, le_max_left _ _⟩
      · intro hWrite
        dsimp only at hWrite
        rw [hRead] at hWrite
        cases hWrite
      · rw [hMedia, Bool.not_not]
      · refine .read hRead ?_
        intro hSuccess
        dsimp only at hSuccess ⊢
        rw [hSuccess] at hOk
        rw [DiskData.sectorData, hData, hWhole hOk, hOffset, hLength, hSect]
        have hFull := contents_store_zero dd.ddBuf
          (le_of_eq (Image.length_slice img (sectorPos dd.ddSect.toNat) sectsize))
        have hLength : (contents dd.ddBuf sectsize).length = sectsize := length_contents _ _
        rw [hFull, Image.length_slice, List.drop_eq_nil_of_le (le_of_eq hLength), List.append_nil]
        rfl
  | @write io s hIo hWrite hOk =>
    obtain ⟨hOffset, hLength, hSect, hValid, hEnd, hComplete, hMedia⟩ := hFacts hIo
    have hData : r.dev.sectorData = dd.sectorData := by
      rw [DiskData.sectorData, hMoved.written io hIo hWrite, hBuf]
      rfl
    have hSame : contents dd.ddBuf io.length = dd.sectorData := by
      rw [hLength]
      rfl
    rw [hSame, hOffset] at hOk
    obtain ⟨hStep, hOutside, hEndPos⟩ := written_step (length_sectorData dd) hOk
    refine .inr ⟨⟨true, dd.ddSect.toNat, dd.sectorData, !h.ioError⟩, ?_, ?_⟩
    · simp only [Done.carried, hIo, Option.map_some, hWrite, hSect, hData]
    · rw [hSame, hOffset]
      refine ⟨rfl, hValid, ?_, ?_, ⟨hEnd, hComplete, ?_⟩, hStep, hOutside, hEndPos⟩
      · dsimp only
        exact hData.symm
      · dsimp only
        exact fun _ => rfl
      · rw [hMedia, Bool.not_not]

/-! ## Runs -/

variable {c : DiskConfig} {bigEndian paranoid : Bool} {s s' : Disk × Image} {l : BlockLabel}
  {p : List (BlockLabel × (Disk × Image))}

/-- A step of the disk with its image is one of the disk. -/
theorem BlockStep.disk (h : BlockStep c bigEndian paranoid s l s') :
    Disk.Step c bigEndian s.1 l.disk s'.1 := by
  cases h with
  | store _ hStore _ => exact .store hStore
  | fire _ hPending hFire _ => exact .fire hPending hFire

theorem BlockStep.spec (h : BlockStep c bigEndian paranoid s l s') (hClean : s.1.dd.Clean) :
    s'.1.dd.Clean ∧ ((l.transfer = none ∧ s'.2 = s.2) ∨
      ∃ t, l.transfer = some t ∧ Transferred s.1.dd s'.1.dd s.2 s'.2 t) := by
  have hUpdate {act : DiskAct} {dd dd' : DiskData} {now : BitVec 32 × BitVec 32} {h : Host}
      {r : Done DiskData} {img img' : Image} (hEnters : act.enters dd now = some dd')
      (hUpdate : c.update dd' now h = .ok r) (hClean : dd.Clean)
      (hCarries : Carries paranoid dd r h img img') :
      r.dev.Clean ∧ ((r.carried h = none ∧ img' = img) ∨
        ∃ t, r.carried h = some t ∧ Transferred dd r.dev img img' t) := by
    have hEnd : r.dev.Clean := by
      obtain ⟨w, hWorked, hr⟩ := update_cases hUpdate
      have hDev : w.dev.Clean := worked_clean hWorked (enters_clean hEnters hClean).2
      rw [hr]
      exact hDev
    refine ⟨hEnd, ?_⟩
    rcases carries_spec hEnters hUpdate hClean hCarries with ⟨hIo, hSame⟩ | hTransfer
    · refine .inl ⟨?_, hSame⟩
      rw [Done.carried, hIo]
      rfl
    · exact .inr hTransfer
  cases h with
  | @store d img img' offset val now h found r doom _ hStore hCarries =>
    rcases store_cases hStore with ⟨hIo, hStat⟩ | ⟨dd', hEnters, hOk⟩
    · refine ⟨clean_of_stat hClean hStat, .inl ?_⟩
      cases hCarries with
      | none _ =>
        refine ⟨?_, rfl⟩
        dsimp only
        rw [Done.carried, hIo]
        rfl
      | read hSome =>
        rw [hIo] at hSome
        cases hSome
      | write hSome =>
        rw [hIo] at hSome
        cases hSome
    · exact hUpdate hEnters hOk hClean hCarries
  | fire _ _ hFire hCarries =>
    obtain ⟨dd', hEnters, hOk⟩ := fire_cases hFire
    exact hUpdate hEnters hOk hClean hCarries

def sectorTransfers (p : List (BlockLabel × (Disk × Image))) : List SectorTransfer :=
  p.filterMap fun e => e.1.transfer

/-- What the transfers of a run have made of the image. -/
structure Kept (total : Nat) (img img' : Image) (ts : List SectorTransfer) : Prop where
  blocks : BlockStore.Runs img.blocks ts img'.blocks
  header : img'.slice 0 headersize = img.slice 0 headersize
  behind : ∀ i, sectorPos total ≤ i → img'.bytes i = img.bytes i
  length : img'.length ≤ max img.length (sectorPos total)

theorem sectorPos_le {n total : Nat} (h : n < total) : sectorPos n + sectsize ≤ sectorPos total := by
  have hMul := Nat.mul_le_mul_right sectsize (Nat.succ_le_of_lt h)
  rw [Nat.succ_mul] at hMul
  rw [sectorPos, sectorPos]
  omega

theorem Kept.transferred {total : Nat} {img img' img'' : Image} {ts : List SectorTransfer}
    {t : SectorTransfer} {dd dd' : DiskData} (h : Transferred dd dd' img img' t)
    (hTotal : dd.ddTotsectors.toNat = total) (hRest : Kept total img' img'' ts) :
    Kept total img img'' (t :: ts) where
  blocks := BlockStore.Runs.cons_iff.mpr ⟨_, h.store, hRest.blocks⟩
  header := by
    rw [hRest.header]
    refine List.map_congr_left fun i hi => h.outside _ (.inl ?_)
    have hLow := List.mem_range.mp hi
    rw [sectorPos]
    omega
  behind := by
    intro i hi
    have hEnd := sectorPos_le (hTotal ▸ h.valid)
    rw [hRest.behind i hi, h.outside i (.inr (le_trans hEnd hi))]
  length := by
    have hEnd := sectorPos_le (hTotal ▸ h.valid)
    refine le_trans hRest.length (max_le ?_ (le_max_right _ _))
    exact le_trans h.length (max_le_max le_rfl hEnd)

theorem kept_run {total : Nat} (hp : Path (BlockStep c bigEndian paranoid) s p s')
    (hClean : s.1.dd.Clean) (hTotal : s.1.dd.ddTotsectors.toNat = total) :
    Kept total s.2 s'.2 (sectorTransfers p) := by
  induction hp with
  | nil s => exact ⟨BlockStore.Runs.nil _, rfl, fun _ _ => rfl, le_max_left _ _⟩
  | @cons s s₁ s' l p hStep _ ih =>
    obtain ⟨hClean₁, hCases⟩ := hStep.spec hClean
    have hTotal₁ : s₁.1.dd.ddTotsectors.toNat = total := by
      rw [(step_cases hStep.disk).total, hTotal]
    have hRest := ih hClean₁ hTotal₁
    rcases hCases with ⟨hNone, hSame⟩ | ⟨t, hSome, hTransfer⟩
    · have hSkip : sectorTransfers ((l, s₁) :: p) = sectorTransfers p :=
        List.filterMap_cons_none hNone
      rw [hSkip, ← hSame]
      exact hRest
    · have hCons : sectorTransfers ((l, s₁) :: p) = t :: sectorTransfers p :=
        List.filterMap_cons_some hSome
      rw [hCons]
      exact hRest.transferred hTransfer hTotal

/-- In every run of a disk with its image, the transfers are those of a store of blocks: what is
read is what was last written to the sector, or what was there at first. The header and what
lies behind the sectors stay, and every transfer ends the operation that it is for. -/
theorem disk_blocks (hInit : s.1.Init) (hp : Path (BlockStep c bigEndian paranoid) s p s') :
    Kept s.1.dd.ddTotsectors.toNat s.2 s'.2 (sectorTransfers p) ∧
      AllSteps (fun s l s' => (l.transfer = none ∧ s'.2 = s.2) ∨
        ∃ t, l.transfer = some t ∧ Transferred s.1.dd s'.1.dd s.2 s'.2 t) s p ∧
      (∀ before w between r after, sectorTransfers p = before ++ w :: between ++ r :: after →
        w.write = true → w.ok = true → r.write = false → r.ok = true → r.block = w.block →
        (∀ t ∈ between, t.write = true → t.block ≠ w.block) → r.data = w.data) ∧
      ∀ before r after, sectorTransfers p = before ++ r :: after → r.write = false → r.ok = true →
        (∀ t ∈ before, t.write = true → t.block ≠ r.block) → r.data = s.2.blocks r.block := by
  have hClean : s.1.dd.Clean := by
    intro hProgress
    rw [DiskData.inProgress, hInit.stat] at hProgress
    exact absurd hProgress (by decide)
  have hKept := kept_run hp hClean rfl
  refine ⟨hKept, ?_, ?_, ?_⟩
  · refine hp.allSteps_of_invariant (P := fun s => s.1.dd.Clean)
      (fun s l s' hClean _ hStep => hStep.spec hClean) hClean
      (AllSteps.of_forall (fun _ _ _ => trivial) s p)
  · intro before w between r after hEq hWrite hWritten hRead hOk hBlock hBetween
    have hRuns := hKept.blocks
    rw [hEq] at hRuns
    exact hRuns.last_written hWrite hWritten hRead hOk hBlock hBetween
  · intro before r after hEq hRead hOk hBefore
    have hRuns := hKept.blocks
    rw [hEq] at hRuns
    exact hRuns.first_read hRead hOk hBefore

/-- An image without any sectors in it yet. -/
def emptyImage : Image where
  bytes := fun _ => 0
  length := 0
  padded := fun _ _ => rfl

def wholeRead : IoScript where
  lseek := true
  answers := [.again, .moved 512]
  fsync := true

section Willing

variable (c : DiskConfig) (s : Disk × Image)

/-- A host that reads the whole sector that the register names. -/
def willingHost : Host :=
  let found := s.2.doread wholeRead (sectorPos s.1.dd.ddSect.toNat) sectsize
  { stillHost with sector := store s.1.dd.ddBuf 0 found.1 }

/-- The image, if this host can do what is asked of it. -/
def willingImage (r : Done DiskData) : Option Image :=
  match r.hostIo with
  | none => some s.2
  | some io =>
    if io.write = true then
      let w := s.2.dowrite false wholeRead io.offset (contents s.1.dd.ddBuf io.length)
      if w.2 = some true then some w.1 else none
    else if io.offset = sectorPos s.1.dd.ddSect.toNat ∧ io.length = sectsize ∧
        (s.2.doread wholeRead io.offset io.length).2 = some true then some s.2
    else none

theorem carries_willing {r : Done DiskData} {img : Image} (h : willingImage s r = some img) :
    Carries false s.1.dd r (willingHost s) s.2 img := by
  unfold willingImage at h
  split at h
  · next hIo =>
    cases h
    exact .none hIo
  · next io hIo =>
    split at h
    · next hWrite =>
      dsimp only at h
      split at h
      · next hDone =>
        cases h
        exact .write hIo hWrite hDone
      · cases h
    · next hRead =>
      split at h
      · next hDone =>
        cases h
        exact .read hIo (Bool.eq_false_iff.mpr hRead) hDone.2.2
          (by simp only [willingHost, hDone.1, hDone.2.1])
      · cases h

/-- A store, or what the event at the head does, with this host. -/
def willingStep (now : BitVec 32 × BitVec 32) :
    Option (BitVec 32 × BitVec 32) → Option (BlockLabel × (Disk × Image))
  | some x =>
    match diskStore c true s.1.dd s.1.doom x.1 x.2 now (willingHost s) with
    | .ok (_, r, doom) => (willingImage s r).map fun img =>
      (⟨⟨.store x.1 x.2, now, r.hostIo, r.msgs⟩, r.carried (willingHost s)⟩, s.1.after r doom, img)
    | .error _ => none
  | none =>
    match s.1.pending with
    | a :: after =>
      match c.fire s.1.dd a now (willingHost s) with
      | .ok r => (willingImage s r).map fun img =>
        (⟨⟨.fire a, now, r.hostIo, r.msgs⟩, r.carried (willingHost s)⟩,
          Disk.after { s.1 with pending := after } r s.1.doom, img)
      | .error _ => none
    | [] => none

theorem step_willing {now : BitVec 32 × BitVec 32} {x : Option (BitVec 32 × BitVec 32)}
    {l : BlockLabel} {s' : Disk × Image} (hDied : s.1.doom.died = false)
    (h : willingStep c s now x = some (l, s')) : BlockStep c true false s l s' := by
  cases x with
  | some x =>
    simp only [willingStep] at h
    split at h
    · next found r doom hStore =>
      obtain ⟨img, hImg, rfl, rfl⟩ := by simpa using h
      exact .store hDied hStore (carries_willing s hImg)
    · cases h
  | none =>
    simp only [willingStep] at h
    split at h
    · next a after hPending =>
      split at h
      · next r hFire =>
        obtain ⟨img, hImg, rfl, rfl⟩ := by simpa using h
        have hFirst : s.1.pending = [] ++ a :: after := hPending
        exact .fire hDied hFirst hFire (carries_willing s hImg)
      · cases h
    · cases h

/-- What is transferred by a script of stores and events, and the state at its end. -/
def willingRun : List ((BitVec 32 × BitVec 32) × Option (BitVec 32 × BitVec 32)) → Disk × Image →
    Option (List SectorTransfer × (Disk × Image))
  | [], s => some ([], s)
  | x :: l, s =>
    match s.1.doom.died, willingStep c s x.1 x.2 with
    | false, some (label, s') =>
      (willingRun l s').map fun y => (label.transfer.toList ++ y.1, y.2)
    | _, _ => none

theorem path_willing {l : List ((BitVec 32 × BitVec 32) × Option (BitVec 32 × BitVec 32))}
    {ts : List SectorTransfer} {s s' : Disk × Image} (h : willingRun c l s = some (ts, s')) :
    ∃ p, Path (BlockStep c true false) s p s' ∧ sectorTransfers p = ts := by
  induction l generalizing s ts with
  | nil =>
    cases h
    exact ⟨[], .nil _, rfl⟩
  | cons x l ih =>
    rw [willingRun] at h
    split at h
    · next label t hDied hStep =>
      obtain ⟨⟨rest, u⟩, hRest, hEq⟩ := Option.map_eq_some_iff.mp h
      cases hEq
      obtain ⟨p, hPath, rfl⟩ := ih hRest
      refine ⟨(label, t) :: p, .cons (step_willing c _ hDied hStep) hPath, ?_⟩
      cases hTransfer : label.transfer <;> simp [sectorTransfers, hTransfer]
    · cases h

end Willing

/-- A word is stored to the buffer, the sector is written, and it is read back. -/
def writeAndRead : List ((BitVec 32 × BitVec 32) × Option (BitVec 32 × BitVec 32)) :=
  [((0, 0), some (32768, 0xc0ffee00)), ((0, 0), some (4, 3)), ((0, 0), none), ((1, 0), none),
    ((1, 0), none), ((1, 0), some (4, 0)), ((1, 0), some (4, 1)), ((1, 0), none)]

theorem disk_blocks_written : ∃ p s, ∃ w r : SectorTransfer,
    Path (BlockStep smallConfig true false) (smallDisk, emptyImage) p s ∧
      sectorTransfers p = [w, r] ∧ w.write = true ∧ r.write = false ∧
      w.data.take 4 = [0xc0, 0xff, 0xee, 0x00] ∧ r.data = w.data := by
  have hSeen : (willingRun smallConfig writeAndRead (smallDisk, emptyImage)).map (fun y =>
      y.1.map fun t => (t.write, t.ok, t.block, t.data.take 4)) =
      some [(true, true, 0, [0xc0, 0xff, 0xee, 0x00]), (false, true, 0, [0xc0, 0xff, 0xee, 0x00])] := by
    decide +kernel
  obtain ⟨⟨ts, s⟩, hRun, hLook⟩ := Option.map_eq_some_iff.mp hSeen
  obtain ⟨p, hPath, hTs⟩ := path_willing smallConfig hRun
  obtain ⟨w, ts, rfl, hw, hRest⟩ := List.map_eq_cons_iff.mp hLook
  obtain ⟨r, ts, rfl, hr, hNil⟩ := List.map_eq_cons_iff.mp hRest
  obtain rfl := List.map_eq_nil_iff.mp hNil
  simp only [Prod.mk.injEq] at hw hr
  obtain ⟨hwWrite, hwOk, hwBlock, hwData⟩ := hw
  obtain ⟨hrWrite, hrOk, hrBlock, -⟩ := hr
  have hSame := (disk_blocks smallDisk_init hPath).2.2.1 [] w [] r [] hTs hwWrite hwOk hrWrite hrOk
    (hrBlock.trans hwBlock.symm) nofun
  exact ⟨p, s, w, r, hPath, hTs, hwWrite, hrWrite, hwData, hSame⟩

end Sys161.Bus
