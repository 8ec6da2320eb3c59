import Sys161.Bus.Handlers
import Sys161.Bus.DiskRotation
import Sys161.Lib.Spans

/-!
# Where a sector lies

`locate_sector` from `dev_disk.c`. The tracks are spans of sectors, the
outermost, which is the last of the table, before the others.
-/

namespace Sys161.Bus

open Spans

set_option autoImplicit false

/-- The loop takes the start of a track from the sector, not what the tracks before it hold. -/
theorem locateFrom_eq {l : List (BitVec 32)} {start sector : BitVec 32} (hStart : start ≤ sector)
    (hFits : start.toNat + (l.map BitVec.toNat).sum < 2 ^ 32) :
    locateFrom l start sector =
      (locate (l.map BitVec.toNat) (sector.toNat - start.toNat)).map fun p =>
        (l.length - 1 - p.1, BitVec.ofNat 32 p.2) := by
  induction l generalizing start with
  | nil => rfl
  | cons count inner ih =>
    rw [List.map_cons, List.sum_cons] at hFits
    have hLast : (start + count).toNat = start.toNat + count.toNat := by
      rw [BitVec.toNat_add, Nat.mod_eq_of_lt (by omega)]
    have hLe := BitVec.le_def.mp hStart
    rw [locateFrom, List.map_cons, locate]
    by_cases hHere : sector < start + count
    · have hLess := BitVec.lt_def.mp hHere
      rw [if_pos ⟨hStart, hHere⟩, if_pos (by omega)]
      simp only [Option.map_some, List.length_cons, Nat.add_sub_cancel, Nat.sub_zero,
        Option.some.injEq, Prod.mk.injEq, true_and]
      rw [← BitVec.toNat_inj, BitVec.toNat_sub_of_le hStart, BitVec.toNat_ofNat]
      omega
    · have hMore := BitVec.le_def.mp (BitVec.not_lt.mp hHere)
      rw [if_neg (fun h => hHere h.2), if_neg (by omega),
        ih (BitVec.not_lt.mp hHere) (by omega), Option.map_map, hLast, Nat.sub_sub]
      apply congrArg (Option.map · _)
      funext p
      simp only [Function.comp_apply, List.length_cons, Prod.mk.injEq, and_true]
      omega

namespace DiskData

/-- The sectors of the whole table. -/
def allSectors (dd : DiskData) : Nat := (dd.ddSectors.map BitVec.toNat).sum

/-- A track of the table and one of its sectors. -/
def IsPlace (dd : DiskData) (p : Nat × BitVec 32) : Prop :=
  p.1 < dd.ddSectors.length ∧ p.2 < dd.ddSectors.getD p.1 0

/-- The widths of the tracks from the outermost inwards. -/
def widths (dd : DiskData) : List Nat := dd.ddSectors.reverse.map BitVec.toNat

variable {dd : DiskData}

theorem sum_widths (dd : DiskData) : dd.widths.sum = dd.allSectors := by
  rw [widths, List.map_reverse, List.sum_reverse, allSectors]

theorem length_widths (dd : DiskData) : dd.widths.length = dd.ddSectors.length := by
  rw [widths, List.length_map, List.length_reverse]

theorem getD_widths {i : Nat} (h : i < dd.ddSectors.length) :
    dd.widths.getD i 0 = (dd.ddSectors.getD (dd.ddSectors.length - 1 - i) 0).toNat := by
  have hWidth : i < dd.widths.length := by rwa [length_widths]
  have hTrack : dd.ddSectors.length - 1 - i < dd.ddSectors.length := by omega
  rw [List.getD_eq_getElem _ _ hWidth, List.getD_eq_getElem _ _ hTrack]
  simp only [widths, List.getElem_map, List.getElem_reverse]

end DiskData

section Table

variable {dd : DiskData} {sector : BitVec 32}

theorem locateSector_eq_ok_iff (hFits : dd.allSectors < 2 ^ 32) {p : Nat × BitVec 32} :
    locateSector dd sector = .ok p ↔
      p.1 < dd.ddSectors.length ∧
        locate dd.widths sector.toNat = some (dd.ddSectors.length - 1 - p.1, p.2.toNat) := by
  have hStart : (0 : BitVec 32) ≤ sector := BitVec.le_def.mpr (Nat.zero_le _)
  have hFrom := locateFrom_eq (l := dd.ddSectors.reverse) hStart (by
    rw [← dd.sum_widths] at hFits
    simpa [DiskData.widths] using hFits)
  rw [List.length_reverse] at hFrom
  change _ = (locate dd.widths sector.toNat).map _ at hFrom
  rw [locateSector, hFrom]
  cases hLocate : locate dd.widths sector.toNat with
  | none => simp
  | some q =>
    obtain ⟨i, offset⟩ := q
    obtain ⟨hOn, hAddress⟩ := locate_eq_some_iff.mp hLocate
    have hIn := lt_length_of_lt_getD hOn
    have hSum := address_lt_sum hOn
    rw [dd.length_widths] at hIn
    rw [dd.getD_widths hIn] at hOn
    have hOffset := Nat.lt_trans hOn (BitVec.isLt _)
    obtain ⟨cyl, rotoffset⟩ := p
    simp only [Option.map_some, Except.ok.injEq, Prod.mk.injEq, Option.some.injEq]
    constructor
    · rintro ⟨rfl, rfl⟩
      rw [BitVec.toNat_ofNat, Nat.mod_eq_of_lt hOffset]
      omega
    · rintro ⟨hCyl, rfl, rfl⟩
      rw [BitVec.ofNat_toNat, BitVec.setWidth_eq]
      exact ⟨by omega, rfl⟩

theorem isPlace_of_locateSector (hFits : dd.allSectors < 2 ^ 32) {p : Nat × BitVec 32}
    (h : locateSector dd sector = .ok p) : dd.IsPlace p :=
  ⟨((locateSector_eq_ok_iff hFits).mp h).1, locateSector_rotoffset h⟩

theorem exists_locateSector (hFits : dd.allSectors < 2 ^ 32)
    (h : sector.toNat < dd.allSectors) : ∃ p, locateSector dd sector = .ok p := by
  rw [← dd.sum_widths] at h
  obtain ⟨⟨i, offset⟩, hLocate⟩ := exists_locate h
  have hOn := (locate_eq_some_iff.mp hLocate).1
  have hIn := lt_length_of_lt_getD hOn
  rw [dd.length_widths] at hIn
  rw [dd.getD_widths hIn] at hOn
  have hOffset := Nat.lt_trans hOn (BitVec.isLt _)
  refine ⟨(dd.ddSectors.length - 1 - i, BitVec.ofNat 32 offset), ?_⟩
  rw [locateSector_eq_ok_iff hFits, hLocate, BitVec.toNat_ofNat, Nat.mod_eq_of_lt hOffset]
  refine ⟨by dsimp only; omega, ?_⟩
  congr 2
  dsimp only
  omega

theorem exists_sector (hFits : dd.allSectors < 2 ^ 32) {p : Nat × BitVec 32}
    (h : dd.IsPlace p) : ∃ sector : BitVec 32,
      sector.toNat < dd.allSectors ∧ locateSector dd sector = .ok p := by
  obtain ⟨hIn, hOn⟩ := h
  have hSpan : dd.widths.getD (dd.ddSectors.length - 1 - p.1) 0 =
      (dd.ddSectors.getD p.1 0).toNat := by
    rw [dd.getD_widths (by omega)]
    congr 2
    omega
  have hOffset : p.2.toNat < dd.widths.getD (dd.ddSectors.length - 1 - p.1) 0 := by
    rw [hSpan]
    exact BitVec.lt_def.mp hOn
  have hSum := address_lt_sum hOffset
  rw [dd.sum_widths] at hSum
  have hNumber := Nat.mod_eq_of_lt (Nat.lt_trans hSum hFits)
  refine ⟨BitVec.ofNat 32 (address dd.widths (dd.ddSectors.length - 1 - p.1) p.2.toNat), ?_, ?_⟩
  · rw [BitVec.toNat_ofNat, hNumber]
    exact hSum
  · rw [locateSector_eq_ok_iff hFits, BitVec.toNat_ofNat, hNumber]
    exact ⟨hIn, locate_address hOffset⟩

theorem locateSector_inj (hFits : dd.allSectors < 2 ^ 32) {sector' : BitVec 32}
    {p : Nat × BitVec 32} (h : locateSector dd sector = .ok p)
    (h' : locateSector dd sector' = .ok p) : sector = sector' := by
  have hHere := (locate_eq_some_iff.mp ((locateSector_eq_ok_iff hFits).mp h).2).2
  have hThere := (locate_eq_some_iff.mp ((locateSector_eq_ok_iff hFits).mp h').2).2
  exact BitVec.eq_of_toNat_eq (hHere.symm.trans hThere)

/-- The next sector is the next of the track, or the first of the next track inwards. -/
theorem locateSector_succ (hFits : dd.allSectors < 2 ^ 32) (hPos : ∀ count ∈ dd.ddSectors, 0 < count)
    {cyl : Nat} {rotoffset : BitVec 32} (h : locateSector dd sector = .ok (cyl, rotoffset))
    (hNext : sector.toNat + 1 < dd.allSectors) :
    rotoffset + 1 < dd.ddSectors.getD cyl 0 ∧
        locateSector dd (sector + 1) = .ok (cyl, rotoffset + 1) ∨
      rotoffset + 1 = dd.ddSectors.getD cyl 0 ∧ 0 < cyl ∧
        locateSector dd (sector + 1) = .ok (cyl - 1, 0) := by
  obtain ⟨hIn, hLocate⟩ := (locateSector_eq_ok_iff hFits).mp h
  dsimp only at hIn hLocate
  have hWidths : ∀ count ∈ dd.widths, 0 < count := by
    intro count hMem
    obtain ⟨c, hc, rfl⟩ := List.mem_map.mp hMem
    exact BitVec.lt_def.mp (hPos c (List.mem_reverse.mp hc))
  have hSpan := dd.getD_widths (i := dd.ddSectors.length - 1 - cyl) (by omega)
  rw [show dd.ddSectors.length - 1 - (dd.ddSectors.length - 1 - cyl) = cyl by omega] at hSpan
  have hSector : (sector + 1).toNat = sector.toNat + 1 := by
    rw [BitVec.toNat_add]
    exact Nat.mod_eq_of_lt (by change sector.toNat + 1 < 2 ^ 32; omega)
  have hOffset : (rotoffset + 1).toNat = rotoffset.toNat + 1 := by
    have hOn := BitVec.lt_def.mp (locateSector_rotoffset h)
    have hWord := (dd.ddSectors.getD cyl 0).isLt
    rw [BitVec.toNat_add]
    exact Nat.mod_eq_of_lt (by change rotoffset.toNat + 1 < 2 ^ 32; omega)
  rw [← dd.sum_widths] at hNext
  rcases locate_succ hWidths hLocate hNext with ⟨hMore, hSame⟩ | ⟨hEnd, hInner, hFirst⟩
  · left
    rw [hSpan] at hMore
    rw [BitVec.lt_def, hOffset, locateSector_eq_ok_iff hFits, hSector, hOffset]
    exact ⟨hMore, hIn, hSame⟩
  · right
    rw [hSpan] at hEnd
    rw [dd.length_widths] at hInner
    refine ⟨BitVec.eq_of_toNat_eq (hOffset.trans hEnd), by omega, ?_⟩
    rw [locateSector_eq_ok_iff hFits, hSector, hFirst]
    refine ⟨by dsimp only; omega, ?_⟩
    congr 2
    dsimp only
    omega

end Table

/-- Sectors and places of the table are matched one to one, in order, and `disk_work` never fails
to locate one. -/
theorem locateSector_bijection {dd : DiskData} (hPos : ∀ count ∈ dd.ddSectors, 0 < count)
    (hGeometry : dd.geometryOk) :
    (∀ sector : BitVec 32, sector.toNat < dd.allSectors →
      ∃ p, dd.IsPlace p ∧ locateSector dd sector = .ok p) ∧
    (∀ p, dd.IsPlace p → ∃! sector : BitVec 32,
      sector.toNat < dd.allSectors ∧ locateSector dd sector = .ok p) ∧
    (∀ (sector : BitVec 32) (cyl : Nat) (rotoffset : BitVec 32),
      sector.toNat + 1 < dd.allSectors → locateSector dd sector = .ok (cyl, rotoffset) →
      rotoffset + 1 < dd.ddSectors.getD cyl 0 ∧
          locateSector dd (sector + 1) = .ok (cyl, rotoffset + 1) ∨
        rotoffset + 1 = dd.ddSectors.getD cyl 0 ∧ 0 < cyl ∧
          locateSector dd (sector + 1) = .ok (cyl - 1, 0)) ∧
    (∀ sector : BitVec 32, sector < dd.ddTotsectors → ∃ p, locateSector dd sector = .ok p) ∧
    ∀ now h, ∃ r, diskWork dd now h = .ok r := by
  have hFits : dd.allSectors < 2 ^ 32 := hGeometry.1
  refine ⟨?_, ?_, ?_, ?_, ?_⟩
  · intro sector hSector
    obtain ⟨p, hp⟩ := exists_locateSector hFits hSector
    exact ⟨p, isPlace_of_locateSector hFits hp, hp⟩
  · intro p hPlace
    obtain ⟨sector, hSector, hp⟩ := exists_sector hFits hPlace
    refine ⟨sector, ⟨hSector, hp⟩, ?_⟩
    rintro sector' ⟨-, hp'⟩
    exact locateSector_inj hFits hp' hp
  · intro sector cyl rotoffset hNext hp
    exact locateSector_succ hFits hPos hp hNext
  · intro sector hSector
    exact exists_locateSector hFits (Nat.lt_of_lt_of_le (BitVec.lt_def.mp hSector) hGeometry.2)
  · intro now h
    exact diskWork_ok hGeometry now h

/-- Two tracks for seven sectors. -/
def twoTracks : DiskData where
  ddSectors := [3, 5]
  ddTotsectors := 7
  ddCurrentTrack := 0
  ddTrackarrivalSecs := 0
  ddTrackarrivalNsecs := 0
  ddIostatus := -1
  ddTimedop := false
  ddWorktries := 0
  ddStat := 0
  ddSect := 0
  ddBuf := fun _ => 0

example : locateSector twoTracks 4 = .ok (1, 4) := by decide +kernel

theorem twoTracks_inwards : locateSector twoTracks 5 = .ok (0, 0) := by
  have hTable := @locateSector_bijection twoTracks (by simp [twoTracks])
    (by simp [DiskData.geometryOk, twoTracks])
  obtain ⟨-, -, hNext, -⟩ := hTable
  rcases hNext 4 1 4 (by decide) (by rfl) with ⟨hMore, -⟩ | ⟨-, -, hInner⟩
  · exact absurd hMore (by decide)
  · exact hInner

end Sys161.Bus
