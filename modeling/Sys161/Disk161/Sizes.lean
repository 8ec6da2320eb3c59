import Sys161.Disk161.Runs
import Sys161.Lib.Decimal

/-!
# Images of the tool and disks of the simulator

What the tool leaves when it succeeds is a disk to the simulator, of the size that
was asked for.
-/

namespace Sys161.Disk161

open Exec CString

set_option autoImplicit false

/-- The disk device takes a file for a disk of so many sectors, and says nothing about it. -/
def Opens (bytes : List Byte) (sectors : Nat) : Prop :=
  ∀ (h : Host) (slot : Nat) (filename : String) (configsectors : Sectors) (p : Process),
    h.Sound → p.file = some bytes → After (diskOpen h slot filename configsectors)
      (fun n p' => n.toNat = sectors ∧ p'.file = p.file ∧ p'.stderr = p.stderr) (fun _ _ => False) p

/-- A disk of at least 128 sectors that the device computes the number of without a loss. -/
structure Usable (bytes : List Byte) : Prop where
  size : ∃ sectors, bytes.length = 512 + 512 * sectors ∧ 128 ≤ sectors ∧ 512 * sectors < 2 ^ 32
  opens : Opens bytes ((bytes.length - 512) / 512)

section Device

variable {h : Host} {slot : Nat} {filename : String} {p : Process} {bytes : List Byte}

theorem after_openImage {Q : Bool → Process → Prop} {E : Nat → Process → Prop} (hSound : h.Sound)
    (hFile : p.file = some bytes) (hOk : Q false { p with file := some bytes, offset := 0 }) :
    After (openImage h slot filename) Q E p := by
  unfold openImage
  rw [after_bind]
  apply after_openRdwr
  · intro _ _
    rw [hFile]
    exact hOk
  · intro e hWhy
    rcases hWhy with hOpen | ⟨hMissing, _⟩
    · exact absurd hSound.openError hOpen
    · rw [hFile] at hMissing
      cases hMissing

theorem after_readheader {Q : Unit → Process → Prop} {E : Nat → Process → Prop} (hSound : h.Sound)
    (hFile : p.file = some bytes) (hImage : Image bytes) (hOk : Q () { p with offset := 512 }) :
    After (readheader h slot filename) Q E p := by
  have hBlock : ((p.file.getD []).drop 0).take headersize = bytes.take 512 := by
    rw [hFile]
    rfl
  have hLength : (bytes.take 512).length = 512 := by
    rw [List.length_take, Nat.min_eq_left hImage.1]
  have hPadded : bytes.take 512 ++ List.replicate (headersize - 512) 0 = bytes.take 512 :=
    List.append_nil _
  unfold readheader deviceRead
  rw [after_bind, after_bind]
  apply after_lseek
  · intro _
    rw [after_bind]
    apply after_read
    · intro _
      rw [after_pure]
      dsimp only
      rw [hBlock, hLength, hPadded, hImage.2]
      exact hOk
    · exact fun _ hRead => absurd hSound.readError hRead
  · exact fun _ hSeek => absurd hSound.lseekError hSeek

theorem opens_of_image (hImage : Image bytes) (hSize : bytes.length < 512 + 2 ^ 32) :
    Opens bytes ((bytes.length - 512) / 512) := by
  intro h slot filename configsectors p hSound hFile
  unfold diskOpen
  rw [after_bind]
  apply after_openImage hSound hFile
  rw [after_bind, diskLock, hSound.lockError]
  rw [after_pure, if_neg (by decide), after_bind]
  apply after_readheader hSound rfl hImage
  rw [after_bind]
  apply after_fstat
  · intro _
    have hLong : ¬bytes.length < headersize := Nat.not_lt.mpr hImage.1
    have hSmall : ¬bytes.length - headersize > 0xffffffff := by
      rw [headersize, sectorsize]
      omega
    dsimp only [Option.getD_some]
    rw [if_neg hLong, if_neg hSmall, after_pure]
    refine ⟨?_, hFile.symm, rfl⟩
    rw [BitVec.toNat_ofNat, headersize, sectorsize]
    omega
  · exact fun _ hStat => absurd hSound.fstatError hStat

theorem usable_of_fits {size : Int} (hImage : Image bytes) (hFits : Fits size)
    (hLength : bytes.length = (512 + size).toNat) : Usable bytes := by
  obtain ⟨hWhole, hLeast, hMost⟩ := hFits
  constructor
  · exact ⟨(size / 512).toNat, by omega, by omega, by omega⟩
  · apply opens_of_image hImage
    omega

end Device

/-! ## Sectors -/

/-- The number of sectors in an image, of which the last may be a part. -/
def sectorsOf (bytes : List Byte) : Nat := (bytes.length - 512) / 512

def sector (bytes : List Byte) (k : Nat) : List Byte := (bytes.drop (512 + 512 * k)).take 512

theorem sector_resized {bytes : List Byte} {size k : Nat} (hOld : k < sectorsOf bytes)
    (hNew : k < sectorsOf (resized bytes size)) :
    sector (resized bytes size) k = sector bytes k := by
  unfold sectorsOf at hOld hNew
  rw [length_resized] at hNew
  have hSame : (resized bytes size).take (512 + 512 * k + 512) =
      bytes.take (512 + 512 * k + 512) := take_resized (by omega) (by omega)
  have hDrop := congrArg (List.drop (512 + 512 * k)) hSame
  rw [List.drop_take, List.drop_take] at hDrop
  have hCount : 512 + 512 * k + 512 - (512 + 512 * k) = 512 := by omega
  rw [hCount] at hDrop
  exact hDrop

theorem blank_eq {size : Int} (hSize : 0 ≤ size) :
    blank size = header ++ List.replicate size.toNat 0 := by
  have hCount : (512 + size).toNat - 512 = size.toNat := by omega
  rw [blank, overwrite_start, length_header, List.drop_replicate, hCount]

theorem image_zeros (n : Nat) : Image (header ++ List.replicate n 0) := by
  constructor
  · rw [List.length_append, length_header]
    omega
  · rw [List.take_append_of_le_length (Nat.le_of_eq length_header.symm),
      List.take_of_length_le (Nat.le_of_eq length_header)]
    exact headed_header

theorem image_blank {size : Int} (hSize : 0 ≤ size) : Image (blank size) := by
  rw [blank_eq hSize]
  exact image_zeros _

theorem usable_blank {size : Int} (hFits : Fits size) : Usable (blank size) := by
  have hLeast := hFits.least
  apply usable_of_fits (image_blank (by omega)) hFits
  rw [blank_eq (by omega), List.length_append, length_header, List.length_replicate]
  omega

theorem usable_resized {sizespec bytes : List Byte} {size : Int} (h : Resizes sizespec bytes size) :
    Usable (resized bytes (512 + size).toNat) := by
  have hLeast := h.fits.least
  apply usable_of_fits (h.image.resized (by omega)) h.fits
  rw [length_resized]

/-! ## Sizes there and back -/

theorem resized_resized {bytes : List Byte} {size : Nat} (hSize : bytes.length ≤ size) :
    resized (resized bytes size) bytes.length = bytes := by
  rw [resized, take_resized hSize (Nat.le_refl _), List.take_length, length_resized,
    Nat.sub_eq_zero_of_le hSize, List.replicate_zero, List.append_nil]

theorem resized_length (bytes : List Byte) : resized bytes bytes.length = bytes := by
  rw [resized, List.take_length, Nat.sub_self, List.replicate_zero, List.append_nil]

theorem offT_range (n : Int) : -2 ^ 63 ≤ offT n ∧ offT n < 2 ^ 63 :=
  ⟨Int.le_bmod (by decide), Int.bmod_lt (by decide)⟩

theorem offT_self {n : Int} (hLow : -2 ^ 63 ≤ n) (hHigh : n < 2 ^ 63) : offT n = n :=
  Int.bmod_eq_of_le hLow hHigh

theorem offT_wraps (n : Int) : ∃ k : Int, offT n = n - 2 ^ 64 * k :=
  ⟨n.bdiv (2 ^ 64), Int.bmod_eq_self_sub_mul_bdiv n (2 ^ 64)⟩

theorem sizeOf_range {str : List Byte} {size : Int} (h : sizeOf str = some size) :
    -2 ^ 63 ≤ size ∧ size < 2 ^ 63 := by
  have hValue := strtoll_range 0 str
  unfold sizeOf at h
  split at h
  · cases h
  · unfold suffixed at h
    split at h
    · obtain rfl := Option.some.inj h
      exact hValue
    · repeat' split at h
      all_goals cases h
      all_goals exact offT_range _

theorem target_minus {sizespec bytes : List Byte} {size : Int}
    (h : Resizes (ch '+' :: sizespec) bytes size) :
    target (ch '-' :: sizespec) size = some (bytes.length - 512 : Int) ∧
      bytes.length ≤ (512 + size).toNat := by
  have hLong := h.image.1
  obtain ⟨_, hLeast, hMost⟩ := h.fits
  have hTarget : (sizeOf sizespec).bind (newsizeOf .plus (bytes.length - 512)) = some size :=
    h.target
  obtain ⟨n, hGiven, hNew⟩ := Option.bind_eq_some_iff.mp hTarget
  obtain ⟨hLow, hHigh⟩ := sizeOf_range hGiven
  rw [newsizeOf] at hNew
  split at hNew
  · cases hNew
  · next hMore =>
    have hSum : offT (bytes.length - 512 + n) = size := Option.some.inj hNew
    rw [hSum] at hMore
    obtain ⟨k, hWraps⟩ := offT_wraps (bytes.length - 512 + n)
    have hk : k = 0 := by omega
    subst hk
    have hExact : n = size - (bytes.length - 512) := by omega
    have hBack : target (ch '-' :: sizespec) size =
        (sizeOf sizespec).bind (newsizeOf .minus size) := rfl
    have hDiff : size - n = bytes.length - 512 := by omega
    constructor
    · rw [hBack, hGiven, Option.bind_some, newsizeOf, if_neg (by omega), hDiff]
      rw [offT_self (by omega) (by omega)]
    · omega

theorem target_decimal {n : Nat} {oldsize size : Int}
    (h : target (decimal n) oldsize = some size) : size = n := by
  obtain ⟨c, l, hCons, hc⟩ := decimal_cons n
  have hMode : modeOf (decimal n) = (.set, decimal n) := by
    rw [hCons, modeOf, if_neg (ch_ne_sign hc).2, if_neg (ch_ne_sign hc).1]
  rw [target, hMode, sizeOf, strtoll_decimal] at h
  split at h
  · exact (Option.some.inj h).symm
  · cases h

section Commands

variable {h h₂ : Host} {file : String} {sizespec : List Byte} {p p₁ : Process}

/-- Taking away what was added restores the file, or is refused for the size the file had. -/
theorem after_minus (hPlus : (doresize h file (ch '+' :: sizespec)).run p = .ok () p₁) :
    After (doresize h₂ file (ch '-' :: sizespec)) (fun _ p₂ => p₂.file = p.file)
      (fun _ p₂ => h₂.Sound → p₂.file = p₁.file ∧
        ∀ bytes, p.file = some bytes → ¬Fits (bytes.length - 512)) p₁ := by
  obtain ⟨bytes, size, hFile, hSize, hNew⟩ := after_of_run_ok after_doresize hPlus
  obtain ⟨hBack, hGrown⟩ := target_minus hSize
  have hLeast := hSize.fits.least
  have hLength : ((resized bytes (512 + size).toNat).length : Int) - 512 = size := by
    rw [length_resized]
    omega
  apply after_doresize.mono
  · rintro _ p₂ ⟨bytes', size', hFile', hSize', hNew'⟩
    obtain rfl : resized bytes (512 + size).toNat = bytes' :=
      Option.some.inj (hNew.symm.trans hFile')
    have hTarget := hSize'.target
    rw [hLength, hBack] at hTarget
    have hOld : (512 + size').toNat = bytes.length := by
      have hLong := hSize.image.1
      have hEq := Option.some.inj hTarget
      omega
    rw [hNew', hFile, hOld, resized_resized hGrown]
  · rintro e p₂ hWhy hSound
    rcases hWhy with ⟨hSame, hNone⟩ | ⟨hUnlock, _⟩
    · refine ⟨hSame, fun bytes' hFile' hFits => ?_⟩
      obtain rfl : bytes = bytes' := Option.some.inj (hFile.symm.trans hFile')
      apply hNone hSound _ _ hNew
      constructor
      · apply hSize.image.resized
        omega
      · rw [hLength]
        exact hBack
      · exact hFits
    · exact absurd hSound.unlockError hUnlock

theorem after_same {bytes : List Byte} (hFile : p.file = some bytes) :
    After (doresize h file (decimal (bytes.length - 512))) (fun _ p' => p'.file = p.file)
      (fun _ p' => p'.file = p.file) p := by
  have hNone : ∀ size, Resizes (decimal (bytes.length - 512)) bytes size →
      resized bytes (512 + size).toNat = bytes := by
    intro size hSize
    have hLong := hSize.image.1
    obtain rfl := target_decimal hSize.target
    have hOld : (512 + ((bytes.length - 512 : Nat) : Int)).toNat = bytes.length := by omega
    rw [hOld, resized_length]
  have hStay : ∀ {p' : Process}, (∃ bytes' size, p.file = some bytes' ∧
      Resizes (decimal (bytes.length - 512)) bytes' size ∧
      p'.file = some (resized bytes' (512 + size).toNat)) → p'.file = p.file := by
    rintro p' ⟨bytes', size, hFile', hSize, hNew⟩
    obtain rfl : bytes = bytes' := Option.some.inj (hFile.symm.trans hFile')
    rw [hNew, hFile, hNone size hSize]
  apply after_doresize.mono
  · exact fun _ _ h => hStay h
  · rintro e p' (⟨hSame, _⟩ | ⟨_, hResized⟩)
    · exact hSame
    · exact hStay hResized

theorem after_doinfo : After (doinfo h file)
    (fun _ p' => ∃ bytes, p.file = some bytes ∧ p'.file = some bytes ∧
      p'.stdout = p.stdout ++ [amounts file "size" (bytes.length - 512)] ++
        [amounts file "spaceused" (h.blocks * 512)])
    (fun _ _ => True) p := by
  unfold doinfo
  rw [after_bind]
  apply after_doopen
  case hBad => exact fun _ _ _ _ => trivial
  intro _ hThere
  cases hFile : p.file with
  | none => cases hThere hFile
  | some bytes =>
    rw [after_bind]
    apply after_checkheader rfl
    case hBad => exact fun _ _ _ _ => trivial
    intro _ _
    rw [after_bind]
    apply after_dofstat
    case hBad => exact fun _ _ _ _ => trivial
    intro _
    exact ⟨bytes, rfl, rfl, rfl⟩

end Commands

/-- The tool and the device agree about images. -/
structure Agree : Prop where
  created : ∀ h file sizespec doforce p p', (docreate h file sizespec doforce).run p = .ok () p' →
    ∃ bytes, p'.file = some bytes ∧ Usable bytes
  resized : ∀ h file sizespec p p', (doresize h file sizespec).run p = .ok () p' →
    ∃ old new, p.file = some old ∧ p'.file = some new ∧ Usable new ∧
      ∀ k, k < sectorsOf old → k < sectorsOf new → sector new k = sector old k
  /-- What is added and taken away again restores the file, or is refused where the file did not
  have a size that an image may be given. -/
  restored : ∀ h h₂ file sizespec p p₁, (doresize h file (ch '+' :: sizespec)).run p = .ok () p₁ →
    After (doresize h₂ file (ch '-' :: sizespec)) (fun _ p₂ => p₂.file = p.file)
      (fun _ p₂ => h₂.Sound → p₂.file = p₁.file ∧
        ∀ bytes, p.file = some bytes → ¬Fits (bytes.length - 512)) p₁
  /-- The size that is reported is the one to leave the file as it is. -/
  reported : ∀ h h₂ file p p₁, (doinfo h file).run p = .ok () p₁ → ∃ amt : Nat,
    p₁.file = p.file ∧ p₁.stdout = p.stdout ++ [amounts file "size" amt] ++
      [amounts file "spaceused" (h.blocks * 512)] ∧
    After (doresize h₂ file (decimal amt)) (fun _ p₂ => p₂.file = p₁.file)
      (fun _ p₂ => p₂.file = p₁.file) p₁

theorem tool_agrees : Agree where
  created h file sizespec doforce p p' hRun := by
    obtain ⟨size, hGets, hFile⟩ := after_of_run_ok after_docreate hRun
    exact ⟨blank size, hFile, usable_blank hGets.fits⟩
  resized h file sizespec p p' hRun := by
    obtain ⟨bytes, size, hOld, hSize, hNew⟩ := after_of_run_ok after_doresize hRun
    refine ⟨bytes, _, hOld, hNew, usable_resized hSize, ?_⟩
    exact fun k hBelow hBelow' => sector_resized hBelow hBelow'
  restored h h₂ file sizespec p p₁ hRun := after_minus hRun
  reported h h₂ file p p₁ hRun := by
    obtain ⟨bytes, hOld, hNew, hOut⟩ := after_of_run_ok after_doinfo hRun
    exact ⟨bytes.length - 512, hNew.trans hOld.symm, hOut, after_same hNew⟩

/-- 28 sectors. -/
def someSectors : List Byte := [ch '2', ch '8', ch 's']

theorem runs_of_resizes {h : Host} {file : String} {sizespec bytes : List Byte} {size : Int}
    {p : Process} (hSound : h.Sound) (hFile : p.file = some bytes)
    (hSize : Resizes sizespec bytes size) : ∃ p', (doresize h file sizespec).run p = .ok () p' ∧
      p'.file = some (resized bytes (512 + size).toNat) := by
  have hAfter : After (doresize h file sizespec)
      (fun _ p' => p'.file = some (resized bytes (512 + size).toNat)) (fun _ _ => False) p := by
    apply after_doresize.mono
    · rintro _ p' ⟨bytes', size', hFile', hSize', hNew⟩
      obtain rfl : bytes = bytes' := Option.some.inj (hFile.symm.trans hFile')
      obtain rfl : size = size' := Option.some.inj (hSize.target.symm.trans hSize'.target)
      exact hNew
    · rintro e p' (⟨_, hNone⟩ | ⟨hUnlock, _⟩)
      · exact hNone hSound bytes size hFile hSize
      · exact hUnlock hSound.unlockError
  obtain ⟨⟨⟩, p', hRun, hNew⟩ := exists_of_after hAfter
  exact ⟨p', hRun, hNew⟩

/-- A new file is made where nothing is in the way. -/
theorem runs_of_gets {h : Host} {file : String} {sizespec : List Byte} {size : Int} {p : Process}
    (hSound : h.Sound) (hWrite : h.writeError = none ∧ header.length ≤ h.writeMost)
    (hFile : p.file = none) (hGets : Gets h sizespec size) :
    ∃ p', (docreate h file sizespec false).run p = .ok () p' ∧ p'.file = some (blank size) := by
  have hAfter : After (docreate h file sizespec false) (fun _ p' => p'.file = some (blank size))
      (fun _ _ => False) p := by
    apply after_docreate.mono
    · rintro _ p' ⟨size', hGets', hNew⟩
      obtain rfl : size = size' := Option.some.inj (hGets.given.symm.trans hGets'.given)
      exact hNew
    · rintro e p' (⟨_, hThere, _⟩ | ⟨hOpen, _⟩ | ⟨_, hNone, _⟩ | ⟨_, _, _, hWhy, _⟩)
      · exact hThere hFile
      · exact hOpen hSound.openError
      · exact hNone size hGets
      · rcases hWhy with (hError | hShort) | hUnlock
        · exact hError hWrite.1
        · exact absurd hWrite.2 (Nat.not_le.mpr hShort)
        · exact hUnlock hSound.unlockError
  obtain ⟨⟨⟩, p', hRun, hNew⟩ := exists_of_after hAfter
  exact ⟨p', hRun, hNew⟩

/-- A disk of 1M is made, grows by 28 sectors and shrinks again. -/
theorem tool_agrees_there_and_back : ∃ p p₁ p₂ : Process,
    (docreate {} "DISK1.img" [ch '1', ch 'M'] false).run (.mk none 0 [] []) = .ok () p ∧
    (doresize {} "DISK1.img" (ch '+' :: someSectors)).run p = .ok () p₁ ∧
    (doresize {} "DISK1.img" (ch '-' :: someSectors)).run p₁ = .ok () p₂ ∧
    (∃ bytes, p.file = some bytes ∧ bytes.length = 512 + 512 * 2048 ∧ Usable bytes) ∧
    (∃ bytes, p₁.file = some bytes ∧ bytes.length = 512 + 512 * 2076 ∧ Usable bytes) ∧
    p₂.file = p.file := by
  have hSound : Host.Sound {} := ⟨rfl, rfl, rfl, rfl, rfl, rfl, rfl⟩
  have hGets : Gets {} [ch '1', ch 'M'] 1048576 :=
    ⟨rfl, by decide, ⟨by decide, by decide, by decide⟩, rfl⟩
  obtain ⟨p, hCreate, hFile⟩ : ∃ p, (docreate {} "DISK1.img" [ch '1', ch 'M'] false).run
      (.mk none 0 [] []) = .ok () p ∧ p.file = some (blank 1048576) :=
    runs_of_gets hSound ⟨rfl, Nat.le_of_eq length_header⟩ rfl hGets
  have hLength : (blank 1048576).length = 512 + 512 * 2048 := by
    rw [blank_eq (by decide), List.length_append, length_header, List.length_replicate]
    rfl
  have hImage : Image (blank 1048576) := image_blank (by decide)
  have hGrows : Resizes (ch '+' :: someSectors) (blank 1048576) 1062912 := by
    constructor
    · exact hImage
    · rw [hLength]
      decide
    · exact ⟨by decide, by decide, by decide⟩
  generalize blank 1048576 = bytes at hFile hLength hImage hGrows
  obtain ⟨p₁, hPlus, hMore⟩ : ∃ p₁, (doresize {} "DISK1.img" (ch '+' :: someSectors)).run p =
      .ok () p₁ ∧ p₁.file = some (resized bytes (512 + 1062912 : Int).toNat) :=
    runs_of_resizes hSound hFile hGrows
  have hShrinks : Resizes (ch '-' :: someSectors) (resized bytes (512 + 1062912 : Int).toNat)
      1048576 := by
    constructor
    · exact hImage.resized (by decide)
    · rw [length_resized]
      obtain ⟨hTarget, _⟩ := target_minus hGrows
      rw [hLength] at hTarget
      exact hTarget
    · exact ⟨by decide, by decide, by decide⟩
  obtain ⟨p₂, hMinus, _⟩ : ∃ p₂, (doresize {} "DISK1.img" (ch '-' :: someSectors)).run p₁ =
      .ok () p₂ ∧ _ := runs_of_resizes hSound hMore hShrinks
  refine ⟨p, p₁, p₂, hCreate, hPlus, hMinus, ?_, ?_, ?_⟩
  · obtain ⟨bytes', hCreated, hUsable⟩ := tool_agrees.created _ _ _ _ _ _ hCreate
    obtain rfl := Option.some.inj (hFile.symm.trans hCreated)
    exact ⟨bytes, hFile, hLength, hUsable⟩
  · obtain ⟨_, new, _, hNew, hUsable, _⟩ := tool_agrees.resized _ _ _ _ _ hPlus
    obtain rfl := Option.some.inj (hMore.symm.trans hNew)
    exact ⟨_, hMore, length_resized _ _, hUsable⟩
  · have hBack := tool_agrees.restored _ {} _ _ _ _ hPlus
    have hSame := after_of_run_ok hBack hMinus
    exact hSame

/-- An image of 100 sectors, as the simulator makes it where it is configured so. -/
def smallImage : List Byte := header ++ List.replicate (512 * 100) 0

theorem length_smallImage : smallImage.length = 51712 := by
  rw [smallImage, List.length_append, length_header, List.length_replicate]

theorem smallImage_grows : Resizes (ch '+' :: someSectors) smallImage 65536 := by
  constructor
  · exact image_zeros _
  · rw [length_smallImage]
    decide
  · exact ⟨by decide, by decide, by decide⟩

/-- Sectors that are added to a small image cannot be taken away. -/
theorem not_restored : ¬∀ h h₂ file sizespec p p₁, h.Sound → h₂.Sound →
    (doresize h file (ch '+' :: sizespec)).run p = .ok () p₁ →
      After (doresize h₂ file (ch '-' :: sizespec))
        (fun _ p₂ => p₂.file.map List.length = p.file.map List.length)
        (fun _ p₂ => p₂.file.map List.length = p.file.map List.length) p₁ := by
  intro hAll
  have hSound : Host.Sound {} := ⟨rfl, rfl, rfl, rfl, rfl, rfl, rfl⟩
  have hLength := length_smallImage
  have hGrows := smallImage_grows
  generalize smallImage = bytes at hLength hGrows
  obtain ⟨p₁, hRun, hFile⟩ : ∃ p₁, (doresize {} "DISK1.img" (ch '+' :: someSectors)).run
      { file := some bytes, offset := 0, stdout := [], stderr := [] } = .ok () p₁ ∧
      p₁.file = some (resized bytes (512 + 65536 : Int).toNat) :=
    runs_of_resizes hSound rfl hGrows
  obtain ⟨hTarget, _⟩ := target_minus hGrows
  have hNew : ((resized bytes (512 + 65536 : Int).toNat).length : Int) - 512 = 65536 := by
    rw [length_resized]
    rfl
  have hBack := (hAll {} {} _ _ _ _ hSound hSound hRun).and after_doresize
  apply exists_end hBack
  · rintro _ p₂ ⟨_, bytes', size, hFile', hSize, _⟩
    obtain rfl := Option.some.inj (hFile.symm.trans hFile')
    have hSame := hSize.target
    rw [hNew, hTarget, hLength] at hSame
    obtain rfl := Option.some.inj hSame
    exact absurd hSize.fits.least (by decide)
  · rintro e p₂ ⟨hSame, ⟨hLeft, _⟩ | ⟨hUnlock, _⟩⟩
    · rw [hLeft, hFile] at hSame
      have hEqual := Option.some.inj hSame
      rw [length_resized, hLength] at hEqual
      exact absurd hEqual (by decide)
    · exact hUnlock rfl

end Sys161.Disk161
