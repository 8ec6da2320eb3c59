import Sys161.Disk161.DiskOpen

/-!
# What the disk tool does to a file

Each call of the tool succeeds, or ends the program and leaves the file as it is.
-/

namespace Sys161.Disk161

open Exec

set_option autoImplicit false

/-- No call fails. -/
structure Host.Sound (h : Host) : Prop where
  openError : h.openError = none
  lockError : h.lockError = none
  unlockError : h.unlockError = none
  lseekError : h.lseekError = none
  readError : h.readError = none
  truncateError : h.truncateError = none
  fstatError : h.fstatError = none

section Wrappers

variable {α : Type} {h : Host} {file : String} {p : Process}
variable {E : Nat → Process → Prop}

theorem after_die {Q : α → Process → Prop} {msg : String}
    (hBad : ∀ e p', p'.file = p.file → E e p') : After (die msg : M α) Q E p := by
  unfold die complain
  rw [after_bind, after_modify, after_throw]
  exact hBad _ _ rfl

theorem after_doflock {Q : Unit → Process → Prop} {error : Option Errno}
    (hOk : error = none → Q () p) (hBad : ∀ e p', error ≠ none → p'.file = p.file → E e p') :
    After (doflock file error) Q E p := by
  unfold doflock
  split
  · exact after_die fun e p' => hBad e p' nofun
  · exact after_die fun e p' => hBad e p' nofun
  · exact hOk rfl

theorem after_openRdwr {Q : Option Errno → Process → Prop} {creat trunc : Bool}
    (hOk : h.openError = none → (p.file = none → creat = true) →
      Q none { p with file := some (if trunc then [] else p.file.getD []), offset := 0 })
    (hBad : ∀ e, h.openError ≠ none ∨ p.file = none ∧ creat = false → Q (some e) p) :
    After (h.openRdwr creat trunc) Q E p := by
  unfold Host.openRdwr
  rw [after_ite]
  split
  · next hError =>
    cases hOpen : h.openError with
    | none => simp [hOpen] at hError
    | some e => exact hBad e (.inl (by simp [hOpen]))
  · next hNone =>
    have hOpen : h.openError = none := by simpa using hNone
    rw [after_bind, after_get, after_ite]
    split
    · next hMissing => exact hBad .noent (.inr hMissing)
    · next hThere =>
      apply hOk hOpen
      intro hFile
      simpa [hFile] using hThere

theorem after_doopen {Q : Unit → Process → Prop} {creat trunc : Bool}
    (hOk : h.openError = none → (p.file = none → creat = true) →
      Q () { p with file := some (if trunc then [] else p.file.getD []), offset := 0 })
    (hBad : ∀ e p', h.openError ≠ none ∨ p.file = none ∧ creat = false → p'.file = p.file →
      E e p') :
    After (doopen h file creat trunc) Q E p := by
  unfold doopen
  rw [after_bind]
  apply after_openRdwr hOk
  intro e hWhy
  exact after_die fun e' p' => hBad e' p' hWhy

theorem after_lseek {Q : Option Errno → Process → Prop} {pos : Nat}
    (hOk : h.lseekError = none → Q none { p with offset := pos })
    (hBad : ∀ e, h.lseekError ≠ none → Q (some e) p) : After (h.lseek pos) Q E p := by
  unfold Host.lseek
  cases hSeek : h.lseekError with
  | none => exact hOk hSeek
  | some e => exact hBad e (by simp [hSeek])

theorem after_read {Q : Except Errno (List Byte) → Process → Prop} {len : Nat}
    (hOk : h.readError = none → Q (.ok (((p.file.getD []).drop p.offset).take len))
      { p with offset := p.offset + (((p.file.getD []).drop p.offset).take len).length })
    (hBad : ∀ e, h.readError ≠ none → Q (.error e) p) : After (h.read len) Q E p := by
  unfold Host.read
  cases hRead : h.readError with
  | none => exact hOk hRead
  | some e => exact hBad e (by simp [hRead])

theorem after_fstat {Q : Except Errno Nat → Process → Prop}
    (hOk : h.fstatError = none → Q (.ok (p.file.getD []).length) p)
    (hBad : ∀ e, h.fstatError ≠ none → Q (.error e) p) : After h.fstat Q E p := by
  unfold Host.fstat
  cases hStat : h.fstatError with
  | none => exact hOk hStat
  | some e => exact hBad e (by simp [hStat])

theorem after_doread {Q : List Byte → Process → Prop} {len : Nat}
    (hOk : h.readError = none → len ≤ (p.file.getD []).length - p.offset →
      Q (((p.file.getD []).drop p.offset).take len) { p with offset := p.offset + len })
    (hBad : ∀ e p', h.readError ≠ none ∨ (p.file.getD []).length - p.offset < len →
      p'.file = p.file → E e p') :
    After (doread h file len) Q E p := by
  have hLength : (((p.file.getD []).drop p.offset).take len).length =
      min len ((p.file.getD []).length - p.offset) := by
    rw [List.length_take, List.length_drop]
  unfold doread
  rw [after_bind]
  apply after_read
  · intro hRead
    dsimp only
    rw [after_ite]
    split
    · next hShort =>
      rw [hLength] at hShort
      exact after_die fun e' p' => hBad e' p' (.inr (by omega))
    · next hWhole =>
      have hFull := not_not.mp hWhole
      rw [after_pure, hFull]
      rw [hLength] at hFull
      exact hOk hRead (by omega)
  · intro e hRead
    exact after_die fun e' p' => hBad e' p' (.inl hRead)

theorem after_dofstat {Q : Nat → Process → Prop}
    (hOk : h.fstatError = none → Q (p.file.getD []).length p)
    (hBad : ∀ e p', h.fstatError ≠ none → p'.file = p.file → E e p') :
    After (dofstat h file) Q E p := by
  unfold dofstat
  rw [after_bind]
  apply after_fstat hOk
  intro e hStat
  exact after_die fun e' p' => hBad e' p' hStat

theorem after_dotruncate {Q : Unit → Process → Prop} {size : Int} (hSize : 0 ≤ size)
    (hOk : h.truncateError = none →
      Q () { p with file := some (resized (p.file.getD []) size.toNat) })
    (hBad : ∀ e p', h.truncateError ≠ none → p'.file = p.file → E e p') :
    After (dotruncate h file size) Q E p := by
  unfold dotruncate Host.ftruncate
  rw [after_bind, after_ite]
  split
  · next hError =>
    cases hTruncate : h.truncateError with
    | none => simp [hTruncate] at hError
    | some e =>
      rw [after_pure]
      exact after_die fun e' p' => hBad e' p' (by simp [hTruncate])
  · next hNone =>
    rw [after_ite]
    split
    · next hNeg => omega
    · exact hOk (by simpa using hNone)

/-! ## Sizes -/

/-- The size that a string stands for, if `getsize` takes it for one. -/
def sizeOf (str : List Byte) : Option Int :=
  if (CString.strtoll 0 str).erange then none
  else suffixed (CString.strtoll 0 str).value (CString.strtoll 0 str).rest

/-- The sizes that `checksize` lets pass. -/
structure Fits (size : Int) : Prop where
  whole : size % 512 = 0
  least : 65536 ≤ size
  most : size < 2 ^ 32

theorem after_getsize {Q : Int → Process → Prop} {str : List Byte}
    (hOk : ∀ size, sizeOf str = some size → Q size p)
    (hBad : ∀ e p', sizeOf str = none → p'.file = p.file → E e p') :
    After (getsize str) Q E p := by
  unfold getsize
  rw [after_ite]
  split
  · next hRange => exact after_die fun e p' => hBad e p' (if_pos hRange)
  · next hRange =>
    have hSize : sizeOf str = suffixed (CString.strtoll 0 str).value (CString.strtoll 0 str).rest :=
      if_neg hRange
    cases hSuffix : suffixed (CString.strtoll 0 str).value (CString.strtoll 0 str).rest with
    | some size => exact hOk size (hSize.trans hSuffix)
    | none => exact after_die fun e p' => hBad e p' (hSize.trans hSuffix)

theorem after_checksize {Q : Unit → Process → Prop} {size : Int}
    (hOk : Fits size → Q () p) (hBad : ∀ e p', ¬Fits size → p'.file = p.file → E e p') :
    After (checksize size) Q E p := by
  have hRem : size.tmod sectorsize = 0 ↔ size % 512 = 0 := by
    rw [← Int.dvd_iff_tmod_eq_zero, Int.dvd_iff_emod_eq_zero]
    rfl
  unfold checksize minsize maxsize
  rw [after_ite]
  split
  · next hPart =>
    unfold complain
    rw [after_bind, after_modify]
    exact after_die fun e p' => hBad e p' fun hFits => hPart (hRem.mpr hFits.whole)
  · next hWhole =>
    rw [after_ite]
    split
    · next hSmall =>
      exact after_die fun e p' => hBad e p' fun hFits => absurd hSmall (Int.not_lt.mpr hFits.least)
    · next hEnough =>
      rw [after_ite]
      split
      · next hLarge =>
        exact after_die fun e p' => hBad e p' fun hFits => absurd hFits.most (Int.not_lt.mpr hLarge)
      · next hLess =>
        exact hOk ⟨hRem.mp (not_not.mp hWhole), Int.not_lt.mp hEnough, Int.not_le.mp hLess⟩

/-! ## Headers -/

/-- The file begins with a header. -/
def Image (bytes : List Byte) : Prop := 512 ≤ bytes.length ∧ headed (bytes.take 512) = true

theorem after_checkheader {Q : Unit → Process → Prop} (hStart : p.offset = 0)
    (hOk : h.readError = none → Image (p.file.getD []) → Q () { p with offset := 512 })
    (hBad : ∀ e p', h.readError ≠ none ∨ ¬Image (p.file.getD []) → p'.file = p.file → E e p') :
    After (checkheader h file) Q E p := by
  unfold checkheader
  rw [after_bind]
  apply after_doread
  · intro hRead hLong
    rw [hStart, Nat.sub_zero] at hLong
    rw [hStart, List.drop_zero, Nat.zero_add, after_ite]
    split
    · next hOther =>
      apply after_die
      intro e p'
      apply hBad
      right
      rintro ⟨_, hHeaded⟩
      rw [sectorsize, hHeaded] at hOther
      cases hOther
    · next hSame => exact hOk hRead ⟨hLong, (Bool.not_eq_false _).mp hSame⟩
  · intro e p' hWhy
    apply hBad
    rcases hWhy with hRead | hShort
    · exact .inl hRead
    · right
      rintro ⟨hLong, _⟩
      rw [hStart, sectorsize] at hShort
      omega

theorem headed_header : headed header = true := by decide

theorem length_header : header.length = 512 := by
  rw [header, List.length_append, List.length_replicate]
  decide

theorem length_resized (bytes : List Byte) (size : Nat) : (resized bytes size).length = size := by
  rw [resized, List.length_append, List.length_take, List.length_replicate]
  omega

theorem take_resized {bytes : List Byte} {size n : Nat} (hn : n ≤ size) (hLong : n ≤ bytes.length) :
    (resized bytes size).take n = bytes.take n := by
  rw [resized, List.take_append_of_le_length, List.take_take, Nat.min_eq_left hn]
  rw [List.length_take]
  omega

theorem Image.resized {bytes : List Byte} (hImage : Image bytes) {size : Nat} (hSize : 512 ≤ size) :
    Image (resized bytes size) := by
  constructor
  · rw [length_resized]
    exact hSize
  · rw [take_resized hSize hImage.1]
    exact hImage.2

/-! ## Resizing -/

/-- The size that is asked for, of an image of an old size. -/
def newsizeOf (mode : Mode) (oldsize size : Int) : Option Int :=
  match mode with
  | .set => some size
  | .plus => if offT (oldsize + size) < oldsize then none else some (offT (oldsize + size))
  | .minus => if oldsize < size then none else some (offT (oldsize - size))

def target (sizespec : List Byte) (oldsize : Int) : Option Int :=
  (sizeOf (modeOf sizespec).2).bind (newsizeOf (modeOf sizespec).1 oldsize)

/-- The image can be given this size by this string. -/
structure Resizes (sizespec bytes : List Byte) (size : Int) : Prop where
  image : Image bytes
  target : target sizespec (bytes.length - 512) = some size
  fits : Fits size

theorem after_newsize {Q : Int → Process → Prop} {mode : Mode} {sizespec : List Byte}
    {oldsize size : Int} (hOk : ∀ new, newsizeOf mode oldsize size = some new → Q new p)
    (hBad : ∀ e p', newsizeOf mode oldsize size = none → p'.file = p.file → E e p') :
    After (newsize mode sizespec oldsize size) Q E p := by
  cases mode with
  | set => exact hOk size rfl
  | plus =>
    rw [newsize, after_ite]
    split
    · next hLess => exact after_die fun e p' => hBad e p' (if_pos hLess)
    · next hMore => exact hOk _ (if_neg hMore)
  | minus =>
    rw [newsize, after_ite]
    split
    · next hLess => exact after_die fun e p' => hBad e p' (if_pos hLess)
    · next hMore => exact hOk _ (if_neg hMore)

/-- An image is resized, or left as it is. It is resized all the same where the lock cannot be
given back. -/
theorem after_doresize {sizespec : List Byte} :
    After (doresize h file sizespec)
      (fun _ p' => ∃ bytes size, p.file = some bytes ∧ Resizes sizespec bytes size ∧
        p'.file = some (resized bytes (512 + size).toNat))
      (fun _ p' => p'.file = p.file ∧
          (h.Sound → ∀ bytes size, p.file = some bytes → ¬Resizes sizespec bytes size) ∨
        h.unlockError ≠ none ∧ ∃ bytes size, p.file = some bytes ∧ Resizes sizespec bytes size ∧
          p'.file = some (resized bytes (512 + size).toNat)) p := by
  unfold doresize
  rw [after_bind]
  apply after_getsize
  case hBad =>
    refine fun e p' hNone hSame => .inl ⟨hSame, fun _ bytes size _ hSize => ?_⟩
    have hTarget := hSize.target
    rw [target, hNone] at hTarget
    cases hTarget
  intro given hGiven
  rw [after_bind]
  apply after_doopen
  case hBad =>
    refine fun e p' hWhy hSame => .inl ⟨hSame, fun hSound bytes size hFile _ => ?_⟩
    rcases hWhy with hOpen | ⟨hMissing, _⟩
    · exact hOpen hSound.openError
    · exact Option.some_ne_none bytes (hFile.symm.trans hMissing)
  intro _ hThere
  cases hFile : p.file with
  | none => cases hThere hFile
  | some bytes =>
    have hStay : ∀ {p' : Process}, (h.Sound → ∀ size, ¬Resizes sizespec bytes size) →
        p'.file = some bytes → p'.file = some bytes ∧ (h.Sound → ∀ bytes' size,
          some bytes = some bytes' → ¬Resizes sizespec bytes' size) := by
      rintro p' hNone hSame
      refine ⟨hSame, fun hSound bytes' size hEq => ?_⟩
      obtain rfl := Option.some.inj hEq
      exact hNone hSound size
    dsimp only [Option.getD_some]
    rw [after_bind]
    apply after_doflock
    case hBad =>
      intro e p' hLock hSame
      exact .inl (hStay (fun hSound => absurd hSound.lockError hLock) hSame)
    intro _
    rw [after_bind]
    apply after_checkheader rfl
    case hBad =>
      refine fun e p' hWhy hSame => .inl (hStay (fun hSound size hSize => ?_) hSame)
      rcases hWhy with hRead | hOther
      · exact hRead hSound.readError
      · exact hOther hSize.image
    intro _ hImage
    rw [after_bind]
    apply after_dofstat
    case hBad =>
      intro e p' hStat hSame
      exact .inl (hStay (fun hSound => absurd hSound.fstatError hStat) hSame)
    intro _
    rw [after_bind]
    apply after_newsize
    case hBad =>
      refine fun e p' hNone hSame => .inl (hStay (fun _ size hSize => ?_) hSame)
      have hTarget := hSize.target
      rw [target, hGiven] at hTarget
      exact Option.some_ne_none size (hTarget.symm.trans hNone)
    intro new hNew
    rw [after_bind]
    apply after_checksize
    case hBad =>
      refine fun e p' hNot hSame => .inl (hStay (fun _ size hSize => ?_) hSame)
      have hTarget := hSize.target
      rw [target, hGiven] at hTarget
      obtain rfl : new = size := Option.some.inj (hNew.symm.trans hTarget)
      exact hNot hSize.fits
    intro hFits
    have hResizes : Resizes sizespec bytes new := by
      constructor
      · exact hImage
      · rw [target, hGiven]
        exact hNew
      · exact hFits
    rw [after_bind]
    apply after_dotruncate
    · have hLeast := hFits.least
      rw [headersize, sectorsize]
      omega
    case hBad =>
      intro e p' hTruncate hSame
      exact .inl (hStay (fun hSound => absurd hSound.truncateError hTruncate) hSame)
    intro _
    apply after_doflock
    · exact fun _ => ⟨bytes, new, rfl, hResizes, rfl⟩
    · exact fun e p' hUnlock hSame => .inr ⟨hUnlock, bytes, new, rfl, hResizes, hSame⟩

/-! ## Creating -/

/-- The bytes that come to be written. -/
def Host.room (h : Host) : Nat := if h.writeError.isSome then 0 else h.writeMost

theorem overwrite_start (bytes buf : List Byte) :
    overwrite bytes 0 buf = buf ++ bytes.drop buf.length := by
  rw [overwrite, List.take_zero, List.nil_append, Nat.zero_add]

theorem after_dowrite {Q : Unit → Process → Prop} {buf bytes : List Byte}
    (hFile : p.file = some bytes) (hStart : p.offset = 0)
    (hOk : ∀ p', buf.take h.room = buf → p'.file = some (overwrite bytes 0 buf) → Q () p')
    (hBad : ∀ e p', h.writeError ≠ none ∨ h.writeMost < buf.length →
      p'.file = some (overwrite bytes 0 (buf.take h.room)) → E e p') :
    After (dowrite h file buf) Q E p := by
  unfold dowrite Host.write
  rw [after_bind]
  cases hWrite : h.writeError with
  | some e =>
    rw [after_pure]
    apply after_die
    intro e' p' hSame
    apply hBad
    · exact .inl (by simp [hWrite])
    rw [hSame, hFile, Host.room, hWrite]
    rfl
  | none =>
    have hRoom : h.room = h.writeMost := by rw [Host.room, hWrite]; rfl
    have hBytes : overwrite (p.file.getD []) p.offset (buf.take h.writeMost) =
        overwrite bytes 0 (buf.take h.room) := by
      rw [hFile, hStart, hRoom]
      rfl
    change After (if (buf.take h.writeMost).length ≠ buf.length then _ else _) Q E
      { p with
        file := some (overwrite (p.file.getD []) p.offset (buf.take h.writeMost))
        offset := p.offset + (buf.take h.writeMost).length }
    rw [hBytes, after_ite]
    split
    · next hPart =>
      rw [List.length_take] at hPart
      exact after_die fun e p' => hBad e p' (.inr (by omega))
    · next hWhole =>
      have hAll : buf.take h.room = buf := by
        rw [hRoom]
        apply List.take_of_length_le
        rw [List.length_take] at hWhole
        omega
      rw [hAll]
      exact hOk _ hAll rfl

/-- The size that the file gets before a header is written. -/
structure Gets (h : Host) (sizespec : List Byte) (size : Int) : Prop where
  lockError : h.lockError = none
  given : sizeOf sizespec = some size
  fits : Fits size
  truncateError : h.truncateError = none

/-- An empty image with its header. -/
def blank (size : Int) : List Byte := overwrite (List.replicate (512 + size).toNat 0) 0 header

/-- One with what there is room for of the header. -/
def Host.leaves (h : Host) (size : Int) : List Byte :=
  overwrite (List.replicate (512 + size).toNat 0) 0 (header.take h.room)

theorem after_dolseek {Q : Unit → Process → Prop} {pos : Nat}
    (hOk : ∀ p', p'.file = p.file → p'.offset = pos ∨ p'.offset = p.offset → Q () p') :
    After (dolseek h file pos) Q E p := by
  unfold dolseek
  rw [after_bind]
  apply after_lseek
  · exact fun _ => hOk _ rfl (.inl rfl)
  · exact fun _ _ => hOk _ rfl (.inr rfl)

theorem after_writeheader {Q : Unit → Process → Prop} {bytes : List Byte}
    (hFile : p.file = some bytes) (hStart : p.offset = 0)
    (hOk : ∀ p', header.take h.room = header → p'.file = some (overwrite bytes 0 header) → Q () p')
    (hBad : ∀ e p', h.writeError ≠ none ∨ h.writeMost < header.length →
      p'.file = some (overwrite bytes 0 (header.take h.room)) → E e p') :
    After (writeheader h file) Q E p := by
  unfold writeheader
  rw [after_bind]
  apply after_dolseek
  intro p' hSame hOffset
  apply after_dowrite (hSame.trans hFile)
  · rcases hOffset with hZero | hOld
    · exact hZero
    · exact hOld.trans hStart
  · exact hOk
  · exact hBad

/-- What a `create` that fails has made of the file. -/
inductive Spoiled (h : Host) (sizespec : List Byte) (doforce : Bool) (p p' : Process) : Prop
  | refused (hForce : doforce = false) (hThere : p.file ≠ none) (hSame : p'.file = p.file)
  | unopened (hOpen : h.openError ≠ none) (hSame : p'.file = p.file)
  | emptied (hOpen : h.openError = none) (hNone : ∀ size, ¬Gets h sizespec size)
    (hEmpty : p'.file = some [])
  | unfinished (hOpen : h.openError = none) (size : Int) (hGets : Gets h sizespec size)
    (hWhy : (h.writeError ≠ none ∨ h.writeMost < header.length) ∨ h.unlockError ≠ none)
    (hLeft : p'.file = some (h.leaves size))

theorem after_docreate {sizespec : List Byte} {doforce : Bool} :
    After (docreate h file sizespec doforce)
      (fun _ p' => ∃ size, Gets h sizespec size ∧ p'.file = some (blank size))
      (fun _ p' => Spoiled h sizespec doforce p p') p := by
  unfold docreate
  rw [after_bind, after_get, after_ite]
  split
  · next hRefused =>
    have hThere : p.file ≠ none := Option.isSome_iff_ne_none.mp hRefused.2.1
    exact after_die fun e p' => .refused hRefused.1 hThere
  rw [after_bind]
  apply after_doopen
  case hBad =>
    intro e p' hWhy hSame
    rcases hWhy with hOpen | ⟨_, hCreat⟩
    · exact .unopened hOpen hSame
    · cases hCreat
  intro hOpen _
  rw [if_pos rfl, after_bind]
  apply after_doflock
  case hBad =>
    intro e p' hLock hSame
    exact .emptied hOpen (fun size hGets => hLock hGets.lockError) hSame
  intro hLock
  rw [after_bind]
  apply after_getsize
  case hBad =>
    intro e p' hNone hSame
    apply Spoiled.emptied hOpen _ hSame
    intro size hGets
    have hGiven := hGets.given
    rw [hNone] at hGiven
    cases hGiven
  intro size hSize
  rw [after_bind]
  apply after_checksize
  case hBad =>
    intro e p' hNot hSame
    apply Spoiled.emptied hOpen _ hSame
    intro size' hGets
    obtain rfl : size = size' := Option.some.inj (hSize.symm.trans hGets.given)
    exact hNot hGets.fits
  intro hFits
  rw [after_bind]
  apply after_dotruncate
  · have hLeast := hFits.least
    rw [headersize, sectorsize]
    omega
  case hBad =>
    intro e p' hTruncate hSame
    exact .emptied hOpen (fun size hGets => hTruncate hGets.truncateError) hSame
  intro hTruncate
  have hGets : Gets h sizespec size := ⟨hLock, hSize, hFits, hTruncate⟩
  have hZeros : resized [] (512 + size).toNat = List.replicate (512 + size).toNat 0 := by
    rw [resized, List.take_nil]
    rfl
  rw [after_bind]
  apply after_writeheader (congrArg some hZeros) rfl
  · intro p' hAll hWritten
    apply after_doflock
    · exact fun _ => ⟨size, hGets, hWritten⟩
    · intro e p'' hUnlock hSame
      apply Spoiled.unfinished hOpen size hGets (.inr hUnlock)
      rw [Host.leaves, hAll]
      exact hSame.trans hWritten
  · intro e p' hWhy hLeft
    exact .unfinished hOpen size hGets (.inl hWhy) hLeft

end Wrappers

end Sys161.Disk161
