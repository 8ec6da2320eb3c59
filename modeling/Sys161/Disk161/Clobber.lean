import Sys161.Disk161.Runs

/-!
# Creating over a file

The file is emptied when it is opened, before it is locked and before the size is
looked at.
-/

namespace Sys161.Disk161

open Exec CString

set_option autoImplicit false

variable {h : Host} {file : String} {sizespec bytes : List Byte} {p p' : Process} {e : Nat}

/-- The file cannot be opened, or is what a failure leaves of it already. -/
def Unspoiled (h : Host) (sizespec bytes : List Byte) : Prop :=
  h.openError ≠ none ∨ bytes = [] ∧ (∀ size, ¬Gets h sizespec size) ∨
    ∃ size, Gets h sizespec size ∧ bytes = h.leaves size

/-- A `create -f` that fails leaves a file as it was just when the file cannot be opened,
or has been empty, or is the blank image that the header was to be written to. -/
theorem create_all_or_nothing (hFile : p.file = some bytes)
    (hFail : (docreate h file sizespec true).run p = .error e p') :
    p'.file = p.file ↔ Unspoiled h sizespec bytes := by
  have hSpoiled := after_of_run_error after_docreate hFail
  unfold Unspoiled
  rw [hFile]
  cases hSpoiled with
  | refused hForce _ hSame => cases hForce
  | unopened hOpen hSame =>
    constructor
    · exact fun _ => .inl hOpen
    · exact fun _ => hSame.trans hFile
  | emptied hOpen hNone hEmpty =>
    rw [hEmpty]
    constructor
    · intro hSame
      exact .inr (.inl ⟨(Option.some.inj hSame).symm, hNone⟩)
    · rintro (hError | ⟨hBytes, _⟩ | ⟨size, hGets, _⟩)
      · exact absurd hOpen hError
      · rw [hBytes]
      · exact absurd hGets (hNone size)
  | unfinished hOpen size hGets _ hLeft =>
    rw [hLeft]
    constructor
    · intro hSame
      exact .inr (.inr ⟨size, hGets, (Option.some.inj hSame).symm⟩)
    · rintro (hError | ⟨_, hNone⟩ | ⟨size', hGets', hBytes⟩)
      · exact absurd hOpen hError
      · exact absurd hGets (hNone size)
      · obtain rfl : size = size' := Option.some.inj (hGets.given.symm.trans hGets'.given)
        rw [hBytes]

/-- A file of this name, with another process at it. -/
def held (bytes : List Byte) : Process where
  file := some bytes
  offset := 0
  stdout := []
  stderr := []

def lockedOut : Host := { lockError := some .again }

def readOnly : Host := { openError := some .io }

/-- A file that cannot be opened for writing keeps its header, and an empty one stays empty. -/
theorem create_all_or_nothing_kept :
    (∃ p', (docreate readOnly "DISK1.img" [ch '1', ch 'M'] true).run (held header) = .error 1 p' ∧
      p'.file = some header) ∧
    ∃ p', (docreate lockedOut "DISK1.img" [ch '1', ch 'M'] true).run (held []) = .error 1 p' ∧
      p'.file = some [] := by
  constructor
  · obtain ⟨p', hFail⟩ : ∃ p', (docreate readOnly "DISK1.img" [ch '1', ch 'M'] true).run
        (held header) = .error 1 p' := ⟨_, rfl⟩
    exact ⟨p', hFail, (create_all_or_nothing rfl hFail).mpr (.inl (by decide))⟩
  · obtain ⟨p', hFail⟩ : ∃ p', (docreate lockedOut "DISK1.img" [ch '1', ch 'M'] true).run
        (held []) = .error 1 p' := ⟨_, rfl⟩
    refine ⟨p', hFail, (create_all_or_nothing rfl hFail).mpr (.inr (.inl ⟨rfl, ?_⟩))⟩
    intro size hGets
    exact absurd hGets.lockError (by decide)

/-- The image of a simulator that is running. -/
theorem not_create_all_or_nothing : ¬∀ h file sizespec p p' e bytes, p.file = some bytes →
    (docreate h file sizespec true).run p = .error e p' → p'.file = p.file := by
  intro hAll
  have hSame := hAll lockedOut "DISK1.img" [ch '1', ch 'M'] (held header) _ _ header rfl rfl
  cases hSame

end Sys161.Disk161
