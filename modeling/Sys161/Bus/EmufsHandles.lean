import Sys161.Bus.EmufsOps
import Mathlib.Data.List.FinRange

/-!
# The handle table of the emulator filesystem device

An operation that looks up its handle is safe in every state of the table. The three
that open do not look it up first; what they need instead is said exactly.
-/

namespace Sys161.Bus

open Exec

set_option autoImplicit false

/-! ## Looking into the table -/

def Emufs.Open (ed : Emufs) (i : Fin maxhandles) : Prop := 0 ≤ (ed.edHandles i).ehFd

/-- The handle register holds an open handle. -/
def Emufs.ValidHandle (ed : Emufs) : Prop :=
  ∃ i : Fin maxhandles, ed.edHandle.toNat = i.val ∧ ed.Open i

/-- The file is open already. -/
def Emufs.Has (ed : Emufs) (file : Ident) : Prop :=
  ∃ i, ed.Open i ∧ (ed.edHandles i).ehIdent = file

def Emufs.Full (ed : Emufs) : Prop := ∀ i, ed.Open i

section After

variable {α : Type} {Q : α → Session → Prop} {E : EmufsFailure → Session → Prop} {s : Session}

@[simp] theorem after_modEd {Q : Unit → Session → Prop} (f : Emufs → Emufs) :
    After (modEd f) Q E s ↔ Q () { s with ed := f s.ed } := Iff.rfl

@[simp] theorem after_logFd {Q : Unit → Session → Prop} (e : FdEvent) :
    After (logFd e) Q E s ↔ Q () { s with fds := s.fds ++ [e] } := Iff.rfl

@[simp] theorem after_openDot {Q : Unit → Session → Prop} (fd : Nat) :
    After (openDot fd) Q E s ↔
      Q () { s with fds := s.fds ++ [.opened fd none], host := s.host.openDot fd } := Iff.rfl

@[simp] theorem after_closeDot {Q : Unit → Session → Prop} (fd : Nat) :
    After (closeDot fd) Q E s ↔
      Q () { s with fds := s.fds ++ [.closed fd], host := s.host.close fd } := Iff.rfl

@[simp] theorem after_enterDir {Q : Unit → Session → Prop} (fd : Int) :
    After (enterDir fd) Q E s ↔ Q () { s with host := s.host.fchdir fd } := Iff.rfl

/-- The host's directories when `emufs_readdir` has been left. -/
def Answers.left (a : Answers) (herefd : Nat) (host : HostDirs) : HostDirs :=
  match a.back with
  | .error _ => host.close herefd
  | .ok _ => (host.fchdir herefd).close herefd

theorem after_leaveDir {Q : Unit → Session → Prop} (a : Answers) (herefd : Nat) :
    After (leaveDir a herefd) Q E s ↔
      Q () { s with fds := s.fds ++ [.closed herefd], host := a.left herefd s.host } := by
  rw [leaveDir, Answers.left]
  cases a.back with
  | error err => exact Iff.rfl
  | ok u => exact Iff.rfl

theorem after_handleAt {Q : Handleinfo → Session → Prop} (i : Fin maxhandles) :
    After (handleAt (i.val : Int)) Q E s ↔ Q (s.ed.edHandles i) s := by
  have h : (i.val : Int).toNat < maxhandles ∧ 0 ≤ (i.val : Int) := ⟨i.isLt, Int.natCast_nonneg _⟩
  rw [handleAt, after_bind, after_get, dif_pos h, after_pure]
  rfl

theorem after_handleAt_outside {Q : Handleinfo → Session → Prop} {n : Nat} (h : maxhandles ≤ n) :
    After (handleAt (n : Int)) Q E s ↔ E (.outside n) s := by
  have hNot : ¬((n : Int).toNat < maxhandles ∧ 0 ≤ (n : Int)) := fun hIn => absurd hIn.1 (by omega)
  rw [handleAt, after_bind, after_get, dif_neg hNot, after_throw]

theorem after_setHandle {Q : Unit → Session → Prop} (i : Fin maxhandles)
    (f : Handleinfo → Handleinfo) :
    After (setHandle (i.val : Int) f) Q E s ↔ Q () { s with ed := s.ed.setHandle i f } := by
  have h : (i.val : Int).toNat < maxhandles ∧ 0 ≤ (i.val : Int) := ⟨i.isLt, Int.natCast_nonneg _⟩
  rw [setHandle, dif_pos h, after_modEd]
  rfl

theorem after_setHandle_neg {Q : Unit → Session → Prop} (f : Handleinfo → Handleinfo) :
    After (setHandle (-1) f) Q E s ↔ E (.outside (-1)) s := by
  rw [setHandle, dif_neg (by omega), after_throw]

/-- The account of a descriptor of the table that goes to the host. -/
def Session.use (s : Session) (fd : Int) : Session := { s with used := s.used ++ [fd] }

theorem after_useHandle {Q : Int → Session → Prop} {i : Fin maxhandles}
    (h : s.ed.edHandle.toNat = i.val) :
    After useHandle Q E s ↔ Q (s.ed.edHandles i).ehFd (s.use (s.ed.edHandles i).ehFd) := by
  rw [useHandle, after_bind, after_get, h, after_bind, after_handleAt, after_bind, after_modify,
    after_pure]
  rfl

theorem after_useHandle_outside {Q : Int → Session → Prop}
    (h : maxhandles ≤ s.ed.edHandle.toNat) :
    After useHandle Q E s ↔ E (.outside s.ed.edHandle.toNat) s := by
  rw [useHandle, after_bind, after_get, after_bind, after_handleAt_outside h]

end After

/-! ## Picking a handle -/

/-- What the loop of `pickhandle` has found at its end. -/
def FoundIn (handles : Fin maxhandles → Handleinfo) (file : Ident) (l : List (Fin maxhandles))
    (empty : Option (Fin maxhandles)) : Fin maxhandles ⊕ Option (Fin maxhandles) → Prop
  | .inl i => 0 ≤ (handles i).ehFd ∧ (handles i).ehIdent = file
  | .inr found => (∀ i ∈ l, 0 ≤ (handles i).ehFd → (handles i).ehIdent ≠ file) ∧
    (∀ i, found = some i → empty = some i ∨ (handles i).ehFd < 0) ∧
    (found = none → empty = none ∧ ∀ i ∈ l, 0 ≤ (handles i).ehFd)

theorem findHandle_spec (handles : Fin maxhandles → Handleinfo) (file : Ident)
    (l : List (Fin maxhandles)) (empty : Option (Fin maxhandles)) :
    FoundIn handles file l empty (findHandle handles file l empty) := by
  induction l generalizing empty with
  | nil =>
    refine ⟨?_, fun i hi => Or.inl hi, fun hNone => ⟨hNone, ?_⟩⟩
    · intro i hi
      cases hi
    · intro i hi
      cases hi
  | cons j l ih =>
    by_cases hClosed : (handles j).ehFd < 0
    · rw [findHandle, if_pos hClosed]
      have hRest := ih (empty.or (some j))
      cases hFind : findHandle handles file l (empty.or (some j)) with
      | inl i =>
        rw [hFind] at hRest
        exact hRest
      | inr found =>
        rw [hFind] at hRest
        obtain ⟨hNone, hSome, hFull⟩ := hRest
        refine ⟨?_, ?_, ?_⟩
        · intro i hi hOpen
          rcases List.mem_cons.mp hi with rfl | hi
          · omega
          · exact hNone i hi hOpen
        · intro i hi
          rcases hSome i hi with hOr | hClosed'
          · cases empty with
            | none =>
              cases hOr
              exact Or.inr hClosed
            | some k => exact Or.inl hOr
          · exact Or.inr hClosed'
        · intro hFound
          have hOr := (hFull hFound).1
          cases empty <;> cases hOr
    · rw [findHandle, if_neg hClosed]
      by_cases hFile : (handles j).ehIdent = file
      · rw [if_pos hFile]
        exact ⟨not_lt.mp hClosed, hFile⟩
      · rw [if_neg hFile]
        have hRest := ih empty
        cases hFind : findHandle handles file l empty with
        | inl i =>
          rw [hFind] at hRest
          exact hRest
        | inr found =>
          rw [hFind] at hRest
          obtain ⟨hNone, hSome, hFull⟩ := hRest
          refine ⟨?_, hSome, fun hFound => ⟨(hFull hFound).1, ?_⟩⟩
          · intro i hi hOpen
            rcases List.mem_cons.mp hi with rfl | hi
            · exact hFile
            · exact hNone i hi hOpen
          · intro i hi
            rcases List.mem_cons.mp hi with rfl | hi
            · exact not_lt.mp hClosed
            · exact (hFull hFound).2 i hi

/-- A slot that is not open takes the identity before anything is open in it. -/
def Emufs.claim (ed : Emufs) (i : Fin maxhandles) (file : Ident) : Emufs :=
  ed.setHandle i fun eh => { eh with ehIdent := file }

/-- `pickhandle` where the file is open already, where a slot is free, and where none is. -/
theorem after_pickhandle_cases (file : Ident) (s : Session) :
    (∃ i, s.ed.Open i ∧ (s.ed.edHandles i).ehIdent = file ∧
      ∀ Q E, After (pickhandle file) Q E s ↔ Q (i.val : Int) s) ∨
    (¬ s.ed.Has file ∧ ∃ i, ¬ s.ed.Open i ∧ ∀ Q E, After (pickhandle file) Q E s ↔
      Q (i.val : Int) { s with ed := s.ed.claim i file }) ∨
    (¬ s.ed.Has file ∧ s.ed.Full ∧
      ∀ Q E, After (pickhandle file) Q E s ↔ E (.outside (-1)) s) := by
  have hFound := findHandle_spec s.ed.edHandles file (List.finRange maxhandles) none
  cases hFind : findHandle s.ed.edHandles file (List.finRange maxhandles) none with
  | inl i =>
    rw [hFind] at hFound
    refine Or.inl ⟨i, hFound.1, hFound.2, fun Q E => ?_⟩
    rw [pickhandle, after_bind, after_get, hFind, after_pure]
  | inr found =>
    rw [hFind] at hFound
    obtain ⟨hNone, hSome, hFull⟩ := hFound
    have hHas : ¬ s.ed.Has file := by
      rintro ⟨i, hOpen, hFile⟩
      exact hNone i (List.mem_finRange i) hOpen hFile
    cases found with
    | none =>
      refine Or.inr (Or.inr ⟨hHas, fun i => (hFull rfl).2 i (List.mem_finRange i), fun Q E => ?_⟩)
      rw [pickhandle, after_bind, after_get, hFind, after_bind, after_setHandle_neg]
    | some i =>
      have hClosed : (s.ed.edHandles i).ehFd < 0 := by
        rcases hSome i rfl with hEmpty | hClosed
        · cases hEmpty
        · exact hClosed
      refine Or.inr (Or.inl ⟨hHas, i, not_le.mpr hClosed, fun Q E => ?_⟩)
      rw [pickhandle, after_bind, after_get, hFind, after_bind, after_setHandle, after_pure]
      rfl

/-! ## Opening -/

/-- The open part of the table is the same. -/
structure Emufs.SameOpen (ed ed' : Emufs) : Prop where
  fd : ∀ i, (ed'.edHandles i).ehFd = (ed.edHandles i).ehFd
  ident : ∀ i, ed.Open i → (ed'.edHandles i).ehIdent = (ed.edHandles i).ehIdent

theorem claim_sameOpen {ed : Emufs} {i : Fin maxhandles} (h : ¬ ed.Open i) (file : Ident) :
    ed.SameOpen (ed.claim i file) where
  fd j := by
    by_cases hj : j = i
    · subst hj
      simp [Emufs.claim, Emufs.setHandle]
    · simp [Emufs.claim, Emufs.setHandle, hj]
  ident j hOpen := by
    have hj : j ≠ i := by
      rintro rfl
      exact h hOpen
    simp [Emufs.claim, Emufs.setHandle, hj]

theorem Emufs.SameOpen.open_iff {ed ed' : Emufs} (h : ed.SameOpen ed') (i : Fin maxhandles) :
    ed'.Open i ↔ ed.Open i := by
  rw [Emufs.Open, Emufs.Open, h.fd]

theorem Emufs.SameOpen.has_iff {ed ed' : Emufs} (h : ed.SameOpen ed') (file : Ident) :
    ed'.Has file ↔ ed.Has file := by
  refine exists_congr fun i => ?_
  rw [h.open_iff]
  exact and_congr_right fun hOpen => by rw [h.ident i hOpen]

theorem after_openAndStat_open {Q : Except (BitVec 32) (Ident × Nat) → Session → Prop}
    {E : EmufsFailure → Session → Prop} {s : Session} {a : Answers} {n fd : Nat} {st : HostStat}
    (h : a.opens n = .ok (fd, .ok st)) : After (emufsOpenAndStat a n) Q E s ↔
      Q (.ok (st.ident, fd)) { s with fds := s.fds ++ [.opened fd (some st.ident)] } := by
  rw [emufsOpenAndStat, h]
  exact Iff.rfl

/-- What the file is that the n-th open gives, if it gives one. -/
def Answers.found (a : Answers) (n : Nat) : Option Ident :=
  match a.opens n with
  | .ok (_, .ok st) => some st.ident
  | _ => none

/-- The account after an open that failed, or that was given up at once. -/
def Session.NoneLeft (s : Session) (fds : List FdEvent) : Prop :=
  fds = s.fds ∨ ∃ fd : Nat, fds = s.fds ++ [.opened fd none] ++ [.closed fd]

theorem after_openAndStat_none {Q : Except (BitVec 32) (Ident × Nat) → Session → Prop}
    {E : EmufsFailure → Session → Prop} {s : Session} {a : Answers} {n : Nat}
    (h : a.found n = none)
    (hQ : ∀ err fds, s.NoneLeft fds → Q (.error (errnoToCode err)) { s with fds := fds }) :
    After (emufsOpenAndStat a n) Q E s := by
  rw [Answers.found] at h
  rw [emufsOpenAndStat]
  cases hOpens : a.opens n with
  | error err => exact hQ err s.fds (Or.inl rfl)
  | ok p =>
    obtain ⟨fd, st⟩ := p
    cases st with
    | error err => exact hQ err (s.fds ++ [.opened fd none] ++ [.closed fd]) (Or.inr ⟨fd, rfl⟩)
    | ok st =>
      rw [hOpens] at h
      cases h

theorem exists_open_of_found {a : Answers} {n : Nat} {file : Ident} (h : a.found n = some file) :
    ∃ fd st, a.opens n = .ok (fd, .ok st) ∧ st.ident = file := by
  rw [Answers.found] at h
  split at h
  · next fd st hOpens => exact ⟨fd, st, hOpens, Option.some.inj h⟩
  · cases h

/-- For `k` turns of the loop from the n-th on, each open gives another file than the one before
it, and none that is open already. -/
def Emufs.ChangesFor (ed : Emufs) (a : Answers) : Nat → Nat → Ident → Prop
  | 0, _, _ => True
  | k + 1, n, expected => ¬ ed.Has expected ∧ ∃ file, a.found n = some file ∧ file ≠ expected ∧
      ed.ChangesFor a k (n + 1) file

theorem Emufs.SameOpen.changesFor_iff {ed ed' : Emufs} (h : ed.SameOpen ed') (a : Answers)
    (k n : Nat) (expected : Ident) :
    ed'.ChangesFor a k n expected ↔ ed.ChangesFor a k n expected := by
  induction k generalizing n expected with
  | zero => exact Iff.rfl
  | succ k ih =>
    simp only [Emufs.ChangesFor, h.has_iff, ih]

/-- A turn of the loop of `emufs_open_existing`. -/
theorem after_openExisting {Q : Except (BitVec 32) Int → Session → Prop}
    {E : EmufsFailure → Session → Prop} {s : Session} {a : Answers} {fuel n : Nat} {expected : Ident}
    (hOut : ¬ s.ed.Has expected → s.ed.Full → E (.outside (-1)) s)
    (hHas : ∀ i, s.ed.Open i → (s.ed.edHandles i).ehIdent = expected → Q (.ok i.val) s)
    (hFail : ∀ i err fds, ¬ s.ed.Open i → ¬ s.ed.Has expected → a.found n = none → s.NoneLeft fds →
      Q (.error (errnoToCode err)) { s with ed := s.ed.claim i expected, fds := fds })
    (hOpen : ∀ i fd st, ¬ s.ed.Open i → ¬ s.ed.Has expected → a.opens n = .ok (fd, .ok st) →
      st.ident = expected → Q (.ok i.val) { s with
        ed := (s.ed.claim i expected).setHandle i fun eh => { eh with ehFd := fd }
        fds := s.fds ++ [.opened fd (some st.ident)] })
    (hAgain : ∀ i fd st, ¬ s.ed.Open i → ¬ s.ed.Has expected → a.opens n = .ok (fd, .ok st) →
      st.ident ≠ expected → After (emufsOpenExisting a fuel (n + 1) st.ident) Q E { s with
        ed := s.ed.claim i expected
        fds := s.fds ++ [.opened fd (some st.ident)] ++ [.closed fd] }) :
    After (emufsOpenExisting a (fuel + 1) n expected) Q E s := by
  have hNat (i : Fin maxhandles) : ¬ ((i.val : Int) < 0) := by omega
  rw [emufsOpenExisting, after_bind]
  rcases after_pickhandle_cases expected s with ⟨i, hi, hFile, hPick⟩ | ⟨hNot, i, hi, hPick⟩ |
    ⟨hNot, hFull, hPick⟩
  · rw [hPick, after_ite, if_neg (hNat i), after_bind, after_handleAt, after_ite,
      if_pos (show 0 ≤ (s.ed.edHandles i).ehFd from hi), after_pure]
    exact hHas i hi hFile
  · have hFd : ((s.ed.claim i expected).edHandles i).ehFd = (s.ed.edHandles i).ehFd :=
      (claim_sameOpen hi expected).fd i
    have hClosed : ¬ 0 ≤ ((s.ed.claim i expected).edHandles i).ehFd := by
      rw [hFd]
      exact hi
    rw [hPick, after_ite, if_neg (hNat i), after_bind, after_handleAt, after_ite, if_neg hClosed,
      after_bind]
    cases hFound : a.found n with
    | none =>
      refine after_openAndStat_none hFound fun err fds hFds => ?_
      exact hFail i err fds hi hNot hFound hFds
    | some file =>
      obtain ⟨fd, st, hOpens, rfl⟩ := exists_open_of_found hFound
      rw [after_openAndStat_open hOpens, after_ite]
      by_cases hSame : st.ident = expected
      · rw [if_pos hSame, after_bind, after_setHandle, after_pure]
        exact hOpen i fd st hi hNot hOpens hSame
      · rw [if_neg hSame, after_bind, after_logFd]
        exact hAgain i fd st hi hNot hOpens hSame
  · rw [hPick]
    exact hOut hNot hFull

theorem absurd_room {ed : Emufs} {file : Ident} {P : Prop} (hRoom : ed.Has file ∨ ¬ ed.Full)
    (hNot : ¬ ed.Has file) (hFull : ed.Full) : P :=
  (hRoom.elim hNot fun hNotFull => hNotFull hFull).elim

theorem Emufs.SameOpen.full_iff {ed ed' : Emufs} (h : ed.SameOpen ed') : ed'.Full ↔ ed.Full :=
  forall_congr' h.open_iff

/-- Unless it goes on for ever, the loop ends in a status or in a handle. -/
theorem openExisting_safe {s : Session} {a : Answers} (fuel n : Nat) {expected : Ident}
    (hRoom : s.ed.Has expected ∨ ¬ s.ed.Full) :
    After (emufsOpenExisting a fuel n expected)
      (fun status t => t.used = s.used ∧ ∀ handle, status = .ok handle → 0 ≤ handle)
      (fun e _ => e = .changing) s := by
  induction fuel generalizing n expected s with
  | zero => exact rfl
  | succ fuel ih =>
    apply after_openExisting (absurd_room hRoom)
    · intro i _ _
      exact ⟨rfl, fun handle h => by cases h; omega⟩
    · intro i err fds _ _ _ _
      exact ⟨rfl, fun handle h => by cases h⟩
    · intro i fd st _ _ _ _
      exact ⟨rfl, fun handle h => by cases h; omega⟩
    · intro i fd st hi _ _ _
      apply ih
      right
      rw [(claim_sameOpen hi expected).full_iff]
      exact fun hFull => hi (hFull i)

theorem openExisting_changing {s : Session} {a : Answers} {fuel n : Nat} {expected : Ident}
    (hRoom : s.ed.Has expected ∨ ¬ s.ed.Full) (hChanges : s.ed.ChangesFor a fuel n expected) :
    After (emufsOpenExisting a fuel n expected) (fun _ _ => False) (fun e _ => e = .changing) s := by
  induction fuel generalizing n expected s with
  | zero => exact rfl
  | succ fuel ih =>
    obtain ⟨hNot, file, hFound, hNe, hRest⟩ := hChanges
    apply after_openExisting (absurd_room hRoom)
    · intro i hi hFile
      exact hNot ⟨i, hi, hFile⟩
    · intro i err fds _ _ hNone _
      rw [hFound] at hNone
      cases hNone
    · intro i fd st _ _ hOpens hSame
      rw [Answers.found, hOpens] at hFound
      exact hNe ((Option.some.inj hFound).symm.trans hSame)
    · intro i fd st hi _ hOpens _
      rw [Answers.found, hOpens] at hFound
      have hSame := claim_sameOpen hi expected
      apply ih
      · right
        rw [hSame.full_iff]
        exact fun hFull => hi (hFull i)
      · rw [hSame.changesFor_iff, Option.some.inj hFound]
        exact hRest

theorem openExisting_returns {s : Session} {a : Answers} {fuel n : Nat} {expected : Ident}
    (hRoom : s.ed.Has expected ∨ ¬ s.ed.Full) (hEnds : ¬ s.ed.ChangesFor a fuel n expected) :
    After (emufsOpenExisting a fuel n expected)
      (fun status _ => ∀ handle, status = .ok handle → 0 ≤ handle) (fun _ _ => False) s := by
  induction fuel generalizing n expected s with
  | zero => exact (hEnds trivial).elim
  | succ fuel ih =>
    apply after_openExisting (absurd_room hRoom)
    · intro i _ _ handle h
      cases h
      omega
    · intro i err fds _ _ _ _ handle h
      cases h
    · intro i fd st _ _ _ _ handle h
      cases h
      omega
    · intro i fd st hi hNot hOpens hNe
      have hSame := claim_sameOpen hi expected
      apply ih
      · right
        rw [hSame.full_iff]
        exact fun hFull => hi (hFull i)
      · rw [hSame.changesFor_iff]
        intro hRest
        refine hEnds ⟨hNot, st.ident, ?_, hNe, hRest⟩
        rw [Answers.found, hOpens]

/-- `emufs_open_create` needs a slot only for a file that is not open. -/
theorem openCreate_safe {s : Session} {a : Answers}
    (hRoom : ∀ file, a.found 0 = some file → s.ed.Has file ∨ ¬ s.ed.Full) :
    After (emufsOpenCreate a)
      (fun status t => t.used = s.used ∧ ∀ handle, status = .ok handle → 0 ≤ handle)
      (fun _ _ => False) s := by
  have hNat (i : Fin maxhandles) : ¬ ((i.val : Int) < 0) := by omega
  rw [emufsOpenCreate, after_bind]
  cases hFound : a.found 0 with
  | none =>
    refine after_openAndStat_none hFound fun err fds _ => ?_
    exact ⟨rfl, fun handle h => by cases h⟩
  | some file =>
    have hRoom' := hRoom file hFound
    obtain ⟨fd, st, hOpens, rfl⟩ := exists_open_of_found hFound
    rw [after_openAndStat_open hOpens, after_bind]
    rcases after_pickhandle_cases st.ident { s with fds := s.fds ++ [.opened fd (some st.ident)] }
      with ⟨i, hi, -, hPick⟩ | ⟨-, i, hi, hPick⟩ | ⟨hNot, hFull, -⟩
    · rw [hPick, after_ite, if_neg (hNat i), after_bind, after_handleAt]
      have hOpen : 0 ≤ (s.ed.edHandles i).ehFd := hi
      rw [if_pos hOpen, after_bind, after_logFd, after_pure]
      exact ⟨rfl, fun handle h => by cases h; omega⟩
    · have hFd : ((s.ed.claim i st.ident).edHandles i).ehFd = (s.ed.edHandles i).ehFd :=
        (claim_sameOpen hi st.ident).fd i
      have hClosed : ¬ 0 ≤ ((s.ed.claim i st.ident).edHandles i).ehFd := by
        rw [hFd]
        exact hi
      rw [hPick, after_ite, if_neg (hNat i), after_bind, after_handleAt]
      rw [if_neg hClosed, after_bind, after_setHandle, after_pure]
      exact ⟨rfl, fun handle h => by cases h; omega⟩
    · exact absurd_room hRoom' hNot hFull

/-! ## When an operation is safe -/

/-- The three operations that do not look up their handle first. -/
def Opens (op : BitVec 32) : Prop := op = emuOpOpen ∨ op = emuOpCreate ∨ op = emuOpExclcreate

/-- The file that is to be opened needs a slot, and none is free. -/
def Emufs.NeedsSlot (ed : Emufs) (a : Answers) (op : BitVec 32) : Prop :=
  Opens op ∧ ed.edIolen.toNat < emuBufSize ∧ ed.ValidHandle ∧ ed.Full ∧
    match a.stat with
    | .ok st => ¬ ed.Has st.ident
    | .error _ => op ≠ emuOpOpen ∧ ∃ file, a.found 0 = some file ∧ ¬ ed.Has file

/-- The host gives the path another new file each time, for ever. -/
def Emufs.KeepsChanging (ed : Emufs) (a : Answers) : Prop :=
  ∃ st, a.stat = .ok st ∧ ∀ k, ed.ChangesFor a k 0 st.ident

/-- What the result of an operation has to be, and the descriptors it may have used. -/
structure Proper (ed : Emufs) (a : Answers) (op res : BitVec 32) (t : Session) : Prop where
  used : ∀ fd ∈ t.used, 0 ≤ fd
  badhandle : ¬ ed.ValidHandle → res = emuResBadhandle
  nohandles : ed.NeedsSlot a op → res = emuResNohandles
  notdir : Opens op ∨ op = emuOpReaddir → (∃ err, a.enter = .error err) → res ≠ emuResSuccess

/-- An operation comes to its end without aborting the emulator or leaving the table, and with a
proper result, unless the host never lets it end. -/
def Safe (s : Session) (a : Answers) (op : BitVec 32) : Prop :=
  ∀ fuel, After (emufsOp a fuel op) (Proper s.ed a op) (fun e _ => e = .changing)
    { s with used := [] }

/-- What the three operations need: an open handle, and for a path that fits the buffer a handle
that is a directory, a way back, and a slot. -/
def Emufs.Orderly (ed : Emufs) (a : Answers) (op : BitVec 32) : Prop :=
  Opens op → ed.ValidHandle ∧ (ed.edIolen.toNat < emuBufSize →
    (∃ fd, a.dot = .ok fd) ∧ a.enter = .ok () ∧ ¬ ed.NeedsSlot a op ∧
      (a.back = .ok () ∨ ed.KeepsChanging a))

theorem after_emufsOp_open {Q : BitVec 32 → Session → Prop} {E : EmufsFailure → Session → Prop}
    {s : Session} {a : Answers} {fuel : Nat} {op : BitVec 32} (hOp : Opens op) :
    After (emufsOp a fuel op) Q E s ↔ After (emufsOpen a fuel (decide (op ≠ emuOpOpen))) Q E s := by
  rcases hOp with rfl | rfl | rfl
  · exact Iff.rfl
  · exact Iff.rfl
  · exact Iff.rfl

/-- Before the path is looked at. -/
def Session.entered (s : Session) (i : Fin maxhandles) (oldfd : Nat) : Session where
  ed := { s.ed with edBuf := Function.update s.ed.edBuf s.ed.edIolen.toNat 0 }
  fds := s.fds ++ [.opened oldfd none]
  used := s.used ++ [(s.ed.edHandles i).ehFd]
  host := (s.host.openDot oldfd).fchdir (s.ed.edHandles i).ehFd

/-- Back in the directory that was left. -/
def Session.back (s : Session) (oldfd : Nat) : Session :=
  { s with fds := s.fds ++ [.closed oldfd], host := (s.host.fchdir oldfd).close oldfd }

/-- The part of `emufs_open` between the two changes of directory. -/
def emufsOpenHere (a : Answers) (fuel : Nat) (creating : Bool) (curdir : Nat) : EmufsM (BitVec 32) :=
  match a.stat with
  | .error err =>
    if !creating then do
      popdir a curdir
      return errnoToCode err
    else do
      let status ← emufsOpenCreate a
      emufsOpened a curdir false status
  | .ok st => do
    let status ← emufsOpenExisting a fuel 0 st.ident
    emufsOpened a curdir st.isDir status

section After

variable {Q : BitVec 32 → Session → Prop} {E : EmufsFailure → Session → Prop} {s : Session}
  {a : Answers} {fuel : Nat} {creating : Bool}

theorem after_emufsOpen_long (h : emuBufSize ≤ s.ed.edIolen.toNat) :
    After (emufsOpen a fuel creating) Q E s ↔ Q emuResBadsize s := by
  rw [emufsOpen, after_bind, after_get, after_ite, if_pos h, after_pure]

theorem after_emufsOpen_outside (h : s.ed.edIolen.toNat < emuBufSize)
    (hHandle : maxhandles ≤ s.ed.edHandle.toNat) : After (emufsOpen a fuel creating) Q E s ↔
      E (.outside s.ed.edHandle.toNat) { s with
        ed := { s.ed with edBuf := Function.update s.ed.edBuf s.ed.edIolen.toNat 0 } } := by
  rw [emufsOpen, after_bind, after_get, after_ite, if_neg (not_le.mpr h), after_bind, after_modEd,
    after_bind, pushdir, after_bind]
  exact after_useHandle_outside hHandle

theorem after_emufsOpen (h : s.ed.edIolen.toNat < emuBufSize) {i : Fin maxhandles}
    (hHandle : s.ed.edHandle.toNat = i.val) : After (emufsOpen a fuel creating) Q E s ↔
      match a.dot, a.fchdir (s.ed.edHandles i).ehFd with
      | .error _, _ => E (.smoke ".") { s.entered i 0 with fds := s.fds, host := s.host }
      | .ok oldfd, .error _ =>
        E (.smoke "emufs: fchdir") { s.entered i oldfd with host := s.host.openDot oldfd }
      | .ok oldfd, .ok _ => After (emufsOpenHere a fuel creating oldfd) Q E (s.entered i oldfd) := by
  rw [emufsOpen, after_bind, after_get, after_ite, if_neg (not_le.mpr h), after_bind, after_modEd,
    after_bind, pushdir, after_bind]
  refine (after_useHandle (s := { s with
    ed := { s.ed with edBuf := Function.update s.ed.edBuf s.ed.edIolen.toNat 0 } }) hHandle).trans ?_
  cases hDot : a.dot with
  | error err => exact Iff.rfl
  | ok oldfd =>
    rw [after_bind, after_openDot]
    dsimp only
    cases hEnter : a.fchdir (s.ed.edHandles i).ehFd with
    | error err => exact Iff.rfl
    | ok u => exact Iff.rfl

theorem after_popdir {Q : Unit → Session → Prop} {oldfd : Nat} (h : a.back = .ok ()) :
    After (popdir a oldfd) Q E s ↔ Q () (s.back oldfd) := by
  rw [popdir, h]
  exact Iff.rfl

theorem after_popdir_error {Q : Unit → Session → Prop} {oldfd : Nat} {err : Errno}
    (h : a.back = .error err) :
    After (popdir a oldfd) Q E s ↔ E (.smoke "emufs: fchdir [back]") s := by
  rw [popdir, h]
  exact Iff.rfl

theorem after_emufsOpened_error {curdir : Nat} {isdir : Bool} {status : BitVec 32}
    (h : a.back = .ok ()) : After (emufsOpened a curdir isdir (.error status)) Q E s ↔
      Q status (s.back curdir) := by
  rw [emufsOpened, after_bind, after_popdir h, after_pure]

theorem after_emufsOpened_ok {curdir : Nat} {isdir : Bool} {handle : Int} (hHandle : 0 ≤ handle)
    (h : a.back = .ok ()) : After (emufsOpened a curdir isdir (.ok handle)) Q E s ↔
      Q emuResSuccess { s.back curdir with
        ed := { s.ed with
          edHandle := BitVec.ofInt 32 handle
          edIolen := if isdir then 1 else 0 } } := by
  rw [emufsOpened, if_neg (not_lt.mpr hHandle)]
  show After (do popdir a curdir; _) Q E s ↔ _
  rw [after_bind, after_popdir h, after_bind, after_modEd, after_pure]
  rfl

theorem after_emufsOpened_stuck {curdir : Nat} {isdir : Bool}
    {status : Except (BitVec 32) Int} (hHandle : ∀ handle, status = .ok handle → 0 ≤ handle)
    {err : Errno} (h : a.back = .error err) : After (emufsOpened a curdir isdir status) Q E s ↔
      E (.smoke "emufs: fchdir [back]") s := by
  cases status with
  | error code => rw [emufsOpened, after_bind, after_popdir_error h]
  | ok handle =>
    rw [emufsOpened, if_neg (not_lt.mpr (hHandle handle rfl))]
    show After (do popdir a curdir; _) Q E s ↔ _
    rw [after_bind, after_popdir_error h]

end After

/-- The slots that the path can need. -/
def Emufs.Room (ed : Emufs) (a : Answers) (creating : Bool) : Prop :=
  match a.stat with
  | .ok st => ed.Has st.ident ∨ ¬ ed.Full
  | .error _ => creating = true → ∀ file, a.found 0 = some file → ed.Has file ∨ ¬ ed.Full

variable {s : Session} {a : Answers} {creating : Bool} {oldfd : Nat}

theorem openHere_safe (hRoom : s.ed.Room a creating) (hBack : a.back = .ok ()) (fuel : Nat) :
    After (emufsOpenHere a fuel creating oldfd) (fun _ t => t.used = s.used)
      (fun e _ => e = .changing) s := by
  have hOpened {t : Session} {isdir : Bool} {status : Except (BitVec 32) Int}
      (ht : t.used = s.used ∧ ∀ handle, status = .ok handle → 0 ≤ handle) :
      After (emufsOpened a oldfd isdir status) (fun _ t => t.used = s.used)
        (fun e _ => e = .changing) t := by
    cases status with
    | error code =>
      rw [after_emufsOpened_error hBack]
      exact ht.1
    | ok handle =>
      rw [after_emufsOpened_ok (ht.2 handle rfl) hBack]
      exact ht.1
  rw [emufsOpenHere]
  rw [Emufs.Room] at hRoom
  cases hStat : a.stat with
  | error err =>
    rw [hStat] at hRoom
    cases creating with
    | false =>
      show After (do popdir a oldfd; pure (errnoToCode err)) _ _ s
      rw [after_bind, after_popdir hBack, after_pure]
      rfl
    | true =>
      show After (do let status ← emufsOpenCreate a; emufsOpened a oldfd false status) _ _ s
      rw [after_bind]
      exact (openCreate_safe (hRoom rfl)).mono (fun status t ht => hOpened ht) fun e t he => he.elim
  | ok st =>
    rw [hStat] at hRoom
    show After (do
      let status ← emufsOpenExisting a fuel 0 st.ident
      emufsOpened a oldfd st.isDir status) _ _ s
    rw [after_bind]
    exact (openExisting_safe fuel 0 hRoom).mono (fun status t ht => hOpened ht) fun e t he => he

theorem openHere_changing {st : HostStat} {fuel : Nat} (hStat : a.stat = .ok st)
    (hRoom : s.ed.Has st.ident ∨ ¬ s.ed.Full) (hChanges : s.ed.ChangesFor a fuel 0 st.ident) :
    After (emufsOpenHere a fuel creating oldfd) (fun _ _ => False) (fun e _ => e = .changing) s := by
  rw [emufsOpenHere, hStat]
  show After (do
    let status ← emufsOpenExisting a fuel 0 st.ident
    emufsOpened a oldfd st.isDir status) _ _ s
  rw [after_bind]
  exact (openExisting_changing hRoom hChanges).mono (fun status t ht => ht.elim) fun e t he => he

/-- Without a way back, nothing but a file that keeps changing keeps the emulator from aborting. -/
theorem openHere_stuck (hRoom : s.ed.Room a creating) {err : Errno} (hBack : a.back = .error err)
    {fuel : Nat} (hEnds : ∀ st, a.stat = .ok st → ¬ s.ed.ChangesFor a fuel 0 st.ident) :
    After (emufsOpenHere a fuel creating oldfd) (fun _ _ => False) (fun e _ => e ≠ .changing) s := by
  have hOpened {t : Session} {isdir : Bool} {status : Except (BitVec 32) Int}
      (ht : ∀ handle, status = .ok handle → 0 ≤ handle) :
      After (emufsOpened a oldfd isdir status) (fun _ _ => False) (fun e _ => e ≠ .changing) t := by
    rw [after_emufsOpened_stuck ht hBack]
    exact fun h => by cases h
  rw [emufsOpenHere]
  rw [Emufs.Room] at hRoom
  cases hStat : a.stat with
  | error err =>
    rw [hStat] at hRoom
    cases creating with
    | false =>
      show After (do popdir a oldfd; pure (errnoToCode err)) _ _ s
      rw [after_bind, after_popdir_error hBack]
      exact fun h => by cases h
    | true =>
      show After (do let status ← emufsOpenCreate a; emufsOpened a oldfd false status) _ _ s
      rw [after_bind]
      exact (openCreate_safe (hRoom rfl)).mono (fun status t ht => hOpened ht.2) fun e t he => he.elim
  | ok st =>
    rw [hStat] at hRoom
    show After (do
      let status ← emufsOpenExisting a fuel 0 st.ident
      emufsOpened a oldfd st.isDir status) _ _ s
    rw [after_bind]
    exact (openExisting_returns hRoom (hEnds st hStat)).mono (fun status t ht => hOpened ht)
      fun e t he => he.elim

/-- With no slot left, the identity goes outside the table. -/
theorem openHere_full (hFull : s.ed.Full) (hNeeds : ¬ s.ed.Room a creating) (fuel : Nat) :
    After (emufsOpenHere a (fuel + 1) creating oldfd) (fun _ _ => False)
      (fun e _ => e = .outside (-1)) s := by
  rw [emufsOpenHere]
  rw [Emufs.Room] at hNeeds
  cases hStat : a.stat with
  | error err =>
    rw [hStat] at hNeeds
    obtain ⟨hCreating, hNeeds⟩ := Classical.not_imp.mp hNeeds
    obtain ⟨file, hNeeds⟩ := not_forall.mp hNeeds
    obtain ⟨hFound, hNeeds⟩ := Classical.not_imp.mp hNeeds
    cases hCreating
    show After (do let status ← emufsOpenCreate a; emufsOpened a oldfd false status) _ _ s
    obtain ⟨fd, st, hOpens, rfl⟩ := exists_open_of_found hFound
    rw [after_bind, emufsOpenCreate, after_bind, after_openAndStat_open hOpens, after_bind]
    rcases after_pickhandle_cases st.ident { s with fds := s.fds ++ [.opened fd (some st.ident)] }
      with ⟨i, hi, hFile, -⟩ | ⟨-, i, hi, -⟩ | ⟨-, -, hPick⟩
    · exact (hNeeds (Or.inl ⟨i, hi, hFile⟩)).elim
    · exact (hi (hFull i)).elim
    · rw [hPick]
  | ok st =>
    rw [hStat] at hNeeds
    show After (do
      let status ← emufsOpenExisting a (fuel + 1) 0 st.ident
      emufsOpened a oldfd st.isDir status) _ _ s
    rw [after_bind, emufsOpenExisting, after_bind]
    rcases after_pickhandle_cases st.ident s with ⟨i, hi, hFile, -⟩ | ⟨-, i, hi, -⟩ | ⟨-, -, hPick⟩
    · exact (hNeeds (Or.inl ⟨i, hi, hFile⟩)).elim
    · exact (hi (hFull i)).elim
    · rw [hPick]

/-! ## The operations on a handle -/

/-- Only open descriptors went to the host, and no directory was read where there is none. -/
def Looked (a : Answers) (op res : BitVec 32) (t : Session) : Prop :=
  (∀ fd ∈ t.used, 0 ≤ fd) ∧
    (op = emuOpReaddir → (∃ err, a.enter = .error err) → res ≠ emuResSuccess)

variable {i : Fin maxhandles} {op : BitVec 32}

theorem use_used (hOpen : s.ed.Open i) (hUsed : s.used = []) :
    ∀ fd ∈ s.used ++ [(s.ed.edHandles i).ehFd], 0 ≤ fd := by
  intro fd hfd
  rw [hUsed, List.nil_append] at hfd
  rw [List.mem_singleton.mp hfd]
  exact hOpen

theorem readdir_safe (hHandle : s.ed.edHandle.toNat = i.val) (hOpen : s.ed.Open i)
    (hUsed : s.used = []) :
    After (emufsReaddir a) (Looked a emuOpReaddir) (fun _ _ => False) s := by
  have hUse := use_used hOpen hUsed
  have hNone : ∀ fd ∈ s.used, 0 ≤ fd := by
    rw [hUsed]
    intro fd hfd
    cases hfd
  rw [emufsReaddir, after_bind, after_get, after_ite]
  split
  · exact ⟨hNone, fun _ _ => by decide⟩
  · cases hDot : a.dot with
    | error err => exact ⟨hNone, fun _ _ => errnoToCode_ne_success err⟩
    | ok herefd =>
      rw [after_bind, after_openDot, after_bind]
      refine (after_useHandle (s := { s with
        fds := s.fds ++ [.opened herefd none], host := s.host.openDot herefd }) hHandle).mpr ?_
      have hEnter : a.fchdir (s.ed.edHandles i).ehFd = a.enter := if_neg (not_lt.mpr hOpen)
      dsimp only
      rw [hEnter]
      cases hDir : a.enter with
      | error err => exact ⟨hUse, fun _ _ => errnoToCode_ne_success err⟩
      | ok u =>
        have hNotError : ¬ ∃ err, a.enter = .error err := by
          rw [hDir]
          rintro ⟨err, h⟩
          cases h
        cases a.dir with
        | error err =>
          rw [after_bind, after_enterDir, after_bind, after_leaveDir, after_pure]
          exact ⟨hUse, fun _ h => absurd h hNotError⟩
        | ok p =>
          rw [after_bind, after_enterDir, after_bind, after_logFd, after_bind, after_modEd, after_bind,
            after_logFd, after_bind, after_leaveDir, after_pure]
          exact ⟨hUse, fun _ h => absurd h hNotError⟩

theorem opHandle_safe (hHandle : s.ed.edHandle.toNat = i.val) (hOpen : s.ed.Open i)
    (hUsed : s.used = []) :
    After (emufsOpHandle a op) (Looked a op) (fun _ _ => False) s := by
  have hUse := use_used hOpen hUsed
  have hNone : ∀ fd ∈ s.used, 0 ≤ fd := by
    rw [hUsed]
    intro fd hfd
    cases hfd
  have hOther {res op' : BitVec 32} {t : Session} (hOp : op = op') (hNe : ¬ op' = emuOpReaddir)
      (ht : ∀ fd ∈ t.used, 0 ≤ fd) : Looked a op res t := by
    refine ⟨ht, fun hReaddir => ?_⟩
    exact (hNe (hOp.symm.trans hReaddir)).elim
  rw [emufsOpHandle]
  split
  · next hOp =>
    rw [emufsClose, after_bind, after_useHandle hHandle, after_bind, after_logFd, after_bind,
      after_get, after_bind]
    have hSame : (s.use (s.ed.edHandles i).ehFd).ed.edHandle.toNat = i.val := hHandle
    rw [hSame, after_setHandle]
    exact hOther hOp (by decide) hUse
  · split
    · next hOp =>
      rw [emufsRead, after_bind, after_get, after_ite]
      split
      · exact hOther hOp (by decide) hNone
      · rw [after_bind, after_useHandle hHandle]
        cases a.read with
        | error err => exact hOther hOp (by decide) hUse
        | ok bytes => exact hOther hOp (by decide) hUse
    · split
      · next hOp =>
        subst hOp
        exact readdir_safe hHandle hOpen hUsed
      · split
        · next hOp =>
          rw [emufsWrite, after_bind, after_get, after_ite]
          split
          · exact hOther hOp (by decide) hNone
          · rw [after_bind, after_useHandle hHandle]
            cases a.write with
            | error err => exact hOther hOp (by decide) hUse
            | ok n => exact hOther hOp (by decide) hUse
        · split
          · next hOp =>
            rw [emufsGetsize, after_bind, after_useHandle hHandle]
            cases a.fstat with
            | error err => exact hOther hOp (by decide) hUse
            | ok st => exact hOther hOp (by decide) hUse
          · split
            · next hOp =>
              rw [emufsTrunc, after_bind, after_useHandle hHandle]
              cases a.ftruncate with
              | error err => exact hOther hOp (by decide) hUse
              | ok u => exact hOther hOp (by decide) hUse
            · next hNot _ _ _ => exact ⟨hNone, fun hReaddir => (hNot hReaddir).elim⟩

theorem after_emufsOp_handle {Q : BitVec 32 → Session → Prop} {E : EmufsFailure → Session → Prop}
    {fuel : Nat} (hOp : ¬ Opens op) (hValid : ∀ i : Fin maxhandles, s.ed.edHandle.toNat = i.val →
      s.ed.Open i → After (emufsOpHandle a op) Q E s) (hBad : ¬ s.ed.ValidHandle → Q emuResBadhandle s) :
    After (emufsOp a fuel op) Q E s := by
  obtain ⟨hNotOpen, hNotCreate, hNotExcl⟩ : op ≠ emuOpOpen ∧ op ≠ emuOpCreate ∧
      op ≠ emuOpExclcreate := by
    refine ⟨fun h => hOp (Or.inl h), fun h => hOp (Or.inr (Or.inl h)), fun h => ?_⟩
    exact hOp (Or.inr (Or.inr h))
  rw [emufsOp, if_neg hNotOpen, if_neg hNotCreate, if_neg hNotExcl, after_bind, after_get, after_ite]
  split
  · next hOutside =>
    refine hBad ?_
    rintro ⟨i, hHandle, -⟩
    rw [hHandle] at hOutside
    exact absurd i.isLt (not_lt.mpr hOutside)
  · next hInside =>
    obtain ⟨i, hHandle⟩ : ∃ i : Fin maxhandles, s.ed.edHandle.toNat = i.val :=
      ⟨⟨_, not_le.mp hInside⟩, rfl⟩
    rw [hHandle, after_bind, after_handleAt, after_ite]
    split
    · next hClosed =>
      refine hBad ?_
      rintro ⟨j, hHandle', hOpen⟩
      obtain rfl : i = j := Fin.ext (hHandle.symm.trans hHandle')
      exact absurd hClosed (not_lt.mpr hOpen)
    · next hOpen => exact hValid i hHandle (not_lt.mp hOpen)

theorem not_room_of_needsSlot {ed : Emufs} (h : ed.NeedsSlot a op) :
    ¬ ed.Room a (decide (op ≠ emuOpOpen)) := by
  obtain ⟨-, -, -, hFull, hNeeds⟩ := h
  rw [Emufs.Room]
  cases hStat : a.stat with
  | ok st =>
    rw [hStat] at hNeeds
    rintro (hHas | hNotFull)
    · exact hNeeds hHas
    · exact hNotFull hFull
  | error err =>
    rw [hStat] at hNeeds
    obtain ⟨hOp, file, hFound, hNot⟩ := hNeeds
    intro hRoom
    rcases hRoom (decide_eq_true hOp) file hFound with hHas | hNotFull
    · exact hNot hHas
    · exact hNotFull hFull

theorem room_of_not_needsSlot {ed : Emufs} (hOp : Opens op) (hPath : ed.edIolen.toNat < emuBufSize)
    (hValid : ed.ValidHandle) (h : ¬ ed.NeedsSlot a op) :
    ed.Room a (decide (op ≠ emuOpOpen)) := by
  rw [Emufs.Room]
  cases hStat : a.stat with
  | ok st =>
    by_contra hNot
    obtain ⟨hHas, hFull⟩ := not_or.mp hNot
    refine h ⟨hOp, hPath, hValid, not_not.mp hFull, ?_⟩
    rw [hStat]
    exact hHas
  | error err =>
    intro hCreating file hFound
    by_contra hNot
    obtain ⟨hHas, hFull⟩ := not_or.mp hNot
    refine h ⟨hOp, hPath, hValid, not_not.mp hFull, ?_⟩
    rw [hStat]
    exact ⟨of_decide_eq_true hCreating, file, hFound, hHas⟩

theorem entered_sameOpen (s : Session) (i : Fin maxhandles) (oldfd : Nat) :
    s.ed.SameOpen (s.entered i oldfd).ed := ⟨fun _ => rfl, fun _ _ => rfl⟩

theorem safe_of_orderly (h : s.ed.Orderly a op) : Safe s a op := by
  intro fuel
  by_cases hOp : Opens op
  · obtain ⟨hValid, hPath⟩ := h hOp
    have hNotReaddir : op ≠ emuOpReaddir := by
      rcases hOp with rfl | rfl | rfl <;> decide
    rw [after_emufsOp_open hOp]
    by_cases hLong : emuBufSize ≤ s.ed.edIolen.toNat
    · refine (after_emufsOpen_long (s := { s with used := [] }) hLong).mpr ?_
      refine ⟨fun fd hfd => (by cases hfd), fun hNot => absurd hValid hNot, ?_, fun _ _ => by decide⟩
      rintro ⟨-, hShort, -⟩
      exact absurd hLong (not_le.mpr hShort)
    · have hShort := not_le.mp hLong
      obtain ⟨⟨oldfd, hDot⟩, hEnter, hSlot, hBack⟩ := hPath hShort
      obtain ⟨i, hHandle, hOpen⟩ := hValid
      have hDir : a.fchdir (s.ed.edHandles i).ehFd = .ok () := (if_neg (not_lt.mpr hOpen)).trans hEnter
      refine (after_emufsOpen (s := { s with used := [] }) hShort hHandle).mpr ?_
      show match a.dot, a.fchdir (s.ed.edHandles i).ehFd with
        | .error _, _ => _
        | .ok _, .error _ => _
        | .ok _, .ok _ => _
      rw [hDot, hDir]
      have hRoom : (Session.entered { s with used := [] } i oldfd).ed.Room a
          (decide (op ≠ emuOpOpen)) :=
        room_of_not_needsSlot hOp hShort ⟨i, hHandle, hOpen⟩ hSlot
      have hUsed : ∀ fd ∈ (Session.entered { s with used := [] } i oldfd).used, 0 ≤ fd := by
        intro fd hfd
        rw [List.mem_singleton.mp hfd]
        exact hOpen
      rcases hBack with hBack | ⟨st, hStat, hChanges⟩
      · refine (openHere_safe hRoom hBack fuel).mono (fun res t ht => ?_) fun e t he => he
        refine ⟨?_, fun hNot => absurd ⟨i, hHandle, hOpen⟩ hNot, fun hNeeds => absurd hNeeds hSlot, ?_⟩
        · rw [ht]
          exact hUsed
        · rintro - ⟨err, hErr⟩
          rw [hEnter] at hErr
          cases hErr
      · have hRoom' : (Session.entered { s with used := [] } i oldfd).ed.Has st.ident ∨
            ¬ (Session.entered { s with used := [] } i oldfd).ed.Full := by
          rw [Emufs.Room, hStat] at hRoom
          exact hRoom
        refine (openHere_changing hStat hRoom' ?_).mono (fun _ _ ht => ht.elim) fun e t he => he
        rw [(entered_sameOpen { s with used := [] } i oldfd).changesFor_iff]
        exact hChanges fuel
  · refine after_emufsOp_handle hOp (fun i hHandle hOpen => ?_) fun hNot => ?_
    · refine (opHandle_safe hHandle hOpen rfl).mono (fun res t ht => ?_) fun e t he => he.elim
      refine ⟨ht.1, fun hNot => absurd ⟨i, hHandle, hOpen⟩ hNot, fun hNeeds => absurd hNeeds.1 hOp, ?_⟩
      rintro (hOpens | hReaddir)
      · exact absurd hOpens hOp
      · exact ht.2 hReaddir
    · refine ⟨fun fd hfd => (by cases hfd), fun _ => rfl, fun hNeeds => absurd hNeeds.1 hOp, ?_⟩
      exact fun _ _ => by decide

/-- One run that ends neither way refutes that the operation is safe. -/
theorem not_safe {Q : BitVec 32 → Session → Prop} {E : EmufsFailure → Session → Prop} (fuel : Nat)
    (h : After (emufsOp a fuel op) Q E { s with used := [] })
    (hQ : ∀ res t, Q res t → ¬ Proper s.ed a op res t) (hE : ∀ e t, E e t → e ≠ .changing) :
    ¬ Safe s a op := by
  intro hSafe
  refine exists_end (h.and (hSafe fuel)) ?_ ?_
  · rintro res t ⟨hNot, hProper⟩
    exact hQ res t hNot hProper
  · rintro e t ⟨hNot, hChanging⟩
    exact hE e t hNot hChanging

theorem validHandle_of_safe (hOp : Opens op) (h : Safe s a op) : s.ed.ValidHandle := by
  by_contra hNot
  by_cases hLong : emuBufSize ≤ s.ed.edIolen.toNat
  · refine not_safe (Q := fun res _ => res = emuResBadsize) (E := fun _ _ => False) 0 ?_ ?_ ?_ h
    · rw [after_emufsOp_open hOp]
      exact (after_emufsOpen_long (s := { s with used := [] }) hLong).mpr rfl
    · rintro res t rfl hProper
      exact absurd (hProper.badhandle hNot) (by decide)
    · exact fun _ _ he => he.elim
  · refine not_safe (Q := fun _ _ => False) (E := fun e _ => e ≠ .changing) 0 ?_ ?_
      (fun _ _ he => he) h
    · rw [after_emufsOp_open hOp]
      by_cases hInside : s.ed.edHandle.toNat < maxhandles
      · have hClosed : (s.ed.edHandles ⟨_, hInside⟩).ehFd < 0 := by
          by_contra hOpen
          exact hNot ⟨⟨_, hInside⟩, rfl, not_lt.mp hOpen⟩
        have hEnter : a.fchdir (s.ed.edHandles ⟨_, hInside⟩).ehFd = .error .ebadf := if_pos hClosed
        have hHere : s.ed.edHandle.toNat = (⟨_, hInside⟩ : Fin maxhandles).val := rfl
        refine (after_emufsOpen (s := { s with used := [] }) (not_le.mp hLong) hHere).mpr ?_
        show match a.dot, a.fchdir (s.ed.edHandles ⟨_, hInside⟩).ehFd with
          | .error _, _ => _
          | .ok _, .error _ => _
          | .ok _, .ok _ => _
        rw [hEnter]
        cases a.dot with
        | error err => exact fun he => by cases he
        | ok oldfd => exact fun he => by cases he
      · refine (after_emufsOpen_outside (s := { s with used := [] }) (not_le.mp hLong)
          (not_lt.mp hInside)).mpr fun he => ?_
        cases he
    · exact fun _ _ hFalse => hFalse.elim

theorem orderly_of_safe (h : Safe s a op) : s.ed.Orderly a op := by
  intro hOp
  have hValid := validHandle_of_safe hOp h
  refine ⟨hValid, fun hShort => ?_⟩
  obtain ⟨i, hHandle, hOpen⟩ := id hValid
  have hFchdir : a.fchdir (s.ed.edHandles i).ehFd = a.enter := if_neg (not_lt.mpr hOpen)
  have hEnds : ∀ fuel, ¬ After (emufsOp a fuel op) (fun _ _ => False) (fun e _ => e ≠ .changing)
      { s with used := [] } := by
    intro fuel hAfter
    exact not_safe fuel hAfter (fun _ _ hFalse => hFalse.elim) (fun _ _ he => he) h
  have hHere (fuel : Nat) : After (emufsOpen a fuel (decide (op ≠ emuOpOpen))) (fun _ _ => False)
      (fun e _ => e ≠ .changing) { s with used := [] } ↔ _ :=
    after_emufsOpen (s := { s with used := [] }) hShort hHandle
  have hMatch : ∀ fuel, ¬ match a.dot, a.enter with
      | .error _, _ => True
      | .ok _, .error _ => True
      | .ok oldfd, .ok _ => After (emufsOpenHere a fuel (decide (op ≠ emuOpOpen)) oldfd)
          (fun _ _ => False) (fun e _ => e ≠ .changing)
          (Session.entered { s with used := [] } i oldfd) := by
    intro fuel hMatch
    refine hEnds fuel ?_
    rw [after_emufsOp_open hOp, hHere]
    show match a.dot, a.fchdir (s.ed.edHandles i).ehFd with
      | .error _, _ => _
      | .ok _, .error _ => _
      | .ok _, .ok _ => _
    rw [hFchdir]
    revert hMatch
    cases a.dot with
    | error err => exact fun _ he => by cases he
    | ok oldfd =>
      cases a.enter with
      | error err => exact fun _ he => by cases he
      | ok u => exact id
  cases hDot : a.dot with
  | error err =>
    rw [hDot] at hMatch
    exact (hMatch 0 trivial).elim
  | ok oldfd =>
    rw [hDot] at hMatch
    cases hEnter : a.enter with
    | error err =>
      rw [hEnter] at hMatch
      exact (hMatch 0 trivial).elim
    | ok u =>
      rw [hEnter] at hMatch
      have hSame := entered_sameOpen { s with used := [] } i oldfd
      have hSlot : ¬ s.ed.NeedsSlot a op := by
        intro hNeeds
        refine hMatch 1 ((openHere_full (hSame.full_iff.mpr hNeeds.2.2.2.1) ?_ 0).mono
          (fun _ _ hFalse => hFalse.elim) ?_)
        · exact not_room_of_needsSlot hNeeds
        · rintro e t rfl he
          cases he
      refine ⟨⟨oldfd, rfl⟩, rfl, hSlot, ?_⟩
      have hRoom : (Session.entered { s with used := [] } i oldfd).ed.Room a
          (decide (op ≠ emuOpOpen)) := room_of_not_needsSlot hOp hShort hValid hSlot
      cases hBack : a.back with
      | ok u => exact Or.inl rfl
      | error err =>
        right
        -- No number of turns can have been enough for the loop.
        have hTurns : ∀ fuel, ∃ st, a.stat = .ok st ∧ s.ed.ChangesFor a fuel 0 st.ident := by
          intro fuel
          by_contra hNone
          refine hMatch fuel (openHere_stuck hRoom hBack fun st hStat hChanges => ?_)
          rw [hSame.changesFor_iff] at hChanges
          exact hNone ⟨st, hStat, hChanges⟩
        obtain ⟨st, hStat, -⟩ := hTurns 0
        refine ⟨st, hStat, fun k => ?_⟩
        obtain ⟨st', hStat', hChanges⟩ := hTurns k
        rw [hStat] at hStat'
        cases hStat'
        exact hChanges

/-- The three operations that open need what they do not check; the others need nothing. -/
theorem safe_iff_orderly : Safe s a op ↔ s.ed.Orderly a op := ⟨orderly_of_safe, safe_of_orderly⟩

end Sys161.Bus
