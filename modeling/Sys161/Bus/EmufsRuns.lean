import Sys161.Bus.EmufsHandles
import Sys161.Lib.Runs
import Sys161.Lib.Scripts
import Mathlib.Data.Finset.Card
import Mathlib.Data.Fintype.Basic

/-!
# What holds over every run of the emulator filesystem device

The table and the descriptors it owns go through every operation together. A
descriptor that an operation has opened and not yet put away is owed.
-/

namespace Sys161.Bus

open Exec Runs

set_option autoImplicit false

/-! ## The account of descriptors -/

def FdEvent.opens (fd : Nat) : FdEvent → Bool
  | .opened fd' _ => fd' = fd
  | .closed _ => false

def FdEvent.closes (fd : Nat) : FdEvent → Bool
  | .opened _ _ => false
  | .closed fd' => fd' = fd

/-- The open handles that own the descriptor. -/
def Emufs.holders (ed : Emufs) (fd : Nat) : Nat :=
  (Finset.univ.filter fun i => (ed.edHandles i).ehFd = fd).card

theorem setHandle_same (ed : Emufs) (i : Fin maxhandles) (f : Handleinfo → Handleinfo) :
    (ed.setHandle i f).edHandles i = f (ed.edHandles i) := by
  simp [Emufs.setHandle]

theorem setHandle_other {ed : Emufs} {i j : Fin maxhandles} (h : j ≠ i)
    (f : Handleinfo → Handleinfo) : (ed.setHandle i f).edHandles j = ed.edHandles j := by
  simp [Emufs.setHandle, h]

theorem SameOpen.holders {ed ed' : Emufs} (h : ed.SameOpen ed') (fd : Nat) :
    ed'.holders fd = ed.holders fd := by
  simp only [Emufs.holders, h.fd]

/-- A slot that is not open takes the descriptor. -/
theorem holders_open {ed : Emufs} {i : Fin maxhandles} (h : ¬ ed.Open i) (fd fd' : Nat) :
    (ed.setHandle i fun eh => { eh with ehFd := fd }).holders fd' =
      ed.holders fd' + if fd = fd' then 1 else 0 := by
  have hNot : ∀ n : Nat, (ed.edHandles i).ehFd ≠ n := by
    intro n hn
    refine h ?_
    rw [Emufs.Open, hn]
    exact Int.natCast_nonneg n
  rw [Emufs.holders, Emufs.holders]
  split
  · next hFd =>
    subst hFd
    have hInsert : (Finset.univ.filter fun j =>
        ((ed.setHandle i fun eh => { eh with ehFd := (fd : Int) }).edHandles j).ehFd = fd) =
        insert i (Finset.univ.filter fun j => (ed.edHandles j).ehFd = fd) := by
      ext j
      by_cases hj : j = i
      · subst hj
        simp [setHandle_same]
      · simp [setHandle_other hj, hj]
    rw [hInsert, Finset.card_insert_of_notMem (by simp [hNot])]
  · next hFd =>
    rw [Nat.add_zero]
    congr 1
    ext j
    by_cases hj : j = i
    · subst hj
      simpa [setHandle_same, hNot] using hFd
    · simp [setHandle_other hj]

theorem holders_close {ed : Emufs} {i : Fin maxhandles} {fd : Nat}
    (h : (ed.edHandles i).ehFd = fd) (fd' : Nat) :
    ed.holders fd' = (ed.setHandle i fun eh => { eh with ehFd := -1 }).holders fd' +
      if fd = fd' then 1 else 0 := by
  have hClosed : ¬ (ed.setHandle i fun eh => { eh with ehFd := -1 }).Open i := by
    simp [Emufs.Open, setHandle_same]
  have hBack := holders_open hClosed fd fd'
  rw [← hBack, Emufs.holders, Emufs.holders]
  congr 1
  ext j
  by_cases hj : j = i
  · subst hj
    simp [setHandle_same, h]
  · simp [setHandle_other hj]

/-- The table between two accesses, with the descriptors that are owed. -/
structure Tidy (data : EmufsData) (owed : List Nat) (s : Session) : Prop where
  data : s.ed.toEmufsData = data
  distinct : ∀ i j, s.ed.Open i → s.ed.Open j →
    (s.ed.edHandles i).ehIdent = (s.ed.edHandles j).ehIdent → i = j
  origin : ∀ i, s.ed.Open i → ∃ fd : Nat, (s.ed.edHandles i).ehFd = fd ∧
    .opened fd (some (s.ed.edHandles i).ehIdent) ∈ s.fds
  balance : ∀ fd, s.fds.countP (FdEvent.opens fd) =
    s.fds.countP (FdEvent.closes fd) + s.ed.holders fd + owed.count fd

section Tidy

variable {data : EmufsData} {owed : List Nat} {s : Session} {fd : Nat}

theorem Tidy.opened (h : Tidy data owed s) (fd : Nat) (file : Option Ident) :
    Tidy data (fd :: owed) { s with fds := s.fds ++ [.opened fd file] } where
  data := h.data
  distinct := h.distinct
  origin i hi := by
    obtain ⟨n, hn, hMem⟩ := h.origin i hi
    exact ⟨n, hn, List.mem_append_left _ hMem⟩
  balance n := by
    have hBalance := h.balance n
    by_cases hn : fd = n
    · simp [FdEvent.opens, FdEvent.closes, hn]
      omega
    · simp [FdEvent.opens, FdEvent.closes, hn]
      omega

theorem Tidy.closed (h : Tidy data (fd :: owed) s) :
    Tidy data owed { s with fds := s.fds ++ [.closed fd] } where
  data := h.data
  distinct := h.distinct
  origin i hi := by
    obtain ⟨n, hn, hMem⟩ := h.origin i hi
    exact ⟨n, hn, List.mem_append_left _ hMem⟩
  balance n := by
    have hBalance := h.balance n
    by_cases hn : fd = n
    · simp [FdEvent.opens, FdEvent.closes, hn] at hBalance ⊢
      omega
    · simp [FdEvent.opens, FdEvent.closes, hn] at hBalance ⊢
      omega

theorem Tidy.sameOpen (h : Tidy data owed s) {ed : Emufs} (hData : ed.toEmufsData = data)
    (hSame : s.ed.SameOpen ed) (used : List Int) (host : HostDirs) :
    Tidy data owed { ed := ed, fds := s.fds, used := used, host := host } where
  data := hData
  distinct i j hi hj hIdent := by
    have hi' := (hSame.open_iff i).mp hi
    have hj' := (hSame.open_iff j).mp hj
    refine h.distinct i j hi' hj' ?_
    rw [← hSame.ident i hi', ← hSame.ident j hj']
    exact hIdent
  origin i hi := by
    have hi' := (hSame.open_iff i).mp hi
    show ∃ fd : Nat, (ed.edHandles i).ehFd = fd ∧ .opened fd (some (ed.edHandles i).ehIdent) ∈ s.fds
    rw [hSame.fd i, hSame.ident i hi']
    exact h.origin i hi'
  balance n := by
    have hHolders := SameOpen.holders hSame n
    show _ = _ + ed.holders n + _
    rw [hHolders]
    exact h.balance n

theorem Tidy.claim (h : Tidy data owed s) {i : Fin maxhandles} (hi : ¬ s.ed.Open i) (file : Ident) :
    Tidy data owed { s with ed := s.ed.claim i file } := by
  have hData : (s.ed.claim i file).toEmufsData = data := h.data
  exact h.sameOpen hData (claim_sameOpen hi file) s.used s.host

theorem Tidy.noneLeft (h : Tidy data owed s) {fds : List FdEvent} (hFds : s.NoneLeft fds) :
    Tidy data owed { s with fds := fds } := by
  rcases hFds with rfl | ⟨fd, rfl⟩
  · exact h
  · exact (h.opened fd none).closed

/-- The descriptor that is owed goes into the slot that was claimed for its file. -/
theorem Tidy.install (h : Tidy data (fd :: owed) s) {i : Fin maxhandles} (hi : ¬ s.ed.Open i)
    (hNew : ∀ j, s.ed.Open j → (s.ed.edHandles j).ehIdent ≠ (s.ed.edHandles i).ehIdent)
    (hMem : .opened fd (some (s.ed.edHandles i).ehIdent) ∈ s.fds) :
    Tidy data owed { s with ed := s.ed.setHandle i fun eh => { eh with ehFd := fd } } := by
  have hOther {j : Fin maxhandles} (hj : j ≠ i)
      (hOpen : (s.ed.setHandle i fun eh => { eh with ehFd := (fd : Int) }).Open j) : s.ed.Open j := by
    rw [Emufs.Open, setHandle_other hj] at hOpen
    exact hOpen
  constructor
  · exact h.data
  · intro j k hj hk hIdent
    by_cases hji : j = i
    · by_cases hki : k = i
      · rw [hji, hki]
      · subst hji
        rw [setHandle_same, setHandle_other hki] at hIdent
        exact absurd hIdent.symm (hNew k (hOther hki hk))
    · by_cases hki : k = i
      · subst hki
        rw [setHandle_same, setHandle_other hji] at hIdent
        exact absurd hIdent (hNew j (hOther hji hj))
      · rw [setHandle_other hji, setHandle_other hki] at hIdent
        exact h.distinct j k (hOther hji hj) (hOther hki hk) hIdent
  · intro j hj
    by_cases hji : j = i
    · subst hji
      show ∃ n : Nat, _ ∧ _
      rw [setHandle_same]
      exact ⟨fd, rfl, hMem⟩
    · show ∃ n : Nat, _ ∧ _
      rw [setHandle_other hji]
      exact h.origin j (hOther hji hj)
  · intro n
    have hBalance := h.balance n
    have hHolders := holders_open hi fd n
    by_cases hn : fd = n
    · simp [hn] at hBalance hHolders ⊢
      omega
    · simp [hn] at hBalance hHolders ⊢
      omega

theorem Tidy.close (h : Tidy data owed s) {i : Fin maxhandles} (hi : s.ed.Open i) (used : List Int) :
    Tidy data owed {
      ed := s.ed.setHandle i fun eh => { eh with ehFd := -1 }
      fds := s.fds ++ [.closed (s.ed.edHandles i).ehFd]
      used := used
      host := s.host } := by
  obtain ⟨fd, hFd, -⟩ := h.origin i hi
  have hOther {j : Fin maxhandles}
      (hOpen : (s.ed.setHandle i fun eh => { eh with ehFd := -1 }).Open j) :
      j ≠ i ∧ s.ed.Open j := by
    have hj : j ≠ i := by
      rintro rfl
      rw [Emufs.Open, setHandle_same] at hOpen
      exact absurd (show (0 : Int) ≤ -1 from hOpen) (by decide)
    rw [Emufs.Open, setHandle_other hj] at hOpen
    exact ⟨hj, hOpen⟩
  constructor
  · exact h.data
  · intro j k hj hk hIdent
    obtain ⟨hji, hj⟩ := hOther hj
    obtain ⟨hki, hk⟩ := hOther hk
    rw [setHandle_other hji, setHandle_other hki] at hIdent
    exact h.distinct j k hj hk hIdent
  · intro j hj
    obtain ⟨hji, hj⟩ := hOther hj
    obtain ⟨n, hn, hMem⟩ := h.origin j hj
    refine ⟨n, ?_, ?_⟩
    · rw [setHandle_other hji]
      exact hn
    · rw [setHandle_other hji]
      exact List.mem_append_left _ hMem
  · intro n
    have hBalance := h.balance n
    have hHolders := holders_close hFd n
    rw [hFd]
    by_cases hn : fd = n
    · simp [FdEvent.opens, FdEvent.closes, hn] at hBalance hHolders ⊢
      omega
    · simp [FdEvent.opens, FdEvent.closes, hn] at hBalance hHolders ⊢
      omega

end Tidy

/-! ## The operations -/

/-- The host has said of the path that it is this file. -/
def Answers.Names (a : Answers) (file : Ident) : Prop :=
  (∃ st, a.stat = .ok st ∧ st.ident = file) ∨ ∃ n, a.found n = some file

/-- The file that the path is at first. -/
def Answers.First (a : Answers) (creating : Bool) (file : Ident) : Prop :=
  match a.stat with
  | .ok st => st.ident = file
  | .error _ => creating = true ∧ a.found 0 = some file

/-- The handle is open in `t` on a file of the path; those open in `s` stay as they were. -/
structure Given (a : Answers) (s t : Session) (handle : Int) : Prop where
  slot : ∃ j : Fin maxhandles, handle = j.val ∧ t.ed.Open j ∧ a.Names (t.ed.edHandles j).ehIdent
  kept : ∀ i, s.ed.Open i → t.ed.edHandles i = s.ed.edHandles i

structure Outcome (a : Answers) (data : EmufsData) (owed : List Nat) (s : Session)
    (status : Except (BitVec 32) Int) (t : Session) : Prop where
  tidy : Tidy data owed t
  failed : ∀ code, status = .error code → code ≠ emuResSuccess
  given : ∀ handle, status = .ok handle → Given a s t handle

variable {data : EmufsData} {owed : List Nat} {s : Session} {a : Answers}

theorem claim_kept {ed : Emufs} {i j : Fin maxhandles} {file : Ident} (hi : ¬ ed.Open i)
    (hj : ed.Open j) : (ed.claim i file).edHandles j = ed.edHandles j := by
  refine setHandle_other ?_ _
  rintro rfl
  exact hi hj

theorem install_kept {ed : Emufs} {i j : Fin maxhandles} {file : Ident} {fd : Nat}
    (hi : ¬ ed.Open i) (hj : ed.Open j) :
    ((ed.claim i file).setHandle i fun eh => { eh with ehFd := (fd : Int) }).edHandles j =
      ed.edHandles j := by
  rw [setHandle_other, claim_kept hi hj]
  rintro rfl
  exact hi hj

/-- A new descriptor goes into the slot that was claimed for its file. -/
theorem Tidy.openNew (h : Tidy data owed s) {i : Fin maxhandles} {file : Ident} (fd : Nat)
    (hi : ¬ s.ed.Open i) (hNot : ¬ s.ed.Has file) :
    Tidy data owed { s with
      ed := (s.ed.claim i file).setHandle i fun eh => { eh with ehFd := fd }
      fds := s.fds ++ [.opened fd (some file)] } := by
  have hClaim := (h.opened fd (some file)).claim (i := i) hi file
  have hIdent : ((s.ed.claim i file).edHandles i).ehIdent = file := by
    rw [Emufs.claim, setHandle_same]
  have hSame := claim_sameOpen hi file
  refine Tidy.install (s := { s with
    ed := s.ed.claim i file, fds := s.fds ++ [.opened fd (some file)] }) hClaim ?_ ?_ ?_
  · rw [hSame.open_iff]
    exact hi
  · intro j hj hFile
    have hj' : s.ed.Open j := (hSame.open_iff j).mp hj
    refine hNot ⟨j, hj', ?_⟩
    rw [← hSame.ident j hj']
    exact hFile.trans hIdent
  · show _ ∈ s.fds ++ _
    rw [hIdent]
    exact List.mem_append_right _ (List.mem_singleton_self _)

theorem openNew_given {i : Fin maxhandles} {fd : Nat} {file : Ident} {fds : List FdEvent}
    {used : List Int} {host : HostDirs} (hi : ¬ s.ed.Open i) (hNames : a.Names file) :
    Given a s {
      ed := (s.ed.claim i file).setHandle i fun eh => { eh with ehFd := fd }
      fds := fds
      used := used
      host := host } i.val where
  slot := by
    refine ⟨i, rfl, ?_, ?_⟩
    · rw [Emufs.Open, setHandle_same]
      exact Int.natCast_nonneg fd
    · rw [setHandle_same, Emufs.claim, setHandle_same]
      exact hNames
  kept j hj := install_kept hi hj

theorem openExisting_tidy {fuel n : Nat} {expected : Ident} (h : Tidy data owed s)
    (hNames : a.Names expected) :
    After (emufsOpenExisting a fuel n expected) (fun status t => Outcome a data owed s status t ∧
      ∀ i, s.ed.Open i → (s.ed.edHandles i).ehIdent = expected → status = .ok (i.val : Int))
      (fun _ _ => True) s := by
  induction fuel generalizing n expected s with
  | zero => trivial
  | succ fuel ih =>
    apply after_openExisting
    · exact fun _ _ => trivial
    · intro i hi hFile
      refine ⟨⟨h, fun code hCode => (by cases hCode), ?_⟩, fun j hj hFile' => ?_⟩
      · intro handle hHandle
        cases hHandle
        exact ⟨⟨i, rfl, hi, hFile ▸ hNames⟩, fun _ _ => rfl⟩
      · rw [h.distinct i j hi hj (hFile.trans hFile'.symm)]
    · intro i err fds hi hNot hFound hFds
      refine ⟨⟨(h.noneLeft hFds).claim (i := i) hi expected, fun code hCode => ?_,
        fun handle hHandle => (by cases hHandle)⟩, fun j hj hFile => ?_⟩
      · cases hCode
        exact errnoToCode_ne_success err
      · exact absurd ⟨j, hj, hFile⟩ hNot
    · intro i fd st hi hNot hOpens hSame
      subst hSame
      refine ⟨⟨h.openNew fd hi hNot, fun code hCode => (by cases hCode), ?_⟩, fun j hj hFile => ?_⟩
      · intro handle hHandle
        cases hHandle
        exact openNew_given hi hNames
      · exact absurd ⟨j, hj, hFile⟩ hNot
    · intro i fd st hi hNot hOpens hNe
      have hClaim := ((h.opened fd (some st.ident)).closed).claim (i := i) hi expected
      have hNames' : a.Names st.ident := Or.inr ⟨n, by rw [Answers.found, hOpens]⟩
      refine (ih hClaim hNames').mono ?_ fun _ _ he => he
      rintro status t ⟨hOut, -⟩
      refine ⟨⟨hOut.tidy, hOut.failed, fun handle hHandle => ?_⟩, fun j hj hFile => ?_⟩
      · have hGiven := hOut.given handle hHandle
        refine ⟨hGiven.slot, fun j hj => ?_⟩
        have hKept : (s.ed.claim i expected).edHandles j = s.ed.edHandles j := claim_kept hi hj
        rw [hGiven.kept j (by rw [Emufs.Open, hKept]; exact hj)]
        exact hKept
      · exact absurd ⟨j, hj, hFile⟩ hNot

theorem openCreate_tidy (h : Tidy data owed s) :
    After (emufsOpenCreate a) (fun status t => Outcome a data owed s status t ∧
      ∀ i, s.ed.Open i → a.found 0 = some (s.ed.edHandles i).ehIdent → status = .ok (i.val : Int))
      (fun _ _ => True) s := by
  have hNat (i : Fin maxhandles) : ¬ ((i.val : Int) < 0) := by omega
  rw [emufsOpenCreate, after_bind]
  cases hFound : a.found 0 with
  | none =>
    refine after_openAndStat_none hFound fun err fds hFds => ?_
    refine ⟨⟨h.noneLeft hFds, fun code hCode => ?_, fun handle hHandle => (by cases hHandle)⟩,
      fun i _ hNone => (by cases hNone)⟩
    cases hCode
    exact errnoToCode_ne_success err
  | some file =>
    obtain ⟨fd, st, hOpens, rfl⟩ := exists_open_of_found hFound
    have hNames : a.Names st.ident := Or.inr ⟨0, hFound⟩
    have hOpened := h.opened fd (some st.ident)
    rw [after_openAndStat_open hOpens, after_bind]
    rcases after_pickhandle_cases st.ident { s with fds := s.fds ++ [.opened fd (some st.ident)] }
      with ⟨i, hi, hFile, hPick⟩ | ⟨hNot, i, hi, hPick⟩ | ⟨-, -, hPick⟩
    · have hFd : 0 ≤ (s.ed.edHandles i).ehFd := hi
      rw [hPick, after_ite, if_neg (hNat i), after_bind, after_handleAt, if_pos hFd, after_bind,
        after_logFd, after_pure]
      refine ⟨⟨hOpened.closed, fun code hCode => (by cases hCode), fun handle hHandle => ?_⟩, ?_⟩
      · cases hHandle
        exact ⟨⟨i, rfl, hi, hFile ▸ hNames⟩, fun _ _ => rfl⟩
      · intro j hj hSame
        rw [h.distinct i j hi hj (hFile.trans (Option.some.inj hSame))]
    · have hSame : ((s.ed.claim i st.ident).edHandles i).ehFd = (s.ed.edHandles i).ehFd :=
        (claim_sameOpen hi st.ident).fd i
      have hClosed : ¬ 0 ≤ ((s.ed.claim i st.ident).edHandles i).ehFd := by
        rw [hSame]
        exact hi
      rw [hPick, after_ite, if_neg (hNat i), after_bind, after_handleAt]
      rw [if_neg hClosed, after_bind, after_setHandle, after_pure]
      refine ⟨⟨h.openNew fd hi hNot, fun code hCode => (by cases hCode), fun handle hHandle => ?_⟩,
        fun j hj hFile => ?_⟩
      · cases hHandle
        exact openNew_given hi hNames
      · exact absurd ⟨j, hj, (Option.some.inj hFile).symm⟩ hNot
    · rw [hPick]
      trivial

/-- What the three operations that open do: a handle of a file that was open already is that
file's only handle, before and after. -/
structure Opening (ed : Emufs) (a : Answers) (creating : Bool) (res : BitVec 32) (t : Session) :
    Prop where
  given : res = emuResSuccess → ∃ j : Fin maxhandles, t.ed.edHandle.toNat = j.val ∧ t.ed.Open j ∧
    a.Names (t.ed.edHandles j).ehIdent ∧
    ∀ i, ed.Open i → (ed.edHandles i).ehIdent = (t.ed.edHandles j).ehIdent → i = j
  again : ed.edIolen.toNat < emuBufSize → ∀ i, ed.Open i →
    a.First creating (ed.edHandles i).ehIdent → res = emuResSuccess ∧ t.ed.edHandle.toNat = i.val

theorem popdir_tidy {curdir : Nat} {Q : Unit → Session → Prop} (h : Tidy data (curdir :: owed) s)
    (hQ : ∀ fds host, Tidy data owed { s with fds := fds, host := host } →
      Q () { s with fds := fds, host := host }) :
    After (popdir a curdir) Q (fun _ _ => True) s := by
  cases hBack : a.back with
  | error err =>
    rw [after_popdir_error hBack]
    trivial
  | ok u =>
    have hSame : s.ed.SameOpen s.ed := ⟨fun _ => rfl, fun _ _ => rfl⟩
    rw [after_popdir hBack]
    exact hQ _ _ (h.closed.sameOpen h.data hSame s.used _)

theorem toNat_ofInt_slot (j : Fin maxhandles) : (BitVec.ofInt 32 (j.val : Int)).toNat = j.val := by
  have hj : j.val < 2 ^ 32 := lt_trans j.isLt (by decide)
  rw [BitVec.ofInt_natCast, BitVec.toNat_ofNat, Nat.mod_eq_of_lt hj]

theorem opened_tidy {ed : Emufs} {curdir : Nat} {isdir creating : Bool}
    {status : Except (BitVec 32) Int} {t : Session} (hEd : ed.edHandles = s.ed.edHandles)
    (h : Outcome a data (curdir :: owed) s status t)
    (hFirst : ∀ i, ed.Open i → a.First creating (ed.edHandles i).ehIdent →
      status = .ok (i.val : Int)) :
    After (emufsOpened a curdir isdir status)
      (fun res t => Tidy data owed t ∧ Opening ed a creating res t) (fun _ _ => True) t := by
  cases status with
  | error code =>
    rw [emufsOpened, after_bind]
    refine popdir_tidy h.tidy fun fds host hTidy =>
      ⟨hTidy, fun hSuccess => ?_, fun _ i hi hNames => ?_⟩
    · exact absurd hSuccess (h.failed code rfl)
    · cases hFirst i hi hNames
  | ok handle =>
    obtain ⟨⟨j, rfl, hOpen, hNames⟩, hKept⟩ := h.given handle rfl
    rw [emufsOpened, if_neg (by omega)]
    show After (do popdir a curdir; _) _ _ t
    rw [after_bind]
    refine popdir_tidy h.tidy fun fds host hTidy => ?_
    rw [after_bind, after_modEd, after_pure]
    refine ⟨⟨hTidy.data, hTidy.distinct, hTidy.origin, hTidy.balance⟩, fun _ => ?_,
      fun _ i hi hNames => ⟨rfl, ?_⟩⟩
    · refine ⟨j, toNat_ofInt_slot j, hOpen, hNames, fun i hi hFile => ?_⟩
      have hi' : s.ed.Open i := by
        rw [Emufs.Open, ← hEd]
        exact hi
      have hSame := hKept i hi'
      refine hTidy.distinct i j ?_ hOpen ?_
      · show 0 ≤ (t.ed.edHandles i).ehFd
        rw [hSame]
        exact hi'
      · show (t.ed.edHandles i).ehIdent = _
        rw [hSame, ← hEd]
        exact hFile
    · have hIs : (j.val : Int) = i.val := Except.ok.inj (hFirst i hi hNames)
      rw [← Int.ofNat_inj.mp hIs]
      exact toNat_ofInt_slot j

theorem openHere_tidy {ed : Emufs} {fuel curdir : Nat} {creating : Bool}
    (hEd : ed.edHandles = s.ed.edHandles) (h : Tidy data (curdir :: owed) s) :
    After (emufsOpenHere a fuel creating curdir)
      (fun res t => Tidy data owed t ∧ Opening ed a creating res t) (fun _ _ => True) s := by
  have hOpen {i : Fin maxhandles} : ed.Open i → s.ed.Open i := by
    intro hi
    rw [Emufs.Open, ← hEd]
    exact hi
  rw [emufsOpenHere]
  cases hStat : a.stat with
  | error err =>
    cases creating with
    | false =>
      show After (do popdir a curdir; pure (errnoToCode err)) _ _ s
      rw [after_bind]
      refine popdir_tidy h fun fds host hTidy =>
        ⟨hTidy, fun hSuccess => ?_, fun _ i _ hNames => ?_⟩
      · exact absurd hSuccess (errnoToCode_ne_success err)
      · rw [Answers.First, hStat] at hNames
        cases hNames.1
    | true =>
      show After (do let status ← emufsOpenCreate a; emufsOpened a curdir false status) _ _ s
      rw [after_bind]
      refine (openCreate_tidy h).mono (fun status t ht => ?_) fun _ _ he => he
      refine opened_tidy hEd ht.1 fun i hi hNames => ?_
      rw [Answers.First, hStat, hEd] at hNames
      exact ht.2 i (hOpen hi) hNames.2
  | ok st =>
    show After (do
      let status ← emufsOpenExisting a fuel 0 st.ident
      emufsOpened a curdir st.isDir status) _ _ s
    rw [after_bind]
    refine (openExisting_tidy h (Or.inl ⟨st, hStat, rfl⟩)).mono (fun status t ht => ?_) fun _ _ he => he
    refine opened_tidy hEd ht.1 fun i hi hNames => ?_
    rw [Answers.First, hStat, hEd] at hNames
    exact ht.2 i (hOpen hi) hNames.symm

theorem emufsOpen_tidy {fuel : Nat} {creating : Bool} (h : Tidy data owed s) :
    After (emufsOpen a fuel creating)
      (fun res t => Tidy data owed t ∧ Opening s.ed a creating res t) (fun _ _ => True) s := by
  by_cases hLong : emuBufSize ≤ s.ed.edIolen.toNat
  · rw [after_emufsOpen_long hLong]
    refine ⟨h, fun hSuccess => absurd hSuccess (by decide), fun hShort => ?_⟩
    exact absurd hLong (not_le.mpr hShort)
  · by_cases hInside : s.ed.edHandle.toNat < maxhandles
    · refine (after_emufsOpen (not_le.mp hLong) (i := ⟨_, hInside⟩) rfl).mpr ?_
      cases a.dot with
      | error err => trivial
      | ok oldfd =>
        have hData : (s.entered ⟨_, hInside⟩ oldfd).ed.toEmufsData = data := h.data
        have hEntered : Tidy data (oldfd :: owed) (s.entered ⟨_, hInside⟩ oldfd) :=
          (h.opened oldfd none).sameOpen hData (entered_sameOpen s _ oldfd) _ _
        cases a.fchdir (s.ed.edHandles ⟨_, hInside⟩).ehFd with
        | error err => trivial
        | ok u => exact openHere_tidy rfl hEntered
    · rw [after_emufsOpen_outside (not_le.mp hLong) (not_lt.mp hInside)]
      trivial

/-- A program that leaves the table and the account as they are. -/
theorem Tidy.other (h : Tidy data owed s) {ed : Emufs} (hData : ed.toEmufsData = s.ed.toEmufsData)
    (hHandles : ed.edHandles = s.ed.edHandles) (used : List Int) (host : HostDirs) :
    Tidy data owed { ed := ed, fds := s.fds, used := used, host := host } := by
  refine h.sameOpen (hData.trans h.data) ⟨fun i => ?_, fun i _ => ?_⟩ used host
  · rw [hHandles]
  · rw [hHandles]

variable {i : Fin maxhandles} {op : BitVec 32}

theorem readdir_tidy (hHandle : s.ed.edHandle.toNat = i.val) (h : Tidy data owed s) :
    After (emufsReaddir a) (fun _ t => Tidy data owed t) (fun _ _ => True) s := by
  rw [emufsReaddir, after_bind, after_get, after_ite]
  split
  · exact h
  · cases a.dot with
    | error err => exact h
    | ok herefd =>
      have hHere := h.opened herefd none
      rw [after_bind, after_openDot, after_bind]
      refine (after_useHandle (s := { s with
        fds := s.fds ++ [.opened herefd none], host := s.host.openDot herefd }) hHandle).mpr ?_
      dsimp only
      have hUsed (used : List Int) (host : HostDirs) :
          Tidy data owed ⟨s.ed, s.fds ++ [.opened herefd none] ++ [.closed herefd], used, host⟩ :=
        hHere.closed.other rfl rfl used host
      cases a.fchdir (s.ed.edHandles i).ehFd with
      | error err => exact hUsed _ _
      | ok u =>
        cases a.dir with
        | error err =>
          rw [after_bind, after_enterDir, after_bind, after_leaveDir, after_pure]
          exact hUsed _ _
        | ok p =>
          obtain ⟨dirfd, names⟩ := p
          have hDir := hHere.opened dirfd none
          rw [after_bind, after_enterDir, after_bind, after_logFd, after_bind, after_modEd, after_bind,
            after_logFd, after_bind, after_leaveDir, after_pure]
          refine hDir.closed.closed.other ?_ ?_ _ _
          · dsimp only
            split <;> rfl
          · dsimp only
            split <;> rfl

theorem opHandle_tidy (hHandle : s.ed.edHandle.toNat = i.val) (hOpen : s.ed.Open i)
    (h : Tidy data owed s) :
    After (emufsOpHandle a op) (fun _ t => Tidy data owed t) (fun _ _ => True) s := by
  have hUsed := h.other rfl rfl (s.use (s.ed.edHandles i).ehFd).used s.host
  rw [emufsOpHandle]
  split
  · rw [emufsClose, after_bind, after_useHandle hHandle, after_bind, after_logFd, after_bind,
      after_get, after_bind]
    have hSame : (s.use (s.ed.edHandles i).ehFd).ed.edHandle.toNat = i.val := hHandle
    rw [hSame, after_setHandle]
    exact h.close hOpen _
  · split
    · rw [emufsRead, after_bind, after_get, after_ite]
      split
      · exact h
      · rw [after_bind, after_useHandle hHandle]
        cases a.read with
        | error err => exact hUsed
        | ok bytes =>
          show Tidy data owed _
          exact h.other (by rfl) (by rfl) _ _
    · split
      · exact readdir_tidy hHandle h
      · split
        · rw [emufsWrite, after_bind, after_get, after_ite]
          split
          · exact h
          · rw [after_bind, after_useHandle hHandle]
            cases a.write with
            | error err => exact hUsed
            | ok n =>
              show Tidy data owed _
              exact h.other (by rfl) (by rfl) _ _
        · split
          · rw [emufsGetsize, after_bind, after_useHandle hHandle]
            cases a.fstat with
            | error err => exact hUsed
            | ok st =>
              show Tidy data owed _
              exact h.other (by rfl) (by rfl) _ _
          · split
            · rw [emufsTrunc, after_bind, after_useHandle hHandle]
              cases a.ftruncate with
              | error err => exact hUsed
              | ok u => exact hUsed
            · exact h

/-- What an operation does to the table. -/
theorem emufsOp_tidy {fuel : Nat} (h : Tidy data owed s) :
    After (emufsOp a fuel op) (fun res t => Tidy data owed t ∧
      (Opens op → Opening s.ed a (decide (op ≠ emuOpOpen)) res t)) (fun _ _ => True) s := by
  by_cases hOp : Opens op
  · rw [after_emufsOp_open hOp]
    exact (emufsOpen_tidy h).mono (fun res t ht => ⟨ht.1, fun _ => ht.2⟩) fun _ _ he => he
  · refine after_emufsOp_handle hOp (fun i hHandle hOpen => ?_) fun _ => ⟨h, fun hOpens => ?_⟩
    · refine (opHandle_tidy hHandle hOpen h).mono (fun res t ht => ⟨ht, fun hOpens => ?_⟩)
        fun _ _ he => he
      exact absurd hOpens hOp
    · exact absurd hOpens hOp

/-! ## The registers -/

section After

variable {Q : Bool × Done Unit → Session → Prop} {E : EmufsFailure → Session → Prop}
  {bigEndian : Bool} {fuel : Nat} {offset val : BitVec 32}

theorem after_emufsStore_oper (h : offset.toNat = emuregOper) :
    After (emufsStore bigEndian a fuel offset val) Q E s ↔
      if s.ed.edBusy ≠ 0 then
        Q (true, {
          dev := ()
          hung := some "emufs operation started while an operation was already in progress" }) s
      else After (emufsOp a fuel val) (fun res t => Q
        (true, {
          dev := ()
          arm := some { nsecs := emufsNsecs, code := 0, func := .emufsDone, desc := "emufs" } })
        { t with ed := { t.ed with edBusy := 1, edBusyresult := res } }) E s := by
  rw [emufsStore, h, if_neg (by decide), if_neg (by decide), if_neg (by decide), if_neg (by decide),
    if_pos rfl, after_bind, emufsDoOp, after_bind, after_get, after_ite]
  split
  · exact Iff.rfl
  · rw [after_bind]
    exact Iff.rfl

theorem after_emufsStore_other (h : offset.toNat ≠ emuregOper)
    (hQ : ∀ found r ed, r.arm = none → ed.edHandles = s.ed.edHandles → ed.edBusy = s.ed.edBusy →
      ed.edBusyresult = s.ed.edBusyresult → Q (found, r) { s with ed := ed }) :
    After (emufsStore bigEndian a fuel offset val) Q E s := by
  rw [emufsStore]
  split
  · exact hQ _ _ _ rfl rfl rfl rfl
  · split
    · exact hQ _ _ _ rfl rfl rfl rfl
    · split
      · exact hQ _ _ _ rfl rfl rfl rfl
      · split
        · exact hQ _ _ _ rfl rfl rfl rfl
        · split
          · exact hQ _ _ _ rfl rfl rfl rfl
          · exact hQ _ _ _ rfl rfl rfl rfl

end After

/-! ## Runs -/

/-- The host gives out no descriptor that is open. -/
def FreshFds (fds : List FdEvent) : Prop :=
  ∀ before fd file after, fds = before ++ .opened fd file :: after →
    before.countP (FdEvent.opens fd) = before.countP (FdEvent.closes fd)

theorem FreshFds.prefix {fds : List FdEvent} {e : FdEvent} (h : FreshFds (fds ++ [e])) :
    FreshFds fds := by
  intro before fd file after hEq
  refine h before fd file (after ++ [e]) ?_
  rw [hEq, List.append_assoc, List.cons_append]

theorem FreshFds.opens_le {fds : List FdEvent} (h : FreshFds fds) (fd : Nat) :
    fds.countP (FdEvent.opens fd) ≤ fds.countP (FdEvent.closes fd) + 1 := by
  induction fds using List.reverseRecOn with
  | nil => simp
  | append_singleton fds e ih =>
    have hBefore := ih h.prefix
    rw [List.countP_append, List.countP_append]
    cases e with
    | closed fd' =>
      simp [FdEvent.opens]
      omega
    | opened fd' file =>
      by_cases hFd : fd' = fd
      · subst hFd
        have hEqual := h fds fd' file [] rfl
        simp [FdEvent.opens, FdEvent.closes]
        omega
      · simp [FdEvent.opens, FdEvent.closes, hFd]
        omega

/-- `ed_busy` says whether the completion event is pending. -/
def EmufsDevice.Busy (d : EmufsDevice) : Prop :=
  (d.session.ed.edBusy = 0 ∧ d.pending = []) ∨
    (d.session.ed.edBusy = 1 ∧ ∃ arm, d.pending = [arm] ∧ arm.func = .emufsDone)

/-- The handles have files of their own, and what was opened is in one of them or closed again. -/
structure EmufsDevice.Sound (d : EmufsDevice) : Prop where
  distinct : ∀ i j, d.session.ed.Open i → d.session.ed.Open j →
    (d.session.ed.edHandles i).ehIdent = (d.session.ed.edHandles j).ehIdent → i = j
  origin : ∀ i, d.session.ed.Open i → ∃ fd : Nat, (d.session.ed.edHandles i).ehFd = fd ∧
    .opened fd (some (d.session.ed.edHandles i).ehIdent) ∈ d.session.fds
  balance : ∀ fd, d.session.fds.countP (FdEvent.opens fd) =
    d.session.fds.countP (FdEvent.closes fd) + d.session.ed.holders fd
  once : FreshFds d.session.fds → ∀ fd, d.session.ed.holders fd ≤ 1
  busy : d.Busy

theorem sound_of_tidy {d : EmufsDevice} (h : Tidy d.session.ed.toEmufsData [] d.session)
    (hBusy : d.Busy) : d.Sound where
  distinct := h.distinct
  origin := h.origin
  balance := h.balance
  once hFresh fd := by
    have hOpens := hFresh.opens_le fd
    have hBalance := h.balance fd
    rw [List.count_nil] at hBalance
    omega
  busy := hBusy

theorem EmufsDevice.Sound.tidy {d : EmufsDevice} (h : d.Sound) (used : List Int) :
    Tidy d.session.ed.toEmufsData [] { d.session with used := used } where
  data := rfl
  distinct := h.distinct
  origin := h.origin
  balance := h.balance

def EmufsState.Sound : EmufsState → Prop
  | .running d => d.Sound
  | .failed _ => True

/-- An open gives the handle the file has, if it has one; completion finds the device busy. -/
def OpensOnce : EmufsState → EmufsAct → EmufsState → Prop
  | .running d, .store offset val a, .running d' =>
    offset.toNat = emuregOper → d.session.ed.edBusy = 0 → Opens val →
      Opening d.session.ed a (decide (val ≠ emuOpOpen)) d'.session.ed.edBusyresult d'.session
  | .running _, .fire _, t => ∃ d', t = .running d'
  | _, _, _ => True

/-- What a store does to a device that is sound. -/
theorem store_sound {bigEndian : Bool} {fuel : Nat} {offset val : BitVec 32} {d : EmufsDevice}
    (h : d.Sound) : After (emufsStore bigEndian a fuel offset val)
      (fun fr t => (d.after t fr.2).Sound ∧
        OpensOnce (.running d) (.store offset val a) (.running (d.after t fr.2)))
      (fun _ _ => True) { d.session with used := [] } := by
  by_cases hOper : offset.toNat = emuregOper
  · rw [after_emufsStore_oper hOper]
    rcases h.busy with ⟨hIdle, hPending⟩ | ⟨hBusy, arm, hPending, hFunc⟩
    · rw [if_neg (not_not.mpr hIdle)]
      refine (emufsOp_tidy (h.tidy [])).mono (fun res t ht => ⟨?_, fun _ _ hOp => ?_⟩)
        fun _ _ he => he
      · refine sound_of_tidy ⟨rfl, ht.1.distinct, ht.1.origin, ht.1.balance⟩ (Or.inr ?_)
        refine ⟨rfl, ?_⟩
        show ∃ arm, d.pending ++ _ = [arm] ∧ _
        rw [hPending]
        exact ⟨_, rfl, rfl⟩
      · have hOpening := ht.2 hOp
        exact ⟨hOpening.given, hOpening.again⟩
    · have hNot : d.session.ed.edBusy ≠ 0 := by
        rw [hBusy]
        decide
      rw [if_pos hNot]
      refine ⟨sound_of_tidy (h.tidy []) (Or.inr ⟨hBusy, arm, ?_, hFunc⟩), fun _ hIdle => ?_⟩
      · show d.pending ++ [] = _
        rw [List.append_nil, hPending]
      · exact absurd hIdle hNot
  · refine after_emufsStore_other hOper fun found r ed hArm hHandles hBusy _ => ⟨?_, ?_⟩
    · have hTidy := h.tidy []
      have hSame : Tidy ed.toEmufsData []
          { ed := ed, fds := d.session.fds, used := [], host := d.session.host } := by
        refine ⟨rfl, ?_, ?_, ?_⟩
        · simp only [Emufs.Open, hHandles]
          exact hTidy.distinct
        · simp only [Emufs.Open, hHandles]
          exact hTidy.origin
        · simp only [Emufs.holders, hHandles]
          exact hTidy.balance
      refine sound_of_tidy hSame ?_
      have hPending : (d.after
          { ed := ed, fds := d.session.fds, used := [], host := d.session.host } r).pending =
            d.pending := by
        rw [EmufsDevice.after, hArm]
        exact List.append_nil _
      rw [EmufsDevice.Busy, hPending]
      show (ed.edBusy = 0 ∧ _) ∨ (ed.edBusy = 1 ∧ _)
      rw [hBusy]
      exact h.busy
    · exact fun hIs => absurd hIs hOper

theorem emufsDone_eq (ed : EmufsData) (h : ed.edBusy = 1) : emufsDone ed = .ok {
    dev := { edResult := ed.edBusyresult, edBusy := 0, edBusyresult := 0 }
    irq := some (decide (ed.edBusyresult > 0)) } := by
  rw [emufsDone, if_neg (not_not.mpr h)]
  rfl

/-- The event finds the device busy, and leaves it idle. -/
theorem fire_sound {d : EmufsDevice} {before after : List Arm} {arm : Arm} (h : d.Sound)
    (hPending : d.pending = before ++ arm :: after) :
    ∃ r, emufsDone d.session.ed.toEmufsData = .ok r ∧ (d.done (before ++ after) r).Sound := by
  rcases h.busy with ⟨-, hNone⟩ | ⟨hBusy, arm', hOne, -⟩
  · rw [hNone] at hPending
    cases before <;> cases hPending
  · refine ⟨_, emufsDone_eq _ hBusy, sound_of_tidy ⟨rfl, h.distinct, h.origin, h.balance⟩ ?_⟩
    refine Or.inl ⟨rfl, ?_⟩
    show before ++ after = []
    have hLength : (before ++ arm :: after).length = 1 := by
      rw [← hPending, hOne]
      rfl
    rw [List.length_append, List.length_cons] at hLength
    rw [List.append_eq_nil_iff]
    exact ⟨List.length_eq_zero_iff.mp (by omega), List.length_eq_zero_iff.mp (by omega)⟩

theorem step_sound {bigEndian : Bool} {s s' : EmufsState} {act : EmufsAct}
    (hStep : EmufsState.Step bigEndian s act s') (h : s.Sound) : s'.Sound ∧ OpensOnce s act s' := by
  cases hStep with
  | @store d offset val a fuel found r t hRun =>
    have hSound : d.Sound := h
    have hAfter := after_of_run_ok (store_sound hSound) hRun
    exact hAfter
  | storeFailed hRun hNot => exact ⟨trivial, trivial⟩
  | fire hPending hDone =>
    obtain ⟨r, hOk, hSound⟩ := fire_sound h hPending
    rw [hDone] at hOk
    cases hOk
    exact ⟨hSound, _, rfl⟩
  | fireFailed hPending hDone =>
    obtain ⟨r, hOk, -⟩ := fire_sound h hPending
    rw [hDone] at hOk
    cases hOk

theorem holders_emufsInit (rootfd : Nat) (root : Ident) (fd : Nat) :
    (emufsInit rootfd root).ed.holders fd = if rootfd = fd then 1 else 0 := by
  have hIff (i : Fin maxhandles) : ((emufsInit rootfd root).ed.edHandles i).ehFd = fd ↔
      i.val = 0 ∧ rootfd = fd := by
    show (if i.val = 0 then _ else _ : Handleinfo).ehFd = fd ↔ _
    split
    · next hRoot => simp [hRoot]
    · next hNot =>
      simp only [hNot, false_and, iff_false]
      omega
  rw [Emufs.holders]
  simp only [hIff]
  split
  · next hFd =>
    rw [Finset.card_eq_one]
    refine ⟨⟨0, by decide⟩, ?_⟩
    ext i
    simp [hFd, Fin.ext_iff]
  · next hFd => simp [hFd]

theorem start_sound (rootfd : Nat) (root : Ident) : (emufsStart rootfd root).Sound := by
  have hOpen {i : Fin maxhandles} (hi : (emufsInit rootfd root).ed.Open i) : i.val = 0 := by
    by_contra hNot
    have hFd : 0 ≤ (if i.val = 0 then _ else _ : Handleinfo).ehFd := hi
    rw [if_neg hNot] at hFd
    exact absurd hFd (by decide)
  refine sound_of_tidy ⟨rfl, ?_, ?_, ?_⟩ (Or.inl ⟨rfl, rfl⟩)
  · intro i j hi hj _
    exact Fin.ext ((hOpen hi).trans (hOpen hj).symm)
  · intro i hi
    refine ⟨rootfd, ?_, ?_⟩
    · show (if i.val = 0 then _ else _ : Handleinfo).ehFd = _
      rw [if_pos (hOpen hi)]
    · show FdEvent.opened rootfd (some (if i.val = 0 then _ else _ : Handleinfo).ehIdent) ∈ _
      rw [if_pos (hOpen hi)]
      exact List.mem_singleton_self _
  · intro fd
    show [FdEvent.opened rootfd (some root)].countP _ = _ + (emufsInit rootfd root).ed.holders fd + 0
    rw [holders_emufsInit]
    by_cases hFd : rootfd = fd
    · simp [emufsInit, FdEvent.opens, FdEvent.closes, hFd]
    · simp [emufsInit, FdEvent.opens, FdEvent.closes, hFd]

/-- In every run the handles stay sound, and an open finds the handle that a file has. -/
theorem handles_sound {bigEndian : Bool} {rootfd : Nat} {root : Ident}
    {p : List (EmufsAct × EmufsState)} {t : EmufsState}
    (hp : Path (EmufsState.Step bigEndian) (emufsStart rootfd root) p t) :
    AllStates EmufsState.Sound (emufsStart rootfd root) p ∧
      AllSteps OpensOnce (emufsStart rootfd root) p := by
  constructor
  · refine Path.allStates_of_step (P := EmufsState.Sound) ?_ hp (start_sound rootfd root)
    exact fun _ _ _ hs hStep => (step_sound hStep hs).1
  · refine Path.allSteps_of_invariant (P := EmufsState.Sound) ?_ hp (start_sound rootfd root)
      (AllSteps.of_forall (fun _ _ _ => trivial) _ _)
    exact fun _ _ _ hs _ hStep => step_sound hStep hs

/-- A host on which everything is there, and is the root directory. -/
def plainHost (rootfd : Nat) (root : Ident) : Answers where
  dot := .ok (rootfd + 1)
  enter := .ok ()
  back := .ok ()
  stat := .ok { ident := root, isDir := true, size := 0 }
  opens _ := .ok (rootfd + 2, .ok { ident := root, isDir := true, size := 0 })
  read := .ok []
  write := .ok 0
  dir := .ok (rootfd + 2, [])
  fstat := .ok { ident := root, isDir := true, size := 0 }
  ftruncate := .ok ()

set_option maxRecDepth 20000 in
theorem handles_sound_small : ∃ p : List (EmufsAct × EmufsState),
    AllStates EmufsState.Sound (emufsStart 3 ⟨1, 2⟩) p ∧ AllSteps OpensOnce (emufsStart 3 ⟨1, 2⟩) p ∧
      p.map Prod.fst =
        [.store 12 1 (plainHost 3 ⟨1, 2⟩), .fire ⟨emufsNsecs, 0, .emufsDone, "emufs"⟩] := by
  have hp : ∃ p t, Path (EmufsState.Step false) (emufsStart 3 ⟨1, 2⟩) p t ∧ p.map Prod.fst =
      [.store 12 1 (plainHost 3 ⟨1, 2⟩), .fire ⟨emufsNsecs, 0, .emufsDone, "emufs"⟩] :=
    ⟨_, _, .cons (@EmufsState.Step.store false _ 12 1 (plainHost 3 ⟨1, 2⟩) 1 _ _ _ (by rfl))
      (.cons (@EmufsState.Step.fire false _ [] [] ⟨emufsNsecs, 0, .emufsDone, "emufs"⟩ _
        (by rfl) (by rfl)) (.nil _)), rfl⟩
  obtain ⟨p, t, hp, hActs⟩ := hp
  exact ⟨p, (handles_sound hp).1, (handles_sound hp).2, hActs⟩

/-! ## The runs in which every operation is safe -/

def EmufsState.Alive : EmufsState → Prop
  | .running _ => True
  | .failed _ => False

def StepSafe : EmufsState → EmufsAct → EmufsState → Prop
  | .running d, .store offset val a, _ =>
    offset.toNat = emuregOper → d.session.ed.edBusy = 0 → Safe d.session a val
  | _, _, _ => True

def StepOrderly : EmufsState → EmufsAct → EmufsState → Prop
  | .running d, .store offset val a, _ =>
    offset.toNat = emuregOper → d.session.ed.edBusy = 0 → d.session.ed.Orderly a val
  | _, _, _ => True

theorem stepSafe_iff (s : EmufsState) (act : EmufsAct) (s' : EmufsState) :
    StepSafe s act s' ↔ StepOrderly s act s' := by
  cases s with
  | failed e => exact Iff.rfl
  | running d =>
    cases act with
    | fire arm => exact Iff.rfl
    | store offset val a => exact imp_congr_right fun _ => imp_congr_right fun _ => safe_iff_orderly

/-- Only an operation can abort the emulator. -/
theorem alive_of_safe {bigEndian : Bool} {s s' : EmufsState} {act : EmufsAct}
    (hStep : EmufsState.Step bigEndian s act s') (hSound : s.Sound) (hSafe : StepSafe s act s') :
    s'.Alive := by
  cases hStep with
  | store hRun => trivial
  | fire hPending hDone => trivial
  | fireFailed hPending hDone =>
    obtain ⟨r, hOk, -⟩ := fire_sound hSound hPending
    rw [hDone] at hOk
    cases hOk
  | @storeFailed d offset val a fuel e s hRun hNot =>
    have hEnds : After (emufsStore bigEndian a fuel offset val) (fun _ _ => True)
        (fun e _ => e = .changing) { d.session with used := [] } := by
      by_cases hOper : offset.toNat = emuregOper
      · rw [after_emufsStore_oper hOper]
        split
        · trivial
        · next hIdle =>
          exact (hSafe hOper (not_not.mp hIdle) fuel).mono (fun _ _ _ => trivial) fun _ _ he => he
      · exact after_emufsStore_other hOper fun _ _ _ _ _ _ _ => trivial
    have hChanging := after_of_run_error hEnds hRun
    exact hNot hChanging

/-- A run has only safe operations, and aborts nowhere, exactly when those that open find what they
need. -/
theorem run_safe_iff {bigEndian : Bool} {rootfd : Nat} {root : Ident}
    {p : List (EmufsAct × EmufsState)} {t : EmufsState}
    (hp : Path (EmufsState.Step bigEndian) (emufsStart rootfd root) p t) :
    AllStates EmufsState.Alive (emufsStart rootfd root) p ∧
        AllSteps StepSafe (emufsStart rootfd root) p ↔
      AllSteps StepOrderly (emufsStart rootfd root) p := by
  refine hp.good_iff_allSteps (Q := EmufsState.Sound)
    (fun _ _ _ hs hStep => (step_sound hStep hs).1) ?_ (start_sound rootfd root) trivial
  intro s act s' hs _ hStep
  rw [← stepSafe_iff]
  constructor
  · exact fun h => h.2
  · exact fun h => ⟨alive_of_safe hStep hs h, h⟩

/-- The path is that of a file which is not open yet. -/
def newFile : Answers :=
  { plainHost 3 ⟨1, 2⟩ with
    stat := .ok { ident := ⟨1, 7⟩, isDir := false, size := 0 }
    opens := fun _ => .ok (5, .ok { ident := ⟨1, 7⟩, isDir := false, size := 0 }) }

theorem orderly_newFile : (emufsInit 3 ⟨1, 2⟩).ed.Orderly newFile emuOpOpen := by
  have hRoot : (emufsInit 3 ⟨1, 2⟩).ed.Open ⟨0, by decide⟩ := Int.natCast_nonneg 3
  refine fun _ => ⟨⟨_, rfl, hRoot⟩, fun _ => ⟨⟨4, rfl⟩, rfl, ?_, .inl rfl⟩⟩
  rintro ⟨-, -, -, hFull, -⟩
  exact absurd (hFull ⟨1, by decide⟩) (by unfold Emufs.Open; decide)

/-- The first operation opens a file, and takes the first handle that is free. -/
theorem run_safe_opened : ∃ (p : List (EmufsAct × EmufsState)) (d : EmufsDevice),
    Path (EmufsState.Step false) (emufsStart 3 ⟨1, 2⟩) p (.running d) ∧
      p.map Prod.fst = [.store 12 emuOpOpen newFile] ∧
      (d.session.ed.edHandle, d.session.ed.holders 5) = (1, 1) ∧
      AllStates EmufsState.Alive (emufsStart 3 ⟨1, 2⟩) p ∧
      AllSteps StepSafe (emufsStart 3 ⟨1, 2⟩) p := by
  have hSeen : Scripts.yields (emufsStore false newFile 1 12 emuOpOpen)
      (fun _ s => (s.ed.edHandle, s.ed.holders 5)) { emufsInit 3 ⟨1, 2⟩ with used := [] } =
      some (1, 1) := by decide +kernel
  obtain ⟨⟨found, r⟩, s, hRun, hLook⟩ := Scripts.run_of_yields hSeen
  have hPath : Path (EmufsState.Step false) (emufsStart 3 ⟨1, 2⟩) _ _ :=
    .cons (EmufsState.Step.store hRun) (.nil _)
  obtain ⟨hAlive, hSafe⟩ := (run_safe_iff hPath).mpr ⟨fun _ _ => orderly_newFile, trivial⟩
  exact ⟨_, _, hPath, rfl, hLook, hAlive, hSafe⟩

set_option maxRecDepth 20000 in
/-- An open with a handle that is closed aborts the emulator; with one outside the table it reads
there. -/
theorem open_aborts :
    (∃ p, Path (EmufsState.Step false) (emufsStart 3 ⟨1, 2⟩) p (.failed (.smoke "emufs: fchdir")) ∧
      p.map Prod.fst =
        [.store 0 5 (plainHost 3 ⟨1, 2⟩), .store 12 emuOpOpen (plainHost 3 ⟨1, 2⟩)]) ∧
    ∃ p, Path (EmufsState.Step false) (emufsStart 3 ⟨1, 2⟩) p (.failed (.outside 64)) ∧
      p.map Prod.fst =
        [.store 0 64 (plainHost 3 ⟨1, 2⟩), .store 12 emuOpOpen (plainHost 3 ⟨1, 2⟩)] := by
  constructor
  · exact ⟨_, .cons (@EmufsState.Step.store false _ 0 5 (plainHost 3 ⟨1, 2⟩) 1 _ _ _ (by rfl))
      (.cons (@EmufsState.Step.storeFailed false _ 12 emuOpOpen (plainHost 3 ⟨1, 2⟩) 1 _ _ (by rfl)
        (fun h => by cases h)) (.nil _)), rfl⟩
  · exact ⟨_, .cons (@EmufsState.Step.store false _ 0 64 (plainHost 3 ⟨1, 2⟩) 1 _ _ _ (by rfl))
      (.cons (@EmufsState.Step.storeFailed false _ 12 emuOpOpen (plainHost 3 ⟨1, 2⟩) 1 _ _ (by rfl)
        (fun h => by cases h)) (.nil _)), rfl⟩

end Sys161.Bus
