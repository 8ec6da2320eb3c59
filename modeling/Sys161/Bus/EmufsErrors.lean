import Sys161.Bus.EmufsRuns

/-!
# Operations of the emulator filesystem device that fail

Each takes back what it has done: the registers and the open handles are as they
were, the host is back in its working directory, and of the descriptors that were
opened none is left.
-/

namespace Sys161.Bus

open Exec Runs

set_option autoImplicit false

/-! ## What is left of an operation -/

/-- Each descriptor that was opened has been closed since, as brackets are. -/
inductive Settled : List FdEvent → Prop where
  | nil : Settled []
  | pair {fd : Nat} {file : Option Ident} {l l' : List FdEvent} :
      Settled l → Settled l' → Settled (.opened fd file :: (l ++ .closed fd :: l'))

theorem Settled.append {l l' : List FdEvent} (h : Settled l) (h' : Settled l') :
    Settled (l ++ l') := by
  induction h with
  | nil => exact h'
  | pair hInner _ _ ih =>
    rw [List.cons_append, List.append_assoc, List.cons_append]
    exact .pair hInner ih

theorem Settled.around {l : List FdEvent} (h : Settled l) (fd : Nat) (file : Option Ident) :
    Settled ([.opened fd file] ++ l ++ [.closed fd]) := .pair h .nil

/-- In the account of descriptors nothing has changed. -/
theorem Settled.balance {l : List FdEvent} (h : Settled l) (fd : Nat) :
    l.countP (FdEvent.opens fd) = l.countP (FdEvent.closes fd) := by
  induction h with
  | nil => rfl
  | @pair fd' file l l' _ _ ih ih' =>
    simp only [List.countP_cons, List.countP_append, FdEvent.opens, FdEvent.closes,
      Nat.cast_inj, decide_eq_true_eq, Bool.false_eq_true, if_false, ih, ih']
    omega

structure Undone (s t : Session) : Prop where
  handle : t.ed.edHandle = s.ed.edHandle
  offset : t.ed.edOffset = s.ed.edOffset
  iolen : t.ed.edIolen = s.ed.edIolen
  sameOpen : s.ed.SameOpen t.ed
  cwd : t.host.cwd = s.host.cwd
  fds : ∃ l, t.fds = s.fds ++ l ∧ Settled l

theorem Emufs.SameOpen.refl (ed : Emufs) : ed.SameOpen ed := ⟨fun _ => rfl, fun _ _ => rfl⟩

theorem Emufs.SameOpen.trans {ed ed' ed'' : Emufs} (h : ed.SameOpen ed') (h' : ed'.SameOpen ed'') :
    ed.SameOpen ed'' where
  fd i := (h'.fd i).trans (h.fd i)
  ident i hi := (h'.ident i ((h.open_iff i).mpr hi)).trans (h.ident i hi)

variable {s t : Session} {a : Answers}

theorem Undone.refl (s : Session) : Undone s s where
  handle := rfl
  offset := rfl
  iolen := rfl
  sameOpen := .refl s.ed
  cwd := rfl
  fds := ⟨[], (List.append_nil _).symm, .nil⟩

theorem Undone.trans {u : Session} (h : Undone s t) (h' : Undone t u) : Undone s u where
  handle := h'.handle.trans h.handle
  offset := h'.offset.trans h.offset
  iolen := h'.iolen.trans h.iolen
  sameOpen := h.sameOpen.trans h'.sameOpen
  cwd := h'.cwd.trans h.cwd
  fds := by
    obtain ⟨l, hl, hSettled⟩ := h.fds
    obtain ⟨l', hl', hSettled'⟩ := h'.fds
    refine ⟨l ++ l', ?_, hSettled.append hSettled'⟩
    rw [hl', hl, List.append_assoc]

/-- A slot that is not open has been claimed, and descriptors have been given back. -/
theorem undone_claim {i : Fin maxhandles} (hi : ¬ s.ed.Open i) (file : Ident) {l : List FdEvent}
    (hl : Settled l) : Undone s { s with ed := s.ed.claim i file, fds := s.fds ++ l } where
  handle := rfl
  offset := rfl
  iolen := rfl
  sameOpen := claim_sameOpen hi file
  cwd := rfl
  fds := ⟨l, rfl, hl⟩

theorem Session.NoneLeft.settled {fds : List FdEvent} (h : s.NoneLeft fds) :
    ∃ l, fds = s.fds ++ l ∧ Settled l := by
  obtain rfl | ⟨fd, rfl⟩ := h
  · exact ⟨[], (List.append_nil _).symm, .nil⟩
  · refine ⟨_, List.append_assoc .., ?_⟩
    exact Settled.nil.around fd none

/-! ## Opening -/

/-- What an operation has done by itself, with the directories where they were. -/
def UndoneHere (s t : Session) : Prop := Undone s t ∧ t.host = s.host

theorem UndoneHere.trans {u : Session} (h : UndoneHere s t) (h' : UndoneHere t u) :
    UndoneHere s u := ⟨h.1.trans h'.1, h'.2.trans h.2⟩

theorem openExisting_undone (fuel n : Nat) (expected : Ident)
    (hRoom : s.ed.Has expected ∨ ¬ s.ed.Full) :
    After (emufsOpenExisting a fuel n expected)
      (fun status t => ∀ code, status = .error code → UndoneHere s t) (fun _ _ => True) s := by
  induction fuel generalizing n expected s with
  | zero => trivial
  | succ fuel ih =>
    apply after_openExisting (absurd_room hRoom)
    · exact fun i _ _ code => nofun
    · intro i err fds hi _ _ hFds code _
      obtain ⟨l, rfl, hl⟩ := hFds.settled
      exact ⟨undone_claim hi expected hl, rfl⟩
    · exact fun i fd st _ _ _ _ code => nofun
    · intro i fd st hi _ _ _
      have hTried : UndoneHere s { s with
          ed := s.ed.claim i expected
          fds := s.fds ++ [.opened fd (some st.ident)] ++ [.closed fd] } := by
        rw [List.append_assoc]
        exact ⟨undone_claim hi expected (Settled.nil.around fd (some st.ident)), rfl⟩
      refine (ih (n + 1) st.ident (.inr ?_)).mono (fun status t ht code hCode => ?_)
        fun _ _ he => he
      · rw [hTried.1.sameOpen.full_iff]
        exact fun hFull => hi (hFull i)
      · exact hTried.trans (ht code hCode)

theorem openCreate_undone (hRoom : ∀ file, a.found 0 = some file → s.ed.Has file ∨ ¬ s.ed.Full) :
    After (emufsOpenCreate a) (fun status t => ∀ code, status = .error code → UndoneHere s t)
      (fun _ _ => True) s := by
  have hNat (i : Fin maxhandles) : ¬ ((i.val : Int) < 0) := by omega
  rw [emufsOpenCreate, after_bind]
  cases hFound : a.found 0 with
  | none =>
    refine after_openAndStat_none hFound fun err fds hFds code _ => ?_
    obtain ⟨l, rfl, hl⟩ := hFds.settled
    exact ⟨⟨rfl, rfl, rfl, .refl s.ed, rfl, l, rfl, hl⟩, rfl⟩
  | some file =>
    obtain ⟨fd, st, hOpens, rfl⟩ := exists_open_of_found hFound
    rw [after_openAndStat_open hOpens, after_bind]
    obtain ⟨i, hi, -, hPick⟩ | ⟨-, i, hi, hPick⟩ | ⟨hNot, hFull, -⟩ :=
      after_pickhandle_cases st.ident { s with fds := s.fds ++ [.opened fd (some st.ident)] }
    · have hOpen : 0 ≤ (s.ed.edHandles i).ehFd := hi
      rw [hPick, after_ite, if_neg (hNat i), after_bind, after_handleAt, if_pos hOpen, after_bind,
        after_logFd, after_pure]
      intro code hCode
      cases hCode
    · have hFd : ((s.ed.claim i st.ident).edHandles i).ehFd = (s.ed.edHandles i).ehFd :=
        (claim_sameOpen hi st.ident).fd i
      have hClosed : ¬ 0 ≤ ((s.ed.claim i st.ident).edHandles i).ehFd := by
        rw [hFd]
        exact hi
      rw [hPick, after_ite, if_neg (hNat i), after_bind, after_handleAt, if_neg hClosed, after_bind,
        after_setHandle, after_pure]
      intro code hCode
      cases hCode
    · exact absurd_room (hRoom st.ident hFound) hNot hFull

theorem opened_undone {curdir : Nat} {isdir : Bool} {status : Except (BitVec 32) Int}
    (hBack : a.back = .ok ()) (hHandle : ∀ handle, status = .ok handle → 0 ≤ handle)
    (h : ∀ code, status = .error code → UndoneHere s t) :
    After (emufsOpened a curdir isdir status)
      (fun res u => res ≠ emuResSuccess → ∃ t, UndoneHere s t ∧ u = t.back curdir)
      (fun _ _ => False) t := by
  cases status with
  | error code =>
    rw [after_emufsOpened_error hBack]
    exact fun _ => ⟨t, h code rfl, rfl⟩
  | ok handle =>
    rw [after_emufsOpened_ok (hHandle handle rfl) hBack]
    exact fun hNot => absurd rfl hNot

/-- Between the two changes of directory. -/
theorem openHere_undone {creating : Bool} {curdir : Nat} (fuel : Nat)
    (hRoom : s.ed.Room a creating) (hBack : a.back = .ok ()) :
    After (emufsOpenHere a fuel creating curdir)
      (fun res u => res ≠ emuResSuccess → ∃ t, UndoneHere s t ∧ u = t.back curdir)
      (fun e _ => e = .changing) s := by
  rw [emufsOpenHere]
  rw [Emufs.Room] at hRoom
  cases hStat : a.stat with
  | error err =>
    rw [hStat] at hRoom
    cases creating with
    | false =>
      show After (do popdir a curdir; pure (errnoToCode err)) _ _ s
      rw [after_bind, after_popdir hBack, after_pure]
      exact fun _ => ⟨s, ⟨.refl s, rfl⟩, rfl⟩
    | true =>
      show After (do let status ← emufsOpenCreate a; emufsOpened a curdir false status) _ _ s
      rw [after_bind]
      refine ((openCreate_safe (hRoom rfl)).and (openCreate_undone (hRoom rfl))).mono
        (fun status t ht => ?_) fun _ _ he => he.1.elim
      exact (opened_undone hBack ht.1.2 ht.2).mono (fun _ _ h => h) fun _ _ he => he.elim
  | ok st =>
    rw [hStat] at hRoom
    show After (do
      let status ← emufsOpenExisting a fuel 0 st.ident
      emufsOpened a curdir st.isDir status) _ _ s
    rw [after_bind]
    refine ((openExisting_safe fuel 0 hRoom).and (openExisting_undone fuel 0 st.ident hRoom)).mono
      (fun status t ht => ?_) fun _ _ he => he.1
    exact (opened_undone hBack ht.1.2 ht.2).mono (fun _ _ h => h) fun _ _ he => he.elim

/-- The way into the directory and back. -/
theorem entered_undone {i : Fin maxhandles} {oldfd : Nat} (h : UndoneHere (s.entered i oldfd) t) :
    Undone s (t.back oldfd) where
  handle := h.1.handle
  offset := h.1.offset
  iolen := h.1.iolen
  sameOpen := (entered_sameOpen s i oldfd).trans h.1.sameOpen
  cwd := by
    show t.host.dirs oldfd = s.host.cwd
    rw [h.2]
    exact Function.update_self ..
  fds := by
    obtain ⟨l, hl, hSettled⟩ := h.1.fds
    refine ⟨[.opened oldfd none] ++ l ++ [.closed oldfd], ?_, hSettled.around oldfd none⟩
    show t.fds ++ _ = _
    rw [hl]
    simp [Session.entered]

theorem emufsOpen_undone {i : Fin maxhandles} {creating : Bool} (fuel : Nat)
    (hHandle : s.ed.edHandle.toNat = i.val) (hOpen : s.ed.Open i) (hFull : ¬ s.ed.Full)
    (hEnter : a.enter = .ok ()) (hBack : a.back = .ok ()) :
    After (emufsOpen a fuel creating) (fun res t => res ≠ emuResSuccess → Undone s t)
      (fun e _ => e = .changing ∨ e = .smoke "." ∧ ∃ err, a.dot = .error err) s := by
  by_cases hLong : emuBufSize ≤ s.ed.edIolen.toNat
  · rw [after_emufsOpen_long hLong]
    exact fun _ => .refl s
  · have hDir : a.fchdir (s.ed.edHandles i).ehFd = .ok () := (if_neg (not_lt.mpr hOpen)).trans hEnter
    refine (after_emufsOpen (not_le.mp hLong) hHandle).mpr ?_
    rw [hDir]
    cases hDot : a.dot with
    | error err => exact .inr ⟨rfl, err, rfl⟩
    | ok oldfd =>
      have hRoom : (s.entered i oldfd).ed.Room a creating := by
        rw [Emufs.Room]
        split
        · exact .inr hFull
        · exact fun _ _ _ => .inr hFull
      refine (openHere_undone fuel hRoom hBack).mono (fun res u hu hNot => ?_) fun _ _ he => .inl he
      obtain ⟨t, ht, rfl⟩ := hu hNot
      exact entered_undone ht

/-! ## The operations on a handle -/

theorem undone_use (s : Session) (fd : Int) : Undone s (s.use fd) where
  handle := rfl
  offset := rfl
  iolen := rfl
  sameOpen := .refl s.ed
  cwd := rfl
  fds := ⟨[], (List.append_nil _).symm, .nil⟩

variable {i : Fin maxhandles} {op : BitVec 32}

theorem readdir_undone (hHandle : s.ed.edHandle.toNat = i.val) (hBack : a.back = .ok ()) :
    After (emufsReaddir a) (fun res t => res ≠ emuResSuccess → Undone s t) (fun _ _ => False) s := by
  have hHere (herefd : Nat) (used : List Int) (host : HostDirs) (hCwd : host.cwd = s.host.cwd) :
      Undone s ⟨s.ed, s.fds ++ [.opened herefd none] ++ [.closed herefd], used, host⟩ :=
    ⟨rfl, rfl, rfl, .refl s.ed, hCwd, _, List.append_assoc .., Settled.nil.around herefd none⟩
  rw [emufsReaddir, after_bind, after_get, after_ite]
  split
  · exact fun _ => .refl s
  · cases a.dot with
    | error err => exact fun _ => .refl s
    | ok herefd =>
      rw [after_bind, after_openDot, after_bind]
      refine (after_useHandle (s := { s with
        fds := s.fds ++ [.opened herefd none], host := s.host.openDot herefd }) hHandle).mpr ?_
      dsimp only
      cases a.fchdir (s.ed.edHandles i).ehFd with
      | error err => exact fun _ => hHere herefd _ _ rfl
      | ok u =>
        cases a.dir with
        | error err =>
          rw [after_bind, after_enterDir, after_bind, after_leaveDir, after_pure]
          refine fun _ => hHere herefd _ _ ?_
          rw [Answers.left, hBack]
          exact Function.update_self ..
        | ok p =>
          obtain ⟨dirfd, names⟩ := p
          rw [after_bind, after_enterDir, after_bind, after_logFd, after_bind, after_modEd, after_bind,
            after_logFd, after_bind, after_leaveDir, after_pure]
          exact fun hNot => absurd rfl hNot

theorem opHandle_undone (hHandle : s.ed.edHandle.toNat = i.val) (hBack : a.back = .ok ()) :
    After (emufsOpHandle a op) (fun res t => res ≠ emuResSuccess → Undone s t)
      (fun _ _ => False) s := by
  have hUsed := undone_use s (s.ed.edHandles i).ehFd
  rw [emufsOpHandle]
  split
  · rw [emufsClose, after_bind, after_useHandle hHandle, after_bind, after_logFd, after_bind,
      after_get, after_bind]
    have hSame : (s.use (s.ed.edHandles i).ehFd).ed.edHandle.toNat = i.val := hHandle
    rw [hSame, after_setHandle]
    exact fun hNot => absurd rfl hNot
  split
  · rw [emufsRead, after_bind, after_get, after_ite]
    split
    · exact fun _ => .refl s
    · rw [after_bind, after_useHandle hHandle]
      cases a.read with
      | error err => exact fun _ => hUsed
      | ok bytes => exact fun hNot => absurd rfl hNot
  split
  · exact readdir_undone hHandle hBack
  split
  · rw [emufsWrite, after_bind, after_get, after_ite]
    split
    · exact fun _ => .refl s
    · rw [after_bind, after_useHandle hHandle]
      cases a.write with
      | error err => exact fun _ => hUsed
      | ok n => exact fun hNot => absurd rfl hNot
  split
  · rw [emufsGetsize, after_bind, after_useHandle hHandle]
    cases a.fstat with
    | error err => exact fun _ => hUsed
    | ok st => exact fun hNot => absurd rfl hNot
  split
  · rw [emufsTrunc, after_bind, after_useHandle hHandle]
    cases a.ftruncate with
    | error err => exact fun _ => hUsed
    | ok u => exact fun hNot => absurd rfl hNot
  · exact fun _ => .refl s

/-! ## Operations -/

/-- An operation that gives a result other than success has undone what it did; and there is a
result, unless the path never stops changing or the working directory cannot be opened. -/
theorem emufsOp_undone (fuel : Nat) (hValid : s.ed.ValidHandle) (hFull : ¬ s.ed.Full)
    (hEnter : Opens op → a.enter = .ok ()) (hBack : a.back = .ok ()) :
    After (emufsOp a fuel op) (fun res t => res ≠ emuResSuccess → Undone s t)
      (fun e _ => e = .changing ∨ e = .smoke "." ∧ ∃ err, a.dot = .error err) s := by
  by_cases hOp : Opens op
  · obtain ⟨i, hHandle, hOpen⟩ := hValid
    rw [after_emufsOp_open hOp]
    exact emufsOpen_undone fuel hHandle hOpen hFull (hEnter hOp) hBack
  · refine after_emufsOp_handle hOp (fun i hHandle _ => ?_) fun _ _ => .refl s
    exact (opHandle_undone hHandle hBack).mono (fun _ _ h => h) fun _ _ he => he.elim

/-- An operation that is started with a handle that is open, which is a directory where a path is
opened from it, and with a slot left, either aborts for want of a working directory or leaves its
result in the device: and where that is not success, nothing else has changed. -/
theorem emufs_errors {bigEndian : Bool} {d : EmufsDevice} {offset op : BitVec 32} {t : EmufsState}
    (hStep : EmufsState.Step bigEndian (.running d) (.store offset op a) t)
    (hOper : offset.toNat = emuregOper) (hIdle : d.session.ed.edBusy = 0)
    (hValid : d.session.ed.ValidHandle) (hFull : ¬ d.session.ed.Full)
    (hEnter : Opens op → a.enter = .ok ()) (hBack : a.back = .ok ()) :
    (t = .failed (.smoke ".") ∧ ∃ err, a.dot = .error err) ∨
      ∃ d', t = .running d' ∧ (d'.session.ed.edBusyresult ≠ emuResSuccess →
        Undone d.session d'.session) := by
  have hStore (fuel : Nat) : After (emufsStore bigEndian a fuel offset op)
      (fun _ u => u.ed.edBusyresult ≠ emuResSuccess → Undone d.session u)
      (fun e _ => e = .changing ∨ e = .smoke "." ∧ ∃ err, a.dot = .error err)
      { d.session with used := [] } := by
    rw [after_emufsStore_oper hOper, if_neg (not_not.mpr hIdle)]
    refine (emufsOp_undone (s := { d.session with used := [] }) fuel hValid hFull hEnter
      hBack).mono (fun res u hu hNot => ?_) fun _ _ he => he
    have hUndone := hu hNot
    exact ⟨hUndone.handle, hUndone.offset, hUndone.iolen, hUndone.sameOpen.trans ⟨fun _ => rfl,
      fun _ _ => rfl⟩, hUndone.cwd, hUndone.fds⟩
  cases hStep with
  | store hRun =>
    have hUndone := after_of_run_ok (hStore _) hRun
    exact .inr ⟨_, rfl, hUndone⟩
  | storeFailed hRun hNot =>
    have hFailed := after_of_run_error (hStore _) hRun
    obtain rfl | ⟨rfl, hDot⟩ := hFailed
    · exact absurd rfl hNot
    · exact .inl ⟨rfl, hDot⟩

/-- A host on which the path becomes another file before it is opened, and `fstat` fails after
that. -/
def failingHost : Answers :=
  { plainHost 3 ⟨1, 2⟩ with
    stat := .ok { ident := ⟨1, 5⟩, isDir := false, size := 0 }
    opens := fun n =>
      if n = 0 then .ok (5, .ok { ident := ⟨1, 6⟩, isDir := false, size := 0 })
      else .ok (5, .error .eio) }

set_option maxRecDepth 20000 in
theorem emufs_errors_media : ∃ d : EmufsDevice,
    EmufsState.Step false (emufsStart 3 ⟨1, 2⟩) (.store 12 emuOpOpen failingHost) (.running d) ∧
      d.session.ed.edBusyresult = emuResMedia ∧ Undone (emufsInit 3 ⟨1, 2⟩) d.session := by
  have hStep : ∃ d : EmufsDevice,
      EmufsState.Step false (emufsStart 3 ⟨1, 2⟩) (.store 12 emuOpOpen failingHost) (.running d) ∧
        d.session.ed.edBusyresult = emuResMedia :=
    ⟨_, @EmufsState.Step.store false _ 12 emuOpOpen failingHost 2 _ _ _ (by rfl), rfl⟩
  obtain ⟨d, hStep, hResult⟩ := hStep
  have hNotFull : ¬ (emufsInit 3 ⟨1, 2⟩).ed.Full := by
    intro hFull
    have hOpen : (0 : Int) ≤ -1 := hFull ⟨1, by decide⟩
    exact absurd hOpen (by decide)
  have hValid : (emufsInit 3 ⟨1, 2⟩).ed.ValidHandle := by
    have hOpen : (0 : Int) ≤ 3 := by decide
    exact ⟨⟨0, by decide⟩, rfl, hOpen⟩
  obtain ⟨hFailed, -⟩ | ⟨d', hRunning, hUndone⟩ :=
    emufs_errors hStep rfl rfl hValid hNotFull (fun _ => rfl) rfl
  · cases hFailed
  · obtain rfl := EmufsState.running.inj hRunning
    refine ⟨d, hStep, hResult, hUndone ?_⟩
    rw [hResult]
    decide

end Sys161.Bus
