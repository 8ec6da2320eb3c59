import Sys161.Lib.Framing
import Sys161.Lib.Runs
import Sys161.Stat161.Display

/-!
# How the meter client reads

The loop in `dometer` of `stat161.c`: what comes from the meter is kept in a
buffer, and the lines in it are processed. A buffer that is full without a line
is dropped.
-/

namespace Sys161.Stat161

open CString Framing Runs

set_option autoImplicit false

def bufsize : Nat := 4096

def newline : BitVec 8 := 0x0a

/-- The client, and what is in the buffer. -/
structure Conn where
  client : Client
  buf : Text

/-- What is taken off the buffer at a time. -/
inductive Piece where
  | line (text : Text)
  | overrun (text : Text)
deriving DecidableEq

def overrun (c : Client) : Client := c.complain (ascii "stat161: Input overrun\n")

/-- The lines that the loop over the buffer hands to `processline`, in so many turns. -/
def processlines : Nat → Conn → List Piece × Except Client Conn
  | 0, s => ([], .ok s)
  | n + 1, s =>
    match s.buf.idxOf? newline with
    | none => ([], .ok s)
    | some x =>
      let line := s.buf.take x
      match processline s.client line with
      | .error c => ([.line line], .error c)
      | .ok c =>
        let r := processlines n { client := c, buf := s.buf.drop (x + 1) }
        (.line line :: r.1, r.2)

/-- The check before `read`. -/
def makeRoom : List Piece × Except Client Conn → List Piece × Except Client Conn
  | (lines, .error c) => (lines, .error c)
  | (lines, .ok s) =>
    if s.buf.length = bufsize then
      (lines ++ [.overrun s.buf], .ok { client := overrun s.client, buf := [] })
    else
      (lines, .ok s)

/-- The loop in `dometer` from one `read` to the next, where it gives some bytes. -/
def dometer (s : Conn) (data : Text) : List Piece × Except Client Conn :=
  let s := { s with buf := s.buf ++ data }
  makeRoom (processlines (s.buf.length + 1) s)

/-- The client waits in `read`, or `dometer` has returned at the end of the stream or where `read`
failed, with the message that is written then, or the client has exited. -/
inductive Session where
  | waiting (s : Conn)
  | returned (c : Client)
  | failed (c : Client) (message : Text)
  | exited (c : Client)

/-- What was read, and what was taken off the buffer. -/
structure Label where
  data : Text
  pieces : List Piece

def Session.after : Except Client Conn → Session
  | .error c => .exited c
  | .ok s => .waiting s

inductive Session.Step : Session → Label → Session → Prop where
  | receive {s : Conn} {data : Text} : data ≠ [] → s.buf.length + data.length ≤ bufsize →
      Session.Step (.waiting s) ⟨data, (dometer s data).1⟩ (.after (dometer s data).2)
  | hangup {s : Conn} : Session.Step (.waiting s) ⟨[], []⟩ (.returned s.client)
  | fails {s : Conn} (strerror : Text) :
      Session.Step (.waiting s) ⟨[], []⟩
        (.failed s.client (ascii "stat161: read: " ++ strerror ++ ascii "\n"))

/-- The client as `loop` starts it on a connection, once the interval is sent. -/
def Session.start (c : Client) : Session := .waiting { client := reset c, buf := [] }

def received (p : List (Label × Session)) : Text := (p.map fun e => e.1.data).flatten

def taken (p : List (Label × Session)) : List Piece := (p.map fun e => e.1.pieces).flatten

/-- What the client has come to. It is an error where it has exited. -/
def Session.client : Session → Except Client Client
  | .waiting s => .ok s.client
  | .returned c => .ok c
  | .failed c _ => .ok c
  | .exited c => .error c

/-! ## The pieces of a stream -/

/-- A line, if there is one in the first bytes, or as many bytes as the buffer holds. -/
def cutPiece (l : Text) : Option (Piece × Text) :=
  match (l.take bufsize).idxOf? newline with
  | some x => some (.line (l.take x), l.drop (x + 1))
  | none => if bufsize ≤ l.length then some (.overrun (l.take bufsize), l.drop bufsize) else none

theorem cutPiece_line {f r : Text} (hLine : newline ∉ f) (hFits : f.length < bufsize) :
    cutPiece (f ++ newline :: r) = some (.line f, r) := by
  have hFirst : ((f ++ newline :: r).take bufsize).idxOf? newline = some f.length := by
    rw [idxOf?_eq_some_split]
    obtain ⟨k, hk⟩ := Nat.exists_eq_add_of_lt hFits
    refine ⟨f, r.take k, ?_, hLine, rfl⟩
    rw [hk, Nat.add_assoc, List.take_length_add_append, List.take_succ_cons]
  rw [cutPiece, hFirst]
  simp

theorem cutPiece_overrun {f r : Text} (hNone : newline ∉ f) (hFull : f.length = bufsize) :
    cutPiece (f ++ r) = some (.overrun f, r) := by
  have hFirst : ((f ++ r).take bufsize).idxOf? newline = none := by
    rw [← hFull, List.take_left]
    exact List.idxOf?_eq_none_iff.mpr hNone
  rw [cutPiece, hFirst]
  dsimp only
  rw [if_pos (by rw [List.length_append]; omega), ← hFull, List.take_left, List.drop_left]

theorem cutPiece_none {l : Text} : cutPiece l = none ↔ newline ∉ l ∧ l.length < bufsize := by
  unfold cutPiece
  constructor
  · intro h
    split at h
    · cases h
    · next hFirst =>
      split at h
      · cases h
      · next hShort =>
        rw [Nat.not_le] at hShort
        rw [List.take_of_length_le (Nat.le_of_lt hShort)] at hFirst
        exact ⟨List.idxOf?_eq_none_iff.mp hFirst, hShort⟩
  · rintro ⟨hNone, hShort⟩
    rw [List.take_of_length_le (Nat.le_of_lt hShort), List.idxOf?_eq_none_iff.mpr hNone]
    exact if_neg (Nat.not_le.mpr hShort)

/-- The bytes of a piece. -/
def Piece.bytes : Piece → Text
  | .line text => text ++ [newline]
  | .overrun text => text

/-- A line is shorter than the buffer, and what is dropped fills it. -/
def Piece.Sound : Piece → Prop
  | .line text => newline ∉ text ∧ text.length < bufsize
  | .overrun text => newline ∉ text ∧ text.length = bufsize

theorem cutPiece_some {l r : Text} {f : Piece} :
    cutPiece l = some (f, r) ↔ l = f.bytes ++ r ∧ f.Sound := by
  constructor
  · intro h
    cases hFirst : (l.take bufsize).idxOf? newline with
    | some x =>
      obtain ⟨f', r', hTake, hLine, rfl⟩ := (idxOf?_eq_some_split newline).mp hFirst
      have hFits : f'.length < bufsize := by
        have hLength := congrArg List.length hTake
        rw [List.length_take, List.length_append, List.length_cons] at hLength
        omega
      have hText : l = f' ++ newline :: (r' ++ l.drop bufsize) := by
        rw [← List.cons_append, ← List.append_assoc, ← hTake, List.take_append_drop]
      rw [hText, cutPiece_line hLine hFits] at h
      cases h
      exact ⟨by rw [Piece.bytes, List.append_assoc]; exact hText, hLine, hFits⟩
    | none =>
      rw [cutPiece, hFirst] at h
      dsimp only at h
      split at h
      · next hFull =>
        cases h
        exact ⟨(List.take_append_drop ..).symm, List.idxOf?_eq_none_iff.mp hFirst,
          List.length_take_of_le hFull⟩
      · cases h
  · rintro ⟨rfl, hSound⟩
    cases f with
    | line text => simpa [Piece.bytes] using cutPiece_line hSound.1 hSound.2
    | overrun text => exact cutPiece_overrun hSound.1 hSound.2

def pieceCutter : Cutter (BitVec 8) Piece where
  cut := cutPiece
  shorter {l f r} h := by
    obtain ⟨rfl, hSound⟩ := cutPiece_some.mp h
    cases f with
    | line text =>
      rw [Piece.bytes, List.length_append, List.length_append, List.length_singleton]
      omega
    | overrun text =>
      have hFull : text.length = 4096 := hSound.2
      rw [Piece.bytes, List.length_append]
      omega
  extend m h := by
    obtain ⟨rfl, hSound⟩ := cutPiece_some.mp h
    exact cutPiece_some.mpr ⟨by simp, hSound⟩

/-- The pieces of a stream, and what is no piece yet. -/
def streamPieces (stream : Text) : List Piece × Text := pieceCutter.frames stream

/-! ## What comes of the pieces -/

def act (c : Client) : Piece → Except Client Client
  | .line text => processline c text
  | .overrun _ => .ok (overrun c)

/-- The pieces up to the one at which the client exits, and the client then. -/
def heard : Client → List Piece → List Piece × Except Client Client
  | c, [] => ([], .ok c)
  | c, f :: fs =>
    match act c f with
    | .error c => ([f], .error c)
    | .ok c => (f :: (heard c fs).1, (heard c fs).2)

theorem heard_append {c c' : Client} {fs : List Piece} {l : List Piece}
    (h : heard c fs = (l, .ok c')) (gs : List Piece) :
    heard c (fs ++ gs) = (l ++ (heard c' gs).1, (heard c' gs).2) := by
  induction fs generalizing c l with
  | nil =>
    cases h
    rfl
  | cons f fs ih =>
    rw [List.cons_append, heard]
    rw [heard] at h
    cases hAct : act c f with
    | error e =>
      rw [hAct] at h
      cases h
    | ok d =>
      rw [hAct] at h
      dsimp only at h ⊢
      obtain ⟨rfl, hOk⟩ := Prod.mk.inj h
      rw [ih (l := (heard d fs).1) (by rw [← hOk])]
      rfl

/-- What is left of the buffer goes with the client. -/
def keeping (rest : Text) (r : List Piece × Except Client Client) :
    List Piece × Except Client Conn :=
  (r.1, r.2.map fun c => { client := c, buf := rest })

theorem makeRoom_cons (f : Piece) (r : List Piece × Except Client Conn) :
    makeRoom (f :: r.1, r.2) = (f :: (makeRoom r).1, (makeRoom r).2) := by
  obtain ⟨lines, e⟩ := r
  cases e with
  | error c => rfl
  | ok s =>
    unfold makeRoom
    dsimp only
    split
    · rfl
    · rfl

theorem streamPieces_nil : streamPieces [] = ([], []) := by
  have hCut : pieceCutter.cut [] = none := rfl
  rw [streamPieces, Cutter.frames_none hCut]

/-- The loop over the buffer and the check behind it take the pieces off. -/
theorem makeRoom_processlines {n : Nat} {s : Conn} (hTurns : s.buf.length < n)
    (hSize : s.buf.length ≤ bufsize) :
    makeRoom (processlines n s) =
      keeping (streamPieces s.buf).2 (heard s.client (streamPieces s.buf).1) := by
  induction n generalizing s with
  | zero => omega
  | succ n ih =>
    obtain ⟨c, buf⟩ := s
    dsimp only at hTurns hSize ⊢
    unfold streamPieces
    rw [processlines]
    cases hFirst : buf.idxOf? newline with
    | none =>
      have hNone := List.idxOf?_eq_none_iff.mp hFirst
      dsimp only
      rw [makeRoom]
      split
      · next hFull =>
        have hCut : pieceCutter.cut buf = some (.overrun buf, []) :=
          cutPiece_some.mpr ⟨(List.append_nil _).symm, hNone, hFull⟩
        have hEmpty : pieceCutter.frames [] = ([], []) := streamPieces_nil
        rw [Cutter.frames_some hCut, hEmpty]
        rfl
      · next hRoom =>
        have hCut : pieceCutter.cut buf = none :=
          cutPiece_none.mpr ⟨hNone, Nat.lt_of_le_of_ne hSize hRoom⟩
        rw [Cutter.frames_none hCut]
        rfl
    | some x =>
      obtain ⟨f, r, rfl, hLine, rfl⟩ := (idxOf?_eq_some_split newline).mp hFirst
      rw [List.length_append, List.length_cons] at hTurns hSize
      have hCut : pieceCutter.cut (f ++ newline :: r) = some (.line f, r) :=
        cutPiece_line hLine (by omega)
      have hBehind : (f ++ newline :: r).drop (f.length + 1) = r := by
        rw [List.append_cons, List.drop_left' (by simp)]
      dsimp only
      rw [Cutter.frames_some hCut, List.take_left, hBehind, heard, act]
      cases processline c f with
      | error c' => rfl
      | ok c' =>
        dsimp only
        rw [makeRoom_cons, ih (s := { client := c', buf := r }) (by dsimp only; omega)
          (by dsimp only; omega)]
        rfl

theorem dometer_eq {s : Conn} {data : Text} (h : s.buf.length + data.length ≤ bufsize) :
    dometer s data = keeping (streamPieces (s.buf ++ data)).2
      (heard s.client (streamPieces (s.buf ++ data)).1) :=
  makeRoom_processlines (Nat.lt_succ_self _) (by rwa [List.length_append])

/-! ## Runs -/

/-- What has come of a run so far: the pieces of the stream were taken, each was processed up to the
exit of the client, and what is no piece yet is kept. -/
def Shown (c : Client) (p : List (Label × Session)) (t : Session) : Prop :=
  (taken p, t.client) = heard (reset c) (streamPieces (received p)).1 ∧
    ∀ s, t = .waiting s → s.buf = (streamPieces (received p)).2

/-- The lines of a stream, and the part of a line at its end. -/
def streamLines (stream : Text) : List Text × Text := (endedBy newline).frames stream

/-- No line of a stream fills the buffer. -/
def FitLines (stream : Text) : Prop :=
  ∀ piece, piece <:+: stream → newline ∉ piece → piece.length < bufsize

/-- Short lines are the pieces. -/
theorem streamPieces_of_fitLines {stream : Text} (h : FitLines stream) :
    streamPieces stream = ((streamLines stream).1.map .line, (streamLines stream).2) := by
  unfold streamPieces streamLines
  induction stream using (endedBy newline).frames_induct with
  | hNone l hCut =>
    have hLine := (cutAt_eq_none_iff newline).mp hCut
    have hNone : pieceCutter.cut l = none := cutPiece_none.mpr ⟨hLine, h l List.infix_rfl hLine⟩
    rw [Cutter.frames_none hCut, Cutter.frames_none hNone]
    rfl
  | hSome l f r hCut ih =>
    obtain ⟨rfl, hLine⟩ := (cutAt_eq_some_iff newline).mp hCut
    have hFits := h f (List.prefix_append ..).isInfix hLine
    have hSome : pieceCutter.cut (f ++ newline :: r) = some (.line f, r) :=
      cutPiece_line hLine hFits
    have hRest : FitLines r := fun piece hPiece =>
      h piece (hPiece.trans ⟨f ++ [newline], [], by simp⟩)
    rw [Cutter.frames_some hCut, Cutter.frames_some hSome, ih hRest]
    rfl

variable {c : Client} {p : List (Label × Session)} {t : Session}

theorem received_concat (p : List (Label × Session)) (l : Label) (t : Session) :
    received (p ++ [(l, t)]) = received p ++ l.data := by
  simp [received]

theorem taken_concat (p : List (Label × Session)) (l : Label) (t : Session) :
    taken (p ++ [(l, t)]) = taken p ++ l.pieces := by
  simp [taken]

/-- Every read goes on where the one before has ended. -/
theorem Shown.step {l : Label} {t' : Session} (h : Shown c p t) (hStep : Session.Step t l t') :
    Shown c (p ++ [(l, t')]) t' := by
  obtain ⟨hHeard, hKept⟩ := h
  unfold Shown
  rw [received_concat, taken_concat]
  cases hStep with
  | @receive s data hSome hRoom =>
    have hBuf := hKept s rfl
    have hStream : streamPieces (received p ++ data) =
        ((streamPieces (received p)).1 ++ (streamPieces (s.buf ++ data)).1,
          (streamPieces (s.buf ++ data)).2) := by
      rw [hBuf]
      exact Cutter.frames_append ..
    rw [hStream, heard_append hHeard.symm, dometer_eq hRoom]
    cases hNext : heard s.client (streamPieces (s.buf ++ data)).1 with
    | mk pieces e =>
      cases e with
      | error d => exact ⟨rfl, fun s' hs' => by cases hs'⟩
      | ok d =>
        refine ⟨rfl, fun s' hs' => ?_⟩
        cases hs'
        rfl
  | hangup =>
    simp only [List.append_nil]
    exact ⟨hHeard, fun s' hs' => by cases hs'⟩
  | fails =>
    simp only [List.append_nil]
    exact ⟨hHeard, fun s' hs' => by cases hs'⟩

theorem shown_of_run (hRun : Path Session.Step (.start c) p t) : Shown c p t := by
  apply hRun.invariant_history
  · unfold Shown received taken
    rw [List.map_nil, List.map_nil, List.flatten_nil, List.flatten_nil, streamPieces_nil]
    refine ⟨rfl, fun s hs => ?_⟩
    cases hs
    rfl
  · intro q u l u' _ hShown hStep
    exact hShown.step hStep

/-- However a stream comes in pieces, what is taken of it and what the client has come to are those
of the stream; where the lines are shorter than the buffer they are the lines. -/
theorem stat161_stream (hRun : Path Session.Step (.start c) p t) :
    Shown c p t ∧
      (FitLines (received p) →
        (taken p, t.client) = heard (reset c) ((streamLines (received p)).1.map .line)) := by
  have hShown := shown_of_run hRun
  refine ⟨hShown, fun hFit => ?_⟩
  rw [hShown.1, streamPieces_of_fitLines hFit]

/-- The client as the program starts. -/
def fresh : Client where
  fields _ := { lastval := 0, width := 0, header := [] }
  nfields := 0
  linesSinceHeader := 100000
  warned := false
  written := []

/-- Two reads, the first of which ends within the header. -/
theorem stat161_stream_hello : ∃ p t, Path Session.Step (.start fresh) p t ∧
    received p = ascii "HEAD nsec\nDATA 7\n" ∧
    (taken p, t.client) = heard (reset fresh)
      ((streamLines (ascii "HEAD nsec\nDATA 7\n")).1.map .line) := by
  have hRun := Path.cons (@Session.Step.receive { client := reset fresh, buf := [] }
      (ascii "HEAD ns") (by decide) (by decide))
    (.cons (@Session.Step.receive { client := reset fresh, buf := ascii "HEAD ns" }
      (ascii "ec\nDATA 7\n") (by decide) (by decide)) (.nil _))
  have hFit : FitLines (ascii "HEAD nsec\nDATA 7\n") :=
    fun piece hPiece _ => Nat.lt_of_le_of_lt hPiece.length_le (by decide)
  exact ⟨_, _, hRun, rfl, (stat161_stream hRun).2 hFit⟩

theorem streamPieces_full {line : Text} (hLine : newline ∉ line) (hFull : line.length = bufsize) :
    streamPieces line = ([.overrun line], []) := by
  have hCut : pieceCutter.cut line = some (.overrun line, []) :=
    cutPiece_some.mpr ⟨(List.append_nil _).symm, hLine, hFull⟩
  have hEmpty : pieceCutter.frames [] = ([], []) := streamPieces_nil
  rw [streamPieces, Cutter.frames_some hCut, hEmpty]

/-- A line that fills the buffer is not processed, and the end of it is an empty line. -/
theorem drops_at_bufsize {line : Text} (hLine : newline ∉ line) (hFull : line.length = bufsize) :
    ∃ p t, Path Session.Step (.start fresh) p t ∧ received p = line ++ [newline] ∧
      (streamLines (line ++ [newline])).1 = [line] ∧ taken p = [.overrun line, .line []] := by
  have hFirst : dometer { client := reset fresh, buf := [] } line =
      ([.overrun line], .ok { client := overrun (reset fresh), buf := [] }) := by
    rw [dometer_eq (by simp [hFull]), List.nil_append, streamPieces_full hLine hFull]
    rfl
  have hSome : line ≠ [] := by
    rintro rfl
    cases hFull
  have hRead := @Session.Step.receive { client := reset fresh, buf := [] } line hSome
    (by simp [hFull])
  rw [hFirst] at hRead
  have hRun := Path.cons hRead (.cons (@Session.Step.receive
    { client := overrun (reset fresh), buf := [] } [newline] (by decide) (by decide)) (.nil _))
  have hCut : (endedBy newline).cut (line ++ [newline]) = some (line, []) :=
    (cutAt_eq_some_iff newline).mpr ⟨rfl, hLine⟩
  have hEnd : (endedBy newline).cut ([] : Text) = none := rfl
  refine ⟨_, _, hRun, by simp [received], ?_, rfl⟩
  rw [streamLines, Cutter.frames_some hCut, Cutter.frames_none hEnd]

def longLine : Text := List.replicate bufsize (ch 'x')

theorem not_stat161_stream : ∃ p t, Path Session.Step (.start fresh) p t ∧
    received p = longLine ++ [newline] ∧ (streamLines (longLine ++ [newline])).1 = [longLine] ∧
    taken p = [.overrun longLine, .line []] := by
  apply drops_at_bufsize
  · intro hMem
    exact absurd (List.eq_of_mem_replicate hMem) (by decide)
  · exact List.length_replicate

end Sys161.Stat161
