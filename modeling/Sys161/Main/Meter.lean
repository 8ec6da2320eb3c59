import Sys161.Lib.Buffer
import Sys161.Lib.CString
import Sys161.Lib.Framing
import Sys161.Lib.Runs
import Sys161.Main.Samplers

/-!
# The commands of a meter client

What a client sends is read in pieces, cut into lines and executed. The replies
are kept as they were written; the reports of `meter_update` are not among them.
-/

namespace Sys161.Main

open Bus Buffer CString Framing Runs

set_option autoImplicit false

def meterBufsize : Nat := 128

def defaultMeterNsecs : BitVec 64 := 200000000

def minMeterNsecs : BitVec 64 := 10000

def maxMeterNsecs : BitVec 64 := 2000000000

def maxwords : Nat := 8

def newline : BitVec 8 := 0x0a

structure MeterConn extends Meter where
  buf : Nat → BitVec 8
  bufpos : Nat
  said : List String

/-- The delimiters of `processline`. -/
def isDelim (c : BitVec 8) : Bool := c == ch ' ' || c == 0x09 || c == 0x0d || c == newline

/-- The outcome of a command: the interval and the reply, if any. -/
def command (interval : BitVec 64) (words : List (List (BitVec 8))) : BitVec 64 × Option String :=
  match words with
  | [] => (interval, none)
  | word :: args =>
    if words.length > maxwords then (interval, some "BAD Too many words in command\r\n")
    else
      match sameCase word ("interval".toList.map ch), args with
      | true, [number] =>
        let newinterval := strtoul 0 number
        if newinterval.erange ∨ newinterval.rest ≠ [] then (interval, some "BAD Invalid number\r\n")
        else if newinterval.value < minMeterNsecs then
          (interval, some "BAD Interval too small\r\n")
        else if newinterval.value > maxMeterNsecs then
          (interval, some "BAD Interval too large\r\n")
        else (newinterval.value, none)
      | _, _ => (interval, some "BAD Invalid command\r\n")

/-- The words of a line; the loop asks `strtok_r` for one more than there may be. -/
def lineWords (line : List (BitVec 8)) : List (List (BitVec 8)) :=
  (strtok isDelim (maxwords + 1) (cstr line)).1

/-- What `strtok_r` leaves of a line. -/
def spentLine (line : List (BitVec 8)) : List (BitVec 8) :=
  (strtok isDelim (maxwords + 1) (cstr line)).2 ++ line.drop (cstr line).length

def processline (m : MeterConn) (line : List (BitVec 8)) : MeterConn :=
  let (interval, reply) := command m.interval (lineWords line)
  { m with
    interval := interval
    said := m.said ++ reply.toList
    buf := store m.buf 0 (spentLine line) }

def MeterConn.kept (m : MeterConn) : List (BitVec 8) := contents m.buf m.bufpos

/-- One turn of the loop in `meter_receive`. -/
def meterTurn (m : MeterConn) : Except Unit (List (BitVec 8) × MeterConn) :=
  match m.kept.idxOf? newline with
  | none => .error ()
  | some i =>
    let line := contents m.buf i
    let left := m.bufpos - (i + 1)
    let m := processline { m with buf := store m.buf i [0], bufpos := left } line
    .ok (line, { m with buf := moveDown m.buf (i + 1) left })

def overflowmsg : String := "BAD Input overflow\r\n"

/-- What `meter_receive` does before it reads: a buffer without room is given up. -/
def MeterConn.inputOverflow (m : MeterConn) : MeterConn :=
  if meterBufsize ≤ m.bufpos then { m with bufpos := 0, said := m.said ++ [overflowmsg] } else m

/-- `meter_receive` where `read` gives some bytes, with the lines handed to `processline`. -/
def meterReceive (m : MeterConn) (data : List (BitVec 8)) : List (List (BitVec 8)) × MeterConn :=
  let m := m.inputOverflow
  let m := { m with buf := store m.buf 0 data, bufpos := m.bufpos + data.length }
  let r := drain meterTurn (m.bufpos + 1) m
  (r.1, r.2.1)

/-- `read` failed, or the client has gone. -/
def meterHangup (m : MeterConn) : MeterConn := { m.inputOverflow with fd := -1 }

/-! ## Runs -/

/-- The room for which `meter_receive` asks `read`. -/
def MeterConn.room (m : MeterConn) : Nat :=
  meterBufsize - if meterBufsize ≤ m.bufpos then 0 else m.bufpos

/-- What was read, and the lines handed to `processline`. -/
structure MeterLabel where
  data : List (BitVec 8)
  lines : List (List (BitVec 8))

inductive MeterConn.Step : MeterConn → MeterLabel → MeterConn → Prop where
  | receive {m : MeterConn} {data : List (BitVec 8)} : 0 ≤ m.fd → data ≠ [] →
      data.length ≤ m.room →
      MeterConn.Step m ⟨data, (meterReceive m data).1⟩ (meterReceive m data).2
  | hangup {m : MeterConn} : 0 ≤ m.fd → MeterConn.Step m ⟨[], []⟩ (meterHangup m)

/-- The connection that `meter_accept` makes, in memory of any contents. -/
def MeterConn.start (fd : Int) (buf : Nat → BitVec 8) : MeterConn where
  interval := defaultMeterNsecs
  fd := fd
  buf := buf
  bufpos := 0
  said := []

def received (p : List (MeterLabel × MeterConn)) : List (BitVec 8) :=
  (p.map fun e => e.1.data).flatten

def passed (p : List (MeterLabel × MeterConn)) : List (List (BitVec 8)) :=
  (p.map fun e => e.1.lines).flatten

/-- The lines of a stream, and the part of a line at its end. -/
def streamLines (stream : List (BitVec 8)) : List (List (BitVec 8)) × List (BitVec 8) :=
  (endedBy newline).frames stream

/-- No line of a stream fills the buffer. -/
def FitLines (stream : List (BitVec 8)) : Prop :=
  ∀ piece, piece <:+: stream → newline ∉ piece → piece.length < meterBufsize

/-- What a command does to the interval and the replies. -/
def obey (v : BitVec 64 × List String) (line : List (BitVec 8)) : BitVec 64 × List String :=
  ((command v.1 (lineWords line)).1, v.2 ++ (command v.1 (lineWords line)).2.toList)

/-- What has come of a run so far: the lines of the stream were handed on, each was obeyed, and
the part of a line at the end is kept. -/
def Faithful (p : List (MeterLabel × MeterConn)) (m : MeterConn) : Prop :=
  (passed p, m.kept) = streamLines (received p) ∧
    (m.interval, m.said) = (streamLines (received p)).1.foldl obey (defaultMeterNsecs, [])

/-- The read comes where no part of a line is kept, or where what is read and the old bytes behind
it happen to spell the part and what is read. -/
def NothingKept (m : MeterConn) (l : MeterLabel) (_ : MeterConn) : Prop :=
  m.bufpos = 0 ∨
    m.kept ++ l.data =
      l.data ++ (contents m.buf (m.bufpos + l.data.length)).drop l.data.length

theorem length_spentLine (line : List (BitVec 8)) : (spentLine line).length = line.length := by
  have hLe : (cstr line).length ≤ line.length := (List.takeWhile_prefix _).length_le
  rw [spentLine, List.length_append, length_strtok, List.length_drop]
  omega

theorem follows_meterTurn :
    Follows (endedBy newline) meterTurn MeterConn.kept (fun _ => True) () () where
  stop m hCut := by
    have hNone : m.kept.idxOf? newline = none := by
      simpa [endedBy, cutAt_eq_none_iff] using hCut
    simp [meterTurn, hNone]
  next m f r hCut _ := by
    obtain ⟨hKept, hFirst⟩ := (cutAt_eq_some_iff newline).mp hCut
    have hLine : m.kept.idxOf? newline = some f.length :=
      (idxOf?_eq_some_split newline).mpr ⟨f, r, hKept, hFirst, rfl⟩
    have hLength : m.bufpos = f.length + 1 + r.length := by
      have hBoth := congrArg List.length hKept
      simp only [MeterConn.kept, length_contents, List.length_append, List.length_cons] at hBoth
      omega
    have hText : contents m.buf f.length = f := by
      have hTake := congrArg (List.take f.length) hKept
      rwa [MeterConn.kept, take_contents m.buf (by omega), List.take_left'  rfl] at hTake
    rw [meterTurn, hLine]
    dsimp only
    refine ⟨_, by rw [hText], ?_⟩
    simp only [MeterConn.kept, processline, contents_moveDown]
    rw [drop_contents_store, drop_contents_store]
    · have hAll : f.length + 1 + (m.bufpos - (f.length + 1)) = m.bufpos := by omega
      rw [hAll]
      have hDrop := congrArg (List.drop (f.length + 1)) hKept
      rw [MeterConn.kept] at hDrop
      simpa using hDrop
    · simp
    · simp [length_spentLine]
  refuse _ _ _ _ hNot := absurd trivial hNot

theorem meterTurn_obey {m m' : MeterConn} {line : List (BitVec 8)}
    (h : meterTurn m = .ok (line, m')) :
    (m'.interval, m'.said) = obey (m.interval, m.said) line := by
  unfold meterTurn at h
  split at h
  · cases h
  · cases h
    rfl

theorem inputOverflow_of_room {m : MeterConn} (hRoom : m.bufpos < meterBufsize) :
    m.inputOverflow = m := if_neg (Nat.not_le.mpr hRoom)

/-- What `meter_receive` makes of the buffer as `read` leaves it. -/
theorem meterReceive_spec {m : MeterConn} (data : List (BitVec 8)) (hRoom : m.bufpos < meterBufsize) :
    ((meterReceive m data).1, (meterReceive m data).2.kept) =
        streamLines (contents (store m.buf 0 data) (m.bufpos + data.length)) ∧
      ((meterReceive m data).2.interval, (meterReceive m data).2.said) =
        (meterReceive m data).1.foldl obey (m.interval, m.said) := by
  simp only [meterReceive, inputOverflow_of_room hRoom]
  constructor
  · obtain ⟨hLines, hKept, -⟩ := follows_meterTurn.drain_all
      (s := { m with buf := store m.buf 0 data, bufpos := m.bufpos + data.length })
      (n := m.bufpos + data.length + 1) (by simp [MeterConn.kept]) (fun _ _ => trivial)
    rw [hLines, hKept]
    rfl
  · exact foldl_drain (fun m : MeterConn => (m.interval, m.said))
      (fun _ _ _ hTurn => meterTurn_obey hTurn) ..

variable {fd : Int} {buf : Nat → BitVec 8} {m : MeterConn} {p : List (MeterLabel × MeterConn)}

theorem received_concat (p : List (MeterLabel × MeterConn)) (l : MeterLabel) (m : MeterConn) :
    received (p ++ [(l, m)]) = received p ++ l.data := by
  simp [received]

theorem passed_concat (p : List (MeterLabel × MeterConn)) (l : MeterLabel) (m : MeterConn) :
    passed (p ++ [(l, m)]) = passed p ++ l.lines := by
  simp [passed]

theorem Faithful.room (h : Faithful p m) (hFit : FitLines (received p)) : m.bufpos < meterBufsize := by
  have hKept : m.kept = (streamLines (received p)).2 := congrArg Prod.snd h.1
  have hPiece := hFit m.kept (hKept ▸ (suffix_endedBy _).isInfix) (hKept ▸ rest_endedBy _)
  simpa [MeterConn.kept] using hPiece

theorem nothingKept_iff {l : MeterLabel} {m' : MeterConn} : NothingKept m l m' ↔
    contents (store m.buf 0 l.data) (m.bufpos + l.data.length) = m.kept ++ l.data := by
  rw [contents_store_zero m.buf (by omega), eq_comm, NothingKept]
  constructor
  · rintro (hNone | hSame)
    · simp [MeterConn.kept, hNone]
    · exact hSame
  · exact .inr

/-- A step goes on faithfully exactly when it meets the condition. -/
theorem Faithful.step_iff {l : MeterLabel} {m' : MeterConn} (h : Faithful p m)
    (hFit : FitLines (received p)) (hStep : MeterConn.Step m l m') :
    Faithful (p ++ [(l, m')]) m' ↔ NothingKept m l m' := by
  have hRoom := h.room hFit
  obtain ⟨hPassed, hObeyed⟩ := h
  have hLines : passed p = (streamLines (received p)).1 := congrArg Prod.fst hPassed
  have hKept : m.kept = (streamLines (received p)).2 := congrArg Prod.snd hPassed
  cases hStep with
  | hangup =>
    apply iff_of_true
    · simp only [Faithful, received_concat, passed_concat, List.append_nil, meterHangup,
        inputOverflow_of_room hRoom]
      exact ⟨hPassed, hObeyed⟩
    · simp [nothingKept_iff, contents_store_zero, MeterConn.kept]
  | @receive data =>
    obtain ⟨hTurns, hFold⟩ := meterReceive_spec data hRoom
    have hStream : streamLines (received p ++ data) =
        (passed p ++ (streamLines (m.kept ++ data)).1, (streamLines (m.kept ++ data)).2) := by
      rw [hLines, hKept]
      exact Cutter.frames_append ..
    have hFirst : (passed p ++ (meterReceive m data).1, (meterReceive m data).2.kept) =
          streamLines (received p ++ data) ↔ NothingKept m ⟨data, (meterReceive m data).1⟩
            (meterReceive m data).2 := by
      obtain ⟨hNew, hLeft⟩ := Prod.mk.inj hTurns
      rw [nothingKept_iff, hStream, hNew, hLeft, Prod.mk.injEq, List.append_cancel_left_eq,
        ← Prod.ext_iff]
      exact ⟨fun hSame => frames_endedBy_inj hSame, fun hSame => congrArg streamLines hSame⟩
    rw [← hFirst, Faithful, received_concat, passed_concat]
    refine and_iff_left_of_imp fun hSame => ?_
    rw [hFold, hObeyed, ← hLines, ← List.foldl_append, ← hSame]

theorem FitLines.left {s t : List (BitVec 8)} (h : FitLines (s ++ t)) : FitLines s :=
  fun piece hPiece hEnd => h piece (hPiece.trans (List.prefix_append s t).isInfix) hEnd

/-- However a stream comes in pieces, the lines of the stream are handed on and obeyed, each once and
in order, in all parts of the run exactly when no read comes while a part of a line is kept. -/
theorem meter_lines (hRun : Path MeterConn.Step (MeterConn.start fd buf) p m)
    (hFit : FitLines (received p)) :
    (∀ q t r, p = q ++ r → Path MeterConn.Step (MeterConn.start fd buf) q t → Faithful q t) ↔
      AllSteps NothingKept (MeterConn.start fd buf) p := by
  apply hRun.history_iff_allSteps
  · have hNone : streamLines [] = ([], []) := Cutter.frames_none rfl
    simp [Faithful, received, passed, MeterConn.kept, MeterConn.start, hNone]
  · rintro q t l t' r rfl _ hFaithful hStep
    have hPart : FitLines (received q) := by
      simp only [received, List.map_append, List.flatten_append] at hFit
      exact hFit.left
    exact hFaithful.step_iff hPart hStep

def text (s : String) : List (BitVec 8) := s.toList.map ch

theorem fitLines_of_short {stream : List (BitVec 8)} (h : stream.length < meterBufsize) :
    FitLines stream :=
  fun _ hPiece _ => hPiece.length_le.trans_lt h

/-- Two commands that come one at a time. -/
theorem two_commands : ∃ p m, Path MeterConn.Step (MeterConn.start 3 fun _ => 0) p m ∧
    received p = text "interval 20000\nfaster\n" ∧
    AllSteps NothingKept (MeterConn.start 3 fun _ => 0) p ∧
    m.interval = 20000 ∧ m.said = ["BAD Invalid command\r\n"] := by
  refine ⟨_, _, .cons (@MeterConn.Step.receive _ (text "interval 20000\n") (by decide) (by decide)
      (by decide))
    (.cons (@MeterConn.Step.receive _ (text "faster\n") (by decide) (by decide) (by decide)) (.nil _)),
    ?_, ?_, ?_, ?_⟩
  · rfl
  · exact ⟨.inl rfl, .inl rfl, trivial⟩
  · rfl
  · rfl

theorem meter_lines_two_commands : ∃ p m, Path MeterConn.Step (MeterConn.start 3 fun _ => 0) p m ∧
    m.interval = 20000 ∧ m.said = ["BAD Invalid command\r\n"] ∧
    ∀ q t r, p = q ++ r → Path MeterConn.Step (MeterConn.start 3 fun _ => 0) q t → Faithful q t := by
  obtain ⟨p, m, hRun, hReceived, hSteps, hInterval, hSaid⟩ := two_commands
  have hFit : FitLines (received p) := by
    rw [hReceived]
    exact fitLines_of_short (by decide)
  exact ⟨p, m, hRun, hInterval, hSaid, (meter_lines hRun hFit).mpr hSteps⟩

/-- A command that comes in two pieces: the second is read over the first. -/
theorem not_meter_lines : ∃ p m, Path MeterConn.Step (MeterConn.start 3 fun _ => 0) p m ∧
    FitLines (received p) ∧ received p = text "interval 20000\n" ∧
    passed p = [text "rval 20000"] ∧ m.interval = defaultMeterNsecs ∧ ¬ Faithful p m := by
  refine ⟨_, _, .cons (@MeterConn.Step.receive _ (text "inte") (by decide) (by decide) (by decide))
    (.cons (@MeterConn.Step.receive _ (text "rval 20000\n") (by decide) (by decide) (by decide))
      (.nil _)), ?_, ?_, ?_, ?_, ?_⟩
  · exact fitLines_of_short (by decide)
  · rfl
  · rfl
  · rfl
  · rintro ⟨hPassed, -⟩
    have hLines := congrArg Prod.fst hPassed
    have hCut : (endedBy newline).cut (text "interval 20000\n") = some (text "interval 20000", []) := rfl
    have hSpec : (streamLines (text "interval 20000\n")).1 = [text "interval 20000"] := by
      rw [streamLines, Cutter.frames_some hCut, Cutter.frames_none rfl]
    have hWrong : [text "rval 20000"] = [text "interval 20000"] := hLines.trans hSpec
    exact absurd hWrong (by decide)

end Sys161.Main
