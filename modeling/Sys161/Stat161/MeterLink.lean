import Mathlib.Data.List.TakeWhile
import Sys161.Main.MeterStream
import Sys161.Stat161.Reader

/-!
# From the meter to the table

What the counts of sys161 look like in the table of stat161: a row for every
report, with what has come to each count since the report before.
-/

namespace Sys161.Stat161

open CString Framing Runs
open Main (MeterMessage reportNumbers numberText dataLine meterStream)

set_option autoImplicit false

def names : List Text :=
  ["nsec", "kinsns", "uinsns", "udud", "idle", "irqs", "exns", "disk", "con", "emu", "net"].map
    ascii

/-- A text with blanks behind it. -/
def IsCell (s cell : Text) : Prop := ∃ k, cell = s ++ List.replicate k (ch ' ') ++ [ch ' ']

def IsHeading (h : Text) : Prop :=
  ∃ cells, List.Forall₂ IsCell names cells ∧ h = ascii "\n" ++ cells.flatten ++ ascii "\n"

/-- A BAD without its first word. -/
def errorText (said : String) : Text :=
  ascii "stat161: sys161 error:" ++ ((ascii said).drop 3).dropLast.dropLast ++ ascii "\n"

/-- What is written for messages, so many rows behind a heading and with these counts in the report
before. -/
inductive Shows : Nat → List (BitVec 64) → List MeterMessage → List Written → Prop where
  | done {since : Nat} {prev : List (BitVec 64)} : Shows since prev [] []
  | reply {since : Nat} {prev : List (BitVec 64)} {said : String} {messages : List MeterMessage}
      {w : List Written} : Shows since prev messages w →
      Shows since prev (.reply said :: messages) (.stdout (errorText said) :: w)
  | heading {since : Nat} {prev : List (BitVec 64)} {timestamp : BitVec 64} {s : Main.Stats}
      {messages : List MeterMessage} {w : List Written} {h : Text} : 21 < since → IsHeading h →
      Shows 0 prev (.report timestamp s :: messages) w →
      Shows since prev (.report timestamp s :: messages) (.stdout h :: w)
  | row {since : Nat} {prev : List (BitVec 64)} {timestamp : BitVec 64} {s : Main.Stats}
      {messages : List MeterMessage} {w : List Written} {numbers : List (BitVec 64)}
      {cells : List Text} : since ≤ 21 → reportNumbers timestamp s = .ok numbers →
      List.Forall₂ IsCell ((List.zipWith (· - ·) numbers prev).map numberText) cells →
      Shows (since + 1) numbers messages w →
      Shows since prev (.report timestamp s :: messages)
        (cells.map .stdout ++ .stdout (ascii "\n") :: w)

/-! ## A row -/

/-- The last values of some fields. -/
def lasts (c : Client) (k n : Nat) : List (BitVec 64) :=
  (List.range' k n).map fun i => (c.fields i).lastval

def headers (c : Client) : List Text := (List.range c.nfields).map fun i => (c.fields i).header

/-- The client has had the header, and these counts in the report before. -/
structure Ready (c : Client) (prev : List (BitVec 64)) : Prop where
  nfields : c.nfields = 11
  headers : headers c = names
  lasts : lasts c 0 11 = prev

/-- What a row leaves as it was. -/
structure Kept (c c' : Client) : Prop where
  nfields : c'.nfields = c.nfields
  since : c'.linesSinceHeader = c.linesSinceHeader
  header : ∀ i, (c'.fields i).header = (c.fields i).header

theorem Kept.trans {c c' c'' : Client} (h : Kept c c') (h' : Kept c' c'') : Kept c c'' :=
  ⟨h'.nfields.trans h.nfields, h'.since.trans h.since, fun i => (h'.header i).trans (h.header i)⟩

theorem Kept.headers {c c' : Client} (h : Kept c c') : headers c' = headers c := by
  unfold Stat161.headers
  rw [h.nfields]
  exact List.map_congr_left fun i _ => h.header i

section Row

variable {c : Client} {numbers prev : List (BitVec 64)}

theorem getval_digits {l : List Char} (hl : ∀ d ∈ l, d.isDigit = true) (k : Nat) :
    (l.map ch).foldl (fun val x => val * 10 + (x.setWidth 64 - 48)) (BitVec.ofNat 64 k) =
      BitVec.ofNat 64 (Nat.ofDigitChars 10 l k) := by
  induction l generalizing k with
  | nil => rfl
  | cons d l ih =>
    obtain ⟨hd, hRest⟩ := List.forall_mem_cons.mp hl
    obtain ⟨hLow, hHigh, hValue⟩ := toNat_ch hd
    have hTurn : BitVec.ofNat 64 k * 10 + ((ch d).setWidth 64 - 48) =
        BitVec.ofNat 64 (10 * k + (d.toNat - '0'.toNat)) := by
      have hZero : '0'.toNat = 48 := rfl
      have hTen : (10 : BitVec 64).toNat = 10 := rfl
      have hBase : (48 : BitVec 64).toNat = 48 := rfl
      apply BitVec.eq_of_toNat_eq
      simp only [BitVec.toNat_add, BitVec.toNat_mul, BitVec.toNat_sub, BitVec.toNat_ofNat,
        BitVec.toNat_setWidth, hZero, hTen, hBase]
      omega
    rw [List.map_cons, List.foldl_cons, hTurn, ih hRest, Nat.ofDigitChars_cons]

/-- The client reads what the meter has written. -/
theorem getval_numberText (n : BitVec 64) : getval (numberText n) = n := by
  have hAll : ∀ x ∈ numberText n, (ch '0' ≤ x && x ≤ ch '9') = true := by
    intro x hx
    obtain ⟨hLow, hHigh⟩ := Main.numberText_digit hx
    rw [Bool.and_eq_true, decide_eq_true_eq, decide_eq_true_eq, BitVec.le_def, BitVec.le_def]
    exact ⟨hLow, hHigh⟩
  have hDigits : ∀ d ∈ Nat.toDigits 10 n.toNat, d.isDigit = true := fun d hd =>
    Nat.isDigit_of_mem_toDigits (by decide) (by decide) hd
  have hValue := getval_digits hDigits 0
  rw [getval, List.takeWhile_eq_self_iff.mpr hAll, numberText, decimal_eq]
  rw [Nat.ofDigitChars_ten_toDigits, BitVec.ofNat_toNat, BitVec.setWidth_eq] at hValue
  exact hValue

theorem lasts_succ (c : Client) (k n : Nat) :
    lasts c k (n + 1) = (c.fields k).lastval :: lasts c (k + 1) n := by
  rw [lasts, List.range'_succ, List.map_cons]
  rfl

theorem showword_spec (c : Client) (k : Nat) (n : BitVec 64) :
    Kept c (showword c k (numberText n)) ∧
      ((showword c k (numberText n)).fields k).lastval = n ∧
      (∀ i, i ≠ k → (showword c k (numberText n)).fields i = c.fields i) ∧
      ∃ cell, IsCell (numberText (n - (c.fields k).lastval)) cell ∧
        (showword c k (numberText n)).written = c.written ++ [.stdout cell] := by
  rw [showword, getval_numberText]
  refine ⟨⟨rfl, rfl, ?_⟩, ?_, ?_, ?_⟩
  · intro i
    dsimp only
    rcases eq_or_ne i k with rfl | hOther
    · rw [Function.update_self]
    · rw [Function.update_of_ne hOther]
  · dsimp only
    rw [Function.update_self]
  · intro i hOther
    exact Function.update_of_ne hOther ..
  · exact ⟨_, ⟨_, rfl⟩, rfl⟩

/-- The loop over the words shows the differences and keeps the numbers. -/
theorem showwords_spec (numbers : List (BitVec 64)) (k : Nat) (c : Client) :
    ∃ c' cells, ((numbers.map numberText).zipIdx k).foldl (fun c e => showword c e.2 e.1) c = c' ∧
      Kept c c' ∧ lasts c' k numbers.length = numbers ∧ (∀ i < k, c'.fields i = c.fields i) ∧
      c'.written = c.written ++ cells.map .stdout ∧
      List.Forall₂ IsCell
        ((List.zipWith (· - ·) numbers (lasts c k numbers.length)).map numberText) cells := by
  induction numbers generalizing k c with
  | nil => exact ⟨c, [], rfl, ⟨rfl, rfl, fun i => rfl⟩, rfl, fun i _ => rfl, by simp, .nil⟩
  | cons n numbers ih =>
    obtain ⟨hKept, hLast, hOther, cell, hCell, hWritten⟩ := showword_spec c k n
    obtain ⟨c', cells, hFold, hKept', hLasts, hBelow, hWritten', hCells⟩ :=
      ih (k + 1) (showword c k (numberText n))
    have hSame : lasts (showword c k (numberText n)) (k + 1) numbers.length =
        lasts c (k + 1) numbers.length := by
      refine List.map_congr_left fun i hi => ?_
      have hAbove := (List.mem_range'_1.mp hi).1
      rw [hOther i (by omega)]
    rw [hSame] at hCells
    refine ⟨c', cell :: cells, ?_, hKept.trans hKept', ?_, ?_, ?_, ?_⟩
    · rw [List.map_cons, List.zipIdx_cons, List.foldl_cons]
      exact hFold
    · rw [List.length_cons, lasts_succ, hLasts, hBelow k (Nat.lt_succ_self k), hLast]
    · intro i hi
      rw [hBelow i (Nat.lt_succ_of_lt hi), hOther i (Nat.ne_of_lt hi)]
    · rw [hWritten', hWritten, List.append_assoc, List.map_cons, List.singleton_append]
    · rw [List.length_cons, lasts_succ, List.zipWith_cons_cons, List.map_cons]
      exact .cons hCell hCells

theorem showdata_row (hReady : Ready c prev) (hLength : numbers.length = 11)
    (hSince : c.linesSinceHeader ≤ 21) :
    ∃ cells, Ready (showdata c (numbers.map numberText)) numbers ∧
      (showdata c (numbers.map numberText)).linesSinceHeader = c.linesSinceHeader + 1 ∧
      (showdata c (numbers.map numberText)).written =
        c.written ++ (cells.map .stdout ++ [.stdout (ascii "\n")]) ∧
      List.Forall₂ IsCell ((List.zipWith (· - ·) numbers prev).map numberText) cells := by
  obtain ⟨c', cells, hFold, hKept, hLasts, -, hWritten, hCells⟩ := showwords_spec numbers 0 c
  have hCount : ¬ (numbers.map numberText).length ≠ c.nfields := by
    rw [List.length_map, hLength, hReady.nfields]
    exact not_not.mpr rfl
  rw [showdata, if_neg hCount, if_neg (Nat.not_lt.mpr hSince)]
  dsimp only
  rw [hFold]
  rw [hLength] at hLasts hCells
  rw [hReady.lasts] at hCells
  refine ⟨cells, ⟨hKept.nfields.trans hReady.nfields, ?_, hLasts⟩, ?_, ?_, hCells⟩
  · exact hKept.headers.trans hReady.headers
  · exact congrArg (· + 1) hKept.since
  · rw [Client.printf]
    dsimp only
    rw [hWritten, List.append_assoc]

theorem showheaders_spec (hReady : Ready c prev) :
    Ready (showheaders c) prev ∧ (showheaders c).linesSinceHeader = 0 ∧
      ∃ h, IsHeading h ∧ (showheaders c).written = c.written ++ [.stdout h] := by
  refine ⟨⟨hReady.nfields, hReady.headers, hReady.lasts⟩, rfl, _, ⟨_, ?_, rfl⟩, rfl⟩
  rw [← hReady.headers, headers, List.forall₂_map_left_iff, List.forall₂_map_right_iff,
    List.forall₂_same]
  intro i _
  exact ⟨_, rfl⟩

/-- A heading comes before the row where it is due. -/
theorem showdata_heading (hReady : Ready c prev) (hSince : 21 < c.linesSinceHeader)
    (words : List Text) (hCount : words.length = c.nfields) :
    showdata c words = showdata (showheaders c) words := by
  obtain ⟨-, hZero, -⟩ := showheaders_spec hReady
  have hSame : words.length = (showheaders c).nfields := hCount
  rw [showdata, if_neg (not_not.mpr hCount), if_pos hSince, showdata, if_neg (not_not.mpr hSame),
    if_neg (by omega)]

/-- What a report adds to what is shown. -/
theorem showdata_shows {timestamp : BitVec 64} {s : Main.Stats} (hReady : Ready c prev)
    (hNumbers : reportNumbers timestamp s = .ok numbers) :
    ∃ c' w, showdata c (numbers.map numberText) = c' ∧ Ready c' numbers ∧
      c'.written = c.written ++ w ∧ ∀ messages w',
        Shows c'.linesSinceHeader numbers messages w' →
          Shows c.linesSinceHeader prev (.report timestamp s :: messages) (w ++ w') := by
  have hLength := Main.reportNumbers_length hNumbers
  rcases Nat.lt_or_ge 21 c.linesSinceHeader with hMore | hFew
  · obtain ⟨hReady', hZero, h, hHeading, hWritten⟩ := showheaders_spec hReady
    obtain ⟨cells, hNext, hSince, hRow, hCells⟩ :=
      showdata_row hReady' hLength (by omega)
    rw [showdata_heading hReady hMore _ (by rw [List.length_map, hLength, hReady.nfields])]
    refine ⟨_, .stdout h :: (cells.map .stdout ++ [.stdout (ascii "\n")]), rfl, hNext, ?_, ?_⟩
    · rw [hRow, hWritten, List.append_assoc, List.singleton_append]
    · intro messages w' hShows
      rw [hSince, hZero] at hShows
      rw [List.cons_append, List.append_assoc]
      exact .heading hMore hHeading (.row (Nat.zero_le _) hNumbers hCells hShows)
  · obtain ⟨cells, hNext, hSince, hRow, hCells⟩ := showdata_row hReady hLength hFew
    refine ⟨_, _, rfl, hNext, hRow, ?_⟩
    intro messages w' hShows
    rw [hSince] at hShows
    rw [List.append_assoc]
    exact .row hFew hNumbers hCells hShows

end Row

/-! ## The lines -/

section Lines

variable {c : Client} {numbers prev : List (BitVec 64)} {line : Text}

theorem length_le_wordLine (delim last : BitVec 8) (ws : List Text) :
    ws.length ≤ (wordLine delim last ws).length := by
  induction ws with
  | nil => exact Nat.zero_le _
  | cons w ws ih =>
    cases ws with
    | nil =>
      rw [wordLine, List.length_append, List.length_singleton]
      exact Nat.le_add_left _ _
    | cons v ws =>
      have hLine : (wordLine delim last (w :: v :: ws)).length =
          w.length + ((wordLine delim last (v :: ws)).length + 1) := by
        rw [wordLine, List.length_append, List.length_cons]
      rw [hLine, List.length_cons]
      omega

theorem isWord_numberText (n : BitVec 64) : IsWord isDelim (numberText n) := by
  refine ⟨Main.numberText_ne_nil n, ?_⟩
  intro x hx
  obtain ⟨hLow, -⟩ := Main.numberText_digit hx
  rw [← Bool.not_eq_true]
  intro hDelim
  simp only [isDelim, Bool.or_eq_true, beq_iff_eq] at hDelim
  rcases hDelim with ((rfl | rfl) | rfl) | rfl
  · exact absurd hLow (by decide)
  · exact absurd hLow (by decide)
  · exact absurd hLow (by decide)
  · exact absurd hLow (by decide)

theorem lineWords_dataLine (hLength : numbers.length = 11) :
    lineWords (dataLine numbers) = ascii "DATA" :: numbers.map numberText := by
  have hText : cstr (dataLine numbers) = dataLine numbers := by
    rw [cstr, List.takeWhile_eq_self_iff]
    intro x hx
    exact decide_eq_true (Main.dataLine_mem hx).2
  have hWords : ∀ w ∈ ascii "DATA" :: numbers.map numberText, IsWord isDelim w := by
    intro w hw
    rcases List.mem_cons.mp hw with rfl | hw
    · exact ⟨by decide, by decide⟩
    · obtain ⟨n, -, rfl⟩ := List.mem_map.mp hw
      exact isWord_numberText n
  have hCount : (ascii "DATA" :: numbers.map numberText).length = 12 := by
    rw [List.length_cons, List.length_map, hLength]
  have hLine : dataLine numbers =
      wordLine (ch ' ') 0x0d (ascii "DATA" :: numbers.map numberText) := rfl
  have hFound := @strtok_wordLine isDelim (ch ' ') 0x0d (by decide) (by decide) _ hWords _
    (length_le_wordLine (ch ' ') 0x0d _)
  rw [lineWords, hText, hLine, hFound, List.take_of_length_le (by omega)]

theorem processline_data (c : Client) (hLength : numbers.length = 11) :
    processline c (dataLine numbers) = .ok (showdata c (numbers.map numberText)) := by
  have hSome : numbers.map numberText ≠ [] := by
    rw [Ne, List.map_eq_nil_iff]
    exact List.ne_nil_of_length_eq_add_one hLength
  rw [processline, lineWords_dataLine hLength]
  dsimp only
  rw [if_neg (by decide), if_neg (fun h => absurd h.1 (by decide)),
    if_neg (fun h => absurd h.1 (by decide)), if_neg (fun h => absurd h.1 (by decide)),
    if_pos ⟨by decide, hSome⟩]

theorem processline_reply (c : Client) {said : String}
    (h : MeterMessage.Line (.reply said) line) :
    processline c line = .ok (c.printf (errorText said)) := by
  obtain ⟨hSaid, hLine⟩ := h
  have hWords : ∀ said ∈ Main.overflowmsg :: Main.badReplies,
      lineWords (ascii said).dropLast = ascii "BAD" :: (lineWords (ascii said).dropLast).tail ∧
        ascii "stat161: sys161 error:" ++
          (lineWords (ascii said).dropLast).tail.flatMap (ch ' ' :: ·) ++ ascii "\n" =
            errorText said := by decide +kernel
  obtain ⟨hBad, hText⟩ := hWords said hSaid
  have hCut : (ascii said).dropLast = line := by
    change (Main.text said).dropLast = line
    rw [hLine, List.dropLast_concat]
  rw [hCut] at hBad hText
  rw [processline, hBad]
  dsimp only
  rw [if_neg (by decide), if_neg (fun h => absurd h.1 (by decide)),
    if_neg (fun h => absurd h.1 (by decide)), if_neg (fun h => absurd h.1 (by decide)),
    if_neg (fun h => absurd h.1 (by decide)), if_neg (by decide), if_pos (by decide), hText]

theorem setheaders_ready (c : Client) :
    Ready (setheaders (reset c) names) (List.replicate 11 0) ∧
      (setheaders (reset c) names).linesSinceHeader = 10000 ∧
      (setheaders (reset c) names).written = c.written := by
  have hFew : ¬ (names.length > maxfields ∧ (reset c).warned = false) :=
    fun h => absurd h.1 (by decide)
  rw [setheaders, if_neg hFew]
  exact ⟨⟨rfl, rfl, rfl⟩, rfl, rfl⟩

theorem setwidths_kept (c : Client) (words : List Text) :
    Kept c (setwidths c words) ∧ (setwidths c words).written = c.written ∧
      ∀ i, ((setwidths c words).fields i).lastval = (c.fields i).lastval := by
  have hField : ∀ i, ((setwidths c words).fields i).header = (c.fields i).header ∧
      ((setwidths c words).fields i).lastval = (c.fields i).lastval := by
    intro i
    rw [setwidths]
    dsimp only
    split
    · split
      · exact ⟨rfl, rfl⟩
      · exact ⟨rfl, rfl⟩
    · exact ⟨rfl, rfl⟩
  exact ⟨⟨rfl, rfl, fun i => (hField i).1⟩, rfl, fun i => (hField i).2⟩

theorem heard_hello (c : Client) (fs : List Piece) :
    (heard (reset c) (.line Main.helloLine :: fs)).2 = (heard (reset c) fs).2 := by
  have hLine : processline (reset c) Main.helloLine = .ok (reset c) := rfl
  rw [heard, act, hLine]

theorem heard_head (c : Client) (fs : List Piece) :
    (heard c (.line Main.headLine :: fs)).2 = (heard (setheaders c names) fs).2 := by
  have hLine : processline c Main.headLine = .ok (setheaders c names) := rfl
  rw [heard, act, hLine]

def widths : List Text := ["11", "9", "9", "4", "9", "4", "4", "4", "5", "4", "4"].map ascii

theorem heard_width (c : Client) (fs : List Piece) :
    (heard c (.line Main.widthLine :: fs)).2 = (heard (setwidths c widths) fs).2 := by
  have hLine : processline c Main.widthLine = .ok (setwidths c widths) := rfl
  rw [heard, act, hLine]

/-- The messages are shown one after the other. -/
theorem heard_messages {messages : List MeterMessage} {lines : List Text} (hReady : Ready c prev)
    (hLines : List.Forall₂ MeterMessage.Line messages lines) :
    ∃ c' w, (heard c (lines.map .line)).2 = .ok c' ∧ c'.written = c.written ++ w ∧
      Shows c.linesSinceHeader prev messages w := by
  induction hLines generalizing c prev with
  | nil => exact ⟨c, [], rfl, (List.append_nil _).symm, .done⟩
  | @cons m line messages lines hLine _ ih =>
    rw [List.map_cons, heard, act]
    cases m with
    | report timestamp s =>
      obtain ⟨numbers, hNumbers, rfl⟩ := hLine
      obtain ⟨c', w, hNext, hReady', hWritten, hShows⟩ := showdata_shows hReady hNumbers
      obtain ⟨c'', w', hHeard, hWritten', hShows'⟩ := ih hReady'
      rw [processline_data c (Main.reportNumbers_length hNumbers), hNext]
      refine ⟨c'', w ++ w', hHeard, ?_, hShows messages w' hShows'⟩
      rw [hWritten', hWritten, List.append_assoc]
    | reply said =>
      have hReady' : Ready (c.printf (errorText said)) prev := ⟨hReady.1, hReady.2, hReady.3⟩
      obtain ⟨c', w, hHeard, hWritten, hShows⟩ := ih hReady'
      rw [processline_reply c hLine]
      refine ⟨c', .stdout (errorText said) :: w, hHeard, ?_, .reply hShows⟩
      rw [hWritten, Client.printf, List.append_assoc, List.singleton_append]

theorem heard_stream (c : Client) {messages : List MeterMessage} {lines : List Text}
    (hLines : List.Forall₂ MeterMessage.Line messages lines) (n : Nat) :
    ∃ c' w, (heard (reset c) (((Main.helloLine :: Main.headLine :: Main.widthLine :: lines).take
        n).map .line)).2 = .ok c' ∧
      c'.written = c.written ++ w ∧
      Shows 10000 (List.replicate 11 0) (messages.take (n - 3)) w := by
  obtain ⟨hHead, hSince, hWritten⟩ := setheaders_ready c
  match n with
  | 0 => exact ⟨reset c, [], rfl, (List.append_nil _).symm, .done⟩
  | 1 => exact ⟨reset c, [], heard_hello c [], (List.append_nil _).symm, .done⟩
  | 2 =>
    refine ⟨setheaders (reset c) names, [], ?_, ?_, .done⟩
    · exact (heard_hello c _).trans (heard_head _ [])
    · rw [hWritten, List.append_nil]
  | n + 3 =>
    obtain ⟨hKept, hSame, hLasts⟩ := setwidths_kept (setheaders (reset c) names) widths
    have hReady : Ready (setwidths (setheaders (reset c) names) widths) (List.replicate 11 0) := by
      refine ⟨hKept.nfields.trans hHead.nfields, hKept.headers.trans hHead.headers, ?_⟩
      rw [← hHead.lasts]
      exact List.map_congr_left fun i _ => hLasts i
    obtain ⟨c', w, hHeard, hWritten', hShows⟩ :=
      heard_messages hReady (List.forall₂_take n hLines)
    refine ⟨c', w, ?_, ?_, ?_⟩
    · rw [List.take_succ_cons, List.take_succ_cons, List.take_succ_cons, List.map_cons,
        List.map_cons, List.map_cons, heard_hello, heard_head, heard_width]
      exact hHeard
    · rw [hWritten', hSame, hWritten]
    · rw [hKept.since, hSince] at hShows
      exact hShows

end Lines

/-! ## The stream -/

/-- Of a part of a stream the lines that have ended are taken. -/
theorem streamPieces_part {lines : List Text} {part : Text}
    (hFits : ∀ f ∈ lines, newline ∉ f ∧ f.length < bufsize)
    (h : part <+: (lines.map (· ++ [newline])).flatten) :
    (streamPieces part).1 = (lines.take (part.count newline)).map .line := by
  induction lines generalizing part with
  | nil =>
    rw [List.prefix_nil.mp h, streamPieces_nil]
    rfl
  | cons f lines ih =>
    obtain ⟨⟨hLine, hShort⟩, hRest⟩ := List.forall_mem_cons.mp hFits
    rw [List.map_cons, List.flatten_cons] at h
    have hSplit : part <+: f ∨ ∃ part', part = f ++ newline :: part' := by
      rcases List.prefix_or_prefix_of_prefix h (List.prefix_append _ _) with hIn | ⟨part', rfl⟩
      · rcases List.prefix_concat_iff.mp hIn with rfl | hIn
        · exact .inr ⟨[], rfl⟩
        · exact .inl hIn
      · exact .inr ⟨part', by simp⟩
    rcases hSplit with hIn | ⟨part', rfl⟩
    · have hNone : newline ∉ part := fun hMem => hLine (hIn.subset hMem)
      have hCut : pieceCutter.cut part = none :=
        cutPiece_none.mpr ⟨hNone, Nat.lt_of_le_of_lt hIn.length_le hShort⟩
      rw [streamPieces, Cutter.frames_none hCut, List.count_eq_zero_of_not_mem hNone]
      rfl
    · have hCut : pieceCutter.cut (f ++ newline :: part') = some (.line f, part') :=
        cutPiece_line hLine hShort
      have hPart : part' <+: (lines.map (· ++ [newline])).flatten := by
        rw [List.append_cons] at h
        exact (List.prefix_append_right_inj _).mp h
      have hPieces := ih hRest hPart
      rw [streamPieces] at hPieces
      rw [streamPieces, Cutter.frames_some hCut, hPieces, List.count_append, List.count_cons_self,
        List.count_eq_zero_of_not_mem hLine, Nat.zero_add, List.take_succ_cons, List.map_cons]

theorem count_lines {lines : List Text} (h : ∀ f ∈ lines, newline ∉ f) :
    ((lines.map (· ++ [newline])).flatten).count newline = lines.length := by
  induction lines with
  | nil => rfl
  | cons f lines ih =>
    obtain ⟨hLine, hRest⟩ := List.forall_mem_cons.mp h
    rw [List.map_cons, List.flatten_cons, List.count_append, List.count_append, ih hRest,
      List.count_eq_zero_of_not_mem hLine, List.count_singleton_self, List.length_cons]
    omega

/-- However much of the stream of a connection has come, and in whatever pieces, the client has not
exited and has shown the messages whose lines have ended, in the order in which they were sent: a
row for every report, with the differences to the report before, and a line for every BAD. Once the
whole stream has come these are all messages. -/
theorem meter_display {c : Client} {p : List (Label × Session)} {t : Session}
    {messages : List MeterMessage} {stream : Text} (hProper : ∀ m ∈ messages, m.Proper)
    (hStream : meterStream messages = .ok stream) (hRun : Path Session.Step (.start c) p t)
    (hPart : received p <+: stream) :
    ∃ c' w, t.client = .ok c' ∧ c'.written = c.written ++ w ∧
      Shows 10000 (List.replicate 11 0) (messages.take ((received p).count newline - 3)) w ∧
      (received p = stream → (received p).count newline - 3 = messages.length) := by
  obtain ⟨lines, hLines, rfl⟩ := Main.meterStream_lines hProper hStream
  have hFits : ∀ f ∈ Main.helloLine :: Main.headLine :: Main.widthLine :: lines,
      newline ∉ f ∧ f.length < bufsize := by
    refine List.forall_mem_cons.mpr ⟨by decide, List.forall_mem_cons.mpr ⟨by decide,
      List.forall_mem_cons.mpr ⟨by decide, ?_⟩⟩⟩
    intro f hf
    obtain ⟨i, hi, rfl⟩ := List.getElem_of_mem hf
    have hMessage : i < messages.length := by rwa [hLines.length_eq]
    exact (hLines.get hMessage hi).fits
  have hShown := (shown_of_run hRun).1
  rw [streamPieces_part hFits hPart] at hShown
  obtain ⟨c', w, hHeard, hWritten, hShows⟩ := heard_stream c hLines ((received p).count newline)
  refine ⟨c', w, (congrArg Prod.snd hShown).trans hHeard, hWritten, hShows, ?_⟩
  intro hAll
  have hCount := count_lines fun f hf => (hFits f hf).1
  rw [hAll]
  change List.count newline (List.flatten (List.map (· ++ [newline]) _)) - 3 = _
  rw [hCount, List.length_cons, List.length_cons, List.length_cons, hLines.length_eq]
  rfl

def quietStats : Main.Stats where
  sTotIcycles := 0
  sPercpu _ := ⟨30, 12, 5, 9, 8⟩
  sNumcpus := 1
  sIrqs := 3
  sExns := 0
  sRsects := 1
  sWsects := 2
  sRchars := 0
  sWchars := 40
  sRemu := 0
  sWemu := 0
  sMemu := 0
  sRpkts := 0
  sWpkts := 0

def quietStream : Text :=
  ascii "HELLO 2\r\nHEAD nsec kinsns uinsns udud idle irqs exns disk con emu net\r\n" ++
    ascii "WIDTH 11 9 9 4 9 4 4 4 5 4 4\r\nDATA 700 8 9 21 5 3 0 3 40 0 0\r\nBAD Invalid number\r\n"

/-- A report and a BAD that are read at once. -/
theorem meter_display_report :
    ∃ p t c' w, Path Session.Step (.start fresh) p t ∧ received p = quietStream ∧
      t.client = .ok c' ∧ c'.written = fresh.written ++ w ∧
      Shows 10000 (List.replicate 11 0)
        [.report 700 quietStats, .reply "BAD Invalid number\r\n"] w := by
  have hProper : ∀ m ∈ [MeterMessage.report 700 quietStats, .reply "BAD Invalid number\r\n"],
      m.Proper := by
    intro m hm
    rcases List.mem_pair.mp hm with rfl | rfl
    · trivial
    · change "BAD Invalid number\r\n" ∈ _
      decide
  have hStream : meterStream [.report 700 quietStats, .reply "BAD Invalid number\r\n"] =
      .ok quietStream := by decide +kernel
  obtain ⟨p, t, hRun, hReceived⟩ :
      ∃ p t, Path Session.Step (.start fresh) p t ∧ received p = quietStream :=
    ⟨_, _, Path.cons (@Session.Step.receive { client := reset fresh, buf := [] } quietStream
      (by decide +kernel) (by decide +kernel)) (.nil _), by simp [received]⟩
  have hPart : received p <+: quietStream := by rw [hReceived]
  obtain ⟨c', w, hClient, hWritten, hShows, hAll⟩ := meter_display hProper hStream hRun hPart
  rw [hAll hReceived] at hShows
  exact ⟨p, t, c', w, hRun, hReceived, hClient, hWritten, hShows⟩

end Sys161.Stat161
