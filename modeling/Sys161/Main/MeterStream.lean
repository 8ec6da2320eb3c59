import Sys161.Lib.Decimal
import Sys161.Lib.Words
import Sys161.Main.CycleLedger
import Sys161.Main.MeterReplies

/-!
# What the meter sends

The greeting, the reports with the counts of the machine, and the replies between
them are lines of one stream.
-/

namespace Sys161.Main

open CString
open Mips (PercpuStats)

set_option autoImplicit false

def protocolVersion : Nat := 2

/-- `meter_say`, with the buffer of `vsnprintf`. -/
def meterSay (formatted : List (BitVec 8)) : List (BitVec 8) := formatted.take 4095

def meterHello : List (BitVec 8) :=
  meterSay (text "HELLO " ++ decimal protocolVersion ++ text "\r\n")

def meterHeader : List (BitVec 8) :=
  meterSay (text "HEAD nsec kinsns uinsns udud idle irqs exns disk con emu net\r\n") ++
    meterSay (text "WIDTH 11 9 9 4 9 4 4 4 5 4 4\r\n")

/-- What `meter_report` reads of `g_stats`. -/
structure Stats where
  sTotIcycles : BitVec 64
  sPercpu : Nat → PercpuStats
  sNumcpus : Nat
  sIrqs : BitVec 32
  sExns : BitVec 32
  sRsects : BitVec 32
  sWsects : BitVec 32
  sRchars : BitVec 32
  sWchars : BitVec 32
  sRemu : BitVec 32
  sWemu : BitVec 32
  sMemu : BitVec 32
  sRpkts : BitVec 32
  sWpkts : BitVec 32

/-- The counts behind those of cycles. The sums are of 32 bits. -/
def Stats.counts (s : Stats) : List (BitVec 64) :=
  [s.sIrqs, s.sExns, s.sRsects + s.sWsects, s.sRchars + s.sWchars,
    s.sRemu + s.sWemu + s.sMemu, s.sRpkts + s.sWpkts].map (BitVec.setWidth 64)

/-- `%llu` or `%lu`. -/
def numberText (n : BitVec 64) : List (BitVec 8) := decimal n.toNat

/-- Numbers with blanks between them. -/
def numbersText : List (BitVec 64) → List (BitVec 8)
  | [] => []
  | [n] => numberText n
  | n :: m :: ns => numberText n ++ ch ' ' :: numbersText (m :: ns)

/-- What `meter_report` says, or the assertion that fails. -/
def reportText (timestamp : BitVec 64) (s : Stats) : Except String (List (BitVec 8)) :=
  (meterReport (totals s.sTotIcycles s.sPercpu s.sNumcpus)).map fun cycles =>
    let buf2 := (numbersText cycles).take 511
    meterSay (text "DATA " ++ numberText timestamp ++ ch ' ' :: buf2 ++
      ch ' ' :: numbersText s.counts ++ text "\r\n")

/-- A report, or a reply to a command. -/
inductive MeterMessage where
  | report (timestamp : BitVec 64) (s : Stats)
  | reply (said : String)

def MeterMessage.sent : MeterMessage → Except String (List (BitVec 8))
  | .report timestamp s => reportText timestamp s
  | .reply said => .ok (text said)

/-- All that is sent on a connection with these messages. -/
def meterStream (messages : List MeterMessage) : Except String (List (BitVec 8)) :=
  (messages.mapM MeterMessage.sent).map fun sent => meterHello ++ meterHeader ++ sent.flatten

/-- The replies are those of `meter_receive` and `processline`. -/
def MeterMessage.Proper : MeterMessage → Prop
  | .report _ _ => True
  | .reply said => said ∈ overflowmsg :: badReplies

/-! ## The lines -/

/-- The numbers of a report, in the order of the header. -/
def reportNumbers (timestamp : BitVec 64) (s : Stats) : Except String (List (BitVec 64)) :=
  (meterReport (totals s.sTotIcycles s.sPercpu s.sNumcpus)).map fun cycles =>
    timestamp :: cycles ++ s.counts

/-- The line of a report, as far as the newline. -/
def dataLine (numbers : List (BitVec 64)) : List (BitVec 8) :=
  wordLine (ch ' ') 0x0d (text "DATA" :: numbers.map numberText)

/-- What a message is before the newline. -/
def MeterMessage.Line : MeterMessage → List (BitVec 8) → Prop
  | .report timestamp s, line => ∃ numbers, reportNumbers timestamp s = .ok numbers ∧
      line = dataLine numbers
  | .reply said, line => said ∈ overflowmsg :: badReplies ∧ text said = line ++ [newline]

section Numbers

variable {n : BitVec 64} {ns ms : List (BitVec 64)}

theorem length_numberText (n : BitVec 64) : (numberText n).length ≤ 20 := by
  rw [numberText, decimal_eq, List.length_map, Nat.length_toDigits_le_iff (by decide) (by decide)]
  exact n.isLt.trans (by decide)

theorem numberText_digit {c : BitVec 8} (h : c ∈ numberText n) : 48 ≤ c.toNat ∧ c.toNat ≤ 57 :=
  decimal_digit h

theorem numberText_ne_nil (n : BitVec 64) : numberText n ≠ [] := by
  obtain ⟨c, l, hCons, -⟩ := decimal_cons n.toNat
  rw [numberText, hCons]
  exact List.cons_ne_nil _ _

theorem length_numbersText (ns : List (BitVec 64)) :
    (numbersText ns).length ≤ ns.length * 21 := by
  induction ns with
  | nil => rfl
  | cons n ns ih =>
    have hFirst := length_numberText n
    cases ns with
    | nil =>
      rw [numbersText, List.length_singleton]
      omega
    | cons m ns =>
      rw [numbersText, List.length_append, List.length_cons, List.length_cons, Nat.succ_mul]
      omega

theorem numbersText_append (hn : ns ≠ []) (hm : ms ≠ []) :
    numbersText (ns ++ ms) = numbersText ns ++ ch ' ' :: numbersText ms := by
  induction ns with
  | nil => exact absurd rfl hn
  | cons n ns ih =>
    cases ns with
    | nil =>
      obtain ⟨m, ms, rfl⟩ := List.exists_cons_of_ne_nil hm
      rfl
    | cons k ns =>
      have hRest := ih (List.cons_ne_nil k ns)
      rw [List.cons_append] at hRest
      rw [List.cons_append, List.cons_append, numbersText, hRest, numbersText, List.append_assoc,
        List.cons_append]

theorem wordLine_numbers (ns : List (BitVec 64)) :
    wordLine (ch ' ') 0x0d (ns.map numberText) = numbersText ns ++ [0x0d] := by
  induction ns with
  | nil => rfl
  | cons n ns ih =>
    cases ns with
    | nil => rfl
    | cons m ns =>
      rw [List.map_cons] at ih
      rw [List.map_cons, List.map_cons, wordLine, ih, numbersText, List.append_assoc,
        List.cons_append]

theorem dataLine_eq (hSome : ns ≠ []) :
    dataLine ns = text "DATA " ++ numbersText ns ++ [0x0d] := by
  obtain ⟨n, ns, rfl⟩ := List.exists_cons_of_ne_nil hSome
  have hWords := wordLine_numbers (n :: ns)
  rw [List.map_cons] at hWords
  rw [dataLine, List.map_cons, wordLine, hWords, List.append_assoc]
  rfl

theorem dataLine_mem {c : BitVec 8} (h : c ∈ dataLine ns) : c ≠ newline ∧ c ≠ 0 := by
  rcases mem_wordLine h with rfl | rfl | ⟨w, hw, hc⟩
  · decide
  · decide
  · rcases List.mem_cons.mp hw with rfl | hw
    · have hAll : ∀ c ∈ text "DATA", c ≠ newline ∧ c ≠ 0 := by decide
      exact hAll c hc
    · obtain ⟨n, -, rfl⟩ := List.mem_map.mp hw
      obtain ⟨hLow, -⟩ := numberText_digit hc
      constructor
      · rintro rfl
        exact absurd hLow (by decide)
      · rintro rfl
        exact absurd hLow (by decide)

end Numbers

section Messages

variable {timestamp : BitVec 64} {s : Stats} {m : MeterMessage} {line : List (BitVec 8)}

theorem meterReport_length {t : Totals} {cycles : List (BitVec 64)}
    (h : meterReport t = .ok cycles) : cycles.length = 4 := by
  rw [meterReport] at h
  split at h
  · cases h
  · split at h
    · cases h
    · cases h
      rfl

theorem reportNumbers_length {numbers : List (BitVec 64)}
    (h : reportNumbers timestamp s = .ok numbers) : numbers.length = 11 := by
  rw [reportNumbers] at h
  cases hCycles : meterReport (totals s.sTotIcycles s.sPercpu s.sNumcpus) with
  | error e =>
    rw [hCycles] at h
    cases h
  | ok cycles =>
    rw [hCycles] at h
    cases h
    rw [List.length_append, List.length_cons, meterReport_length hCycles]
    rfl

theorem dataLine_length {numbers : List (BitVec 64)} (hLength : numbers.length = 11) :
    (dataLine numbers).length ≤ 237 := by
  have hSome : numbers ≠ [] := List.ne_nil_of_length_eq_add_one hLength
  have hNumbers := length_numbersText numbers
  have hText : (text "DATA ").length = 5 := rfl
  rw [dataLine_eq hSome, List.length_append, List.length_append, List.length_singleton]
  omega

/-- The format of a report makes its line. -/
theorem report_line {cycles : List (BitVec 64)} (hSome : cycles ≠ []) :
    text "DATA " ++ numberText timestamp ++ ch ' ' :: numbersText cycles ++
        ch ' ' :: numbersText s.counts ++ text "\r\n" =
      dataLine (timestamp :: cycles ++ s.counts) ++ [newline] := by
  have hCounts : s.counts ≠ [] := List.cons_ne_nil _ _
  have hFirst : numbersText (timestamp :: cycles) =
      numberText timestamp ++ ch ' ' :: numbersText cycles :=
    @numbersText_append [timestamp] cycles (List.cons_ne_nil _ _) hSome
  have hEnd : text "\r\n" = [0x0d] ++ [newline] := rfl
  rw [@dataLine_eq (timestamp :: cycles ++ s.counts) (List.cons_ne_nil _ _),
    numbersText_append (List.cons_ne_nil _ _) hCounts, hFirst, hEnd]
  simp only [List.append_assoc, List.cons_append]

/-- Neither buffer cuts anything off a report. -/
theorem reportText_eq (timestamp : BitVec 64) (s : Stats) :
    reportText timestamp s =
      (reportNumbers timestamp s).map fun numbers => dataLine numbers ++ [newline] := by
  rw [reportText, reportNumbers]
  cases hCycles : meterReport (totals s.sTotIcycles s.sPercpu s.sNumcpus) with
  | error e => rfl
  | ok cycles =>
    have hFour := meterReport_length hCycles
    have hNumbers : (timestamp :: cycles ++ s.counts).length = 11 := by
      rw [List.length_append, List.length_cons, hFour]
      rfl
    have hRoom := dataLine_length hNumbers
    have hBuf2 : (numbersText cycles).take 511 = numbersText cycles := by
      apply List.take_of_length_le
      have hText := length_numbersText cycles
      omega
    have hSaid : meterSay (dataLine (timestamp :: cycles ++ s.counts) ++ [newline]) =
        dataLine (timestamp :: cycles ++ s.counts) ++ [newline] := by
      apply List.take_of_length_le
      rw [List.length_append, List.length_singleton]
      omega
    have hLine := @report_line timestamp s cycles (List.ne_nil_of_length_eq_add_one hFour)
    change Except.ok (meterSay _) = Except.ok _
    rw [hBuf2, hLine, hSaid]

theorem MeterMessage.Line.fits (h : m.Line line) : newline ∉ line ∧ line.length < 4096 := by
  cases m with
  | report timestamp s =>
    obtain ⟨numbers, hNumbers, rfl⟩ := h
    have hRoom := dataLine_length (reportNumbers_length hNumbers)
    exact ⟨fun hMem => (dataLine_mem hMem).1 rfl, by omega⟩
  | reply said =>
    obtain ⟨hSaid, hLine⟩ := h
    have hAll : ∀ said ∈ overflowmsg :: badReplies,
        newline ∉ (text said).dropLast ∧ (text said).dropLast.length < 4096 := by decide
    have hFits := hAll said hSaid
    rwa [hLine, List.dropLast_concat] at hFits

/-- Every message is a line. -/
theorem MeterMessage.sent_line {sent : List (BitVec 8)} (hProper : m.Proper)
    (h : m.sent = .ok sent) : ∃ line, m.Line line ∧ sent = line ++ [newline] := by
  cases m with
  | report timestamp s =>
    rw [MeterMessage.sent, reportText_eq] at h
    cases hNumbers : reportNumbers timestamp s with
    | error e =>
      rw [hNumbers] at h
      cases h
    | ok numbers =>
      rw [hNumbers] at h
      cases h
      exact ⟨dataLine numbers, ⟨numbers, hNumbers, rfl⟩, rfl⟩
  | reply said =>
    cases h
    have hAll : ∀ said ∈ overflowmsg :: badReplies,
        text said = (text said).dropLast ++ [newline] := by decide
    exact ⟨(text said).dropLast, ⟨hProper, hAll said hProper⟩, hAll said hProper⟩

theorem messages_lines {messages : List MeterMessage} {sent : List (List (BitVec 8))}
    (hProper : ∀ m ∈ messages, m.Proper) (h : messages.mapM MeterMessage.sent = .ok sent) :
    ∃ lines, List.Forall₂ MeterMessage.Line messages lines ∧
      sent = lines.map (· ++ [newline]) := by
  induction messages generalizing sent with
  | nil =>
    cases h
    exact ⟨[], .nil, rfl⟩
  | cons m messages ih =>
    obtain ⟨hFirst, hRest⟩ := List.forall_mem_cons.mp hProper
    rw [List.mapM_cons] at h
    cases hSent : m.sent with
    | error e =>
      rw [hSent] at h
      cases h
    | ok bytes =>
      rw [hSent] at h
      cases hMore : messages.mapM MeterMessage.sent with
      | error e =>
        rw [hMore] at h
        cases h
      | ok more =>
        rw [hMore] at h
        cases h
        obtain ⟨line, hLine, rfl⟩ := MeterMessage.sent_line hFirst hSent
        obtain ⟨lines, hLines, rfl⟩ := ih hRest hMore
        exact ⟨line :: lines, .cons hLine hLines, rfl⟩

def helloLine : List (BitVec 8) := text "HELLO 2\r"

def headLine : List (BitVec 8) :=
  text "HEAD nsec kinsns uinsns udud idle irqs exns disk con emu net\r"

def widthLine : List (BitVec 8) := text "WIDTH 11 9 9 4 9 4 4 4 5 4 4\r"

/-- The stream is the three lines of the greeting and a line for every message. -/
theorem meterStream_lines {messages : List MeterMessage} {stream : List (BitVec 8)}
    (hProper : ∀ m ∈ messages, m.Proper) (h : meterStream messages = .ok stream) :
    ∃ lines, List.Forall₂ MeterMessage.Line messages lines ∧
      stream = ((helloLine :: headLine :: widthLine :: lines).map (· ++ [newline])).flatten := by
  rw [meterStream] at h
  cases hSent : messages.mapM MeterMessage.sent with
  | error e =>
    rw [hSent] at h
    cases h
  | ok sent =>
    rw [hSent] at h
    cases h
    obtain ⟨lines, hLines, rfl⟩ := messages_lines hProper hSent
    refine ⟨lines, hLines, ?_⟩
    have hHello : meterHello = helloLine ++ [newline] := by decide
    have hHeader : meterHeader = headLine ++ [newline] ++ (widthLine ++ [newline]) := by decide
    rw [hHello, hHeader]
    simp only [List.map_cons, List.flatten_cons, List.append_assoc]

end Messages

end Sys161.Main
