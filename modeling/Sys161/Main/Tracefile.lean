import Sys161.Lib.Decimal
import Sys161.Lib.Lines
import Sys161.Main.Meter

/-!
# The trace file

`console.c` writes messages, traces of the cpus and of the hardware, and what the
guest prints into one file. From the file alone these can be told apart again.
-/

namespace Sys161.Main

open CString Framing

set_option autoImplicit false

inductive Msgtypes where
  | console
  | msg
  | cputrace
  | hwtrace
deriving DecidableEq

structure Output where
  written : List (BitVec 8)
  needsCrs : Bool
  atBol : Bool
  lastMsgtype : Msgtypes
  lastCpunum : BitVec 32

def outputCreate (needsCrs : Bool) : Output where
  written := []
  needsCrs := needsCrs
  atBol := true
  lastMsgtype := .msg
  lastCpunum := 0

def outputSay (o : Output) (said : List (BitVec 8)) : Output :=
  { o with written := o.written ++ said }

def outputPutc (o : Output) (c : BitVec 8) : Output := outputSay o [c]

def outputEol (o : Output) : Output :=
  outputPutc (if o.needsCrs then outputPutc o 0x0d else o) newline

def outputFlush (o : Output) : Output :=
  if ¬ o.atBol then { outputEol o with atBol := true } else o

/-- `%x`. -/
def hexNumber (n : Nat) : List (BitVec 8) := (Nat.toDigits 16 n).map ch

/-- `%02x`. -/
def hexPair (n : Nat) : List (BitVec 8) :=
  List.replicate (2 - (hexNumber n).length) (ch '0') ++ hexNumber n

/-- What `output_vmsgl` says at the beginning of a line. -/
def lineStart (mt : Msgtypes) (cpunum : BitVec 32) : List (BitVec 8) :=
  match mt with
  | .console => text "console: "
  | .msg => text "sys161: "
  | .cputrace => text "trace: " ++ hexPair cpunum.toNat ++ text " "
  | .hwtrace => text "trace: -- "

/-- A line of another source is ended. -/
def outputTurn (mt : Msgtypes) (cpunum : BitVec 32) (o : Output) : Output :=
  if ¬ o.atBol ∧ (o.lastMsgtype ≠ mt ∨ cpunum ≠ o.lastCpunum) then
    { outputEol o with atBol := true }
  else o

def outputStart (mt : Msgtypes) (cpunum : BitVec 32) (o : Output) : Output :=
  if o.atBol then outputSay o (lineStart mt cpunum) else o

def outputVmsgl (mt : Msgtypes) (cpunum : BitVec 32) (o : Output) (formatted : List (BitVec 8)) :
    Output :=
  { outputSay (outputStart mt cpunum (outputTurn mt cpunum o)) formatted with
    atBol := false
    lastMsgtype := mt
    lastCpunum := cpunum }

def outputVmsg (mt : Msgtypes) (cpunum : BitVec 32) (o : Output) (formatted : List (BitVec 8)) :
    Output :=
  { outputEol (outputVmsgl mt cpunum o formatted) with atBol := true }

/-- `%d`. -/
def intText (n : Int) : List (BitVec 8) :=
  if n < 0 then ch '-' :: decimal n.natAbs else decimal n.natAbs

/-- `tmp` in `console_putc`. -/
def shownChar (c : BitVec 32) : List (BitVec 8) :=
  if 32 ≤ c.toInt ∧ c.toInt < 127 ∨ 32 + 128 ≤ c.toInt ∧ c.toInt < 255 then [c.setWidth 8]
  else
    text "\\" ++
      if c = 0x07 then text "a"
      else if c = 0x08 then text "b"
      else if c = 0x09 then text "t"
      else if c = 0x0a then text "n"
      else if c = 0x0b then text "v"
      else if c = 0x0c then text "f"
      else if c = 0x0d then text "r"
      else (hexPair c.toNat).take 2

def charText (c : BitVec 32) : List (BitVec 8) :=
  text "`" ++ shownChar c ++ text "' (" ++ intText c.toInt ++ text " / 0x" ++ hexNumber c.toNat ++
    text ")"

/-- `output_char`. -/
def outputChar (mt : Msgtypes) (cpunum : BitVec 32) (o : Output) (c : BitVec 32) : Output :=
  let o := outputTurn mt cpunum o
  let o :=
    if c = 0x0a then { outputEol o with atBol := true }
    else { outputPutc o (c.setWidth 8) with atBol := false }
  { o with lastMsgtype := mt, lastCpunum := cpunum }

/-- `o_stdout` and `o_tracefile`. -/
structure Consoles where
  stdout : Output
  tracefile : Output

def consolePutc (s : Consoles) (c : BitVec 32) : Consoles where
  stdout := outputChar .console 0 s.stdout c
  tracefile := outputVmsg .console 0 s.tracefile (charText c)

/-- `console_beep`, where stdout is a terminal. -/
def consoleBeep (s : Consoles) : Consoles :=
  let s := consolePutc s 0x07
  { s with tracefile := outputVmsg .msg 0 s.tracefile (text "[BEEP]") }

def cputrace (cpunum : BitVec 32) (s : Consoles) (formatted : List (BitVec 8)) : Consoles :=
  { s with tracefile := outputVmsg .cputrace cpunum s.tracefile formatted }

def cputracel (cpunum : BitVec 32) (s : Consoles) (formatted : List (BitVec 8)) : Consoles :=
  { s with tracefile := outputVmsgl .cputrace cpunum s.tracefile formatted }

def hwtrace (s : Consoles) (formatted : List (BitVec 8)) : Consoles :=
  { s with tracefile := outputVmsg .hwtrace 0 s.tracefile formatted }

def hwtracel (s : Consoles) (formatted : List (BitVec 8)) : Consoles :=
  { s with tracefile := outputVmsgl .hwtrace 0 s.tracefile formatted }

/-- The calls that write to stdout or to a trace file; `flush` is that of `hang`. -/
inductive TraceCall where
  | putc (c : BitVec 32)
  | beep
  | cputrace (cpunum : Fin 32) (formatted : List (BitVec 8))
  | cputracel (cpunum : Fin 32) (formatted : List (BitVec 8))
  | hwtrace (formatted : List (BitVec 8))
  | hwtracel (formatted : List (BitVec 8))
  | flush

def traceCall (s : Consoles) : TraceCall → Consoles
  | .putc c => consolePutc s c
  | .beep => consoleBeep s
  | .cputrace cpunum formatted => cputrace (BitVec.ofNat 32 cpunum) s formatted
  | .cputracel cpunum formatted => cputracel (BitVec.ofNat 32 cpunum) s formatted
  | .hwtrace formatted => hwtrace s formatted
  | .hwtracel formatted => hwtracel s formatted
  | .flush => ⟨outputFlush s.stdout, outputFlush s.tracefile⟩

/-- The outputs as `console_earlyinit` and `set_tracefile` create them. -/
def tracedStart (stdoutCrs fileCrs : Bool) : Consoles where
  stdout := outputCreate stdoutCrs
  tracefile := { outputCreate fileCrs with lastMsgtype := .hwtrace }

/-- The outputs after some calls. -/
def traced (stdoutCrs fileCrs : Bool) (calls : List TraceCall) : Consoles :=
  calls.foldl traceCall (tracedStart stdoutCrs fileCrs)

/-! ## What was called -/

/-- Who writes a line. -/
inductive Source where
  | console
  | msg
  | cpu (cpunum : Fin 32)
  | hardware
deriving DecidableEq

def Source.msgtype : Source → Msgtypes
  | .console => .console
  | .msg => .msg
  | .cpu _ => .cputrace
  | .hardware => .hwtrace

def Source.cpunum : Source → BitVec 32
  | .cpu cpunum => BitVec.ofNat 32 cpunum
  | _ => 0

/-- The words that the guest has printed. -/
def TraceCall.chars : TraceCall → List (BitVec 32)
  | .putc c => [c]
  | .beep => [0x07]
  | _ => []

/-- The texts of a call and who they are from. -/
def TraceCall.texts : TraceCall → List (Source × List (BitVec 8))
  | .putc c => [(.console, charText c)]
  | .beep => [(.console, charText 0x07), (.msg, text "[BEEP]")]
  | .cputrace cpunum formatted | .cputracel cpunum formatted => [(.cpu cpunum, formatted)]
  | .hwtrace formatted | .hwtracel formatted => [(.hardware, formatted)]
  | .flush => []

def TraceCall.pieces (call : TraceCall) : List (Source × BitVec 8) :=
  call.texts.flatMap fun e => e.2.map fun x => (e.1, x)

/-- What is traced is on one line. -/
def TraceCall.Proper : TraceCall → Prop
  | .cputrace _ formatted | .cputracel _ formatted => newline ∉ formatted
  | .hwtrace formatted | .hwtracel formatted => newline ∉ formatted
  | _ => True

/-! ## The lines of the file -/

def sourceList : List Source :=
  [.console, .msg, .hardware] ++ (List.finRange 32).map .cpu

theorem mem_sourceList (s : Source) : s ∈ sourceList := by
  cases s with
  | cpu cpunum => exact List.mem_append_right _ (List.mem_map_of_mem (List.mem_finRange cpunum))
  | _ => exact List.mem_append_left _ (by decide)

theorem source_eq {s s' : Source} (hType : s.msgtype = s'.msgtype) (hCpu : s.cpunum = s'.cpunum) :
    s = s' := by
  have hAll : ∀ s ∈ sourceList, ∀ s' ∈ sourceList,
      s.msgtype = s'.msgtype → s.cpunum = s'.cpunum → s = s' := by decide +kernel
  exact hAll s (mem_sourceList s) s' (mem_sourceList s') hType hCpu

def Source.start (s : Source) : List (BitVec 8) := lineStart s.msgtype s.cpunum

theorem start_plain (s : Source) : s.start ≠ [] ∧ newline ∉ s.start := by
  have hAll : ∀ s ∈ sourceList, s.start ≠ [] ∧ newline ∉ s.start := by decide +kernel
  exact hAll s (mem_sourceList s)

theorem start_apart (s s' : Source) (h : s.start <+: s'.start) : s = s' := by
  have hAll : ∀ s ∈ sourceList, ∀ s' ∈ sourceList, s.start <+: s'.start → s = s' := by
    decide +kernel
  exact hAll s (mem_sourceList s) s' (mem_sourceList s') h

def sources : Labels Source newline where
  label := Source.start
  some s := (start_plain s).1
  plain s := (start_plain s).2
  apart := start_apart

def cr (needsCrs : Bool) : List (BitVec 8) := if needsCrs then [0x0d] else []

theorem newline_not_cr (needsCrs : Bool) : newline ∉ cr needsCrs := by
  cases needsCrs with
  | false => exact List.not_mem_nil
  | true => decide

theorem outputEol_written (o : Output) :
    (outputEol o).written = o.written ++ (cr o.needsCrs ++ [newline]) := by
  rw [outputEol, cr]
  cases o.needsCrs with
  | false => rfl
  | true => exact List.append_assoc ..

theorem outputEol_needsCrs (o : Output) : (outputEol o).needsCrs = o.needsCrs := by
  rw [outputEol]
  split
  · rfl
  · rfl

/-- The file is the text of the log. -/
structure Keeps (needsCrs : Bool) (o : Output) (l : Log Source (BitVec 8)) : Prop where
  written : o.written = l.text sources (cr needsCrs)
  needsCrs : o.needsCrs = needsCrs
  atBol : o.atBol = l.current.isNone
  last : ∀ e ∈ l.current, o.lastMsgtype = e.1.msgtype ∧ o.lastCpunum = e.1.cpunum

section Calls

variable {needsCrs : Bool} {o : Output} {l : Log Source (BitVec 8)}

theorem Keeps.eol (h : Keeps needsCrs o l) {e : Source × List (BitVec 8)}
    (hCurrent : l.current = some e) :
    Keeps needsCrs { outputEol o with atBol := true } l.close := by
  refine ⟨?_, ?_, rfl, ?_⟩
  · rw [Log.text_close hCurrent, ← h.written, ← h.needsCrs]
    exact outputEol_written o
  · exact (outputEol_needsCrs o).trans h.needsCrs
  · rintro e ⟨⟩

theorem Keeps.flush (h : Keeps needsCrs o l) : Keeps needsCrs (outputFlush o) l.close := by
  have hBol := h.atBol
  rw [outputFlush]
  cases hCurrent : l.current with
  | none =>
    have hClose : l.close = l := by
      rw [Log.close, hCurrent]
      simp [Log.ext_iff, hCurrent]
    rw [hCurrent] at hBol
    rw [if_neg (by simp [hBol]), hClose]
    exact h
  | some e =>
    rw [hCurrent] at hBol
    rw [if_pos (by simp [hBol])]
    exact h.eol hCurrent

theorem Keeps.begins (h : Keeps needsCrs o l) (hNone : l.current = none) (s : Source)
    (formatted : List (BitVec 8)) :
    Keeps needsCrs
      { outputSay (outputStart s.msgtype s.cpunum o) formatted with
        atBol := false
        lastMsgtype := s.msgtype
        lastCpunum := s.cpunum } ⟨l.ended, some (s, formatted)⟩ := by
  have hBol := h.atBol
  rw [hNone] at hBol
  have hStart : outputStart s.msgtype s.cpunum o = outputSay o s.start := if_pos hBol
  rw [hStart]
  refine ⟨?_, h.needsCrs, rfl, ?_⟩
  · rw [Log.text_begin hNone, ← h.written]
    exact List.append_assoc ..
  · rintro e ⟨⟩
    exact ⟨rfl, rfl⟩

/-- A line that is not ended is gone on with by its own source only. -/
theorem Keeps.vmsgl (h : Keeps needsCrs o l) (s : Source) (formatted : List (BitVec 8)) :
    Keeps needsCrs (outputVmsgl s.msgtype s.cpunum o formatted) (l.add s formatted) := by
  have hBol := h.atBol
  rw [outputVmsgl, Log.add]
  cases hCurrent : l.current with
  | none =>
    rw [hCurrent] at hBol
    have hTurn : outputTurn s.msgtype s.cpunum o = o := if_neg fun hNot => hNot.1 hBol
    rw [hTurn]
    exact h.begins hCurrent s formatted
  | some e =>
    obtain ⟨s', t⟩ := e
    rw [hCurrent] at hBol
    have hFalse : ¬ o.atBol := by
      rw [hBol]
      exact Bool.false_ne_true
    obtain ⟨hType, hCpu⟩ := h.last (s', t) hCurrent
    dsimp only at hType hCpu ⊢
    split
    · next hSame =>
      subst hSame
      have hTurn : outputTurn s'.msgtype s'.cpunum o = o := by
        apply if_neg
        rintro ⟨-, hNot | hNot⟩
        · exact hNot hType
        · exact hNot hCpu.symm
      have hText : l = ⟨l.ended, some (s', t)⟩ := Log.ext rfl hCurrent
      have hStart : outputStart s'.msgtype s'.cpunum o = o := if_neg hFalse
      rw [hTurn, hStart]
      refine ⟨?_, h.needsCrs, rfl, ?_⟩
      · rw [Log.text_more, ← hText, ← h.written]
        rfl
      · rintro e ⟨⟩
        exact ⟨rfl, rfl⟩
    · next hOther =>
      have hTurn : outputTurn s.msgtype s.cpunum o = { outputEol o with atBol := true } := by
        refine if_pos ⟨hFalse, ?_⟩
        by_contra hNot
        rw [not_or, not_not, not_not] at hNot
        exact hOther (source_eq (hType.symm.trans hNot.1) (hCpu.symm.trans hNot.2.symm))
      rw [hTurn]
      exact (h.eol hCurrent).begins rfl s formatted

theorem Keeps.vmsg (h : Keeps needsCrs o l) (s : Source) (formatted : List (BitVec 8)) :
    Keeps needsCrs (outputVmsg s.msgtype s.cpunum o formatted) (l.add s formatted).close := by
  obtain ⟨e, hCurrent⟩ := Log.current_add l s formatted
  exact (h.vmsgl s formatted).eol hCurrent

/-- What a call adds to the log. -/
def logCall (l : Log Source (BitVec 8)) : TraceCall → Log Source (BitVec 8)
  | .putc c => (l.add .console (charText c)).close
  | .beep => ((l.add .console (charText 0x07)).close.add .msg (text "[BEEP]")).close
  | .cputrace cpunum formatted => (l.add (.cpu cpunum) formatted).close
  | .cputracel cpunum formatted => l.add (.cpu cpunum) formatted
  | .hwtrace formatted => (l.add .hardware formatted).close
  | .hwtracel formatted => l.add .hardware formatted
  | .flush => l.close

theorem Keeps.call {s : Consoles} (h : Keeps needsCrs s.tracefile l) (call : TraceCall) :
    Keeps needsCrs (traceCall s call).tracefile (logCall l call) := by
  cases call with
  | putc c => exact h.vmsg .console (charText c)
  | beep => exact (h.vmsg .console (charText 0x07)).vmsg .msg (text "[BEEP]")
  | cputrace cpunum formatted => exact h.vmsg (.cpu cpunum) formatted
  | cputracel cpunum formatted => exact h.vmsgl (.cpu cpunum) formatted
  | hwtrace formatted => exact h.vmsg .hardware formatted
  | hwtracel formatted => exact h.vmsgl .hardware formatted
  | flush => exact h.flush

/-- The log has what was called. -/
structure Logged (l : Log Source (BitVec 8)) (calls : List TraceCall) : Prop where
  pieces : l.pieces = calls.flatMap TraceCall.pieces
  chars : l.of .console = (calls.flatMap TraceCall.chars).map charText
  other : ∀ e ∈ l.current, e.1 ≠ .console

theorem Logged.call {calls : List TraceCall} (h : Logged l calls) (call : TraceCall) :
    Logged (logCall l call) (calls ++ [call]) := by
  have hPieces : (logCall l call).pieces = l.pieces ++ call.pieces := by
    cases call with
    | flush => simp [logCall, TraceCall.pieces, TraceCall.texts, Log.pieces_close]
    | _ => simp [logCall, TraceCall.pieces, TraceCall.texts, Log.pieces_close, Log.pieces_add]
  have hClosed {l' : Log Source (BitVec 8)} : ∀ e ∈ l'.close.current, e.1 ≠ Source.console := by
    rintro e ⟨⟩
  have hChars : (logCall l call).of .console = l.of .console ++ call.chars.map charText ∧
      ∀ e ∈ (logCall l call).current, e.1 ≠ .console := by
    have hEnded {s : Source} (hs : s ≠ .console) (t : List (BitVec 8)) :
        (l.add s t).close.of .console = l.of .console := by
      obtain ⟨hOf, hOther⟩ := @Log.of_add _ _ _ l .console s t h.other hs
      rw [Log.of_close hOther, hOf]
    cases call with
    | putc c => exact ⟨Log.of_add_close h.other, hClosed⟩
    | beep =>
      obtain ⟨hOf, hOther⟩ := @Log.of_add _ _ _ (l.add .console (charText 0x07)).close .console
        .msg (text "[BEEP]") hClosed (by decide)
      refine ⟨?_, hClosed⟩
      rw [logCall, Log.of_close hOther, hOf, Log.of_add_close h.other]
      rfl
    | cputrace cpunum formatted =>
      exact ⟨(hEnded (by simp) formatted).trans (List.append_nil _).symm, hClosed⟩
    | cputracel cpunum formatted =>
      obtain ⟨hOf, hOther⟩ := @Log.of_add _ _ _ l .console (.cpu cpunum) formatted h.other (by simp)
      exact ⟨hOf.trans (List.append_nil _).symm, hOther⟩
    | hwtrace formatted =>
      exact ⟨(hEnded (by simp) formatted).trans (List.append_nil _).symm, hClosed⟩
    | hwtracel formatted =>
      obtain ⟨hOf, hOther⟩ := @Log.of_add _ _ _ l .console .hardware formatted h.other (by simp)
      exact ⟨hOf.trans (List.append_nil _).symm, hOther⟩
    | flush => exact ⟨(Log.of_close h.other).trans (List.append_nil _).symm, hClosed⟩
  refine ⟨?_, ?_, hChars.2⟩
  · rw [hPieces, h.pieces, List.flatMap_append, List.flatMap_singleton]
  · rw [hChars.1, h.chars, List.flatMap_append, List.flatMap_singleton, List.map_append]

theorem traced_log (stdoutCrs fileCrs : Bool) (calls : List TraceCall) :
    ∃ l, Keeps fileCrs (traced stdoutCrs fileCrs calls).tracefile l ∧ Logged l calls := by
  induction calls using List.reverseRecOn with
  | nil =>
    refine ⟨Log.empty, ⟨rfl, rfl, rfl, ?_⟩, ⟨rfl, rfl, ?_⟩⟩
    · rintro e ⟨⟩
    · rintro e ⟨⟩
  | append_singleton calls call ih =>
    obtain ⟨l, hKeeps, hLogged⟩ := ih
    refine ⟨logCall l call, ?_, hLogged.call call⟩
    rw [traced, List.foldl_append]
    exact hKeeps.call call

end Calls

/-! ## Stdout -/

/-- The words that come out on stdout: `hang` ends the line. -/
def printed (past : List (BitVec 32)) : TraceCall → List (BitVec 32)
  | .flush => if past.getLast?.getD 0x0a = 0x0a then past else past ++ [0x0a]
  | call => past ++ call.chars

def charBytes (needsCrs : Bool) (c : BitVec 32) : List (BitVec 8) :=
  if c = 0x0a then cr needsCrs ++ [newline] else [c.setWidth 8]

/-- Stdout has these words and nothing else. -/
structure Prints (needsCrs : Bool) (o : Output) (past : List (BitVec 32)) : Prop where
  written : o.written = past.flatMap (charBytes needsCrs)
  needsCrs : o.needsCrs = needsCrs
  atBol : o.atBol = true ↔ past.getLast?.getD 0x0a = 0x0a
  last : o.atBol = false → o.lastMsgtype = .console ∧ o.lastCpunum = 0

section Stdout

variable {needsCrs : Bool} {o : Output} {past : List (BitVec 32)}

theorem Prints.char (h : Prints needsCrs o past) (c : BitVec 32) :
    Prints needsCrs (outputChar .console 0 o c) (past ++ [c]) := by
  have hTurn : outputTurn .console 0 o = o := by
    apply if_neg
    rintro ⟨hOpen, hNot⟩
    obtain ⟨hType, hCpu⟩ := h.last (Bool.eq_false_of_not_eq_true hOpen)
    rcases hNot with hNot | hNot
    · exact hNot hType
    · exact hNot hCpu.symm
  rw [outputChar, hTurn]
  dsimp only
  split
  · next hEnd =>
    refine ⟨?_, (outputEol_needsCrs o).trans h.needsCrs, ?_, fun hOpen => by cases hOpen⟩
    · rw [List.flatMap_append, List.flatMap_singleton, charBytes, if_pos hEnd, ← h.written,
        ← h.needsCrs]
      exact outputEol_written o
    · rw [List.getLast?_concat]
      exact iff_of_true rfl hEnd
  · next hMore =>
    refine ⟨?_, h.needsCrs, ?_, fun _ => ⟨rfl, rfl⟩⟩
    · rw [List.flatMap_append, List.flatMap_singleton, charBytes, if_neg hMore, ← h.written]
      rfl
    · rw [List.getLast?_concat]
      exact iff_of_false Bool.false_ne_true hMore

theorem Prints.flush (h : Prints needsCrs o past) :
    Prints needsCrs (outputFlush o) (printed past .flush) := by
  rw [outputFlush, printed]
  split
  · next hOpen =>
    rw [if_neg (fun hEnd => hOpen (h.atBol.mpr hEnd))]
    refine ⟨?_, (outputEol_needsCrs o).trans h.needsCrs, ?_, fun hNot => by cases hNot⟩
    · rw [List.flatMap_append, List.flatMap_singleton, charBytes, if_pos rfl, ← h.written,
        ← h.needsCrs]
      exact outputEol_written o
    · rw [List.getLast?_concat]
      exact iff_of_true rfl rfl
  · next hBol =>
    rw [not_not] at hBol
    rw [if_pos (h.atBol.mp hBol)]
    exact h

/-- On stdout is what the guest prints, whatever is traced meanwhile. -/
theorem traced_stdout (stdoutCrs fileCrs : Bool) (calls : List TraceCall) :
    Prints stdoutCrs (traced stdoutCrs fileCrs calls).stdout (calls.foldl printed []) := by
  induction calls using List.reverseRecOn with
  | nil => exact ⟨rfl, rfl, iff_of_true rfl rfl, fun hOpen => by cases hOpen⟩
  | append_singleton calls call ih =>
    have hSame : Prints stdoutCrs (traced stdoutCrs fileCrs calls).stdout
        (calls.foldl printed [] ++ []) := by
      rw [List.append_nil]
      exact ih
    rw [traced, List.foldl_append, List.foldl_append]
    cases call with
    | putc c => exact ih.char c
    | beep => exact ih.char 0x07
    | flush => exact ih.flush
    | _ => exact hSame

end Stdout

/-! ## The words of the guest -/

section Chars

variable {n : Nat} {c : BitVec 32} {x : BitVec 8}

theorem hexNumber_mem (h : x ∈ hexNumber n) : ∃ d < 16, x = ch (Nat.digitChar d) := by
  induction n using Nat.strongRecOn with
  | ind n ih =>
    rw [hexNumber] at h
    rcases Nat.lt_or_ge n 16 with hLess | hMore
    · rw [Nat.toDigits_of_lt_base hLess] at h
      exact ⟨n, hLess, List.mem_singleton.mp h⟩
    · rw [Nat.toDigits_of_base_le (by decide) hMore, List.map_append] at h
      rcases List.mem_append.mp h with h | h
      · exact ih (n / 16) (by omega) h
      · exact ⟨n % 16, Nat.mod_lt n (by decide), List.mem_singleton.mp h⟩

theorem hexNumber_plain (h : x ∈ hexNumber n) : x ≠ newline ∧ x ≠ ch 'x' := by
  have hAll : ∀ d < 16, ch (Nat.digitChar d) ≠ newline ∧ ch (Nat.digitChar d) ≠ ch 'x' := by decide
  obtain ⟨d, hd, rfl⟩ := hexNumber_mem h
  exact hAll d hd

theorem hexPair_plain (h : x ∈ hexPair n) : x ≠ newline := by
  rcases List.mem_append.mp h with h | h
  · rw [List.eq_of_mem_replicate h]
    decide
  · exact (hexNumber_plain h).1

theorem intText_mem {i : Int} (h : x ∈ intText i) : x = ch '-' ∨ 48 ≤ x.toNat ∧ x.toNat ≤ 57 := by
  rw [intText] at h
  split at h
  · rcases List.mem_cons.mp h with rfl | h
    · exact .inl rfl
    · exact .inr (decimal_digit h)
  · exact .inr (decimal_digit h)

theorem intText_plain {i : Int} (h : x ∈ intText i) : x ≠ newline ∧ x ≠ ch '(' := by
  rcases intText_mem h with rfl | ⟨hLow, -⟩
  · decide
  · constructor
    · rintro rfl
      exact absurd hLow (by decide)
    · rintro rfl
      exact absurd hLow (by decide)

theorem intText_inj {i j : Int} (h : intText i = intText j) : i = j := by
  have hSign {n m : Nat} : ch '-' :: decimal n ≠ decimal m := by
    intro hEq
    have hMem : ch '-' ∈ decimal m := by
      rw [← hEq]
      exact List.mem_cons_self
    exact absurd (decimal_digit hMem).1 (by decide)
  rw [intText, intText] at h
  split at h
  · split at h
    · have hAbs := decimal_inj (List.cons.inj h).2
      omega
    · exact absurd h hSign
  · split at h
    · exact absurd h.symm hSign
    · have hAbs := decimal_inj h
      omega

theorem shownChar_plain (c : BitVec 32) : newline ∉ shownChar c := by
  rw [shownChar]
  split
  · next hShown =>
    intro hMem
    have hByte : newline.toNat = (c.setWidth 8).toNat :=
      congrArg BitVec.toNat (List.mem_singleton.mp hMem)
    have hInt := BitVec.toInt_eq_toNat_cond c
    have hNewline : newline.toNat = 10 := rfl
    rw [hNewline, BitVec.toNat_setWidth] at hByte
    split at hInt
    · omega
    · omega
  · rw [List.mem_append, not_or]
    refine ⟨by decide, ?_⟩
    intro hMem
    repeat' split at hMem
    · exact absurd hMem (by decide)
    · exact absurd hMem (by decide)
    · exact absurd hMem (by decide)
    · exact absurd hMem (by decide)
    · exact absurd hMem (by decide)
    · exact absurd hMem (by decide)
    · exact absurd hMem (by decide)
    · exact hexPair_plain (List.mem_of_mem_take hMem) rfl

theorem charText_plain (c : BitVec 32) : newline ∉ charText c := by
  unfold charText
  simp only [List.mem_append, not_or]
  refine ⟨⟨⟨⟨⟨⟨by decide, shownChar_plain c⟩, by decide⟩, ?_⟩, by decide⟩, ?_⟩, by decide⟩
  · exact fun hMem => (intText_plain hMem).1 rfl
  · exact fun hMem => (hexNumber_plain hMem).1 rfl

/-- The last one of a byte is where it is. -/
theorem last_inj {l l' s s' : List (BitVec 8)} (hs : x ∉ s) (hs' : x ∉ s')
    (h : l ++ x :: s = l' ++ x :: s') : l = l' ∧ s = s' := by
  have hReverse (t : List (BitVec 8)) (u : List (BitVec 8)) :
      (t ++ x :: u).reverse = u.reverse ++ x :: t.reverse := by simp
  have hLeft : cutAt x (l ++ x :: s).reverse = some (s.reverse, l.reverse) :=
    (cutAt_eq_some_iff x).mpr ⟨hReverse l s, by rwa [List.mem_reverse]⟩
  have hRight : cutAt x (l' ++ x :: s').reverse = some (s'.reverse, l'.reverse) :=
    (cutAt_eq_some_iff x).mpr ⟨hReverse l' s', by rwa [List.mem_reverse]⟩
  rw [h, hRight] at hLeft
  obtain ⟨hEnd, hFront⟩ := Prod.mk.inj (Option.some.inj hLeft)
  exact ⟨(List.reverse_injective hFront).symm, (List.reverse_injective hEnd).symm⟩

/-- The number that is written behind a character tells which it was. -/
theorem charText_inj {c c' : BitVec 32} (h : charText c = charText c') : c = c' := by
  have hSplit (c : BitVec 32) : charText c =
      (text "`" ++ shownChar c ++ text "' (" ++ intText c.toInt ++ text " / 0") ++
        ch 'x' :: (hexNumber c.toNat ++ text ")") := by
    simp only [charText, List.append_assoc]
    rfl
  have hOpen (c : BitVec 32) :
      text "`" ++ shownChar c ++ text "' (" ++ intText c.toInt ++ text " / 0" =
        (text "`" ++ shownChar c ++ text "' ") ++ ch '(' :: (intText c.toInt ++ text " / 0") := by
    simp only [List.append_assoc]
    rfl
  have hHex (c : BitVec 32) : ch 'x' ∉ hexNumber c.toNat ++ text ")" := by
    rw [List.mem_append, not_or]
    exact ⟨fun hMem => (hexNumber_plain hMem).2 rfl, by decide⟩
  have hInt (c : BitVec 32) : ch '(' ∉ intText c.toInt ++ text " / 0" := by
    rw [List.mem_append, not_or]
    exact ⟨fun hMem => (intText_plain hMem).2 rfl, by decide⟩
  rw [hSplit c, hSplit c'] at h
  obtain ⟨hFront, -⟩ := last_inj (hHex c) (hHex c') h
  rw [hOpen c, hOpen c'] at hFront
  obtain ⟨-, hNumber⟩ := last_inj (hInt c) (hInt c') hFront
  exact BitVec.eq_of_toInt_eq (intText_inj (List.append_cancel_right hNumber))

end Chars

theorem TraceCall.Proper.pieces {call : TraceCall} (h : call.Proper) :
    ∀ p ∈ call.pieces, p.2 ≠ newline := by
  have hTexts : ∀ e ∈ call.texts, newline ∉ e.2 := by
    cases call with
    | putc c => simpa [TraceCall.texts] using charText_plain c
    | beep =>
      have hBeep : newline ∉ text "[BEEP]" := by decide
      simpa [TraceCall.texts] using ⟨charText_plain 0x07, hBeep⟩
    | flush => simp [TraceCall.texts]
    | _ => simpa [TraceCall.texts, TraceCall.Proper] using h
  rintro p hp
  obtain ⟨e, he, hMem⟩ := List.mem_flatMap.mp hp
  obtain ⟨x, hx, rfl⟩ := List.mem_map.mp hMem
  rintro rfl
  exact hTexts e he hx

theorem Logged.plain {l : Log Source (BitVec 8)} {calls : List TraceCall} (h : Logged l calls)
    (hProper : ∀ call ∈ calls, call.Proper) : l.Plain newline := by
  apply Log.plain_of_pieces
  intro p hp
  rw [h.pieces] at hp
  obtain ⟨call, hCall, hMem⟩ := List.mem_flatMap.mp hp
  exact (hProper call hCall).pieces p hMem

/-- From the trace file alone it can be told what the guest has printed and what each source has
written, in the order of the calls, however the calls of the sources alternate and wherever a line
was left open. -/
theorem tracefile_tells {stdoutCrs stdoutCrs' fileCrs : Bool} {calls calls' : List TraceCall}
    (hProper : ∀ call ∈ calls, call.Proper) (hProper' : ∀ call ∈ calls', call.Proper)
    (h : (traced stdoutCrs fileCrs calls).tracefile.written =
      (traced stdoutCrs' fileCrs calls').tracefile.written) :
    calls.flatMap TraceCall.chars = calls'.flatMap TraceCall.chars ∧
      calls.flatMap TraceCall.pieces = calls'.flatMap TraceCall.pieces := by
  obtain ⟨l, hKeeps, hLogged⟩ := traced_log stdoutCrs fileCrs calls
  obtain ⟨l', hKeeps', hLogged'⟩ := traced_log stdoutCrs' fileCrs calls'
  rw [hKeeps.written, hKeeps'.written] at h
  have hSame := Log.text_inj (newline_not_cr fileCrs) (hLogged.plain hProper)
    (hLogged'.plain hProper') h
  subst hSame
  refine ⟨?_, hLogged.pieces.symm.trans hLogged'.pieces⟩
  apply List.map_injective_iff.mpr (fun c c' => charText_inj)
  exact hLogged.chars.symm.trans hLogged'.chars

/-- A trace in two parts, and the same at once. -/
theorem tracefile_tells_parts :
    let calls := [TraceCall.cputracel 3 (text "pc "), .cputrace 3 (text "0x80"), .putc 0x10a]
    let calls' := [TraceCall.cputrace 3 (text "pc 0x80"), .putc 0x10a]
    (traced false true calls).tracefile.written = (traced false true calls').tracefile.written ∧
      calls.flatMap TraceCall.chars = calls'.flatMap TraceCall.chars ∧
      calls.flatMap TraceCall.pieces = calls'.flatMap TraceCall.pieces := by
  intro calls calls'
  have hFile : (traced false true calls).tracefile.written =
      (traced false true calls').tracefile.written := by decide +kernel
  refine ⟨hFile, tracefile_tells ?_ ?_ hFile⟩
  · intro call hCall
    simp only [calls, List.mem_cons, List.not_mem_nil, or_false] at hCall
    rcases hCall with rfl | rfl | rfl
    · exact (by decide : newline ∉ text "pc ")
    · exact (by decide : newline ∉ text "0x80")
    · trivial
  · intro call hCall
    simp only [calls', List.mem_cons, List.not_mem_nil, or_false] at hCall
    rcases hCall with rfl | rfl
    · exact (by decide : newline ∉ text "pc 0x80")
    · trivial

end Sys161.Main
