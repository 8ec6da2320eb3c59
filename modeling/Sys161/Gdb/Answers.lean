import Sys161.Gdb.Commands
import Sys161.Gdb.Pieces

/-!
# What a command is answered

For every command: the reply to its last character, the cpu that is looked at from
then on, and what becomes of the machine.
-/

namespace Sys161.Gdb

open ByteOrder CString Exec Hex

set_option autoImplicit false

variable {ε σ : Type}

/-! ## Strings -/

theorem sendable_plain {string : Text}
    (h : string.length < buflen ∧ ∀ c ∈ string, c ≠ 0 ∧ c ≠ hashMark ∧ c.toNat < 128) :
    Sendable string := ⟨h.1, h.2⟩

theorem sendable_ok : Sendable replyOk := sendable_plain (by decide)

theorem sendable_e00 : Sendable replyE00 := sendable_plain (by decide)

theorem sendable_e01 : Sendable replyE01 := sendable_plain (by decide)

theorem sendable_e03 : Sendable replyE03 := sendable_plain (by decide)

theorem numeralText_hex (val : Word) : ∀ c ∈ numeralText val, IsHex c :=
  fun c hc => (wordText_hex val).1 c (List.mem_of_mem_drop hc)

theorem length_numeralText (val : Word) : (numeralText val).length ≤ 8 := by
  rw [numeralText, List.length_drop]
  exact Nat.sub_le _ _

theorem sendable_stopinfo (cpunum : Nat) : Sendable (stopinfo cpunum) := by
  have hLength := length_numeralText (mkthreadid (BitVec.ofNat 32 cpunum))
  have hFront : (text "T05thread:").length = 10 ∧
      ∀ c ∈ text "T05thread:", c ≠ 0 ∧ c ≠ hashMark ∧ c.toNat < 128 := by decide
  have hBack : (text ";").length = 1 ∧
      ∀ c ∈ text ";", c ≠ 0 ∧ c ≠ hashMark ∧ c.toNat < 128 := by decide
  have hBuflen : buflen = 1024 := rfl
  constructor
  · rw [stopinfo, List.length_append, List.length_append]
    omega
  · rw [stopinfo, List.forall_mem_append, List.forall_mem_append]
    exact ⟨⟨hFront.2, fun c hc => plain_of_isHex c (numeralText_hex _ c hc)⟩, hBack.2⟩

theorem sendable_queryCpu (val : Word) : Sendable (text "QC" ++ numeralText val) := by
  have hLength := length_numeralText val
  have hFront : (text "QC").length = 2 ∧
      ∀ c ∈ text "QC", c ≠ 0 ∧ c ≠ hashMark ∧ c.toNat < 128 := by decide
  have hBuflen : buflen = 1024 := rfl
  refine sendable_append ?_ hFront.2 fun c hc => plain_of_isHex c (numeralText_hex _ c hc)
  rw [List.length_append]
  omega

theorem sendable_listed {numcpus : Nat} (hCpus : numcpus ≤ 32) (enabled : Nat → Bool) :
    Sendable (ch 'm' :: (enabledCpus numcpus enabled).flatMap listed) := by
  obtain ⟨-, hLength⟩ := threadInfo_eq hCpus enabled
  have hBuflen : buflen = 1024 := rfl
  constructor
  · rw [List.length_cons]
    omega
  · refine List.forall_mem_cons.mpr ⟨by decide, ?_⟩
    intro c hc
    obtain ⟨i, hi, hIn⟩ := List.mem_flatMap.mp hc
    have hSmall : i < 32 := by
      have hRange := List.mem_range.mp (List.mem_filter.mp hi).1
      omega
    have hDigit : ∀ c ∈ threadText i, c ≠ 0 ∧ c ≠ hashMark ∧ c.toNat < 128 := by
      rw [threadText_eq i hSmall]
      exact fun c hc => plain_of_isHex c ((byteText_hex _).1 c hc)
    rw [listed] at hIn
    split at hIn
    · rcases List.mem_cons.mp hIn with rfl | hText
      · decide
      · exact hDigit c hText
    · exact hDigit c hIn

theorem length_cpuText : ∀ i < 32, (cpuText i).length ≤ 2 := by
  decide +kernel

theorem sendable_cpuText {i : Nat} (hi : i < 32) :
    Sendable ((text "CPU " ++ cpuText i).flatMap byteText) := by
  have hLength := length_cpuText i hi
  have hBytes (s : Text) : (s.flatMap byteText).length = 2 * s.length := by
    simp [List.length_flatMap, byteText, Nat.mul_comm]
  have hFour : (text "CPU ").length = 4 := by decide
  have hBuflen : buflen = 1024 := rfl
  refine sendable_hex ?_ fun c hc => ?_
  · rw [hBytes, List.length_append]
    omega
  · obtain ⟨byte, -, hIn⟩ := List.mem_flatMap.mp hc
    exact (byteText_hex byte).1 c hIn

/-! ## Registers -/

section Registers

variable (d : Debuggee ε σ) (host : Order)

/-- The registers as their bytes would stand in memory. -/
def registerText (m : σ) (i : Nat) : Text :=
  (d.getregs m i).1.flatMap fun reg => wordText (Order.big.word ((d.target i).order.byte reg))

theorem foldl_printword (order : Order) (regs : List Word) (buf : Text)
    (hFits : buf.length + 8 * regs.length < buflen) :
    regs.foldl (fun buf reg => printword buf (ntohl host (htoc32 host order reg))) buf =
      buf ++ regs.flatMap fun reg => wordText (Order.big.word (order.byte reg)) := by
  induction regs generalizing buf with
  | nil => simp
  | cons reg regs ih =>
    have hEight (w : Word) : (wordText w).length = 8 := rfl
    rw [List.length_cons] at hFits
    have hStep : printword buf (ntohl host (htoc32 host order reg)) =
        buf ++ wordText (Order.big.word (order.byte reg)) := by
      rw [ntohl_htoc32, printword, List.take_of_length_le]
      rw [List.length_append, hEight]
      omega
    rw [List.foldl_cons, hStep, ih, List.flatMap_cons, List.append_assoc]
    rw [List.length_append, hEight]
    omega

theorem sendable_registerText (m : σ) (i : Nat) : Sendable (registerText d m i) := by
  have hLength : (registerText d m i).length = 8 * (d.getregs m i).1.length := by
    rw [registerText, List.length_flatMap]
    simp [wordText, Nat.mul_comm]
  have hRegs := d.getregs_le m i
  have hBuflen : buflen = 1024 := rfl
  refine sendable_hex (by omega) fun c hc => ?_
  obtain ⟨reg, -, hIn⟩ := List.mem_flatMap.mp hc
  exact (wordText_hex _).1 c hIn

end Registers

/-! ## Commands -/

section Replies

variable (d : Debuggee ε σ)

/-- The cpu that a text names, if there is one. -/
def threadCpu (threadid : Text) : Option Nat :=
  if (getthreadid threadid).toNat < d.numcpus then some (getthreadid threadid).toNat else none

/-- For a command that is not supported. -/
def replyNotsupp : Text := [0]

def aliveReply (m : σ) (threadid : Text) : Text :=
  match threadCpu d threadid with
  | none => replyE00
  | some i => if d.enabled m i then replyOk else replyE01

def extraInfoReply (threadid : Text) : Text :=
  match threadCpu d threadid with
  | none => replyE00
  | some i => (text "CPU " ++ cpuText i).flatMap byteText

def queryReply (s : DebugState σ) (rest : Text) : Text :=
  if rest = text "C" then text "QC" ++ numeralText (mkthreadid (BitVec.ofNat 32 s.debugCpu))
  else if rest = text "fThreadInfo" then
    ch 'm' :: (enabledCpus d.numcpus (d.enabled s.machine)).flatMap listed
  else if rest = text "sThreadInfo" then text "l"
  else if (text "ThreadExtraInfo,").isPrefixOf rest then extraInfoReply d (rest.drop 16)
  else replyNotsupp

/-- The reply to `H`, and the cpu that is looked at from then on. -/
def setthreadReply (debugCpu : Nat) (rest : Text) : Text × Nat :=
  if rest.head? = some (ch 'c') then (replyNotsupp, debugCpu)
  else if rest.head? = some (ch 'g') then
    match threadCpu d (rest.drop 1) with
    | none => (replyE00, debugCpu)
    | some i => (replyOk, i)
  else (replyOk, debugCpu)

/-- The cpu has been sent to the address that is given, if one is. -/
def Restarted (debugCpu : Nat) (addr : Text) (m t : σ) : Prop :=
  if addr = [] then t = m
  else (d.setEntrypoint debugCpu ((strtoul 16 addr).value.setWidth 32)).run m = .ok () t

/-- What a command is answered, what becomes of the machine, and which cpu is looked at then. The
operands are what is behind the letter of the command. -/
def Answered (s : DebugState σ) (rest : Text) (replies : List Reply) (m : σ) (debugCpu : Nat) :
    GdbCommand → Prop
  | .reason => replies = [.body (stopinfo s.debugCpu)] ∧ m = s.machine ∧ debugCpu = s.debugCpu
  | .cont => replies = [] ∧
    (∃ t, Restarted d s.debugCpu rest s.machine t ∧ m = d.leaveDebugger t) ∧ debugCpu = s.debugCpu
  | .detach =>
    replies = [.body replyOk] ∧ m = d.leaveDebugger s.machine ∧ debugCpu = s.debugCpu
  | .registers => replies = [.body (registerText d s.machine s.debugCpu)] ∧
    m = (d.getregs s.machine s.debugCpu).2 ∧ debugCpu = s.debugCpu
  | .setthread => replies = [.body (setthreadReply d s.debugCpu rest).1] ∧ m = s.machine ∧
    debugCpu = (setthreadReply d s.debugCpu rest).2
  | .kill => False
  | .readMem => (∃ reply, replies = [.body reply] ∧
      ReadsRange (d.target s.debugCpu) (parseSpec rest).vaddr (parseSpec rest).length s.machine
        reply m) ∧ debugCpu = s.debugCpu
  | .writeMem => (∃ reply, replies = [.body reply] ∧
      WritesRange (d.target s.debugCpu) (parseSpec rest).vaddr (parseSpec rest).length
        (databyte ((parseSpec rest).rest.drop 1)) s.machine reply m) ∧ debugCpu = s.debugCpu
  | .query => replies = [.body (queryReply d s rest)] ∧ m = s.machine ∧ debugCpu = s.debugCpu
  | .restart => replies = [] ∧ m = s.machine ∧ debugCpu = s.debugCpu
  | .step => replies = [.body (stopinfo s.debugCpu)] ∧
    (∃ t, Restarted d s.debugCpu rest s.machine t ∧ d.onecycle.run t = .ok () m) ∧
      debugCpu = s.debugCpu
  | .alive =>
    replies = [.body (aliveReply d s.machine rest)] ∧ m = s.machine ∧ debugCpu = s.debugCpu
  | .notsupp => replies = [.body replyNotsupp] ∧ m = s.machine ∧ debugCpu = s.debugCpu

/-- Why a command can stay without an answer: the core has given up, the program has been killed, or
so many turns do not come to the end of the range. -/
def Unanswered (turns : Nat) (rest : Text) (command : GdbCommand) : GdbEnd ε → Prop
  | .core _ => True
  | .assertion _ => False
  | .reqdie => command = .kill
  | .running =>
    match command with
    | .readMem =>
      ∀ n, readCount (parseSpec rest).vaddr (parseSpec rest).length = some n → turns ≤ n
    | .writeMem =>
      ∀ n, writeCount (parseSpec rest).vaddr (parseSpec rest).length = some n → turns ≤ n
    | _ => False

end Replies

/-- These replies have been written, to the last byte. -/
structure Served (d : Debuggee ε σ) (s t : DebugState σ) (replies : List Reply) : Prop where
  sent : t.sent = s.sent ++ replies.flatMap Reply.text
  framed : ∀ reply ∈ replies, reply.Framed
  cpu : s.debugCpu < d.numcpus → t.debugCpu < d.numcpus

section Texts

variable {d : Debuggee ε σ}

theorem threadCpu_lt {threadid : Text} {i : Nat} (h : threadCpu d threadid = some i) :
    i < d.numcpus := by
  rw [threadCpu] at h
  split at h
  · next hCpu =>
    cases h
    exact hCpu
  · cases h

theorem framed_notsupp : (Reply.body replyNotsupp).Framed :=
  (by decide : hashMark ∉ [(0 : BitVec 8)])

theorem sendable_aliveReply (m : σ) (threadid : Text) : Sendable (aliveReply d m threadid) := by
  rw [aliveReply]
  split
  · exact sendable_e00
  · split
    · exact sendable_ok
    · exact sendable_e01

theorem sendable_extraInfoReply (threadid : Text) : Sendable (extraInfoReply d threadid) := by
  have hCpus := d.numcpus_le
  rw [extraInfoReply]
  split
  · exact sendable_e00
  · next i hCpu =>
    have hLt := threadCpu_lt hCpu
    exact sendable_cpuText (by omega)

theorem framed_queryReply (s : DebugState σ) (rest : Text) :
    (Reply.body (queryReply d s rest)).Framed := by
  rw [queryReply]
  split
  · exact (sendable_queryCpu _).framed
  · split
    · exact (sendable_listed d.numcpus_le _).framed
    · split
      · exact (sendable_plain (by decide)).framed
      · split
        · exact (sendable_extraInfoReply _).framed
        · exact framed_notsupp

theorem framed_setthreadReply (debugCpu : Nat) (rest : Text) :
    (Reply.body (setthreadReply d debugCpu rest).1).Framed := by
  rw [setthreadReply]
  split
  · exact framed_notsupp
  · split
    · split
      · exact sendable_e00.framed
      · exact sendable_ok.framed
    · exact sendable_ok.framed

theorem setthreadReply_lt {debugCpu : Nat} (rest : Text) (h : debugCpu < d.numcpus) :
    (setthreadReply d debugCpu rest).2 < d.numcpus := by
  rw [setthreadReply]
  split
  · exact h
  · split
    · split
      · exact h
      · next i hCpu => exact threadCpu_lt hCpu
    · exact h

theorem sendable_readReply {c : Cpudebug ε σ} {vaddr length : Word} {m t : σ} {reply : Text}
    (h : ReadsRange c vaddr length m reply t) : Sendable reply := by
  rcases h.digits with rfl | ⟨hFits, hHex⟩
  · exact sendable_e03
  · exact sendable_hex hFits hHex

theorem sendable_writeReply {c : Cpudebug ε σ} {vaddr length : Word} {bytes : Nat → BitVec 8}
    {m t : σ} {reply : Text} (h : WritesRange c vaddr length bytes m reply t) : Sendable reply := by
  rcases h.reply with rfl | rfl
  · exact sendable_e03
  · exact sendable_ok

end Texts

section Commands

variable {d : Debuggee ε σ} {host : Order} {signedChar : Bool} {turns : Nat}

/-- One packet is sent, and nothing else happens. -/
def DebugState.sends (s : DebugState σ) (string : Text) : DebugState σ :=
  { s with sent := s.sent ++ (Reply.body string).text }

theorem served_nothing (s t : DebugState σ) (hSent : t.sent = s.sent)
    (hCpu : t.debugCpu = s.debugCpu) : Served d s t [] where
  sent := hSent.trans (List.append_nil _).symm
  framed _ h := absurd h List.not_mem_nil
  cpu h := hCpu.symm ▸ h

theorem served_body {s t : DebugState σ} {string : Text} (hFramed : (Reply.body string).Framed)
    (hSent : t.sent = s.sent ++ (Reply.body string).text)
    (hCpu : s.debugCpu < d.numcpus → t.debugCpu < d.numcpus) : Served d s t [.body string] where
  sent := by rw [List.flatMap_singleton, hSent]
  framed := by simpa using hFramed
  cpu := hCpu

section Run

variable {E : GdbEnd ε → DebugState σ → Prop}

theorem after_say {string : Text} (h : Sendable string) (s : DebugState σ) :
    After (say signedChar string : DebugM ε σ Unit) (fun _ t => t = s.sends string) E s := by
  rw [say, write, after_modify, debugSend_eq signedChar h]
  rfl

theorem after_notsupp (s : DebugState σ) :
    After (debugNotsupp : DebugM ε σ Unit) (fun _ t => t = s.sends replyNotsupp) E s := by
  rw [debugNotsupp, write, after_modify]
  rfl

theorem after_onCore {α : Type} {x : EStateM ε σ α} {Q : α → DebugState σ → Prop}
    {s : DebugState σ} (hE : ∀ e t, E (.core e) t)
    (h : After x (fun a m => Q a { s with machine := m }) (fun _ _ => True) s.machine) :
    After (onCore x) Q E s := by
  unfold onCore
  rw [after_bind, after_get]
  unfold After at h
  cases hx : x.run s.machine with
  | ok a m =>
    rw [hx] at h
    exact h
  | error e m => exact hE e _

theorem after_stopinfo (s : DebugState σ) :
    After (debugSendStopinfo signedChar : DebugM ε σ Unit)
      (fun _ t => t = s.sends (stopinfo s.debugCpu)) E s := by
  rw [debugSendStopinfo, after_bind, after_get]
  exact after_say (sendable_stopinfo _) s

theorem after_registers (s : DebugState σ) :
    After (debugRegisterPrint d host signedChar)
      (fun _ t => t = { s with machine := (d.getregs s.machine s.debugCpu).2 }.sends
        (registerText d s.machine s.debugCpu)) E s := by
  have hRegs := d.getregs_le s.machine s.debugCpu
  have hFits : ([] : Text).length + 8 * (d.getregs s.machine s.debugCpu).1.length < buflen := by
    have hBuflen : buflen = 1024 := rfl
    rw [List.length_nil]
    omega
  have hFew : ¬ 256 < (d.getregs s.machine s.debugCpu).1.length := by omega
  rw [debugRegisterPrint, after_bind, after_get]
  dsimp only
  rw [after_bind, after_set, if_neg hFew, foldl_printword host _ _ _ hFits]
  exact after_say (sendable_registerText d _ _) _

theorem after_checkthread (threadid : Text) (s : DebugState σ) :
    After (debugCheckthread d signedChar threadid)
      (fun _ t => t = s.sends (aliveReply d s.machine threadid)) E s := by
  rw [debugCheckthread, aliveReply, threadCpu, after_ite]
  split
  · next hNone =>
    rw [if_neg hNone.not_gt]
    exact after_say sendable_e00 s
  · next hCpu =>
    rw [if_pos (Nat.lt_of_not_le hCpu), after_bind, after_get, after_ite]
    dsimp only
    cases d.enabled s.machine (getthreadid threadid).toNat with
    | false =>
      rw [if_pos rfl, if_neg (by decide)]
      exact after_say sendable_e01 s
    | true =>
      rw [if_neg (by decide), if_pos rfl]
      exact after_say sendable_ok s

theorem after_getthreadinfo (threadid : Text) (s : DebugState σ) :
    After (debugGetthreadinfo d signedChar threadid)
      (fun _ t => t = s.sends (extraInfoReply d threadid)) E s := by
  have hCpus := d.numcpus_le
  rw [debugGetthreadinfo, extraInfoReply, threadCpu]
  split
  · next hNone =>
    rw [if_neg hNone.not_gt]
    exact after_say sendable_e00 s
  · next hCpu =>
    rw [if_pos (Nat.lt_of_not_le hCpu)]
    exact after_say (sendable_cpuText (by omega)) s

theorem after_setthread (rest : Text) (s : DebugState σ) :
    After (debugSetthread d signedChar rest)
      (fun _ t => t = { s with debugCpu := (setthreadReply d s.debugCpu rest).2 }.sends
        (setthreadReply d s.debugCpu rest).1) E s := by
  rw [debugSetthread, setthreadReply, threadCpu, after_ite]
  split
  · exact after_notsupp s
  · rw [after_ite]
    split
    · dsimp only
      rw [after_ite]
      split
      · next hNone =>
        rw [if_neg hNone.not_gt]
        exact after_say sendable_e00 s
      · next hCpu =>
        rw [if_pos (Nat.lt_of_not_le hCpu), after_bind, after_modify]
        exact after_say sendable_ok _
    · exact after_say sendable_ok s

theorem after_query (rest : Text) (s : DebugState σ) :
    After (debugQuery d signedChar rest) (fun _ t => t = s.sends (queryReply d s rest)) E s := by
  obtain ⟨hInfo, -⟩ := threadInfo_eq d.numcpus_le (d.enabled s.machine)
  rw [debugQuery, queryReply, after_ite]
  split
  · rw [after_bind, after_get]
    exact after_say (sendable_queryCpu _) s
  · rw [after_ite]
    split
    · rw [after_bind, after_get, hInfo]
      exact after_say (sendable_listed d.numcpus_le _) s
    · rw [after_ite]
      split
      · exact after_say (sendable_plain (by decide)) s
      · rw [after_ite]
        split
        · exact after_getthreadinfo _ s
        · exact after_notsupp s

theorem after_restart (addr : Text) (s : DebugState σ) (hE : ∀ e t, E (.core e) t) :
    After (debugRestart d addr)
      (fun _ t => ∃ m, Restarted d s.debugCpu addr s.machine m ∧ t = { s with machine := m })
      E s := by
  simp only [Restarted]
  rw [debugRestart, after_ite]
  split
  · exact ⟨s.machine, rfl, rfl⟩
  · rw [after_bind, after_get]
    refine after_onCore hE ?_
    refine (after_run (after_of_forall (fun _ _ => trivial) fun _ _ => trivial)).mono ?_
      fun _ _ _ => trivial
    rintro _ m ⟨-, hRun⟩
    exact ⟨m, hRun, rfl⟩

/-- The answer to a range, if so many turns come to its end. -/
theorem after_range {x : EStateM ε σ (Option Text)} {R : Text → σ → Prop} {P : Prop}
    {s : DebugState σ}
    (hRange : After x (fun r m => match r with
      | none => P
      | some reply => R reply m) (fun _ _ => True) s.machine)
    (hSendable : ∀ reply m, R reply m → Sendable reply) (hE : ∀ e t, E (.core e) t)
    (hRunning : P → ∀ t, E .running t) :
    After (do sayRange signedChar (← onCore x) : DebugM ε σ Unit)
      (fun _ t => ∃ reply m, R reply m ∧ t = { s with machine := m }.sends reply) E s := by
  rw [after_bind]
  refine after_onCore hE (hRange.mono ?_ fun _ _ _ => trivial)
  rintro (_ | reply) m hReply
  · exact hRunning hReply _
  · refine (after_say (hSendable reply m hReply) _).mono ?_ fun _ _ h => h
    rintro _ _ rfl
    exact ⟨reply, m, hReply, rfl⟩

end Run

theorem after_debugSwitch (pkt : Text) (s : DebugState σ) :
    After (debugSwitch d host signedChar turns pkt)
      (fun _ t => ∃ replies, Served d s t replies ∧
        Answered d s (pkt.drop 2) replies t.machine t.debugCpu (gdbCommand pkt))
      (fun e _ => Unanswered turns (pkt.drop 2) (gdbCommand pkt) e) s := by
  rw [debugSwitch]
  cases gdbCommand pkt with
  | reason =>
    refine (after_stopinfo s).mono ?_ fun _ _ h => h
    rintro _ _ rfl
    exact ⟨_, served_body (sendable_stopinfo _).framed rfl fun h => h, rfl, rfl, rfl⟩
  | cont =>
    dsimp only
    rw [after_bind]
    refine (after_restart (pkt.drop 2) s fun _ _ => trivial).mono ?_ fun _ _ h => h
    rintro _ _ ⟨m, hRestarted, rfl⟩
    exact ⟨[], served_nothing s _ rfl rfl, rfl, ⟨m, hRestarted, rfl⟩, rfl⟩
  | detach =>
    dsimp only
    rw [after_bind]
    refine (after_say sendable_ok s).mono ?_ fun _ _ h => h
    rintro _ _ rfl
    exact ⟨_, served_body sendable_ok.framed rfl fun h => h, rfl, rfl, rfl⟩
  | registers =>
    refine (after_registers s).mono ?_ fun _ _ h => h
    rintro _ _ rfl
    exact ⟨_, served_body (sendable_registerText d _ _).framed rfl fun h => h, rfl, rfl, rfl⟩
  | setthread =>
    refine (after_setthread (pkt.drop 2) s).mono ?_ fun _ _ h => h
    rintro _ _ rfl
    exact ⟨_, served_body (framed_setthreadReply _ _) rfl (setthreadReply_lt _), rfl, rfl, rfl⟩
  | kill => exact (rfl : GdbCommand.kill = .kill)
  | readMem =>
    rw [after_bind, after_get]
    refine (after_range (after_readRange turns s.machine) (fun _ _ => sendable_readReply)
      (fun _ _ => trivial) fun h _ => h).mono ?_ fun _ _ h => h
    rintro _ _ ⟨reply, m, hReads, rfl⟩
    exact ⟨_, served_body (sendable_readReply hReads).framed rfl fun h => h,
      ⟨reply, rfl, hReads⟩, rfl⟩
  | writeMem =>
    rw [after_bind, after_get]
    refine (after_range (after_writeRange turns s.machine) (fun _ _ => sendable_writeReply)
      (fun _ _ => trivial) fun h _ => h).mono ?_ fun _ _ h => h
    rintro _ _ ⟨reply, m, hWrites, rfl⟩
    exact ⟨_, served_body (sendable_writeReply hWrites).framed rfl fun h => h,
      ⟨reply, rfl, hWrites⟩, rfl⟩
  | query =>
    refine (after_query (pkt.drop 2) s).mono ?_ fun _ _ h => h
    rintro _ _ rfl
    exact ⟨_, served_body (framed_queryReply _ _) rfl fun h => h, rfl, rfl, rfl⟩
  | restart => exact ⟨[], served_nothing s s rfl rfl, rfl, rfl, rfl⟩
  | step =>
    dsimp only
    rw [after_bind]
    refine (after_restart (pkt.drop 2) s fun _ _ => trivial).mono ?_ fun _ _ h => h
    rintro _ _ ⟨m, hRestarted, rfl⟩
    rw [after_bind]
    refine after_onCore (fun _ _ => trivial) ?_
    refine (after_run (after_of_forall (fun _ _ => trivial) fun _ _ => trivial)).mono ?_
      fun _ _ _ => trivial
    rintro _ t ⟨-, hCycle⟩
    refine (after_stopinfo _).mono ?_ fun _ _ h => h
    rintro _ _ rfl
    exact ⟨_, served_body (sendable_stopinfo _).framed rfl fun h => h, rfl,
      ⟨m, hRestarted, hCycle⟩, rfl⟩
  | alive =>
    refine (after_checkthread (pkt.drop 2) s).mono ?_ fun _ _ h => h
    rintro _ _ rfl
    exact ⟨_, served_body (sendable_aliveReply _ _).framed rfl fun h => h, rfl, rfl, rfl⟩
  | notsupp =>
    refine (after_notsupp s).mono ?_ fun _ _ h => h
    rintro _ _ rfl
    exact ⟨_, served_body framed_notsupp rfl fun h => h, rfl, rfl, rfl⟩

/-- What comes of a packet: nothing where it has no checksum, a minus where it has a wrong one, and
a plus with the answer to the command where it has the right one. -/
def Replied (d : Debuggee ε σ) (signedChar : Bool) (s : DebugState σ) (m : σ) (debugCpu : Nat)
    (pkt : Text) (replies : List Reply) : Prop :=
  match debugExec signedChar pkt with
  | .ignored => replies = [] ∧ m = s.machine ∧ debugCpu = s.debugCpu
  | .minus => replies = [.minus] ∧ m = s.machine ∧ debugCpu = s.debugCpu
  | .plus command => ∃ answers, replies = .plus :: answers ∧
      Answered d s (command.drop 2) answers m debugCpu (gdbCommand command)

/-- The program can end in a packet only where its command can stay without an answer. -/
def EndsIn (signedChar : Bool) (turns : Nat) (pkt : Text) (e : GdbEnd ε) : Prop :=
  ∃ command, debugExec signedChar pkt = .plus command ∧
    Unanswered turns (command.drop 2) (gdbCommand command) e

theorem after_execPacket (pkt : Text) (s : DebugState σ) :
    After (execPacket d host signedChar turns pkt)
      (fun _ t => ∃ replies, Served d s t replies ∧
        Replied d signedChar s t.machine t.debugCpu pkt replies)
      (fun e _ => EndsIn signedChar turns pkt e) s := by
  rw [execPacket]
  simp only [Replied, EndsIn]
  cases debugExec signedChar pkt with
  | ignored => exact ⟨[], served_nothing s s rfl rfl, rfl, rfl, rfl⟩
  | minus =>
    refine ⟨[.minus], ⟨rfl, ?_, fun h => h⟩, rfl, rfl, rfl⟩
    rintro reply hReply
    rw [List.mem_singleton.mp hReply]
    trivial
  | plus command =>
    dsimp only
    rw [after_bind]
    change After (debugSwitch d host signedChar turns command) _ _
      { s with sent := s.sent ++ text "+" }
    refine (after_debugSwitch command _).mono ?_ fun e _ h => ⟨command, rfl, h⟩
    rintro _ t ⟨answers, hServed, hAnswered⟩
    refine ⟨.plus :: answers, ⟨?_, ?_, hServed.cpu⟩, answers, rfl, ?_⟩
    · rw [hServed.sent, List.flatMap_cons, List.append_assoc]
      rfl
    · exact List.forall_mem_cons.mpr ⟨trivial, hServed.framed⟩
    · cases h : gdbCommand command <;> rw [h] at hAnswered <;> exact hAnswered

end Commands

end Sys161.Gdb
