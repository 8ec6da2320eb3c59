import Sys161.Gdb.Memory
import Sys161.Gdb.Replies

/-!
# The commands of the debugger

The `switch` of `debug_exec`. What the debugger looks at is given by the
functions of a core and of the main loop, with what they keep.
-/

namespace Sys161.Gdb

open ByteOrder CString Exec Hex

set_option autoImplicit false

variable {ε σ : Type}

/-- A machine that is being debugged. -/
structure Debuggee (ε σ : Type) where
  numcpus : Nat
  target : Nat → Cpudebug ε σ
  /-- The registers of a cpu; reading them may change it. -/
  getregs : σ → Nat → List Word × σ
  enabled : σ → Nat → Bool
  breakCpu : σ → Nat
  setEntrypoint : Nat → Word → EStateM ε σ Unit
  onecycle : EStateM ε σ Unit
  stoppedInDebugger : σ → Bool
  stopIsLethal : σ → Bool
  enterDebugger : Bool → σ → σ
  leaveDebugger : σ → σ
  numcpus_le : numcpus ≤ 32
  breakCpu_lt : ∀ m, breakCpu m < numcpus
  getregs_le : ∀ m i, (getregs m i).1.length ≤ 48
  enter : ∀ lethal m, stoppedInDebugger (enterDebugger lethal m) = true
  leave : ∀ m, stoppedInDebugger (leaveDebugger m) = false
  getregs_stays : ∀ m i, stoppedInDebugger m = true → stoppedInDebugger (getregs m i).2 = true
  fetchByte_stays : ∀ i va, Keeps (fun m => stoppedInDebugger m = true) (fun _ _ => True)
    ((target i).fetchByte va)
  fetchWord_stays : ∀ i va, Keeps (fun m => stoppedInDebugger m = true) (fun _ _ => True)
    ((target i).fetchWord va)
  storeByte_stays : ∀ i va byte, Keeps (fun m => stoppedInDebugger m = true) (fun _ _ => True)
    ((target i).storeByte va byte)
  storeWord_stays : ∀ i va word, Keeps (fun m => stoppedInDebugger m = true) (fun _ _ => True)
    ((target i).storeWord va word)
  setEntrypoint_stays : ∀ i addr, Keeps (fun m => stoppedInDebugger m = true) (fun _ _ => True)
    (setEntrypoint i addr)
  onecycle_stays : Keeps (fun m => stoppedInDebugger m = true) (fun _ _ => True) onecycle

/-- Why the program does not come back from a packet. -/
inductive GdbEnd (ε : Type) where
  | core (e : ε)
  | assertion (x : String)
  | reqdie
  /-- The loop over a range has not come to its end yet. -/
  | running

/-- What the commands work on, with what has been written to the debugger. -/
structure DebugState (σ : Type) where
  machine : σ
  debugCpu : Nat
  sent : Text

abbrev DebugM (ε σ : Type) := EStateM (GdbEnd ε) (DebugState σ)

def write (bytes : Text) : DebugM ε σ Unit := modify fun s => { s with sent := s.sent ++ bytes }

/-- A function of the core. -/
def onCore {α : Type} (x : EStateM ε σ α) : DebugM ε σ α := do
  let s ← get
  match x.run s.machine with
  | .ok a m =>
    set { s with machine := m }
    return a
  | .error e m =>
    set { s with machine := m }
    throw (.core e)

/-- `%x`. -/
def numeralText (val : Word) : Text :=
  (wordText val).drop (min 7 ((wordText val).takeWhile (· = ch '0')).length)

def stopinfo (cpunum : Nat) : Text :=
  text "T05thread:" ++ numeralText (mkthreadid (BitVec.ofNat 32 cpunum)) ++ text ";"

def replyE00 : Text := text "E00"

def replyE01 : Text := text "E01"

section Commands

variable (d : Debuggee ε σ) (host : Order) (signedChar : Bool) (turns : Nat)

def say (string : Text) : DebugM ε σ Unit := write (debugSend signedChar string)

def debugNotsupp : DebugM ε σ Unit := write (dollar :: 0 :: text "#00")

def debugSendStopinfo : DebugM ε σ Unit := do
  say signedChar (stopinfo (← get).debugCpu)

def debugRegisterPrint : DebugM ε σ Unit := do
  let s ← get
  let (regs, m) := d.getregs s.machine s.debugCpu
  set { s with machine := m }
  if 256 < regs.length then
    throw (.assertion "nregs <= 256")
  else
    let order := (d.target s.debugCpu).order
    say signedChar (regs.foldl (fun buf reg => printword buf (ntohl host (htoc32 host order reg))) [])

/-- The answer to a range of memory. -/
def sayRange (reply : Option Text) : DebugM ε σ Unit :=
  match reply with
  | none => throw .running
  | some reply => say signedChar reply

def debugRestart (addr : Text) : DebugM ε σ Unit := do
  if addr = [] then
    return
  else
    onCore (d.setEntrypoint (← get).debugCpu ((strtoul 16 addr).value.setWidth 32))

def debugCheckthread (threadid : Text) : DebugM ε σ Unit := do
  let cpunum := (getthreadid threadid).toNat
  if d.numcpus ≤ cpunum then
    say signedChar replyE00
  else if d.enabled (← get).machine cpunum = false then
    say signedChar replyE01
  else
    say signedChar replyOk

/-- `%u` of a cpu. -/
def cpuText (cpunum : Nat) : Text := text (toString cpunum)

def debugGetthreadinfo (threadid : Text) : DebugM ε σ Unit :=
  let cpunum := (getthreadid threadid).toNat
  if d.numcpus ≤ cpunum then
    say signedChar replyE00
  else
    say signedChar ((text "CPU " ++ cpuText cpunum).flatMap byteText)

/-- The packet `H`, behind its letter. -/
def debugSetthread (rest : Text) : DebugM ε σ Unit := do
  if rest.head? = some (ch 'c') then
    debugNotsupp
  else if rest.head? = some (ch 'g') then
    let cpunum := (getthreadid (rest.drop 1)).toNat
    if d.numcpus ≤ cpunum then
      say signedChar replyE00
    else
      modify fun s => { s with debugCpu := cpunum }
      say signedChar replyOk
  else
    say signedChar replyOk

/-- The packet `q`, behind its letter. -/
def debugQuery (rest : Text) : DebugM ε σ Unit := do
  if rest = text "C" then
    say signedChar (text "QC" ++ numeralText (mkthreadid (BitVec.ofNat 32 (← get).debugCpu)))
  else if rest = text "fThreadInfo" then
    match threadInfo d.numcpus (d.enabled (← get).machine) with
    | none => throw (.assertion "len < maxlen")
    | some reply => say signedChar reply
  else if rest = text "sThreadInfo" then
    say signedChar (text "l")
  else if (text "ThreadExtraInfo,").isPrefixOf rest then
    debugGetthreadinfo d signedChar (rest.drop 16)
  else
    debugNotsupp

/-- The letters that are not all answered alike. -/
inductive GdbCommand where
  | reason
  | cont
  | detach
  | registers
  | setthread
  | kill
  | readMem
  | writeMem
  | query
  | restart
  | step
  | alive
  | notsupp
deriving DecidableEq

def gdbCommands : List (BitVec 8 × GdbCommand) :=
  [(ch '?', .reason), (ch 'c', .cont), (ch 'D', .detach), (ch 'g', .registers),
    (ch 'H', .setthread), (ch 'k', .kill), (ch 'm', .readMem), (ch 'M', .writeMem),
    (ch 'q', .query), (ch 'R', .restart), (ch 's', .step), (ch 'T', .alive)]

def gdbCommand (pkt : Text) : GdbCommand :=
  (pkt[1]?.bind fun c => gdbCommands.lookup c).getD .notsupp

/-- The `switch` of `debug_exec`. -/
def debugSwitch (pkt : Text) : DebugM ε σ Unit := do
  match gdbCommand pkt with
  | .reason => debugSendStopinfo signedChar
  | .cont =>
    debugRestart d (pkt.drop 2)
    modify fun s => { s with machine := d.leaveDebugger s.machine }
  | .detach =>
    say signedChar replyOk
    modify fun s => { s with machine := d.leaveDebugger s.machine }
  | .registers => debugRegisterPrint d host signedChar
  | .setthread => debugSetthread d signedChar (pkt.drop 2)
  | .kill => throw .reqdie
  | .readMem =>
    sayRange signedChar
      (← onCore (debugReadMem (d.target (← get).debugCpu) host turns (pkt.drop 2)))
  | .writeMem =>
    sayRange signedChar
      (← onCore (debugWriteMem (d.target (← get).debugCpu) host turns (pkt.drop 2)))
  | .query => debugQuery d signedChar (pkt.drop 2)
  | .restart => return
  | .step =>
    debugRestart d (pkt.drop 2)
    onCore d.onecycle
    debugSendStopinfo signedChar
  | .alive => debugCheckthread d signedChar (pkt.drop 2)
  | .notsupp => debugNotsupp

/-- All of `debug_exec`. -/
def execPacket (pkt : Text) : DebugM ε σ Unit := do
  match debugExec signedChar pkt with
  | .ignored => return
  | .minus => write (text "-")
  | .plus pkt =>
    write (text "+")
    debugSwitch d host signedChar turns pkt

end Commands

end Sys161.Gdb
