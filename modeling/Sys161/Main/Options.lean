import Mathlib
import Sys161.Disk161.Tool

/-!
# The command line

`mygetopt` keeps a place in the arguments, and `main` takes one option after the
other until there is none in front. What is left are the kernel and its arguments.
-/

namespace Sys161.Main

open CString Disk161

set_option autoImplicit false

/-- An argument, without the zero that ends it. -/
abbrev Arg := List (BitVec 8)

/-! ## `mygetopt` -/

structure Getopt where
  myoptarg : Option Arg
  myoptind : Nat
  myoptchr : Nat

def Getopt.zeroed : Getopt where
  myoptarg := none
  myoptind := 0
  myoptchr := 0

/-- The character at a place of a string, which may be the zero at its end. -/
def charAt (s : Arg) (i : Nat) : BitVec 8 := s.getD i 0

/-- The loop that finds the next character of an option, with as many turns as it may take. -/
def nextChar (argv : List Arg) : Nat → Getopt → Option (BitVec 8) × Getopt
  | 0, g => (none, g)
  | turns + 1, g =>
    match argv[g.myoptind]? with
    | none => (none, g)
    | some arg =>
      if g.myoptchr = 0 ∧ charAt arg 0 ≠ ch '-' then (none, g)
      else
        let chr := if g.myoptchr = 0 then 1 else g.myoptchr
        if charAt arg chr = 0 then
          nextChar argv turns { g with myoptind := g.myoptind + 1, myoptchr := 0 }
        else (some (charAt arg chr), { g with myoptchr := chr + 1 })

/-- An option of `-t[kujtxidne]` and the like: no such option, one on its own, or one that takes an
argument. -/
inductive OptKind where
  | unknown
  | flag
  | valued
deriving DecidableEq

/-- `strchr(myopts, myopt)`, and the colon behind it. -/
def optKind (myopts : Arg) (myopt : BitVec 8) : OptKind :=
  if myopt = ch ':' then .unknown
  else
    match myopts.dropWhile (· ≠ myopt) with
    | [] => .unknown
    | [_] => .flag
    | _ :: c :: _ => if c = ch ':' then .valued else .flag

def questionMark : BitVec 8 := ch '?'

/-- There is no option where it returns -1. -/
def mygetopt (argv : List Arg) (myopts : Arg) (g : Getopt) : Option (BitVec 8) × Getopt :=
  let g := if g.myoptind = 0 then { g with myoptind := 1 } else g
  match nextChar argv argv.length g with
  | (none, g) => (none, g)
  | (some myopt, g) =>
    match optKind myopts myopt with
    | .unknown => (some questionMark, g)
    | .flag => (some myopt, g)
    | .valued =>
      let behind := (argv.getD g.myoptind []).drop g.myoptchr
      if behind.length > 0 then
        (some myopt,
          { myoptarg := some behind, myoptind := g.myoptind + 1, myoptchr := 0 })
      else
        match argv[g.myoptind + 1]? with
        | none =>
          (some questionMark, { g with myoptarg := none, myoptind := g.myoptind + 1 })
        | some arg =>
          (some myopt, { myoptarg := some arg, myoptind := g.myoptind + 2, myoptchr := 0 })

/-! ## Trace flags -/

/-- The letters in the order of the flags they stand for. -/
def flagLetters : List (BitVec 8) := "kujtxidne".toList.map ch

/-- The flags that trace the cpus. -/
def cpuTraced (flags : Nat → Bool) : Bool :=
  flags 0 || flags 1 || flags 2 || flags 3 || flags 4 || flags 5

structure Tracing where
  gTraceflags : Nat → Bool
  cpuTracing : Bool

def Tracing.off : Tracing where
  gTraceflags := fun _ => false
  cpuTracing := false

def setTraceflag (t : Tracing) (letter : BitVec 8) : Option Tracing :=
  match flagLetters.idxOf? letter with
  | none => none
  | some f =>
    let flags := fun k => if k = f then !t.gTraceflags k else t.gTraceflags k
    some { gTraceflags := flags, cpuTracing := cpuTraced flags }

/-! ## `main` -/

/-- How `main` may end before anything runs. -/
inductive MainStop where
  | usage
  | die (msg : String)
  | smoke (msg : String)
  | endless
deriving DecidableEq

/-- Where trace output goes; without a word about it, where messages go. -/
inductive TraceTo where
  | messages
  | stdout
  | file (name : Arg)

structure Settings where
  config : Arg
  configextra : List Arg
  doom : BitVec 32
  oTracefile : Option Arg
  traceTo : TraceTo
  port : BitVec 32
  usetcp : Bool
  profiling : Bool
  passSignals : Bool
  tracing : Tracing
  consoleTracing : Bool
  debugwait : Bool
  noDebuggerWait : Bool
  timeout : Option (BitVec 32)

def Settings.default : Settings where
  config := "sys161.conf".toList.map ch
  configextra := []
  doom := 0
  oTracefile := none
  traceTo := .messages
  port := 2344
  usetcp := false
  profiling := false
  passSignals := false
  tracing := Tracing.off
  consoleTracing := false
  debugwait := false
  noDebuggerWait := false
  timeout := none

def maxconfigextra : Nat := 128

/-- `set_tracefile`, where `fopen` fails with this error, or does not fail. -/
def setTracefile (fopen : Arg → Option String) (s : Settings) (filename : Arg) :
    Except MainStop Settings :=
  if s.oTracefile.isSome then .error (.smoke "Multiple calls to set_tracefile")
  else if filename = [ch '-'] then .ok { s with traceTo := .stdout }
  else
    match fopen filename with
    | some e => .error (.die s!"Cannot open tracefile {text filename}: {e}")
    | none => .ok { s with oTracefile := some filename, traceTo := .file filename }

def setTraceflags (t : Tracing) (letters : Arg) : Except MainStop Tracing :=
  letters.foldlM (fun t letter =>
    match setTraceflag t letter with
    | none => .error (.die s!"Unknown trace flag {text [letter]}")
    | some t => .ok t) t

def addConfigextra (s : Settings) (arg : Arg) : Except MainStop Settings :=
  if s.configextra.length ≥ maxconfigextra then .error (.die "Too many -C options")
  else if arg.contains (ch ':') then .ok { s with configextra := s.configextra ++ [arg] }
  else .error (.die "Invalid -C option")

def setTimeout (s : Settings) (arg : Arg) : Except MainStop Settings :=
  if (atoi arg).toInt ≤ 1 then .error (.die "Invalid timeout (must be at least 2)")
  else .ok { s with timeout := some (atoi arg) }

def mainOpts : Arg := "c:C:D:f:p:Pst:wXZ:".toList.map ch

/-- The cases of the `switch`. -/
def takeOption (fopen : Arg → Option String) (s : Settings) (opt : BitVec 8) (arg : Arg) :
    Except MainStop Settings :=
  if opt = ch 'c' then .ok { s with config := arg }
  else if opt = ch 'C' then addConfigextra s arg
  else if opt = ch 'D' then .ok { s with doom := atoi arg }
  else if opt = ch 'f' then setTracefile fopen s arg
  else if opt = ch 'p' then .ok { s with port := atoi arg, usetcp := true }
  else if opt = ch 'P' then .ok { s with profiling := true }
  else if opt = ch 's' then .ok { s with passSignals := true }
  else if opt = ch 't' then
    (setTraceflags s.tracing arg).map fun t => { s with tracing := t, consoleTracing := true }
  else if opt = ch 'w' then .ok { s with debugwait := true }
  else if opt = ch 'X' then .ok { s with noDebuggerWait := true }
  else if opt = ch 'Z' then setTimeout s arg
  else .error .usage

/-- The loop over the options, with as many turns as it may take. -/
def optionLoop (fopen : Arg → Option String) (argv : List Arg) :
    Nat → Getopt → Settings → Except MainStop (Nat × Settings)
  | 0, _, _ => .error .endless
  | turns + 1, g, s =>
    match mygetopt argv mainOpts g with
    | (none, g) => .ok (g.myoptind, s)
    | (some opt, g) =>
      (takeOption fopen s opt (g.myoptarg.getD [])).bind fun s => optionLoop fopen argv turns g s

/-- `strcat` of the arguments with a blank between them. -/
def joinArgs : List Arg → Arg
  | [] => []
  | [arg] => arg
  | arg :: args => arg ++ ch ' ' :: joinArgs args

/-- What is known when the kernel is going to be loaded. -/
structure Invocation where
  settings : Settings
  kernel : Arg
  argstr : Arg

/-- The part of `main` that deals with its arguments. -/
def mainArgs (fopen : Arg → Option String) (argv : List Arg) : Except MainStop Invocation :=
  match optionLoop fopen argv ((argv.map fun a => a.length + 1).sum + 1) Getopt.zeroed
      Settings.default with
  | .error e => .error e
  | .ok (myoptind, s) =>
    match argv.drop myoptind with
    | [] => .error .usage
    | kernel :: args => .ok { settings := s, kernel := kernel, argstr := joinArgs args }

end Sys161.Main
