import Sys161.Gdb.Answers
import Sys161.Lib.Runs

/-!
# A session with the debugger

The main loop as the debugger sees it: the cpus run, the connections are polled,
and the program waits in `stoploop` while it is stopped. What is sent on the way is
kept with each step.
-/

namespace Sys161.Gdb

open ByteOrder CString Exec Framing Hex Runs

set_option autoImplicit false

variable {ε σ : Type}

/-- Where the main loop is: in the cpus or idle, at the polling in `runloop`, or in `stoploop`. -/
inductive LoopPlace where
  | cycling
  | polling
  | waiting
deriving DecidableEq

structure Session (σ : Type) where
  machine : σ
  debugCpu : Nat
  connected : Bool
  place : LoopPlace

namespace Session

def start (m : σ) : Session σ := ⟨m, 0, false, .cycling⟩

def debugState (s : Session σ) : DebugState σ := ⟨s.machine, s.debugCpu, []⟩

def withDebugState (s : Session σ) (t : DebugState σ) : Session σ :=
  { s with machine := t.machine, debugCpu := t.debugCpu }

end Session

inductive SessionOp where
  /-- The cpus run, and events happen. -/
  | run
  | packet (pkt : Text)
  /-- A debugger has connected. -/
  | accept
  /-- It has gone. -/
  | eof
  /-- The user has typed the interrupt character. -/
  | interrupt
  | startbreak
  /-- The main loop goes back to the cpus. -/
  | resume
deriving DecidableEq

/-- What happens, and what the debugger is sent. -/
structure SessionLabel where
  op : SessionOp
  out : Text
deriving DecidableEq

section Steps

variable (d : Debuggee ε σ) (host : Order) (signedChar dontwait : Bool)

/-- `gdb_startbreak`, unless the program dies. -/
def gdbStartbreak (s : Session σ) : Option (Session σ × Text) :=
  let s := { s with debugCpu := d.breakCpu s.machine, place := .waiting }
  if s.connected then some (s, debugSend signedChar (stopinfo s.debugCpu))
  else if dontwait ∧ d.stopIsLethal s.machine then none
  else if dontwait then some ({ s with machine := d.leaveDebugger s.machine }, [])
  else some (s, [])

inductive SessionStep : Session σ → SessionLabel → Session σ → Prop where
  | run {s : Session σ} (m : σ) : s.place = .cycling →
      SessionStep s ⟨.run, []⟩ { s with machine := m, place := .polling }
  | packet {s : Session σ} {pkt : Text} {turns : Nat} {t : DebugState σ} : s.connected = true →
      (execPacket d host signedChar turns pkt).run s.debugState = .ok () t →
        SessionStep s ⟨.packet pkt, t.sent⟩ (s.withDebugState t)
  | accept {s : Session σ} : s.connected = false →
      SessionStep s ⟨.accept, []⟩
        { s with connected := true, machine := d.enterDebugger false s.machine }
  | eof {s : Session σ} : s.connected = true →
      SessionStep s ⟨.eof, []⟩
        { s with connected := false, machine := d.leaveDebugger s.machine }
  | interrupt {s : Session σ} :
      SessionStep s ⟨.interrupt, []⟩ { s with machine := d.enterDebugger false s.machine }
  | startbreak {s t : Session σ} {out : Text} : s.place = .polling →
      d.stoppedInDebugger s.machine = true → gdbStartbreak d signedChar dontwait s = some (t, out) →
        SessionStep s ⟨.startbreak, out⟩ t
  | resume {s : Session σ} : s.place ≠ .cycling → d.stoppedInDebugger s.machine = false →
      SessionStep s ⟨.resume, []⟩ { s with place := .cycling }

end Steps

/-! ## What the debugger can rely on -/

/-- All that is sent in a run. -/
def sentText (p : List (SessionLabel × Session σ)) : Text := p.flatMap fun e => e.1.out

/-- The replies in what is sent at a step. -/
def repliesOf (l : SessionLabel) : List Reply := (replyCutter.frames l.out).1

section Session

variable (d : Debuggee ε σ) (host : Order) (signedChar dontwait : Bool)

/-- A packet gets the replies that it is to get, a stop is told, and nothing else is sent. -/
def Proper (s : Session σ) (l : SessionLabel) (t : Session σ) : Prop :=
  (replyCutter.frames l.out).2 = [] ∧
    match l.op with
    | .packet pkt => Replied d signedChar s.debugState t.machine t.debugCpu pkt (repliesOf l)
    | .startbreak => t.debugCpu = d.breakCpu s.machine ∧
        repliesOf l = if s.connected then [.body (stopinfo t.debugCpu)] else []
    | _ => l.out = []

/-- The debugger is told of a stop that it has not asked for. -/
def Unasked (l : SessionLabel) : Prop := l.op = .startbreak ∧ l.out ≠ []

/-- The debugger lets the machine go on, or goes away. -/
def Releases (l : SessionLabel) : Prop :=
  l.op = .eof ∨ ∃ pkt command, l.op = .packet pkt ∧ debugExec signedChar pkt = .plus command ∧
    (gdbCommand command = .cont ∨ gdbCommand command = .detach)

/-- What a run is to meet: the cpu that is looked at is there, every step sends what it is to send,
all that is sent falls into these replies, and between two stops that are told the debugger has let
the machine go on. -/
structure SessionRight (s : Session σ) (p : List (SessionLabel × Session σ)) : Prop where
  cpu : AllStates (fun s => s.debugCpu < d.numcpus) s p
  steps : AllSteps (Proper d signedChar) s p
  sent : replyCutter.frames (sentText p) = (p.flatMap fun e => repliesOf e.1, [])
  released : ∀ before e between e' after, p = before ++ e :: between ++ e' :: after →
    Unasked e.1 → Unasked e'.1 → ∃ l ∈ between, Releases signedChar l.1

/-- A packet that is not answered is one that need not be. -/
def Answering : Prop :=
  ∀ turns pkt s e t, (execPacket d host signedChar turns pkt).run s = .error e t →
    EndsIn signedChar turns pkt e

/-- Reading memory leaves the machine alone. -/
def Debuggee.Quiet : Prop :=
  ∀ i vaddr length m reply t, ReadsRange (d.target i) vaddr length m reply t → t = m

variable {d host signedChar dontwait}

/-- Replies that are sent one after the other are cut one after the other. -/
theorem frames_append_whole {l m : Text} (h : (replyCutter.frames l).2 = []) :
    replyCutter.frames (l ++ m) =
      ((replyCutter.frames l).1 ++ (replyCutter.frames m).1, (replyCutter.frames m).2) := by
  rw [Cutter.frames_append, h, List.nil_append]

theorem frames_sentText {s : Session σ} {p : List (SessionLabel × Session σ)}
    (h : AllSteps (Proper d signedChar) s p) :
    replyCutter.frames (sentText p) = (p.flatMap fun e => repliesOf e.1, []) := by
  induction p generalizing s with
  | nil => exact Cutter.frames_none rfl
  | cons e p ih =>
    obtain ⟨hHead, hTail⟩ := h
    have hRest := ih hTail
    rw [sentText] at hRest
    rw [sentText, List.flatMap_cons, frames_append_whole hHead.1, hRest, List.flatMap_cons]
    rfl

theorem proper_nothing {s t : Session σ} {l : SessionLabel} (hOut : l.out = [])
    (hPacket : ∀ pkt, l.op ≠ .packet pkt) (hBreak : l.op ≠ .startbreak) :
    Proper d signedChar s l t := by
  constructor
  · rw [hOut, Cutter.frames_none rfl]
  · split
    · next pkt hOp => exact absurd hOp (hPacket pkt)
    · next hOp => exact absurd hOp hBreak
    · exact hOut

theorem frames_stopinfo (cpunum : Nat) :
    replyCutter.frames (debugSend signedChar (stopinfo cpunum)) = ([.body (stopinfo cpunum)], []) := by
  rw [debugSend_eq signedChar (sendable_stopinfo cpunum)]
  have hText : replyCutter.frames ([.body (stopinfo cpunum)].flatMap Reply.text) =
      ([.body (stopinfo cpunum)], []) :=
    frames_texts (by simpa using (sendable_stopinfo cpunum).framed)
  rwa [List.flatMap_singleton] at hText

theorem gdbStartbreak_spec {s t : Session σ} {out : Text}
    (h : gdbStartbreak d signedChar dontwait s = some (t, out)) :
    t.debugCpu = d.breakCpu s.machine ∧ t.place = .waiting ∧ t.connected = s.connected ∧
      (s.connected = true → t.machine = s.machine) ∧
      out = if s.connected then debugSend signedChar (stopinfo t.debugCpu) else [] := by
  rw [gdbStartbreak] at h
  dsimp only at h
  split at h
  · next hConnected =>
    cases h
    exact ⟨rfl, rfl, rfl, fun _ => rfl, (if_pos hConnected).symm⟩
  · next hConnected =>
    have hNot : ∀ {P : Prop}, s.connected = true → P := fun h => absurd h hConnected
    split at h
    · cases h
    · split at h
      · cases h
        exact ⟨rfl, rfl, rfl, hNot, (if_neg hConnected).symm⟩
      · cases h
        exact ⟨rfl, rfl, rfl, fun _ => rfl, (if_neg hConnected).symm⟩

theorem answering : Answering d host signedChar := by
  intro turns pkt s e t hRun
  exact after_of_run_error (E := fun e _ => EndsIn signedChar turns pkt e)
    (after_execPacket pkt s) hRun

theorem Debuggee.quiet_of_keeps
    (hByte : ∀ i m va, Keeps (fun t => t = m) (fun _ _ => True) ((d.target i).fetchByte va))
    (hWord : ∀ i m va, Keeps (fun t => t = m) (fun _ _ => True) ((d.target i).fetchWord va)) :
    d.Quiet :=
  fun i _ _ m _ _ hReads => hReads.keeps (I := fun t => t = m) (hByte i m) (hWord i m) rfl

/-- A packet is answered as it is to be, and leaves a cpu to look at. -/
theorem packet_spec {s : Session σ} {pkt : Text} {turns : Nat} {t : DebugState σ}
    (hRun : (execPacket d host signedChar turns pkt).run s.debugState = .ok () t) :
    ∃ replies, replyCutter.frames t.sent = (replies, []) ∧
      Replied d signedChar s.debugState t.machine t.debugCpu pkt replies ∧
      (s.debugCpu < d.numcpus → t.debugCpu < d.numcpus) := by
  obtain ⟨replies, hServed, hReplied⟩ :=
    after_of_run_ok (after_execPacket pkt s.debugState) hRun
  refine ⟨replies, ?_, hReplied, hServed.cpu⟩
  have hSent := hServed.sent
  rw [Session.debugState, List.nil_append] at hSent
  rw [hSent]
  exact frames_texts hServed.framed

theorem SessionStep.cpu {s t : Session σ} {l : SessionLabel} (hCpu : s.debugCpu < d.numcpus)
    (h : SessionStep d host signedChar dontwait s l t) : t.debugCpu < d.numcpus := by
  cases h with
  | packet hConnected hRun =>
    obtain ⟨replies, -, -, hKept⟩ := packet_spec hRun
    exact hKept hCpu
  | startbreak hPlace hStopped hBreak =>
    rw [(gdbStartbreak_spec hBreak).1]
    exact d.breakCpu_lt _
  | run m hPlace => exact hCpu
  | accept hConnected => exact hCpu
  | eof hConnected => exact hCpu
  | interrupt => exact hCpu
  | resume hPlace hStopped => exact hCpu

theorem SessionStep.proper {s t : Session σ} {l : SessionLabel}
    (h : SessionStep d host signedChar dontwait s l t) : Proper d signedChar s l t := by
  cases h with
  | packet hConnected hRun =>
    obtain ⟨replies, hFrames, hReplied, -⟩ := packet_spec hRun
    refine ⟨by rw [hFrames], ?_⟩
    change Replied d signedChar s.debugState _ _ _ (replyCutter.frames _).1
    rw [hFrames]
    exact hReplied
  | startbreak hPlace hStopped hBreak =>
    obtain ⟨hCpu, -, -, -, hOut⟩ := gdbStartbreak_spec hBreak
    rw [hOut]
    constructor
    · dsimp only
      split
      · rw [frames_stopinfo]
      · rw [Cutter.frames_none rfl]
    · refine ⟨hCpu, ?_⟩
      rw [repliesOf]
      dsimp only
      split
      · rw [frames_stopinfo]
      · rw [Cutter.frames_none rfl]
  | run m hPlace => exact proper_nothing rfl nofun nofun
  | accept hConnected => exact proper_nothing rfl nofun nofun
  | eof hConnected => exact proper_nothing rfl nofun nofun
  | interrupt => exact proper_nothing rfl nofun nofun
  | resume hPlace hStopped => exact proper_nothing rfl nofun nofun

/-! ## Stops that are told -/

/-- The program waits for a debugger that has been told. -/
def Told (d : Debuggee ε σ) (s : Session σ) : Prop :=
  s.place = .waiting ∧ s.connected = true ∧ d.stoppedInDebugger s.machine = true

theorem Restarted.stays {debugCpu : Nat} {addr : Text} {m t : σ}
    (h : Restarted d debugCpu addr m t) (hStopped : d.stoppedInDebugger m = true) :
    d.stoppedInDebugger t = true := by
  rw [Restarted] at h
  split at h
  · exact h ▸ hStopped
  · exact after_of_run_ok (Q := fun _ m => d.stoppedInDebugger m = true)
      (d.setEntrypoint_stays debugCpu _ m hStopped) h

theorem Replied.stays {s : DebugState σ} {m : σ} {debugCpu : Nat} {pkt : Text}
    {replies : List Reply} (h : Replied d signedChar s m debugCpu pkt replies)
    (hHeld : ∀ command, debugExec signedChar pkt = .plus command →
      ¬ (gdbCommand command = .cont ∨ gdbCommand command = .detach))
    (hStopped : d.stoppedInDebugger s.machine = true) : d.stoppedInDebugger m = true := by
  rw [Replied] at h
  split at h
  · exact h.2.1 ▸ hStopped
  · exact h.2.1 ▸ hStopped
  · next command hExec =>
    obtain ⟨answers, -, hAnswered⟩ := h
    have hCommand := hHeld command hExec
    cases hKind : gdbCommand command <;> rw [hKind] at hAnswered hCommand
    case cont => exact absurd (.inl rfl) hCommand
    case detach => exact absurd (.inr rfl) hCommand
    case kill => exact hAnswered.elim
    case step =>
      obtain ⟨-, ⟨t, hRestarted, hCycle⟩, -⟩ := hAnswered
      exact after_of_run_ok (Q := fun _ m => d.stoppedInDebugger m = true)
        (d.onecycle_stays t (hRestarted.stays hStopped)) hCycle
    case writeMem =>
      obtain ⟨⟨reply, -, hWrites⟩, -⟩ := hAnswered
      exact hWrites.keeps (I := fun m => d.stoppedInDebugger m = true) (d.storeByte_stays _)
        (d.storeWord_stays _) hStopped
    case readMem =>
      obtain ⟨⟨reply, -, hReads⟩, -⟩ := hAnswered
      exact hReads.keeps (I := fun m => d.stoppedInDebugger m = true) (d.fetchByte_stays _)
        (d.fetchWord_stays _) hStopped
    case registers =>
      rw [hAnswered.2.1]
      exact d.getregs_stays s.machine s.debugCpu hStopped
    all_goals exact hAnswered.2.1 ▸ hStopped

/-- As long as the debugger does not let it go on, the program waits. -/
theorem SessionStep.told {s t : Session σ} {l : SessionLabel} (hTold : Told d s)
    (h : SessionStep d host signedChar dontwait s l t) (hHeld : ¬ Releases signedChar l) :
    Told d t := by
  obtain ⟨hWaiting, hThere, hStopped⟩ := hTold
  cases h with
  | run m hPlace => exact absurd (hWaiting.symm.trans hPlace) (by decide)
  | @packet pkt turns u hConnected hRun =>
    obtain ⟨replies, -, hReplied, -⟩ := packet_spec hRun
    refine ⟨hWaiting, hThere, hReplied.stays (fun command hExec hKind => hHeld ?_) hStopped⟩
    exact .inr ⟨pkt, command, rfl, hExec, hKind⟩
  | accept hConnected => exact absurd (hThere.symm.trans hConnected) (by decide)
  | eof hConnected => exact absurd (.inl rfl) hHeld
  | interrupt => exact ⟨hWaiting, hThere, d.enter _ _⟩
  | startbreak hPlace _ hBreak => exact absurd (hWaiting.symm.trans hPlace) (by decide)
  | resume hPlace hGoes => exact absurd (hStopped.symm.trans hGoes) (by decide)

theorem told_of_unasked {s t : Session σ} {l : SessionLabel} (hUnasked : Unasked l)
    (h : SessionStep d host signedChar dontwait s l t) : Told d t := by
  obtain ⟨hOp, hOut⟩ := hUnasked
  cases h with
  | startbreak hPlace hStopped hBreak =>
    obtain ⟨-, hWaiting, hThere, hMachine, hSent⟩ := gdbStartbreak_spec hBreak
    cases hConnected : s.connected with
    | false =>
      rw [hConnected] at hSent
      exact absurd hSent hOut
    | true => exact ⟨hWaiting, hThere.trans hConnected, hMachine hConnected ▸ hStopped⟩
  | run m hPlace => cases hOp
  | packet hConnected hRun => cases hOp
  | accept hConnected => cases hOp
  | eof hConnected => cases hOp
  | interrupt => cases hOp
  | resume hPlace hStopped => cases hOp

/-- A run in which the debugger does not let the machine go on. -/
theorem told_run {s t : Session σ} {p : List (SessionLabel × Session σ)} (hTold : Told d s)
    (hp : Path (SessionStep d host signedChar dontwait) s p t)
    (hHeld : ∀ e ∈ p, ¬ Releases signedChar e.1) : Told d t := by
  induction hp with
  | nil s => exact hTold
  | cons hStep _ ih =>
    obtain ⟨hHead, hTail⟩ := List.forall_mem_cons.mp hHeld
    exact ih (hStep.told hTold hHead) hTail

theorem released_between {s t : Session σ} {p : List (SessionLabel × Session σ)}
    (hp : Path (SessionStep d host signedChar dontwait) s p t)
    {before between after : List (SessionLabel × Session σ)} {e e' : SessionLabel × Session σ}
    (hSplit : p = before ++ e :: between ++ e' :: after) (hFirst : Unasked e.1)
    (hSecond : Unasked e'.1) : ∃ l ∈ between, Releases signedChar l.1 := by
  rw [hSplit, List.append_assoc] at hp
  obtain ⟨u, -, hRest⟩ := hp.split
  rw [List.cons_append] at hRest
  cases hRest with
  | cons hStep hRest =>
    obtain ⟨v, hBetween, hAfter⟩ := hRest.split
    cases hAfter with
    | cons hStep' _ =>
      by_contra hNone
      have hHeld : ∀ l ∈ between, ¬ Releases signedChar l.1 := fun l hl hReleases =>
        hNone ⟨l, hl, hReleases⟩
      obtain ⟨hWaiting, -, -⟩ := told_run (told_of_unasked hFirst hStep) hBetween hHeld
      obtain ⟨hOp, -⟩ := hSecond
      cases hStep' with
      | startbreak hPlace _ _ => exact absurd (hWaiting.symm.trans hPlace) (by decide)
      | run m hPlace => cases hOp
      | packet hConnected hRun => cases hOp
      | accept hConnected => cases hOp
      | eof hConnected => cases hOp
      | interrupt => cases hOp
      | resume hPlace hStopped => cases hOp

theorem sessionRight {m : σ} {s : Session σ} {p : List (SessionLabel × Session σ)}
    (hp : Path (SessionStep d host signedChar dontwait) (Session.start m) p s) :
    SessionRight d signedChar (Session.start m) p := by
  have hSteps : AllSteps (Proper d signedChar) (Session.start m) p :=
    hp.allSteps_of_invariant (P := fun _ => True) (fun _ _ _ _ _ hStep => ⟨trivial, hStep.proper⟩)
      trivial (AllSteps.of_forall (fun _ _ _ => trivial) _ p)
  constructor
  · refine hp.allStates_of_step (fun _ _ _ hCpu hStep => hStep.cpu hCpu) ?_
    exact Nat.zero_lt_of_lt (d.breakCpu_lt m)
  · exact hSteps
  · exact frames_sentText hSteps
  · exact fun before e between e' after hSplit => released_between hp hSplit

end Session

end Sys161.Gdb
