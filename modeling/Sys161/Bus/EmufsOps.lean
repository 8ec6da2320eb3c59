import Sys161.Bus.DevEmufs
import Sys161.Lib.Exec

/-!
# The emulator filesystem device: its operations

What the host answers to the system calls of an operation is a parameter. The
operations keep an account of the descriptors they open and close, of those of the
handle table that they use, and of the working directory.
-/

namespace Sys161.Bus

set_option autoImplicit false

def maxhandles : Nat := 64

def emuBufStart : Nat := 32768

def emuBufSize : Nat := 16384

def emuBufEnd : Nat := emuBufStart + emuBufSize

def emuregHandle : Nat := 0

def emuregOffset : Nat := 4

def emuregIolen : Nat := 8

def emuregOper : Nat := 12

def emuregResult : Nat := 16

def emuOpOpen : BitVec 32 := 1

def emuOpCreate : BitVec 32 := 2

def emuOpExclcreate : BitVec 32 := 3

def emuOpClose : BitVec 32 := 4

def emuOpRead : BitVec 32 := 5

def emuOpReaddir : BitVec 32 := 6

def emuOpWrite : BitVec 32 := 7

def emuOpGetsize : BitVec 32 := 8

def emuOpTrunc : BitVec 32 := 9

def emuResSuccess : BitVec 32 := 1

def emuResBadhandle : BitVec 32 := 2

def emuResBadop : BitVec 32 := 3

def emuResBadpath : BitVec 32 := 4

def emuResBadsize : BitVec 32 := 5

def emuResExists : BitVec 32 := 6

def emuResIsdir : BitVec 32 := 7

def emuResMedia : BitVec 32 := 8

def emuResNohandles : BitVec 32 := 9

def emuResNospace : BitVec 32 := 10

def emuResNotdir : BitVec 32 := 11

def emuResUnknown : BitVec 32 := 12

/-! ## The host -/

/-- The values of `errno` after a call that failed. -/
inductive Errno where
  | ebadf
  | einval
  | enoent
  | eio
  | enotdir
  | eisdir
  | eexist
  | enospc
  | other (text : String)
deriving DecidableEq

def errnoToCode : Errno → BitVec 32
  | .ebadf => emuResBadhandle
  | .einval => emuResBadsize
  | .enoent => emuResBadpath
  | .eio => emuResMedia
  | .enotdir => emuResNotdir
  | .eisdir => emuResIsdir
  | .eexist => emuResExists
  | .enospc => emuResNospace
  | .other _ => emuResUnknown

theorem errnoToCode_ne_success (err : Errno) : errnoToCode err ≠ emuResSuccess := by
  cases err with
  | other text => exact (by decide : emuResUnknown ≠ emuResSuccess)
  | _ => decide

/-- `st_dev` and `st_ino`. -/
structure Ident where
  dev : BitVec 64
  ino : BitVec 64
deriving DecidableEq

structure HostStat where
  ident : Ident
  isDir : Bool
  size : BitVec 64

/-- What the host answers in the course of one operation: to `open(".")`, to `fchdir` into the
handle and back, to `stat`, to the n-th `open` of the path and the `fstat` of what it gave, and to
the calls that move data. `read` and `write` do not move more than they are asked to. -/
structure Answers where
  dot : Except Errno Nat
  enter : Except Errno Unit
  back : Except Errno Unit
  stat : Except Errno HostStat
  opens : Nat → Except Errno (Nat × Except Errno HostStat)
  read : Except Errno (List (BitVec 8))
  write : Except Errno Nat
  dir : Except Errno (Nat × List (List (BitVec 8)))
  fstat : Except Errno HostStat
  ftruncate : Except Errno Unit

/-- No directory is behind a descriptor that is not open. -/
def Answers.fchdir (a : Answers) (fd : Int) : Except Errno Unit :=
  if fd < 0 then .error .ebadf else a.enter

/-! ## The device -/

structure Handleinfo where
  ehFd : Int
  ehIdent : Ident

structure Emufs extends EmufsData where
  edBuf : Nat → BitVec 8
  edHandle : BitVec 32
  edOffset : BitVec 32
  edIolen : BitVec 32
  edHandles : Fin maxhandles → Handleinfo

/-- A descriptor of the host; `file` is what `fstat` said of it. -/
inductive FdEvent where
  | opened (fd : Nat) (file : Option Ident)
  | closed (fd : Int)

/-- The directory that the emulator runs in, or the one behind a descriptor. -/
inductive HostDir where
  | start
  | behind (fd : Int)
deriving DecidableEq

/-- The working directory, and the directories that the descriptors are for. -/
structure HostDirs where
  cwd : HostDir
  dirs : Int → HostDir

namespace HostDirs

/-- `open(".")`. -/
def openDot (host : HostDirs) (fd : Nat) : HostDirs :=
  { host with dirs := Function.update host.dirs fd host.cwd }

def fchdir (host : HostDirs) (fd : Int) : HostDirs := { host with cwd := host.dirs fd }

def close (host : HostDirs) (fd : Nat) : HostDirs :=
  { host with dirs := Function.update host.dirs fd (.behind fd) }

end HostDirs

/-- The device with its account of descriptors. `used` holds those taken from the handle table and
given to the host. -/
structure Session where
  ed : Emufs
  fds : List FdEvent
  used : List Int
  host : HostDirs

/-- How an operation can fail to return: an abort, an access outside the table, and a file that
has not stopped changing. -/
inductive EmufsFailure where
  | smoke (msg : String)
  | assertion (msg : String)
  | outside (index : Int)
  | changing

abbrev EmufsM := EStateM EmufsFailure Session

def modEd (f : Emufs → Emufs) : EmufsM Unit := modify fun s => { s with ed := f s.ed }

def logFd (e : FdEvent) : EmufsM Unit := modify fun s => { s with fds := s.fds ++ [e] }

def openDot (fd : Nat) : EmufsM Unit :=
  modify fun s => { s with fds := s.fds ++ [.opened fd none], host := s.host.openDot fd }

def closeDot (fd : Nat) : EmufsM Unit :=
  modify fun s => { s with fds := s.fds ++ [.closed fd], host := s.host.close fd }

def enterDir (fd : Int) : EmufsM Unit := modify fun s => { s with host := s.host.fchdir fd }

/-- `ed->ed_handles[index]`. -/
def handleAt (index : Int) : EmufsM Handleinfo := do
  let s ← get
  if h : index.toNat < maxhandles ∧ 0 ≤ index then return s.ed.edHandles ⟨index.toNat, h.1⟩
  else throw (.outside index)

def Emufs.setHandle (ed : Emufs) (i : Fin maxhandles) (f : Handleinfo → Handleinfo) : Emufs :=
  { ed with edHandles := Function.update ed.edHandles i (f (ed.edHandles i)) }

def setHandle (index : Int) (f : Handleinfo → Handleinfo) : EmufsM Unit :=
  if h : index.toNat < maxhandles ∧ 0 ≤ index then modEd fun ed => ed.setHandle ⟨index.toNat, h.1⟩ f
  else throw (.outside index)

/-- The descriptor of the handle in the register, as it is given to the host. -/
def useHandle : EmufsM Int := do
  let s ← get
  let eh ← handleAt s.ed.edHandle.toNat
  modify fun s => { s with used := s.used ++ [eh.ehFd] }
  return eh.ehFd

def pushdir (a : Answers) : EmufsM Nat := do
  let fd ← useHandle
  match a.dot with
  | .error _ => throw (.smoke ".")
  | .ok oldfd =>
    openDot oldfd
    match a.fchdir fd with
    | .error _ => throw (.smoke "emufs: fchdir")
    | .ok _ =>
      enterDir fd
      return oldfd

def popdir (a : Answers) (oldfd : Nat) : EmufsM Unit :=
  match a.back with
  | .error _ => throw (.smoke "emufs: fchdir [back]")
  | .ok _ => do
    enterDir oldfd
    closeDot oldfd

/-- The loop of `pickhandle`: an open handle of the file, or the first unused one. -/
def findHandle (handles : Fin maxhandles → Handleinfo) (file : Ident) :
    List (Fin maxhandles) → Option (Fin maxhandles) → Fin maxhandles ⊕ Option (Fin maxhandles)
  | [], empty => .inr empty
  | i :: is, empty =>
    if (handles i).ehFd < 0 then findHandle handles file is (empty.or (some i))
    else if (handles i).ehIdent = file then .inl i
    else findHandle handles file is empty

def pickhandle (file : Ident) : EmufsM Int := do
  let s ← get
  match findHandle s.ed.edHandles file (List.finRange maxhandles) none with
  | .inl i => return (i.val : Int)
  | .inr empty =>
    let empty : Int := match empty with
      | none => -1
      | some i => i.val
    setHandle empty fun eh => { eh with ehIdent := file }
    return empty

/-- The n-th time the path is opened in an operation. -/
def emufsOpenAndStat (a : Answers) (n : Nat) : EmufsM (Except (BitVec 32) (Ident × Nat)) :=
  match a.opens n with
  | .error err => return .error (errnoToCode err)
  | .ok (fd, .error err) => do
    logFd (.opened fd none)
    logFd (.closed fd)
    return .error (errnoToCode err)
  | .ok (fd, .ok st) => do
    logFd (.opened fd (some st.ident))
    return .ok (st.ident, fd)

/-- A status other than success, or the handle. -/
def emufsOpenCreate (a : Answers) : EmufsM (Except (BitVec 32) Int) := do
  match ← emufsOpenAndStat a 0 with
  | .error status => return .error status
  | .ok (file, fd) =>
    let handle ← pickhandle file
    if handle < 0 then
      logFd (.closed fd)
      return .error emuResNohandles
    else
      let eh ← handleAt handle
      -- Someone may have renamed a file we have open under us.
      if 0 ≤ eh.ehFd then logFd (.closed fd)
      else setHandle handle fun eh => { eh with ehFd := fd }
      return .ok handle

/-- The loop of `emufs_open_existing` from its n-th turn; `fuel` bounds the turns. -/
def emufsOpenExisting (a : Answers) : Nat → Nat → Ident → EmufsM (Except (BitVec 32) Int)
  | 0, _, _ => throw .changing
  | fuel + 1, n, expected => do
    let handle ← pickhandle expected
    if handle < 0 then return .error emuResNohandles
    else
      let eh ← handleAt handle
      if 0 ≤ eh.ehFd then return .ok handle
      else
        match ← emufsOpenAndStat a n with
        | .error status => return .error status
        | .ok (file, fd) =>
          if file = expected then
            setHandle handle fun eh => { eh with ehFd := fd }
            return .ok handle
          else
            logFd (.closed fd)
            emufsOpenExisting a fuel (n + 1) file

/-- The end of `emufs_open`. -/
def emufsOpened (a : Answers) (curdir : Nat) (isdir : Bool) :
    Except (BitVec 32) Int → EmufsM (BitVec 32)
  | .error status => do
    popdir a curdir
    return status
  | .ok handle => do
    if handle < 0 then throw (.assertion "handle >= 0")
    popdir a curdir
    modEd fun ed => { ed with
      edHandle := BitVec.ofInt 32 handle
      edIolen := if isdir then 1 else 0 }
    return emuResSuccess

/-- `creating` is whether the flags are other than zero. -/
def emufsOpen (a : Answers) (fuel : Nat) (creating : Bool) : EmufsM (BitVec 32) := do
  let s ← get
  if s.ed.edIolen.toNat ≥ emuBufSize then return emuResBadsize
  else
    modEd fun ed => { ed with edBuf := Function.update ed.edBuf ed.edIolen.toNat 0 }
    let curdir ← pushdir a
    match a.stat with
    | .error err =>
      if !creating then
        popdir a curdir
        return errnoToCode err
      else
        let status ← emufsOpenCreate a
        emufsOpened a curdir false status
    | .ok st =>
      let status ← emufsOpenExisting a fuel 0 st.ident
      emufsOpened a curdir st.isDir status

def emufsClose : EmufsM (BitVec 32) := do
  let fd ← useHandle
  logFd (.closed fd)
  let s ← get
  setHandle s.ed.edHandle.toNat fun eh => { eh with ehFd := -1 }
  return emuResSuccess

def putBytes (buf : Nat → BitVec 8) (bytes : List (BitVec 8)) : Nat → BitVec 8 :=
  fun i => bytes.getD i (buf i)

def emufsRead (a : Answers) : EmufsM (BitVec 32) := do
  let s ← get
  if s.ed.edIolen.toNat > emuBufSize then return emuResBadsize
  else
    let _ ← useHandle
    match a.read with
    | .error err => return errnoToCode err
    | .ok bytes =>
      modEd fun ed =>
        let bytes := bytes.take ed.edIolen.toNat
        { ed with
          edBuf := putBytes ed.edBuf bytes
          edOffset := ed.edOffset + BitVec.ofNat 32 bytes.length
          edIolen := BitVec.ofNat 32 bytes.length }
      return emuResSuccess

/-- The way back at the end of `emufs_readdir`, which is not checked. -/
def leaveDir (a : Answers) (herefd : Nat) : EmufsM Unit := do
  match a.back with
  | .error _ => pure ()
  | .ok _ => enterDir herefd
  closeDot herefd

def emufsReaddir (a : Answers) : EmufsM (BitVec 32) := do
  let s ← get
  if s.ed.edIolen.toNat > emuBufSize then return emuResBadsize
  else
    match a.dot with
    | .error err => return errnoToCode err
    | .ok herefd =>
      openDot herefd
      let fd ← useHandle
      match a.fchdir fd with
      | .error err =>
        closeDot herefd
        return errnoToCode err
      | .ok _ =>
        enterDir fd
        match a.dir with
        | .error err =>
          leaveDir a herefd
          return errnoToCode err
        | .ok (dirfd, names) =>
          logFd (.opened dirfd none)
          modEd fun ed =>
            match names[ed.edOffset.toNat]? with
            | some name =>
              let name := name.take ed.edIolen.toNat
              { ed with
                edBuf := putBytes ed.edBuf name
                edIolen := BitVec.ofNat 32 name.length
                edOffset := ed.edOffset + 1 }
            | none => { ed with edIolen := 0 }
          logFd (.closed dirfd)
          leaveDir a herefd
          return emuResSuccess

def emufsWrite (a : Answers) : EmufsM (BitVec 32) := do
  let s ← get
  if s.ed.edIolen.toNat > emuBufSize then return emuResBadsize
  else
    let _ ← useHandle
    match a.write with
    | .error err => return errnoToCode err
    | .ok n =>
      modEd fun ed =>
        let len := BitVec.ofNat 32 (min n ed.edIolen.toNat)
        { ed with edOffset := ed.edOffset + len, edIolen := len }
      return emuResSuccess

def emufsGetsize (a : Answers) : EmufsM (BitVec 32) := do
  let _ ← useHandle
  match a.fstat with
  | .error err => return errnoToCode err
  | .ok st =>
    modEd fun ed => { ed with edIolen := st.size.setWidth 32 }
    return emuResSuccess

def emufsTrunc (a : Answers) : EmufsM (BitVec 32) := do
  let _ ← useHandle
  match a.ftruncate with
  | .error err => return errnoToCode err
  | .ok _ => return emuResSuccess

/-- The second `switch` of `emufs_op`. -/
def emufsOpHandle (a : Answers) (op : BitVec 32) : EmufsM (BitVec 32) :=
  if op = emuOpClose then emufsClose
  else if op = emuOpRead then emufsRead a
  else if op = emuOpReaddir then emufsReaddir a
  else if op = emuOpWrite then emufsWrite a
  else if op = emuOpGetsize then emufsGetsize a
  else if op = emuOpTrunc then emufsTrunc a
  else return emuResBadop

def emufsOp (a : Answers) (fuel : Nat) (op : BitVec 32) : EmufsM (BitVec 32) := do
  if op = emuOpOpen then emufsOpen a fuel false
  else if op = emuOpCreate then emufsOpen a fuel true
  else if op = emuOpExclcreate then emufsOpen a fuel true
  else
    let s ← get
    if s.ed.edHandle.toNat ≥ maxhandles then return emuResBadhandle
    else
      let eh ← handleAt s.ed.edHandle.toNat
      if eh.ehFd < 0 then return emuResBadhandle
      else emufsOpHandle a op

/-! ## The registers -/

def emufsDoOp (a : Answers) (fuel : Nat) (op : BitVec 32) : EmufsM (Done Unit) := do
  let s ← get
  if s.ed.edBusy ≠ 0 then
    return {
      dev := ()
      hung := some "emufs operation started while an operation was already in progress" }
  else
    let res ← emufsOp a fuel op
    modEd fun ed => { ed with edBusy := 1, edBusyresult := res }
    return {
      dev := ()
      arm := some { nsecs := emufsNsecs, code := 0, func := .emufsDone, desc := "emufs" } }

/-- The boolean is whether there is such a register. -/
def emufsStore (bigEndian : Bool) (a : Answers) (fuel : Nat) (offset val : BitVec 32) :
    EmufsM (Bool × Done Unit) := do
  if emuBufStart ≤ offset.toNat ∧ offset.toNat < emuBufEnd then
    modEd fun ed =>
      { ed with edBuf := putWord bigEndian ed.edBuf (offset.toNat - emuBufStart) val }
    return (true, { dev := () })
  else if offset.toNat = emuregHandle then
    modEd fun ed => { ed with edHandle := val }
    return (true, { dev := () })
  else if offset.toNat = emuregOffset then
    modEd fun ed => { ed with edOffset := val }
    return (true, { dev := () })
  else if offset.toNat = emuregIolen then
    modEd fun ed => { ed with edIolen := val }
    return (true, { dev := () })
  else if offset.toNat = emuregOper then
    let r ← emufsDoOp a fuel val
    return (true, r)
  else if offset.toNat = emuregResult then
    let s ← get
    let r := emufsSetresult s.ed.toEmufsData val
    modEd fun ed => { ed with toEmufsData := r.dev }
    return (true, { dev := (), irq := r.irq })
  else return (false, { dev := () })

/-- What `emufs_init` leaves once the root directory is open. -/
def emufsInit (rootfd : Nat) (root : Ident) : Session where
  ed := {
    edResult := 0
    edBusy := 0
    edBusyresult := 0
    edBuf := fun _ => 0
    edHandle := 0
    edOffset := 0
    edIolen := 0
    edHandles := fun i =>
      if i.val = 0 then { ehFd := rootfd, ehIdent := root }
      else { ehFd := -1, ehIdent := { dev := 0, ino := 0 } } }
  fds := [.opened rootfd (some root)]
  used := []
  host := { cwd := .start, dirs := .behind }

/-! ## The device, its line and its events -/

structure EmufsDevice where
  session : Session
  line : Bool
  pending : List Arm

/-- The device after a call of `emufs_store`. -/
def EmufsDevice.after (d : EmufsDevice) (s : Session) (r : Done Unit) : EmufsDevice where
  session := s
  line := r.irq.getD d.line
  pending := d.pending ++ r.arm.toList

/-- The device after its event. -/
def EmufsDevice.done (d : EmufsDevice) (pending : List Arm) (r : Done EmufsData) : EmufsDevice where
  session := { d.session with ed := { d.session.ed with toEmufsData := r.dev } }
  line := r.irq.getD d.line
  pending := pending

inductive EmufsState where
  | running (d : EmufsDevice)
  | failed (e : EmufsFailure)

/-- What drives the device, with the answers of the host. -/
inductive EmufsAct where
  | store (offset val : BitVec 32) (a : Answers)
  | fire (arm : Arm)

/-- `used` begins anew in each step. A path that has not stopped changing is waited for. -/
inductive EmufsState.Step (bigEndian : Bool) : EmufsState → EmufsAct → EmufsState → Prop where
  | store {d : EmufsDevice} {offset val : BitVec 32} {a : Answers} {fuel : Nat} {found : Bool}
      {r : Done Unit} {s : Session} :
      (emufsStore bigEndian a fuel offset val).run { d.session with used := [] } =
        .ok (found, r) s →
      EmufsState.Step bigEndian (.running d) (.store offset val a) (.running (d.after s r))
  | storeFailed {d : EmufsDevice} {offset val : BitVec 32} {a : Answers} {fuel : Nat}
      {e : EmufsFailure} {s : Session} :
      (emufsStore bigEndian a fuel offset val).run { d.session with used := [] } = .error e s →
      e ≠ .changing →
      EmufsState.Step bigEndian (.running d) (.store offset val a) (.failed e)
  | fire {d : EmufsDevice} {before after : List Arm} {arm : Arm} {r : Done EmufsData} :
      d.pending = before ++ arm :: after → emufsDone d.session.ed.toEmufsData = .ok r →
      EmufsState.Step bigEndian (.running d) (.fire arm) (.running (d.done (before ++ after) r))
  | fireFailed {d : EmufsDevice} {before after : List Arm} {arm : Arm} {msg : String} :
      d.pending = before ++ arm :: after → emufsDone d.session.ed.toEmufsData = .error msg →
      EmufsState.Step bigEndian (.running d) (.fire arm) (.failed (.smoke msg))

def emufsStart (rootfd : Nat) (root : Ident) : EmufsState :=
  .running { session := emufsInit rootfd root, line := false, pending := [] }

end Sys161.Bus
