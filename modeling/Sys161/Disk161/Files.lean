import Sys161.Lib.Exec

/-!
# Files of the host

The calls that the disk tool and the disk device make on a file of the host. The
host decides which of them fail; a program that fails has done what it had done.
-/

namespace Sys161.Disk161

set_option autoImplicit false

abbrev Byte := BitVec 8

inductive Errno where
  | again
  | noent
  | exist
  | inval
  | io
  | other (msg : String)
  deriving DecidableEq

def strerror : Errno → String
  | .again => "Resource temporarily unavailable"
  | .noent => "No such file or directory"
  | .exist => "File exists"
  | .inval => "Invalid argument"
  | .io => "Input/output error"
  | .other msg => msg

/-- What the host makes of the calls of one program. -/
structure Host where
  openError : Option Errno := none
  /-- Creating the file where it has not been found. -/
  createError : Option Errno := none
  /-- The file can be opened for reading. -/
  readable : Bool := true
  lockError : Option Errno := none
  unlockError : Option Errno := none
  lseekError : Option Errno := none
  readError : Option Errno := none
  writeError : Option Errno := none
  /-- The bytes that there is room for. -/
  writeMost : Nat := 512
  truncateError : Option Errno := none
  fstatError : Option Errno := none
  blocks : Nat := 0
  fd : Nat := 3

structure Process where
  file : Option (List Byte)
  offset : Nat
  stdout : List String
  stderr : List String

/-- What is thrown is the status of `exit`. -/
abbrev M := EStateM Nat Process

def complain (msg : String) : M Unit := modify fun p => { p with stderr := p.stderr ++ [msg] }

def print (msg : String) : M Unit := modify fun p => { p with stdout := p.stdout ++ [msg] }

def die {α : Type} (msg : String) : M α := do
  complain msg
  throw 1

/-- The contents of the open file. -/
def contents : M (List Byte) := do return (← get).file.getD []

def setContents (bytes : List Byte) : M Unit := modify fun p => { p with file := some bytes }

/-- `open` for reading and writing, at the start of the file. -/
def Host.openRdwr (h : Host) (creat trunc : Bool) : M (Option Errno) := do
  if h.openError.isSome then
    return h.openError
  else if (← get).file = none ∧ creat = false then
    return some .noent
  else
    let bytes ← contents
    setContents (if trunc then [] else bytes)
    modify fun p => { p with offset := 0 }
    return none

def Host.lseek (h : Host) (pos : Nat) : M (Option Errno) := do
  if h.lseekError.isNone then
    modify fun p => { p with offset := pos }
  return h.lseekError

def Host.read (h : Host) (len : Nat) : M (Except Errno (List Byte)) := do
  match h.readError with
  | some e => return .error e
  | none =>
    let bytes := ((← contents).drop (← get).offset).take len
    modify fun p => { p with offset := p.offset + bytes.length }
    return .ok bytes

/-- A file with bytes written over it, with zeros where it ended before their place. -/
def overwrite (bytes : List Byte) (pos : Nat) (buf : List Byte) : List Byte :=
  (bytes ++ List.replicate (pos - bytes.length) 0).take pos ++ buf ++
    bytes.drop (pos + buf.length)

/-- The answer is the number of bytes. -/
def Host.write (h : Host) (buf : List Byte) : M (Except Errno Nat) := do
  match h.writeError with
  | some e => return .error e
  | none =>
    let done := buf.take h.writeMost
    setContents (overwrite (← contents) (← get).offset done)
    modify fun p => { p with offset := p.offset + done.length }
    return .ok done.length

/-- A file cut off, or made longer with zeros. -/
def resized (bytes : List Byte) (size : Nat) : List Byte :=
  bytes.take size ++ List.replicate (size - bytes.length) 0

def Host.ftruncate (h : Host) (size : Int) : M (Option Errno) := do
  if h.truncateError.isSome then
    return h.truncateError
  else if size < 0 then
    return some .inval
  else
    setContents (resized (← contents) size.toNat)
    return none

/-- `st_size`. -/
def Host.fstat (h : Host) : M (Except Errno Nat) := do
  match h.fstatError with
  | some e => return .error e
  | none => return .ok (← contents).length

end Sys161.Disk161
