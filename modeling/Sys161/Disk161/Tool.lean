import Sys161.Disk161.Files
import Sys161.Lib.CString

/-!
# The disk tool

`disk161` makes disk images and changes their size. Sizes are of type `off_t`,
which has 64 bits; a product or sum that does not fit wraps.
-/

namespace Sys161.Disk161

open CString

set_option autoImplicit false

def sectorsize : Nat := 512

def minsize : Int := 128 * sectorsize

def maxsize : Int := 0x100000000

def headersize : Nat := sectorsize

def headerstring : List Byte := "System/161 Disk Image".toList.map ch

/-- The value of an `off_t`. -/
def offT (n : Int) : Int := n.bmod (2 ^ 64)

/-- A string of the command line in a message. -/
def text (s : List Byte) : String := String.ofList (s.map fun c => Char.ofNat c.toNat)

section Wrappers

variable (h : Host) (file : String)

def doopen (creat trunc : Bool) : M Unit := do
  match ← h.openRdwr creat trunc with
  | some e => die s!"disk161: {file}: {strerror e}"
  | none => return ()

def doread (len : Nat) : M (List Byte) := do
  match ← h.read len with
  | .error e => die s!"disk161: {file}: read: {strerror e}"
  | .ok buf =>
    if buf.length ≠ len then
      die s!"disk161: {file}: reaD: Unexpected EOF"
    else
      return buf

def dowrite (buf : List Byte) : M Unit := do
  match ← h.write buf with
  | .error e => die s!"disk161: {file}: write: {strerror e}"
  | .ok r =>
    if r ≠ buf.length then
      die s!"disk161: {file}: write: Unexpected short count {r} of {buf.length}"

/-- A failure is reported, and does not end the program. -/
def dolseek (pos : Nat) : M Unit := do
  match ← h.lseek pos with
  | some e => complain s!"disk161: {file}: lseek: {strerror e}"
  | none => return ()

def dotruncate (size : Int) : M Unit := do
  match ← h.ftruncate size with
  | some e => die s!"disk161: {file}: {strerror e}"
  | none => return ()

def dofstat : M Nat := do
  match ← h.fstat with
  | .error e => die s!"disk161: {file}: fstat: {strerror e}"
  | .ok size => return size

/-- `doflock`, where a call of `flock` comes to this. -/
def doflock (error : Option Errno) : M Unit := do
  match error with
  | some .again => die s!"disk161: {file}: Locked by another process"
  | some e => die s!"disk161: {file}: flock: {strerror e}"
  | none => return ()

end Wrappers

/-! ## Sizes -/

/-- The size of a number with a suffix, if it is one. -/
def suffixed (value : Int) (suffix : List Byte) : Option Int :=
  if suffix = [] ∨ suffix = [ch 'b'] then some value
  else if suffix = [ch 's'] then some (offT (value * sectorsize))
  else if suffix = [ch 'k'] ∨ suffix = [ch 'K'] then some (offT (value * 1024))
  else if suffix = [ch 'm'] ∨ suffix = [ch 'M'] then some (offT (offT (value * 1024) * 1024))
  else if suffix = [ch 'g'] ∨ suffix = [ch 'G'] then
    some (offT (offT (offT (value * 1024) * 1024) * 1024))
  else none

def getsize (str : List Byte) : M Int := do
  let n := strtoll 0 str
  if n.erange then
    die s!"disk161: {text str}: Invalid number"
  else
    match suffixed n.value n.rest with
    | some size => return size
    | none => die s!"disk161: Invalid size suffix {text n.rest}"

def checksize (size : Int) : M Unit := do
  if size.tmod sectorsize ≠ 0 then
    complain s!"Size {size} not an even number of sectors"
    let size := sectorsize * (size + sectorsize - 1).tdiv sectorsize
    die s!"Try {size} instead."
  else if size < minsize then
    die s!"Size {size} too small"
  else if size ≥ maxsize then
    die s!"Size {size} too large"

/-! ## Headers -/

/-- `strcmp` finds the string of the header in a block whose last byte is cleared. -/
def headed (buf : List Byte) : Bool := cstr (buf.set (headersize - 1) 0) = headerstring

def checkheader (h : Host) (file : String) : M Unit := do
  let buf ← doread h file sectorsize
  if headed buf = false then
    die s!"disk161: {file}: Not a System/161 disk image"

def header : List Byte := headerstring ++ List.replicate (headersize - headerstring.length) 0

def writeheader (h : Host) (file : String) : M Unit := do
  dolseek h file 0
  dowrite h file header

/-! ## Commands -/

def docreate (h : Host) (file : String) (sizespec : List Byte) (doforce : Bool) : M Unit := do
  if doforce = false ∧ (← get).file.isSome ∧ h.readable then
    die s!"disk161: {file}: {strerror .exist}"
  else
    doopen h file true true
    doflock file h.lockError
    let size ← getsize sizespec
    checksize size
    dotruncate h file (headersize + size)
    writeheader h file
    doflock file h.unlockError

/-- A line of `info`. -/
def amounts (file what : String) (amt : Nat) : String :=
  s!"{file} {what} {amt} bytes ({amt / sectorsize} sectors; {amt / 1024}K; {amt / (1024 * 1024)}M)"

/-- The file is not smaller than the header that has been read. -/
def doinfo (h : Host) (file : String) : M Unit := do
  doopen h file false false
  checkheader h file
  let size ← dofstat h file
  print (amounts file "size" (size - headersize))
  print (amounts file "spaceused" (h.blocks * 512))

inductive Mode where
  | set
  | plus
  | minus
  deriving DecidableEq

/-- What the sign of a size says, and the rest. -/
def modeOf : List Byte → Mode × List Byte
  | [] => (.set, [])
  | c :: s => if c = ch '+' then (.plus, s) else if c = ch '-' then (.minus, s) else (.set, c :: s)

def newsize (mode : Mode) (sizespec : List Byte) (oldsize size : Int) : M Int := do
  match mode with
  | .set => return size
  | .plus =>
    if offT (oldsize + size) < oldsize then
      die s!"+{text sizespec}: Result too large"
    else
      return offT (oldsize + size)
  | .minus =>
    if oldsize < size then
      die s!"-{text sizespec}: Result too small"
    else
      return offT (oldsize - size)

def doresize (h : Host) (file : String) (sizespec : List Byte) : M Unit := do
  let (mode, sizespec) := modeOf sizespec
  let size ← getsize sizespec
  doopen h file false false
  doflock file h.lockError
  checkheader h file
  let oldsize := (← dofstat h file) - (headersize : Int)
  let size ← newsize mode sizespec oldsize size
  checksize size
  dotruncate h file (headersize + size)
  doflock file h.unlockError

end Sys161.Disk161
