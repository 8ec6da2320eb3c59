import Sys161.Disk161.Tool

/-!
# The image of a disk device

How the disk device opens its image. The texts are those of `msg`, without the
name of the program.
-/

namespace Sys161.Disk161

set_option autoImplicit false

/-- The value of `dd_totsectors`. -/
abbrev Sectors := BitVec 32

/-- `die` of the simulator. -/
def sysDie {α : Type} (msg : String) : M α := do
  complain msg
  throw 2

section Slot

variable (h : Host) (slot : Nat) (filename : String)

/-- `doread` of the device, which reads zeros where the file ends. -/
def deviceRead (offset len : Nat) : M (Except Errno (List Byte)) := do
  match ← h.lseek offset with
  | some e => return .error e
  | none =>
    match ← h.read len with
    | .error e => return .error e
    | .ok bytes => return .ok (bytes ++ List.replicate (len - bytes.length) 0)

/-- `dowrite` of the device. What has been written is not all where there is no more room. -/
def deviceWrite (offset : Nat) (buf : List Byte) : M (Option Errno) := do
  match ← h.lseek offset with
  | some e => return some e
  | none =>
    match ← h.write buf with
    | .error e => return some e
    | .ok r =>
      if r < buf.length then
        complain "disk: unexpected short write"
        complain s!"disk: fd {h.fd}, offset {offset}, tot {r}, tried {buf.length - r}"
        return some .io
      else
        return none

def readheader : M Unit := do
  match ← deviceRead h 0 headersize with
  | .error e => sysDie s!"disk: slot {slot}: {filename}: Reading header: {strerror e}"
  | .ok buf =>
    if headed buf = false then
      sysDie s!"disk: slot {slot}: {filename} is not a disk image"

/-- `writeheader` of the device, with the size that it is configured to have. -/
def createHeader (configsectors : Sectors) : M Unit := do
  match ← deviceWrite h 0 header with
  | some e => sysDie s!"disk: slot {slot}: {filename}: Write of header: {strerror e}"
  | none =>
    match ← h.ftruncate (configsectors.toNat * sectorsize + headersize) with
    | some e => sysDie s!"disk: slot {slot}: {filename}: ftruncate: {strerror e}"
    | none => return ()

def diskLock : M Unit := do
  match h.lockError with
  | some .again => sysDie s!"disk: slot {slot}: {filename}: Locked by another process"
  | some e => sysDie s!"disk: slot {slot}: {filename}: flock: {strerror e}"
  | none => return ()

/-- The file is opened, or made; the answer is whether it was made. -/
def openImage : M Bool := do
  match ← h.openRdwr false false with
  | none => return false
  | some .noent =>
    match if (← get).file.isSome then some .exist else h.createError with
    | some e => sysDie s!"disk: slot {slot}: {filename}: {strerror e}"
    | none =>
      setContents []
      modify fun p => { p with offset := 0 }
      return true
  | some e => sysDie s!"disk: slot {slot}: {filename}: {strerror e}"

/-- The answer is what `dd_totsectors` is set to. -/
def diskOpen (configsectors : Sectors) : M Sectors := do
  let create ← openImage h slot filename
  diskLock h slot filename
  if create then
    createHeader h slot filename configsectors
  else
    readheader h slot filename
  match ← h.fstat with
  | .error e => sysDie s!"disk: slot {slot}: {filename}: fstat: {strerror e}"
  | .ok size =>
    if size < headersize then
      sysDie s!"disk: slot {slot}: {filename}: No header block"
    else if size - headersize > 0xffffffff then
      complain s!"disk: slot {slot}: {filename}: Image too large; using first 4G"
      return BitVec.ofNat 32 (0x100000000 / sectorsize)
    else
      return BitVec.ofNat 32 ((size - headersize) / sectorsize)

end Slot

end Sys161.Disk161
