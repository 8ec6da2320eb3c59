import Sys161.Bus.ConfigSizes

/-!
# The configuration file

`bus_config` reads the file line by line, finds the device and the slot of each
and initialises the device with its arguments. Options of the command line may
add arguments to the device in a slot.
-/

namespace Sys161.Bus

open CString Disk161

set_option autoImplicit false

/-- What the entries of `devtable` point to. -/
inductive DeviceInfo where
  | oldmainboard
  | mainboard
  | timer
  | disk
  | serial
  | screen
  | net
  | emufs
  | trace
  | random
deriving DecidableEq

structure BusDevice where
  devName : Argument
  devInfo : DeviceInfo
  devIscontroller : Bool
deriving DecidableEq

def devtable : List BusDevice :=
  [⟨"busctl".toList.map ch, .oldmainboard, true⟩,
    ⟨"oldmainboard".toList.map ch, .oldmainboard, true⟩,
    ⟨"mainboard".toList.map ch, .mainboard, true⟩,
    ⟨"timer".toList.map ch, .timer, false⟩,
    ⟨"disk".toList.map ch, .disk, false⟩,
    ⟨"serial".toList.map ch, .serial, false⟩,
    ⟨"screen".toList.map ch, .screen, false⟩,
    ⟨"nic".toList.map ch, .net, false⟩,
    ⟨"emufs".toList.map ch, .emufs, false⟩,
    ⟨"trace".toList.map ch, .trace, false⟩,
    ⟨"random".toList.map ch, .random, false⟩]

def findDev (name : Argument) : Option BusDevice := devtable.find? fun d => d.devName = name

def lamebusNslots : Nat := 32

def lamebusControllerSlot : Fin 32 := 31

def maxargs : Nat := 128

def configBufsize : Nat := 1024

/-! ## Lines and words -/

def eol : BitVec 8 := 0x0a

/-- `fgets` with room for so many characters: what it reads, and what it leaves. -/
def fgets : Nat → List (BitVec 8) → List (BitVec 8) × List (BitVec 8)
  | 0, f => ([], f)
  | _ + 1, [] => ([], [])
  | room + 1, c :: f =>
    if c = eol then ([c], f) else (c :: (fgets room f).1, (fgets room f).2)

/-- What `fgets` reads in so many calls, until it finds nothing. -/
def fgetsAll : Nat → List (BitVec 8) → List (List (BitVec 8))
  | 0, _ => []
  | calls + 1, f =>
    if f = [] then []
    else (fgets (configBufsize - 1) f).1 :: fgetsAll calls (fgets (configBufsize - 1) f).2

def isBlank (c : BitVec 8) : Bool := c == ch ' ' || c == 0x09 || c == 0x0d || c == eol

/-- The words of a line up to a comment, as many as there is room for. -/
def configWords (buf : List (BitVec 8)) : List Argument :=
  (strtok isBlank maxargs ((cstr buf).takeWhile (· ≠ ch '#'))).1

/-- The number of a slot, which `strtol` reads and an `int` holds. -/
def slotNumber (str : Argument) : Option (Fin 32) :=
  let slot := (BitVec.ofInt 32 (strtoll 0 str).value).toInt
  if (strtoll 0 str).rest ≠ [] then none
  else if h : 0 ≤ slot ∧ slot.toNat < lamebusNslots then some ⟨slot.toNat, h.2⟩
  else none

/-! ## Options of the command line -/

/-- The slot in front of the colon, and the argument behind it. -/
def extraSlot (extra : Argument) : Int := (atoi (extra.takeWhile (· ≠ ch ':'))).toInt

def extraArg (extra : Argument) : Argument := (extra.dropWhile (· ≠ ch ':')).tail

def checkExtra (extra : Argument) : Except String Unit :=
  if ch ':' ∉ extra then .error "Assertion failed: s"
  else if extraSlot extra < 0 ∨ extraSlot extra ≥ lamebusNslots then
    .error s!"-C {text extra}: Invalid slot number (0-31 allowed)"
  else .ok ()

/-- The loop over `configextra` that takes those for a slot. -/
def takeExtras (slot : Fin 32) :
    List (Option Argument) → List Argument → Except String (List Argument × List (Option Argument))
  | [], argv => .ok (argv, [])
  | none :: extras, argv =>
    (takeExtras slot extras argv).map fun r => (r.1, none :: r.2)
  | some extra :: extras, argv =>
    if extraSlot extra = slot.val then
      if argv.length ≥ maxargs then .error s!"-S {text extra}: too many args for this slot"
      else (takeExtras slot extras (argv ++ [extraArg extra])).map fun r => (r.1, none :: r.2)
    else (takeExtras slot extras argv).map fun r => (r.1, some extra :: r.2)

/-! ## The devices -/

/-- What `rand_init` gives to `srandom`: a number, or what the host's clock says. -/
inductive Seed where
  | number (seed : BitVec 32)
  | clock
deriving DecidableEq

def randOption (slot : Fin 32) (_seed : Seed) (arg : Argument) : Except String Seed :=
  match optionValue "seed=" arg with
  | some n => .ok (.number (BitVec.ofInt 32 (strtoll 10 n).value))
  | none =>
    if arg = "autoseed".toList.map ch then .ok .clock
    else .error s!"random: slot {slot.val}: invalid option {text arg}"

def randInit (slot : Fin 32) (args : List Argument) : Except String Seed :=
  args.foldlM (randOption slot) (.number 0)

/-- What `ldi_init` makes. The controllers and the random generators leave it in variables that
are not of the device. -/
inductive Devdata (δ : Type) where
  | board (c : MainboardConfig)
  | seeded (seed : Seed)
  | other (d : δ)

/-- What each serial device, each random generator and each network card puts in the place of, or
behind, what those before it left: whose the keys are, what `srandom` was given, and the order of
the cards in the select list and in the queue of events. -/
@[ext] structure Globals where
  onkeydata : Option (Fin 32)
  seed : Option Seed
  nics : List (Fin 32)
deriving DecidableEq

def Globals.setUp {δ : Type} (g : Globals) (slot : Fin 32) (dev : DeviceInfo) (d : Devdata δ) :
    Globals where
  onkeydata := if dev = .serial then some slot else g.onkeydata
  seed := match d with
    | .seeded seed => some seed
    | _ => g.seed
  nics := if dev = .net then g.nics ++ [slot] else g.nics

@[ext] structure BusConfig (δ : Type) where
  devices : Fin 32 → Option (DeviceInfo × Devdata δ)
  board : MainboardConfig
  globals : Globals

def BusConfig.zeroed (δ : Type) : BusConfig δ where
  devices := fun _ => none
  board := { busRamsize := 0, tmpNcpus := 0, ncores := 0 }
  globals := { onkeydata := none, seed := none, nics := [] }

section Devices

variable {δ : Type} (init : DeviceInfo → Fin 32 → List Argument → Except String δ)
  (configfile : String)

/-- `ldi_init` with the arguments behind the name of the device. -/
def ldiInit (dev : DeviceInfo) (slot : Fin 32) (args : List Argument) : Except String (Devdata δ) :=
  match dev with
  | .oldmainboard => (commonmainboardInit true args).map .board
  | .mainboard => (commonmainboardInit false args).map .board
  | .random => (randInit slot args).map .seeded
  | _ => (init dev slot args).map .other

def BusConfig.plug (b : BusConfig δ) (slot : Fin 32) (dev : DeviceInfo) (d : Devdata δ) :
    BusConfig δ where
  devices := fun s => if s = slot then some (dev, d) else b.devices s
  board := match d with
    | .board c => c
    | _ => b.board
  globals := b.globals.setUp slot dev d

/-- The variables of `bus_config` between two lines. -/
structure Reading (δ : Type) where
  bus : BusConfig δ
  configextra : List (Option Argument)
  line : Nat

/-- A line with words, from the check of the slot on. -/
def configDevice (r : Reading δ) (slotWord : Argument) (rest : List Argument) :
    Except String (Reading δ) :=
  match slotNumber slotWord with
  | none =>
    .error s!"config {configfile}: line {r.line}: Invalid slot \x60{text slotWord}\x27 (should be 0-31)"
  | some slot =>
    match rest with
    | [] => .error s!"config {configfile}: line {r.line}: slot {slot.val}: No device"
    | name :: args =>
      if (r.bus.devices slot).isSome then
        .error s!"config {configfile}: line {r.line}: slot {slot.val}: Already in use"
      else
        match findDev name with
        | none =>
          .error s!"config {configfile}: line {r.line}: slot {slot.val}: No such hardware \x60{text name}\x27"
        | some dev => do
          let (argv, extras) ← takeExtras slot r.configextra (slotWord :: name :: args)
          if dev.devIscontroller ≠ decide (slot = lamebusControllerSlot) then
            throw s!"config {configfile}: line {r.line}: slot {slot.val}: {text name}: Bus controller must go in slot 31"
          let d ← ldiInit init dev.devInfo slot (argv.drop 2)
          return { bus := r.bus.plug slot dev.devInfo d, configextra := extras, line := r.line }

def configLine (r : Reading δ) (buf : List (BitVec 8)) : Except String (Reading δ) :=
  let r := { r with line := r.line + 1 }
  let argv := configWords buf
  if argv.length ≥ maxargs then .error s!"config {configfile}: line {r.line}: Too many args"
  else
    match argv with
    | [] => .ok r
    | slotWord :: rest => configDevice init configfile r slotWord rest

/-- `bus_config`, where the file has these contents, if it can be opened. -/
def busConfigFile (extras : List Argument) (file : Option (List (BitVec 8))) :
    Except String (BusConfig δ) := do
  extras.forM checkExtra
  match file with
  | none => throw s!"Cannot open config file {configfile}"
  | some f =>
    let r ← (fgetsAll f.length f).foldlM (configLine init configfile)
      { bus := BusConfig.zeroed δ, configextra := extras.map some, line := 0 }
    match r.configextra.reduceOption with
    | extra :: _ => throw s!"-C {text extra}: No device in that slot"
    | [] =>
      let _ ← ramChecked configfile r.bus.board
      return r.bus

end Devices

end Sys161.Bus
