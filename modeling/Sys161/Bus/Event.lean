import Sys161.Clock.MainLoop

/-!
# What devices and the event queue have to do with each other

The functions that are ever put on the queue, the data they get, and what a
device function can do besides changing its own data.
-/

namespace Sys161.Bus

open Clock MainLoop

set_option autoImplicit false

inductive Func where
  | timerInterrupt
  | serialWritedone
  | serialPushinput
  | keepalive
  | triggersend
  | emufsDone
  | diskSeekdone
  | diskWaitdone
  | dopoweroff
  | meterUpdate
  | profSample
deriving DecidableEq

/-- The bus has slots. -/
instance neZero_slots : NeZero 32 := ⟨by decide⟩

/-- The pointers handed to `schedule_event`: the device in a slot, or a meter connection. -/
inductive Data where
  | slot (i : Fin 32)
  | meter (m : Nat)
deriving DecidableEq

/-- A call of `schedule_event` by a device, for itself. -/
structure Arm where
  nsecs : BitVec 64
  code : BitVec 32
  func : Func
  desc : String

def Arm.request (a : Arm) (data : Option Data) (jitter : BitVec 64 → BitVec 64) :
    Request Func Data where
  nsecs := a.nsecs
  jitter := jitter a.nsecs
  data := data
  code := a.code
  func := a.func
  desc := a.desc

/-- A read or write of the host's file behind a device. -/
structure HostIo where
  write : Bool
  offset : Nat
  length : Nat

/-- The outcome of a device function. Its last `raise_irq` or `lower_irq` is `irq`. -/
structure Done (α : Type) where
  dev : α
  irq : Option Bool := none
  arm : Option Arm := none
  hostIo : Option HostIo := none
  msgs : List String := []
  hung : Option String := none

/-- The calls into the clock and the cpu; `hang` stops the cpu and enters the debugger. -/
def Done.calls {α : Type} (r : Done α) (data : Option Data) (jitter : BitVec 64 → BitVec 64) :
    List (Effect Func Data) :=
  (if r.hung.isSome then [.stopcycling, .enterDebugger] else []) ++
    (r.arm.map fun a => Effect.schedule (a.request data jitter)).toList

/-- What `sendto` returns: on an error, whether it is one of those that mean the hub is not
there, and its text. -/
inductive SendResult where
  | sent
  | failed (noCarrier : Bool) (error : String)

/-- What the host does while a handler runs. `random()` adds up to one percent to a delay. -/
structure Host where
  jitter : BitVec 64 → BitVec 64
  jitter_le : ∀ n, jitter n ≤ n / 100
  sendto : SendResult
  ioError : Bool
  sector : Nat → BitVec 8
  rotdelay : BitVec 32
  pc : BitVec 32

def stillHost : Host where
  jitter _ := 0
  jitter_le n := by simp [BitVec.le_def]
  sendto := .sent
  ioError := false
  sector _ := 0
  rotdelay := 0
  pc := 0

/-- `htoc32` into a buffer: byte `k` of a word stored in the byte order of the cpu. -/
def htoc32 (bigEndian : Bool) (val : BitVec 32) (k : Nat) : BitVec 8 :=
  val.extractLsb' (8 * if bigEndian then 3 - k else k) 8

/-- `*(uint32_t *)(buf + offset) = htoc32(val)`. -/
def putWord (bigEndian : Bool) (buf : Nat → BitVec 8) (offset : Nat) (val : BitVec 32) :
    Nat → BitVec 8 :=
  fun i => if offset ≤ i ∧ i < offset + 4 then htoc32 bigEndian val (i - offset) else buf i

/-- `ctoh32(*(uint32_t *)(buf + offset))`. -/
def getWord (bigEndian : Bool) (buf : Nat → BitVec 8) (offset : Nat) : BitVec 32 :=
  if bigEndian then buf offset ++ buf (offset + 1) ++ buf (offset + 2) ++ buf (offset + 3)
  else buf (offset + 3) ++ buf (offset + 2) ++ buf (offset + 1) ++ buf offset

theorem map_eq_ok {α β : Type} {f : α → β} {x : Except String α} {r : β}
    (h : x.map f = .ok r) : ∃ a, x = .ok a ∧ f a = r := by
  cases x with
  | error e => cases h
  | ok a =>
    cases h
    exact ⟨a, rfl, rfl⟩

theorem bind_eq_ok {α β : Type} {f : α → Except String β} {x : Except String α} {r : β}
    (h : (x >>= f) = .ok r) : ∃ a, x = .ok a ∧ f a = .ok r := by
  cases x with
  | error e => cases h
  | ok a => exact ⟨a, rfl, h⟩

end Sys161.Bus
