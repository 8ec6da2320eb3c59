import Sys161.Bus.DevSerial
import Sys161.Lib.Ring
import Sys161.Lib.Runs

/-!
# The serial port between the keyboard and the guest

The port with its interrupt line, its events on the queue and the time. A key
is seen while the main loop selects: the clock then runs ahead by the time
slept so far, and falls back at the end.
-/

namespace Sys161.Bus

set_option autoImplicit false

/-- An event of the port on the queue. -/
structure SerialEvent where
  vtime : BitVec 64
  arm : Arm

structure Serial where
  sd : SerData
  overrun : Bool
  line : Bool
  now : BitVec 64
  pending : List SerialEvent

/-- What `serial_init` leaves, in memory of any contents. -/
def Serial.start (inbuf : Fin 512 → BitVec 8) (now : BitVec 64) : Serial where
  sd := { serialInit with sdInbuf := inbuf }
  overrun := false
  line := false
  now := now
  pending := []

/-- The clock takes over what a function of the port has done at a time. -/
def Serial.after (s : Serial) (r : Done SerData) (vnow : BitVec 64)
    (jitter : BitVec 64 → BitVec 64) : Serial where
  sd := r.dev
  overrun := s.overrun
  line := r.irq.getD s.line
  now := s.now
  pending := s.pending ++ (r.arm.map fun a => ⟨vnow + (a.nsecs + jitter a.nsecs), a⟩).toList

@[simp] theorem Serial.after_sd (s : Serial) (r : Done SerData) (vnow : BitVec 64)
    (jitter : BitVec 64 → BitVec 64) : (s.after r vnow jitter).sd = r.dev := rfl

@[simp] theorem Serial.after_now (s : Serial) (r : Done SerData) (vnow : BitVec 64)
    (jitter : BitVec 64 → BitVec 64) : (s.after r vnow jitter).now = s.now := rfl

/-- `ta_func(ta_data, ta_code)`. -/
def serialFire (sd : SerData) (a : Arm) : Except String (Done SerData) :=
  match a.func with
  | .serialWritedone => .ok (serialWritedone sd)
  | .serialPushinput => .ok (serialPushinput sd)
  | _ => .error "Segmentation fault"

/-- What drives the port. -/
inductive SerialAct where
  | type (ch : BitVec 32) (ahead : BitVec 64)
  | fetch (offset : BitVec 32)
  | store (offset val : BitVec 32)
  | fire (e : SerialEvent)
  | advance (nsecs : BitVec 64)

/-- The character register between two states: it is assigned just where the head of the ring moves
on. -/
def SerData.placed (sd sd' : SerData) : Option (BitVec 32) :=
  if sd'.sdInbufhead = sd.sdInbufhead then none else some sd'.sdReadch

/-- A step, with its time and what it puts into the character register. -/
structure SerialLabel where
  act : SerialAct
  vnow : BitVec 64
  placed : Option (BitVec 32)

inductive Serial.Step : Serial → SerialLabel → Serial → Prop where
  | type {s : Serial} {ch : BitVec 32} {ahead : BitVec 64} {h : Host} {overrun : Bool}
      {r : Done SerData} :
      serialInput s.overrun s.sd ch = (overrun, r) →
      Serial.Step s ⟨.type ch ahead, s.now + ahead, s.sd.placed r.dev⟩
        (Serial.after { s with overrun := overrun } r (s.now + ahead) h.jitter)
  | fetch {s : Serial} {offset : BitVec 32} :
      Serial.Step s ⟨.fetch offset, s.now, none⟩ { s with sd := (serialFetch s.sd offset).2 }
  | store {s : Serial} {offset val : BitVec 32} {h : Host} {r : Done SerData}
      {putc : Option (BitVec 32)} :
      serialStore s.sd offset val = some (r, putc) →
      Serial.Step s ⟨.store offset val, s.now, none⟩ (s.after r s.now h.jitter)
  | fire {s : Serial} {before after : List SerialEvent} {e : SerialEvent} {h : Host} {r : Done SerData} :
      s.pending = before ++ e :: after → e.vtime ≤ s.now → serialFire s.sd e.arm = .ok r →
      Serial.Step s ⟨.fire e, s.now, s.sd.placed r.dev⟩
        (Serial.after { s with pending := before ++ after } r s.now h.jitter)
  | advance {s : Serial} {nsecs : BitVec 64} :
      Serial.Step s ⟨.advance nsecs, s.now + nsecs, none⟩ { s with now := s.now + nsecs }

end Sys161.Bus
