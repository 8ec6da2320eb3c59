import Sys161.Bus.Event

/-! # The performance meter and the profiler: their timed events -/

namespace Sys161.Bus

set_option autoImplicit false

/-- A meter connection; a client that has gone away leaves a negative `fd`. -/
structure Meter where
  interval : BitVec 64
  fd : Int

def meterUpdate (m : Meter) : Done Meter :=
  if m.fd < 0 then { dev := m }
  else
    { dev := m
      arm := some { nsecs := m.interval, code := 0, func := .meterUpdate, desc := "perfmeter" } }

def profileNsecs : BitVec 64 := 1000000

structure Prof where
  profActive : Bool
  profTextbase : BitVec 32
  profSamplenum : BitVec 32
  profSampledata : BitVec 32 → BitVec 16

def Prof.addr2bin (p : Prof) (addr : BitVec 32) : BitVec 32 := (addr - p.profTextbase) / 16

def profSample (p : Prof) (pc : BitVec 32) : Done Prof :=
  let arm : Arm :=
    { nsecs := profileNsecs, code := 0, func := .profSample, desc := "profiling sampler" }
  if p.profActive then
    let bin := p.addr2bin pc
    if bin < p.profSamplenum then
      { dev := { p with
          profSampledata :=
            Function.update p.profSampledata bin (p.profSampledata bin + 1) }
        arm := some arm }
    else { dev := p, arm := some arm }
  else { dev := p, arm := some arm }

end Sys161.Bus
