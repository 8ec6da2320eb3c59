import Mathlib.Algebra.Order.Group.Nat
import Sys161.Main.Samplers

/-!
# The profiler

`prof.c`: the text that is profiled, and the records of the file that is
written. The text is that of the executable segments of the kernel.
-/

namespace Sys161.Main

open Bus

set_option autoImplicit false

abbrev Word := BitVec 32

structure CgEntry where
  gceFrom : Word
  gceTo : Word
  gceCount : Word
deriving DecidableEq

/-- What the sampler uses, and the rest. A bin has its entries from the head of its list on. -/
structure Profiler where
  prof : Prof
  profTextend : Word
  profCg : Word → List CgEntry
  profOn : Bool

def Profiler.initial : Profiler where
  prof := { profActive := false, profTextbase := 0, profSamplenum := 0,
            profSampledata := fun _ => 0 }
  profTextend := 0
  profCg := fun _ => []
  profOn := false

/-- The size that a segment is taken to have, which is meant to be rounded up. -/
def roundedSize (textsize : Word) : Word := (textsize + 16 + 1) &&& ~~~16

def textCorrupt : String := "Profiling text region corrupt"

def profAddtext (p : Profiler) (textbase textsize : Word) : Except String Profiler :=
  if roundedSize textsize = 0 then
    .ok p
  else
    let textend := textbase + roundedSize textsize
    let (base, last) :=
      if p.prof.profTextbase = 0 ∧ p.profTextend = 0 then (textbase, textend)
      else
        (if textbase < p.prof.profTextbase then textbase else p.prof.profTextbase,
          if textend > p.profTextend then textend else p.profTextend)
    if last ≤ base then .error textCorrupt
    else .ok { p with prof := { p.prof with profTextbase := base }, profTextend := last }

/-- There is memory for the bins. -/
def profSetup (p : Profiler) : Except String Profiler :=
  if p.prof.profTextbase = 0 ∧ p.profTextend = 0 then
    .ok p
  else if p.profTextend ≤ p.prof.profTextbase then
    .error textCorrupt
  else
    .ok { p with
      prof := { p.prof with
        profActive := true
        profSamplenum := (p.profTextend - p.prof.profTextbase) / 16
        profSampledata := fun _ => 0 }
      profCg := fun _ => []
      profOn := true }

/-- The base and the size of a segment. -/
abbrev Segment := Word × Word

/-- The executable segments of the kernel, and then, where profiling is asked for, the bins. -/
def profStart (profiling : Bool) (segs : List Segment) : Except String Profiler := do
  let p ← segs.foldlM (fun p s => profAddtext p s.1 s.2) Profiler.initial
  if profiling then profSetup p else .ok p

/-! ## The file -/

structure GmonHistogram where
  ghhLowpc : Word
  ghhHighpc : Word
  ghhSize : Word
  ghhHz : Word
  ghhName : String
  ghhAbbrev : Char
  samples : List (BitVec 16)
deriving DecidableEq

inductive GmonRecord where
  | header (gfhVersion : Word)
  | histogram (ghh : GmonHistogram)
  | callgraph (gce : CgEntry)
deriving DecidableEq

def Profiler.bins (p : Profiler) : List Word :=
  (List.range p.prof.profSamplenum.toNat).map (BitVec.ofNat 32)

def Profiler.histogram (p : Profiler) : GmonHistogram where
  ghhLowpc := p.prof.profTextbase
  ghhHighpc := p.profTextend
  ghhSize := p.prof.profSamplenum
  ghhHz := 1000
  ghhName := "seconds"
  ghhAbbrev := 's'
  samples := p.bins.map p.prof.profSampledata

/-- The records of the file. There is none where profiling has not been set up. -/
def profWrite (p : Profiler) : List GmonRecord :=
  if p.profOn then
    .header 1 :: .histogram p.histogram :: (p.bins.flatMap p.profCg).map .callgraph
  else
    []

end Sys161.Main
