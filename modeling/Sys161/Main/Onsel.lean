import Sys161.Lib.Bag

/-!
# Hooks for file descriptors

The table of `onsel.c`. What a hook does is a parameter: it may put other
descriptors into the table and take some out, which it learns nothing from, and it
says whether it is to be taken out itself.
-/

namespace Sys161.Main

set_option autoImplicit false

/-- An entry with data, a function, and a function that gets the data back. It is not in use where
`sdFd` is negative. -/
structure Selection (α φ ρ : Type) where
  sdFd : Int
  sdData : α
  sdFunc : φ
  sdRfunc : Option ρ
deriving DecidableEq

/-- A call that a hook makes. -/
inductive Ask (α φ ρ : Type) where
  | onselect (s : Selection α φ ρ)
  | notonselect (fd : Int)
deriving DecidableEq

structure Answer (α φ ρ ω : Type) where
  asks : List (Ask α φ ρ)
  result : Int
  world : ω

structure Hooks (α φ ρ ω : Type) where
  func : φ → α → ω → Answer α φ ρ ω
  rfunc : ρ → α → ω → ω

/-- The table, the rest of the program, and what has been done to entries so far. -/
structure Onsel (α φ ρ ω : Type) where
  selections : List (Selection α φ ρ)
  world : ω
  deeds : List (Bag.Deed (Selection α φ ρ))

def maxsels : Nat := 64

section Table

variable {α φ ρ ω : Type} (H : Hooks α φ ρ ω)

def Onsel.start (w : ω) : Onsel α φ ρ ω where
  selections := []
  world := w
  deeds := []

def Selection.unused (s : Selection α φ ρ) : Selection α φ ρ := { s with sdFd := -1 }

def findsel (o : Onsel α φ ρ ω) : Option Nat :=
  match o.selections.findIdx? fun s => s.sdFd < 0 with
  | some i => some i
  | none => if o.selections.length < maxsels then some o.selections.length else none

/-- The entry is written over, or it is the one behind the last. -/
def onselect (o : Onsel α φ ρ ω) (s : Selection α φ ρ) : Except String (Onsel α φ ρ ω) :=
  match findsel o with
  | none => .error "Ran out of select() records in mainloop"
  | some ix =>
    .ok { o with
      selections := if ix < o.selections.length then o.selections.set ix s else o.selections ++ [s]
      deeds := o.deeds ++ [.entered s] }

/-- The call of `sd_rfunc`, if there is one. -/
def Hooks.giveBack (s : Selection α φ ρ) (w : ω) : ω :=
  match s.sdRfunc with
  | none => w
  | some rfunc => H.rfunc rfunc s.sdData w

def release (o : Onsel α φ ρ ω) (i : Nat) (s : Selection α φ ρ) : Onsel α φ ρ ω where
  selections := o.selections.set i s.unused
  world := H.giveBack s o.world
  deeds := o.deeds ++ [.left s]

def notonselect (o : Onsel α φ ρ ω) (fd : Int) : Except String (Onsel α φ ρ ω) :=
  match o.selections.findIdx? fun s => s.sdFd = fd with
  | none => .error s!"notonselect: fd {fd} not found"
  | some i =>
    match o.selections[i]? with
    | none => .ok o
    | some s => .ok (release H o i s)

def Ask.run (o : Onsel α φ ρ ω) : Ask α φ ρ → Except String (Onsel α φ ρ ω)
  | .onselect s => Main.onselect o s
  | .notonselect fd => Main.notonselect H o fd

/-- One turn of the loop that calls the hooks. What is behind the entry is looked up again after
the call. -/
def callSelection (o : Onsel α φ ρ ω) (i : Nat) (s : Selection α φ ρ) :
    Except String (Onsel α φ ρ ω) :=
  let a := H.func s.sdFunc s.sdData o.world
  (a.asks.foldlM (Ask.run H) { o with world := a.world, deeds := o.deeds ++ [.used s] }).map
    fun o =>
      if a.result = 0 then o
      else
        match o.selections[i]? with
        | none => o
        | some s => release H o i s

/-- The loop from an entry on, with as many turns as there may be. -/
def dispatch (ready : Int → Bool) :
    Nat → Nat → Onsel α φ ρ ω → Except String (Onsel α φ ρ ω)
  | 0, _, o => .ok o
  | turns + 1, i, o =>
    match o.selections[i]? with
    | none => .ok o
    | some s =>
      if s.sdFd < 0 ∨ ready s.sdFd = false then dispatch ready turns (i + 1) o
      else (callSelection H o i s).bind (dispatch ready turns (i + 1))

/-- The descriptors that `select` is given. -/
def polled (o : Onsel α φ ρ ω) (fd : Int) : Bool :=
  o.selections.any fun s => 0 ≤ s.sdFd ∧ s.sdFd = fd

/-- There is something to dispatch where `select` finds descriptors that are ready. -/
def tryselect (o : Onsel α φ ρ ω) (found : Option (Int → Bool)) : Except String (Onsel α φ ρ ω) :=
  match found with
  | none => .ok o
  | some ready => dispatch H (fun fd => polled o fd && ready fd) maxsels 0 o

inductive SelectOp (α φ ρ : Type) where
  | ask (a : Ask α φ ρ)
  | tryselect (found : Option (Int → Bool))

def Onsel.step (o : Onsel α φ ρ ω) : SelectOp α φ ρ → Except String (Onsel α φ ρ ω)
  | .ask a => a.run H o
  | .tryselect found => Main.tryselect H o found

end Table

end Sys161.Main
