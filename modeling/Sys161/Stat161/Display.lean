import Mathlib.Logic.Function.Basic
import Sys161.Lib.Decimal

/-!
# What the meter client shows

`processline` of `stat161.c` and what it calls. The client keeps what it has
written, in order; a line with another version of the protocol ends it.
-/

namespace Sys161.Stat161

open CString

set_option autoImplicit false

abbrev Text := List (BitVec 8)

def ascii (s : String) : Text := s.toList.map ch

def maxfields : Nat := 16

def maxheaderlen : Nat := 16

def protoVersion : BitVec 32 := 2

structure Field where
  lastval : BitVec 64
  width : BitVec 32
  header : Text

inductive Written where
  | stdout (text : Text)
  | stderr (text : Text)

structure Client where
  fields : Nat → Field
  nfields : Nat
  linesSinceHeader : Nat
  warned : Bool
  written : List Written

variable (c : Client)

def Client.printf (text : Text) : Client := { c with written := c.written ++ [.stdout text] }

def Client.complain (text : Text) : Client := { c with written := c.written ++ [.stderr text] }

/-- The client as it connects. That it has warned is not forgotten. -/
def reset : Client :=
  { c with
    fields := fun _ => { lastval := 0, width := 0, header := ascii "??" }
    nfields := 0
    linesSinceHeader := 10000 }

def getval (s : Text) : BitVec 64 :=
  (s.takeWhile fun x => ch '0' ≤ x && x ≤ ch '9').foldl
    (fun val x => val * 10 + (x.setWidth 64 - 48)) 0

def atoi (s : Text) : BitVec 32 := BitVec.ofInt 32 (strtoll 10 s).value

/-- `%d`. -/
def signedText (n : BitVec 32) : Text :=
  if n.toInt < 0 then ch '-' :: decimal n.toInt.natAbs else decimal n.toInt.natAbs

/-- `%-*s`. The width is taken as an `int`, and a minus before it is one more flag. -/
def padded (width : BitVec 32) (s : Text) : Text :=
  s ++ List.replicate (width.toInt.natAbs - s.length) (ch ' ')

/-- A width that a text has made greater. -/
def widened (width : BitVec 32) (s : Text) : BitVec 32 :=
  if s.length > width.toNat then BitVec.ofNat 32 s.length else width

def setheaders (words : List Text) : Client :=
  let c :=
    if words.length > maxfields ∧ c.warned = false then
      { c.complain (ascii "stat161: Too many data fields; increase MAXFIELDS and recompile\n") with
        warned := true }
    else
      c
  let words := words.take maxfields
  { c with
    fields := fun i =>
      match words[i]? with
      | some word =>
        let header := word.take (maxheaderlen - 1)
        { c.fields i with width := widened (c.fields i).width header, header := header }
      | none => c.fields i
    nfields := words.length }

def setwidths (words : List Text) : Client :=
  { c with
    fields := fun i =>
      match words[i]? with
      | some word =>
        if i < maxfields ∧ atoi word > (c.fields i).width then
          { c.fields i with width := atoi word }
        else
          c.fields i
      | none => c.fields i }

def showheaders : Client :=
  let headers := (List.range c.nfields).map fun i =>
    padded (c.fields i).width (c.fields i).header ++ [ch ' ']
  { (c.printf (ascii "\n" ++ headers.flatten ++ ascii "\n")) with linesSinceHeader := 0 }

/-- One turn of the last loop in `showdata`. -/
def showword (i : Nat) (word : Text) : Client :=
  let val := getval word
  let tmp := decimal (val - (c.fields i).lastval).toNat
  let width := widened (c.fields i).width tmp
  { (c.printf (padded width tmp ++ [ch ' '])) with
    fields := Function.update c.fields i { c.fields i with lastval := val, width := width } }

def showdata (words : List Text) : Client :=
  if words.length ≠ c.nfields then
    c.printf (ascii "stat161: Invalid packet (wrong number of fields)\n")
  else
    let c := if c.linesSinceHeader > 21 then showheaders c else c
    let c := words.zipIdx.foldl (fun c e => showword c e.2 e.1) c
    { (c.printf (ascii "\n")) with linesSinceHeader := c.linesSinceHeader + 1 }

def isDelim (x : BitVec 8) : Bool := x == ch ' ' || x == 0x09 || x == 0x0d || x == 0x0a

def lineWords (line : Text) : List Text :=
  (strtok isDelim (cstr line).length (cstr line)).1.take 32

/-- The client after a line. It is an error where the client exits. -/
def processline (line : Text) : Except Client Client :=
  match lineWords line with
  | [] => .ok c
  | word :: args =>
    if sameCase word (ascii "error") then
      .ok c
    else if sameCase word (ascii "hello") ∧ args.length = 1 then
      let ver := atoi (args.headD [])
      if ver ≠ protoVersion then
        .error (c.complain (ascii "stat161: Wrong protocol version " ++ signedText ver ++ ascii "\n"))
      else
        .ok c
    else if sameCase word (ascii "head") ∧ args ≠ [] then
      .ok (setheaders c args)
    else if sameCase word (ascii "width") ∧ args ≠ [] then
      .ok (setwidths c args)
    else if sameCase word (ascii "data") ∧ args ≠ [] then
      .ok (showdata c args)
    else if sameCase word (ascii "ok") then
      .ok c
    else if sameCase word (ascii "bad") then
      .ok (c.printf (ascii "stat161: sys161 error:" ++ args.flatMap (ch ' ' :: ·) ++ ascii "\n"))
    else
      .ok (c.printf (ascii "stat161: Invalid packet (improper header)\n"))

end Sys161.Stat161
