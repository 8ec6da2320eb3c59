import Mathlib.Algebra.Group.Int.Defs
import Mathlib.Algebra.Group.Nat.Defs
import Mathlib.Data.List.Basic

/-!
# Strings of the host's C library

A string is the list of its bytes; what a function leaves of its argument is the
list from there on.
-/

namespace CString

/-- The byte of an ASCII character. -/
def ch (c : Char) : BitVec 8 := BitVec.ofNat 8 c.toNat

/-- The string that starts at a byte, up to the zero that ends it. -/
def cstr (s : List (BitVec 8)) : List (BitVec 8) := s.takeWhile (· ≠ 0)

def isspace (c : BitVec 8) : Bool := c == 0x20 || (0x09 ≤ c && c ≤ 0x0d)

def tolower (c : BitVec 8) : BitVec 8 := if ch 'A' ≤ c ∧ c ≤ ch 'Z' then c + 0x20 else c

/-- Whether `strcasecmp` finds no difference. -/
def sameCase (s t : List (BitVec 8)) : Bool := s.map tolower == t.map tolower

/-- The value of a digit in any base up to 36. -/
def digit (c : BitVec 8) : Option Nat :=
  if ch '0' ≤ c ∧ c ≤ ch '9' then some (c.toNat - 48)
  else if ch 'a' ≤ c ∧ c ≤ ch 'z' then some (c.toNat - 87)
  else if ch 'A' ≤ c ∧ c ≤ ch 'Z' then some (c.toNat - 55)
  else none

/-- The digits of a number at the front of a string, and the rest. -/
def takeDigits (base : Nat) : List (BitVec 8) → List Nat × List (BitVec 8)
  | [] => ([], [])
  | c :: s =>
    match digit c with
    | some d => if d < base then (d :: (takeDigits base s).1, (takeDigits base s).2) else ([], c :: s)
    | none => ([], c :: s)

def value (base : Nat) (digits : List Nat) : Nat := digits.foldl (fun n d => n * base + d) 0

/-- `strtoul`, where a `long` has 64 bits: the value, what it leaves, and whether `errno` is set for
a number out of range. -/
structure Strtoul where
  value : BitVec 64
  rest : List (BitVec 8)
  erange : Bool

/-- The sign of a number. -/
def takeSign : List (BitVec 8) → Bool × List (BitVec 8)
  | [] => (false, [])
  | c :: s => if c = ch '-' then (true, s) else if c = ch '+' then (false, s) else (false, c :: s)

/-- The base of a number, with the digits that follow what tells it. -/
def takeBase (base : Nat) (s : List (BitVec 8)) : Nat × List (BitVec 8) :=
  match s with
  | z :: x :: d :: t =>
    if (base = 0 ∨ base = 16) ∧ z = ch '0' ∧ tolower x = ch 'x' ∧ (digit d).any (· < 16) then
      (16, d :: t)
    else if base = 0 then (if z = ch '0' then 8 else 10, s)
    else (base, s)
  | z :: _ => (if base = 0 then if z = ch '0' then 8 else 10 else base, s)
  | [] => (if base = 0 then 10 else base, s)

def strtoul (base : Nat) (s : List (BitVec 8)) : Strtoul :=
  let (negative, t) := takeSign (s.dropWhile isspace)
  let (base, t) := takeBase base t
  let (digits, rest) := takeDigits base t
  if digits = [] then { value := 0, rest := s, erange := false }
  else if 2 ^ 64 ≤ value base digits then
    { value := BitVec.allOnes 64, rest := rest, erange := true }
  else
    let n := BitVec.ofNat 64 (value base digits)
    { value := if negative then -n else n, rest := rest, erange := false }

/-- `strtoll`, where a `long long` has 64 bits. -/
structure Strtoll where
  value : Int
  rest : List (BitVec 8)
  erange : Bool

def strtoll (base : Nat) (s : List (BitVec 8)) : Strtoll :=
  let (negative, t) := takeSign (s.dropWhile isspace)
  let (base, t) := takeBase base t
  let (digits, rest) := takeDigits base t
  let n : Int := if negative then -value base digits else value base digits
  if digits = [] then { value := 0, rest := s, erange := false }
  else if n < -2 ^ 63 then { value := -2 ^ 63, rest := rest, erange := true }
  else if 2 ^ 63 ≤ n then { value := 2 ^ 63 - 1, rest := rest, erange := true }
  else { value := n, rest := rest, erange := false }

/-- `atoi`, which cuts a `long` down to an `int`. -/
def atoi (s : List (BitVec 8)) : BitVec 32 := BitVec.ofInt 32 (strtoll 10 s).value

theorem strtoll_range (base : Nat) (s : List (BitVec 8)) :
    -2 ^ 63 ≤ (strtoll base s).value ∧ (strtoll base s).value < 2 ^ 63 := by
  have hNone : -2 ^ 63 ≤ (0 : Int) ∧ (0 : Int) < 2 ^ 63 := by decide
  have hLeast : -2 ^ 63 ≤ (-2 ^ 63 : Int) ∧ (-2 ^ 63 : Int) < 2 ^ 63 := by decide
  have hMost : -2 ^ 63 ≤ (2 ^ 63 - 1 : Int) ∧ (2 ^ 63 - 1 : Int) < 2 ^ 63 := by decide
  unfold strtoll
  dsimp only
  generalize (if (takeSign (s.dropWhile isspace)).1 = true then _ else _ : Int) = n
  split
  · exact hNone
  · split
    · exact hLeast
    · next hLow =>
      split
      · exact hMost
      · next hHigh => exact ⟨Int.not_lt.mp hLow, Int.not_le.mp hHigh⟩

/-- The words that so many calls of `strtok_r` find in a string, and the string with zeros where the
words ended. -/
def strtok (isDelim : BitVec 8 → Bool) : Nat → List (BitVec 8) → List (List (BitVec 8)) × List (BitVec 8)
  | 0, s => ([], s)
  | n + 1, s =>
    let gap := s.takeWhile isDelim
    let word := (s.dropWhile isDelim).takeWhile fun c => !isDelim c
    if word = [] then ([], s)
    else
      match (s.dropWhile isDelim).dropWhile fun c => !isDelim c with
      | [] => ([word], s)
      | _ :: rest =>
        (word :: (strtok isDelim n rest).1, gap ++ word ++ 0 :: (strtok isDelim n rest).2)

theorem length_strtok (isDelim : BitVec 8 → Bool) (n : Nat) (s : List (BitVec 8)) :
    (strtok isDelim n s).2.length = s.length := by
  induction n generalizing s with
  | zero => rfl
  | succ n ih =>
    rw [strtok]
    split
    · rfl
    · split
      · rfl
      · next c rest hRest =>
        have hGap := congrArg List.length (List.takeWhile_append_dropWhile (p := isDelim) (l := s))
        have hWord := congrArg List.length (List.takeWhile_append_dropWhile
          (p := fun c => !isDelim c) (l := s.dropWhile isDelim))
        rw [hRest] at hWord
        simp only [List.length_append, List.length_cons, ih rest] at hGap hWord ⊢
        omega

end CString
