import Sys161.Lib.CString

/-!
# Numbers in strings

The integer that a string begins with, of any size, and what the functions of
the C library make of it.
-/

namespace CString

set_option autoImplicit false

/-- The integer at the front of a string, and the rest of the string. -/
def numeral (base : Nat) (s : List (BitVec 8)) : Option (Int × List (BitVec 8)) :=
  let (negative, t) := takeSign (s.dropWhile isspace)
  let (base, t) := takeBase base t
  let (digits, rest) := takeDigits base t
  if digits = [] then none
  else some (if negative then -value base digits else value base digits, rest)

variable {base : Nat} {s rest : List (BitVec 8)} {n : Int}

theorem strtoul_of_none (h : numeral base s = none) :
    strtoul base s = { value := 0, rest := s, erange := false } := by
  unfold numeral at h
  unfold strtoul
  dsimp only at h ⊢
  split at h
  · next hNone => rw [if_pos hNone]
  · cases h

theorem strtoul_of_some (h : numeral base s = some (n, rest)) :
    strtoul base s = if 2 ^ 64 ≤ n.natAbs then
        { value := BitVec.allOnes 64, rest := rest, erange := true }
      else
        { value := BitVec.ofInt 64 n, rest := rest, erange := false } := by
  unfold numeral at h
  unfold strtoul
  dsimp only at h ⊢
  split at h
  · cases h
  · next hSome =>
    rw [if_neg hSome]
    obtain ⟨rfl, rfl⟩ := Prod.mk.inj (Option.some.inj h)
    generalize (takeSign (s.dropWhile isspace)).1 = negative
    generalize value (takeBase base (takeSign (s.dropWhile isspace)).2).1 _ = size
    cases negative with
    | false =>
      simp only [Bool.false_eq_true, if_false, Int.natAbs_natCast, BitVec.ofInt_natCast]
    | true =>
      simp only [if_true, Int.natAbs_neg, Int.natAbs_natCast, BitVec.ofInt_neg,
        BitVec.ofInt_natCast]

theorem strtoll_of_none (h : numeral base s = none) :
    strtoll base s = { value := 0, rest := s, erange := false } := by
  unfold numeral at h
  unfold strtoll
  dsimp only at h ⊢
  split at h
  · next hNone => rw [if_pos hNone]
  · cases h

theorem strtoll_of_some (h : numeral base s = some (n, rest)) :
    strtoll base s = if n < -2 ^ 63 then { value := -2 ^ 63, rest := rest, erange := true }
      else if 2 ^ 63 ≤ n then { value := 2 ^ 63 - 1, rest := rest, erange := true }
      else { value := n, rest := rest, erange := false } := by
  unfold numeral at h
  unfold strtoll
  dsimp only at h ⊢
  split at h
  · cases h
  · next hSome =>
    rw [if_neg hSome]
    obtain ⟨rfl, rfl⟩ := Prod.mk.inj (Option.some.inj h)
    rfl

end CString
