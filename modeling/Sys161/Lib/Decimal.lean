import Sys161.Lib.CString

/-!
# Decimal numbers

What `strtoll` makes of a number that `printf` has written in decimal.
-/

namespace CString

set_option autoImplicit false

/-- A number as `%lld` writes it. -/
def decimal (n : Nat) : List (BitVec 8) := (toString n).toList.map ch

theorem decimal_eq (n : Nat) : decimal n = (Nat.toDigits 10 n).map ch := by
  rw [decimal, Nat.toString_eq_ofList_toDigits, String.toList_ofList]

/-- The value of a digit. -/
def digitValue (c : Char) : Nat := c.toNat - 48

section Digits

variable {c : Char} (hc : c.isDigit = true)

include hc

theorem toNat_ch : 48 ≤ (ch c).toNat ∧ (ch c).toNat ≤ 57 ∧ (ch c).toNat = c.toNat := by
  have hRange := Char.isDigit_iff_toNat.mp hc
  have hLow : '0'.toNat = 48 := rfl
  have hHigh : '9'.toNat = 57 := rfl
  rw [ch, BitVec.toNat_ofNat]
  omega

theorem digit_ch : digit (ch c) = some (digitValue c) := by
  obtain ⟨hLow, hHigh, hValue⟩ := toNat_ch hc
  unfold digit
  rw [if_pos, hValue]
  · rfl
  · rw [BitVec.le_def, BitVec.le_def]
    exact ⟨hLow, hHigh⟩

theorem digitValue_lt : digitValue c < 10 := by
  have hRange := Char.isDigit_iff_toNat.mp hc
  have hHigh : '9'.toNat = 57 := rfl
  unfold digitValue
  omega

theorem isspace_ch : isspace (ch c) = false := by
  obtain ⟨hLow, _⟩ := toNat_ch hc
  rw [← Bool.not_eq_true]
  intro hSpace
  unfold isspace at hSpace
  rcases Bool.or_eq_true_iff.mp hSpace with hBlank | hTab
  · rw [eq_of_beq hBlank] at hLow
    exact absurd hLow (by decide)
  · have hHigh := of_decide_eq_true (Bool.and_eq_true_iff.mp hTab).2
    rw [BitVec.le_def] at hHigh
    exact absurd (Nat.le_trans hLow hHigh) (by decide)

theorem ch_ne_sign : ch c ≠ ch '-' ∧ ch c ≠ ch '+' := by
  obtain ⟨hLow, _⟩ := toNat_ch hc
  constructor
  · intro h
    rw [h] at hLow
    exact absurd hLow (by decide)
  · intro h
    rw [h] at hLow
    exact absurd hLow (by decide)

end Digits

/-- A digit that is not zero does not begin a number of another base. -/
theorem takeBase_ten {c : BitVec 8} (hc : c ≠ ch '0') (s : List (BitVec 8)) :
    takeBase 0 (c :: s) = (10, c :: s) := by
  unfold takeBase
  split
  · next h =>
    injection h with hHead hTail
    subst hHead
    rw [if_neg fun h => hc h.2.1, if_pos rfl, if_neg hc]
  · next h =>
    injection h with hHead hTail
    subst hHead
    rw [if_pos rfl, if_neg hc]
  · next h => cases h

theorem takeDigits_ch {l : List Char} (hl : ∀ c ∈ l, c.isDigit = true) :
    takeDigits 10 (l.map ch) = (l.map digitValue, []) := by
  induction l with
  | nil => rfl
  | cons c l ih =>
    have hc := hl c List.mem_cons_self
    have hRest := ih fun c' hc' => hl c' (List.mem_cons_of_mem c hc')
    rw [List.map_cons, takeDigits, digit_ch hc]
    dsimp only
    rw [if_pos (digitValue_lt hc), hRest]
    rfl

theorem value_digits (n : Nat) : value 10 ((Nat.toDigits 10 n).map digitValue) = n := by
  have hFold : ∀ (l : List Char) k, (l.map digitValue).foldl (fun n d => n * 10 + d) k =
      Nat.ofDigitChars 10 l k := by
    intro l k
    induction l generalizing k with
    | nil => rfl
    | cons c l ih =>
      rw [List.map_cons, List.foldl_cons, ih, Nat.ofDigitChars_cons, Nat.mul_comm]
      rfl
  rw [value, hFold, Nat.ofDigitChars_ten_toDigits]

theorem decimal_digit {n : Nat} {c : BitVec 8} (h : c ∈ decimal n) :
    48 ≤ c.toNat ∧ c.toNat ≤ 57 := by
  rw [decimal_eq] at h
  obtain ⟨d, hd, rfl⟩ := List.mem_map.mp h
  obtain ⟨hLow, hHigh, -⟩ := toNat_ch (Nat.isDigit_of_mem_toDigits (by decide) (by decide) hd)
  exact ⟨hLow, hHigh⟩

theorem decimal_inj {n m : Nat} (h : decimal n = decimal m) : n = m := by
  have hValue (k : Nat) : value 10 (takeDigits 10 (decimal k)).1 = k := by
    have hDigits : ∀ c ∈ Nat.toDigits 10 k, c.isDigit = true := fun c hc =>
      Nat.isDigit_of_mem_toDigits (by decide) (by decide) hc
    rw [decimal_eq, takeDigits_ch hDigits]
    exact value_digits k
  rw [← hValue n, h, hValue m]

theorem head_toDigits {n : Nat} (hn : 0 < n) :
    ∃ c l, Nat.toDigits 10 n = c :: l ∧ c ≠ '0' := by
  induction n using Nat.strongRecOn with
  | ind n ih =>
    by_cases hLess : n < 10
    · have hHead : n.digitChar ≠ '0' := fun hZero =>
        Nat.ne_of_gt hn (Nat.digitChar_eq_zero.mp hZero)
      exact ⟨n.digitChar, [], Nat.toDigits_of_lt_base hLess, hHead⟩
    · have hMore : 10 ≤ n := Nat.not_lt.mp hLess
      obtain ⟨c, l, hEq, hc⟩ := ih (n / 10) (by omega) (by omega)
      rw [Nat.toDigits_of_base_le (by decide) hMore, hEq]
      exact ⟨c, _, rfl, hc⟩

/-- The parts of a decimal number: no sign, no base, and its digits. Zero is read as octal. -/
theorem parts_decimal (n : Nat) :
    takeSign ((decimal n).dropWhile isspace) = (false, decimal n) ∧
    ∃ base, takeBase 0 (decimal n) = (base, decimal n) ∧
      takeDigits base (decimal n) = ((Nat.toDigits 10 n).map digitValue, []) ∧
      value base ((Nat.toDigits 10 n).map digitValue) = n := by
  rcases Nat.eq_zero_or_pos n with rfl | hn
  · exact ⟨by decide, 8, by decide, by decide, by decide⟩
  · have hDigits : ∀ c ∈ Nat.toDigits 10 n, c.isDigit = true := fun c hc =>
      Nat.isDigit_of_mem_toDigits (by decide) (by decide) hc
    obtain ⟨c, l, hEq, hZero⟩ := head_toDigits hn
    have hc : c.isDigit = true := by
      apply hDigits
      rw [hEq]
      exact List.mem_cons_self
    have hCons : decimal n = ch c :: l.map ch := by rw [decimal_eq, hEq, List.map_cons]
    have hDrop : (decimal n).dropWhile isspace = decimal n := by
      rw [hCons, List.dropWhile_cons_of_neg]
      rw [isspace_ch hc]
      decide
    have hSign : takeSign (decimal n) = (false, decimal n) := by
      rw [hCons, takeSign, if_neg (ch_ne_sign hc).1, if_neg (ch_ne_sign hc).2]
    have hNonzero : ch c ≠ ch '0' := by
      intro h
      have hSame := congrArg BitVec.toNat h
      rw [(toNat_ch hc).2.2] at hSame
      exact hZero (Char.toNat_inj.mp hSame)
    constructor
    · rw [hDrop, hSign]
    · refine ⟨10, ?_, ?_, value_digits n⟩
      · rw [hCons]
        exact takeBase_ten hNonzero _
      · rw [decimal_eq]
        exact takeDigits_ch hDigits

theorem decimal_cons (n : Nat) : ∃ c l, decimal n = ch c :: l ∧ c.isDigit = true := by
  cases hDigits : Nat.toDigits 10 n with
  | nil => exact absurd hDigits Nat.toDigits_ne_nil
  | cons c l =>
    refine ⟨c, l.map ch, by rw [decimal_eq, hDigits, List.map_cons], ?_⟩
    apply Nat.isDigit_of_mem_toDigits (by decide) (Nat.le_refl 10)
    rw [hDigits]
    exact List.mem_cons_self

theorem strtoll_decimal (n : Nat) : strtoll 0 (decimal n) =
    if n < 2 ^ 63 then { value := n, rest := [], erange := false }
    else { value := 2 ^ 63 - 1, rest := [], erange := true } := by
  obtain ⟨hSign, base, hBase, hDigits, hValue⟩ := parts_decimal n
  have hSome : (Nat.toDigits 10 n).map digitValue ≠ [] := by
    intro h
    exact Nat.toDigits_ne_nil (List.map_eq_nil_iff.mp h)
  have hNonneg : ¬(n : Int) < -2 ^ 63 := by omega
  unfold strtoll
  rw [hSign]
  dsimp only
  rw [hBase]
  dsimp only
  rw [hDigits]
  dsimp only
  have hPlus : (if false = true then -(n : Int) else n) = n := if_neg Bool.false_ne_true
  rw [hValue, hPlus, if_neg hSome, if_neg hNonneg]
  by_cases hLess : n < 2 ^ 63
  · rw [if_neg (by omega), if_pos hLess]
  · rw [if_pos (by omega), if_neg hLess]

end CString
