import Sys161.Lib.ByteOrder
import Sys161.Lib.CString

/-!
# Hexadecimal text

What the host's C library prints for bytes and words in base 16, and what it
reads.
-/

namespace Hex

open ByteOrder CString

set_option autoImplicit false

abbrev Text := List (BitVec 8)

/-- A digit of `%x`. -/
def hexDigit (d : BitVec 4) : BitVec 8 :=
  if d < 10 then 0x30 + d.setWidth 8 else 0x57 + d.setWidth 8

/-- `%02x` of a byte. -/
def byteText (b : BitVec 8) : Text := [hexDigit (b.extractLsb' 4 4), hexDigit (b.extractLsb' 0 4)]

/-- `%08x` of a word. -/
def wordText (w : BitVec 32) : Text :=
  [28, 24, 20, 16, 12, 8, 4, 0].map fun k => hexDigit (w.extractLsb' k 4)

def IsHex (c : BitVec 8) : Prop := ∃ d, digit c = some d ∧ d < 16

instance (c : BitVec 8) : Decidable (IsHex c) :=
  decidable_of_iff ((digit c).any (· < 16) = true) (by simp [IsHex, Option.any_eq_true])

/-- The number that a text of digits stands for. -/
def hexValue (s : Text) : Nat := value 16 (s.filterMap digit)

/-! ## Printing -/

theorem digit_of_byte (w : BitVec 32) (start k : Nat) (hk : k + 4 ≤ 8) :
    (w.extractLsb' start 8).extractLsb' k 4 = w.extractLsb' (start + k) 4 := by
  apply BitVec.eq_of_getLsbD_eq
  intro j hj
  have hIn : k + j < 8 := by omega
  simp [hj, hIn, Nat.add_assoc]

/-- A word is printed as its bytes are, from the greatest to the least. -/
theorem wordText_eq (w : BitVec 32) :
    wordText w = (List.range 4).flatMap fun k => byteText (Order.big.byte w k) := by
  simp [wordText, byteText, Order.byte, Order.place, List.range_succ, digit_of_byte]

/-! ## Reading -/

theorem apart_of_isHex : ∀ c : BitVec 8, IsHex c →
    isspace c = false ∧ c ≠ ch '-' ∧ c ≠ ch '+' ∧ tolower c ≠ ch 'x' := by
  decide

theorem hexDigit_digit : ∀ c : BitVec 8, IsHex c →
    hexDigit (BitVec.ofNat 4 ((digit c).getD 0)) = tolower c := by
  decide

theorem takeDigits_hex {s rest : Text} (hs : ∀ c ∈ s, IsHex c)
    (hRest : ∀ c ∈ rest.head?, digit c = none) :
    takeDigits 16 (s ++ rest) = (s.filterMap digit, rest) := by
  induction s with
  | nil =>
    cases rest with
    | nil => rfl
    | cons c rest =>
      have hNone : digit c = none := hRest c rfl
      simp [takeDigits, hNone]
  | cons c s ih =>
    obtain ⟨d, hDigit, hLt⟩ := hs c (List.mem_cons_self ..)
    have ih' := ih fun c' hc' => hs c' (List.mem_cons_of_mem c hc')
    rw [List.cons_append, takeDigits, hDigit]
    dsimp only
    rw [if_pos hLt, ih', List.filterMap_cons_some hDigit]

theorem tolower_of_none : ∀ c : BitVec 8, digit c = none → tolower c ≠ ch 'x' := by
  decide

/-- There is no sign of the base before digits. -/
theorem takeBase_hex {s rest : Text} (hs : ∀ c ∈ s, IsHex c)
    (hRest : ∀ c ∈ rest.head?, digit c = none) (hNe : s ≠ []) :
    takeBase 16 (s ++ rest) = (16, s ++ rest) := by
  have hx : ∀ z x t, s ++ rest = z :: x :: t → tolower x ≠ ch 'x' := by
    intro z x t hText
    match s, hNe with
    | [c], _ =>
      have hHead : rest = x :: t := (List.cons.inj hText).2
      exact tolower_of_none x (hRest x (by rw [hHead]; rfl))
    | c :: c' :: s, _ =>
      have hHead : c' = x := (List.cons.inj (List.cons.inj hText).2).1
      exact hHead ▸ (apart_of_isHex c' (hs c' (by simp))).2.2.2
  generalize s ++ rest = text at hx
  unfold takeBase
  split
  next z x d t =>
    rw [if_neg (fun h => hx z x (d :: t) rfl h.2.2.1), if_neg (by decide)]
  next => rw [if_neg (by decide)]
  next => rw [if_neg (by decide)]

/-- What `strtoul` makes of a number in base 16. -/
theorem strtoul_hex {s rest : Text} (hs : ∀ c ∈ s, IsHex c) (hNe : s ≠ [])
    (hRest : ∀ c ∈ rest.head?, digit c = none) (hLt : hexValue s < 2 ^ 64) :
    strtoul 16 (s ++ rest) =
      { value := BitVec.ofNat 64 (hexValue s), rest := rest, erange := false } := by
  obtain ⟨c, t, rfl⟩ := List.exists_cons_of_ne_nil hNe
  obtain ⟨hSpace, hMinus, hPlus, -⟩ := apart_of_isHex c (hs c (List.mem_cons_self ..))
  obtain ⟨d, hDigit, -⟩ := hs c (List.mem_cons_self ..)
  have hSkip : (c :: t ++ rest).dropWhile isspace = c :: t ++ rest := by
    simp [hSpace]
  have hSign : takeSign (c :: t ++ rest) = (false, c :: t ++ rest) := by
    simp [takeSign, hMinus, hPlus]
  have hSome : (c :: t).filterMap digit ≠ [] := by
    rw [List.filterMap_cons_some hDigit]
    simp
  unfold strtoul
  rw [hSkip, hSign]
  dsimp only
  rw [takeBase_hex hs hRest hNe]
  dsimp only
  rw [takeDigits_hex hs hRest]
  dsimp only
  rw [if_neg hSome, if_neg (by exact not_le.mpr hLt)]
  rfl

theorem hexValue_pair {a b : BitVec 8} (ha : IsHex a) (hb : IsHex b) :
    hexValue [a, b] = (digit a).getD 0 * 16 + (digit b).getD 0 := by
  obtain ⟨da, hda, -⟩ := ha
  obtain ⟨db, hdb, -⟩ := hb
  simp [hexValue, value, hda, hdb]

/-- A byte that is read is printed as it was written, in small letters. -/
theorem byteText_pair {a b : BitVec 8} (ha : IsHex a) (hb : IsHex b) :
    byteText (BitVec.ofNat 8 (hexValue [a, b])) = [tolower a, tolower b] := by
  rw [hexValue_pair ha hb, ← hexDigit_digit a ha, ← hexDigit_digit b hb]
  obtain ⟨da, hda, hLta⟩ := ha
  obtain ⟨db, hdb, hLtb⟩ := hb
  have hByte : (da * 16 + db) % 256 = da * 16 + db := Nat.mod_eq_of_lt (by omega)
  simp only [hda, hdb, Option.getD_some, byteText]
  congr 3
  · apply BitVec.eq_of_toNat_eq
    simp [BitVec.extractLsb'_toNat]
    rw [Nat.shiftRight_eq_div_pow, hByte]
    omega
  · apply BitVec.eq_of_toNat_eq
    simp [BitVec.extractLsb'_toNat]

theorem digit_hexDigit : ∀ d : BitVec 4, digit (hexDigit d) = some d.toNat := by
  decide

theorem byteText_hex (b : BitVec 8) :
    (∀ c ∈ byteText b, IsHex c) ∧ hexValue (byteText b) = b.toNat := by
  have hDigit : ∀ d : BitVec 4, IsHex (hexDigit d) := fun d => ⟨d.toNat, digit_hexDigit d, d.isLt⟩
  constructor
  · intro c hc
    rcases List.mem_pair.mp hc with rfl | rfl
    · exact hDigit _
    · exact hDigit _
  · rw [byteText, hexValue_pair (hDigit _) (hDigit _), digit_hexDigit, digit_hexDigit]
    simp only [Option.getD_some, BitVec.extractLsb'_toNat, Nat.shiftRight_eq_div_pow]
    omega

/-- A word is printed as a number. -/
theorem wordText_hex (w : BitVec 32) :
    (∀ c ∈ wordText w, IsHex c) ∧ hexValue (wordText w) = w.toNat := by
  constructor
  · intro c hc
    obtain ⟨k, -, rfl⟩ := List.mem_map.mp hc
    exact ⟨_, digit_hexDigit _, BitVec.isLt _⟩
  · have hLt := w.isLt
    simp only [hexValue, wordText, List.map_cons, List.map_nil, List.filterMap_cons, digit_hexDigit,
      List.filterMap_nil, value, List.foldl_cons, List.foldl_nil, BitVec.extractLsb'_toNat,
      Nat.shiftRight_eq_div_pow]
    omega

end Hex
