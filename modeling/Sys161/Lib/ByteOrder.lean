import Mathlib.Data.BitVec
import Mathlib.Logic.Function.Basic
import Mathlib.Tactic.IntervalCases

/-!
# Byte order

A word of 32 bits as four bytes in memory. What the host makes of four bytes is
swapped into what another machine makes of them, and back.
-/

namespace ByteOrder

set_option autoImplicit false

inductive Order where
  | little
  | big
  deriving DecidableEq

namespace Order

/-- The word that four bytes in memory make. -/
def word (o : Order) (f : Nat → BitVec 8) : BitVec 32 :=
  match o with
  | little => f 3 ++ f 2 ++ f 1 ++ f 0
  | big => f 0 ++ f 1 ++ f 2 ++ f 3

/-- Where a byte of memory stands in a word, in bytes from the least. -/
def place (o : Order) (k : Nat) : Nat :=
  match o with
  | little => k
  | big => 3 - k

/-- A byte of a word, counted as they stand in memory. -/
def byte (o : Order) (w : BitVec 32) (k : Nat) : BitVec 8 := w.extractLsb' (8 * o.place k) 8

def setByte (o : Order) (w : BitVec 32) (k : Nat) (b : BitVec 8) : BitVec 32 :=
  o.word (Function.update (o.byte w) k b)

variable (o : Order)

theorem word_congr {f g : Nat → BitVec 8} (h : ∀ k < 4, f k = g k) : o.word f = o.word g := by
  unfold word
  rw [h 0 (by decide), h 1 (by decide), h 2 (by decide), h 3 (by decide)]

theorem getLsbD_append (a b c d : BitVec 8) (j : Nat) :
    (a ++ b ++ c ++ d : BitVec (8 + 8 + 8 + 8)).getLsbD j =
      if j < 8 then d.getLsbD j else if j < 16 then c.getLsbD (j - 8)
      else if j < 24 then b.getLsbD (j - 16) else a.getLsbD (j - 24) := by
  have hFirst : j - 8 < 8 ↔ j < 16 ∨ j < 8 := by omega
  simp only [BitVec.getLsbD_append, hFirst, Nat.sub_sub]
  split_ifs <;> first | rfl | omega

theorem getLsbD_word (f : Nat → BitVec 8) {j : Nat} (hj : j < 32) :
    (o.word f).getLsbD j = (f (o.place (j / 8))).getLsbD (j % 8) := by
  have hCases : j / 8 = 0 ∧ j < 8 ∨ j / 8 = 1 ∧ ¬j < 8 ∧ j < 16 ∨
      j / 8 = 2 ∧ ¬j < 8 ∧ ¬j < 16 ∧ j < 24 ∨
      j / 8 = 3 ∧ ¬j < 8 ∧ ¬j < 16 ∧ ¬j < 24 := by omega
  have hMod : j % 8 = j - 8 * (j / 8) := by omega
  cases o with
  | little =>
    change (f 3 ++ f 2 ++ f 1 ++ f 0 : BitVec (8 + 8 + 8 + 8)).getLsbD j = _
    rw [getLsbD_append]
    rcases hCases with h | h | h | h <;> simp [place, hMod, h]
  | big =>
    change (f 0 ++ f 1 ++ f 2 ++ f 3 : BitVec (8 + 8 + 8 + 8)).getLsbD j = _
    rw [getLsbD_append]
    rcases hCases with h | h | h | h <;> simp [place, hMod, h]

theorem getLsbD_byte (w : BitVec 32) (k : Nat) {j : Nat} (hj : j < 8) :
    (o.byte w k).getLsbD j = w.getLsbD (8 * o.place k + j) := by
  simp [byte, hj]

theorem place_lt (k : Nat) (hk : k < 4) : o.place k < 4 := by
  cases o
  · exact hk
  · change 3 - k < 4
    omega

theorem place_place {k : Nat} (hk : k < 4) : o.place (o.place k) = k := by
  cases o
  · rfl
  · change 3 - (3 - k) = k
    omega

theorem byte_word (f : Nat → BitVec 8) {k : Nat} (hk : k < 4) : o.byte (o.word f) k = f k := by
  have hPlace := o.place_lt k hk
  apply BitVec.eq_of_getLsbD_eq
  intro j hj
  have hDiv : (8 * o.place k + j) / 8 = o.place k := by omega
  have hMod : (8 * o.place k + j) % 8 = j := by omega
  rw [getLsbD_byte o _ k hj, getLsbD_word o f (by omega), hDiv, hMod, place_place o hk]

theorem word_byte (w : BitVec 32) : o.word (o.byte w) = w := by
  apply BitVec.eq_of_getLsbD_eq
  intro j hj
  have hIndex : 8 * o.place (o.place (j / 8)) + j % 8 = j := by
    rw [place_place o (by omega)]
    omega
  rw [getLsbD_word o _ hj, getLsbD_byte o _ _ (by omega), hIndex]

theorem byte_setByte (w : BitVec 32) {k : Nat} (hk : k < 4) (b : BitVec 8) :
    o.byte (o.setByte w k b) k = b := by
  rw [setByte, byte_word o _ hk, Function.update_self]

end Order

def bswap16 (x : BitVec 16) : BitVec 16 := ((x &&& 0xff) <<< 8) ||| (x >>> 8)

def bswap32 (x : BitVec 32) : BitVec 32 :=
  ((bswap16 ((x &&& 0xffff).setWidth 16)).setWidth 32 <<< 16) |||
    (bswap16 ((x >>> 16).setWidth 16)).setWidth 32

/-- To another machine's order. -/
def htoc32 (host cpu : Order) (x : BitVec 32) : BitVec 32 := if host = cpu then x else bswap32 x

def ctoh32 (host cpu : Order) (x : BitVec 32) : BitVec 32 := if host = cpu then x else bswap32 x

def ntohl (host : Order) (x : BitVec 32) : BitVec 32 := if host = .big then x else bswap32 x

theorem bswap32_eq (x : BitVec 32) : bswap32 x = Order.big.word (Order.little.byte x) := by
  apply BitVec.eq_of_getLsbD_eq
  intro j hj
  rw [Order.getLsbD_word .big _ hj, Order.getLsbD_byte .little _ _ (by omega)]
  simp only [bswap32, bswap16, Order.place]
  interval_cases j <;> simp

theorem bswap32_word {o o' : Order} (h : o ≠ o') (f : Nat → BitVec 8) :
    bswap32 (o.word f) = o'.word f := by
  rw [bswap32_eq]
  cases o <;> cases o'
  · exact absurd rfl h
  · exact Order.word_congr .big fun k hk => Order.byte_word .little f hk
  · have hBytes : ∀ k < 4, Order.little.byte (Order.big.word f) k = f (3 - k) := by
      intro k hk
      have hSame : Order.little.byte (Order.big.word f) k =
          Order.big.byte (Order.big.word f) (3 - k) := by
        simp only [Order.byte, Order.place]
        congr
        omega
      rw [hSame, Order.byte_word .big f (by omega)]
    have hTurned : Order.big.word (fun k => f (3 - k)) = Order.little.word f := by
      simp only [Order.word, Nat.sub_zero, Nat.reduceSub, Nat.sub_self]
    rw [← hTurned]
    exact Order.word_congr .big hBytes
  · exact absurd rfl h

/-- Bytes of another machine that the host has loaded are swapped into its word. -/
theorem ctoh32_word (host cpu : Order) (f : Nat → BitVec 8) :
    ctoh32 host cpu (host.word f) = cpu.word f := by
  unfold ctoh32
  split
  next h => rw [h]
  next h => exact bswap32_word h f

theorem htoc32_word (host cpu : Order) (f : Nat → BitVec 8) :
    htoc32 host cpu (cpu.word f) = host.word f := by
  unfold htoc32
  split
  next h => rw [h]
  next h => exact bswap32_word (Ne.symm h) f

theorem ntohl_word (host : Order) (f : Nat → BitVec 8) :
    ntohl host (host.word f) = Order.big.word f := by
  unfold ntohl
  split
  next h => rw [h]
  next h => exact bswap32_word h f

/-- The two swaps leave the bytes as they stand in the memory of the other machine. -/
theorem ntohl_htoc32 (host cpu : Order) (w : BitVec 32) :
    ntohl host (htoc32 host cpu w) = Order.big.word (cpu.byte w) := by
  have hWord := htoc32_word host cpu (cpu.byte w)
  rw [Order.word_byte] at hWord
  rw [hWord, ntohl_word]

/-! ## Parts of a word -/

/-- The mask of the low bytes of a word. -/
def lowBytes (n : Nat) : BitVec 32 := BitVec.ofNat 32 (2 ^ (8 * n) - 1)

/-- Bytes of a word replaced, from one of them on. -/
def insertBytes (w val : BitVec 32) (k n : Nat) : BitVec 32 :=
  (w &&& ~~~(lowBytes n <<< (8 * k))) ||| ((val &&& lowBytes n) <<< (8 * k))

theorem getLsbD_lowBytes (n : Nat) {j : Nat} (hj : j < 32) :
    (lowBytes n).getLsbD j = decide (j < 8 * n) := by
  rw [lowBytes, BitVec.getLsbD_ofNat, Nat.testBit_two_pow_sub_one]
  simp [hj]

namespace Order

theorem byte_insertBytes (w val : BitVec 32) {k n j : Nat} (hj : j < 4) :
    little.byte (insertBytes w val k n) j =
      if k ≤ j ∧ j < k + n then little.byte val (j - k) else little.byte w j := by
  apply BitVec.eq_of_getLsbD_eq
  intro x hx
  have hBit : 8 * j + x < 32 := by omega
  have hLow : 8 * j + x < 8 * k ↔ j < k := by omega
  rw [getLsbD_byte .little _ _ hx]
  simp only [insertBytes, place, BitVec.getLsbD_or, BitVec.getLsbD_and, BitVec.getLsbD_not,
    BitVec.getLsbD_shiftLeft, hBit, hLow, decide_true, Bool.true_and,
    getLsbD_lowBytes n (show 8 * j + x - 8 * k < 32 by omega)]
  by_cases hBelow : j < k
  · rw [if_neg (by omega), getLsbD_byte .little _ _ hx, place]
    simp [hBelow]
  · have hHigh : 8 * (j - k) + x < 8 * n ↔ j < k + n := by omega
    have hIndex : 8 * j + x - 8 * k = 8 * (j - k) + x := by omega
    simp only [hBelow, hHigh, hIndex, decide_false, Bool.not_false, Bool.true_and]
    by_cases hAbove : j < k + n
    · rw [if_pos ⟨Nat.not_lt.mp hBelow, hAbove⟩, getLsbD_byte .little _ _ hx, place]
      simp [hAbove]
    · rw [if_neg (fun h => hAbove h.2), getLsbD_byte .little _ _ hx, place]
      simp [hAbove]

end Order

/-! ## Words shifted over each other -/

/-- All but the low bytes of a word, replaced by the low bytes of another. -/
def overHigh (w val : BitVec 32) (n : Nat) : BitVec 32 :=
  (w &&& ~~~(BitVec.allOnes 32 <<< (8 * n))) |||
    ((val <<< (8 * n)) &&& (BitVec.allOnes 32 <<< (8 * n)))

/-- All but the high bytes of a word, replaced by the high bytes of another. -/
def overLow (w val : BitVec 32) (n : Nat) : BitVec 32 :=
  (w &&& ~~~(BitVec.allOnes 32 >>> (8 * n))) |||
    ((val >>> (8 * n)) &&& (BitVec.allOnes 32 >>> (8 * n)))

theorem getLsbD_overHigh (w val : BitVec 32) (n : Nat) {j : Nat} (hj : j < 32) :
    (overHigh w val n).getLsbD j =
      if j < 8 * n then w.getLsbD j else val.getLsbD (j - 8 * n) := by
  have hLt : j - 8 * n < 32 := by omega
  simp only [overHigh, BitVec.getLsbD_or, BitVec.getLsbD_and, BitVec.getLsbD_not,
    BitVec.getLsbD_shiftLeft, BitVec.getLsbD_allOnes, hj, hLt]
  split <;> simp [*]

theorem getLsbD_overLow (w val : BitVec 32) (n : Nat) {j : Nat} (hj : j < 32) :
    (overLow w val n).getLsbD j =
      if 8 * n + j < 32 then val.getLsbD (8 * n + j) else w.getLsbD j := by
  simp only [overLow, BitVec.getLsbD_or, BitVec.getLsbD_and, BitVec.getLsbD_not,
    BitVec.getLsbD_ushiftRight, BitVec.getLsbD_allOnes, hj]
  split <;> simp [*]

namespace Order

theorem byte_overHigh (w val : BitVec 32) {n j : Nat} (hj : j < 4) :
    big.byte (overHigh w val n) j =
      if j + n < 4 then big.byte val (j + n) else big.byte w j := by
  apply BitVec.eq_of_getLsbD_eq
  intro x hx
  have hLow : 8 * (3 - j) + x < 8 * n ↔ ¬j + n < 4 := by omega
  rw [getLsbD_byte .big _ _ hx, place, getLsbD_overHigh _ _ _ (by omega)]
  by_cases hIn : j + n < 4
  · have hIndex : 8 * (3 - j) + x - 8 * n = 8 * (3 - (j + n)) + x := by omega
    rw [if_neg (fun h => hLow.mp h hIn), if_pos hIn, getLsbD_byte .big _ _ hx, place, hIndex]
  · rw [if_pos (hLow.mpr hIn), if_neg hIn, getLsbD_byte .big _ _ hx, place]

theorem byte_overLow (w val : BitVec 32) {n j : Nat} (hj : j < 4) :
    big.byte (overLow w val n) j = if n ≤ j then big.byte val (j - n) else big.byte w j := by
  apply BitVec.eq_of_getLsbD_eq
  intro x hx
  have hLow : 8 * n + (8 * (3 - j) + x) < 32 ↔ n ≤ j := by omega
  rw [getLsbD_byte .big _ _ hx, place, getLsbD_overLow _ _ _ (by omega)]
  by_cases hIn : n ≤ j
  · have hIndex : 8 * n + (8 * (3 - j) + x) = 8 * (3 - (j - n)) + x := by omega
    rw [if_pos (hLow.mpr hIn), if_pos hIn, getLsbD_byte .big _ _ hx, place, hIndex]
  · rw [if_neg (fun h => hIn (hLow.mp h)), if_neg hIn, getLsbD_byte .big _ _ hx, place]

theorem eq_of_bytes (o : Order) {w w' : BitVec 32} (h : ∀ k < 4, o.byte w k = o.byte w' k) :
    w = w' := by
  rw [← word_byte o w, ← word_byte o w']
  exact word_congr o h

end Order

end ByteOrder
