import Sys161.Riscv.DebugAccess
import Sys161.Riscv.FetchRuns

/-!
# What a store leaves for a load

Loads and stores of every width at every address, over the bytes of main memory.
The words that an access touches are mapped to memory throughout.
-/

namespace Sys161.Riscv

open ByteOrder Exec
open Mips (Board wordIndex)

set_option autoImplicit false

variable {δ : Type} (b : Board δ) (i : Nat)

/-! ## Widths -/

namespace Memstyles

variable (ms : Memstyles)

/-- The number of bytes of an access. -/
def bytes : Nat :=
  match ms with
  | sbyte | ubyte => 1
  | shalf | uhalf => 2
  | word => 4

/-- The store of the width of a load. -/
def store : Memstyles :=
  match ms with
  | sbyte | ubyte => ubyte
  | shalf | uhalf => uhalf
  | word => word

/-- What is loaded from bytes. -/
def assemble (f : Nat → BitVec 8) : Word :=
  match ms with
  | sbyte => (f 0).signExtend 32
  | ubyte => (f 0).setWidth 32
  | shalf => (f 1 ++ f 0 : BitVec 16).signExtend 32
  | uhalf => (f 1 ++ f 0 : BitVec 16).setWidth 32
  | word => Order.little.word f

/-- What is to be loaded of a value. -/
def extend (val : Word) : Word :=
  match ms with
  | sbyte => (val.setWidth 8).signExtend 32
  | ubyte => (val.setWidth 8).setWidth 32
  | shalf => (val.setWidth 16).signExtend 32
  | uhalf => (val.setWidth 16).setWidth 32
  | word => val

theorem assemble_byte (val : Word) : ms.assemble (Order.little.byte val) = ms.extend val := by
  have hByte : Order.little.byte val 0 = val.setWidth 8 := by
    ext j
    simp [Order.byte, Order.place]
  have hHalf : (Order.little.byte val 1 ++ Order.little.byte val 0 : BitVec 16) =
      val.setWidth 16 := by
    rw [← BitVec.toNat_inj, BitVec.toNat_append,
      ← Nat.shiftLeft_add_eq_or_of_lt (BitVec.isLt _), Nat.shiftLeft_eq, Order.byte, Order.byte,
      BitVec.extractLsb'_toNat, BitVec.extractLsb'_toNat, BitVec.toNat_setWidth]
    simp only [Order.place, Nat.shiftRight_eq_div_pow]
    omega
  cases ms with
  | sbyte | ubyte => simp only [assemble, extend, hByte]
  | shalf | uhalf => simp only [assemble, extend, hHalf]
  | word => exact Order.word_byte .little val

theorem assemble_congr {f g : Nat → BitVec 8} (h : ∀ k < ms.bytes, f k = g k) :
    ms.assemble f = ms.assemble g := by
  cases ms with
  | sbyte | ubyte => simp only [assemble, h 0 (by decide)]
  | shalf | uhalf => simp only [assemble, h 0 (by decide), h 1 (by decide)]
  | word => exact Order.word_congr .little h

end Memstyles

/-! ## Bytes of memory -/

/-- The word of main memory at a physical address. -/
def cell (paddr : Word) : BitVec 30 := wordIndex (paddr - paddrRambase)

/-- The word that an access of `n` bytes touches. -/
def Touched (addr : Word) (n : Nat) (w : Word) : Prop :=
  ∃ k < n, w = alignDown (addr + BitVec.ofNat 32 k)

section Bytes

variable (phys : Word → Word) (addr val : Word) (n : Nat)

/-- The byte of memory at an address, where words are mapped by `phys`. -/
def byteAt (ram : BitVec 30 → Word) : BitVec 8 :=
  Order.little.byte (ram (cell (phys (alignDown addr)))) (addr &&& 3).toNat

/-- The bytes of a value stand in memory from an address on, and all other bytes are as they
were. -/
structure Laid (ram ram' : BitVec 30 → Word) : Prop where
  stored : ∀ k < n, byteAt phys (addr + BitVec.ofNat 32 k) ram' = Order.little.byte val k
  other : ∀ ix, ∀ j < 4, (∀ k < n, ix = cell (phys (alignDown (addr + BitVec.ofNat 32 k))) →
    j ≠ ((addr + BitVec.ofNat 32 k) &&& 3).toNat) →
    Order.little.byte (ram' ix) j = Order.little.byte (ram ix) j

end Bytes

/-! ## Lanes -/

section Lanes

variable (addr : Word) {k : Nat}

theorem lane_lt : (addr &&& 3).toNat < 4 := by
  rw [PageBits.toNat_align]
  omega

theorem toNat_alignDown : (alignDown addr).toNat = addr.toNat / 4 * 4 := PageBits.toNat_word addr

theorem lane_first (hk : (addr &&& 3).toNat + k < 4) :
    alignDown (addr + BitVec.ofNat 32 k) = alignDown addr ∧
      ((addr + BitVec.ofNat 32 k) &&& 3).toNat = (addr &&& 3).toNat + k := by
  have hAddr := addr.isLt
  rw [PageBits.toNat_align] at hk
  constructor
  · rw [← BitVec.toNat_inj, toNat_alignDown, toNat_alignDown, BitVec.toNat_add, BitVec.toNat_ofNat]
    omega
  · rw [PageBits.toNat_align, PageBits.toNat_align, BitVec.toNat_add, BitVec.toNat_ofNat]
    omega

theorem lane_second (hk : k < 4) (hNext : 4 ≤ (addr &&& 3).toNat + k) :
    alignDown (addr + BitVec.ofNat 32 k) = alignDown addr + 4 ∧
      ((addr + BitVec.ofNat 32 k) &&& 3).toNat = (addr &&& 3).toNat + k - 4 := by
  have hAddr := addr.isLt
  rw [PageBits.toNat_align] at hNext
  constructor
  · rw [← BitVec.toNat_inj, toNat_alignDown, BitVec.toNat_add, BitVec.toNat_add, toNat_alignDown,
      BitVec.toNat_ofNat]
    change _ = (_ + 4) % 2 ^ 32
    omega
  · rw [PageBits.toNat_align, PageBits.toNat_align, BitVec.toNat_add, BitVec.toNat_ofNat]
    omega

variable {addr} in
theorem byteAt_first {phys : Word → Word} {ram : BitVec 30 → Word}
    (hk : (addr &&& 3).toNat + k < 4) :
    byteAt phys (addr + BitVec.ofNat 32 k) ram =
      Order.little.byte (ram (cell (phys (alignDown addr)))) ((addr &&& 3).toNat + k) := by
  obtain ⟨hWord, hLane⟩ := lane_first addr hk
  rw [byteAt, hWord, hLane]

variable {addr} in
theorem byteAt_second {phys : Word → Word} {ram : BitVec 30 → Word} (hk : k < 4)
    (hNext : 4 ≤ (addr &&& 3).toNat + k) :
    byteAt phys (addr + BitVec.ofNat 32 k) ram =
      Order.little.byte (ram (cell (phys (alignDown addr + 4)))) ((addr &&& 3).toNat + k - 4) := by
  obtain ⟨hWord, hLane⟩ := lane_second addr hk hNext
  rw [byteAt, hWord, hLane]

theorem touched_first {n : Nat} (hn : 0 < n) : Touched addr n (alignDown addr) :=
  ⟨0, hn, congrArg alignDown (BitVec.add_zero addr).symm⟩

theorem touched_second {n : Nat} (hn : n ≤ 4) (hSplit : 4 < (addr &&& 3).toNat + n) :
    Touched addr n (alignDown addr + 4) := by
  have hLt := lane_lt addr
  exact ⟨n - 1, by omega, (lane_second addr (by omega) (by omega)).1.symm⟩

end Lanes

/-! ## What is put together from words -/

section Halves

variable (val val1 val2 : Word)

theorem natCast_shiftLeft (n k : Nat) : ((n <<< k : Nat) : Word) = (n : Word) <<< k := by
  apply BitVec.eq_of_toNat_eq
  rw [BitVec.toNat_shiftLeft, BitVec.natCast_eq_ofNat, BitVec.natCast_eq_ofNat,
    BitVec.toNat_ofNat, BitVec.toNat_ofNat, Nat.shiftLeft_eq, Nat.shiftLeft_eq, Nat.mod_mul_mod]

theorem lowBytes_two : lowBytes 2 = 0xffff := by decide

theorem byte_zero (k : Nat) : Order.little.byte 0 k = 0 := by
  simp [Order.byte]

theorem byte_low : Order.little.byte (val &&& 0xff) 0 = Order.little.byte val 0 := by
  apply BitVec.eq_of_getLsbD_eq
  intro j hj
  interval_cases j <;> simp [Order.byte, Order.place]

theorem byte_shift : Order.little.byte (val >>> 8) 0 = Order.little.byte val 1 := by
  apply BitVec.eq_of_getLsbD_eq
  intro j hj
  simp [Order.byte, Order.place]

theorem extract_half (k : Nat) :
    val.extractLsb' (8 * k) 16 = Order.little.byte val (k + 1) ++ Order.little.byte val k := by
  apply BitVec.eq_of_getLsbD_eq
  intro j hj
  rw [BitVec.getLsbD_append, BitVec.getLsbD_extractLsb']
  split
  next hLow => simp [Order.byte, Order.place, hLow, hj]
  next hHigh =>
    have hIndex : 8 * (k + 1) + (j - 8) = 8 * k + j := by omega
    have hLane : j - 8 < 8 := by omega
    simp [Order.byte, Order.place, hIndex, hLane, hj]

theorem join_half :
    ((val1 &&& 0xff000000) >>> 24 ||| ((val2 &&& 0xff) <<< 8)).setWidth 16 =
      Order.little.byte val2 0 ++ Order.little.byte val1 3 := by
  apply BitVec.eq_of_getLsbD_eq
  intro j hj
  rw [BitVec.getLsbD_append]
  interval_cases j <;> simp [Order.byte, Order.place]

theorem joinWords_eq {addr : Word} (hOff : addr &&& 3 ≠ 0) :
    joinWords addr val1 val2 = Order.little.word fun k =>
      if (addr &&& 3).toNat + k < 4 then Order.little.byte val1 ((addr &&& 3).toNat + k)
      else Order.little.byte val2 ((addr &&& 3).toNat + k - 4) := by
  have hLt := lane_lt addr
  have hNe : (addr &&& 3).toNat ≠ 0 := fun hZero => hOff (BitVec.eq_of_toNat_eq hZero)
  unfold joinWords
  generalize (addr &&& 3).toNat = lane at hLt hNe ⊢
  apply BitVec.eq_of_getLsbD_eq
  intro j hj
  rw [Order.getLsbD_word .little _ hj]
  interval_cases lane
  · contradiction
  all_goals
    simp only [Order.place]
    interval_cases j <;> simp [Order.byte, Order.place]

/-- What a store that is not aligned leaves for the load. -/
theorem join_split {addr : Word} (hOff : addr &&& 3 ≠ 0) :
    joinWords addr (splitWord addr val val1 val2).1 (splitWord addr val val1 val2).2 = val ↔
      val = 0 := by
  have hLt := lane_lt addr
  have hNe : (addr &&& 3).toNat ≠ 0 := fun hZero => hOff (BitVec.eq_of_toNat_eq hZero)
  have hVal := val.isLt
  unfold joinWords splitWord
  generalize (addr &&& 3).toNat = lane at hLt hNe ⊢
  have hJoined : (match lane with
      | 1 => val >>> 16
      | 2 => 0
      | _ => val <<< 16) = val ↔ val = 0 := by
    rw [← BitVec.toNat_inj, ← BitVec.toNat_inj]
    interval_cases lane
    · contradiction
    · change (val >>> 16).toNat = _ ↔ _ = 0
      rw [BitVec.toNat_ushiftRight, Nat.shiftRight_eq_div_pow]
      omega
    · exact eq_comm
    · change (val <<< 16).toNat = _ ↔ _ = 0
      rw [BitVec.toNat_shiftLeft, Nat.shiftLeft_eq]
      omega
  rw [← hJoined]
  apply Eq.congr_left
  apply BitVec.eq_of_getLsbD_eq
  intro j hj
  interval_cases lane
  · contradiction
  all_goals interval_cases j <;> simp

/-- Only zero bytes come out right. -/
theorem splitWord_zero {addr : Word} (hOff : addr &&& 3 ≠ 0) :
    splitWord addr 0 val1 val2 =
      (insertBytes val1 0 (addr &&& 3).toNat (4 - (addr &&& 3).toNat),
        insertBytes val2 0 0 (addr &&& 3).toNat) := by
  have hLt := lane_lt addr
  have hNe : (addr &&& 3).toNat ≠ 0 := fun hZero => hOff (BitVec.eq_of_toNat_eq hZero)
  unfold splitWord insertBytes
  generalize (addr &&& 3).toNat = lane at hLt hNe ⊢
  interval_cases lane
  · contradiction
  all_goals rfl

end Halves

/-! ## One word or two -/

section Words

variable {phys : Word → Word} {addr val : Word} {n : Nat} {ram : BitVec 30 → Word}

theorem laid_single (hFit : (addr &&& 3).toNat + n ≤ 4) {w : Word}
    (hBytes : ∀ j < 4, Order.little.byte w j =
      if (addr &&& 3).toNat ≤ j ∧ j < (addr &&& 3).toNat + n then
        Order.little.byte val (j - (addr &&& 3).toNat)
      else Order.little.byte (ram (cell (phys (alignDown addr)))) j) :
    Laid phys addr val n ram (Function.update ram (cell (phys (alignDown addr))) w) where
  stored k hk := by
    obtain ⟨hWord, hLane⟩ := lane_first addr (k := k) (by omega)
    rw [byteAt, hWord, hLane, Function.update_self, hBytes _ (by omega), if_pos (by omega),
      Nat.add_sub_cancel_left]
  other ix j hj hOther := by
    by_cases hIx : ix = cell (phys (alignDown addr))
    · subst hIx
      rw [Function.update_self, hBytes j hj, if_neg]
      rintro ⟨hLow, hHigh⟩
      obtain ⟨hWord, hLane⟩ := lane_first addr (k := j - (addr &&& 3).toNat) (by omega)
      refine hOther (j - (addr &&& 3).toNat) (by omega) (by rw [hWord]) ?_
      omega
    · rw [Function.update_of_ne hIx]

theorem laid_pair (hn : n ≤ 4) (hSplit : 4 < (addr &&& 3).toNat + n)
    (hApart : cell (phys (alignDown addr + 4)) ≠ cell (phys (alignDown addr))) {w₀ w₁ : Word}
    (hFirst : ∀ j < 4, Order.little.byte w₀ j =
      if (addr &&& 3).toNat ≤ j then Order.little.byte val (j - (addr &&& 3).toNat)
      else Order.little.byte (ram (cell (phys (alignDown addr)))) j)
    (hSecond : ∀ j < 4, Order.little.byte w₁ j =
      if j < (addr &&& 3).toNat + n - 4 then Order.little.byte val (j + 4 - (addr &&& 3).toNat)
      else Order.little.byte (ram (cell (phys (alignDown addr + 4)))) j) :
    Laid phys addr val n ram (Function.update
      (Function.update ram (cell (phys (alignDown addr))) w₀)
      (cell (phys (alignDown addr + 4))) w₁) where
  stored k hk := by
    by_cases hHere : (addr &&& 3).toNat + k < 4
    · obtain ⟨hWord, hLane⟩ := lane_first addr hHere
      rw [byteAt, hWord, hLane, Function.update_of_ne hApart.symm, Function.update_self,
        hFirst _ (by omega), if_pos (by omega), Nat.add_sub_cancel_left]
    · have hLt := lane_lt addr
      obtain ⟨hWord, hLane⟩ := lane_second addr (k := k) (by omega) (by omega)
      rw [byteAt, hWord, hLane, Function.update_self, hSecond _ (by omega), if_pos (by omega)]
      congr 1
      omega
  other ix j hj hOther := by
    have hLt := lane_lt addr
    by_cases hIx : ix = cell (phys (alignDown addr + 4))
    · subst hIx
      rw [Function.update_self, hSecond j hj, if_neg]
      intro hLow
      obtain ⟨hWord, hLane⟩ := lane_second addr (k := j + 4 - (addr &&& 3).toNat) (by omega)
        (by omega)
      refine hOther (j + 4 - (addr &&& 3).toNat) (by omega) (by rw [hWord]) ?_
      omega
    · rw [Function.update_of_ne hIx]
      by_cases hIx' : ix = cell (phys (alignDown addr))
      · subst hIx'
        rw [Function.update_self, hFirst j hj, if_neg]
        intro hLow
        obtain ⟨hWord, hLane⟩ := lane_first addr (k := j - (addr &&& 3).toNat) (by omega)
        refine hOther (j - (addr &&& 3).toNat) (by omega) (by rw [hWord]) ?_
        omega
      · rw [Function.update_of_ne hIx']

end Words

/-! ## Words that are mapped -/

/-- While `I` holds, the words of `ws` are mapped to main memory by `phys`; it goes on to hold as
these words are looked up and written. -/
structure Mapped (phys : Word → Word) (ws : Word → Prop) (I : Machine δ → Prop) : Prop where
  look : ∀ w rwx m, ws w → rwx ≠ .execute → I m →
    After (translatemem b i w rwx) (fun paddr t => paddr = phys w ∧ I t) (fun _ _ => False) m
  noLr : ∀ m, I m → I (m.modCpu i Riscvcpu.noLr)
  write : ∀ w val m, ws w → I m →
    I { m with ram := Function.update m.ram (cell (phys w)) val }
  memory : ∀ w, ws w → paddrRambase ≤ phys w ∧ phys w < paddrRombase ∧
    phys w - paddrRambase < b.busRamsize
  offset : ∀ w, ws w → phys w &&& 0xfff = w &&& 0xfff

namespace Mapped

variable {b i} {phys : Word → Word} {ws : Word → Prop} {I : Machine δ → Prop}
variable {m : Machine δ}

section Word

variable (h : Mapped b i phys ws I)

include h

theorem mono {ws' : Word → Prop} (hws : ∀ w, ws' w → ws w) : Mapped b i phys ws' I where
  look w rwx m hw := h.look w rwx m (hws w hw)
  noLr := h.noLr
  write w val m hw := h.write w val m (hws w hw)
  memory w hw := h.memory w (hws w hw)
  offset w hw := h.offset w (hws w hw)

/-- The words of an access that goes on in the next word are two. -/
theorem apart {w : Word} (hAlign : w &&& 0x3 = 0) (hw : ws w) (hNext : ws (w + 4)) :
    cell (phys (w + 4)) ≠ cell (phys w) := by
  have hOffset := congrArg BitVec.toNat (h.offset w hw)
  have hOffset' := congrArg BitVec.toNat (h.offset (w + 4) hNext)
  obtain ⟨hLow, -, -⟩ := h.memory w hw
  obtain ⟨hLow', -, -⟩ := h.memory (w + 4) hNext
  have hNat := congrArg BitVec.toNat hAlign
  rw [PageBits.toNat_align] at hNat
  rw [PageBits.toNat_offset, PageBits.toNat_offset] at hOffset hOffset'
  rw [BitVec.toNat_add] at hOffset'
  rw [BitVec.le_def] at hLow hLow'
  change 3221225472 ≤ _ at hLow hLow'
  change w.toNat % 4 = 0 at hNat
  change _ = (w.toNat + 4) % 2 ^ 32 % 4096 at hOffset'
  generalize phys (w + 4) = next at hLow' hOffset' ⊢
  intro hCell
  have hIndex := congrArg BitVec.toNat hCell
  simp only [cell, wordIndex, paddrRambase, BitVec.extractLsb'_toNat, BitVec.toNat_sub,
    BitVec.toNat_ofNat, BitVec.ofNat_eq_ofNat, Nat.shiftRight_eq_div_pow] at hIndex
  omega

theorem fetch {w : Word} {rwx : Memrwx} (hw : ws w) (hrwx : rwx ≠ .execute) (hm : I m) :
    After (domemFetch b i w rwx)
      (fun val t => val = m.ram (cell (phys w)) ∧ t.ram = m.ram ∧ I t) (fun _ _ => False) m := by
  obtain ⟨hLow, hHigh, hInside⟩ := h.memory w hw
  have hRam := keeps_translatemem b i (fun t u hu ht => hu.ram.trans ht) (fun _ _ _ ht => ht) w rwx
    m (rfl : m.ram = m.ram)
  unfold domemFetch
  rw [after_bind]
  refine ((h.look w rwx m hw hrwx hm).and hRam).mono ?_ fun _ _ he => he.1
  rintro paddr t ⟨⟨rfl, ht⟩, hSame⟩
  have hMem : phys w < paddrBusbase := by
    simp only [paddrRombase, paddrBusbase] at hHigh ⊢
    bv_omega
  rw [after_bind, after_fetchPhys_mem b i hMem, memFetch, if_neg (BitVec.not_lt.mpr hLow),
    if_pos hHigh, if_neg (BitVec.not_le.mpr hInside)]
  exact ⟨congrFun hSame _, hSame, ht⟩

theorem store {w val : Word} (hw : ws w) (hm : I m) :
    After (domemStore b i w val)
      (fun _ t => t.ram = Function.update m.ram (cell (phys w)) val ∧ I t) (fun _ _ => False) m := by
  obtain ⟨hLow, hHigh, hInside⟩ := h.memory w hw
  have hRam := keeps_translatemem b i (fun t u hu ht => hu.ram.trans ht) (fun _ _ _ ht => ht) w
    .write m (rfl : m.ram = m.ram)
  unfold domemStore
  rw [after_bind]
  refine ((h.look w .write m hw (by simp) hm).and hRam).mono ?_ fun _ _ he => he.1
  rintro paddr t ⟨⟨rfl, ht⟩, hSame⟩
  unfold storePhys busMemStore
  rw [if_neg (BitVec.not_lt.mpr hLow), if_pos hHigh, if_neg (BitVec.not_le.mpr hInside),
    after_bind, after_bind, after_modify]
  refine ⟨?_, h.write w val t hw ht⟩
  rw [← show t.ram = m.ram from hSame]
  rfl

end Word

/-! ### Loads -/

theorem word_byteAt {addr : Word} {ram : BitVec 30 → Word} (hOff : addr &&& 3 ≠ 0) :
    Order.little.word (fun k => byteAt phys (addr + BitVec.ofNat 32 k) ram) =
      joinWords addr (ram (cell (phys (alignDown addr))))
        (ram (cell (phys (alignDown addr + 4)))) := by
  rw [joinWords_eq _ _ hOff]
  refine Order.word_congr .little fun k hk => ?_
  split
  next hHere => rw [byteAt_first hHere]
  next hThere => rw [byteAt_second hk (by omega)]

theorem loadHalf {addr : Word} (h : Mapped b i phys (Touched addr 2) I) {rwx : Memrwx}
    (hrwx : rwx ≠ .execute) (hm : I m) :
    After (loadHalf b i addr rwx)
      (fun got t => got = byteAt phys (addr + BitVec.ofNat 32 1) m.ram ++
        byteAt phys (addr + BitVec.ofNat 32 0) m.ram ∧ t.ram = m.ram ∧ I t)
      (fun _ _ => False) m := by
  have hLt := lane_lt addr
  unfold Riscv.loadHalf
  rw [after_bind]
  refine (h.fetch (touched_first addr (by decide)) hrwx hm).mono ?_ fun _ _ he => he
  rintro val t ⟨rfl, hRam, ht⟩
  by_cases hSplit : addr &&& 3 = 3
  · have hLane : (addr &&& 3).toNat = 3 := by
      rw [hSplit]
      rfl
    rw [if_pos hSplit, after_bind]
    refine (h.fetch (touched_second addr (by decide) (by omega)) hrwx ht).mono ?_ fun _ _ he => he
    rintro next u ⟨rfl, hRam', hu⟩
    refine ⟨?_, hRam'.trans hRam, hu⟩
    rw [byteAt_first (k := 0) (by omega), byteAt_second (k := 1) (by decide) (by omega), join_half,
      hRam, hLane]
  · have hLane : (addr &&& 3).toNat < 3 := by
      have hNe : (addr &&& 3).toNat ≠ 3 := fun hThree => hSplit (BitVec.eq_of_toNat_eq hThree)
      omega
    rw [if_neg hSplit]
    refine ⟨?_, hRam, ht⟩
    rw [byteAt_first (k := 0) (by omega), byteAt_first (k := 1) (by omega), extract_half]
    rfl

theorem loadWord {addr : Word} (h : Mapped b i phys (Touched addr 4) I) {rwx : Memrwx}
    (hrwx : rwx ≠ .execute) (hm : I m) :
    After (if addr &&& 3 = 0 then domemFetch b i (alignDown addr) rwx
      else do
        let val1 ← domemFetch b i (alignDown addr) rwx
        let val2 ← domemFetch b i (alignDown addr + 4) rwx
        return joinWords addr val1 val2)
      (fun got t => got = Order.little.word (fun k => byteAt phys (addr + BitVec.ofNat 32 k) m.ram) ∧
        t.ram = m.ram ∧ I t) (fun _ _ => False) m := by
  have hFirst := h.fetch (touched_first addr (by decide)) hrwx hm
  rw [after_ite]
  split
  next hAlign =>
    have hLane : (addr &&& 3).toNat = 0 := by
      rw [hAlign]
      rfl
    refine hFirst.mono ?_ fun _ _ he => he
    rintro val t ⟨rfl, hRam, ht⟩
    refine ⟨?_, hRam, ht⟩
    rw [← Order.word_byte .little (m.ram _)]
    refine Order.word_congr .little fun k hk => ?_
    rw [byteAt_first (by omega), hLane, Nat.zero_add]
  next hOff =>
    have hLt := lane_lt addr
    have hLane : (addr &&& 3).toNat ≠ 0 := fun hZero => hOff (BitVec.eq_of_toNat_eq hZero)
    rw [after_bind]
    refine hFirst.mono ?_ fun _ _ he => he
    rintro val1 t ⟨rfl, hRam, ht⟩
    rw [after_bind]
    refine (h.fetch (touched_second addr (by decide) (by omega)) hrwx ht).mono ?_ fun _ _ he => he
    rintro val2 u ⟨rfl, hRam', hu⟩
    refine ⟨?_, hRam'.trans hRam, hu⟩
    rw [word_byteAt hOff, hRam]

theorem doload {addr : Word} {ms : Memstyles} (h : Mapped b i phys (Touched addr ms.bytes) I)
    (willbewrite : Bool) (hm : I m) :
    After (doload b i ms willbewrite addr)
      (fun got t => got = ms.assemble (fun k => byteAt phys (addr + BitVec.ofNat 32 k) m.ram) ∧
        t.ram = m.ram ∧ I t) (fun _ _ => False) m := by
  have hrwx : (if willbewrite then Memrwx.write else .read) ≠ .execute := by
    cases willbewrite <;> simp
  have hLt := lane_lt addr
  have hNoLr := h.noLr m hm
  unfold Riscv.doload
  rw [after_bind, after_modCpu]
  dsimp only
  cases ms with
  | sbyte | ubyte =>
    rw [after_bind]
    refine (h.fetch (touched_first addr (by decide)) hrwx hNoLr).mono ?_ fun _ _ he => he
    rintro val t ⟨rfl, hRam, ht⟩
    refine ⟨?_, hRam, ht⟩
    rw [Memstyles.assemble, byteAt_first (by omega)]
    rfl
  | shalf | uhalf =>
    rw [after_bind]
    refine (Mapped.loadHalf h hrwx hNoLr).mono ?_ fun _ _ he => he
    rintro half t ⟨rfl, hRam, ht⟩
    exact ⟨rfl, hRam, ht⟩
  | word => exact Mapped.loadWord h hrwx hNoLr

/-! ### Stores -/

section Stores

variable (h : Mapped b i phys ws I)

include h

theorem modifyWord {addr mask val : Word} (hw : ws (alignDown addr)) (hm : I m) :
    After (modifyWord b i addr mask val)
      (fun _ t => t.ram = Function.update m.ram (cell (phys (alignDown addr)))
        ((m.ram (cell (phys (alignDown addr))) &&& ~~~mask) ||| val) ∧ I t)
      (fun _ _ => False) m := by
  unfold Riscv.modifyWord
  rw [after_bind]
  refine (h.fetch hw (by simp) hm).mono ?_ fun _ _ he => he
  rintro wval t ⟨rfl, hRam, ht⟩
  rw [← hRam]
  exact h.store hw ht

theorem storeByte {addr val : Word} (hw : ws (alignDown addr)) (hm : I m) :
    After (storeByte b i addr val)
      (fun _ t => t.ram = Function.update m.ram (cell (phys (alignDown addr)))
        (insertBytes (m.ram (cell (phys (alignDown addr)))) val (addr &&& 3).toNat 1) ∧ I t)
      (fun _ _ => False) m := by
  unfold Riscv.storeByte
  rw [after_bind, after_modCpu]
  exact h.modifyWord hw (h.noLr m hm)

theorem storeHalf_split {addr val : Word} (hSplit : addr &&& 3 = 3) (hw : ws (alignDown addr))
    (hNext : ws (alignDown addr + 4)) (hm : I m) :
    After (storeHalf b i addr val)
      (fun _ t => t.ram = Function.update
        (Function.update m.ram (cell (phys (alignDown addr)))
          (insertBytes (m.ram (cell (phys (alignDown addr)))) (val &&& 0xff) 3 1))
        (cell (phys (alignDown addr + 4)))
        (insertBytes (m.ram (cell (phys (alignDown addr + 4)))) ((val >>> 8) &&& 0xff) 0 1) ∧ I t)
      (fun _ _ => False) m := by
  have hLane : (addr &&& 3).toNat = 3 := by
    rw [hSplit]
    rfl
  obtain ⟨hWord, hLane'⟩ := lane_second addr (k := 1) (by decide) (by omega)
  have hApart := h.apart (align_alignDown addr) hw hNext
  unfold Riscv.storeHalf
  rw [after_bind, after_modCpu, if_pos hSplit, after_bind]
  refine (h.storeByte hw (h.noLr m hm)).mono ?_ fun _ _ he => he
  rintro ⟨⟩ t ⟨hRam, ht⟩
  have hSecond : After (Riscv.storeByte b i (addr + BitVec.ofNat 32 1) ((val >>> 8) &&& 0xff)) _ _
      t := h.storeByte (by rwa [hWord]) ht
  rw [hWord, hLane', hLane, hRam, hLane, Function.update_of_ne hApart] at hSecond
  exact hSecond

theorem storeWord_split {addr val : Word} (hOff : addr &&& 3 ≠ 0) (hw : ws (alignDown addr))
    (hNext : ws (alignDown addr + 4)) (hm : I m) :
    After (storeWord b i addr val)
      (fun _ t => t.ram = Function.update
        (Function.update m.ram (cell (phys (alignDown addr)))
          (splitWord addr val (m.ram (cell (phys (alignDown addr))))
            (m.ram (cell (phys (alignDown addr + 4))))).1)
        (cell (phys (alignDown addr + 4)))
        (splitWord addr val (m.ram (cell (phys (alignDown addr))))
          (m.ram (cell (phys (alignDown addr + 4))))).2 ∧ I t)
      (fun _ _ => False) m := by
  unfold Riscv.storeWord
  rw [after_bind, after_modCpu, if_neg hOff, after_bind]
  refine (h.fetch hw (by simp) (h.noLr m hm)).mono ?_ fun _ _ he => he
  rintro val1 t ⟨rfl, hRam, ht⟩
  rw [after_bind]
  refine (h.fetch hNext (by simp) ht).mono ?_ fun _ _ he => he
  rintro val2 u ⟨rfl, hRam', hu⟩
  dsimp only
  rw [after_bind]
  refine (h.store hw hu).mono ?_ fun _ _ he => he
  rintro ⟨⟩ v ⟨hRam'', hv⟩
  have hLast : After (domemStore b i (alignDown addr + 4) (splitWord addr val
      (m.ram (cell (phys (alignDown addr)))) (m.ram (cell (phys (alignDown addr + 4))))).2) _ _ v :=
    h.store hNext hv
  rw [hRam'', hRam', hRam] at hLast
  rw [hRam]
  exact hLast

end Stores

theorem storeHalf {addr val : Word} (h : Mapped b i phys (Touched addr 2) I) (hm : I m) :
    After (storeHalf b i addr val)
      (fun _ t => Laid phys addr val 2 m.ram t.ram ∧ I t) (fun _ _ => False) m := by
  have hLt := lane_lt addr
  have hFirst := touched_first addr (n := 2) (by decide)
  by_cases hSplit : addr &&& 3 = 3
  · have hLane : (addr &&& 3).toNat = 3 := by
      rw [hSplit]
      rfl
    have hNext := touched_second addr (n := 2) (by decide) (by omega)
    refine (h.storeHalf_split hSplit hFirst hNext hm).mono ?_ fun _ _ he => he
    rintro ⟨⟩ t ⟨hRam, ht⟩
    rw [hRam]
    refine ⟨laid_pair (by decide) (by omega) (h.apart (align_alignDown addr) hFirst hNext)
      (fun j hj => ?_) (fun j hj => ?_), ht⟩
    · rw [Order.byte_insertBytes _ _ hj, hLane]
      by_cases hLast : 3 ≤ j
      · have hIndex : j - 3 = 0 := by omega
        rw [if_pos ⟨hLast, hj⟩, if_pos hLast, hIndex, byte_low]
      · rw [if_neg (fun hIn => hLast hIn.1), if_neg hLast]
    · rw [Order.byte_insertBytes _ _ hj, hLane]
      by_cases hZero : j < 1
      · have hIndex : j = 0 := by omega
        rw [if_pos ⟨Nat.zero_le j, by omega⟩, if_pos (by omega), hIndex, byte_low]
        exact byte_shift val
      · rw [if_neg (by omega), if_neg (by omega)]
  · have hLane : (addr &&& 3).toNat ≠ 3 := fun hThree => hSplit (BitVec.eq_of_toNat_eq hThree)
    unfold Riscv.storeHalf
    rw [after_bind, after_modCpu, if_neg hSplit]
    refine (h.modifyWord hFirst (h.noLr m hm)).mono ?_ fun _ _ he => he
    rintro ⟨⟩ t ⟨hRam, ht⟩
    have hMask : (((0xffff <<< (8 * (addr &&& 3).toNat) : Nat)) : Word) =
        lowBytes 2 <<< (8 * (addr &&& 3).toNat) := natCast_shiftLeft _ _
    rw [hRam, hMask, ← lowBytes_two]
    exact ⟨laid_single (by omega) fun j hj => Order.byte_insertBytes _ _ hj, ht⟩

theorem storeWord {addr val : Word} (h : Mapped b i phys (Touched addr 4) I)
    (hRight : addr &&& 3 = 0 ∨ val = 0) (hm : I m) :
    After (storeWord b i addr val)
      (fun _ t => Laid phys addr val 4 m.ram t.ram ∧ I t) (fun _ _ => False) m := by
  have hLt := lane_lt addr
  have hFirst := touched_first addr (n := 4) (by decide)
  by_cases hAlign : addr &&& 3 = 0
  · have hLane : (addr &&& 3).toNat = 0 := by
      rw [hAlign]
      rfl
    have hWord : addr = alignDown addr := by
      apply BitVec.eq_of_toNat_eq
      rw [toNat_alignDown]
      rw [PageBits.toNat_align] at hLane
      omega
    unfold Riscv.storeWord
    rw [after_bind, after_modCpu, if_pos hAlign]
    have hStore : After (domemStore b i (alignDown addr) val) _ _ (m.modCpu i Riscvcpu.noLr) :=
      h.store hFirst (h.noLr m hm)
    rw [← hWord] at hStore
    refine hStore.mono ?_ fun _ _ he => he
    rintro ⟨⟩ t ⟨hRam, ht⟩
    have hLaid : Laid phys addr val 4 m.ram
        (Function.update m.ram (cell (phys (alignDown addr))) val) := by
      apply laid_single (by omega)
      intro j hj
      rw [if_pos (by omega), hLane, Nat.sub_zero]
    rw [hRam]
    rw [← hWord] at hLaid
    exact ⟨hLaid, ht⟩
  · have hLane : (addr &&& 3).toNat ≠ 0 := fun hZero => hAlign (BitVec.eq_of_toNat_eq hZero)
    obtain rfl := hRight.resolve_left hAlign
    have hNext := touched_second addr (n := 4) (by decide) (by omega)
    refine (h.storeWord_split hAlign hFirst hNext hm).mono ?_ fun _ _ he => he
    rintro ⟨⟩ t ⟨hRam, ht⟩
    rw [hRam, splitWord_zero _ _ hAlign]
    refine ⟨laid_pair (by decide) (by omega) (h.apart (align_alignDown addr) hFirst hNext)
      (fun j hj => ?_) (fun j hj => ?_), ht⟩
    · rw [Order.byte_insertBytes _ _ hj]
      by_cases hIn : (addr &&& 3).toNat ≤ j
      · rw [if_pos ⟨hIn, by omega⟩, if_pos hIn]
      · rw [if_neg (fun h => hIn h.1), if_neg hIn]
    · rw [Order.byte_insertBytes _ _ hj]
      by_cases hIn : j < (addr &&& 3).toNat
      · rw [if_pos ⟨Nat.zero_le j, by omega⟩, if_pos (by omega), byte_zero, byte_zero]
      · rw [if_neg (by omega), if_neg (by omega)]

/-- A store lays the bytes of its value, where the defect of the unaligned word does not show. -/
theorem dostore {addr val : Word} {ms : Memstyles} (h : Mapped b i phys (Touched addr ms.bytes) I)
    (hRight : ms ≠ .word ∨ addr &&& 3 = 0 ∨ val = 0) (hm : I m) :
    After (dostore b i ms.store addr val)
      (fun _ t => Laid phys addr val ms.bytes m.ram t.ram ∧ I t) (fun _ _ => False) m := by
  cases ms with
  | sbyte | ubyte =>
    refine (h.storeByte (touched_first addr (by decide)) hm).mono ?_ fun _ _ he => he
    rintro ⟨⟩ t ⟨hRam, ht⟩
    rw [hRam]
    exact ⟨laid_single (lane_lt addr) fun j hj => Order.byte_insertBytes _ _ hj, ht⟩
  | shalf | uhalf => exact Mapped.storeHalf h hm
  | word => exact Mapped.storeWord h (hRight.resolve_left fun hNe => hNe rfl) hm

end Mapped

/-! ## Words that a page table maps -/

theorem topIx_page (vaddr : Word) : topIx (vaddr &&& 0xfffff000) = topIx vaddr := by
  unfold topIx
  rw [BitVec.and_assoc]
  rfl

theorem secondIx_page (vaddr : Word) : secondIx (vaddr &&& 0xfffff000) = secondIx vaddr := by
  unfold secondIx
  rw [BitVec.and_assoc]
  rfl

/-- What an entry comes to, its faults apart, does not depend on the access. -/
theorem topEntry_ok {entry vaddr vaddr' : Word} {rwx rwx' : Memrwx} {found : Word ⊕ Leaf}
    (h : topEntry entry vaddr rwx = .ok found) : topEntry entry vaddr' rwx' = .ok found := by
  have hSame := (debugTopEntry_eq entry vaddr rwx).symm.trans (debugTopEntry_eq entry vaddr' rwx')
  rw [h] at hSame
  cases hEntry : topEntry entry vaddr' rwx' <;> simp_all [Except.toOption]

theorem secondEntry_ok {entry vaddr vaddr' : Word} {rwx rwx' : Memrwx} {leaf : Leaf}
    (h : secondEntry entry vaddr rwx = .ok leaf) : secondEntry entry vaddr' rwx' = .ok leaf := by
  have hSame := (debugSecondEntry_eq entry vaddr rwx).symm.trans
    (debugSecondEntry_eq entry vaddr' rwx')
  rw [h] at hSame
  cases hEntry : secondEntry entry vaddr' rwx' <;> simp_all [Except.toOption]

namespace Riscvcpu

variable {c : Riscvcpu} {ram : BitVec 30 → Word} {vaddr vaddr' : Word} {rwx rwx' : Memrwx}
variable {leaf : Leaf}

theorem tableLeaf_page (hPage : vaddr &&& 0xfffff000 = vaddr' &&& 0xfffff000)
    (h : c.tableLeaf b ram vaddr rwx = .ok leaf) : c.tableLeaf b ram vaddr' rwx' = .ok leaf := by
  have hTopIx : topIx vaddr' = topIx vaddr := by rw [← topIx_page, ← hPage, topIx_page]
  have hSecondIx : secondIx vaddr' = secondIx vaddr := by
    rw [← secondIx_page, ← hPage, secondIx_page]
  unfold tableLeaf at h ⊢
  rw [hTopIx, hSecondIx]
  cases hTop : c.mmuPttoppage with
  | none => simp [hTop] at h
  | some page =>
    simp only [hTop] at h
    dsimp only
    cases hEntry : topEntry (busUseMap ram page (topIx vaddr)) vaddr rwx with
    | error t => simp [hEntry] at h
    | ok found =>
      rw [topEntry_ok hEntry]
      simp only [hEntry] at h
      cases found with
      | inr leaf' => exact h
      | inl ptpaddr =>
        dsimp only at h ⊢
        cases hRead : memFetch b ram (ptpaddr + secondIx vaddr) with
        | none => simp [hRead] at h
        | some entry =>
          simp only [hRead] at h
          exact secondEntry_ok h

end Riscvcpu

/-- A page table maps words to main memory, the cache does not say otherwise, and none of the words
are part of the page table. -/
structure TableMaps (c : Riscvcpu) (ram : BitVec 30 → Word) (phys : Word → Word)
    (ws : Word → Prop) : Prop where
  enabled : c.mmuEnable = true
  aligned : ∀ w, ws w → w &&& 0x3 = 0
  inMemory : ∀ w, ws w → c.EntryInMemory ram w
  walk : ∀ w rwx, ws w → rwx ≠ .execute → c.tableWalk b ram w rwx = .ok (phys w)
  answer : ∀ w rwx, ws w → rwx ≠ .execute → c.translation b ram w rwx = .ok (phys w)
  memory : ∀ w, ws w → paddrRambase ≤ phys w ∧ phys w < paddrRombase ∧
    phys w - paddrRambase < b.busRamsize
  apart : ∀ w w', ws w → ws w' → ¬c.WalkReads ram w (cell (phys w'))

namespace TableMaps

variable {b} {c : Riscvcpu} {ram : BitVec 30 → Word} {phys : Word → Word} {ws : Word → Prop}

/-- The cache may take up the leaf of one of the words. -/
theorem fill (h : TableMaps b c ram phys ws) {w : Word} {rwx : Memrwx} {leaf : Leaf}
    (hLeaf : c.tableLeaf b ram w rwx = .ok leaf) : TableMaps b (c.fill w leaf) ram phys ws := by
  cases hSmall : leaf.superpage with
  | true =>
    rw [Riscvcpu.fill, if_pos hSmall]
    exact h
  | false =>
    have hAnswer : ∀ w' rwx', ws w' → rwx' ≠ .execute →
        (c.fill w leaf).translation b ram w' rwx' = .ok (phys w') := by
      intro w' rwx' hw' hrwx'
      have hWalk := h.walk w' rwx' hw' hrwx'
      by_cases hPage : w &&& 0xfffff000 = w' &&& 0xfffff000
      · have hFill : c.fill w leaf = c.fill w' leaf := by
          unfold Riscvcpu.fill
          rw [hPage]
        rw [Riscvcpu.tableWalk, Riscvcpu.tableLeaf_page b hPage hLeaf] at hWalk
        rw [hFill]
        exact Riscvcpu.translation_fill b ram h.enabled hSmall hWalk
      · have hMiss : ¬w' &&& 0xfffff000 = (c.fill w leaf).mmuCachedVpage := by
          rw [Riscvcpu.fill, if_neg (by simp [hSmall])]
          exact fun hHit => hPage hHit.symm
        have hOn : ¬(c.fill w leaf).mmuEnable = false := by
          rw [Riscvcpu.fill, if_neg (by simp [hSmall])]
          simp [h.enabled]
        rw [Riscvcpu.translation, if_neg hOn, if_neg hMiss, Riscvcpu.fill,
          if_neg (by simp [hSmall])]
        exact hWalk
    rw [Riscvcpu.fill, if_neg (by simp [hSmall])] at hAnswer ⊢
    exact ⟨h.enabled, h.aligned, h.inMemory, h.walk, hAnswer, h.memory, h.apart⟩

theorem write (h : TableMaps b c ram phys ws) {w : Word} (val : Word) (hw : ws w) :
    TableMaps b c (Function.update ram (cell (phys w)) val) phys ws := by
  have hSame : ∀ w', ws w' → ∀ ix, c.WalkReads ram w' ix →
      Function.update ram (cell (phys w)) val ix = ram ix := by
    intro w' hw' ix hReads
    apply Function.update_of_ne
    rintro rfl
    exact h.apart w' w hw' hw hReads
  have hWalk : ∀ w' rwx, ws w' → rwx ≠ .execute →
      c.tableWalk b (Function.update ram (cell (phys w)) val) w' rwx = .ok (phys w') := by
    intro w' rwx hw' hrwx
    rw [Riscvcpu.tableWalk, Riscvcpu.tableLeaf_congr b (hSame w' hw')]
    exact h.walk w' rwx hw' hrwx
  constructor
  · exact h.enabled
  · exact h.aligned
  · intro w' hw'
    rw [Riscvcpu.EntryInMemory, Riscvcpu.entryAddr_congr (hSame w' hw')]
    exact h.inMemory w' hw'
  · exact hWalk
  · intro w' rwx hw' hrwx
    have hAnswer := h.answer w' rwx hw' hrwx
    unfold Riscvcpu.translation at hAnswer ⊢
    split
    next hOff => rwa [if_pos hOff] at hAnswer
    next hOn =>
      split
      next hHit => rwa [if_neg hOn, if_pos hHit] at hAnswer
      next hMiss => exact hWalk w' rwx hw' hrwx
  · exact h.memory
  · intro w' w'' hw' hw'' hReads
    rw [Riscvcpu.WalkReads, Riscvcpu.entryAddr_congr (hSame w' hw')] at hReads
    exact h.apart w' w'' hw' hw'' hReads

/-- The words of an access are mapped as long as it is to words that a page table maps. -/
theorem mapped (h : TableMaps b c ram phys ws) :
    Mapped b i phys ws (fun t : Machine δ => TableMaps b (t.mycpus i) t.ram phys ws) where
  look w rwx t hw hrwx ht := by
    have hAnswer := ht.answer w rwx hw hrwx
    unfold translatemem
    rw [if_neg (not_not_intro (even_of_aligned (ht.aligned w hw))), after_bind, after_getCpu,
      if_neg (by simp [ht.enabled])]
    unfold Riscvcpu.translation at hAnswer
    rw [if_neg (by simp [ht.enabled])] at hAnswer
    split
    next hHit =>
      rw [if_pos hHit] at hAnswer
      split
      next hAllows =>
        rw [if_pos hAllows] at hAnswer
        exact ⟨Except.ok.inj hAnswer, ht⟩
      next hRefused => simp [hRefused] at hAnswer
    next hMiss =>
      rw [if_neg hMiss] at hAnswer
      unfold Riscvcpu.tableWalk at hAnswer
      unfold Riscv.walk
      rw [after_bind, after_findLeaf_mem b i (ht.inMemory w hw)]
      cases hLeaf : (t.mycpus i).tableLeaf b t.ram w rwx with
      | error e => simp [hLeaf] at hAnswer
      | ok leaf =>
        simp only [hLeaf] at hAnswer
        rw [after_liftTrap_ok, after_bind, after_getCpu, after_bind, hAnswer, after_liftTrap_ok,
          after_bind, after_modCpu, after_pure, Machine.modCpu_mycpus_self]
        exact ⟨rfl, ht.fill hLeaf⟩
  noLr t ht := by
    rw [Machine.modCpu_mycpus_self]
    exact ⟨ht.enabled, ht.aligned, ht.inMemory, ht.walk, ht.answer, ht.memory, ht.apart⟩
  write w val t hw ht := ht.write val hw
  memory := h.memory
  offset w hw := by
    have hWalk := h.walk w .read hw (by simp)
    unfold Riscvcpu.tableWalk at hWalk
    cases hLeaf : c.tableLeaf b ram w .read with
    | error e => simp [hLeaf] at hWalk
    | ok leaf =>
      simp only [hLeaf] at hWalk
      exact Riscvcpu.offset_check hWalk

end TableMaps

theorem mapped_disabled {ws : Word → Prop}
    (hws : ∀ w, ws w → w &&& 0x3 = 0 ∧ paddrRambase ≤ w ∧ w < paddrRombase ∧
      w - paddrRambase < b.busRamsize) :
    Mapped b i id ws (fun t : Machine δ => (t.mycpus i).mmuEnable = false) where
  look w rwx t hw hrwx ht := by
    unfold translatemem
    rw [if_neg (not_not_intro (even_of_aligned (hws w hw).1)), after_bind, after_getCpu, if_pos ht]
    exact ⟨rfl, ht⟩
  noLr t ht := by
    rw [Machine.modCpu_mycpus_self]
    exact ht
  write w val t hw ht := ht
  memory w hw := (hws w hw).2
  offset w hw := rfl

/-! ## A store and a load -/

section Main

variable {b i} {phys : Word → Word} {I : Machine δ → Prop} {addr : Word} {ms : Memstyles}
  (h : Mapped b i phys (Touched addr ms.bytes) I) (val : Word) (willbewrite : Bool) {m : Machine δ}
  (hm : I m)

include h hm

theorem store_load_split (hms : ms = .word) (hOff : addr &&& 3 ≠ 0) :
    After (do
      dostore b i ms.store addr val
      doload b i ms willbewrite addr)
      (fun got _ => got = val ↔ val = 0) (fun _ _ => False) m := by
  subst hms
  have hLt := lane_lt addr
  have hLane : (addr &&& 3).toNat ≠ 0 := fun hZero => hOff (BitVec.eq_of_toNat_eq hZero)
  have hFirst := touched_first addr (n := 4) (by decide)
  have hNext := touched_second addr (n := 4) (by decide) (by omega)
  have hApart := h.apart (align_alignDown addr) hFirst hNext
  rw [after_bind]
  refine (h.storeWord_split hOff hFirst hNext hm).mono ?_ fun _ _ he => he
  rintro ⟨⟩ t ⟨hRam, ht⟩
  refine (Mapped.doload h willbewrite ht).mono ?_ fun _ _ he => he
  rintro got u ⟨rfl, -, -⟩
  rw [Memstyles.assemble, Mapped.word_byteAt hOff, hRam, Function.update_of_ne hApart.symm,
    Function.update_self, Function.update_self, join_split _ _ _ hOff]

/-- A store leaves its value for the load, in bytes of its own, but for words that are neither
aligned nor zero. -/
theorem store_load_iff :
    After (do
      dostore b i ms.store addr val
      doload b i ms willbewrite addr)
      (fun got t => got = ms.extend val ∧ Laid phys addr val ms.bytes m.ram t.ram)
      (fun _ _ => False) m ↔ ms ≠ .word ∨ addr &&& 3 = 0 ∨ val = 0 := by
  constructor
  · intro hAfter
    by_contra hWrong
    simp only [not_or, not_not] at hWrong
    obtain ⟨hms, hOff, hVal⟩ := hWrong
    have hGot := hAfter.and (store_load_split h val willbewrite hm hms hOff)
    refine exists_end hGot ?_ fun _ _ he => he.1
    rintro got t ⟨⟨hExtend, -⟩, hIff⟩
    subst hms
    exact hVal (hIff.mp hExtend)
  · intro hRight
    rw [after_bind]
    refine (Mapped.dostore h hRight hm).mono ?_ fun _ _ he => he
    rintro ⟨⟩ t ⟨hLaid, ht⟩
    refine (Mapped.doload h willbewrite ht).mono ?_ fun _ _ he => he
    rintro got u ⟨rfl, hRam, -⟩
    rw [hRam]
    refine ⟨?_, hLaid⟩
    rw [ms.assemble_congr hLaid.stored, ms.assemble_byte]

end Main

theorem touched_half (w : Word) (hw : Touched 0xc0000003 Memstyles.shalf.bytes w) :
    w &&& 0x3 = 0 ∧ paddrRambase ≤ w ∧ w < paddrRombase ∧
      w - paddrRambase < bareBoard.busRamsize := by
  obtain ⟨k, hk, rfl⟩ := hw
  change k < 2 at hk
  interval_cases k <;> decide

theorem store_load_half :
    After (do
      dostore bareBoard 0 .uhalf 0xc0000003 0x8765
      doload bareBoard 0 .shalf false 0xc0000003)
      (fun got t => got = 0xffff8765 ∧
        Laid id 0xc0000003 0x8765 2 (machineInit () true : Machine Unit).ram t.ram)
      (fun _ _ => False) (machineInit () true) :=
  (store_load_iff (mapped_disabled bareBoard 0 touched_half) 0x8765 false rfl).mpr
    (.inl (by decide))

theorem touched_word (w : Word) (hw : Touched 0xc0000001 Memstyles.word.bytes w) :
    w &&& 0x3 = 0 ∧ paddrRambase ≤ w ∧ w < paddrRombase ∧
      w - paddrRambase < bareBoard.busRamsize := by
  obtain ⟨k, hk, rfl⟩ := hw
  change k < 4 at hk
  interval_cases k <;> decide

theorem not_store_load :
    ¬ ∀ (phys : Word → Word) (I : Machine Unit → Prop) (addr val : Word) (ms : Memstyles)
      (willbewrite : Bool) (m : Machine Unit),
      Mapped bareBoard 0 phys (Touched addr ms.bytes) I → I m →
      After (do
        dostore bareBoard 0 ms.store addr val
        doload bareBoard 0 ms willbewrite addr)
        (fun got t => got = ms.extend val ∧ Laid phys addr val ms.bytes m.ram t.ram)
        (fun _ _ => False) m := by
  intro h
  have hMapped := mapped_disabled bareBoard 0 touched_word
  have hAfter := h id _ 0xc0000001 0x12345678 .word false (machineInit () true) hMapped rfl
  have hSplit := store_load_split hMapped 0x12345678 false
    (rfl : ((machineInit () true : Machine Unit).mycpus 0).mmuEnable = false) rfl (by decide)
  refine exists_end (hAfter.and hSplit) ?_ fun _ _ he => he.1
  rintro got t ⟨⟨hGot, -⟩, hIff⟩
  exact absurd (hIff.mp hGot) (by decide)

end Sys161.Riscv
