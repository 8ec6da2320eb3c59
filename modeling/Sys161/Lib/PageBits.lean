import Mathlib.Data.BitVec

/-!
# Pages and offsets

Addresses of 32 bits as a page of 4096 bytes and an offset into it.
-/

namespace PageBits

set_option autoImplicit false

variable (v w : BitVec 32)

theorem toNat_offset : (v &&& 0xfff).toNat = v.toNat % 4096 := by
  rw [BitVec.toNat_and]
  exact Nat.and_two_pow_sub_one_eq_mod _ 12

theorem toNat_align : (v &&& 0x3).toNat = v.toNat % 4 := by
  rw [BitVec.toNat_and]
  exact Nat.and_two_pow_sub_one_eq_mod _ 2

theorem page_eq_shift : v &&& 0xfffff000#32 = v >>> 12 <<< 12 := by
  rw [BitVec.shiftLeft_ushiftRight]
  rfl

theorem toNat_page : (v &&& 0xfffff000).toNat = v.toNat / 4096 * 4096 := by
  have hv := v.isLt
  change (v &&& 0xfffff000#32).toNat = _
  rw [page_eq_shift, BitVec.toNat_shiftLeft, BitVec.toNat_ushiftRight, Nat.shiftRight_eq_div_pow,
    Nat.shiftLeft_eq]
  omega

/-- Where a bound is at a page, a check is for the address and for its page. -/
theorem page_lt_iff {n : BitVec 32} (h : n.toNat % 4096 = 0) :
    v &&& 0xfffff000 < n ↔ v < n := by
  rw [BitVec.lt_def, BitVec.lt_def, toNat_page]
  omega

theorem word_eq_shift : v &&& 0xfffffffc#32 = v >>> 2 <<< 2 := by
  rw [BitVec.shiftLeft_ushiftRight]
  rfl

theorem toNat_word : (v &&& 0xfffffffc).toNat = v.toNat / 4 * 4 := by
  have hv := v.isLt
  change (v &&& 0xfffffffc#32).toNat = _
  rw [word_eq_shift, BitVec.toNat_shiftLeft, BitVec.toNat_ushiftRight, Nat.shiftRight_eq_div_pow,
    Nat.shiftLeft_eq]
  omega

section Word

variable {v} (hAlign : v &&& 0x3 = 0) (hSame : (v + 4) &&& 0xfff ≠ 0)

include hAlign hSame

/-- The next word of the page, in terms of numbers. -/
theorem toNat_next : (v + 4).toNat = v.toNat + 4 ∧ v.toNat % 4096 + 4 < 4096 := by
  have hv := v.isLt
  have hAlignNat := congrArg BitVec.toNat hAlign
  rw [toNat_align] at hAlignNat
  have hSameNat : (v.toNat + 4) % 2 ^ 32 % 4096 ≠ 0 := by
    intro h
    refine hSame (BitVec.eq_of_toNat_eq ?_)
    rw [toNat_offset, BitVec.toNat_add]
    exact h
  rw [BitVec.toNat_add]
  change v.toNat % 4 = 0 at hAlignNat
  change (v.toNat + 4) % 2 ^ 32 = _ ∧ _
  omega

theorem next_page : (v + 4) &&& 0xfffff000 = v &&& 0xfffff000 := by
  obtain ⟨hNext, hLt⟩ := toNat_next hAlign hSame
  refine BitVec.eq_of_toNat_eq ?_
  rw [toNat_page, toNat_page, hNext]
  omega

theorem next_offset : (v + 4) &&& 0xfff = (v &&& 0xfff) + 4 := by
  obtain ⟨hNext, hLt⟩ := toNat_next hAlign hSame
  refine BitVec.eq_of_toNat_eq ?_
  rw [BitVec.toNat_add, toNat_offset, toNat_offset, hNext]
  change _ = (v.toNat % 4096 + 4) % 2 ^ 32
  omega

theorem next_align : (v + 4) &&& 0x3 = 0 := by
  obtain ⟨hNext, -⟩ := toNat_next hAlign hSame
  have hAlignNat := congrArg BitVec.toNat hAlign
  rw [toNat_align] at hAlignNat
  change v.toNat % 4 = 0 at hAlignNat
  refine BitVec.eq_of_toNat_eq ?_
  rw [toNat_align, hNext]
  change _ = 0
  omega

/-- The segment stays the same. -/
theorem next_shift : (v + 4) >>> 30 = v >>> 30 := by
  obtain ⟨hNext, hLt⟩ := toNat_next hAlign hSame
  refine BitVec.eq_of_toNat_eq ?_
  rw [BitVec.toNat_ushiftRight, BitVec.toNat_ushiftRight, hNext, Nat.shiftRight_eq_div_pow,
    Nat.shiftRight_eq_div_pow]
  omega

theorem le_next_iff : 0x80000000 ≤ v + 4 ↔ 0x80000000 ≤ v := by
  obtain ⟨hNext, hLt⟩ := toNat_next hAlign hSame
  rw [BitVec.le_def, BitVec.le_def, hNext]
  change 2147483648 ≤ _ ↔ 2147483648 ≤ _
  omega

end Word

theorem page_and_comm (mask : BitVec 32) :
    v &&& mask &&& 0xfffff000 = (v &&& 0xfffff000) &&& mask := by
  rw [BitVec.and_assoc, BitVec.and_comm mask, ← BitVec.and_assoc]

theorem page_or {page : BitVec 32} : (page ||| (w &&& 0xfff)) &&& 0xfffff000 = page &&& 0xfffff000 := by
  rw [BitVec.and_or_distrib_right]
  have hOffset : w &&& 0xfff &&& 0xfffff000 = 0 := by
    rw [BitVec.and_assoc]
    simp
  rw [hOffset]
  exact BitVec.or_zero

theorem offset_or {page : BitVec 32} (hPage : page &&& 0xfff = 0) :
    (page ||| (w &&& 0xfff)) &&& 0xfff = w &&& 0xfff := by
  have hTwice : w &&& 0xfff &&& 0xfff = w &&& 0xfff := by
    rw [BitVec.and_assoc]
    simp
  rw [BitVec.and_or_distrib_right, hPage, hTwice]
  exact BitVec.zero_or

end PageBits
