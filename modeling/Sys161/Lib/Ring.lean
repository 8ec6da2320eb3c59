import Mathlib.Data.Fin.Basic
import Mathlib.Data.ZMod.Defs
import Mathlib.Logic.Function.Basic

/-!
# Ring buffers

An array of cells with a head and a tail that go round it. One cell stays free,
so that a ring whose head and tail meet is empty.
-/

namespace Ring

universe u

variable {α : Type u} {n : Nat} [NeZero n]

/-- The cells from the head up to the tail. -/
def contents (buf : Fin n → α) (head tail : Fin n) : List α :=
  (List.range (tail - head).val).map fun k => buf (head + Fin.ofNat n k)

variable (buf : Fin n → α) {head tail : Fin n}

@[simp] theorem length_contents : (contents buf head tail).length = (tail - head).val := by
  simp [contents]

@[simp] theorem contents_self : contents buf head head = [] := by
  simp [contents]

theorem contents_eq_nil_iff : contents buf head tail = [] ↔ head = tail := by
  rw [← List.length_eq_zero_iff, length_contents, Fin.val_eq_zero_iff, sub_eq_zero]
  exact eq_comm

/-- The ring has no free cell but the one it never fills. -/
theorem full_iff : (contents buf head tail).length = n - 1 ↔ tail + 1 = head := by
  have hLast : ((-1 : Fin n)).val = n - 1 := by
    cases n with
    | zero => exact head.elim0
    | succ n => simp
  rw [length_contents, ← hLast, Fin.val_inj, sub_eq_iff_eq_add, neg_add_eq_sub, eq_sub_iff_add_eq]

/-- A cell that is read leaves at the head. -/
theorem contents_pop (h : head ≠ tail) :
    contents buf head tail = buf head :: contents buf (head + 1) tail := by
  have hLeft : tail - head ≠ 0 := sub_ne_zero.mpr h.symm
  have hVal : (tail - head).val = (tail - (head + 1)).val + 1 := by
    have hNext := Fin.val_sub_one_of_ne_zero hLeft
    have hPos := Fin.val_ne_zero_iff.mpr hLeft
    rw [← sub_sub, hNext]
    omega
  rw [contents, hVal, List.range_succ_eq_map, List.map_cons, List.map_map, contents]
  congr 1
  · simp
  · apply List.map_congr_left
    intro k _
    have hStep : Fin.ofNat n (k + 1) = 1 + Fin.ofNat n k := by
      apply Fin.ext
      simp [Fin.val_add, Nat.add_comm]
    simp only [Function.comp_apply, Nat.succ_eq_add_one, hStep, ← add_assoc]

/-- A cell that is written joins at the tail. -/
theorem contents_push (x : α) (h : tail + 1 ≠ head) :
    contents (Function.update buf tail x) head (tail + 1) = contents buf head tail ++ [x] := by
  have hRoom : tail + 1 - head ≠ 0 := sub_ne_zero.mpr h
  have hVal : (tail + 1 - head).val = (tail - head).val + 1 := by
    have hBack := Fin.val_sub_one_of_ne_zero hRoom
    have hPos := Fin.val_ne_zero_iff.mpr hRoom
    rw [sub_right_comm, add_sub_cancel_right] at hBack
    omega
  rw [contents, hVal, List.range_succ, List.map_append, contents]
  congr 1
  · apply List.map_congr_left
    intro k hk
    have hLt : k < (tail - head).val := List.mem_range.mp hk
    apply Function.update_of_ne
    intro hEq
    have hSame : Fin.ofNat n k = tail - head := by
      rw [← hEq, add_sub_cancel_left]
    have hMod := congrArg Fin.val hSame
    rw [Fin.val_ofNat, Nat.mod_eq_of_lt (hLt.trans (tail - head).isLt)] at hMod
    omega
  · simp

end Ring
