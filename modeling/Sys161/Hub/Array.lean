import Mathlib.Data.List.Basic
import Sys161.Lib.Buffer

/-!
# The array of pointers of the hub

`array.c`. The pointers stand for the objects behind them: no object of the hub
is in the array twice.
-/

namespace Sys161.Hub

open Buffer

set_option autoImplicit false

universe u

/-- A cell that nothing has been stored in is `none`. -/
structure PtrArray (α : Type u) where
  v : Nat → Option α
  num : Nat
  max : Nat

variable {α : Type u}

def arrayCreate : PtrArray α := ⟨fun _ => none, 0, 0⟩

def arrayGetnum (a : PtrArray α) : Nat := a.num

/-- There is nothing where the assertion fails. -/
def arrayGetguy (a : PtrArray α) (index : Nat) : Option α :=
  if index < a.num then a.v index else none

/-- `while (nguys > a->max) a->max = (a->max+1)*2;` -/
def growMax (nguys max : Nat) : Nat :=
  if nguys > max then growMax nguys ((max + 1) * 2) else max
termination_by nguys - max

/-- What it returns, and the array. `malloc` says whether there is memory for the cells. -/
def arraySetsize (malloc : Bool) (a : PtrArray α) (nguys : Nat) : Int × PtrArray α :=
  if nguys > a.max then
    let max := growMax nguys a.max
    if malloc then
      (0, ⟨fun i => if i < a.num then a.v i else none, nguys, max⟩)
    else
      (-1, { a with max := max })
  else if nguys = 0 ∧ a.max > 16 then
    (0, ⟨fun _ => none, nguys, 0⟩)
  else
    (0, { a with num := nguys })

def arrayAdd (malloc : Bool) (a : PtrArray α) (guy : α) : Int × PtrArray α :=
  let ix := a.num
  let (r, a) := arraySetsize malloc a (ix + 1)
  if r ≠ 0 then
    (-1, a)
  else
    (0, { a with v := Function.update a.v ix (some guy) })

/-- The cells behind the index are moved down by one. -/
def arrayRemove (a : PtrArray α) (index : Nat) : PtrArray α :=
  let nmove := a.num - (index + 1)
  { a with
    v := fun i =>
      if i < index then a.v i else moveDown (fun k => a.v (index + k)) 1 nmove (i - index)
    num := a.num - 1 }

/-- The object behind the pointer in a cell is written. -/
def writeGuy (a : PtrArray α) (index : Nat) (guy : α) : PtrArray α :=
  { a with v := Function.update a.v index (some guy) }

theorem le_growMax (nguys max : Nat) : nguys ≤ growMax nguys max := by
  fun_induction growMax nguys max with
  | case1 max h ih => exact ih
  | case2 max h => omega

/-- The array holds these objects in this order, in cells that it has. -/
structure Holds (a : PtrArray α) (l : List α) : Prop where
  cells : contents a.v a.num = l.map some
  fits : a.num ≤ a.max

namespace Holds

variable {a : PtrArray α} {l : List α}

theorem num (h : Holds a l) : arrayGetnum a = l.length := by
  have hLength := congrArg List.length h.cells
  rw [length_contents, List.length_map] at hLength
  exact hLength

theorem getguy (h : Holds a l) (i : Nat) : arrayGetguy a i = l[i]? := by
  have hNum : a.num = l.length := h.num
  unfold arrayGetguy
  split
  · next hi =>
    have hlt : i < l.length := hNum ▸ hi
    have hCell : (l.map some)[i]? = some (a.v i) := by
      rw [← h.cells, List.getElem?_eq_getElem (by simpa using hi), getElem_contents]
    rw [List.getElem?_map, List.getElem?_eq_getElem hlt] at hCell
    rw [List.getElem?_eq_getElem hlt]
    exact (Option.some.inj hCell).symm
  · next hi => exact (List.getElem?_eq_none (by omega)).symm

theorem intro (hNum : a.num = l.length) (hCells : ∀ i, (hi : i < l.length) → a.v i = some l[i])
    (hFits : a.num ≤ a.max) : Holds a l where
  cells := by
    rw [contents_eq_iff]
    constructor
    · simp [hNum]
    · intro i hi
      rw [List.length_map] at hi
      simp [hCells i hi]
  fits := hFits

theorem cell (h : Holds a l) {i : Nat} (hi : i < l.length) : a.v i = some l[i] := by
  have hGet := h.getguy i
  have hNum : a.num = l.length := h.num
  rw [arrayGetguy, if_pos (by omega), List.getElem?_eq_getElem hi] at hGet
  exact hGet

theorem create : Holds (arrayCreate : PtrArray α) [] := ⟨rfl, Nat.le_refl 0⟩

theorem writeGuy (h : Holds a l) (i : Nat) (x : α) : Holds (writeGuy a i x) (l.set i x) := by
  apply intro
  · rw [List.length_set]
    exact h.num
  · intro k hk
    rw [List.length_set] at hk
    rw [List.getElem_set]
    split
    · next hEq => simp [Hub.writeGuy, hEq]
    · next hNe =>
      rw [← h.cell hk]
      exact Function.update_of_ne (Ne.symm hNe) _ _
  · exact h.fits

theorem remove (h : Holds a l) {i : Nat} (hi : i < l.length) :
    Holds (arrayRemove a i) (l.eraseIdx i) := by
  have hNum : a.num = l.length := h.num
  have hFits := h.fits
  have hErase := List.length_eraseIdx_of_lt hi
  apply intro
  · simp only [arrayRemove]
    omega
  · intro k hk
    simp only [arrayRemove, moveDown]
    rw [List.getElem_eraseIdx]
    split
    · next hBefore => exact h.cell (by omega)
    · next hBehind =>
      rw [if_pos (by omega), show i + (1 + (k - i)) = k + 1 by omega]
      exact h.cell (by omega)
  · simp only [arrayRemove]
    omega

theorem setsize (h : Holds a l) (malloc : Bool) {nguys : Nat} (hMore : l.length < nguys) :
    (malloc = true → (arraySetsize malloc a nguys).1 = 0) ∧
      ((arraySetsize malloc a nguys).1 = 0 →
        (arraySetsize malloc a nguys).2.num = nguys ∧
        nguys ≤ (arraySetsize malloc a nguys).2.max ∧
        ∀ i < l.length, (arraySetsize malloc a nguys).2.v i = a.v i) := by
  have hNum : a.num = l.length := h.num
  unfold arraySetsize
  split
  · next hGrow =>
    cases malloc with
    | true =>
      constructor
      · exact fun _ => rfl
      · intro _
        refine ⟨rfl, le_growMax _ _, ?_⟩
        intro i hi
        exact if_pos (by omega)
    | false =>
      constructor
      · intro hMalloc
        cases hMalloc
      · intro hZero
        cases hZero
  · next hRoom =>
    rw [if_neg (by omega)]
    constructor
    · exact fun _ => rfl
    · intro _
      refine ⟨rfl, ?_, fun _ _ => rfl⟩
      exact Nat.le_of_not_lt hRoom

/-- It can only fail where there is no memory. -/
theorem add (h : Holds a l) (malloc : Bool) (x : α) :
    (malloc = true → (arrayAdd malloc a x).1 = 0) ∧
      ((arrayAdd malloc a x).1 = 0 → Holds (arrayAdd malloc a x).2 (l ++ [x])) := by
  have hNum : a.num = l.length := h.num
  have hSize := h.setsize malloc (Nat.lt_add_one l.length)
  rw [arrayAdd, hNum]
  generalize arraySetsize malloc a (l.length + 1) = made at hSize ⊢
  rcases made with ⟨r, b⟩
  rcases hSize with ⟨hMemory, hKept⟩
  dsimp only at hMemory hKept ⊢
  constructor
  · intro hMalloc
    exact congrArg Prod.fst (if_neg (not_not.mpr (hMemory hMalloc)))
  · intro hZero
    by_cases hRet : r = 0
    · rcases hKept hRet with ⟨hNew, hFits, hOld⟩
      rw [if_neg (not_not.mpr hRet)]
      apply intro
      · simpa using hNew
      · intro i hi
        rw [List.length_append, List.length_singleton] at hi
        rcases Nat.lt_or_ge i l.length with hIn | hLast
        · have hNe : i ≠ l.length := by omega
          simp only [Function.update_of_ne hNe, List.getElem_append_left hIn]
          exact (hOld i hIn).trans (h.cell hIn)
        · have hEq : i = l.length := by omega
          subst hEq
          simp
      · exact Nat.le_trans (Nat.le_of_eq hNew) hFits
    · rw [if_pos hRet] at hZero
      cases hZero

end Holds

end Sys161.Hub
