import Mathlib.Algebra.Group.Nat.Defs
import Sys161.Hub.Array
import Sys161.Lib.Runs

/-!
# The block behind the array of pointers

`array.c` again, with the block that `v` points to and the machine's `int`. A
call that runs into undefined behaviour or a failed assertion leaves nothing.
-/

namespace Sys161.Hub

open Runs

set_option autoImplicit false

universe u

def intMax : Nat := 2147483647

/-- `v` with the cells of its block. There is no block where it is NULL. -/
structure CellArray (α : Type u) where
  v : Option (List (Option α))
  num : Int
  max : Nat

namespace CellArray

variable {α : Type u}

def arrayCreate : CellArray α := ⟨none, 0, 0⟩

def cells (a : CellArray α) : List (Option α) := a.v.getD []

def contents (a : CellArray α) : List (Option α) := a.cells.take a.num.toNat

def arraySetsize (malloc : Bool) (a : CellArray α) (nguys : Int) :
    Option (Int × CellArray α) :=
  if nguys > a.max then
    let max := growMax nguys.toNat a.max
    -- the last of the products is the largest
    if max > intMax then
      none
    else if malloc = false then
      some (-1, { a with max := max })
    else if a.num > a.cells.length then
      none
    else
      let newv := a.contents ++ List.replicate (max - a.num.toNat) none
      some (0, ⟨some newv, nguys, max⟩)
  else if nguys = 0 ∧ a.max > 16 then
    match a.v with
    | none => none
    | some _ => some (0, ⟨none, nguys, 0⟩)
  else
    some (0, { a with num := nguys })

/-- `a->v[ix] = guy` -/
def storeGuy (a : CellArray α) (ix : Int) (guy : α) : Option (CellArray α) :=
  if 0 ≤ ix ∧ ix < a.cells.length then
    some { a with v := some (a.cells.set ix.toNat (some guy)) }
  else
    none

def arrayAdd (malloc : Bool) (a : CellArray α) (guy : α) : Option (Int × CellArray α) :=
  let ix := a.num
  if ix ≥ intMax then
    none
  else
    match arraySetsize malloc a (ix + 1) with
    | none => none
    | some (r, a) => if r ≠ 0 then some (-1, a) else (a.storeGuy ix guy).map fun a => (0, a)

/-- A negative number of cells to move is a huge one for `memmove`. -/
def arrayRemove (a : CellArray α) (index : Int) : Option (CellArray α) :=
  let nmove := a.num - (index + 1)
  if 0 ≤ index ∧ 0 ≤ nmove ∧ a.num ≤ a.cells.length then
    let moved := (a.cells.drop (index.toNat + 1)).take nmove.toNat
    let behind := a.cells.drop (index.toNat + nmove.toNat)
    some { a with v := some (a.cells.take index.toNat ++ moved ++ behind), num := a.num - 1 }
  else
    none

/-! ## The calls -/

inductive Call (α : Type u) where
  | add (guy : α)
  | remove (index : Int)
  | setsize (nguys : Int)

/-- What a call returns and the array after it. It comes with the answer of `malloc`. -/
def perform (a : CellArray α) : Call α × Bool → Option (Int × CellArray α)
  | (.add guy, malloc) => arrayAdd malloc a guy
  | (.remove index, _) => (arrayRemove a index).map fun a => (0, a)
  | (.setsize nguys, malloc) => arraySetsize malloc a nguys

/-- The next call, where there still is an array. -/
def Step (s : Option (CellArray α)) (i : Call α × Bool) (s' : Option (CellArray α)) : Prop :=
  s' = s.bind fun a => (perform a i).map Prod.snd

/-- What a call makes of the list. Cells that a larger size adds are not initialized. -/
def Asked (l : List (Option α)) : Call α → List (Option α) → Prop
  | .add guy, l' => l' = l ++ [some guy]
  | .remove index, l' => 0 ≤ index ∧ index < l.length ∧ l' = l.eraseIdx index.toNat
  | .setsize nguys, l' => (l'.length : Int) = nguys ∧ l'.take l.length = l.take l'.length

/-- All of `max` is in the block, and the array within it. -/
structure Sound (a : CellArray α) : Prop where
  nonneg : 0 ≤ a.num
  fits : a.num ≤ a.max
  capacity : a.cells.length = a.max

/-- A call returns and has either done what was asked, or reports that it left all as it was. -/
def Right (a : CellArray α) (i : Call α × Bool) : Prop :=
  ∃ r a', perform a i = some (r, a') ∧
    (r = 0 → Asked a.contents i.1 a'.contents) ∧ (r ≠ 0 → a' = a)

/-- There is room for so many, or memory for it. -/
def HasRoom (a : CellArray α) (malloc : Bool) (nguys : Int) : Prop :=
  nguys ≤ a.max ∨ malloc = true ∧ nguys < intMax

def Meets (a : CellArray α) : Call α × Bool → Prop
  | (.add _, malloc) => HasRoom a malloc (a.num + 1)
  | (.remove index, _) => 0 ≤ index ∧ index < a.num
  | (.setsize nguys, malloc) => 0 ≤ nguys ∧ HasRoom a malloc nguys

/-! ## Growth -/

/-- The sizes of blocks, from none at all. -/
def Doubled (max : Nat) : Prop := ∃ k, k ≤ 31 ∧ max + 2 = 2 ^ k

theorem Doubled.le {max : Nat} (h : Doubled max) : max < intMax := by
  obtain ⟨k, hk, hMax⟩ := h
  have hPow : 2 ^ k ≤ 2 ^ 31 := Nat.pow_le_pow_right Nat.two_pos hk
  simp only [intMax]
  omega

theorem max_le_growMax (nguys max : Nat) : max ≤ growMax nguys max := by
  fun_induction growMax nguys max with
  | case1 max hGrow ih => omega
  | case2 max hRoom => exact Nat.le_refl max

/-- The doubling stays within `int` as long as the number asked for has a next one. -/
theorem doubled_growMax {nguys max : Nat} (h : Doubled max) (hLess : nguys < intMax) :
    Doubled (growMax nguys max) := by
  fun_induction growMax nguys max with
  | case1 max hGrow ih =>
    apply ih
    obtain ⟨k, hk, hMax⟩ := h
    have hPow : 2 ^ k < 2 ^ 31 := by
      simp only [intMax] at hLess
      omega
    refine ⟨k + 1, (Nat.pow_lt_pow_iff_right Nat.one_lt_two).mp hPow, ?_⟩
    rw [Nat.pow_succ]
    omega
  | case2 max hRoom => exact h

theorem lt_of_growMax_le {nguys max : Nat} (h : Doubled max) (hGrow : nguys > max)
    (hInt : growMax nguys max ≤ intMax) : nguys < intMax := by
  rcases Nat.lt_or_ge nguys intMax with hLess | hLast
  · exact hLess
  · exfalso
    fun_induction growMax nguys max with
    | case1 max hMore ih =>
      obtain ⟨k, hk, hMax⟩ := h
      rcases Nat.lt_or_ge k 31 with hBelow | hAt
      · have hNext : Doubled ((max + 1) * 2) := by
          refine ⟨k + 1, hBelow, ?_⟩
          rw [Nat.pow_succ]
          omega
        exact ih hNext (Nat.lt_of_lt_of_le hNext.le hLast) hInt
      · have hTop : k = 31 := Nat.le_antisymm hk hAt
        subst hTop
        have hPast := max_le_growMax nguys ((max + 1) * 2)
        simp only [intMax] at hInt
        omega
    | case2 max hRoom => exact hRoom hGrow

/-! ## One call -/

variable {a a' : CellArray α} {malloc : Bool} {r : Int}

theorem Sound.create : Sound (arrayCreate : CellArray α) :=
  ⟨Int.le_refl 0, Int.le_refl 0, rfl⟩

theorem Sound.length_contents (h : Sound a) : (a.contents.length : Int) = a.num := by
  have hCells := h.capacity
  have hNum := h.nonneg
  have hFits := h.fits
  rw [contents, List.length_take]
  omega

theorem getElem?_contents (a : CellArray α) (i : Nat) :
    a.contents[i]? = if i < a.num then a.cells[i]? else none := by
  rw [contents, List.getElem?_take]
  exact if_congr (by omega) rfl rfl

/-- The cells below both sizes stay. -/
theorem arraySetsize_room (h : Sound a) (hMax : Doubled a.max) {nguys : Int} (hPos : 0 ≤ nguys)
    (hRoom : HasRoom a malloc nguys) :
    ∃ a', arraySetsize malloc a nguys = some (0, a') ∧ Sound a' ∧ a'.num = nguys ∧
      a'.contents.take a.contents.length = a.contents.take a'.contents.length := by
  have hNum := h.nonneg
  have hFits := h.fits
  have hCells := h.capacity
  have hOld := h.length_contents
  suffices hMade : ∃ a', arraySetsize malloc a nguys = some (0, a') ∧ Sound a' ∧ a'.num = nguys ∧
      ∀ i : Nat, i < a.num → i < nguys → a'.cells[i]? = a.cells[i]? by
    obtain ⟨a', hEq, hSound, hNew, hKept⟩ := hMade
    refine ⟨a', hEq, hSound, hNew, ?_⟩
    have hLength := hSound.length_contents
    apply List.ext_getElem?
    intro i
    rw [List.getElem?_take, List.getElem?_take, getElem?_contents, getElem?_contents]
    by_cases hOne : i < a.num
    · by_cases hTwo : i < nguys
      · rw [hKept i hOne hTwo, if_pos (by omega), if_pos (by omega), if_pos (by omega),
          if_pos (by omega)]
      · rw [if_pos (by omega), if_neg (by omega), if_neg (by omega)]
    · rw [if_neg (by omega), if_neg hOne, ite_self]
  unfold arraySetsize
  split
  · next hGrow =>
    obtain ⟨rfl, hLess⟩ := hRoom.resolve_left (by omega)
    have hNat : nguys.toNat < intMax := by omega
    have hInt := (doubled_growMax hMax hNat).le
    have hEnough := le_growMax nguys.toNat a.max
    dsimp only
    rw [if_neg (by omega), if_neg Bool.noConfusion, if_neg (by omega)]
    refine ⟨_, rfl, ⟨hPos, ?_, ?_⟩, rfl, ?_⟩
    · dsimp only
      omega
    · simp only [cells, Option.getD_some, List.length_append, List.length_replicate]
      omega
    · intro i hi _
      simp only [cells, Option.getD_some]
      rw [List.getElem?_append_left (by omega), contents, List.getElem?_take,
        if_pos (by omega)]
      rfl
  · next hFit =>
    split
    · next hFree =>
      obtain ⟨rfl, hLarge⟩ := hFree
      cases hBlock : a.v with
      | none =>
        simp only [cells, hBlock, Option.getD_none, List.length_nil] at hCells
        omega
      | some block =>
        refine ⟨_, rfl, ⟨Int.le_refl 0, Int.le_refl 0, rfl⟩, rfl, ?_⟩
        intro i _ hi
        omega
    · refine ⟨_, rfl, ⟨hPos, ?_, hCells⟩, rfl, fun i _ _ => rfl⟩
      dsimp only
      omega

/-- A failed growth leaves `max` raised. -/
theorem arraySetsize_no_room (hMax : Doubled a.max) {nguys : Int}
    (hRoom : ¬ HasRoom a malloc nguys) (hRet : arraySetsize malloc a nguys = some (r, a')) :
    r = -1 ∧ a' = { a with max := growMax nguys.toNat a.max } ∧ a.max < a'.max := by
  rw [HasRoom, not_or] at hRoom
  obtain ⟨hGrow, hMemory⟩ := hRoom
  have hMore : nguys.toNat > a.max := by omega
  have hEnough := le_growMax nguys.toNat a.max
  unfold arraySetsize at hRet
  rw [if_pos (by omega)] at hRet
  dsimp only at hRet
  split at hRet
  · cases hRet
  · next hInt =>
    have hLess := lt_of_growMax_le hMax hMore (by omega)
    split at hRet
    · cases hRet
      exact ⟨rfl, rfl, by dsimp only; omega⟩
    · next hMalloc =>
      exact absurd ⟨by simpa using hMalloc, by omega⟩ hMemory

theorem storeGuy_eq (h : Sound a) (hLast : 0 < a.num) (guy : α) :
    ∃ a', a.storeGuy (a.num - 1) guy = some a' ∧ Sound a' ∧ a'.max = a.max ∧
      a'.contents = a.contents.take (a.num.toNat - 1) ++ [some guy] := by
  have hFits := h.fits
  have hCells := h.capacity
  unfold storeGuy
  rw [if_pos (by omega)]
  refine ⟨_, rfl, ⟨h.nonneg, hFits, ?_⟩, rfl, ?_⟩
  · simpa [cells] using hCells
  · obtain ⟨n, hn⟩ : ∃ n : Nat, a.num = n + 1 := ⟨a.num.toNat - 1, by omega⟩
    have hIx : (a.num - 1).toNat = n := by omega
    have hNum : a.num.toNat = n + 1 := by omega
    have hIn : n < a.cells.length := by omega
    simp only [contents, cells, Option.getD_some, hIx, hNum, Nat.add_sub_cancel]
    change (a.cells.set n (some guy)).take (n + 1) = (a.cells.take (n + 1)).take n ++ [some guy]
    rw [List.take_add_one, List.take_set_of_le (Nat.le_refl n), List.getElem?_set_self hIn,
      List.take_take, Nat.min_eq_left (Nat.le_succ n)]
    rfl

theorem arrayAdd_room (h : Sound a) (hMax : Doubled a.max) (guy : α)
    (hRoom : HasRoom a malloc (a.num + 1)) :
    ∃ a', arrayAdd malloc a guy = some (0, a') ∧ Sound a' ∧
      a'.contents = a.contents ++ [some guy] := by
  have hNum := h.nonneg
  have hFits := h.fits
  have hInt := hMax.le
  obtain ⟨b, hSize, hSound, hNew, hKept⟩ := arraySetsize_room h hMax (by omega) hRoom
  obtain ⟨a', hStore, hSound', -, hContents⟩ := storeGuy_eq hSound (by omega) guy
  refine ⟨a', ?_, hSound', ?_⟩
  · rw [hNew, Int.add_sub_cancel] at hStore
    unfold arrayAdd
    rw [if_neg (by omega), hSize]
    dsimp only
    rw [if_neg (by simp), hStore]
    rfl
  · have hOld := h.length_contents
    have hLonger := hSound.length_contents
    rw [List.take_of_length_le (l := a.contents) (by omega)] at hKept
    rw [hContents, ← hKept]
    congr 2
    omega

theorem arrayAdd_no_room (h : Sound a) (hMax : Doubled a.max) {guy : α}
    (hRoom : ¬ HasRoom a malloc (a.num + 1)) (hRet : arrayAdd malloc a guy = some (r, a')) :
    ¬ Sound a' := by
  have hNum := h.nonneg
  have hFits := h.fits
  have hInt := hMax.le
  unfold arrayAdd at hRet
  rw [if_neg (by omega)] at hRet
  cases hSize : arraySetsize malloc a (a.num + 1) with
  | none =>
    rw [hSize] at hRet
    cases hRet
  | some made =>
    obtain ⟨r', b⟩ := made
    obtain ⟨rfl, rfl, hRaised⟩ := arraySetsize_no_room hMax hRoom hSize
    rw [hSize] at hRet
    cases hRet
    intro hSound
    exact absurd (hSound.capacity.symm.trans h.capacity) (Nat.ne_of_gt hRaised)

theorem arrayRemove_within (h : Sound a) {index : Int} (hPos : 0 ≤ index)
    (hLess : index < a.num) :
    ∃ a', arrayRemove a index = some a' ∧ Sound a' ∧
      a'.contents = a.contents.eraseIdx index.toNat := by
  have hNum := h.nonneg
  have hFits := h.fits
  have hCells := h.capacity
  obtain ⟨i, rfl⟩ := Int.eq_ofNat_of_zero_le hPos
  obtain ⟨n, hn⟩ : ∃ n : Nat, a.num = i + 1 + n := ⟨(a.num - (i + 1)).toNat, by omega⟩
  have hMove : (a.num - (i + 1)).toNat = n := by omega
  have hAll : a.num.toNat = i + 1 + n := by omega
  unfold arrayRemove
  dsimp only
  rw [if_pos (by omega), hMove, Int.toNat_natCast]
  refine ⟨_, rfl, ⟨?_, ?_, ?_⟩, ?_⟩
  · dsimp only
    omega
  · dsimp only
    omega
  · simp only [cells, Option.getD_some, List.length_append, List.length_take, List.length_drop]
    change min i a.cells.length + min n (a.cells.length - (i + 1)) +
      (a.cells.length - (i + n)) = a.max
    omega
  · have hLeft : (a.num - 1).toNat = i + n := by omega
    simp only [contents, hLeft, hAll]
    rw [List.eraseIdx_eq_take_drop_succ, List.take_take, List.drop_take]
    simp only [cells, Option.getD_some]
    change (a.cells.take i ++ (a.cells.drop (i + 1)).take n ++
      a.cells.drop (i + n)).take (i + n) = _
    have hLength : (a.cells.take i ++ (a.cells.drop (i + 1)).take n).length = i + n := by
      rw [List.length_append, List.length_take, List.length_take, List.length_drop]
      omega
    rw [List.take_left' hLength]
    congr 2 <;> omega

theorem arrayRemove_outside {index : Int} (hOut : ¬ (0 ≤ index ∧ index < a.num)) :
    arrayRemove a index = none := by
  unfold arrayRemove
  exact if_neg (by omega)

/-! ## Without the block -/

/-- The array of the hub, where nothing is said of the block. -/
def toPtrArray (a : CellArray α) : PtrArray α := ⟨fun i => a.cells[i]?.join, a.num.toNat, a.max⟩

theorem arraySetsize_toPtrArray {nguys : Nat} (h : arraySetsize malloc a nguys = some (r, a')) :
    Hub.arraySetsize malloc a.toPtrArray nguys = (r, a'.toPtrArray) := by
  unfold arraySetsize at h
  unfold Hub.arraySetsize
  split at h
  · next hGrow =>
    rw [if_pos (by dsimp only [toPtrArray]; omega)]
    dsimp only [Int.toNat_natCast] at h ⊢
    split at h
    · cases h
    · split at h
      · next hMalloc =>
        cases h
        rw [hMalloc]
        rfl
      · next hMalloc =>
        rw [if_pos (by simpa using hMalloc)]
        split at h
        · cases h
        · next hCells =>
          cases h
          simp only [toPtrArray, cells, Option.getD_some, Int.toNat_natCast, Prod.mk.injEq,
            true_and, PtrArray.mk.injEq, and_self, and_true]
          funext i
          have hLength : a.contents.length = a.num.toNat := by
            rw [contents, List.length_take]
            omega
          change (if i < a.num.toNat then a.cells[i]?.join else none) = _
          rcases Nat.lt_or_ge i a.num.toNat with hi | hi
          · rw [if_pos hi, List.getElem?_append_left (by omega), getElem?_contents,
              if_pos (by omega)]
          · rw [if_neg (Nat.not_lt.mpr hi), List.getElem?_append_right (by omega),
              List.getElem?_replicate]
            split <;> rfl
  · next hFit =>
    rw [if_neg (by dsimp only [toPtrArray]; omega)]
    split at h
    · next hFree =>
      rw [if_pos (by dsimp only [toPtrArray]; omega)]
      cases hBlock : a.v with
      | none =>
        rw [hBlock] at h
        cases h
      | some block =>
        rw [hBlock] at h
        cases h
        rfl
    · next hKeep =>
      rw [if_neg (by dsimp only [toPtrArray]; omega)]
      cases h
      rfl

theorem arrayAdd_toPtrArray {guy : α} (hNum : 0 ≤ a.num)
    (h : arrayAdd malloc a guy = some (r, a')) :
    Hub.arrayAdd malloc a.toPtrArray guy = (r, a'.toPtrArray) := by
  unfold arrayAdd at h
  dsimp only at h
  split at h
  · cases h
  · obtain ⟨n, hn⟩ := Int.eq_ofNat_of_zero_le hNum
    rw [hn] at h
    cases hSize : arraySetsize malloc a ((n + 1 : Nat) : Int) with
    | none =>
      rw [← Int.natCast_succ, hSize] at h
      cases h
    | some made =>
      obtain ⟨r', b⟩ := made
      rw [← Int.natCast_succ, hSize] at h
      have hIx : a.toPtrArray.num = n := by simp only [toPtrArray, hn, Int.toNat_natCast]
      unfold Hub.arrayAdd
      dsimp only at h ⊢
      rw [hIx, arraySetsize_toPtrArray hSize]
      dsimp only
      by_cases hFail : r' ≠ 0
      · rw [if_pos hFail] at h ⊢
        cases h
        rfl
      · rw [if_neg hFail] at h ⊢
        unfold storeGuy at h
        split at h
        · next hIn =>
          cases h
          simp only [toPtrArray, cells, Option.getD_some, Int.toNat_natCast, Prod.mk.injEq,
            true_and, PtrArray.mk.injEq, and_self, and_true]
          funext i
          have hLess : n < (b.v.getD []).length := Int.ofNat_lt.mp hIn.2
          rw [List.getElem?_set, Function.update_apply]
          by_cases hEq : i = n
          · rw [if_pos hEq, if_pos hEq.symm, if_pos hLess]
            rfl
          · rw [if_neg hEq, if_neg (Ne.symm hEq)]
        · cases h

theorem arrayRemove_toPtrArray {index : Nat} (h : arrayRemove a index = some a') :
    Hub.arrayRemove a.toPtrArray index = a'.toPtrArray := by
  unfold arrayRemove at h
  dsimp only at h
  split at h
  · next hIn =>
    obtain ⟨n, hn⟩ : ∃ n : Nat, a.num = index + 1 + n := ⟨(a.num - (index + 1)).toNat, by omega⟩
    have hMove : (a.num - (index + 1)).toNat = n := by omega
    have hAll : a.num.toNat - (index + 1) = n := by omega
    cases h
    unfold Hub.arrayRemove
    simp only [toPtrArray, cells, Option.getD_some, Int.toNat_natCast, hMove, hAll,
      PtrArray.mk.injEq, and_true]
    refine ⟨?_, by omega⟩
    funext i
    have hLength : (List.take index a.cells).length = index := by
      rw [List.length_take]
      omega
    have hMoved : ((List.drop (index + 1) a.cells).take n).length = n := by
      rw [List.length_take, List.length_drop]
      omega
    change (if i < index then a.cells[i]?.join
      else if i - index < n then a.cells[index + (1 + (i - index))]?.join
      else a.cells[index + (i - index)]?.join) =
      (a.cells.take index ++ (a.cells.drop (index + 1)).take n ++ a.cells.drop (index + n))[i]?.join
    rcases Nat.lt_or_ge i index with hBefore | hBehind
    · rw [if_pos hBefore, List.append_assoc, List.getElem?_append_left (by omega),
        List.getElem?_take, if_pos hBefore]
    · rw [if_neg (Nat.not_lt.mpr hBehind), List.append_assoc,
        List.getElem?_append_right (by omega), hLength]
      rcases Nat.lt_or_ge (i - index) n with hShift | hRest
      · rw [if_pos hShift, List.getElem?_append_left (by omega), List.getElem?_take,
          if_pos hShift, List.getElem?_drop]
        congr 2
        omega
      · rw [if_neg (Nat.not_lt.mpr hRest), List.getElem?_append_right (by omega), hMoved,
          List.getElem?_drop]
        congr 2
        omega
  · cases h

/-! ## Runs -/

theorem doubled_arraySetsize {nguys : Int} (hMax : Doubled a.max)
    (h : arraySetsize malloc a nguys = some (r, a')) : Doubled a'.max := by
  unfold arraySetsize at h
  dsimp only at h
  split at h
  · next hGrow =>
    split at h
    · cases h
    · next hInt =>
      have hLess := @lt_of_growMax_le nguys.toNat _ hMax (by omega) (by omega)
      have hNew := doubled_growMax hMax hLess
      split at h
      · cases h
        exact hNew
      · split at h
        · cases h
        · cases h
          exact hNew
  · split at h
    · split at h
      · cases h
      · cases h
        exact ⟨1, by decide, rfl⟩
    · cases h
      exact hMax

theorem doubled_arrayAdd {guy : α} (hMax : Doubled a.max)
    (h : arrayAdd malloc a guy = some (r, a')) : Doubled a'.max := by
  unfold arrayAdd at h
  dsimp only at h
  split at h
  · cases h
  · split at h
    · cases h
    · next r' b hSize =>
      have hNew := doubled_arraySetsize hMax hSize
      split at h
      · cases h
        exact hNew
      · obtain ⟨c, hStore, hc⟩ := Option.map_eq_some_iff.mp h
        cases hc
        unfold storeGuy at hStore
        split at hStore
        · cases hStore
          exact hNew
        · cases hStore

theorem doubled_perform {i : Call α × Bool} (hMax : Doubled a.max)
    (h : perform a i = some (r, a')) : Doubled a'.max := by
  obtain ⟨call, malloc⟩ := i
  cases call with
  | add guy => exact doubled_arrayAdd hMax h
  | remove index =>
    obtain ⟨b, hRemove, hb⟩ := Option.map_eq_some_iff.mp h
    cases hb
    unfold arrayRemove at hRemove
    dsimp only at hRemove
    split at hRemove
    · cases hRemove
      exact hMax
    · cases hRemove
  | setsize nguys => exact doubled_arraySetsize hMax h

/-- The array stands, all of `max` in its block. -/
def Standing (s : Option (CellArray α)) : Prop := ∃ a ∈ s, Sound a

theorem standing_iff {i : Call α × Bool} {s' : Option (CellArray α)} (h : Sound a)
    (hMax : Doubled a.max) (hStep : Step (some a) i s') :
    Standing s' ∧ Right a i ↔ Meets a i := by
  obtain ⟨call, malloc⟩ := i
  have hLength := h.length_contents
  -- a step that has done what was asked
  have hDone {a'} (hRet : perform a (call, malloc) = some (0, a')) (hSound : Sound a')
      (hAsked : Asked a.contents call a'.contents) : Standing s' ∧ Right a (call, malloc) := by
    refine ⟨⟨a', ?_, hSound⟩, 0, a', hRet, fun _ => hAsked, fun hNe => absurd rfl hNe⟩
    rw [hStep, Option.bind_some, hRet]
    rfl
  have hSame {r a'} (hRet : perform a (call, malloc) = some (r, a')) (hs' : Standing s') :
      Sound a' := by
    obtain ⟨b, hb, hSound⟩ := hs'
    rw [hStep, Option.bind_some, hRet] at hb
    cases hb
    exact hSound
  constructor
  · rintro ⟨hs', r, a', hRet, hAsked, -⟩
    have hSound := hSame hRet hs'
    cases call with
    | add guy =>
      by_contra hRoom
      exact arrayAdd_no_room h hMax hRoom hRet hSound
    | remove index =>
      by_contra hOut
      change (arrayRemove a index).map _ = some (r, a') at hRet
      rw [arrayRemove_outside hOut] at hRet
      cases hRet
    | setsize nguys =>
      have hNonneg : 0 ≤ nguys := by
        by_contra hNeg
        have hMade : arraySetsize malloc a nguys = some (0, { a with num := nguys }) := by
          unfold arraySetsize
          rw [if_neg (by omega), if_neg (by omega)]
        have hSound' := hSame hMade hs'
        exact hNeg hSound'.nonneg
      refine ⟨hNonneg, ?_⟩
      by_contra hRoom
      obtain ⟨-, rfl, hRaised⟩ := arraySetsize_no_room hMax hRoom hRet
      exact absurd (hSound.capacity.symm.trans h.capacity) (Nat.ne_of_gt hRaised)
  · intro hMeets
    cases call with
    | add guy =>
      obtain ⟨a', hRet, hSound, hAdded⟩ := arrayAdd_room h hMax guy hMeets
      exact hDone hRet hSound hAdded
    | remove index =>
      obtain ⟨a', hRet, hSound, hErased⟩ := arrayRemove_within h hMeets.1 hMeets.2
      have hRet' : perform a (.remove index, malloc) = some (0, a') := by
        rw [perform, hRet]
        rfl
      exact hDone hRet' hSound ⟨hMeets.1, by rw [hLength]; exact hMeets.2, hErased⟩
    | setsize nguys =>
      obtain ⟨a', hRet, hSound, hNum, hKept⟩ := arraySetsize_room h hMax hMeets.1 hMeets.2
      exact hDone hRet hSound ⟨hSound.length_contents.trans hNum, hKept⟩

/-- From an array just created, every call does what was asked, or reports that it left all as
it was, and all of `max` is in the block, exactly as long as no growth fails, is asked for the
last `int` of all, and no number is out of range. -/
theorem array_calls {p : List ((Call α × Bool) × Option (CellArray α))} {t}
    (hp : Path Step (some arrayCreate) p t) :
    AllStates Standing (some arrayCreate) p ∧
      AllSteps (fun s i _ => ∀ a ∈ s, Right a i) (some arrayCreate) p ↔
      AllSteps (fun s i _ => ∀ a ∈ s, Meets a i) (some arrayCreate) p := by
  refine hp.good_iff_allSteps (Q := fun s => ∀ a ∈ s, Doubled a.max) ?_ ?_ ?_ ?_
  · intro s i s' hq hStep a' ha'
    cases s with
    | none =>
      rw [hStep] at ha'
      cases ha'
    | some a =>
      rw [hStep, Option.bind_some, Option.mem_def] at ha'
      obtain ⟨⟨r, b⟩, hRet, rfl⟩ := Option.map_eq_some_iff.mp ha'
      exact doubled_perform (hq a rfl) hRet
  · intro s i s' hq hs hStep
    obtain ⟨a, ha, hSound⟩ := hs
    cases ha
    have hExact := standing_iff hSound (hq a rfl) hStep
    constructor
    · rintro ⟨hs', hRight⟩ b hb
      cases hb
      exact hExact.mp ⟨hs', hRight a rfl⟩
    · intro hMeets
      obtain ⟨hs', hRight⟩ := hExact.mpr (hMeets a rfl)
      refine ⟨hs', ?_⟩
      intro b hb
      cases hb
      exact hRight
  · intro a ha
    cases ha
    exact ⟨1, by decide, rfl⟩
  · exact ⟨_, rfl, Sound.create⟩

/-- The first two blocks asked for: there is no memory for the one, and there would be for the
other, which is not asked for any more. -/
theorem array_past_block :
    let p : List ((Call Nat × Bool) × Option (CellArray Nat)) :=
      [((.add 7, false), some ⟨none, 0, 2⟩), ((.add 8, true), none)]
    Path Step (some arrayCreate) p none ∧
      ¬ (AllStates Standing (some arrayCreate) p ∧
        AllSteps (fun s i _ => ∀ a ∈ s, Right a i) (some arrayCreate) p) := by
  have hGrow : growMax 1 0 = 2 := by simp [growMax]
  refine ⟨.cons ?_ (.cons rfl (.nil _)), ?_⟩
  · simp [Step, perform, arrayAdd, arraySetsize, arrayCreate, hGrow, intMax]
  · rintro ⟨hStates, -⟩
    obtain ⟨-, hAll⟩ := hStates
    obtain ⟨a, ha, -⟩ := hAll _ (List.mem_cons_of_mem _ (List.mem_singleton_self _))
    cases ha

theorem array_calls_once :
    let p : List ((Call Nat × Bool) × Option (CellArray Nat)) :=
      [((.add 7, true), some ⟨some [some 7, none], 1, 2⟩)]
    AllStates Standing (some arrayCreate) p ∧
      AllSteps (fun s i _ => ∀ a ∈ s, Right a i) (some arrayCreate) p := by
  have hGrow : growMax 1 0 = 2 := by simp [growMax]
  refine (array_calls (t := some ⟨some [some 7, none], 1, 2⟩) (.cons ?_ (.nil _))).mpr ?_
  · simp [Step, perform, arrayAdd, arraySetsize, arrayCreate, hGrow, intMax, contents, cells,
      storeGuy]
  · refine ⟨?_, trivial⟩
    intro a ha
    cases ha
    exact .inr ⟨rfl, by decide⟩

end CellArray

end Sys161.Hub
