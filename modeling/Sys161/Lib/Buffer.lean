import Mathlib.Data.List.Basic

/-! # Buffers that are filled at the end and emptied at the front -/

namespace Buffer

universe u

variable {α : Type u}

/-- The first cells. -/
def contents (buf : Nat → α) (n : Nat) : List α := (List.range n).map buf

/-- The cells from a position on take the values of a list. -/
def store (buf : Nat → α) (pos : Nat) (data : List α) : Nat → α :=
  fun i => if pos ≤ i then data.getD (i - pos) (buf i) else buf i

/-- `memmove` of so many cells to the front. -/
def moveDown (buf : Nat → α) (src n : Nat) : Nat → α :=
  fun i => if i < n then buf (src + i) else buf i

variable (buf : Nat → α)

@[simp] theorem length_contents (n : Nat) : (contents buf n).length = n := by
  simp [contents]

@[simp] theorem contents_zero : contents buf 0 = [] := rfl

@[simp] theorem getElem_contents {n i : Nat} (h : i < (contents buf n).length) :
    (contents buf n)[i] = buf i := by
  simp [contents]

theorem contents_eq_iff {n : Nat} {l : List α} :
    contents buf n = l ↔ l.length = n ∧ ∀ i, (h : i < l.length) → l[i] = buf i := by
  constructor
  · rintro rfl
    simp
  · rintro ⟨rfl, hEach⟩
    apply List.ext_getElem
    · simp
    · intro i _ hi
      simp [hEach i hi]

theorem take_contents {k n : Nat} (h : k ≤ n) : (contents buf n).take k = contents buf k := by
  apply List.ext_getElem
  · simp [h]
  · simp

theorem contents_store (pos : Nat) (data : List α) :
    contents (store buf pos data) (pos + data.length) = contents buf pos ++ data := by
  rw [contents_eq_iff]
  refine ⟨by simp, ?_⟩
  intro i hi
  rw [List.length_append, length_contents] at hi
  by_cases hOld : i < pos
  · have hNot : ¬ pos ≤ i := by omega
    simp [store, hNot, hOld]
  · have hIn : i - pos < data.length := by omega
    simp [store, Nat.le_of_not_lt hOld, hIn]

theorem contents_moveDown (src n : Nat) :
    contents (moveDown buf src n) n = (contents buf (src + n)).drop src := by
  rw [contents_eq_iff]
  refine ⟨by simp, ?_⟩
  intro i hi
  have hIn : i < n := by simpa using hi
  simp [moveDown, hIn]

theorem drop_contents_store {pos src : Nat} (n : Nat) (data : List α)
    (h : pos + data.length ≤ src) :
    (contents (store buf pos data) n).drop src = (contents buf n).drop src := by
  apply List.ext_getElem
  · simp
  · intro i _ _
    have hBehind : data.length ≤ src + i - pos := by omega
    simp [store, hBehind]

theorem contents_store_zero {n : Nat} {data : List α} (h : data.length ≤ n) :
    contents (store buf 0 data) n = data ++ (contents buf n).drop data.length := by
  have hFront := take_contents (store buf 0 data) h
  have hData := contents_store buf 0 data
  rw [Nat.zero_add, contents_zero, List.nil_append] at hData
  have hBehind := drop_contents_store buf n data (Nat.le_of_eq (Nat.zero_add _))
  rw [hData] at hFront
  rw [← hBehind]
  nth_rewrite 2 [← hFront]
  exact (List.take_append_drop ..).symm

/-! ## One store after another -/

/-- What a store puts into a cell. -/
def cell (pos : Nat) (data : List α) (i : Nat) : Option α :=
  if pos ≤ i then data[i - pos]? else none

theorem store_eq_cell (pos : Nat) (data : List α) (i : Nat) :
    store buf pos data i = (cell pos data i).getD (buf i) := by
  rw [store, cell]
  split
  · rw [List.getD_eq_getElem?_getD]
  · rfl

def stores (ws : List (Nat × List α)) : Nat → α :=
  ws.foldl (fun buf w => store buf w.1 w.2) buf

/-- The last store into a cell decides what is in it. -/
theorem stores_eq (ws : List (Nat × List α)) (i : Nat) :
    stores buf ws i = (ws.reverse.findSome? fun w => cell w.1 w.2 i).getD (buf i) := by
  induction ws generalizing buf with
  | nil => rfl
  | cons w ws ih =>
    change stores (store buf w.1 w.2) ws i = _
    rw [ih, store_eq_cell, List.reverse_cons, List.findSome?_append]
    cases ws.reverse.findSome? fun w => cell w.1 w.2 i <;> cases hCell : cell w.1 w.2 i <;>
      simp [hCell]

end Buffer
