import Mathlib.Data.Fin.Tuple.Basic

/-!
# Stacks in a shift register

A stack of a fixed number of slots: a push shifts the last one out, and a pop
leaves it as it is. As long as no more is pushed than there is room for below
the top, pops in turn with the pushes bring back what was there.
-/

namespace ShiftStack

set_option autoImplicit false

universe u

variable {α : Type u} {n : Nat}

inductive Move (α : Type u) where
  | push (a : α)
  | pop

def push (a : α) (s : Fin (n + 1) → α) : Fin (n + 1) → α := Fin.cons a fun k => s k.castSucc

def pop (s : Fin (n + 1) → α) : Fin (n + 1) → α := Fin.snoc (fun k => s k.succ) (s (Fin.last n))

def Move.apply (move : Move α) (s : Fin (n + 1) → α) : Fin (n + 1) → α :=
  match move with
  | push a => ShiftStack.push a s
  | pop => ShiftStack.pop s

def run (s : Fin (n + 1) → α) (moves : List (Move α)) : Fin (n + 1) → α :=
  moves.foldl (fun s move => move.apply s) s

theorem run_append (s : Fin (n + 1) → α) (moves moves' : List (Move α)) :
    run s (moves ++ moves') = run (run s moves) moves' := List.foldl_append

/-- Every pop is for a push, at no more than this depth. -/
inductive Nested : Nat → List (Move α) → Prop where
  | nil (d : Nat) : Nested d []
  | bracket {d : Nat} {a : α} {moves moves' : List (Move α)} :
      Nested d moves → Nested (d + 1) moves' → Nested (d + 1) (.push a :: (moves ++ .pop :: moves'))

theorem Nested.mono {d d' : Nat} {moves : List (Move α)} (h : Nested d moves) (hd : d ≤ d') :
    Nested d' moves := by
  induction h generalizing d' with
  | nil d => exact .nil d'
  | @bracket d a moves moves' _ _ ih ih' =>
    obtain ⟨k, rfl⟩ := Nat.exists_eq_add_of_le' (Nat.le_trans (Nat.le_add_left 1 d) hd)
    exact .bracket (ih (by omega)) (ih' hd)

/-- Each pop has its push before it, with what is nested less deep in between. -/
theorem Nested.matching {d : Nat} {moves before after : List (Move α)} (h : Nested d moves)
    (hPop : moves = before ++ .pop :: after) :
    ∃ outer a inner d', before = outer ++ .push a :: inner ∧ Nested d' inner ∧ d' < d := by
  induction h generalizing before after with
  | nil d =>
    have hLength := congrArg List.length hPop
    simp at hLength
  | @bracket d a inner rest hInner _ ih ih' =>
    cases before with
    | nil => cases hPop
    | cons first before =>
      simp only [List.cons_append, List.cons.injEq] at hPop
      obtain ⟨rfl, hTail⟩ := hPop
      obtain ⟨gap, rfl, hRest⟩ | ⟨gap, rfl, hRest⟩ := List.append_eq_append_iff.mp hTail
      · cases gap with
        | nil => exact ⟨[], a, inner, d, by simp, hInner, by omega⟩
        | cons move gap =>
          simp only [List.cons_append, List.cons.injEq] at hRest
          obtain ⟨rfl, hRest⟩ := hRest
          obtain ⟨outer, a', inner', d', rfl, hNested, hLt⟩ := ih' hRest
          exact ⟨.push a :: (inner ++ .pop :: outer), a', inner', d', by simp, hNested, hLt⟩
      · cases gap with
        | nil =>
          rw [List.append_nil] at hInner
          exact ⟨[], a, before, d, rfl, hInner, by omega⟩
        | cons move gap =>
          simp only [List.cons_append, List.cons.injEq] at hRest
          obtain ⟨rfl, -⟩ := hRest
          obtain ⟨outer, a', inner', d', rfl, hNested, hLt⟩ := ih rfl
          exact ⟨.push a :: outer, a', inner', d', rfl, hNested, by omega⟩

/-- The slots down to `k` are the same. -/
def Agree (k : Nat) (s s' : Fin (n + 1) → α) : Prop := ∀ j : Fin (n + 1), j < k → s j = s' j

theorem Agree.trans {k : Nat} {s s' s'' : Fin (n + 1) → α} (h : Agree k s s') (h' : Agree k s' s'') :
    Agree k s s'' := fun j hj => (h j hj).trans (h' j hj)

/-- What is popped lies below what was pushed. -/
theorem agree_pop {k : Nat} (hk : k ≤ n) {a : α} {s s' : Fin (n + 1) → α}
    (h : Agree (k + 1) s (push a s')) : Agree k (pop s) s' := by
  intro j hj
  have hLt : j < n := Nat.lt_of_lt_of_le hj hk
  obtain ⟨i, rfl⟩ : ∃ i : Fin n, j = i.castSucc := ⟨⟨j, hLt⟩, rfl⟩
  have hNext := h i.succ (Nat.succ_lt_succ hj)
  rw [push, Fin.cons_succ] at hNext
  rw [pop, Fin.snoc_castSucc, hNext]

/-- A nested sequence leaves all slots alone but the lowest. -/
theorem Nested.agree {d : Nat} {moves : List (Move α)} (h : Nested d moves) {k : Nat}
    (hRoom : k + d ≤ n + 1) (s : Fin (n + 1) → α) : Agree k (run s moves) s := by
  induction h generalizing k s with
  | nil d => exact fun _ _ => rfl
  | @bracket d a moves moves' _ _ ih ih' =>
    have hInner : Agree (k + 1) (run (push a s) moves) (push a s) := ih (by omega) _
    have hPopped : Agree k (pop (run (push a s) moves)) s := agree_pop (by omega) hInner
    have hRest : Agree k (run (pop (run (push a s) moves)) moves') (pop (run (push a s) moves)) :=
      ih' hRoom _
    have hRun : run s (.push a :: (moves ++ .pop :: moves')) =
        run (pop (run (push a s) moves)) moves' := by
      rw [← List.singleton_append, run_append, run_append]
      rfl
    rw [hRun]
    exact hRest.trans hPopped

/-- A pop brings back the top that its push found. -/
theorem Nested.top {d : Nat} {moves : List (Move α)} (h : Nested d moves) (hRoom : d < n) (a : α)
    (s : Fin (n + 1) → α) : pop (run (push a s) moves) 0 = s 0 := by
  have hInner : Agree 2 (run (push a s) moves) (push a s) := h.agree (by omega) _
  exact agree_pop (k := 1) (by omega) hInner 0 Nat.zero_lt_one

end ShiftStack
