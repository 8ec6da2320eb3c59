import Mathlib.Data.List.Basic
import Mathlib.Logic.Function.Basic
import Sys161.Lib.Runs

/-!
# A store of numbered blocks

Blocks are read and written as a whole. A write that fails leaves the front of the
new block before the back of the old one.
-/

namespace BlockStore

open Runs

set_option autoImplicit false

universe u

variable {α : Type u}

abbrev Blocks (α : Type u) := Nat → List α

structure Transfer (α : Type u) where
  write : Bool
  block : Nat
  data : List α
  ok : Bool

inductive Step (b : Blocks α) (t : Transfer α) : Blocks α → Prop where
  | read : t.write = false → (t.ok = true → t.data = b t.block) → Step b t b
  | written : t.write = true → t.ok = true → Step b t (Function.update b t.block t.data)
  | torn (k : Nat) : t.write = true → t.ok = false →
      Step b t (Function.update b t.block (t.data.take k ++ (b t.block).drop k))

/-- The transfers are a run from one store to the other. -/
def Runs (b : Blocks α) (ts : List (Transfer α)) (b' : Blocks α) : Prop :=
  ∃ p, Path Step b p b' ∧ p.map Prod.fst = ts

variable {b b' b'' : Blocks α} {ts ts' : List (Transfer α)} {t w r : Transfer α}

theorem Runs.nil (b : Blocks α) : Runs b [] b := ⟨[], .nil b, rfl⟩

theorem Runs.cons_iff : Runs b (t :: ts) b'' ↔ ∃ b', Step b t b' ∧ Runs b' ts b'' := by
  constructor
  · rintro ⟨p, hp, hMap⟩
    cases hp with
    | nil => cases hMap
    | cons hStep hRest =>
      obtain ⟨rfl, rfl⟩ := List.cons.inj hMap
      exact ⟨_, hStep, _, hRest, rfl⟩
  · rintro ⟨b', hStep, p, hp, rfl⟩
    exact ⟨(t, b') :: p, .cons hStep hp, rfl⟩

theorem Runs.append (h : Runs b ts b') (h' : Runs b' ts' b'') : Runs b (ts ++ ts') b'' := by
  obtain ⟨p, hp, rfl⟩ := h
  obtain ⟨q, hq, rfl⟩ := h'
  exact ⟨p ++ q, hp.append hq, List.map_append⟩

theorem Runs.single (h : Step b t b') : Runs b [t] b' := Runs.cons_iff.mpr ⟨b', h, Runs.nil b'⟩

theorem Runs.split (h : Runs b (ts ++ ts') b'') : ∃ b', Runs b ts b' ∧ Runs b' ts' b'' := by
  obtain ⟨p, hp, hMap⟩ := h
  obtain ⟨q, r, rfl, rfl, rfl⟩ := List.map_eq_append_iff.mp hMap
  obtain ⟨t, hq, hr⟩ := hp.split
  exact ⟨t, ⟨q, hq, rfl⟩, ⟨r, hr, rfl⟩⟩

theorem Step.other (h : Step b t b') {n : Nat} (hn : t.write = true → t.block ≠ n) :
    b' n = b n := by
  cases h with
  | read => rfl
  | written hWrite => exact Function.update_of_ne (hn hWrite).symm _ _
  | torn k hWrite => exact Function.update_of_ne (hn hWrite).symm _ _

/-- A block keeps its contents while nothing is written to it. -/
theorem Runs.other (h : Runs b ts b') {n : Nat}
    (hn : ∀ t ∈ ts, t.write = true → t.block ≠ n) : b' n = b n := by
  induction ts generalizing b with
  | nil =>
    obtain ⟨p, hp, hMap⟩ := h
    obtain rfl := List.map_eq_nil_iff.mp hMap
    cases hp
    rfl
  | cons t ts ih =>
    obtain ⟨b₁, hStep, hRest⟩ := Runs.cons_iff.mp h
    obtain ⟨hHead, hTail⟩ := List.forall_mem_cons.mp hn
    rw [ih hRest hTail, hStep.other hHead]

theorem Step.written_block (h : Step b w b') (hWrite : w.write = true) (hOk : w.ok = true) :
    b' w.block = w.data := by
  cases h with
  | read hNot =>
    rw [hWrite] at hNot
    cases hNot
  | written => exact Function.update_self _ _ _
  | torn k _ hTorn =>
    rw [hOk] at hTorn
    cases hTorn

theorem Step.read_block (h : Step b r b') (hRead : r.write = false) (hOk : r.ok = true) :
    r.data = b r.block := by
  cases h with
  | read _ hData => exact hData hOk
  | written hNot =>
    rw [hRead] at hNot
    cases hNot
  | torn k hNot =>
    rw [hRead] at hNot
    cases hNot

/-- A read gives what was last written to the block. -/
theorem Runs.last_written {before between after : List (Transfer α)}
    (h : Runs b (before ++ w :: between ++ r :: after) b') (hWrite : w.write = true)
    (hWritten : w.ok = true) (hRead : r.write = false) (hOk : r.ok = true)
    (hBlock : r.block = w.block) (hBetween : ∀ t ∈ between, t.write = true → t.block ≠ w.block) :
    r.data = w.data := by
  rw [List.append_assoc, List.cons_append] at h
  obtain ⟨b₁, -, h⟩ := h.split
  obtain ⟨b₂, hFirst, h⟩ := Runs.cons_iff.mp h
  obtain ⟨b₃, hMiddle, h⟩ := h.split
  obtain ⟨b₄, hLast, -⟩ := Runs.cons_iff.mp h
  rw [hLast.read_block hRead hOk, hBlock, hMiddle.other hBetween,
    hFirst.written_block hWrite hWritten]

/-- A read gives what was there at first, where nothing has been written. -/
theorem Runs.first_read {before after : List (Transfer α)}
    (h : Runs b (before ++ r :: after) b') (hRead : r.write = false) (hOk : r.ok = true)
    (hBefore : ∀ t ∈ before, t.write = true → t.block ≠ r.block) : r.data = b r.block := by
  obtain ⟨b₁, hFirst, h⟩ := h.split
  obtain ⟨b₂, hLast, -⟩ := Runs.cons_iff.mp h
  rw [hLast.read_block hRead hOk, hFirst.other hBefore]

end BlockStore
