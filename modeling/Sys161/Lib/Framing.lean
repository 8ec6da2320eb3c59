import Mathlib.Data.List.Basic

/-!
# Frames of a stream

A cutter takes the first frame off a stream as soon as the whole frame is there.
Cutting as often as it will go gives the same frames however the stream is split
into pieces, if what is left over is kept for the next piece.
-/

namespace Framing

universe u v w

variable {α : Type u} {φ : Type v}

/-- The first frame of a stream and what follows it. -/
structure Cutter (α : Type u) (φ : Type v) where
  cut : List α → Option (φ × List α)
  shorter : ∀ {l f r}, cut l = some (f, r) → r.length < l.length
  extend : ∀ {l f r} (m : List α), cut l = some (f, r) → cut (l ++ m) = some (f, r ++ m)

variable (c : Cutter α φ)

/-- All frames of a stream, and the rest that is no frame yet. -/
def Cutter.frames (l : List α) : List φ × List α :=
  match h : c.cut l with
  | none => ([], l)
  | some (f, r) =>
    have := c.shorter h
    (f :: (frames r).1, (frames r).2)
termination_by l.length

variable {c} {l r : List α} {f : φ}

theorem Cutter.frames_none (h : c.cut l = none) : c.frames l = ([], l) := by
  rw [frames]
  split
  · rfl
  · next hSome => simp [h] at hSome

theorem Cutter.frames_some (h : c.cut l = some (f, r)) :
    c.frames l = (f :: (c.frames r).1, (c.frames r).2) := by
  rw [frames]
  split
  · next hNone => simp [h] at hNone
  · next f' r' hSome =>
    rw [h] at hSome
    obtain ⟨rfl, rfl⟩ := Prod.mk.inj (Option.some.inj hSome)
    rfl

/-- Induction on the cuts. -/
theorem Cutter.frames_induct {P : List α → Prop} (hNone : ∀ l, c.cut l = none → P l)
    (hSome : ∀ l f r, c.cut l = some (f, r) → P r → P l) (l : List α) : P l := by
  induction hLength : l.length using Nat.strongRecOn generalizing l with
  | ind n ih =>
    cases hCut : c.cut l with
    | none => exact hNone l hCut
    | some e =>
      obtain ⟨f, r⟩ := e
      exact hSome l f r hCut (ih r.length (hLength ▸ c.shorter hCut) r rfl)

theorem Cutter.cut_rest (c : Cutter α φ) (l : List α) : c.cut (c.frames l).2 = none := by
  induction l using c.frames_induct with
  | hNone l hCut => rwa [frames_none hCut]
  | hSome l f r hCut ih => rwa [frames_some hCut]

/-- The frames of a longer stream are those of its first part, and those of what that leaves with
the second. -/
theorem Cutter.frames_append (l m : List α) :
    c.frames (l ++ m) = ((c.frames l).1 ++ (c.frames ((c.frames l).2 ++ m)).1,
      (c.frames ((c.frames l).2 ++ m)).2) := by
  induction l using c.frames_induct with
  | hNone l hCut => simp [frames_none hCut]
  | hSome l f r hCut ih => rw [frames_some (c.extend m hCut), frames_some hCut, ih]; rfl

theorem Cutter.rest_suffix (hSuffix : ∀ l f r, c.cut l = some (f, r) → r <:+ l) (l : List α) :
    (c.frames l).2 <:+ l := by
  induction l using c.frames_induct with
  | hNone l hCut => simp [frames_none hCut]
  | hSome l f r hCut ih =>
    rw [frames_some hCut]
    exact ih.trans (hSuffix l f r hCut)

/-! ## Frames that an element ends -/

section Ended

variable [DecidableEq α] (a : α)

/-- What comes before the first such element. -/
def cutAt (l : List α) : Option (List α × List α) :=
  (l.idxOf? a).map fun i => (l.take i, l.drop (i + 1))

theorem cutAt_eq_none_iff {l : List α} : cutAt a l = none ↔ a ∉ l := by
  simp [cutAt]

theorem idxOf?_eq_some_split {l : List α} {i : Nat} :
    l.idxOf? a = some i ↔ ∃ f r, l = f ++ a :: r ∧ a ∉ f ∧ f.length = i := by
  constructor
  · intro h
    obtain ⟨hi, hAt, hBefore⟩ := List.idxOf?_eq_some_iff.mp h
    refine ⟨l.take i, l.drop (i + 1), ?_, ?_, by simp; omega⟩
    · rw [← hAt, List.getElem_cons_drop, List.take_append_drop]
    · intro hMem
      obtain ⟨j, hj, hEq⟩ := List.getElem_of_mem hMem
      rw [List.getElem_take] at hEq
      exact hBefore j (by simp at hj; omega) hEq
  · rintro ⟨f, r, rfl, hFirst, rfl⟩
    rw [List.idxOf?_eq_some_iff]
    refine ⟨by simp, by simp, ?_⟩
    intro j hj hEq
    apply hFirst
    rw [← hEq, List.getElem_append_left hj]
    exact List.getElem_mem _

theorem cutAt_eq_some_iff {l f r : List α} : cutAt a l = some (f, r) ↔ l = f ++ a :: r ∧ a ∉ f := by
  rw [cutAt, Option.map_eq_some_iff]
  constructor
  · rintro ⟨i, hi, hParts⟩
    obtain ⟨f', r', rfl, hFirst, rfl⟩ := (idxOf?_eq_some_split a).mp hi
    obtain ⟨rfl, rfl⟩ := Prod.mk.inj hParts
    simp [hFirst]
  · rintro ⟨rfl, hFirst⟩
    exact ⟨f.length, (idxOf?_eq_some_split a).mpr ⟨f, r, rfl, hFirst, rfl⟩, by simp⟩

def endedBy : Cutter α (List α) where
  cut := cutAt a
  shorter h := by
    obtain ⟨rfl, -⟩ := (cutAt_eq_some_iff a).mp h
    simp
    omega
  extend m h := by
    obtain ⟨rfl, hFirst⟩ := (cutAt_eq_some_iff a).mp h
    rw [cutAt_eq_some_iff]
    simp [hFirst]

variable {a}

theorem rest_endedBy (l : List α) : a ∉ ((endedBy a).frames l).2 :=
  (cutAt_eq_none_iff a).mp ((endedBy a).cut_rest l)

/-- The frames with their ends, and the rest, make up the stream. -/
theorem join_endedBy (l : List α) :
    (((endedBy a).frames l).1.map (· ++ [a])).flatten ++ ((endedBy a).frames l).2 = l := by
  induction l using (endedBy a).frames_induct with
  | hNone l hCut => simp [Cutter.frames_none hCut]
  | hSome l f r hCut ih =>
    obtain ⟨rfl, -⟩ := (cutAt_eq_some_iff a).mp hCut
    rw [Cutter.frames_some hCut]
    simp [ih]

/-- Two streams with the same frames and the same rest are the same. -/
theorem frames_endedBy_inj {l m : List α} (h : (endedBy a).frames l = (endedBy a).frames m) :
    l = m := by
  rw [← join_endedBy (a := a) l, h, join_endedBy]

theorem suffix_endedBy (l : List α) : ((endedBy a).frames l).2 <:+ l := by
  apply Cutter.rest_suffix
  intro l f r hCut
  obtain ⟨rfl, -⟩ := (cutAt_eq_some_iff a).mp hCut
  exact ⟨f ++ [a], by simp⟩

end Ended

/-! ## A loop that takes the frames off -/

section Drain

variable {σ : Type w} {ε : Type w}

/-- `while` a turn takes a frame off the state; a turn that takes none says why. -/
def drain (turn : σ → Except ε (φ × σ)) : Nat → σ → List φ × σ × Option ε
  | 0, s => ([], s, none)
  | n + 1, s =>
    match turn s with
    | .error e => ([], s, some e)
    | .ok (f, s') => (f :: (drain turn n s').1, (drain turn n s').2)

/-- The turns follow the cuts of what the state keeps, up to the first frame that is refused. -/
structure Follows (c : Cutter α φ) (turn : σ → Except ε (φ × σ)) (kept : σ → List α)
    (fits : φ → Prop) (done refused : ε) : Prop where
  stop : ∀ s, c.cut (kept s) = none → turn s = .error done
  next : ∀ s f r, c.cut (kept s) = some (f, r) → fits f → ∃ s', turn s = .ok (f, s') ∧ kept s' = r
  refuse : ∀ s f r, c.cut (kept s) = some (f, r) → ¬ fits f → turn s = .error refused

variable {turn : σ → Except ε (φ × σ)} {kept : σ → List α} {fits : φ → Prop} {done refused : ε}

/-- Where every frame fits, the loop takes them all and keeps the rest. -/
theorem Follows.drain_all (h : Follows c turn kept fits done refused) {n : Nat} {s : σ}
    (hFuel : (kept s).length < n) (hFits : ∀ f ∈ (c.frames (kept s)).1, fits f) :
    (drain turn n s).1 = (c.frames (kept s)).1 ∧ kept (drain turn n s).2.1 = (c.frames (kept s)).2 ∧
      (drain turn n s).2.2 = some done := by
  induction n generalizing s with
  | zero => omega
  | succ n ih =>
    cases hCut : c.cut (kept s) with
    | none =>
      rw [Cutter.frames_none hCut, drain, h.stop s hCut]
      exact ⟨rfl, rfl, rfl⟩
    | some e =>
      obtain ⟨f, r⟩ := e
      rw [Cutter.frames_some hCut] at hFits ⊢
      obtain ⟨s', hTurn, rfl⟩ := h.next s f r hCut (hFits f (List.mem_cons_self ..))
      have hShorter := c.shorter hCut
      obtain ⟨hFrames, hKept, hDone⟩ := ih (s := s') (by omega)
        fun f' hf' => hFits f' (List.mem_cons_of_mem _ hf')
      rw [drain, hTurn]
      exact ⟨congrArg (f :: ·) hFrames, hKept, hDone⟩

/-- A frame that does not fit ends the loop. -/
theorem Follows.drain_refused (h : Follows c turn kept fits done refused) {n : Nat} {s : σ}
    (hFuel : (kept s).length < n) (hFits : ¬ ∀ f ∈ (c.frames (kept s)).1, fits f) :
    (drain turn n s).2.2 = some refused := by
  induction n generalizing s with
  | zero => omega
  | succ n ih =>
    cases hCut : c.cut (kept s) with
    | none => simp [Cutter.frames_none hCut] at hFits
    | some e =>
      obtain ⟨f, r⟩ := e
      rw [Cutter.frames_some hCut] at hFits
      by_cases hFirst : fits f
      · obtain ⟨s', hTurn, rfl⟩ := h.next s f r hCut hFirst
        have hShorter := c.shorter hCut
        have hLater : ¬ ∀ f ∈ (c.frames (kept s')).1, fits f := by
          intro hAll
          apply hFits
          simpa [hFirst] using hAll
        rw [drain, hTurn]
        exact ih (by omega) hLater
      · rw [drain, h.refuse s f r hCut hFirst]

/-- What each turn does to a part of the state is folded over the frames. -/
theorem foldl_drain {β : Type w} (view : σ → β) {step : β → φ → β}
    (hStep : ∀ s f s', turn s = .ok (f, s') → view s' = step (view s) f) (n : Nat) (s : σ) :
    view (drain turn n s).2.1 = (drain turn n s).1.foldl step (view s) := by
  induction n generalizing s with
  | zero => rfl
  | succ n ih =>
    rw [drain]
    cases hTurn : turn s with
    | error e => rfl
    | ok r =>
      obtain ⟨f, s'⟩ := r
      rw [List.foldl_cons, ← hStep s f s' hTurn, ← ih s']

theorem drain_keeps {β : Type w} (view : σ → β)
    (hStep : ∀ s f s', turn s = .ok (f, s') → view s' = view s) (n : Nat) (s : σ) :
    view (drain turn n s).2.1 = view s := by
  induction n generalizing s with
  | zero => rfl
  | succ n ih =>
    rw [drain]
    cases hTurn : turn s with
    | error e => rfl
    | ok r =>
      obtain ⟨f, s'⟩ := r
      exact (ih s').trans (hStep s f s' hTurn)

end Drain

end Framing
