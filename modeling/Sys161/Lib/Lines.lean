import Sys161.Lib.Framing

/-!
# Labelled lines

Several writers share a text. Each has a label that comes before its lines, and a
line that is not ended goes on only for the writer that has begun it.
-/

namespace Framing

universe u v

/-- No label is the beginning of another one, and none contains the end of a line. -/
structure Labels (κ : Type u) {α : Type v} (a : α) where
  label : κ → List α
  some : ∀ k, label k ≠ []
  plain : ∀ k, a ∉ label k
  apart : ∀ k k', label k <+: label k' → k = k'

/-- The lines so far, and the one that is not ended. -/
@[ext] structure Log (κ : Type u) (α : Type v) where
  ended : List (κ × List α)
  current : Option (κ × List α)

namespace Log

variable {κ : Type u} {α : Type v}

def empty : Log κ α := ⟨[], none⟩

def close (l : Log κ α) : Log κ α := ⟨l.ended ++ l.current.toList, none⟩

def add [DecidableEq κ] (l : Log κ α) (k : κ) (t : List α) : Log κ α :=
  match l.current with
  | some (k', t') => if k' = k then ⟨l.ended, some (k, t' ++ t)⟩ else ⟨l.close.ended, some (k, t)⟩
  | none => ⟨l.ended, some (k, t)⟩

/-- What has been written, with its writers. -/
def pieces (l : Log κ α) : List (κ × α) :=
  (l.ended ++ l.current.toList).flatMap fun e => e.2.map fun x => (e.1, x)

/-- The lines of a writer that are ended. -/
def of [DecidableEq κ] (l : Log κ α) (k : κ) : List (List α) :=
  (l.ended.filter fun e => e.1 = k).map Prod.snd

theorem plain_of_pieces {a : α} {l : Log κ α} (h : ∀ p ∈ l.pieces, p.2 ≠ a) :
    ∀ e ∈ l.ended ++ l.current.toList, a ∉ e.2 := by
  intro e he hMem
  refine h (e.1, a) ?_ rfl
  exact List.mem_flatMap.mpr ⟨e, he, List.mem_map.mpr ⟨a, hMem, rfl⟩⟩

theorem pieces_close (l : Log κ α) : l.close.pieces = l.pieces := by
  rw [pieces, close, Option.toList_none, List.append_nil]
  rfl

section Adding

variable [DecidableEq κ] {l : Log κ α} {k k' : κ} {t : List α}

theorem pieces_add (l : Log κ α) (k : κ) (t : List α) :
    (l.add k t).pieces = l.pieces ++ t.map fun x => (k, x) := by
  obtain ⟨ended, current⟩ := l
  cases current with
  | none => simp [add, pieces]
  | some e =>
    obtain ⟨k', t'⟩ := e
    rw [add]
    dsimp only
    split
    · next hSame =>
      subst hSame
      simp [pieces]
    · simp [pieces, close]

theorem current_add (l : Log κ α) (k : κ) (t : List α) : ∃ e, (l.add k t).current = some e := by
  rw [add]
  split
  · split
    · exact ⟨_, rfl⟩
    · exact ⟨_, rfl⟩
  · exact ⟨_, rfl⟩

/-- A line that is begun and ended at once. -/
theorem of_add_close (hOther : ∀ e ∈ l.current, e.1 ≠ k) :
    (l.add k t).close.of k = l.of k ++ [t] := by
  obtain ⟨ended, current⟩ := l
  cases current with
  | none => simp [add, close, of]
  | some e =>
    have hNot : e.1 ≠ k := hOther e rfl
    rw [add]
    dsimp only
    rw [if_neg hNot]
    simp [close, of, hNot]

theorem of_close (hOther : ∀ e ∈ l.current, e.1 ≠ k) : l.close.of k = l.of k := by
  obtain ⟨ended, current⟩ := l
  cases current with
  | none => simp [close, of]
  | some e =>
    have hNot : e.1 ≠ k := hOther e rfl
    simp [close, of, hNot]

/-- Other writers leave the lines alone, and do not begin one. -/
theorem of_add (hOther : ∀ e ∈ l.current, e.1 ≠ k) (hk : k' ≠ k) :
    (l.add k' t).of k = l.of k ∧ ∀ e ∈ (l.add k' t).current, e.1 ≠ k := by
  obtain ⟨ended, current⟩ := l
  cases current with
  | none =>
    refine ⟨rfl, ?_⟩
    rintro e ⟨⟩
    exact hk
  | some e =>
    have hNot : e.1 ≠ k := hOther e rfl
    rw [add]
    dsimp only
    split
    · refine ⟨rfl, ?_⟩
      rintro e ⟨⟩
      exact hk
    · refine ⟨by simp [close, of, hNot], ?_⟩
      rintro e ⟨⟩
      exact hk

end Adding

/-! ## The text -/

variable {a : α} (c : Labels κ a) (eol : List α)

def line (e : κ × List α) : List α := c.label e.1 ++ e.2

/-- The text of a log, where the lines end like this. -/
def text (l : Log κ α) : List α :=
  (l.ended.map fun e => line c e ++ eol ++ [a]).flatten ++ (l.current.map (line c)).getD []

variable {c eol}

theorem text_close {l : Log κ α} {e : κ × List α} (h : l.current = some e) :
    l.close.text c eol = l.text c eol ++ (eol ++ [a]) := by
  rw [text, text, close, h]
  simp

theorem text_begin {l : Log κ α} (h : l.current = none) (k : κ) (t : List α) :
    (⟨l.ended, some (k, t)⟩ : Log κ α).text c eol = l.text c eol ++ (c.label k ++ t) := by
  rw [text, text, h]
  simp [line]

theorem text_more (ended : List (κ × List α)) (k : κ) (t t' : List α) :
    (⟨ended, some (k, t ++ t')⟩ : Log κ α).text c eol =
      (⟨ended, some (k, t)⟩ : Log κ α).text c eol ++ t' := by
  rw [text, text]
  simp [line]

/-- There is no end of a line within what is written. -/
def Plain (a : α) (l : Log κ α) : Prop := ∀ e ∈ l.ended ++ l.current.toList, a ∉ e.2

theorem line_inj {e e' : κ × List α} {s : List α} (h : line c e ++ s = line c e' ++ s) :
    e = e' := by
  obtain ⟨k, t⟩ := e
  obtain ⟨k', t'⟩ := e'
  have hLine : c.label k ++ t = c.label k' ++ t' := List.append_cancel_right h
  have hLabel : k = k' := by
    rcases List.prefix_or_prefix_of_prefix (List.prefix_append (c.label k) t)
      (hLine ▸ List.prefix_append (c.label k') t') with hIn | hIn
    · exact c.apart k k' hIn
    · exact (c.apart k' k hIn).symm
  subst hLabel
  rw [List.append_cancel_left hLine]

/-- The lines of the text. -/
theorem frames_text [DecidableEq α] (hEol : a ∉ eol) {l : Log κ α} (hPlain : l.Plain a) :
    (endedBy a).frames (l.text c eol) =
      (l.ended.map fun e => line c e ++ eol, (l.current.map (line c)).getD []) := by
  obtain ⟨ended, current⟩ := l
  have hLine : ∀ e ∈ ended ++ current.toList, a ∉ line c e := by
    intro e he hMem
    rcases List.mem_append.mp hMem with hMem | hMem
    · exact c.plain e.1 hMem
    · exact hPlain e he hMem
  induction ended with
  | nil =>
    have hLast : a ∉ (current.map (line c)).getD [] := by
      cases current with
      | none => exact List.not_mem_nil
      | some e => exact hLine e (List.mem_singleton_self e)
    have hCut : (endedBy a).cut ((current.map (line c)).getD []) = none :=
      (cutAt_eq_none_iff a).mpr hLast
    rw [text, List.map_nil, List.flatten_nil, List.nil_append, Cutter.frames_none hCut,
      List.map_nil]
  | cons e ended ih =>
    have hRest := ih (fun e' he' => hPlain e' (List.mem_cons_of_mem e he'))
      fun e' he' => hLine e' (List.mem_cons_of_mem e he')
    have hText : (⟨e :: ended, current⟩ : Log κ α).text c eol =
        (line c e ++ eol) ++ a :: (⟨ended, current⟩ : Log κ α).text c eol := by
      simp [text]
    have hFirst : a ∉ line c e ++ eol := by
      rw [List.mem_append]
      exact not_or.mpr ⟨hLine e List.mem_cons_self, hEol⟩
    have hCut : (endedBy a).cut ((⟨e :: ended, current⟩ : Log κ α).text c eol) =
        some (line c e ++ eol, (⟨ended, current⟩ : Log κ α).text c eol) :=
      (cutAt_eq_some_iff a).mpr ⟨hText, hFirst⟩
    rw [Cutter.frames_some hCut, hRest]
    rfl

/-- A text has one log only. -/
theorem text_inj [DecidableEq α] (hEol : a ∉ eol) {l l' : Log κ α} (hPlain : l.Plain a)
    (hPlain' : l'.Plain a) (h : l.text c eol = l'.text c eol) : l = l' := by
  have hFrames := @frames_text κ α a c eol _ hEol l hPlain
  rw [h, frames_text hEol hPlain'] at hFrames
  obtain ⟨hEnded, hCurrent⟩ := Prod.mk.inj hFrames
  apply Log.ext
  · refine List.map_injective_iff.mpr ?_ hEnded.symm
    intro e e' hEq
    exact line_inj hEq
  · cases hLeft : l.current with
    | none =>
      cases hRight : l'.current with
      | none => rfl
      | some e =>
        rw [hLeft, hRight] at hCurrent
        have hNil : c.label e.1 ++ e.2 = [] := hCurrent
        exact absurd (List.append_eq_nil_iff.mp hNil).1 (c.some e.1)
    | some e =>
      cases hRight : l'.current with
      | none =>
        rw [hLeft, hRight] at hCurrent
        have hNil : [] = c.label e.1 ++ e.2 := hCurrent
        exact absurd (List.append_eq_nil_iff.mp hNil.symm).1 (c.some e.1)
      | some e' =>
        rw [hLeft, hRight] at hCurrent
        have hSame : line c e' ++ [] = line c e ++ [] := by
          rw [List.append_nil, List.append_nil]
          exact hCurrent
        rw [line_inj hSame]

end Log

end Framing
