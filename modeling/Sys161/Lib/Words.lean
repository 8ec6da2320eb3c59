import Sys161.Lib.CString

/-!
# Words of a line

What `strtok` finds in a line that has been put together of words.
-/

namespace CString

set_option autoImplicit false

/-- Words with a delimiter between them, and the end of the line. -/
def wordLine (delim last : BitVec 8) : List (List (BitVec 8)) → List (BitVec 8)
  | [] => [last]
  | [w] => w ++ [last]
  | w :: v :: ws => w ++ delim :: wordLine delim last (v :: ws)

section Words

variable {isDelim : BitVec 8 → Bool}

/-- There is something in it, and no delimiter. -/
structure IsWord (isDelim : BitVec 8 → Bool) (w : List (BitVec 8)) : Prop where
  some : w ≠ []
  plain : ∀ c ∈ w, isDelim c = false

theorem IsWord.takeWhile {w : List (BitVec 8)} (hw : IsWord isDelim w) {d : BitVec 8}
    (hd : isDelim d = true) (s : List (BitVec 8)) :
    (w ++ d :: s).takeWhile (fun c => !isDelim c) = w ∧
      (w ++ d :: s).dropWhile (fun c => !isDelim c) = d :: s := by
  have hAll : ∀ c ∈ w, (!isDelim c) = true := by
    intro c hc
    rw [hw.plain c hc]
    rfl
  have hTake : (d :: s).takeWhile (fun c => !isDelim c) = [] := by
    rw [List.takeWhile_cons, hd]
    rfl
  have hDrop : (d :: s).dropWhile (fun c => !isDelim c) = d :: s := by
    rw [List.dropWhile_cons, hd]
    rfl
  constructor
  · rw [List.takeWhile_append_of_pos hAll, hTake, List.append_nil]
  · rw [List.dropWhile_append_of_pos hAll, hDrop]

theorem IsWord.no_gap {w : List (BitVec 8)} (hw : IsWord isDelim w) (s : List (BitVec 8)) :
    (w ++ s).dropWhile isDelim = w ++ s := by
  obtain ⟨hSome, hPlain⟩ := hw
  cases w with
  | nil => exact absurd rfl hSome
  | cons c w =>
    rw [List.cons_append, List.dropWhile_cons, hPlain c List.mem_cons_self]
    rfl

/-- One word is found, and the delimiter behind it is gone. -/
theorem strtok_word {w : List (BitVec 8)} (hw : IsWord isDelim w) {d : BitVec 8}
    (hd : isDelim d = true) (n : Nat) (s : List (BitVec 8)) :
    (strtok isDelim (n + 1) (w ++ d :: s)).1 = w :: (strtok isDelim n s).1 := by
  rw [strtok, hw.no_gap, (hw.takeWhile hd s).1, (hw.takeWhile hd s).2]
  dsimp only
  rw [if_neg hw.some]

theorem strtok_nil (n : Nat) : (strtok isDelim n []).1 = [] := by
  cases n with
  | zero => rfl
  | succ n => rfl

theorem strtok_wordLine {delim last : BitVec 8} (hDelim : isDelim delim = true)
    (hLast : isDelim last = true) {ws : List (List (BitVec 8))}
    (hws : ∀ w ∈ ws, IsWord isDelim w) {n : Nat} (hn : ws.length ≤ n) :
    (strtok isDelim n (wordLine delim last ws)).1 = ws := by
  induction ws generalizing n with
  | nil =>
    cases n with
    | zero => rfl
    | succ n =>
      have hGap : ([last] : List (BitVec 8)).dropWhile isDelim = [] := by
        rw [List.dropWhile_cons_of_pos hLast, List.dropWhile_nil]
      rw [wordLine, strtok, hGap]
      rfl
  | cons w ws ih =>
    obtain ⟨n, rfl⟩ : ∃ k, n = k + 1 := ⟨n - 1, by rw [List.length_cons] at hn; omega⟩
    have hw := hws w List.mem_cons_self
    cases ws with
    | nil => rw [wordLine, strtok_word hw hLast, strtok_nil]
    | cons v ws =>
      rw [wordLine, strtok_word hw hDelim, ih]
      · exact fun u hu => hws u (List.mem_cons_of_mem w hu)
      · rw [List.length_cons] at hn
        omega

theorem mem_wordLine {delim last c : BitVec 8} {ws : List (List (BitVec 8))}
    (h : c ∈ wordLine delim last ws) : c = delim ∨ c = last ∨ ∃ w ∈ ws, c ∈ w := by
  induction ws with
  | nil => exact .inr (.inl (List.mem_singleton.mp h))
  | cons w ws ih =>
    cases ws with
    | nil =>
      rcases List.mem_append.mp h with h | h
      · exact .inr (.inr ⟨w, List.mem_cons_self, h⟩)
      · exact .inr (.inl (List.mem_singleton.mp h))
    | cons v ws =>
      rcases List.mem_append.mp h with h | h
      · exact .inr (.inr ⟨w, List.mem_cons_self, h⟩)
      · rcases List.mem_cons.mp h with h | h
        · exact .inl h
        · rcases ih h with h | h | ⟨u, hu, h⟩
          · exact .inl h
          · exact .inr (.inl h)
          · exact .inr (.inr ⟨u, List.mem_cons_of_mem w hu, h⟩)

/-- The line is the words and delimiters, and then its end. -/
theorem exists_wordLine (delim last : BitVec 8) (ws : List (List (BitVec 8))) :
    ∃ body, wordLine delim last ws = body ++ [last] ∧
      ∀ c ∈ body, c = delim ∨ ∃ w ∈ ws, c ∈ w := by
  induction ws with
  | nil => exact ⟨[], rfl, fun c hc => absurd hc List.not_mem_nil⟩
  | cons w ws ih =>
    cases ws with
    | nil => exact ⟨w, rfl, fun c hc => .inr ⟨w, List.mem_cons_self, hc⟩⟩
    | cons v ws =>
      obtain ⟨body, hBody, hMem⟩ := ih
      refine ⟨w ++ delim :: body, ?_, ?_⟩
      · rw [wordLine, hBody, List.append_assoc, List.cons_append]
      · intro c hc
        rcases List.mem_append.mp hc with hc | hc
        · exact .inr ⟨w, List.mem_cons_self, hc⟩
        · rcases List.mem_cons.mp hc with hc | hc
          · exact .inl hc
          · rcases hMem c hc with hc | ⟨u, hu, hc⟩
            · exact .inl hc
            · exact .inr ⟨u, List.mem_cons_of_mem w hu, hc⟩

end Words

end CString
