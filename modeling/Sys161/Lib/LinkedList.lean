import Mathlib.Data.List.Basic
import Mathlib.Data.List.Nodup

/-!
# Singly linked lists in a store

`Linked next h l` says that following `next` from the head `h` visits exactly
the cells of `l` and then ends. Pushing, popping and inserting are described by
what they do to `l`.
-/

namespace LinkedList

universe u

variable {ι : Type u}

def Linked (next : ι → Option ι) : Option ι → List ι → Prop
  | h, [] => h = none
  | h, i :: l => h = some i ∧ Linked next (next i) l

@[simp] theorem linked_nil (next : ι → Option ι) (h : Option ι) :
    Linked next h [] ↔ h = none := Iff.rfl

@[simp] theorem linked_cons (next : ι → Option ι) (h : Option ι) (i : ι) (l : List ι) :
    Linked next h (i :: l) ↔ h = some i ∧ Linked next (next i) l := Iff.rfl

theorem linked_none {next : ι → Option ι} {l : List ι} (h : Linked next none l) : l = [] := by
  cases l with
  | nil => rfl
  | cons i l => exact absurd h.1 (by simp)

theorem linked_some {next : ι → Option ι} {i : ι} {l : List ι} (h : Linked next (some i) l) :
    ∃ t, l = i :: t ∧ Linked next (next i) t := by
  cases l with
  | nil => exact absurd h (by simp)
  | cons j t =>
    obtain ⟨hEq, hTail⟩ := h
    cases hEq
    exact ⟨t, rfl, hTail⟩

theorem linked_unique {next : ι → Option ι} {h : Option ι} {l m : List ι}
    (hl : Linked next h l) (hm : Linked next h m) : l = m := by
  induction l generalizing h m with
  | nil =>
    rw [linked_nil] at hl
    subst hl
    exact (linked_none hm).symm
  | cons i l ih =>
    obtain ⟨hEq, hTail⟩ := hl
    subst hEq
    obtain ⟨t, rfl, hRest⟩ := linked_some hm
    rw [ih hTail hRest]

/-- Only the links of the listed cells matter. -/
theorem linked_congr {next next' : ι → Option ι} {h : Option ι} {l : List ι}
    (hSame : ∀ i ∈ l, next' i = next i) (hl : Linked next h l) : Linked next' h l := by
  induction l generalizing h with
  | nil => exact hl
  | cons i l ih =>
    obtain ⟨hEq, hTail⟩ := hl
    refine ⟨hEq, ?_⟩
    rw [hSame i (by simp)]
    exact ih (fun j hj => hSame j (by simp [hj])) hTail

/-- Walk from `cur` to the first cell at which `stop` holds; `prev` is the cell just passed. -/
def seek (next : ι → Option ι) (stop : ι → Bool) :
    Nat → Option ι → Option ι → Option ι × Option ι
  | 0, prev, cur => (prev, cur)
  | _ + 1, prev, none => (prev, none)
  | fuel + 1, prev, some i =>
    if stop i then (prev, some i) else seek next stop fuel (some i) (next i)

/-- Link the cell `n` in between `prev` and `cur`. -/
def link [DecidableEq ι] (next : ι → Option ι) (n : ι) (prev cur : Option ι) :
    ι → Option ι :=
  fun i => if i = n then cur else if prev = some i then some n else next i

variable {stop : ι → Bool}

def insertBefore (stop : ι → Bool) (n : ι) (l : List ι) : List ι :=
  l.takeWhile (fun i => !stop i) ++ n :: l.dropWhile (fun i => !stop i)

theorem insertBefore_cons_stop {n i : ι} {l : List ι} (h : stop i = true) :
    insertBefore stop n (i :: l) = n :: i :: l := by
  simp [insertBefore, h]

theorem insertBefore_cons_pass {n i : ι} {l : List ι} (h : stop i = false) :
    insertBefore stop n (i :: l) = i :: insertBefore stop n l := by
  simp [insertBefore, h]

theorem insertBefore_congr {stop' : ι → Bool} {n : ι} {l : List ι}
    (h : ∀ i ∈ l, stop' i = stop i) : insertBefore stop' n l = insertBefore stop n l := by
  induction l with
  | nil => rfl
  | cons i l ih =>
    have hi := h i (by simp)
    have hl := ih fun j hj => h j (by simp [hj])
    cases hStop : stop i with
    | true => rw [insertBefore_cons_stop hStop, insertBefore_cons_stop (hi.trans hStop)]
    | false => rw [insertBefore_cons_pass hStop, insertBefore_cons_pass (hi.trans hStop), hl]

theorem dropWhile_congr {stop' : ι → Bool} {l : List ι} (h : ∀ i ∈ l, stop' i = stop i) :
    (l.dropWhile fun i => !stop' i) = l.dropWhile fun i => !stop i := by
  induction l with
  | nil => rfl
  | cons i l ih =>
    have hi := h i (by simp)
    have hl := ih fun j hj => h j (by simp [hj])
    simp only [List.dropWhile_cons, hi, hl]

theorem insertBefore_perm (stop : ι → Bool) (n : ι) (l : List ι) :
    (insertBefore stop n l).Perm (n :: l) := by
  have h : (insertBefore stop n l).Perm
      (n :: (l.takeWhile (fun i => !stop i) ++ l.dropWhile fun i => !stop i)) := List.perm_middle
  rwa [List.takeWhile_append_dropWhile] at h

theorem mem_insertBefore {n i : ι} {l : List ι} :
    i ∈ insertBefore stop n l ↔ i = n ∨ i ∈ l := by
  rw [(insertBefore_perm stop n l).mem_iff, List.mem_cons]

/-- Inserting in front of the first cell that goes after the new one keeps a list in order. -/
theorem pairwise_insertBefore {R : ι → ι → Prop} {n : ι} {l : List ι} (h : l.Pairwise R)
    (hPass : ∀ i ∈ l, stop i = false → R i n) (hStop : ∀ i ∈ l, stop i = true → R n i)
    (hTrans : ∀ i ∈ l, ∀ j ∈ l, R n i → R i j → R n j) :
    (insertBefore stop n l).Pairwise R := by
  induction l with
  | nil => simp [insertBefore]
  | cons i l ih =>
    obtain ⟨hHead, hTail⟩ := List.pairwise_cons.mp h
    cases hi : stop i with
    | true =>
      rw [insertBefore_cons_stop hi]
      have hni : R n i := hStop i (by simp) hi
      refine List.pairwise_cons.mpr ⟨?_, h⟩
      intro j hj
      rcases List.mem_cons.mp hj with rfl | hj
      · exact hni
      · exact hTrans i (by simp) j (by simp [hj]) hni (hHead j hj)
    | false =>
      rw [insertBefore_cons_pass hi]
      refine List.pairwise_cons.mpr ⟨?_, ?_⟩
      · intro j hj
        rcases mem_insertBefore.mp hj with rfl | hj
        · exact hPass i (by simp) hi
        · exact hHead j hj
      · exact ih hTail (fun j hj => hPass j (by simp [hj])) (fun j hj => hStop j (by simp [hj]))
          fun j hj k hk => hTrans j (by simp [hj]) k (by simp [hk])

/-- The cell the walk stops at is the one the new cell is linked in front of. -/
theorem seek_snd (stop : ι → Bool) (prev : Option ι) {next : ι → Option ι} {h : Option ι}
    {l : List ι} {fuel : Nat} (hFuel : l.length ≤ fuel) (hl : Linked next h l) :
    (seek next stop fuel prev h).2 = (l.dropWhile fun i => !stop i).head? := by
  induction l generalizing prev h fuel with
  | nil =>
    rw [linked_nil] at hl
    subst hl
    cases fuel <;> rfl
  | cons i l ih =>
    obtain ⟨rfl, hTail⟩ := hl
    obtain ⟨fuel, rfl⟩ : ∃ k, fuel = k + 1 := by
      cases fuel with
      | zero => simp at hFuel
      | succ k => exact ⟨k, rfl⟩
    by_cases hStop : stop i = true
    · simp [seek, hStop]
    · have hPass : stop i = false := by simpa using hStop
      simp only [seek, hPass, Bool.false_eq_true, if_false]
      rw [ih (some i) (by simpa using hFuel) hTail]
      simp [hPass]

section Insertion

variable [DecidableEq ι] {next : ι → Option ι}

theorem link_self (n : ι) (prev cur : Option ι) : link next n prev cur n = cur := by
  simp [link]

theorem link_prev {n p : ι} (hne : p ≠ n) (cur : Option ι) :
    link next n (some p) cur p = some n := by
  simp [link, hne]

theorem link_other {n i : ι} {prev : Option ι} (hn : i ≠ n) (hp : prev ≠ some i)
    (cur : Option ι) : link next n prev cur i = next i := by
  simp [link, hn, hp]

/-- The part of the walk that starts behind the cell `p`. -/
theorem seek_link_tail (stop : ι → Bool) {n p : ι} {l : List ι} {fuel : Nat}
    (hFuel : l.length ≤ fuel) (hn : n ∉ p :: l) (hNodup : (p :: l).Nodup)
    (hl : Linked next (next p) l) :
    let r := seek next stop fuel (some p) (next p)
    (∃ q ∈ p :: l, r.1 = some q) ∧
      Linked (link next n r.1 r.2) (link next n r.1 r.2 p) (insertBefore stop n l) := by
  induction l generalizing p fuel with
  | nil =>
    rw [linked_nil] at hl
    have hpn : p ≠ n := by
      rintro rfl
      exact hn (by simp)
    have hSeek : seek next stop fuel (some p) none = (some p, none) := by
      cases fuel <;> rfl
    rw [hl]
    simp only [hSeek]
    exact ⟨⟨p, by simp, rfl⟩, by simp [insertBefore, link_self, link_prev hpn]⟩
  | cons i l ih =>
    obtain ⟨hHead, hTail⟩ := hl
    obtain ⟨fuel, rfl⟩ : ∃ k, fuel = k + 1 := by
      cases fuel with
      | zero => simp at hFuel
      | succ k => exact ⟨k, rfl⟩
    have hpn : p ≠ n := by
      rintro rfl
      exact hn (by simp)
    have hni : n ∉ i :: l := fun h => hn (List.mem_cons_of_mem _ h)
    have hin : i ≠ n := by
      rintro rfl
      exact hni (by simp)
    rw [hHead]
    by_cases hStop : stop i = true
    · simp only [seek, hStop, if_true]
      refine ⟨⟨p, by simp, rfl⟩, ?_⟩
      rw [insertBefore_cons_stop hStop]
      refine ⟨link_prev hpn _, link_self _ _ _, ?_⟩
      have hip : i ≠ p := by
        rintro rfl
        simp at hNodup
      rw [link_other hin (by simpa using fun h => hip h.symm)]
      refine linked_congr (fun j hj => ?_) hTail
      have hjn : j ≠ n := by
        rintro rfl
        exact hni (List.mem_cons_of_mem _ hj)
      have hjp : p ≠ j := by
        rintro rfl
        simp [hj] at hNodup
      exact link_other hjn (by simpa using hjp) _
    · have hPass : stop i = false := by simpa using hStop
      simp only [seek, hPass, Bool.false_eq_true, if_false]
      obtain ⟨⟨q, hq, hr⟩, hLinked⟩ := ih (by simpa using hFuel) hni
        (List.nodup_cons.mp hNodup).2 hTail
      refine ⟨⟨q, List.mem_cons_of_mem _ hq, hr⟩, ?_⟩
      rw [insertBefore_cons_pass hPass]
      refine ⟨?_, hLinked⟩
      have hpq : p ≠ q := by
        rintro rfl
        exact (List.nodup_cons.mp hNodup).1 hq
      rw [link_other hpn (by rw [hr]; simpa using fun h => hpq h.symm)]
      exact hHead

/-- Inserting in front of the first cell at which `stop` holds, as a list operation. -/
theorem seek_link (stop : ι → Bool) {n : ι} {h : Option ι} {l : List ι} {fuel : Nat}
    (hFuel : l.length ≤ fuel) (hn : n ∉ l) (hNodup : l.Nodup) (hl : Linked next h l) :
    let r := seek next stop fuel none h
    Linked (link next n r.1 r.2) (if r.1 = none then some n else h) (insertBefore stop n l) ∧
      (∀ q, r.1 = some q → q ∈ l) := by
  cases l with
  | nil =>
    rw [linked_nil] at hl
    subst hl
    have hSeek : seek next stop fuel none (none : Option ι) = (none, none) := by
      cases fuel <;> rfl
    simp [hSeek, insertBefore, link_self]
  | cons i l =>
    obtain ⟨rfl, hTail⟩ := hl
    obtain ⟨fuel, rfl⟩ : ∃ k, fuel = k + 1 := by
      cases fuel with
      | zero => simp at hFuel
      | succ k => exact ⟨k, rfl⟩
    have hin : i ≠ n := by
      rintro rfl
      exact hn (by simp)
    by_cases hStop : stop i = true
    · simp only [seek, hStop, if_true]
      refine ⟨?_, by simp⟩
      rw [insertBefore_cons_stop hStop]
      refine ⟨rfl, link_self _ _ _, ?_⟩
      rw [link_other hin (by simp)]
      refine linked_congr (fun j hj => link_other ?_ (by simp) _) hTail
      rintro rfl
      exact hn (List.mem_cons_of_mem _ hj)
    · have hPass : stop i = false := by simpa using hStop
      simp only [seek, hPass, Bool.false_eq_true, if_false]
      obtain ⟨⟨q, hq, hr⟩, hLinked⟩ := seek_link_tail stop (by simpa using hFuel) hn hNodup hTail
      rw [insertBefore_cons_pass hPass]
      refine ⟨⟨?_, hLinked⟩, ?_⟩
      · rw [hr]
        simp
      · intro q' hq'
        rw [hr] at hq'
        cases hq'
        exact hq

end Insertion

end LinkedList
