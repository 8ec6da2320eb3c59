import Mathlib
import Sys161.Bus.Disk
import Sys161.Lib.Buffer

/-!
# The image of a disk

`doread` and `dowrite` go on until they have moved what they were asked to move,
however little the host does at a time.
-/

namespace Sys161.Bus

open Buffer

set_option autoImplicit false

/-- A file. There are zeros behind its end. -/
@[ext] structure Image where
  bytes : Nat → BitVec 8
  length : Nat
  padded : ∀ i, length ≤ i → bytes i = 0

namespace Image

def slice (img : Image) (pos n : Nat) : List (BitVec 8) := (List.range n).map fun i => img.bytes (pos + i)

/-- What a write leaves behind the longer of the file and the data is still zero. -/
theorem padded_store (img : Image) (pos : Nat) (data : List (BitVec 8)) (i : Nat)
    (hi : max img.length (if data = [] then 0 else pos + data.length) ≤ i) :
    store img.bytes pos data i = 0 := by
  have hOld : img.length ≤ i := le_trans (le_max_left _ _) hi
  have hNew := le_trans (le_max_right _ _) hi
  cases data with
  | nil => simpa [store] using img.padded i hOld
  | cons c data =>
    rw [if_neg (List.cons_ne_nil c data)] at hNew
    have hOut : (c :: data).length ≤ i - pos := by omega
    rw [store, if_pos (by omega), List.getD_eq_default _ _ hOut]
    exact img.padded i hOld

/-- `write` of data at a place. -/
def write (img : Image) (pos : Nat) (data : List (BitVec 8)) : Image where
  bytes := store img.bytes pos data
  length := max img.length (if data = [] then 0 else pos + data.length)
  padded := padded_store img pos data

end Image

/-- What one call to the host comes to: it is interrupted, it fails, or it moves so many bytes,
if there are as many. -/
inductive HostAnswer where
  | again
  | failed
  | moved (n : Nat)

/-- What all calls come to that one transfer makes. -/
structure IoScript where
  lseek : Bool
  answers : List HostAnswer
  fsync : Bool

/-- The loop of `doread`: what it has put into the buffer, and whether it succeeded, if it has
ended. There is nothing to read only at the end of the file. -/
def doreadLoop (img : Image) : List HostAnswer → Nat → Nat → List (BitVec 8) × Option Bool
  | _, _, 0 => ([], some true)
  | [], _, _ + 1 => ([], none)
  | .again :: answers, pos, need + 1 => doreadLoop img answers pos (need + 1)
  | .failed :: _, _, _ + 1 => ([], some false)
  | .moved n :: answers, pos, need + 1 =>
    let r := min (min (need + 1) (n + 1)) (img.length - pos)
    if r = 0 then (List.replicate (need + 1) 0, some true)
    else
      let rest := doreadLoop img answers (pos + r) (need + 1 - r)
      (img.slice pos r ++ rest.1, rest.2)

def Image.doread (img : Image) (s : IoScript) (offset bufsize : Nat) :
    List (BitVec 8) × Option Bool :=
  if s.lseek then doreadLoop img s.answers offset bufsize else ([], some false)

/-- The loop of `dowrite`. A write of nothing is taken for an error. -/
def dowriteLoop : List HostAnswer → Image → Nat → List (BitVec 8) → Image × Option Bool
  | _, img, _, [] => (img, some true)
  | [], img, _, _ :: _ => (img, none)
  | .again :: answers, img, pos, c :: data => dowriteLoop answers img pos (c :: data)
  | .failed :: _, img, _, _ :: _ => (img, some false)
  | .moved n :: answers, img, pos, c :: data =>
    if n = 0 then (img, some false)
    else
      dowriteLoop answers (img.write pos ((c :: data).take n)) (pos + min n (data.length + 1))
        ((c :: data).drop n)

def Image.dowrite (paranoid : Bool) (img : Image) (s : IoScript) (offset : Nat)
    (data : List (BitVec 8)) : Image × Option Bool :=
  if s.lseek then
    let r := dowriteLoop s.answers img offset data
    if r.2 = some true ∧ paranoid ∧ s.fsync = false then (r.1, some false) else r
  else (img, some false)

/-! ## What they come to -/

namespace Image

@[simp] theorem length_slice (img : Image) (pos n : Nat) : (img.slice pos n).length = n := by
  simp [slice]

theorem getElem_slice {img : Image} {pos n i : Nat} (h : i < (img.slice pos n).length) :
    (img.slice pos n)[i] = img.bytes (pos + i) := by
  simp [slice]

theorem slice_append (img : Image) (pos k n : Nat) :
    img.slice pos k ++ img.slice (pos + k) n = img.slice pos (k + n) := by
  rw [slice, slice, slice, List.range_add, List.map_append, List.map_map]
  congr 1
  exact List.map_congr_left fun i _ => congrArg img.bytes (Nat.add_assoc pos k i)

theorem slice_behind {img : Image} {pos : Nat} (h : img.length ≤ pos) (n : Nat) :
    img.slice pos n = List.replicate n 0 := by
  apply List.ext_getElem
  · simp
  · intro i hi _
    rw [getElem_slice, List.getElem_replicate]
    exact img.padded _ (by omega)

theorem bytes_write (img : Image) (pos : Nat) (data : List (BitVec 8)) (i : Nat) :
    (img.write pos data).bytes i =
      if h : pos ≤ i ∧ i - pos < data.length then data[i - pos] else img.bytes i := by
  change store img.bytes pos data i = _
  rw [store]
  by_cases hLow : pos ≤ i
  · rw [if_pos hLow]
    by_cases hHigh : i - pos < data.length
    · rw [dif_pos ⟨hLow, hHigh⟩, List.getD_eq_getElem _ _ hHigh]
    · rw [dif_neg fun h => hHigh h.2, List.getD_eq_default _ _ (not_lt.mp hHigh)]
  · rw [if_neg hLow, dif_neg fun h => hLow h.1]

@[simp] theorem write_nil (img : Image) (pos : Nat) : img.write pos [] = img := by
  ext i
  · rw [bytes_write, dif_neg]
    rintro ⟨-, h⟩
    exact absurd h (Nat.not_lt_zero _)
  · change max img.length 0 = img.length
    exact max_eq_left (Nat.zero_le _)

theorem write_append (img : Image) (pos : Nat) (a b : List (BitVec 8)) :
    (img.write pos a).write (pos + a.length) b = img.write pos (a ++ b) := by
  ext i
  · rw [bytes_write, bytes_write, bytes_write]
    by_cases hBack : pos + a.length ≤ i ∧ i - (pos + a.length) < b.length
    · have hIn : pos ≤ i ∧ i - pos < (a ++ b).length := by
        rw [List.length_append]
        omega
      have hIndex : i - (pos + a.length) = i - pos - a.length := by omega
      rw [dif_pos hBack, dif_pos hIn, List.getElem_append_right (by omega)]
      simp only [hIndex]
    · rw [dif_neg hBack]
      by_cases hFront : pos ≤ i ∧ i - pos < a.length
      · have hIn : pos ≤ i ∧ i - pos < (a ++ b).length := by
          rw [List.length_append]
          omega
        rw [dif_pos hFront, dif_pos hIn, List.getElem_append_left hFront.2]
      · have hOut : ¬ (pos ≤ i ∧ i - pos < (a ++ b).length) := by
          rw [List.length_append]
          omega
        rw [dif_neg hFront, dif_neg hOut]
  · change max (max img.length _) _ = max img.length _
    cases a with
    | nil =>
      rw [if_pos rfl, List.nil_append, List.length_nil, Nat.add_zero, max_eq_left (Nat.zero_le _)]
    | cons c a =>
      cases b with
      | nil => simp
      | cons d b =>
        simp only [List.cons_ne_nil, if_false, List.append_eq_nil_iff, and_false, List.length_append]
        omega

theorem length_write_le {img : Image} {pos n : Nat} {data : List (BitVec 8)} (h : data.length ≤ n) :
    (img.write pos data).length ≤ max img.length (pos + n) := by
  change max img.length _ ≤ _
  split
  · exact max_le_max le_rfl (Nat.zero_le _)
  · exact max_le_max le_rfl (Nat.add_le_add_left h pos)

/-- What is not written over stays. -/
theorem slice_write_apart {img : Image} {pos pos' n : Nat} {data : List (BitVec 8)}
    (h : pos + data.length ≤ pos' ∨ pos' + n ≤ pos) :
    (img.write pos data).slice pos' n = img.slice pos' n := by
  apply List.ext_getElem
  · simp
  · intro i hi _
    rw [length_slice] at hi
    rw [getElem_slice, getElem_slice, bytes_write, dif_neg]
    omega

theorem slice_write_front {img : Image} {pos n : Nat} {data : List (BitVec 8)}
    (h : data.length ≤ n) :
    (img.write pos data).slice pos n = data ++ (img.slice pos n).drop data.length := by
  apply List.ext_getElem
  · simp [h]
  · intro i hi _
    rw [length_slice] at hi
    rw [getElem_slice, bytes_write]
    by_cases hFront : i < data.length
    · have hIn : pos ≤ pos + i ∧ pos + i - pos < data.length := by omega
      rw [dif_pos hIn, List.getElem_append_left hFront]
      simp only [Nat.add_sub_cancel_left]
    · rw [dif_neg (by omega), List.getElem_append_right (by omega), List.getElem_drop, getElem_slice]
      congr 1
      omega

end Image

/-- However the host splits it, a read that succeeds gives what is in the file, with zeros behind
its end, and what a read that fails has given is the front of it. -/
theorem doreadLoop_spec (img : Image) (answers : List HostAnswer) (pos need : Nat) :
    (doreadLoop img answers pos need).1 <+: img.slice pos need ∧
      ((doreadLoop img answers pos need).2 = some true →
        (doreadLoop img answers pos need).1 = img.slice pos need) := by
  induction answers generalizing pos need with
  | nil =>
    cases need with
    | zero => exact ⟨List.prefix_rfl, fun _ => rfl⟩
    | succ need => exact ⟨List.nil_prefix, fun h => by cases h⟩
  | cons answer answers ih =>
    cases need with
    | zero => exact ⟨List.prefix_rfl, fun _ => rfl⟩
    | succ need =>
      cases answer with
      | again => exact ih pos (need + 1)
      | failed => exact ⟨List.nil_prefix, fun h => by cases h⟩
      | moved n =>
        rw [doreadLoop]
        dsimp only
        generalize hr : min (min (need + 1) (n + 1)) (img.length - pos) = r
        split
        · next hEnd =>
          have hZeros : img.slice pos (need + 1) = List.replicate (need + 1) 0 :=
            Image.slice_behind (by omega) _
          rw [hZeros]
          exact ⟨List.prefix_rfl, fun _ => rfl⟩
        · obtain ⟨hPrefix, hAll⟩ := ih (pos + r) (need + 1 - r)
          have hSplit : img.slice pos r ++ img.slice (pos + r) (need + 1 - r) =
              img.slice pos (need + 1) := by
            rw [Image.slice_append]
            congr 1
            omega
          rw [← hSplit]
          exact ⟨(List.prefix_append_right_inj _).mpr hPrefix, fun h => by rw [hAll h]⟩

/-- What is written is the data, or the front of it where a write fails. -/
theorem dowriteLoop_spec (answers : List HostAnswer) (img : Image) (pos : Nat)
    (data : List (BitVec 8)) :
    ∃ k ≤ data.length, (dowriteLoop answers img pos data).1 = img.write pos (data.take k) ∧
      ((dowriteLoop answers img pos data).2 = some true → k = data.length) := by
  induction answers generalizing img pos data with
  | nil =>
    cases data with
    | nil => exact ⟨0, le_rfl, (img.write_nil pos).symm, fun _ => rfl⟩
    | cons c data => exact ⟨0, Nat.zero_le _, (img.write_nil pos).symm, fun h => by cases h⟩
  | cons answer answers ih =>
    cases data with
    | nil => exact ⟨0, le_rfl, (img.write_nil pos).symm, fun _ => rfl⟩
    | cons c data =>
      cases answer with
      | again => exact ih img pos (c :: data)
      | failed => exact ⟨0, Nat.zero_le _, (img.write_nil pos).symm, fun h => by cases h⟩
      | moved n =>
        rw [dowriteLoop]
        split
        · exact ⟨0, Nat.zero_le _, (img.write_nil pos).symm, fun h => by cases h⟩
        · obtain ⟨k, hk, hImage, hAll⟩ := ih (img.write pos ((c :: data).take n))
            (pos + min n (data.length + 1)) ((c :: data).drop n)
          rw [List.length_drop, List.length_cons] at hk hAll
          have hTaken : ((c :: data).take n).length = min n (data.length + 1) := by
            rw [List.length_take, List.length_cons]
          have hJoined : (c :: data).take n ++ ((c :: data).drop n).take k =
              (c :: data).take (min n (data.length + 1) + k) := by
            rw [← List.take_add]
            rcases Nat.le_total n (data.length + 1) with hn | hn
            · rw [min_eq_left hn]
            · have hNone : k = 0 := by omega
              rw [hNone, Nat.add_zero, Nat.add_zero, min_eq_right hn, List.take_of_length_le hn,
                List.take_of_length_le (List.length_cons ▸ le_rfl)]
          refine ⟨min n (data.length + 1) + k, ?_, ?_, ?_⟩
          · rw [List.length_cons]
            omega
          · rw [hImage, ← hTaken, Image.write_append, hJoined, hTaken]
          · intro hOk
            rw [hAll hOk, List.length_cons]
            omega

/-- A transfer that succeeds reads or writes all of it. -/
theorem doread_spec (img : Image) (s : IoScript) (offset n : Nat) :
    (img.doread s offset n).1 <+: img.slice offset n ∧
      ((img.doread s offset n).2 = some true → (img.doread s offset n).1 = img.slice offset n) := by
  rw [Image.doread]
  split
  · exact doreadLoop_spec img s.answers offset n
  · exact ⟨List.nil_prefix, fun h => by cases h⟩

theorem dowrite_spec (paranoid : Bool) (img : Image) (s : IoScript) (offset : Nat)
    (data : List (BitVec 8)) :
    ∃ k ≤ data.length, (img.dowrite paranoid s offset data).1 = img.write offset (data.take k) ∧
      ((img.dowrite paranoid s offset data).2 = some true → k = data.length) := by
  rw [Image.dowrite]
  split
  · obtain ⟨k, hk, hImage, hAll⟩ := dowriteLoop_spec s.answers img offset data
    dsimp only
    split
    · exact ⟨k, hk, hImage, fun h => by cases h⟩
    · exact ⟨k, hk, hImage, hAll⟩
  · exact ⟨0, Nat.zero_le _, (img.write_nil offset).symm, fun h => by cases h⟩

end Sys161.Bus
