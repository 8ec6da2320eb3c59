import Sys161.Gdb.Memory

/-!
# The list of threads for the debugger

The packet `qfThreadInfo` of `gdb_be.c`. A thread is a cpu, and its id is the
number of the cpu plus ten.
-/

namespace Sys161.Gdb

open CString Hex

set_option autoImplicit false

def mkthreadid (cpunum : Word) : Word := cpunum + 10

def getthreadid (s : Text) : Word := (hexbyte s).1.setWidth 32 - 10

/-- `%02x` of a word. -/
def hexText (val : Word) : Text :=
  (wordText val).drop (min 6 ((wordText val).takeWhile (· = ch '0')).length)

/-- The size of the buffer for the list. -/
def listlen : Nat := 128

/-- `printbyte`. There is nothing where its assertion fails. -/
def listByte (buf : Text) (val : Word) : Option Text :=
  if buf.length < listlen then some ((buf ++ hexText val).take (listlen - 1)) else none

/-- `strcat`, which does not know the size. There is nothing where it writes past the end. -/
def listCat (buf s : Text) : Option Text :=
  if (buf ++ s).length < listlen then some (buf ++ s) else none

/-- One turn of the loop over the cpus. -/
def listTurn (enabled : Nat → Bool) (buf : Text) (i : Nat) : Option Text :=
  if enabled i = false then
    some buf
  else
    (if i > 0 then listCat buf [ch ','] else some buf).bind fun buf =>
      listByte buf (mkthreadid (BitVec.ofNat 32 i))

/-- The reply to `qfThreadInfo`. -/
def threadInfo (numcpus : Nat) (enabled : Nat → Bool) : Option Text :=
  (List.range numcpus).foldlM (listTurn enabled) [ch 'm']

/-! ## The reply -/

def enabledCpus (numcpus : Nat) (enabled : Nat → Bool) : List Nat :=
  (List.range numcpus).filter enabled

def threadText (i : Nat) : Text := hexText (mkthreadid (BitVec.ofNat 32 i))

/-- What the loop puts down for a cpu. -/
def listed (i : Nat) : Text := if i > 0 then ch ',' :: threadText i else threadText i

theorem threadText_eq : ∀ i < 32, threadText i = byteText (BitVec.ofNat 8 (i + 10)) := by
  decide +kernel

theorem getthreadid_threadText {i : Nat} (hi : i < 32) (rest : Text) :
    getthreadid (threadText i ++ rest) = BitVec.ofNat 32 i := by
  rw [threadText_eq i hi, getthreadid, hexbyte_text]
  have hByte : (BitVec.ofNat 8 (i + 10)).setWidth 32 = BitVec.ofNat 32 i + 10 := by
    apply BitVec.eq_of_toNat_eq
    rw [BitVec.toNat_setWidth, BitVec.toNat_ofNat, BitVec.toNat_add, BitVec.toNat_ofNat]
    change (i + 10) % 2 ^ 8 % 2 ^ 32 = (i % 2 ^ 32 + 10) % 2 ^ 32
    omega
  dsimp only
  rw [hByte, BitVec.add_sub_cancel]

theorem length_threadText {i : Nat} (hi : i < 32) : (threadText i).length = 2 := by
  rw [threadText_eq i hi]
  rfl

theorem listTurn_enabled {enabled : Nat → Bool} {buf : Text} {i : Nat} (hi : i < 32)
    (hEnabled : enabled i = true) (hRoom : buf.length + 3 < listlen) :
    listTurn enabled buf i = some (buf ++ listed i) := by
  have hByte (buf' : Text) (hRoom' : buf'.length + 2 < listlen) :
      listByte buf' (mkthreadid (BitVec.ofNat 32 i)) = some (buf' ++ threadText i) := by
    have hTwo := length_threadText hi
    rw [listByte, if_pos (by omega)]
    refine congrArg some (List.take_of_length_le ?_)
    rw [List.length_append]
    change buf'.length + (threadText i).length ≤ _
    omega
  rw [listTurn, if_neg (by simp [hEnabled]), listed]
  split
  · rw [listCat, List.length_append, List.length_singleton, if_pos (by omega), Option.bind_some,
      hByte _ (by rw [List.length_append, List.length_singleton]; omega), List.append_assoc]
    rfl
  · rw [Option.bind_some, hByte _ (by omega)]

/-- Every cpu takes three characters at most. -/
theorem threadInfo_eq {numcpus : Nat} (hCpus : numcpus ≤ 32) (enabled : Nat → Bool) :
    threadInfo numcpus enabled =
        some (ch 'm' :: (enabledCpus numcpus enabled).flatMap listed) ∧
      ((enabledCpus numcpus enabled).flatMap listed).length ≤ 3 * numcpus := by
  induction numcpus with
  | zero => exact ⟨rfl, Nat.le_refl 0⟩
  | succ n ih =>
    obtain ⟨hFold, hLength⟩ := ih (by omega)
    rw [threadInfo] at hFold
    rw [threadInfo, enabledCpus, List.range_succ, List.foldlM_append, hFold, List.filter_append,
      List.flatMap_append, List.length_append]
    change (listTurn enabled _ n).bind _ = _ ∧ _
    change (((List.range n).filter enabled).flatMap listed).length ≤ 3 * n at hLength
    cases hEnabled : enabled n with
    | false =>
      rw [List.filter_singleton, hEnabled]
      simp only [listTurn, hEnabled, if_true, Option.bind_some, List.foldlM_nil, cond_false,
        List.flatMap_nil, List.append_nil, List.length_nil]
      exact ⟨rfl, by omega⟩
    | true =>
      have hTwo := length_threadText (i := n) (by omega)
      have hThree : (listed n).length ≤ 3 := by
        rw [listed]
        split
        · rw [List.length_cons]
          omega
        · omega
      rw [List.filter_singleton, hEnabled, listTurn_enabled (by omega) hEnabled]
      · simp only [Option.bind_some, List.foldlM_nil, cond_true, List.flatMap_cons,
          List.flatMap_nil, List.append_nil]
        exact ⟨rfl, by omega⟩
      · rw [List.length_cons]
        change _ + 1 + 3 < 128
        rw [enabledCpus]
        omega

/-! ## Separators -/

theorem intercalate_cons {α : Type} (c : α) (x : List α) (xs : List (List α)) :
    [c].intercalate (x :: xs) = x ++ xs.flatMap (c :: ·) := by
  induction xs generalizing x with
  | nil => simp [List.intercalate]
  | cons y ys ih =>
    have hNext := ih y
    simp only [List.intercalate, List.intersperse_cons_cons, List.flatten_cons] at hNext ⊢
    rw [hNext, List.flatMap_cons]
    rfl

/-- The reply is the ids of the enabled cpus in order with commas between them, each of them is
read as its cpu again, and all of it fits. -/
def ThreadList (numcpus : Nat) (enabled : Nat → Bool) : Prop :=
  (∃ reply, threadInfo numcpus enabled = some reply ∧
    reply = ch 'm' :: [ch ','].intercalate ((enabledCpus numcpus enabled).map threadText) ∧
    reply.length < listlen) ∧
  ∀ i < numcpus, ∀ rest, getthreadid (threadText i ++ rest) = BitVec.ofNat 32 i

theorem flatMap_listed {l : List Nat} (hPos : ∀ i ∈ l, 0 < i) :
    l.flatMap listed = (l.map threadText).flatMap (ch ',' :: ·) := by
  rw [List.flatMap_map]
  apply List.flatMap_congr
  intro i hi
  exact if_pos (hPos i hi)

/-- The list begins with a comma where the first cpu is not the first of the machine. -/
theorem threadList_iff {numcpus : Nat} (hCpus : numcpus ≤ 32) (enabled : Nat → Bool) :
    ThreadList numcpus enabled ↔ enabled 0 = true ∨ ∀ i < numcpus, enabled i = false := by
  obtain ⟨hReply, hLength⟩ := threadInfo_eq hCpus enabled
  have hOthers : ∀ i < numcpus, ∀ rest, getthreadid (threadText i ++ rest) = BitVec.ofNat 32 i :=
    fun i hi rest => getthreadid_threadText (by omega) rest
  have hFits : (ch 'm' :: (enabledCpus numcpus enabled).flatMap listed).length < listlen := by
    rw [List.length_cons]
    change _ + 1 < 128
    omega
  have hList : ThreadList numcpus enabled ↔ (enabledCpus numcpus enabled).flatMap listed =
      [ch ','].intercalate ((enabledCpus numcpus enabled).map threadText) := by
    constructor
    · rintro ⟨⟨reply, hSome, hEq, -⟩, -⟩
      rw [hReply] at hSome
      cases hSome
      exact (List.cons.inj hEq).2
    · intro hEq
      exact ⟨⟨_, hReply, congrArg _ hEq, hFits⟩, hOthers⟩
  rw [hList]
  have hSorted : (enabledCpus numcpus enabled).Pairwise (· < ·) :=
    List.pairwise_lt_range.sublist List.filter_sublist
  have hMem (i : Nat) : i ∈ enabledCpus numcpus enabled ↔ i < numcpus ∧ enabled i = true := by
    rw [enabledCpus, List.mem_filter, List.mem_range]
  generalize enabledCpus numcpus enabled = cpus at hSorted hMem
  cases cpus with
  | nil =>
    refine iff_of_true rfl (.inr ?_)
    intro i hi
    by_contra hOn
    exact absurd ((hMem i).mpr ⟨hi, by simpa using hOn⟩) List.not_mem_nil
  | cons first rest =>
    obtain ⟨hFirst, -⟩ := List.pairwise_cons.mp hSorted
    obtain ⟨hIn, hOn⟩ := (hMem first).mp (List.mem_cons_self ..)
    have hRest := flatMap_listed fun i hi => Nat.zero_lt_of_lt (hFirst i hi)
    rw [List.flatMap_cons, List.map_cons, intercalate_cons, hRest, List.append_left_inj, listed]
    rcases Nat.eq_zero_or_pos first with rfl | hLater
    · exact iff_of_true rfl (.inl hOn)
    · rw [if_pos hLater]
      refine iff_of_false (fun hEq => ?_) ?_
      · have hLengths := congrArg List.length hEq
        rw [List.length_cons] at hLengths
        omega
      · rintro (hZero | hNone)
        · have hMember := (hMem 0).mpr ⟨by omega, hZero⟩
          rcases List.mem_cons.mp hMember with rfl | hBehind
          · exact absurd hLater (Nat.lt_irrefl 0)
          · exact absurd (hFirst 0 hBehind) (Nat.not_lt_zero _)
        · rw [hNone first hIn] at hOn
          cases hOn

/-- The first of two cpus is off. -/
theorem threadInfo_comma :
    threadInfo 2 (· == 1) = some [ch 'm', ch ',', ch '0', ch 'b'] ∧ ¬ ThreadList 2 (· == 1) := by
  have hReply : threadInfo 2 (· == 1) = some [ch 'm', ch ',', ch '0', ch 'b'] := by
    decide +kernel
  refine ⟨hReply, ?_⟩
  rintro ⟨⟨reply, hSome, hEq, -⟩, -⟩
  rw [hReply] at hSome
  cases hSome
  exact absurd hEq (by decide +kernel)

theorem threadList_both : ThreadList 2 fun _ => true :=
  (threadList_iff (by decide) _).mpr (.inl rfl)

end Sys161.Gdb
