import Sys161.Gdb.Memory
import Sys161.Lib.PageBits
import Sys161.Lib.Scripts

/-!
# A range in pieces

The loops over a range come to a list of accesses, each of which finds the machine
as the one before has left it. The replies are told by what these accesses give.
-/

namespace Sys161.Gdb

open ByteOrder CString Exec Hex Scripts

set_option autoImplicit false

variable {ε σ : Type}

/-- What is accessed at once, by its distance from the start of the range. -/
inductive Piece where
  | byte (k : Nat)
  | word (k : Nat)
deriving DecidableEq

section Pieces

variable (c : Cpudebug ε σ) (vaddr length : Word) (bytes : Nat → BitVec 8)

/-- The digits of a piece in the order of memory, if it can be read. -/
def fetchPiece : Piece → EStateM ε σ (Option Text)
  | .byte k => do
    return (← c.fetchByte (vaddr + BitVec.ofNat 32 k)).map byteText
  | .word k => do
    return (← c.fetchWord (vaddr + BitVec.ofNat 32 k)).map fun word =>
      wordText (Order.big.word (c.order.byte word))

/-- A piece of the data is stored, if it can be. -/
def storePiece : Piece → EStateM ε σ (Option Text)
  | .byte k => do
    return if ← c.storeByte (vaddr + BitVec.ofNat 32 k) (bytes (k % 2 ^ 32)) then some [] else none
  | .word k => do
    return if ← c.storeWord (vaddr + BitVec.ofNat 32 k)
      (c.order.word fun j => bytes (k % 2 ^ 32 + j)) then some [] else none

/-- The bytes before the first whole word. -/
def headBytes : Nat := min length.toNat ((4 - vaddr.toNat % 4) % 4)

/-- How many words are read. There is nothing where the index starts over at the end of the address
space, and goes on for ever. -/
def readCount : Option Nat :=
  if headBytes vaddr length + 0xfffffffc < length.toNat then none
  else some ((length.toNat - headBytes vaddr length + 3) / 4)

/-- How many words are written. -/
def writeCount : Option Nat :=
  if headBytes vaddr length + 0xfffffffc ≤ length.toNat then none
  else some ((length.toNat - headBytes vaddr length) / 4)

def byteRun (start n : Nat) : List Piece := (List.range' start n).map .byte

def wordRun (start n : Nat) : List Piece := (List.range' start n 4).map .word

/-- The last word is read whole, even where the range ends inside it. -/
def readPieces (n : Nat) : List Piece :=
  byteRun 0 (headBytes vaddr length) ++ wordRun (headBytes vaddr length) n

def writePieces (n : Nat) : List Piece :=
  byteRun 0 (headBytes vaddr length) ++ wordRun (headBytes vaddr length) n ++
    byteRun (headBytes vaddr length + 4 * n) ((length.toNat - headBytes vaddr length) % 4)

/-- These are the words, or it has been refused before there is an end to them. -/
def Ended (count : Option Nat) (n : Nat) (out : Option Text) : Prop :=
  count = some n ∨ count = none ∧ out = none

/-- The answer to a range that is read: its digits, as far as the buffer holds them. -/
def readReply : Option Text → Text
  | none => replyE03
  | some digits => digits.take (buflen - 1)

def writeReply : Option Text → Text
  | none => replyE03
  | some _ => replyOk

/-- The machine goes from one state to the other as the range is read, and this is the answer. -/
def ReadsRange (s : σ) (reply : Text) (t : σ) : Prop :=
  ∃ n out, Ended (readCount vaddr length) n out ∧
    InTurn (fetchPiece c vaddr) (readPieces vaddr length n) s out t ∧ reply = readReply out

def WritesRange (s : σ) (reply : Text) (t : σ) : Prop :=
  ∃ n out, Ended (writeCount vaddr length) n out ∧
    InTurn (storePiece c vaddr bytes) (writePieces vaddr length n) s out t ∧ reply = writeReply out

end Pieces

/-! ## The loops over words -/

/-- So many words are left, if there is an end to them. -/
def WordsLeft (goesOn : Nat → Prop) (start : Nat) : Option Nat → Prop
  | none => ∀ j, goesOn (start + 4 * j)
  | some n => (∀ j < n, goesOn (start + 4 * j)) ∧ ¬ goesOn (start + 4 * n)

section Words

variable {goesOn : Nat → Prop} {start : Nat} {left : Option Nat}

theorem WordsLeft.goes (h : WordsLeft goesOn start left) (hLeft : left ≠ some 0) :
    goesOn start ∧ WordsLeft goesOn (start + 4) (left.map Nat.pred) := by
  have hNext (j : Nat) : start + 4 + 4 * j = start + 4 * (j + 1) := by omega
  match left with
  | none => exact ⟨h 0, fun j => (hNext j).symm ▸ h (j + 1)⟩
  | some 0 => exact absurd rfl hLeft
  | some (n + 1) =>
    refine ⟨h.1 0 (Nat.succ_pos n), fun j hj => ?_, ?_⟩
    · exact (hNext j).symm ▸ h.1 (j + 1) (Nat.succ_lt_succ hj)
    · exact (hNext n).symm ▸ h.2

theorem WordsLeft.stops (h : WordsLeft goesOn start (some 0)) : ¬ goesOn start := h.2

theorem count_succ {n : Nat} (hLeft : left ≠ some 0) (h : left.map Nat.pred = some n) :
    left = some (n + 1) := by
  match left with
  | none => cases h
  | some 0 => exact absurd rfl hLeft
  | some (m + 1) => exact congrArg (fun n => some (n + 1)) (Option.some.inj h)

theorem ended_succ {n : Nat} {out : Option Text} (hLeft : left ≠ some 0)
    (h : Ended (left.map Nat.pred) n out) : Ended left (n + 1) out := by
  rcases h with hSome | ⟨hNone, hOut⟩
  · exact .inl (count_succ hLeft hSome)
  · exact .inr ⟨Option.map_eq_none_iff.mp hNone, hOut⟩

theorem exists_ended (hLeft : left ≠ some 0) : ∃ n, Ended left (n + 1) none := by
  match left with
  | none => exact ⟨0, .inr ⟨rfl, rfl⟩⟩
  | some 0 => exact absurd rfl hLeft
  | some (n + 1) => exact ⟨n, .inl rfl⟩

theorem turns_le_succ {turns : Nat} (hLeft : left ≠ some 0)
    (h : ∀ n, left.map Nat.pred = some n → turns ≤ n) : ∀ n, left = some n → turns + 1 ≤ n := by
  rintro n rfl
  match n with
  | 0 => exact absurd rfl hLeft
  | n + 1 => exact Nat.succ_le_succ (h n rfl)

theorem wordRun_succ (start n : Nat) : wordRun start (n + 1) = .word start :: wordRun (start + 4) n := by
  rw [wordRun, List.range'_succ, List.map_cons]
  rfl

theorem byteRun_succ (start n : Nat) : byteRun start (n + 1) = .byte start :: byteRun (start + 1) n := by
  rw [byteRun, List.range'_succ, List.map_cons]
  rfl

theorem ofNat_add_four (start : Nat) : BitVec.ofNat 32 start + 4 = BitVec.ofNat 32 (start + 4) := by
  rw [BitVec.ofNat_add]
  rfl

theorem ofNat_add_one (start : Nat) : BitVec.ofNat 32 start + 1 = BitVec.ofNat 32 (start + 1) := by
  rw [BitVec.ofNat_add]
  rfl

/-- A buffer that is cut off at every turn is cut off once. -/
theorem take_take_append {α : Type} (n : Nat) (l r : List α) :
    (l.take n ++ r).take n = (l ++ r).take n := by
  rw [List.take_append, List.take_append, List.take_take, List.length_take, Nat.min_self]
  congr 2
  omega

variable {c : Cpudebug ε σ} {host : Order} {vaddr length : Word} {bytes : Nat → BitVec 8}

theorem after_fetchWords (hLeft : WordsLeft (fun k => BitVec.ofNat 32 k < length) start left)
    (turns : Nat) {buf : Text} (hBuf : buf.length ≤ buflen - 1) (s : σ) :
    After (fetchWords c host vaddr length turns (BitVec.ofNat 32 start) buf)
      (fun r t => match r with
        | .running => ∀ n, left = some n → turns ≤ n
        | .refused => ∃ n, Ended left n none ∧ InTurn (fetchPiece c vaddr) (wordRun start n) s none t
        | .done buf' => ∃ n digits, left = some n ∧
          InTurn (fetchPiece c vaddr) (wordRun start n) s (some digits) t ∧
            buf' = (buf ++ digits).take (buflen - 1)) (fun _ _ => True) s := by
  induction turns generalizing start left buf s with
  | zero => exact fun n _ => Nat.zero_le n
  | succ turns ih =>
    rw [fetchWords, after_ite]
    by_cases hZero : left = some 0
    · subst hZero
      rw [if_neg hLeft.stops]
      refine ⟨0, [], rfl, .nil s, ?_⟩
      rw [List.append_nil, List.take_of_length_le hBuf]
    · obtain ⟨hGoes, hNext⟩ := hLeft.goes hZero
      rw [if_pos hGoes, after_bind]
      refine (after_run (after_of_forall (fun _ _ => trivial) fun _ _ => trivial)).mono ?_
        fun _ _ _ => trivial
      rintro word t ⟨-, hRun⟩
      have hPiece : (fetchPiece c vaddr (.word start)).run s =
          .ok (word.map fun word => wordText (Order.big.word (c.order.byte word))) t := by
        rw [fetchPiece, EStateM.run_bind, hRun]
        rfl
      cases word with
      | none =>
        obtain ⟨n, hEnded⟩ := exists_ended hZero
        refine ⟨n + 1, hEnded, ?_⟩
        rw [wordRun_succ]
        exact .refused hPiece
      | some word =>
        dsimp only
        rw [ofNat_add_four, ntohl_htoc32, printword]
        have hCut : ((buf ++ wordText (Order.big.word (c.order.byte word))).take
            (buflen - 1)).length ≤ buflen - 1 := List.length_take_le ..
        refine (ih hNext hCut t).mono ?_ fun _ _ _ => trivial
        rintro (_ | _ | buf') u hEnd
        · exact turns_le_succ hZero hEnd
        · obtain ⟨n, hEnded, hTurn⟩ := hEnd
          refine ⟨n + 1, ended_succ hZero hEnded, ?_⟩
          rw [wordRun_succ]
          exact .cons hPiece hTurn
        · obtain ⟨n, digits, hCount, hTurn, rfl⟩ := hEnd
          have hAll := InTurn.cons hPiece hTurn
          rw [← wordRun_succ] at hAll
          refine ⟨n + 1, _, count_succ hZero hCount, hAll, ?_⟩
          rw [take_take_append, List.append_assoc]

theorem after_storeWords (hLeft : WordsLeft (fun k => BitVec.ofNat 32 k + 4 ≤ length) start left)
    (turns : Nat) (s : σ) :
    After (storeWords c host vaddr length bytes turns (BitVec.ofNat 32 start))
      (fun r t => match r with
        | .running => ∀ n, left = some n → turns ≤ n
        | .refused => ∃ n, Ended left n none ∧
          InTurn (storePiece c vaddr bytes) (wordRun start n) s none t
        | .done i => ∃ n, left = some n ∧ i = BitVec.ofNat 32 (start + 4 * n) ∧
          InTurn (storePiece c vaddr bytes) (wordRun start n) s (some []) t)
      (fun _ _ => True) s := by
  induction turns generalizing start left s with
  | zero => exact fun n _ => Nat.zero_le n
  | succ turns ih =>
    rw [storeWords, after_ite]
    by_cases hZero : left = some 0
    · subst hZero
      rw [if_neg hLeft.stops]
      exact ⟨0, rfl, rfl, .nil s⟩
    · obtain ⟨hGoes, hNext⟩ := hLeft.goes hZero
      rw [if_pos hGoes]
      dsimp only
      rw [ctoh32_word, BitVec.toNat_ofNat, after_bind]
      refine (after_run (after_of_forall (fun _ _ => trivial) fun _ _ => trivial)).mono ?_
        fun _ _ _ => trivial
      rintro stored t ⟨-, hRun⟩
      have hPiece : (storePiece c vaddr bytes (.word start)).run s =
          .ok (if stored then some [] else none) t := by
        rw [storePiece, EStateM.run_bind, hRun]
        rfl
      cases stored with
      | false =>
        obtain ⟨n, hEnded⟩ := exists_ended hZero
        refine ⟨n + 1, hEnded, ?_⟩
        rw [wordRun_succ]
        exact .refused hPiece
      | true =>
        rw [if_pos rfl, ofNat_add_four]
        refine (ih hNext t).mono ?_ fun _ _ _ => trivial
        rintro (_ | _ | i) u hEnd
        · exact turns_le_succ hZero hEnd
        · obtain ⟨n, hEnded, hTurn⟩ := hEnd
          refine ⟨n + 1, ended_succ hZero hEnded, ?_⟩
          rw [wordRun_succ]
          exact .cons hPiece hTurn
        · obtain ⟨n, hCount, rfl, hTurn⟩ := hEnd
          have hAll := InTurn.cons hPiece hTurn
          rw [← wordRun_succ] at hAll
          refine ⟨n + 1, count_succ hZero hCount, ?_, hAll⟩
          rw [Nat.mul_succ, Nat.add_assoc, Nat.add_comm 4]

end Words

/-! ## The loops over bytes -/

section Bytes

variable {c : Cpudebug ε σ} {vaddr length : Word} {bytes : Nat → BitVec 8}

theorem headBytes_le (vaddr length : Word) :
    headBytes vaddr length ≤ length.toNat ∧ headBytes vaddr length ≤ 3 := by
  rw [headBytes]
  omega

theorem headBytes_iff {k : Nat} (hk : k ≤ headBytes vaddr length) :
    (BitVec.ofNat 32 k < length ∧ (vaddr + BitVec.ofNat 32 k) &&& 0x3 ≠ 0) ↔
      k < headBytes vaddr length := by
  have hLe := headBytes_le vaddr length
  have hNat : (vaddr + BitVec.ofNat 32 k) &&& 0x3 ≠ 0 ↔ (vaddr.toNat + k) % 4 ≠ 0 := by
    rw [Ne, ← BitVec.toNat_inj, PageBits.toNat_align, BitVec.toNat_add, BitVec.toNat_ofNat]
    change ¬ _ = 0 ↔ _
    omega
  rw [hNat, BitVec.lt_def, BitVec.toNat_ofNat]
  rw [headBytes] at hk hLe ⊢
  omega

theorem exists_nothing {buf : Text} (hBuf : buf.length ≤ buflen - 1) (start : Nat) (s : σ) :
    ∃ digits, InTurn (fetchPiece c vaddr) (byteRun start (start - start)) s (some digits) s ∧
      buf = (buf ++ digits).take (buflen - 1) := by
  rw [Nat.sub_self]
  exact ⟨[], .nil s, by rw [List.append_nil, List.take_of_length_le hBuf]⟩

theorem after_fetchBytes {n start : Nat} (hStart : start ≤ headBytes vaddr length)
    (hRoom : headBytes vaddr length ≤ start + n) {buf : Text} (hBuf : buf.length ≤ buflen - 1)
    (s : σ) :
    After (fetchBytes c vaddr length n (BitVec.ofNat 32 start) buf)
      (fun r t => match r with
        | .running => False
        | .refused => InTurn (fetchPiece c vaddr)
          (byteRun start (headBytes vaddr length - start)) s none t
        | .done (i, buf') => i = BitVec.ofNat 32 (headBytes vaddr length) ∧ ∃ digits,
          InTurn (fetchPiece c vaddr) (byteRun start (headBytes vaddr length - start)) s
            (some digits) t ∧ buf' = (buf ++ digits).take (buflen - 1)) (fun _ _ => True) s := by
  induction n generalizing start buf s with
  | zero =>
    have hAll : headBytes vaddr length = start := by omega
    rw [hAll]
    exact ⟨rfl, exists_nothing hBuf start s⟩
  | succ n ih =>
    rw [fetchBytes, after_ite]
    by_cases hGoes : start < headBytes vaddr length
    · have hLeft : headBytes vaddr length - start = (headBytes vaddr length - (start + 1)) + 1 := by
        omega
      rw [if_pos ((headBytes_iff hStart).mpr hGoes), hLeft, byteRun_succ, after_bind]
      refine (after_run (after_of_forall (fun _ _ => trivial) fun _ _ => trivial)).mono ?_
        fun _ _ _ => trivial
      rintro byte t ⟨-, hRun⟩
      have hPiece : (fetchPiece c vaddr (.byte start)).run s = .ok (byte.map byteText) t := by
        rw [fetchPiece, EStateM.run_bind, hRun]
        rfl
      cases byte with
      | none => exact .refused hPiece
      | some byte =>
        dsimp only
        rw [printbyte, ofNat_add_one]
        have hCut : ((buf ++ byteText byte).take (buflen - 1)).length ≤ buflen - 1 :=
          List.length_take_le ..
        refine (ih hGoes (by omega) hCut t).mono ?_ fun _ _ _ => trivial
        rintro (_ | _ | ⟨i, buf'⟩) u hEnd
        · exact hEnd
        · exact .cons hPiece hEnd
        · obtain ⟨hIndex, digits, hTurn, rfl⟩ := hEnd
          refine ⟨hIndex, _, .cons hPiece hTurn, ?_⟩
          rw [take_take_append, List.append_assoc]
    · have hAll : headBytes vaddr length = start := by omega
      rw [if_neg fun h => hGoes ((headBytes_iff hStart).mp h), hAll]
      exact ⟨rfl, exists_nothing hBuf start s⟩

theorem after_storeBytes {goesOn : Word → Bool} {n start : Nat} (stop : Nat) (hStart : start ≤ stop)
    (hRoom : stop ≤ start + n)
    (hGoes : ∀ k, start ≤ k → k ≤ stop → (goesOn (BitVec.ofNat 32 k) = true ↔ k < stop)) (s : σ) :
    After (storeBytes c vaddr bytes goesOn n (BitVec.ofNat 32 start))
      (fun r t => match r with
        | .running => False
        | .refused => InTurn (storePiece c vaddr bytes) (byteRun start (stop - start)) s none t
        | .done i => i = BitVec.ofNat 32 stop ∧
          InTurn (storePiece c vaddr bytes) (byteRun start (stop - start)) s (some []) t)
      (fun _ _ => True) s := by
  induction n generalizing start s with
  | zero =>
    obtain rfl : stop = start := by omega
    rw [Nat.sub_self]
    exact ⟨rfl, .nil s⟩
  | succ n ih =>
    rw [storeBytes, after_ite]
    by_cases hMore : start < stop
    · have hLeft : stop - start = (stop - (start + 1)) + 1 := by omega
      rw [if_pos ((hGoes start le_rfl hStart).mpr hMore), hLeft, byteRun_succ, BitVec.toNat_ofNat,
        after_bind]
      refine (after_run (after_of_forall (fun _ _ => trivial) fun _ _ => trivial)).mono ?_
        fun _ _ _ => trivial
      rintro stored t ⟨-, hRun⟩
      have hPiece : (storePiece c vaddr bytes (.byte start)).run s =
          .ok (if stored then some [] else none) t := by
        rw [storePiece, EStateM.run_bind, hRun]
        rfl
      cases stored with
      | false => exact .refused hPiece
      | true =>
        rw [if_pos rfl, ofNat_add_one]
        refine (ih hMore (by omega) (fun k hk hStop => hGoes k (by omega) hStop) t).mono ?_
          fun _ _ _ => trivial
        rintro (_ | _ | i) u hEnd
        · exact hEnd
        · exact .cons hPiece hEnd
        · exact ⟨hEnd.1, .cons hPiece hEnd.2⟩
    · obtain rfl : stop = start := by omega
      rw [if_neg fun h => hMore ((hGoes stop le_rfl le_rfl).mp h), Nat.sub_self]
      exact ⟨rfl, .nil s⟩

end Bytes

/-! ## The range -/

section Ranges

variable {c : Cpudebug ε σ} {host : Order} {vaddr length : Word} {bytes : Nat → BitVec 8}

theorem readLeft (vaddr length : Word) :
    WordsLeft (fun k => BitVec.ofNat 32 k < length) (headBytes vaddr length)
      (readCount vaddr length) := by
  have hLe := headBytes_le vaddr length
  have hLt := length.isLt
  have hGoes (k : Nat) : BitVec.ofNat 32 k < length ↔ k % 2 ^ 32 < length.toNat := by
    rw [BitVec.lt_def, BitVec.toNat_ofNat]
  rw [readCount]
  split
  · intro j
    rw [hGoes]
    omega
  · constructor
    · intro j hj
      rw [hGoes]
      omega
    · intro h
      have hNat := (hGoes _).mp h
      omega

theorem writeLeft (vaddr length : Word) :
    WordsLeft (fun k => BitVec.ofNat 32 k + 4 ≤ length) (headBytes vaddr length)
      (writeCount vaddr length) := by
  have hLe := headBytes_le vaddr length
  have hLt := length.isLt
  have hGoes (k : Nat) : BitVec.ofNat 32 k + 4 ≤ length ↔ (k + 4) % 2 ^ 32 ≤ length.toNat := by
    rw [ofNat_add_four, BitVec.le_def, BitVec.toNat_ofNat]
  rw [writeCount]
  split
  · intro j
    rw [hGoes]
    omega
  · constructor
    · intro j hj
      rw [hGoes]
      omega
    · intro h
      have hNat := (hGoes _).mp h
      omega

/-- What is left behind the last whole word. -/
theorem writeCount_tail {n : Nat} (h : writeCount vaddr length = some n) :
    headBytes vaddr length + 4 * n ≤ length.toNat ∧
      length.toNat - (headBytes vaddr length + 4 * n) =
        (length.toNat - headBytes vaddr length) % 4 := by
  have hLe := headBytes_le vaddr length
  rw [writeCount] at h
  split at h
  · cases h
  · rw [← Option.some.inj h]
    omega

theorem exists_count (count : Option Nat) : ∃ n, Ended count n none := by
  cases count with
  | none => exact ⟨0, .inr ⟨rfl, rfl⟩⟩
  | some n => exact ⟨n, .inl rfl⟩

/-- With more turns than there are words, there is an answer. -/
theorem after_readRange (turns : Nat) (s : σ) :
    After (readRange c host vaddr length turns)
      (fun r t => match r with
        | none => ∀ n, readCount vaddr length = some n → turns ≤ n
        | some reply => ReadsRange c vaddr length s reply t) (fun _ _ => True) s := by
  have hHead := headBytes_le vaddr length
  rw [readRange, after_bind]
  refine (after_fetchBytes (Nat.zero_le _) (by omega) (Nat.zero_le _) s).mono ?_ fun _ _ _ => trivial
  rintro (_ | _ | ⟨i, buf⟩) t hBytes
  · exact hBytes.elim
  · obtain ⟨n, hEnded⟩ := exists_count (readCount vaddr length)
    exact ⟨n, none, hEnded, hBytes.append_none _, rfl⟩
  · obtain ⟨rfl, head, hTurn, rfl⟩ := hBytes
    rw [after_bind]
    refine (after_fetchWords (readLeft vaddr length) turns (List.length_take_le ..) t).mono ?_
      fun _ _ _ => trivial
    rintro (_ | _ | buf) u hWords
    · exact hWords
    · obtain ⟨n, hEnded, hRest⟩ := hWords
      exact ⟨n, none, hEnded, hTurn.append hRest, rfl⟩
    · obtain ⟨n, digits, hCount, hRest, rfl⟩ := hWords
      refine ⟨n, some (head ++ digits), .inl hCount, hTurn.append hRest, ?_⟩
      rw [List.nil_append, take_take_append]
      rfl

theorem after_writeRange (turns : Nat) (s : σ) :
    After (writeRange c host vaddr length bytes turns)
      (fun r t => match r with
        | none => ∀ n, writeCount vaddr length = some n → turns ≤ n
        | some reply => WritesRange c vaddr length bytes s reply t) (fun _ _ => True) s := by
  have hHead := headBytes_le vaddr length
  rw [writeRange, after_bind]
  have hFirst (k : Nat) (hk : k ≤ headBytes vaddr length) :
      decide (BitVec.ofNat 32 k < length ∧ (vaddr + BitVec.ofNat 32 k) &&& 0x3 ≠ 0) = true ↔
        k < headBytes vaddr length := by
    rw [decide_eq_true_iff]
    exact headBytes_iff hk
  refine (after_storeBytes _ (Nat.zero_le _) (by omega) (fun k _ hk => hFirst k hk) s).mono ?_
    fun _ _ _ => trivial
  rintro (_ | _ | i) t hBytes
  · exact hBytes.elim
  · obtain ⟨n, hEnded⟩ := exists_count (writeCount vaddr length)
    refine ⟨n, none, hEnded, ?_, rfl⟩
    rw [writePieces, List.append_assoc]
    exact hBytes.append_none _
  · obtain ⟨rfl, hTurn⟩ := hBytes
    rw [after_bind]
    refine (after_storeWords (writeLeft vaddr length) turns t).mono ?_ fun _ _ _ => trivial
    rintro (_ | _ | i) u hWords
    · exact hWords
    · obtain ⟨n, hEnded, hRest⟩ := hWords
      exact ⟨n, none, hEnded, (hTurn.append hRest).append_none _, rfl⟩
    · obtain ⟨n, hCount, rfl, hRest⟩ := hWords
      obtain ⟨hStart, hTail⟩ := writeCount_tail hCount
      have hLast (k : Nat) (hk : k ≤ length.toNat) :
          decide (BitVec.ofNat 32 k < length) = true ↔ k < length.toNat := by
        have hLt := length.isLt
        rw [decide_eq_true_iff, BitVec.lt_def, BitVec.toNat_ofNat]
        omega
      change After (storeRest c vaddr length bytes _) _ _ u
      rw [storeRest, after_bind]
      refine (after_storeBytes length.toNat hStart (by omega) (fun k _ hk => hLast k hk) u).mono ?_
        fun _ _ _ => trivial
      rw [hTail]
      rintro (_ | _ | i) v hEnd
      · exact hEnd.elim
      · exact ⟨n, none, .inl hCount, (hTurn.append hRest).append hEnd, rfl⟩
      · exact ⟨n, some [], .inl hCount, (hTurn.append hRest).append hEnd.2, rfl⟩

/-- What the accessors keep is kept. -/
theorem ReadsRange.keeps {s t : σ} {reply : Text} {I : σ → Prop}
    (hByte : ∀ va, Keeps I (fun _ _ => True) (c.fetchByte va))
    (hWord : ∀ va, Keeps I (fun _ _ => True) (c.fetchWord va)) (hs : I s)
    (h : ReadsRange c vaddr length s reply t) : I t := by
  obtain ⟨n, out, -, hTurn, -⟩ := h
  refine hTurn.keeps (fun piece => ?_) hs
  cases piece with
  | byte k => exact Keeps.bind (hByte _) fun _ => Keeps.pure _
  | word k => exact Keeps.bind (hWord _) fun _ => Keeps.pure _

theorem WritesRange.keeps {s t : σ} {reply : Text} {I : σ → Prop}
    (hByte : ∀ va byte, Keeps I (fun _ _ => True) (c.storeByte va byte))
    (hWord : ∀ va word, Keeps I (fun _ _ => True) (c.storeWord va word)) (hs : I s)
    (h : WritesRange c vaddr length bytes s reply t) : I t := by
  obtain ⟨n, out, -, hTurn, -⟩ := h
  refine hTurn.keeps (fun piece => ?_) hs
  cases piece with
  | byte k => exact Keeps.bind (hByte _ _) fun _ => Keeps.pure _
  | word k => exact Keeps.bind (hWord _ _) fun _ => Keeps.pure _

theorem hex_fetchPiece {piece : Piece} {s t : σ} {out : Text}
    (h : (fetchPiece c vaddr piece).run s = .ok (some out) t) : ∀ x ∈ out, IsHex x := by
  cases piece with
  | byte k =>
    rw [fetchPiece, EStateM.run_bind] at h
    split at h
    · next byte u _ =>
      cases byte with
      | none => cases h
      | some byte =>
        cases h
        exact (byteText_hex byte).1
    · cases h
  | word k =>
    rw [fetchPiece, EStateM.run_bind] at h
    split at h
    · next word u _ =>
      cases word with
      | none => cases h
      | some word =>
        cases h
        exact (wordText_hex _).1
    · cases h

/-- The digits that are sent are digits. -/
theorem ReadsRange.digits {s t : σ} {reply : Text} (h : ReadsRange c vaddr length s reply t) :
    reply = replyE03 ∨ reply.length < buflen ∧ ∀ x ∈ reply, IsHex x := by
  obtain ⟨n, out, -, hTurn, rfl⟩ := h
  cases out with
  | none => exact .inl rfl
  | some digits =>
    have hHex := hTurn.forall_mem fun _ _ _ _ hRun => hex_fetchPiece hRun
    refine .inr ⟨?_, fun x hx => hHex x (List.mem_of_mem_take hx)⟩
    have hLe : (digits.take (buflen - 1)).length ≤ buflen - 1 := List.length_take_le ..
    exact Nat.lt_of_le_of_lt hLe (by decide)

theorem WritesRange.reply {s t : σ} {reply : Text}
    (h : WritesRange c vaddr length bytes s reply t) : reply = replyE03 ∨ reply = replyOk := by
  obtain ⟨n, out, -, -, rfl⟩ := h
  cases out with
  | none => exact .inl rfl
  | some _ => exact .inr rfl

end Ranges

end Sys161.Gdb
