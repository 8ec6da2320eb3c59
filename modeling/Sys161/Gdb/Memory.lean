import Sys161.Gdb.Receive
import Sys161.Lib.Exec
import Sys161.Lib.Hex

/-!
# Reading and writing memory for the debugger

The packets `m` and `M` of `gdb_be.c`. A range is gone over in bytes up to the
first whole word, in words, and what is left of a write in bytes again. A core is
given by its accessors and its byte order.
-/

namespace Sys161.Gdb

open ByteOrder CString Exec Hex

set_option autoImplicit false

abbrev Word := BitVec 32

def replyOk : Text := [ch 'O', ch 'K']

def replyE03 : Text := [ch 'E', ch '0', ch '3']

/-- The functions of a core that the packets are answered with. -/
structure Cpudebug (ε σ : Type) where
  order : Order
  fetchByte : Word → EStateM ε σ (Option (BitVec 8))
  fetchWord : Word → EStateM ε σ (Option Word)
  storeByte : Word → BitVec 8 → EStateM ε σ Bool
  storeWord : Word → Word → EStateM ε σ Bool

/-! ## Packets -/

/-- `snprintf` behind what is in the buffer. -/
def printbyte (buf : Text) (val : BitVec 8) : Text := (buf ++ byteText val).take (buflen - 1)

def printword (buf : Text) (val : Word) : Text := (buf ++ wordText val).take (buflen - 1)

/-- The byte that two characters stand for, and what is behind them. -/
def hexbyte (s : Text) : BitVec 8 × Text :=
  let buf := (s.take 2).takeWhile (· ≠ 0)
  ((strtoul 16 buf).value.setWidth 8, s.drop buf.length)

/-- `bytes` of `debug_write_mem`. -/
def databyte : Text → Nat → BitVec 8
  | s, 0 => (hexbyte s).1
  | s, k + 1 => databyte (hexbyte s).2 k

/-- The address and the length of a packet. -/
structure Spec where
  vaddr : Word
  length : Word
  rest : Text

def parseSpec (spec : Text) : Spec :=
  let vaddr := strtoul 16 spec
  let length := strtoul 16 (vaddr.rest.drop 1)
  { vaddr := vaddr.value.setWidth 32, length := length.value.setWidth 32, rest := length.rest }

/-! ## The loops -/

/-- What so many turns of a loop come to. -/
inductive Sweep (α : Type) where
  | running
  | refused
  | done (a : α)

variable {ε σ : Type} (c : Cpudebug ε σ) (host : Order) (vaddr length : Word)

/-- The bytes before the first whole word; there are three at most. -/
def fetchBytes : Nat → Word → Text → EStateM ε σ (Sweep (Word × Text))
  | 0, i, buf => return .done (i, buf)
  | n + 1, i, buf => do
    if i < length ∧ (vaddr + i) &&& 0x3 ≠ 0 then
      match ← c.fetchByte (vaddr + i) with
      | none => return .refused
      | some byte => fetchBytes n (i + 1) (printbyte buf byte)
    else
      return .done (i, buf)

def fetchWords : Nat → Word → Text → EStateM ε σ (Sweep Text)
  | 0, _, _ => return .running
  | n + 1, i, buf => do
    if i < length then
      match ← c.fetchWord (vaddr + i) with
      | none => return .refused
      | some word => fetchWords n (i + 4) (printword buf (ntohl host (htoc32 host c.order word)))
    else
      return .done buf

variable (bytes : Nat → BitVec 8)

/-- The loops over bytes of a write; there are three bytes at most before the first whole word and
after the last one. -/
def storeBytes (goesOn : Word → Bool) : Nat → Word → EStateM ε σ (Sweep Word)
  | 0, i => return .done i
  | n + 1, i => do
    if goesOn i then
      if ← c.storeByte (vaddr + i) (bytes i.toNat) then
        storeBytes goesOn n (i + 1)
      else
        return .refused
    else
      return .done i

def storeWords : Nat → Word → EStateM ε σ (Sweep Word)
  | 0, _ => return .running
  | n + 1, i => do
    if i + 4 ≤ length then
      let word := host.word fun k => bytes (i.toNat + k)
      if ← c.storeWord (vaddr + i) (ctoh32 host c.order word) then
        storeWords n (i + 4)
      else
        return .refused
    else
      return .done i

/-- The reply with a range, if so many words are enough to come to it. -/
def readRange (turns : Nat) : EStateM ε σ (Option Text) := do
  match ← fetchBytes c vaddr length 3 0 [] with
  | .done (i, buf) =>
    match ← fetchWords c host vaddr length turns i buf with
    | .running => return none
    | .refused => return some replyE03
    | .done buf => return some buf
  | _ => return some replyE03

def storeRest (i : Word) : EStateM ε σ (Option Text) := do
  match ← storeBytes c vaddr bytes (fun i => i < length) 3 i with
  | .done _ => return some replyOk
  | _ => return some replyE03

/-- The reply to a range that has been written, if so many words are enough to come to it. -/
def writeRange (turns : Nat) : EStateM ε σ (Option Text) := do
  match ← storeBytes c vaddr bytes (fun i => i < length ∧ (vaddr + i) &&& 0x3 ≠ 0) 3 0 with
  | .done i =>
    match ← storeWords c host vaddr length bytes turns i with
    | .running => return none
    | .refused => return some replyE03
    | .done i => storeRest c vaddr length bytes i
  | _ => return some replyE03

/-- The answer to `m`. -/
def debugReadMem (turns : Nat) (spec : Text) : EStateM ε σ (Option Text) :=
  let s := parseSpec spec
  readRange c host s.vaddr s.length turns

/-- The answer to `M`. -/
def debugWriteMem (turns : Nat) (spec : Text) : EStateM ε σ (Option Text) :=
  let s := parseSpec spec
  writeRange c host s.vaddr s.length (databyte (s.rest.drop 1)) turns

/-! ## One turn -/

section Turn

variable {c host vaddr length bytes} {s t : σ} {i : Word}

theorem storeBytes_stop {goesOn : Word → Bool} (h : goesOn i = false) (n : Nat) :
    (storeBytes c vaddr bytes goesOn n i).run s = .ok (.done i) s := by
  cases n with
  | zero => rfl
  | succ n =>
    rw [storeBytes, if_neg (by simp [h])]
    rfl

theorem storeBytes_stored {goesOn : Word → Bool} (h : goesOn i = true)
    (hStore : (c.storeByte (vaddr + i) (bytes i.toNat)).run s = .ok true t) (n : Nat) :
    (storeBytes c vaddr bytes goesOn (n + 1) i).run s =
      (storeBytes c vaddr bytes goesOn n (i + 1)).run t := by
  rw [storeBytes, if_pos h, EStateM.run_bind, hStore]
  rfl

theorem storeBytes_refused {goesOn : Word → Bool} (h : goesOn i = true)
    (hStore : (c.storeByte (vaddr + i) (bytes i.toNat)).run s = .ok false t) (n : Nat) :
    (storeBytes c vaddr bytes goesOn (n + 1) i).run s = .ok .refused t := by
  rw [storeBytes, if_pos h, EStateM.run_bind, hStore]
  rfl

theorem storeWords_stop (h : ¬i + 4 ≤ length) (n : Nat) :
    (storeWords c host vaddr length bytes (n + 1) i).run s = .ok (.done i) s := by
  rw [storeWords, if_neg h]
  rfl

theorem storeWords_stored (h : i + 4 ≤ length)
    (hStore : (c.storeWord (vaddr + i) (c.order.word fun k => bytes (i.toNat + k))).run s =
      .ok true t) (n : Nat) :
    (storeWords c host vaddr length bytes (n + 1) i).run s =
      (storeWords c host vaddr length bytes n (i + 4)).run t := by
  rw [storeWords, if_pos h]
  dsimp only
  rw [ctoh32_word, EStateM.run_bind, hStore]
  rfl

theorem storeWords_refused (h : i + 4 ≤ length)
    (hStore : (c.storeWord (vaddr + i) (c.order.word fun k => bytes (i.toNat + k))).run s =
      .ok false t) (n : Nat) :
    (storeWords c host vaddr length bytes (n + 1) i).run s = .ok .refused t := by
  rw [storeWords, if_pos h]
  dsimp only
  rw [ctoh32_word, EStateM.run_bind, hStore]
  rfl

theorem fetchBytes_stop (h : ¬(i < length ∧ (vaddr + i) &&& 0x3 ≠ 0)) (n : Nat) (buf : Text) :
    (fetchBytes c vaddr length n i buf).run s = .ok (.done (i, buf)) s := by
  cases n with
  | zero => rfl
  | succ n =>
    rw [fetchBytes, if_neg h]
    rfl

theorem fetchWords_stop (h : ¬i < length) (n : Nat) (buf : Text) :
    (fetchWords c host vaddr length (n + 1) i buf).run s = .ok (.done buf) s := by
  rw [fetchWords, if_neg h]
  rfl

/-- A word is printed as its bytes stand in memory. -/
theorem fetchWords_fetched (h : i < length) {word : Word}
    (hFetch : (c.fetchWord (vaddr + i)).run s = .ok (some word) t) (n : Nat) (buf : Text) :
    (fetchWords c host vaddr length (n + 1) i buf).run s =
      (fetchWords c host vaddr length n (i + 4)
        (printword buf (Order.big.word (c.order.byte word)))).run t := by
  rw [fetchWords, if_pos h, EStateM.run_bind, hFetch]
  dsimp only
  rw [ntohl_htoc32]

end Turn

/-! ## Texts -/

/-- A text of digits for a number. -/
structure Number (s : Text) (n : Word) : Prop where
  hex : ∀ c ∈ s, IsHex c
  ne : s ≠ []
  value : hexValue s = n.toNat

theorem Number.strtoul {s rest : Text} {n : Word} (h : Number s n)
    (hRest : ∀ c ∈ rest.head?, digit c = none) :
    ((CString.strtoul 16 (s ++ rest)).value.setWidth 32 : Word) = n ∧
      (CString.strtoul 16 (s ++ rest)).rest = rest := by
  have hLt : hexValue s < 2 ^ 64 := by
    rw [h.value]
    omega
  rw [strtoul_hex h.hex h.ne hRest hLt, h.value]
  refine ⟨?_, rfl⟩
  apply BitVec.eq_of_toNat_eq
  simp

/-- The address and the length of a packet are read as they are written. -/
theorem parseSpec_numbers {addr len rest : Text} {vaddr length : Word} (hAddr : Number addr vaddr)
    (hLen : Number len length) (hRest : ∀ c ∈ rest.head?, digit c = none) :
    parseSpec (addr ++ ch ',' :: (len ++ rest)) = ⟨vaddr, length, rest⟩ := by
  have hComma : ∀ c ∈ (ch ',' :: (len ++ rest)).head?, digit c = none := by
    intro c hc
    cases hc
    decide
  obtain ⟨hVaddr, hBehind⟩ := hAddr.strtoul hComma
  obtain ⟨hLength, hLast⟩ := hLen.strtoul hRest
  unfold parseSpec
  dsimp only
  rw [hVaddr, hBehind, List.drop_succ_cons, List.drop_zero, hLength, hLast]

theorem number_wordText (w : Word) : Number (wordText w) w where
  hex := (wordText_hex w).1
  ne := by simp [wordText]
  value := (wordText_hex w).2

theorem colon_head (data : Text) : ∀ c ∈ (ch ':' :: data).head?, digit c = none := by
  intro c hc
  cases hc
  decide

theorem zero_head (rest : Text) : ∀ c ∈ ((0 : BitVec 8) :: rest).head?, digit c = none := by
  intro c hc
  cases hc
  decide

variable {c host vaddr length}

theorem debugWriteMem_numbers {addr len : Text} (hAddr : Number addr vaddr)
    (hLen : Number len length) (data : Text) (turns : Nat) :
    debugWriteMem c host turns (addr ++ ch ',' :: (len ++ ch ':' :: data)) =
      writeRange c host vaddr length (databyte data) turns := by
  rw [debugWriteMem, parseSpec_numbers hAddr hLen (colon_head data)]
  rfl

theorem debugReadMem_numbers {addr len : Text} (hAddr : Number addr vaddr)
    (hLen : Number len length) (rest : Text) (turns : Nat) :
    debugReadMem c host turns (addr ++ ch ',' :: (len ++ 0 :: rest)) =
      readRange c host vaddr length turns := by
  rw [debugReadMem, parseSpec_numbers hAddr hLen (zero_head rest)]

theorem hexbyte_pair {a b : BitVec 8} (ha : IsHex a) (hb : IsHex b) (rest : Text) :
    hexbyte (a :: b :: rest) = (BitVec.ofNat 8 (hexValue [a, b]), rest) := by
  have hZero : ∀ {x : BitVec 8}, IsHex x → x ≠ 0 := by
    rintro x hx rfl
    exact absurd hx (by decide)
  have hBuf : ((a :: b :: rest).take 2).takeWhile (· ≠ 0) = [a, b] ++ [] := by
    rw [List.take_succ_cons, List.take_succ_cons, List.take_zero,
      List.takeWhile_cons_of_pos (by simpa using hZero ha),
      List.takeWhile_cons_of_pos (by simpa using hZero hb)]
    rfl
  have hHex : ∀ x ∈ [a, b], IsHex x := by
    intro x hx
    rcases List.mem_pair.mp hx with rfl | rfl
    · exact ha
    · exact hb
  have hLt : hexValue [a, b] < 2 ^ 64 := by
    rw [hexValue_pair ha hb]
    obtain ⟨da, hda, hLta⟩ := ha
    obtain ⟨db, hdb, hLtb⟩ := hb
    simp only [hda, hdb, Option.getD_some]
    omega
  unfold hexbyte
  rw [hBuf]
  dsimp only
  rw [strtoul_hex hHex (by simp) (by simp) hLt]
  refine Prod.ext ?_ rfl
  apply BitVec.eq_of_toNat_eq
  simp

theorem flatMap_range_succ {α : Type} (n : Nat) (f : Nat → List α) :
    (List.range (n + 1)).flatMap f = f 0 ++ (List.range n).flatMap fun k => f (k + 1) := by
  rw [List.range_succ_eq_map, List.flatMap_cons, List.flatMap_map]

/-- What is read as bytes is printed as it was written, in small letters. -/
theorem flatMap_databyte {n : Nat} {data : Text} (hLength : data.length = 2 * n)
    (hHex : ∀ c ∈ data, IsHex c) (rest : Text) :
    ((List.range n).flatMap fun k => byteText (databyte (data ++ rest) k)) = data.map tolower := by
  induction n generalizing data with
  | zero =>
    obtain rfl := List.eq_nil_of_length_eq_zero hLength
    rfl
  | succ n ih =>
    match data, hLength with
    | a :: b :: data, hLength =>
      have ha : IsHex a := hHex a (by simp)
      have hb : IsHex b := hHex b (by simp)
      have hLengthRest : data.length = 2 * n := by simpa [Nat.mul_succ] using hLength
      have hRest := ih hLengthRest fun c hc => hHex c (by simp [hc])
      have hPair := hexbyte_pair ha hb (data ++ rest)
      rw [flatMap_range_succ]
      simp only [List.cons_append, databyte, hPair, byteText_pair ha hb, hRest, List.map_cons,
        List.nil_append]

theorem exists_pair {n : Nat} {data : Text} (hLength : data.length = 2 * n) (hn : 0 < n) :
    ∃ a b rest, data = a :: b :: rest ∧ rest.length = 2 * (n - 1) := by
  match data, hLength with
  | [], hLength => simp at hLength; omega
  | [a], hLength => simp at hLength; omega
  | a :: b :: rest, hLength =>
    simp only [List.length_cons] at hLength
    exact ⟨a, b, rest, rfl, by omega⟩

/-- What is behind the data does not matter. -/
theorem databyte_append {n k : Nat} {data : Text} (hLength : data.length = 2 * n)
    (hHex : ∀ c ∈ data, IsHex c) (hk : k < n) (rest : Text) :
    databyte (data ++ rest) k = databyte data k := by
  induction k generalizing n data with
  | zero =>
    obtain ⟨a, b, data, rfl, -⟩ := exists_pair hLength (by omega)
    have hPair := hexbyte_pair (hHex a (by simp)) (hHex b (by simp))
    rw [databyte, databyte, List.cons_append, List.cons_append, hPair, hPair]
  | succ k ih =>
    obtain ⟨a, b, data, rfl, hRest⟩ := exists_pair hLength (by omega)
    have hPair := hexbyte_pair (hHex a (by simp)) (hHex b (by simp))
    rw [databyte, databyte, List.cons_append, List.cons_append, hPair, hPair]
    exact ih hRest (fun c hc => hHex c (by simp [hc])) (by omega)

theorem hexbyte_text (b : BitVec 8) (rest : Text) : hexbyte (byteText b ++ rest) = (b, rest) := by
  obtain ⟨hHex, hValue⟩ := byteText_hex b
  unfold byteText at hHex hValue ⊢
  have hPair := hexbyte_pair (hHex _ (List.mem_cons_self ..))
    (hHex _ (List.mem_cons_of_mem _ (List.mem_cons_self ..))) rest
  rw [List.cons_append, List.cons_append, List.nil_append, hPair, hValue, BitVec.ofNat_toNat,
    BitVec.setWidth_eq]

/-- The text of some bytes is read as these bytes. -/
theorem databyte_text {n k : Nat} (hk : k < n) (g : Nat → BitVec 8) (rest : Text) :
    databyte (((List.range n).flatMap fun k => byteText (g k)) ++ rest) k = g k := by
  obtain ⟨m, rfl⟩ : ∃ m, n = m + 1 := ⟨n - 1, by omega⟩
  rw [flatMap_range_succ, List.append_assoc]
  induction k generalizing m g with
  | zero => rw [databyte, hexbyte_text]
  | succ k ih =>
    obtain ⟨m, rfl⟩ : ∃ l, m = l + 1 := ⟨m - 1, by omega⟩
    rw [databyte, hexbyte_text]
    dsimp only
    rw [flatMap_range_succ, List.append_assoc]
    exact ih (fun k => g (k + 1)) m (by omega)

theorem text_of_bytes (n : Nat) (g : Nat → BitVec 8) :
    ((List.range n).flatMap fun k => byteText (g k)).length = 2 * n ∧
      ∀ c ∈ (List.range n).flatMap fun k => byteText (g k), IsHex c := by
  constructor
  · simp [List.length_flatMap, byteText, Nat.mul_comm]
  · intro c hc
    obtain ⟨k, -, hk⟩ := List.mem_flatMap.mp hc
    exact (byteText_hex _).1 c hk

end Sys161.Gdb
