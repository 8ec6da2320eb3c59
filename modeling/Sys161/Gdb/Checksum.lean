import Sys161.Gdb.Receive
import Sys161.Gdb.Threads
import Sys161.Lib.Numeral

/-!
# The checksums of packets

What `debug_exec` does with a packet before it looks at the command, and what
`debug_send` puts around a string. Both add up plain `char`s, and whether these
have a sign is for the host to say.
-/

namespace Sys161.Gdb

open CString Framing Hex

set_option autoImplicit false

def charInt (signedChar : Bool) (c : BitVec 8) : Int := if signedChar then c.toInt else c.toNat

/-- The loops over `check`, an `int` that goes around. -/
def charSum (signedChar : Bool) (s : Text) : Word :=
  s.foldl (fun check c => check + BitVec.ofInt 32 (charInt signedChar c)) 0

/-- What becomes of a packet: nothing, a minus, or a plus and then the command. -/
inductive ExecReply where
  | ignored
  | minus
  | plus (pkt : Text)
deriving DecidableEq

/-- `debug_exec` up to the `switch`. -/
def debugExec (signedChar : Bool) (pkt : Text) : ExecReply :=
  let pkt := cstr pkt
  if pkt.head? ≠ some dollar then
    .ignored
  else
    match pkt.idxOf? hashMark with
    | none => .ignored
    | some cs =>
      let check := charSum signedChar ((pkt.take cs).drop 1)
      let scheck : Word := (strtoul 16 (pkt.drop (cs + 1))).value.setWidth 32
      if scheck ≠ check.srem 256 then .minus else .plus (pkt.take cs)

/-- What `debug_send` writes. There is room for seven characters of the checksum. -/
def debugSend (signedChar : Bool) (string : Text) : Text :=
  let check := (charSum signedChar (cstr string)).srem 256
  dollar :: cstr string ++ (hashMark :: hexText check).take 7

/-! ## The rule -/

def byteSum (s : Text) : Nat := (s.map BitVec.toNat).sum

/-- Two characters that are the checksum. -/
def Checks (body : Text) (c d : BitVec 8) : Prop :=
  IsHex c ∧ IsHex d ∧ hexValue [c, d] = byteSum body % 256

instance (body : Text) (c d : BitVec 8) : Decidable (Checks body c d) :=
  inferInstanceAs (Decidable (_ ∧ _ ∧ _))

/-- A packet with the right characters is taken, and any other is sent back. -/
def ExecRight (signedChar : Bool) (body : Text) (c d : BitVec 8) : Prop :=
  debugExec signedChar (dollar :: body ++ [hashMark, c, d]) =
    if Checks body c d then .plus (dollar :: body) else .minus

instance (signedChar : Bool) (body : Text) (c d : BitVec 8) :
    Decidable (ExecRight signedChar body c d) :=
  inferInstanceAs (Decidable (_ = _))

def SendRight (signedChar : Bool) (string : Text) : Prop :=
  ∃ c d, debugSend signedChar string = dollar :: cstr string ++ [hashMark, c, d] ∧
    Checks (cstr string) c d

/-! ## The sum -/

/-- The sum of the `char`s is below zero and not a multiple of 256. -/
def NegativeSum (signedChar : Bool) (s : Text) : Prop :=
  (s.map (charInt signedChar)).sum.bmod (2 ^ 32) < 0 ∧ byteSum s % 256 ≠ 0

instance (signedChar : Bool) (s : Text) : Decidable (NegativeSum signedChar s) :=
  inferInstanceAs (Decidable (_ ∧ _))

variable {signedChar : Bool} {body : Text} {c d : BitVec 8}

theorem charSum_eq (signedChar : Bool) (s : Text) :
    charSum signedChar s = BitVec.ofInt 32 (s.map (charInt signedChar)).sum := by
  have hFrom (check : Word) : s.foldl (fun check c => check + BitVec.ofInt 32 (charInt signedChar c))
      check = check + BitVec.ofInt 32 (s.map (charInt signedChar)).sum := by
    induction s generalizing check with
    | nil => simp
    | cons c s ih =>
      rw [List.foldl_cons, ih, List.map_cons, List.sum_cons, BitVec.ofInt_add, BitVec.add_assoc]
  rw [charSum, hFrom]
  exact BitVec.zero_add _

/-- With or without a sign a `char` is the same modulo 256. -/
theorem sum_charInt_mod (signedChar : Bool) (s : Text) :
    (s.map (charInt signedChar)).sum % 256 = (byteSum s : Int) % 256 := by
  have hChar (c : BitVec 8) : charInt signedChar c % 256 = (c.toNat : Int) % 256 := by
    unfold charInt
    split
    · rw [BitVec.toInt_eq_toNat_bmod]
      exact Int.bmod_emod
    · rfl
  induction s with
  | nil => rfl
  | cons c s ih =>
    have hHead := hChar c
    simp only [byteSum, List.map_cons, List.sum_cons, Nat.cast_add] at ih ⊢
    omega

theorem tmod_256 {check : Int} {n : Nat} (h : check % 256 = (n : Int) % 256) :
    check.tmod 256 =
      if check < 0 ∧ n % 256 ≠ 0 then ((n % 256 : Nat) : Int) - 256 else (n % 256 : Nat) := by
  rw [Int.tmod_eq_emod, h]
  split <;> split <;> omega

/-- What is left of the sum. It has the sign of the sum. -/
def hostRemainder (signedChar : Bool) (s : Text) : Int :=
  if NegativeSum signedChar s then (byteSum s % 256 : Nat) - 256 else (byteSum s % 256 : Nat)

theorem toInt_srem_charSum (signedChar : Bool) (s : Text) :
    ((charSum signedChar s).srem 256).toInt = hostRemainder signedChar s := by
  have hMod := sum_charInt_mod signedChar s
  have hSame : (s.map (charInt signedChar)).sum.bmod (2 ^ 32) % 256 = (byteSum s : Int) % 256 := by
    rw [← hMod, ← Int.emod_emod_of_dvd _ (by decide : (256 : Int) ∣ (2 ^ 32 : Nat)), Int.bmod_emod,
      Int.emod_emod_of_dvd _ (by decide)]
  rw [BitVec.toInt_srem, charSum_eq, BitVec.toInt_ofInt]
  exact tmod_256 hSame

/-! ## The two characters -/

/-- What `strtoul` makes of the two characters behind the hash mark. -/
def readPair (c d : BitVec 8) : Int :=
  if IsHex c then
    if IsHex d then hexValue [c, d] else hexValue [c]
  else if IsHex d then
    if isspace c ∨ c = ch '+' then hexValue [d] else if c = ch '-' then -hexValue [d] else 0
  else
    0

theorem hexValue_one {c : BitVec 8} (hc : IsHex c) : hexValue [c] < 16 := by
  obtain ⟨k, hDigit, hLt⟩ := hc
  simpa [hexValue, value, hDigit] using hLt

theorem hexValue_two {c d : BitVec 8} (hc : IsHex c) (hd : IsHex d) : hexValue [c, d] < 256 := by
  obtain ⟨j, hj, hjLt⟩ := hc
  obtain ⟨k, hk, hkLt⟩ := hd
  rw [hexValue_pair ⟨j, hj, hjLt⟩ ⟨k, hk, hkLt⟩, hj, hk]
  simp only [Option.getD_some]
  omega

theorem readPair_range (c d : BitVec 8) : -16 < readPair c d ∧ readPair c d < 256 := by
  unfold readPair
  split
  · next hc =>
    have hOne := hexValue_one hc
    split
    · next hd =>
      have hTwo := hexValue_two hc hd
      omega
    · omega
  · split
    · next hd =>
      have hOne := hexValue_one hd
      split
      · omega
      · split <;> omega
    · omega

theorem not_isHex_zero : ¬IsHex 0 := by decide

theorem cstr_pair (c d : BitVec 8) :
    cstr [c, d] = if c = 0 then [] else if d = 0 then [c] else [c, d] := by
  by_cases hc : c = 0#8
  · simp [cstr, hc]
  · by_cases hd : d = 0#8
    · simp [cstr, hc, hd]
    · simp [cstr, hc, hd]

/-- Spaces in front of a number are skipped. -/
theorem strtoul_space {c : BitVec 8} (hc : isspace c = true) (base : Nat) (s : Text) :
    (strtoul base (c :: s)).value = (strtoul base s).value := by
  unfold strtoul
  rw [List.dropWhile_cons_of_pos hc]
  dsimp only
  split
  · rfl
  · split <;> rfl

theorem takeDigits_other {c : BitVec 8} (hc : ¬IsHex c) (s : Text) :
    takeDigits 16 (c :: s) = ([], c :: s) := by
  unfold takeDigits
  split
  · next k hDigit => rw [if_neg (fun hLt => hc ⟨k, hDigit, hLt⟩)]
  · rfl

/-- There is no number where the first character is neither a digit nor may be before one. -/
theorem strtoul_other {c : BitVec 8} (hHex : ¬IsHex c) (hSpace : isspace c = false)
    (hPlus : c ≠ ch '+') (hMinus : c ≠ ch '-') (s : Text) : (strtoul 16 (c :: s)).value = 0 := by
  have hBase : takeBase 16 (c :: s) = (16, c :: s) := by
    unfold takeBase
    split
    · next hText =>
      obtain ⟨rfl, -⟩ := List.cons.inj hText
      have hZero : c ≠ ch '0' := fun h => hHex (h ▸ by decide)
      rw [if_neg (fun h => hZero h.2.1), if_neg (by decide)]
    · rfl
    · rfl
  unfold strtoul
  rw [List.dropWhile_cons_of_neg (by simp [hSpace]), takeSign, if_neg hMinus, if_neg hPlus]
  dsimp only
  rw [hBase]
  dsimp only
  rw [takeDigits_other hHex]
  rfl

theorem strtoul_signed : ∀ d : BitVec 8,
    (strtoul 16 [d]).value.setWidth 32 = BitVec.ofInt 32 (if IsHex d then hexValue [d] else 0) ∧
    (strtoul 16 [ch '+', d]).value.setWidth 32 =
      BitVec.ofInt 32 (if IsHex d then hexValue [d] else 0) ∧
    (strtoul 16 [ch '-', d]).value.setWidth 32 =
      BitVec.ofInt 32 (if IsHex d then -hexValue [d] else 0) := by
  decide +kernel

/-- A digit is the whole number when none follows. -/
theorem strtoul_first {c d : BitVec 8} (hc : IsHex c) (hd : ¬IsHex d) :
    (strtoul 16 [c, d]).value = BitVec.ofNat 64 (hexValue [c]) := by
  obtain ⟨hSpace, hMinus, hPlus, -⟩ := apart_of_isHex c hc
  obtain ⟨k, hDigit, hLt⟩ := hc
  have hDigits : takeDigits 16 [c, d] = ([k], [d]) := by
    rw [takeDigits, hDigit]
    dsimp only
    rw [if_pos hLt, takeDigits_other hd]
  have hValue : value 16 [k] = k := by simp [value]
  have hBase : takeBase 16 [c, d] = (16, [c, d]) := rfl
  unfold strtoul
  rw [List.dropWhile_cons_of_neg (by simp [hSpace]), takeSign, if_neg hMinus, if_neg hPlus]
  dsimp only
  rw [hBase]
  dsimp only
  rw [hDigits]
  dsimp only
  rw [hValue, if_neg (List.cons_ne_nil _ _), if_neg (by omega)]
  simp [hexValue, hDigit, hValue]

theorem setWidth_ofNat (n : Nat) :
    (BitVec.ofNat 64 n).setWidth 32 = BitVec.ofInt 32 n := by
  rw [BitVec.ofInt_natCast]
  apply BitVec.eq_of_toNat_eq
  simp only [BitVec.toNat_setWidth, BitVec.toNat_ofNat]
  omega

/-- Two characters are read as a number of at most two digits, with or without a sign. -/
theorem strtoul_pair (c d : BitVec 8) :
    (strtoul 16 (cstr [c, d])).value.setWidth 32 = BitVec.ofInt 32 (readPair c d) := by
  obtain ⟨hOne, hPlus, hMinus⟩ := strtoul_signed d
  unfold readPair
  rw [cstr_pair]
  by_cases hc : IsHex c
  · have hSome : c ≠ 0 := fun h => not_isHex_zero (h ▸ hc)
    have hDigit := hexValue_one hc
    rw [if_pos hc, if_neg hSome]
    by_cases hd : IsHex d
    · have hSome' : d ≠ 0 := fun h => not_isHex_zero (h ▸ hd)
      have hPair : ∀ x ∈ [c, d], IsHex x := by simp [hc, hd]
      have hTwo := hexValue_two hc hd
      have hEnd : ∀ x ∈ ([] : Text).head?, digit x = none := by simp
      have hRead := strtoul_hex hPair (by simp) hEnd (by omega)
      rw [if_pos hd, if_neg hSome', ← List.append_nil [c, d], hRead]
      exact setWidth_ofNat _
    · rw [if_neg hd]
      by_cases hZero : d = 0
      · rw [if_pos hZero, (strtoul_signed c).1, if_pos hc]
      · rw [if_neg hZero, strtoul_first hc hd]
        exact setWidth_ofNat _
  · rw [if_neg hc]
    by_cases hNul : c = 0
    · rw [if_pos hNul, hNul]
      split
      · rfl
      · rfl
    · rw [if_neg hNul]
      by_cases hZero : d = 0
      · have hNone : ¬IsHex d := fun h => not_isHex_zero (hZero ▸ h)
        rw [if_pos hZero, (strtoul_signed c).1, if_neg hc, if_neg hNone]
      · rw [if_neg hZero]
        by_cases hSpace : isspace c = true
        · rw [strtoul_space hSpace, hOne, if_pos (Or.inl hSpace)]
        · by_cases hIsPlus : c = ch '+'
          · rw [if_pos (Or.inr hIsPlus), hIsPlus, hPlus]
          · have hFront : ¬(isspace c = true ∨ c = ch '+') := not_or.mpr ⟨hSpace, hIsPlus⟩
            rw [if_neg hFront]
            by_cases hIsMinus : c = ch '-'
            · rw [if_pos hIsMinus, hIsMinus, hMinus]
            · rw [if_neg hIsMinus, ite_self, strtoul_other hc (by simpa using hSpace) hIsPlus hIsMinus]
              rfl

/-! ## Packets -/

theorem cstr_of_ne {s : Text} (hs : (0 : BitVec 8) ∉ s) (t : Text) : cstr (s ++ t) = s ++ cstr t := by
  unfold cstr
  rw [List.takeWhile_append_of_pos]
  intro x hx
  exact decide_eq_true (fun hZero => hs (hZero ▸ hx))

theorem pair_eq_iff : BitVec.ofInt 32 (readPair c d) = (charSum signedChar body).srem 256 ↔
    readPair c d = hostRemainder signedChar body := by
  have hPair := readPair_range c d
  have hToInt : (BitVec.ofInt 32 (readPair c d)).toInt = readPair c d := by
    rw [BitVec.toInt_ofInt]
    exact Int.bmod_eq_of_le (by omega) (by omega)
  rw [← BitVec.toInt_inj, hToInt, toInt_srem_charSum]

/-- What comes of a packet: what is left of the sum is compared with what is read. -/
theorem debugExec_packet (hBody : hashMark ∉ body) (hZero : (0 : BitVec 8) ∉ body) :
    debugExec signedChar (dollar :: body ++ [hashMark, c, d]) =
      if readPair c d = hostRemainder signedChar body then .plus (dollar :: body) else .minus := by
  have hFront : (0 : BitVec 8) ∉ dollar :: body ++ [hashMark] := by
    rw [List.mem_append, List.mem_cons, List.mem_singleton]
    rintro ((hDollar | hMem) | hMark)
    · exact absurd hDollar (by decide)
    · exact hZero hMem
    · exact absurd hMark (by decide)
  have hString : cstr (dollar :: body ++ [hashMark, c, d]) =
      dollar :: body ++ hashMark :: cstr [c, d] := by
    have hSplit := cstr_of_ne hFront [c, d]
    simpa using hSplit
  have hHash : (dollar :: body ++ hashMark :: cstr [c, d]).idxOf? hashMark =
      some (dollar :: body).length := by
    refine (idxOf?_eq_some_split hashMark).mpr ⟨dollar :: body, cstr [c, d], rfl, ?_, rfl⟩
    have hDollar : hashMark ≠ dollar := by decide
    simp [hBody, hDollar]
  have hBehind : (dollar :: body ++ hashMark :: cstr [c, d]).drop ((dollar :: body).length + 1) =
      cstr [c, d] := by
    rw [List.append_cons, List.drop_left' (by simp)]
  unfold debugExec
  dsimp only
  rw [hString, if_neg (by simp), hHash]
  dsimp only
  rw [hBehind, List.take_left, strtoul_pair, ite_not]
  simp only [List.drop_one, List.tail_cons, pair_eq_iff]

theorem cstr_of_mem {s : Text} (hs : (0 : BitVec 8) ∈ s) (t : Text) : cstr (s ++ t) = cstr s := by
  induction s with
  | nil => cases hs
  | cons c s ih =>
    unfold cstr at ih ⊢
    by_cases hc : c = 0
    · simp [hc]
    · rcases List.mem_cons.mp hs with hZero | hMem
      · exact absurd hZero.symm hc
      · rw [List.cons_append, List.takeWhile_cons, List.takeWhile_cons, ih hMem]

/-- Behind a zero there is no checksum. -/
theorem debugExec_zero (hBody : hashMark ∉ body) (hZero : (0 : BitVec 8) ∈ body) :
    debugExec signedChar (dollar :: body ++ [hashMark, c, d]) = .ignored := by
  have hNone : hashMark ∉ cstr (dollar :: body ++ [hashMark, c, d]) := by
    rw [cstr_of_mem (List.mem_cons_of_mem _ hZero)]
    intro hMem
    rcases List.mem_cons.mp (List.takeWhile_subset _ hMem) with hDollar | hIn
    · exact absurd hDollar (by decide)
    · exact hBody hIn
  unfold debugExec
  dsimp only
  rw [List.idxOf?_eq_none_iff.mpr hNone, ite_self]

theorem checks_iff : Checks body c d ↔
    IsHex c ∧ IsHex d ∧ readPair c d = (byteSum body % 256 : Nat) := by
  refine and_congr_right fun hc => and_congr_right fun hd => ?_
  rw [readPair, if_pos hc, if_pos hd, Nat.cast_inj]

/-- When a packet goes the right way. What is below zero is neither the checksum nor what a minus
makes of it, and characters that are read as the checksum are digits. -/
def Fit (signedChar : Bool) (body : Text) (c d : BitVec 8) : Prop :=
  (0 : BitVec 8) ∉ body ∧
  if NegativeSum signedChar body then
    ¬Checks body c d ∧ readPair c d ≠ (byteSum body % 256 : Nat) - 256
  else
    readPair c d = (byteSum body % 256 : Nat) → IsHex c ∧ IsHex d

instance (signedChar : Bool) (body : Text) (c d : BitVec 8) : Decidable (Fit signedChar body c d) :=
  inferInstanceAs (Decidable (_ ∧ ite _ _ _))

theorem execRight_iff (hBody : hashMark ∉ body) :
    ExecRight signedChar body c d ↔ Fit signedChar body c d := by
  unfold ExecRight Fit
  by_cases hZero : (0 : BitVec 8) ∈ body
  · rw [debugExec_zero hBody hZero]
    refine iff_of_false ?_ (fun h => h.1 hZero)
    split
    · exact ExecReply.noConfusion
    · exact ExecReply.noConfusion
  · rw [debugExec_packet hBody hZero, hostRemainder]
    simp only [hZero, not_false_eq_true, true_and]
    by_cases hNeg : NegativeSum signedChar body
    · rw [if_pos hNeg, if_pos hNeg]
      by_cases hChecks : Checks body c d
      · have hRead := (checks_iff.mp hChecks).2.2
        rw [if_pos hChecks, if_neg (by omega)]
        exact iff_of_false ExecReply.noConfusion (fun h => h.1 hChecks)
      · rw [if_neg hChecks]
        simp [hChecks]
    · rw [if_neg hNeg, if_neg hNeg]
      by_cases hChecks : Checks body c d
      · obtain ⟨hc, hd, hRead⟩ := checks_iff.mp hChecks
        rw [if_pos hChecks, if_pos hRead]
        exact iff_of_true rfl (fun _ => ⟨hc, hd⟩)
      · rw [if_neg hChecks]
        constructor
        · intro hMinus hRead
          rw [if_pos hRead] at hMinus
          cases hMinus
        · intro hHex
          refine if_neg fun hRead => hChecks (checks_iff.mpr ?_)
          exact ⟨(hHex hRead).1, (hHex hRead).2, hRead⟩

/-! ## Strings that are sent -/

/-- A byte has two digits, and a number below zero has all eight. -/
theorem hexText_remainder : ∀ n : Nat, n < 256 →
    hexText (BitVec.ofInt 32 n) = byteText (BitVec.ofNat 8 n) ∧
    (n ≠ 0 → (hexText (BitVec.ofInt 32 (n - 256))).length = 8) := by
  decide +kernel

theorem srem_charSum (signedChar : Bool) (s : Text) :
    (charSum signedChar s).srem 256 = BitVec.ofInt 32 (hostRemainder signedChar s) := by
  rw [← toInt_srem_charSum, BitVec.ofInt_toInt]

theorem sendRight_iff {string : Text} :
    SendRight signedChar string ↔ ¬NegativeSum signedChar (cstr string) := by
  obtain ⟨hByte, hLong⟩ :=
    hexText_remainder (byteSum (cstr string) % 256) (Nat.mod_lt _ (by decide))
  unfold SendRight debugSend
  dsimp only
  rw [srem_charSum, hostRemainder]
  by_cases hNeg : NegativeSum signedChar (cstr string)
  · refine iff_of_false ?_ (not_not.mpr hNeg)
    rintro ⟨c, d, hText, -⟩
    have hEight := hLong hNeg.2
    have hLength := congrArg List.length (List.append_cancel_left hText)
    rw [if_pos hNeg, List.length_take, List.length_cons, hEight] at hLength
    cases hLength
  · refine iff_of_true ?_ hNeg
    obtain ⟨hHex, hValue⟩ := byteText_hex (BitVec.ofNat 8 (byteSum (cstr string) % 256))
    rw [if_neg hNeg, hByte]
    refine ⟨_, _, rfl, hHex _ (List.mem_cons_self ..), hHex _ (by simp [byteText]), ?_⟩
    rw [BitVec.toNat_ofNat, Nat.mod_mod] at hValue
    exact hValue

/-- The packets that go the right way, and the strings that are sent with the checksum they have. -/
theorem checksum_exact {string : Text} (hBody : hashMark ∉ body) :
    (ExecRight signedChar body c d ↔ Fit signedChar body c d) ∧
    (SendRight signedChar string ↔ ¬NegativeSum signedChar (cstr string)) :=
  ⟨execRight_iff hBody, sendRight_iff⟩

/-- Text has the checksum of the protocol where `char`s have a sign. -/
theorem checksum_question_mark :
    ExecRight true [ch '?'] (ch '3') (ch 'F') ∧ SendRight true [ch 'O', ch 'K'] := by
  have hExact := @checksum_exact true [ch '?'] (ch '3') (ch 'F') [ch 'O', ch 'K'] (by decide)
  exact ⟨hExact.1.mpr (by decide), hExact.2.mpr (by decide)⟩

/-- With signed `char`s the right checksum of a byte above 127 is refused and not sent; any two
letters are good for a sum of 256; and a zero ends the packet. -/
theorem not_checksum :
    ¬ExecRight true [0xff] (ch 'f') (ch 'f') ∧ ¬SendRight true [0xff] ∧
    ¬ExecRight false [ch '@', ch '@', ch '@', ch '@'] (ch 'z') (ch 'z') ∧
    ¬ExecRight false [0] (ch '0') (ch '0') := by
  refine ⟨by decide +kernel, ?_, by decide +kernel, by decide +kernel⟩
  rintro ⟨c, d, hText, -⟩
  exact absurd (congrArg List.length hText) (by decide +kernel : (debugSend true [0xff]).length ≠ 5)

end Sys161.Gdb
