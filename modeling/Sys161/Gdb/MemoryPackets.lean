import Sys161.Gdb.MemoryRange

/-!
# What comes of the packets

A range comes back as it was written if it begins at a word and is of words only,
for only the first byte of a word can be stored by itself, and what is left of a
read is shown as a word. A write is refused where it stands, with the words
before it stored.
-/

namespace Sys161.Gdb

open ByteOrder CString Exec Hex

set_option autoImplicit false

variable {ε σ : Type} {t : Target ε σ} {s s' : σ} {host : Order} {vaddr length : Word}

/-! ## Refused writes -/

/-- A write that is not refused behind its first word. -/
def Unbroken (loc : Word → Option (BitVec 30)) (vaddr length : Word) : Prop :=
  length = 0 ∨ vaddr &&& 0x3 ≠ 0 ∨ loc (wordOf vaddr 0) = none ∨
    swept length % 4 ≤ 1 ∧ ∀ k, 4 * k < swept length → (loc (wordOf vaddr (4 * k))).isSome

/-- A write that is answered with an error leaves memory as it is. -/
def Target.ErrorKeeps (t : Target ε σ) (host : Order) (s : σ) (vaddr length : Word) : Prop :=
  ∀ spec turns s', (parseSpec spec).vaddr = vaddr → (parseSpec spec).length = length →
    (debugWriteMem t.toCpudebug host turns spec).run s = .ok (some replyE03) s' →
      t.ram s' = t.ram s

section Refused

variable {bytes : Nat → BitVec 8} {turns : Nat} {loc : Word → Option (BitVec 30)}
variable (hLaw : t.Lawful) (hAlign : vaddr &&& 0x3 = 0)
variable (hSteady : t.Steady s true vaddr (swept length) loc)

include hLaw hAlign hSteady

theorem ram_of_first_refused (hLength : length ≠ 0) (hNone : loc (wordOf vaddr (4 * 0)) = none)
    (hRun : (writeRange t.toCpudebug host vaddr length bytes turns).run s =
      .ok (some replyE03) s') : t.ram s' = t.ram s := by
  have hPos := swept_pos hLength
  cases turns with
  | zero =>
    rw [writeRange_running hAlign hLaw hSteady (fun k hk => absurd hk (by omega))
      (by omega)] at hRun
    cases hRun
  | succ turns =>
    have hRefused := writeRange_refused host bytes hAlign hLaw hSteady
      (fun j hj => absurd hj (by omega)) hPos hNone turns
    rw [Nat.zero_add, hRun] at hRefused
    cases hRefused
    exact hLaw.ram_setRam _ _

theorem not_refused (hRest : swept length % 4 ≤ 1)
    (hOpen : ∀ k, 4 * k < swept length → (loc (wordOf vaddr (4 * k))).isSome) :
    (writeRange t.toCpudebug host vaddr length bytes turns).run s ≠ .ok (some replyE03) s' := by
  intro hRun
  by_cases hAll : 0xfffffffc ≤ length
  · have hSwept : swept length = 2 ^ 32 := if_pos hAll
    obtain ⟨s'', hWords⟩ :=
      storeWords_all host bytes turns hAlign hLaw hSteady hAll fun k hk => hOpen k (by omega)
    rw [writeRange_aligned hAlign, hWords] at hRun
    cases hRun
  · have hSwept : swept length = length.toNat := if_neg hAll
    rw [hSwept] at hRest hOpen
    have hWords : ∀ k < length.toNat / 4, (loc (wordOf vaddr (4 * k))).isSome :=
      fun k hk => hOpen k (by omega)
    have hEnds := writeRange_ends hAlign hLaw hSteady hAll rfl hWords hRun
    rcases Nat.le_one_iff_eq_zero_or_eq_one.mp hRest with hNone | hOne
    · rw [run_storeRest_none (by omega)] at hEnds
      cases hEnds
    · have hLast : 4 * (length.toNat / 4) < swept length := by omega
      have hLeads := leads_written bytes hAlign hSteady hWords hLast.le hLast
      rw [loc_wordOf (hOpen _ (by omega))] at hLeads
      rw [run_storeRest_one hAlign hLaw (by omega) hLeads] at hEnds
      cases hEnds

omit hAlign in
theorem ram_of_refused (hUnbroken : Unbroken loc vaddr length)
    (hRun : (writeRange t.toCpudebug host vaddr length bytes turns).run s =
      .ok (some replyE03) s') : t.ram s' = t.ram s := by
  by_cases hZero : length = 0
  · subst hZero
    rw [writeRange_empty] at hRun
    split at hRun <;> cases hRun
  by_cases hAlign : vaddr &&& 0x3 = 0
  · rcases hUnbroken with h | h | h | h
    · exact absurd h hZero
    · exact absurd hAlign h
    · exact ram_of_first_refused hLaw hAlign hSteady hZero h hRun
    · exact absurd hRun (not_refused hLaw hAlign hSteady h.1 h.2)
  · rw [writeRange_unaligned hLaw hAlign hZero] at hRun
    cases hRun
    rfl

variable {b : BitVec 8} (hBytes : ∀ k < length.toNat, bytes k = b)

omit hAlign hSteady in
include hBytes in
/-- Where the first word leads, equal bytes are found whatever has been stored there since. -/
theorem first_written {m : Nat} (hm : ∀ k < m, 4 * k < length.toNat) (hPos : 0 < m) :
    t.order.byte (t.ram (t.written s loc vaddr bytes m) (wordPlace loc vaddr 0)) 0 = b := by
  obtain ⟨j, -, hj, -, hWord⟩ :=
    laid_last (wordPlace loc vaddr) (dataword t bytes) (t.ram s) hPos
  rw [Target.written, hLaw.ram_setRam, hWord, dataword, Order.byte_word _ _ (by decide)]
  exact hBytes _ (hm j hj)

omit hAlign hSteady in
theorem first_stored {ix ix' : BitVec 30}
    (h : ix = ix' ∨ t.order.byte (t.ram s ix') 0 = b) :
    t.order.byte (t.ram (t.stored s ix b) ix') 0 = b := by
  rw [Target.stored, hLaw.ram_setRam]
  by_cases hSame : ix' = ix
  · rw [hSame, Function.update_self, Order.byte_setByte _ _ (by decide)]
  · rw [Function.update_of_ne hSame]
    exact h.resolve_left (Ne.symm hSame)

variable (host) in
omit hAlign in
include hBytes in
/-- A write that is refused behind its first word has changed the first byte. -/
theorem ram_of_broken (hBroken : ¬Unbroken loc vaddr length)
    (hb : t.order.byte (t.ram s (wordPlace loc vaddr 0)) 0 ≠ b) :
    ∃ turns s', (writeRange t.toCpudebug host vaddr length bytes turns).run s =
      .ok (some replyE03) s' ∧ t.ram s' ≠ t.ram s := by
  unfold Unbroken at hBroken
  push Not at hBroken
  obtain ⟨hLength, hAlign, hFirst, hBroken⟩ := hBroken
  have hChanged : ∀ s', t.order.byte (t.ram s' (wordPlace loc vaddr 0)) 0 = b →
      t.ram s' ≠ t.ram s := by
    intro s' hByte hSame
    rw [hSame] at hByte
    exact hb hByte
  by_cases hOpen : ∀ k, 4 * k < swept length → (loc (wordOf vaddr (4 * k))).isSome
  · have hRest : 1 < swept length % 4 := by
      by_contra hRest
      obtain ⟨k, hk, hNone⟩ := hBroken (by omega)
      exact hNone (hOpen k hk)
    have hAll : ¬0xfffffffc ≤ length := by
      intro hAll
      rw [swept, if_pos hAll] at hRest
      omega
    have hSwept : swept length = length.toNat := if_neg hAll
    have hWords : ∀ k < length.toNat / 4, (loc (wordOf vaddr (4 * k))).isSome :=
      fun k hk => hOpen k (by omega)
    have hLast : 4 * (length.toNat / 4) < swept length := by omega
    have hLeads := leads_written bytes hAlign hSteady hWords hLast.le hLast
    rw [loc_wordOf (hOpen _ hLast)] at hLeads
    have hRun := writeRange_whole host bytes hAlign hLaw hSteady hAll rfl hWords
    rw [run_storeRest_more hAlign hLaw (by omega) hLeads] at hRun
    refine ⟨_, _, hRun, hChanged _ ?_⟩
    rw [hBytes _ (by omega)]
    apply first_stored hLaw
    rcases Nat.eq_zero_or_pos (length.toNat / 4) with hZero | hPos
    · rw [hZero]
      exact .inl rfl
    · exact .inr (first_written hLaw hBytes (fun k hk => by omega) hPos)
  · push Not at hOpen
    have hFound := Nat.find_spec hOpen
    have hBefore := fun j hj => Nat.find_min hOpen (m := j) hj
    generalize Nat.find hOpen = k at hFound hBefore
    have hWords : ∀ j < k, (loc (wordOf vaddr (4 * j))).isSome := by
      intro j hj
      by_contra hNone
      exact hBefore j hj ⟨by omega, hNone⟩
    have hPos : 0 < k := by
      rcases Nat.eq_zero_or_pos k with rfl | hPos
      · exact absurd (Option.not_isSome_iff_eq_none.mp hFound.2) hFirst
      · exact hPos
    have hRun := writeRange_refused host bytes hAlign hLaw hSteady hWords
      hFound.1 (Option.not_isSome_iff_eq_none.mp hFound.2) 0
    refine ⟨_, _, hRun, hChanged _ (first_written hLaw hBytes (fun j hj => ?_) hPos)⟩
    have hBound := swept_le_add length
    omega

omit hAlign in
theorem errorKeeps_iff : t.ErrorKeeps host s vaddr length ↔ Unbroken loc vaddr length := by
  constructor
  · intro hKeeps
    by_contra hBroken
    have hb : t.order.byte (t.ram s (wordPlace loc vaddr 0)) 0 ≠
        t.order.byte (t.ram s (wordPlace loc vaddr 0)) 0 + 1 := by
      bv_omega
    generalize t.order.byte (t.ram s (wordPlace loc vaddr 0)) 0 + 1 = b at hb
    -- A packet that writes the one byte everywhere.
    have hSpec := parseSpec_numbers (number_wordText vaddr) (number_wordText length)
      (colon_head ((List.range length.toNat).flatMap fun _ => byteText b))
    have hBytes : ∀ k < length.toNat,
        databyte ((List.range length.toNat).flatMap fun _ => byteText b) k = b := by
      intro k hk
      have hText := databyte_text hk (fun _ => b) []
      rwa [List.append_nil] at hText
    obtain ⟨turns, s', hRun, hChanged⟩ := ram_of_broken host hLaw hSteady hBytes hBroken hb
    apply hChanged
    apply hKeeps _ turns s' (congrArg Spec.vaddr hSpec) (congrArg Spec.length hSpec)
    rw [debugWriteMem, hSpec]
    exact hRun
  · intro hUnbroken spec turns s' hVaddr hLength hRun
    rw [debugWriteMem, hVaddr, hLength] at hRun
    exact ram_of_refused hLaw hSteady hUnbroken hRun

end Refused

/-! ## Round trips -/

/-- The bytes of main memory that no byte of the range is translated to. -/
def Target.Kept (t : Target ε σ) (s s' : σ) (vaddr : Word) (n : Nat) (loc : Word → BitVec 30) :
    Prop :=
  ∀ ix, ∀ j < 4,
    (∀ k < n, ¬(loc (wordOf vaddr k) = ix ∧ ((vaddr + BitVec.ofNat 32 k) &&& 0x3).toNat = j)) →
      t.order.byte (t.ram s' ix) j = t.order.byte (t.ram s ix) j

/-- A range of main memory that may be read and written. -/
def Target.Range (t : Target ε σ) (s : σ) (vaddr : Word) (n : Nat) (loc : Word → BitVec 30) : Prop :=
  ∀ iswrite, t.Steady s iswrite vaddr n fun va => some (loc va)

/-- The data is written, and the range is then shown with the same digits. -/
def Target.RoundTrip (t : Target ε σ) (host : Order) (s : σ) (vaddr : Word) (n : Nat)
    (loc : Word → BitVec 30) (addr len data rest : Text) : Prop :=
  ∃ turns turns' s' s'',
    (debugWriteMem t.toCpudebug host turns
      (addr ++ ch ',' :: (len ++ ch ':' :: (data ++ 0 :: rest)))).run s =
        .ok (some replyOk) s' ∧
    (debugReadMem t.toCpudebug host turns' (addr ++ ch ',' :: (len ++ 0 :: rest))).run s' =
      .ok (some data) s'' ∧
    t.Kept s s'' vaddr n loc

/-- Whole words, with the digits as they are printed, and no two of them different that lead to the
same place. -/
def Target.WholeWords (t : Target ε σ) (vaddr : Word) (n : Nat) (loc : Word → BitVec 30)
    (data : Text) : Prop :=
  n = 0 ∨ vaddr &&& 0x3 = 0 ∧ n % 4 = 0 ∧ data.map tolower = data ∧
    ∀ j < n / 4, ∀ k < n / 4, loc (wordOf vaddr (4 * j)) = loc (wordOf vaddr (4 * k)) →
      dataword t (databyte data) j = dataword t (databyte data) k

section RoundTrip

variable {loc : Word → BitVec 30} {ram : BitVec 30 → Word}

theorem dataword_congr {bytes bytes' : Nat → BitVec 8} {k : Nat}
    (h : ∀ j < 4, bytes (4 * k + j) = bytes' (4 * k + j)) :
    dataword t bytes k = dataword t bytes' k :=
  Order.word_congr _ h

theorem leads_read (hAlign : vaddr &&& 0x3 = 0) {n : Nat} (hRange : t.Range s vaddr n loc)
    (hAgrees : t.Agrees s vaddr n (fun va => some (loc va)) ram) {k : Nat} (hk : 4 * k < n) :
    t.Leads (t.setRam s ram) false (vaddr + BitVec.ofNat 32 (4 * k))
      (some (loc (wordOf vaddr (4 * k)))) := by
  have hLeads := hRange false ram hAgrees (4 * k) hk
  rwa [wordOf_words hAlign] at hLeads ⊢

theorem not_all_of_small (h : length.toNat < 512) : ¬0xfffffffc ≤ length := by
  rw [BitVec.le_def]
  change ¬4294967292 ≤ length.toNat
  omega

/-- Where words of the data go, if they go to the same place they are the same. -/
theorem byteAt_written (hLaw : t.Lawful) {bytes : Nat → BitVec 8} {m k : Nat}
    (hSame : ∀ i < m, ∀ j < m, loc (wordOf vaddr (4 * i)) = loc (wordOf vaddr (4 * j)) →
      dataword t bytes i = dataword t bytes j) (hk : k < 4 * m) :
    t.byteAt (t.written s (fun va => some (loc va)) vaddr bytes m)
      (fun k => loc (wordOf vaddr (4 * k))) k = bytes k := by
  have hWord : k / 4 < m := by omega
  have hIndex : 4 * (k / 4) + k % 4 = k := by omega
  obtain ⟨j, -, hj, hLoc, hLast⟩ :=
    laid_last (wordPlace (fun va => some (loc va)) vaddr) (dataword t bytes) (t.ram s) hWord
  change loc (wordOf vaddr (4 * j)) = loc (wordOf vaddr (4 * (k / 4))) at hLoc
  change laid _ _ _ _ (loc (wordOf vaddr (4 * (k / 4)))) = _ at hLast
  rw [Target.byteAt, Target.written, hLaw.ram_setRam, hLast, hSame j hj _ hWord hLoc, dataword,
    Order.byte_word _ _ (by omega), hIndex]

variable (s loc) in
/-- The bytes of whole words are all of the range. -/
theorem kept_written (hLaw : t.Lawful) (hAlign : vaddr &&& 0x3 = 0) (bytes : Nat → BitVec 8)
    {m n : Nat} (hn : n = 4 * m) :
    t.Kept s (t.written s (fun va => some (loc va)) vaddr bytes m) vaddr n loc := by
  intro ix j hj hOut
  rw [Target.written, hLaw.ram_setRam, laid_outside]
  intro k hk hLoc
  have hByte := byteOf_words hAlign (k := k) hj
  exact hOut (4 * k + j) (by omega) ⟨by rw [hByte.1]; exact hLoc, hByte.2⟩

theorem leads_read_written (hAlign : vaddr &&& 0x3 = 0) {n m k : Nat}
    (hRange : t.Range s vaddr n loc) {bytes : Nat → BitVec 8} (hm : 4 * m ≤ n) (hk : 4 * k < n) :
    t.Leads (t.written s (fun va => some (loc va)) vaddr bytes m) false
      (vaddr + BitVec.ofNat 32 (4 * k)) (some (loc (wordOf vaddr (4 * k)))) :=
  leads_read hAlign hRange (agrees_laid (fun _ _ => rfl) hm _) hk

/-- A write that is answered leaves the range as it is translated, and has no more than one byte
behind its last whole word. -/
theorem state_of_written (hLaw : t.Lawful) (hAlign : vaddr &&& 0x3 = 0)
    (hAll : ¬0xfffffffc ≤ length) {bytes : Nat → BitVec 8} {turns : Nat}
    (hSteady : t.Steady s true vaddr length.toNat fun va => some (loc va))
    (hRun : (writeRange t.toCpudebug host vaddr length bytes turns).run s =
      .ok (some replyOk) s') :
    length.toNat % 4 ≤ 1 ∧ ∃ ram, s' = t.setRam s ram ∧
      t.Agrees s vaddr length.toNat (fun va => some (loc va)) ram := by
  have hSwept : swept length = length.toNat := if_neg hAll
  rw [← hSwept] at hSteady
  have hEnds := writeRange_ends hAlign hLaw hSteady hAll rfl (fun k hk => rfl) hRun
  have hLaid : t.Agrees s vaddr length.toNat (fun va => some (loc va))
      (laid (wordPlace (fun va => some (loc va)) vaddr) (dataword t bytes) (t.ram s)
        (length.toNat / 4)) :=
    agrees_laid (fun k hk => rfl) (by omega) _
  by_cases hNone : length.toNat = 4 * (length.toNat / 4)
  · rw [run_storeRest_none hNone] at hEnds
    cases hEnds
    exact ⟨by omega, _, rfl, hLaid⟩
  · have hLast : 4 * (length.toNat / 4) < swept length := by omega
    have hLeads := leads_written bytes hAlign hSteady
      (m := length.toNat / 4) (fun k hk => rfl) hLast.le hLast
    by_cases hOne : length.toNat = 4 * (length.toNat / 4) + 1
    · rw [run_storeRest_one hAlign hLaw hOne hLeads] at hEnds
      rw [Target.stored, Target.written, hLaw.setRam_setRam, hLaw.ram_setRam] at hEnds
      cases hEnds
      exact ⟨by omega, _, rfl, hLaid.update (hSwept ▸ hLast) rfl _⟩
    · rw [run_storeRest_more hAlign hLaw (by omega) hLeads] at hEnds
      cases hEnds

variable {addr len data rest : Text} (hLaw : t.Lawful) (hRange : t.Range s vaddr length.toNat loc)
variable (hAddr : Number addr vaddr) (hLen : Number len length)
variable (hData : data.length = 2 * length.toNat) (hHex : ∀ c ∈ data, IsHex c)
variable (hFits : data.length < buflen)

include hLaw hRange hAddr hLen hData hHex hFits

theorem roundTrip_of_wholeWords (hWhole : t.WholeWords vaddr length.toNat loc data) :
    t.RoundTrip host s vaddr length.toNat loc addr len data rest := by
  rcases hWhole with hZero | ⟨hAlign, hWords, hLower, hSame⟩
  · obtain rfl : length = 0 := BitVec.eq_of_toNat_eq hZero
    obtain rfl : data = [] := List.eq_nil_of_length_eq_zero hData
    refine ⟨1, 1, s, s, ?_, ?_, fun _ _ _ _ => rfl⟩
    · rw [debugWriteMem_numbers hAddr hLen, writeRange_empty]
      rfl
    · rw [debugReadMem_numbers hAddr hLen]
      exact readRange_empty
  · have hSmall : length.toNat < 512 := by
      simp only [buflen] at hFits
      omega
    have hAll := not_all_of_small hSmall
    have hSwept : swept length = length.toNat := if_neg hAll
    have hSteady := hRange true
    rw [← hSwept] at hSteady
    have hDatawords : ∀ k < length.toNat / 4,
        dataword t (databyte (data ++ 0 :: rest)) k = dataword t (databyte data) k :=
      fun k hk => dataword_congr fun j hj => databyte_append hData hHex (by omega) _
    have hWhole : length.toNat = 4 * (length.toNat / 4) := by omega
    have hKept := kept_written s loc hLaw hAlign (databyte (data ++ 0 :: rest)) hWhole
    refine ⟨length.toNat / 4 + 1, length.toNat / 4 + 1, t.written s (fun va => some (loc va)) vaddr
      (databyte (data ++ 0 :: rest)) (length.toNat / 4), _, ?_, ?_, hKept⟩
    · rw [debugWriteMem_numbers hAddr hLen,
        writeRange_whole _ _ hAlign hLaw hSteady hAll rfl fun k hk => rfl,
        run_storeRest_none hWhole]
    · have hBytes : ∀ k < length.toNat, t.byteAt (t.written s (fun va => some (loc va)) vaddr
          (databyte (data ++ 0 :: rest)) (length.toNat / 4)) (fun k => loc (wordOf vaddr (4 * k))) k =
          databyte (data ++ 0 :: rest) k := by
        intro k hk
        apply byteAt_written hLaw
        case hk => omega
        intro i hi j hj hLoc
        rw [hDatawords i hi, hDatawords j hj]
        exact hSame i hi j hj hLoc
      have hShort : 8 * (length.toNat / 4) < buflen := by omega
      rw [debugReadMem_numbers hAddr hLen, readRange_whole (m := length.toNat / 4) hAlign hLaw
        (fun k hk => leads_read_written hAlign hRange (by omega) (by omega)) (by omega)
        (fun k hk => by omega) (by omega), shown_small hShort, ← hWhole,
        List.flatMap_congr fun k hk => congrArg byteText (hBytes k (List.mem_range.mp hk)),
        flatMap_databyte hData hHex, hLower]

omit hLaw hRange hAddr hLen in
/-- The words that are shown tell where the range stands and what the data is. -/
theorem wholeWords_of_shown (hAlign : vaddr &&& 0x3 = 0) (hWords : length.toNat % 4 = 0)
    (hShown : data = t.shown s' (fun k => loc (wordOf vaddr (4 * k))) (length.toNat / 4)) :
    t.WholeWords vaddr length.toNat loc data := by
  have hWhole : 4 * (length.toNat / 4) = length.toNat := by omega
  have hShort : 8 * (length.toNat / 4) < buflen := by omega
  rw [shown_small hShort, hWhole] at hShown
  have hBytes : ∀ k < length.toNat,
      databyte data k = t.byteAt s' (fun k => loc (wordOf vaddr (4 * k))) k := by
    intro k hk
    have hText := databyte_text hk (t.byteAt s' fun k => loc (wordOf vaddr (4 * k))) []
    rwa [← hShown, List.append_nil] at hText
  refine .inr ⟨hAlign, hWords, ?_, ?_⟩
  · have hLower := flatMap_databyte hData hHex []
    rw [List.append_nil, List.flatMap_congr fun k hk =>
      congrArg byteText (hBytes k (List.mem_range.mp hk)), ← hShown] at hLower
    exact hLower.symm
  · have hStands : ∀ j < length.toNat / 4,
        dataword t (databyte data) j = t.ram s' (loc (wordOf vaddr (4 * j))) := by
      intro j hj
      rw [← Order.word_byte t.order (t.ram s' (loc (wordOf vaddr (4 * j))))]
      apply Order.word_congr
      intro k hk
      have hDiv : (4 * j + k) / 4 = j := by omega
      have hMod : (4 * j + k) % 4 = k := by omega
      rw [hBytes _ (by omega), Target.byteAt, hDiv, hMod]
    intro j hj k hk hLoc
    rw [hStands j hj, hStands k hk, hLoc]

theorem wholeWords_of_roundTrip
    (hTrip : t.RoundTrip host s vaddr length.toNat loc addr len data rest) :
    t.WholeWords vaddr length.toNat loc data := by
  obtain ⟨turns, turns', s', s'', hWrite, hRead, -⟩ := hTrip
  rw [debugWriteMem_numbers hAddr hLen] at hWrite
  rw [debugReadMem_numbers hAddr hLen] at hRead
  by_cases hZero : length = 0
  · exact .inl (congrArg BitVec.toNat hZero)
  have hAlign : vaddr &&& 0x3 = 0 := by
    by_contra hAlign
    rw [writeRange_unaligned hLaw hAlign hZero] at hWrite
    cases hWrite
  have hSmall : length.toNat < 512 := by
    simp only [buflen] at hFits
    omega
  have hAll := not_all_of_small hSmall
  obtain ⟨hRest, ram, rfl, hAgrees⟩ := state_of_written hLaw hAlign hAll (hRange true) hWrite
  have hShown := readRange_ends hAlign hLaw (m := (length.toNat + 3) / 4)
    (fun k hk => leads_read hAlign hRange hAgrees (by omega)) (by omega) (fun k hk => by omega)
    (by omega) hRead
  have hLength := congrArg List.length hShown
  rw [length_shown, hData] at hLength
  have hWords : length.toNat % 4 = 0 := by
    simp only [buflen] at hLength
    omega
  have hCount : (length.toNat + 3) / 4 = length.toNat / 4 := by omega
  rw [hCount] at hShown
  exact wholeWords_of_shown hData hHex hFits hAlign hWords hShown

end RoundTrip

/-- Which ranges come back as they were written, and which writes leave memory as it is where they
are refused. -/
def Target.MemoryExact (t : Target ε σ) (host : Order) : Prop :=
  (∀ s vaddr (length : Word) loc addr len data rest, t.Range s vaddr length.toNat loc →
    Number addr vaddr → Number len length → data.length = 2 * length.toNat →
    (∀ c ∈ data, IsHex c) → data.length < buflen →
      (t.RoundTrip host s vaddr length.toNat loc addr len data rest ↔
        t.WholeWords vaddr length.toNat loc data)) ∧
  ∀ s vaddr length loc, t.Steady s true vaddr (swept length) loc →
    (t.ErrorKeeps host s vaddr length ↔ Unbroken loc vaddr length)

theorem Target.Lawful.memoryExact (hLaw : t.Lawful) (host : Order) : t.MemoryExact host := by
  constructor
  · intro s vaddr length loc addr len data rest hRange hAddr hLen hData hHex hFits
    constructor
    · exact wholeWords_of_roundTrip hLaw hRange hAddr hLen hData hHex hFits
    · exact roundTrip_of_wholeWords hLaw hRange hAddr hLen hData hHex hFits
  · intro s vaddr length loc hSteady
    exact errorKeeps_iff hLaw hSteady

end Sys161.Gdb
