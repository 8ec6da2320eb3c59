import Sys161.Gdb.Memory
import Sys161.Lib.PageBits

/-!
# Ranges of memory

A range of addresses that is translated to main memory, whatever it holds. The
words of a range that begins at a word are written and read one after the other.
-/

namespace Sys161.Gdb

open ByteOrder CString Exec Hex

set_option autoImplicit false

variable {ε σ : Type}

/-- A core with its translation of addresses and its main memory. -/
structure Target (ε σ : Type) extends Cpudebug ε σ where
  translate : Word → Bool → EStateM ε σ (Option Word)
  /-- The word of main memory at a physical address. -/
  place : Word → Option (BitVec 30)
  ram : σ → BitVec 30 → Word
  setRam : σ → (BitVec 30 → Word) → σ

/-- The word that a byte of a range is in. -/
def wordOf (vaddr : Word) (k : Nat) : Word := (vaddr + BitVec.ofNat 32 k) &&& 0xfffffffc

namespace Target

variable (t : Target ε σ)

/-- An address is translated, to a word of main memory if to any, and nothing else happens. -/
def Leads (s : σ) (iswrite : Bool) (va : Word) (loc : Option (BitVec 30)) : Prop :=
  ∃ pa, (t.translate va iswrite).run s = .ok pa s ∧ (∀ p ∈ pa, p &&& 0x3 = 0) ∧
    pa.bind t.place = loc

/-- Main memory but for the words that a range is translated to. -/
def Agrees (s : σ) (vaddr : Word) (n : Nat) (loc : Word → Option (BitVec 30))
    (ram : BitVec 30 → Word) : Prop :=
  ∀ ix, (∀ k < n, loc (wordOf vaddr k) ≠ some ix) → ram ix = t.ram s ix

/-- The range is translated, whatever stands in main memory where it leads. -/
def Steady (s : σ) (iswrite : Bool) (vaddr : Word) (n : Nat) (loc : Word → Option (BitVec 30)) :
    Prop :=
  ∀ ram, t.Agrees s vaddr n loc ram →
    ∀ k < n, t.Leads (t.setRam s ram) iswrite (wordOf vaddr k) (loc (wordOf vaddr k))

/-- What comes of a store to a place, if there is one. -/
def storing (s : σ) (loc : Option (BitVec 30)) (f : Word → Word) : EStateM.Result ε σ Bool :=
  match loc with
  | none => .ok false s
  | some ix => .ok true (t.setRam s (Function.update (t.ram s) ix (f (t.ram s ix))))

/-- The accessors go where the translation leads. A byte that does not begin a word cannot be
stored. -/
structure Lawful : Prop where
  ram_setRam : ∀ s ram, t.ram (t.setRam s ram) = ram
  setRam_ram : ∀ s, t.setRam s (t.ram s) = s
  setRam_setRam : ∀ s ram ram', t.setRam (t.setRam s ram) ram' = t.setRam s ram'
  storeByte_odd : ∀ s va b, va &&& 0x3 ≠ 0 → (t.storeByte va b).run s = .ok false s
  storeByte : ∀ s va b loc, va &&& 0x3 = 0 → t.Leads s true va loc →
    (t.storeByte va b).run s = t.storing s loc fun w => t.order.setByte w 0 b
  storeWord : ∀ s va w loc, t.Leads s true va loc →
    (t.storeWord va w).run s = t.storing s loc fun _ => w
  fetchWord : ∀ s va loc, t.Leads s false va loc →
    (t.fetchWord va).run s = .ok (loc.map (t.ram s)) s

end Target

/-! ## Words laid down one after the other -/

section Laid

variable (loc : Nat → BitVec 30) (word : Nat → Word) (ram : BitVec 30 → Word)

/-- Main memory with so many words stored. -/
def laid : Nat → BitVec 30 → Word
  | 0 => ram
  | m + 1 => Function.update (laid m) (loc m) (word m)

theorem laid_outside {m : Nat} {ix : BitVec 30} (h : ∀ k < m, loc k ≠ ix) :
    laid loc word ram m ix = ram ix := by
  induction m with
  | zero => rfl
  | succ m ih =>
    rw [laid, Function.update_of_ne (h m (by omega)).symm]
    exact ih fun k hk => h k (by omega)

/-- Where a word has been stored, the last one stored there is found. -/
theorem laid_last {k m : Nat} (hk : k < m) :
    ∃ j, k ≤ j ∧ j < m ∧ loc j = loc k ∧ laid loc word ram m (loc k) = word j := by
  induction m with
  | zero => omega
  | succ m ih =>
    by_cases hSame : loc m = loc k
    · refine ⟨m, by omega, by omega, hSame, ?_⟩
      rw [laid, hSame, Function.update_self]
    · have hBefore : k < m := by
        rcases Nat.lt_succ_iff_lt_or_eq.mp hk with h | rfl
        · exact h
        · exact absurd rfl hSame
      obtain ⟨j, hkj, hjm, hLoc, hWord⟩ := ih hBefore
      refine ⟨j, hkj, by omega, hLoc, ?_⟩
      rw [laid, Function.update_of_ne (Ne.symm hSame)]
      exact hWord

end Laid

/-! ## Words of a range -/

theorem wordOf_words {vaddr : Word} (hAlign : vaddr &&& 0x3 = 0) (k : Nat) :
    wordOf vaddr (4 * k) = vaddr + BitVec.ofNat 32 (4 * k) := by
  have hNat := congrArg BitVec.toNat hAlign
  rw [PageBits.toNat_align] at hNat
  change vaddr.toNat % 4 = 0 at hNat
  apply BitVec.eq_of_toNat_eq
  rw [wordOf, PageBits.toNat_word, BitVec.toNat_add, BitVec.toNat_ofNat]
  omega

theorem byteOf_words {vaddr : Word} (hAlign : vaddr &&& 0x3 = 0) {k j : Nat} (hj : j < 4) :
    wordOf vaddr (4 * k + j) = wordOf vaddr (4 * k) ∧
      ((vaddr + BitVec.ofNat 32 (4 * k + j)) &&& 0x3).toNat = j := by
  have hNat := congrArg BitVec.toNat hAlign
  rw [PageBits.toNat_align] at hNat
  change vaddr.toNat % 4 = 0 at hNat
  constructor
  · apply BitVec.eq_of_toNat_eq
    rw [wordOf, wordOf, PageBits.toNat_word, PageBits.toNat_word, BitVec.toNat_add,
      BitVec.toNat_add, BitVec.toNat_ofNat, BitVec.toNat_ofNat]
    omega
  · rw [PageBits.toNat_align, BitVec.toNat_add, BitVec.toNat_ofNat]
    omega

theorem ofNat_words_succ (k : Nat) :
    (BitVec.ofNat 32 (4 * k) + 4 : Word) = BitVec.ofNat 32 (4 * (k + 1)) := by
  apply BitVec.eq_of_toNat_eq
  simp [Nat.mul_succ]

theorem align_words {vaddr : Word} (hAlign : vaddr &&& 0x3 = 0) (k : Nat) :
    (vaddr + BitVec.ofNat 32 (4 * k)) &&& 0x3 = 0 := by
  have hNat := congrArg BitVec.toNat hAlign
  rw [PageBits.toNat_align] at hNat
  change vaddr.toNat % 4 = 0 at hNat
  apply BitVec.eq_of_toNat_eq
  rw [PageBits.toNat_align, BitVec.toNat_add, BitVec.toNat_ofNat]
  change _ = 0
  omega

/-- The byte behind the first one of a word does not begin a word. -/
theorem align_words_succ {vaddr : Word} (hAlign : vaddr &&& 0x3 = 0) (k : Nat) :
    (vaddr + (BitVec.ofNat 32 (4 * k) + 1)) &&& 0x3 ≠ 0 := by
  have hNat := congrArg BitVec.toNat hAlign
  rw [PageBits.toNat_align] at hNat
  change vaddr.toNat % 4 = 0 at hNat
  intro h
  replace h := congrArg BitVec.toNat h
  rw [PageBits.toNat_align, BitVec.toNat_add, BitVec.toNat_add, BitVec.toNat_ofNat] at h
  change (_ + (_ + 1) % 2 ^ 32) % 2 ^ 32 % 4 = 0 at h
  omega

/-- How far a write goes. Where the length is next to the end of the address space the index of
the loop over words starts over. -/
def swept (length : Word) : Nat := if 0xfffffffc ≤ length then 2 ^ 32 else length.toNat

theorem swept_le (length : Word) : swept length ≤ 2 ^ 32 := by
  unfold swept
  split
  · exact le_rfl
  · exact length.isLt.le

theorem swept_le_add (length : Word) : swept length ≤ length.toNat + 4 := by
  unfold swept
  split
  next hAll =>
    rw [BitVec.le_def] at hAll
    change 4294967292 ≤ length.toNat at hAll
    omega
  next => omega

theorem swept_pos {length : Word} (h : length ≠ 0) : 0 < swept length := by
  have hNe : length.toNat ≠ 0 := fun hZero => h (BitVec.eq_of_toNat_eq hZero)
  unfold swept
  split <;> omega

theorem word_le {length : Word} {k : Nat} (h : 4 * k + 4 ≤ swept length) :
    (BitVec.ofNat 32 (4 * k) + 4 : Word) ≤ length := by
  have hLt := length.isLt
  rw [BitVec.le_def, BitVec.toNat_add, BitVec.toNat_ofNat]
  change (_ + 4) % 2 ^ 32 ≤ _
  unfold swept at h
  split at h
  next hAll =>
    rw [BitVec.le_def] at hAll
    change 4294967292 ≤ length.toNat at hAll
    omega
  next => omega

theorem not_word_le {length : Word} {k : Nat} (hAll : ¬0xfffffffc ≤ length)
    (h : length.toNat < 4 * k + 4) (hk : 4 * k ≤ length.toNat) :
    ¬(BitVec.ofNat 32 (4 * k) + 4 : Word) ≤ length := by
  rw [BitVec.le_def] at hAll ⊢
  rw [BitVec.toNat_add, BitVec.toNat_ofNat]
  change ¬4294967292 ≤ length.toNat at hAll
  change ¬(_ + 4) % 2 ^ 32 ≤ _
  omega

/-- The place of a word of the range, where it has one. -/
def wordPlace (loc : Word → Option (BitVec 30)) (vaddr : Word) (k : Nat) : BitVec 30 :=
  (loc (wordOf vaddr (4 * k))).getD 0

theorem loc_wordOf {loc : Word → Option (BitVec 30)} {vaddr : Word} {k : Nat}
    (h : (loc (wordOf vaddr (4 * k))).isSome) :
    loc (wordOf vaddr (4 * k)) = some (wordPlace loc vaddr k) := by
  obtain ⟨ix, hIx⟩ := Option.isSome_iff_exists.mp h
  rw [wordPlace, hIx]
  rfl

theorem Target.Agrees.update {t : Target ε σ} {s : σ} {vaddr : Word} {n k : Nat}
    {loc : Word → Option (BitVec 30)} {ram : BitVec 30 → Word} (h : t.Agrees s vaddr n loc ram)
    (hk : k < n) {ix : BitVec 30} (hLoc : loc (wordOf vaddr k) = some ix) (w : Word) :
    t.Agrees s vaddr n loc (Function.update ram ix w) := by
  intro ix' hOut
  have hNe : ix' ≠ ix := by
    rintro rfl
    exact hOut k hk hLoc
  rw [Function.update_of_ne hNe]
  exact h ix' hOut

theorem Target.Steady.setRam {t : Target ε σ} (hLaw : t.Lawful) {s : σ} {iswrite : Bool}
    {vaddr : Word} {n : Nat} {loc : Word → Option (BitVec 30)} {ram : BitVec 30 → Word}
    (h : t.Steady s iswrite vaddr n loc) (hAgrees : t.Agrees s vaddr n loc ram) :
    t.Steady (t.setRam s ram) iswrite vaddr n loc := by
  intro ram' hAgrees' k hk
  rw [hLaw.setRam_setRam]
  apply h ram' _ k hk
  intro ix hOut
  rw [hAgrees' ix hOut, hLaw.ram_setRam, hAgrees ix hOut]

/-- Only where the words of the range lead counts. -/
theorem Target.Steady.congr {t : Target ε σ} {s : σ} {iswrite : Bool} {vaddr : Word} {n : Nat}
    {loc loc' : Word → Option (BitVec 30)} (h : t.Steady s iswrite vaddr n loc)
    (hSame : ∀ k < n, loc (wordOf vaddr k) = loc' (wordOf vaddr k)) :
    t.Steady s iswrite vaddr n loc' := by
  intro ram hAgrees k hk
  rw [← hSame k hk]
  apply h ram _ k hk
  intro ix hOut
  apply hAgrees ix
  intro j hj
  rw [← hSame j hj]
  exact hOut j hj

/-! ## Writing -/

/-- A word of the data. -/
def dataword (t : Target ε σ) (bytes : Nat → BitVec 8) (k : Nat) : Word :=
  t.order.word fun j => bytes (4 * k + j)

/-- The state with so many words of the data stored. -/
def Target.written (t : Target ε σ) (s : σ) (loc : Word → Option (BitVec 30)) (vaddr : Word)
    (bytes : Nat → BitVec 8) (m : Nat) : σ :=
  t.setRam s (laid (wordPlace loc vaddr) (dataword t bytes) (t.ram s) m)

/-- The state with the first byte of a word stored. -/
def Target.stored (t : Target ε σ) (s : σ) (ix : BitVec 30) (b : BitVec 8) : σ :=
  t.setRam s (Function.update (t.ram s) ix (t.order.setByte (t.ram s ix) 0 b))

section Write

variable {t : Target ε σ} {s s' : σ} {host : Order} {vaddr length : Word}
variable {bytes : Nat → BitVec 8} {turns : Nat} {loc : Word → Option (BitVec 30)}

theorem storeRest_done {i j : Word}
    (h : (storeBytes t.toCpudebug vaddr bytes (fun i => i < length) 3 i).run s =
      .ok (.done j) s') :
    (storeRest t.toCpudebug vaddr length bytes i).run s = .ok (some replyOk) s' := by
  rw [storeRest, EStateM.run_bind, h]
  rfl

theorem storeRest_refused {i : Word}
    (h : (storeBytes t.toCpudebug vaddr bytes (fun i => i < length) 3 i).run s =
      .ok .refused s') :
    (storeRest t.toCpudebug vaddr length bytes i).run s = .ok (some replyE03) s' := by
  rw [storeRest, EStateM.run_bind, h]
  rfl

theorem writeRange_unaligned (hLaw : t.Lawful) (hAlign : vaddr &&& 0x3 ≠ 0)
    (hLength : length ≠ 0) :
    (writeRange t.toCpudebug host vaddr length bytes turns).run s = .ok (some replyE03) s := by
  have hOdd : (vaddr + 0) &&& 0x3 ≠ 0 := by rwa [add_zero]
  have hPos : 0 < length := by bv_omega
  have hGo : (fun i : Word => decide (i < length ∧ (vaddr + i) &&& 0x3 ≠ 0)) 0 = true :=
    decide_eq_true ⟨hPos, hOdd⟩
  have hStore := hLaw.storeByte_odd s (vaddr + 0) (bytes (0 : Word).toNat) hOdd
  rw [writeRange, EStateM.run_bind, storeBytes_refused hGo hStore]
  rfl

theorem writeRange_empty :
    (writeRange t.toCpudebug host vaddr 0 bytes turns).run s =
      .ok (if turns = 0 then none else some replyOk) s := by
  cases turns with
  | zero => rfl
  | succ turns => rfl

section Aligned

variable (hAlign : vaddr &&& 0x3 = 0)

include hAlign

theorem writeRange_aligned :
    (writeRange t.toCpudebug host vaddr length bytes turns).run s =
      match (storeWords t.toCpudebug host vaddr length bytes turns 0).run s with
      | .ok .running s' => .ok none s'
      | .ok .refused s' => .ok (some replyE03) s'
      | .ok (.done i) s' => (storeRest t.toCpudebug vaddr length bytes i).run s'
      | .error e s' => .error e s' := by
  have hStop : (fun i : Word => decide (i < length ∧ (vaddr + i) &&& 0x3 ≠ 0)) 0 = false := by
    apply decide_eq_false
    rintro ⟨-, hOdd⟩
    rw [add_zero] at hOdd
    exact hOdd hAlign
  rw [writeRange, EStateM.run_bind, storeBytes_stop hStop]
  dsimp only
  rw [EStateM.run_bind]
  rcases (storeWords t.toCpudebug host vaddr length bytes turns 0).run s with
    ⟨_ | _ | _, _⟩ | _ <;> rfl

variable (hLaw : t.Lawful) (hSteady : t.Steady s true vaddr (swept length) loc)

omit hAlign in
theorem agrees_laid {m n : Nat} (hOpen : ∀ k < m, (loc (wordOf vaddr (4 * k))).isSome)
    (hm : 4 * m ≤ n) (word : Nat → Word) :
    t.Agrees s vaddr n loc (laid (wordPlace loc vaddr) word (t.ram s) m) := by
  induction m with
  | zero => exact fun _ _ => rfl
  | succ m ih =>
    exact (ih (fun k hk => hOpen k (by omega)) (by omega)).update (by omega)
      (loc_wordOf (hOpen m (by omega))) _

include hSteady

variable (bytes) in
/-- Words of the range are translated as before. -/
theorem leads_written {m k : Nat} (hOpen : ∀ k < m, (loc (wordOf vaddr (4 * k))).isSome)
    (hm : 4 * m ≤ swept length) (hk : 4 * k < swept length) :
    t.Leads (t.written s loc vaddr bytes m) true (vaddr + BitVec.ofNat 32 (4 * k))
      (loc (wordOf vaddr (4 * k))) := by
  rw [← wordOf_words hAlign]
  exact hSteady _ (agrees_laid hOpen hm (dataword t bytes)) (4 * k) hk

include hLaw

variable (host bytes) in
/-- So many words are stored where they are translated to. -/
theorem run_storeWords {m : Nat} (hOpen : ∀ k < m, (loc (wordOf vaddr (4 * k))).isSome)
    (hm : 4 * m ≤ swept length) (turns : Nat) :
    (storeWords t.toCpudebug host vaddr length bytes (m + turns) 0).run s =
      (storeWords t.toCpudebug host vaddr length bytes turns (BitVec.ofNat 32 (4 * m))).run
        (t.written s loc vaddr bytes m) := by
  induction m generalizing turns with
  | zero =>
    rw [Target.written, laid, hLaw.setRam_ram, Nat.zero_add]
    rfl
  | succ m ih =>
    have hBefore : ∀ k < m, (loc (wordOf vaddr (4 * k))).isSome := fun k hk => hOpen k (by omega)
    have hLeads := leads_written bytes hAlign hSteady hBefore (by omega)
      (show 4 * m < swept length by omega)
    rw [loc_wordOf (hOpen m (by omega))] at hLeads
    have hLe := swept_le length
    have hIndex : (BitVec.ofNat 32 (4 * m)).toNat = 4 * m := by
      rw [BitVec.toNat_ofNat]
      omega
    have hStore := hLaw.storeWord _ _
      (t.order.word fun k => bytes ((BitVec.ofNat 32 (4 * m)).toNat + k)) _ hLeads
    have hTurns : m + 1 + turns = m + (turns + 1) := by omega
    rw [hTurns, ih hBefore (by omega), storeWords_stored (word_le (by omega)) hStore,
      ofNat_words_succ, hIndex]
    rw [Target.written, hLaw.setRam_setRam, hLaw.ram_setRam]
    rfl

/-! What is left after the last whole word. -/

omit hSteady

section Rest

variable {q : Nat} {ix : BitVec 30}

omit hAlign hLaw in
theorem run_storeRest_none (hLength : length.toNat = 4 * q) :
    (storeRest t.toCpudebug vaddr length bytes (BitVec.ofNat 32 (4 * q))).run s =
      .ok (some replyOk) s := by
  apply storeRest_done
  apply storeBytes_stop
  apply decide_eq_false
  rw [BitVec.lt_def, BitVec.toNat_ofNat]
  omega

theorem storeBytes_rest (hLength : 4 * q < length.toNat)
    (hLeads : t.Leads s true (vaddr + BitVec.ofNat 32 (4 * q)) (some ix)) :
    (storeBytes t.toCpudebug vaddr bytes (fun i => i < length) 3 (BitVec.ofNat 32 (4 * q))).run s =
      (storeBytes t.toCpudebug vaddr bytes (fun i => i < length) 2
        (BitVec.ofNat 32 (4 * q) + 1)).run (t.stored s ix (bytes (4 * q))) := by
  have hLt := length.isLt
  have hIndex : (BitVec.ofNat 32 (4 * q)).toNat = 4 * q := by
    rw [BitVec.toNat_ofNat]
    omega
  have hIn : BitVec.ofNat 32 (4 * q) < length := by rwa [BitVec.lt_def, hIndex]
  have hStore := hLaw.storeByte s _ (bytes (BitVec.ofNat 32 (4 * q)).toNat) (some ix)
    (align_words hAlign q) hLeads
  rw [storeBytes_stored (decide_eq_true hIn) hStore, hIndex]
  rfl

theorem run_storeRest_one (hLength : length.toNat = 4 * q + 1)
    (hLeads : t.Leads s true (vaddr + BitVec.ofNat 32 (4 * q)) (some ix)) :
    (storeRest t.toCpudebug vaddr length bytes (BitVec.ofNat 32 (4 * q))).run s =
      .ok (some replyOk) (t.stored s ix (bytes (4 * q))) := by
  apply storeRest_done
  rw [storeBytes_rest hAlign hLaw (by omega) hLeads]
  apply storeBytes_stop
  apply decide_eq_false
  rw [BitVec.lt_def, BitVec.toNat_add, BitVec.toNat_ofNat]
  change ¬(_ + 1) % 2 ^ 32 < _
  omega

/-- The second byte is refused; it does not begin a word. -/
theorem run_storeRest_more (hLength : 4 * q + 1 < length.toNat)
    (hLeads : t.Leads s true (vaddr + BitVec.ofNat 32 (4 * q)) (some ix)) :
    (storeRest t.toCpudebug vaddr length bytes (BitVec.ofNat 32 (4 * q))).run s =
      .ok (some replyE03) (t.stored s ix (bytes (4 * q))) := by
  have hIn : BitVec.ofNat 32 (4 * q) + 1 < length := by
    have hLt := length.isLt
    rw [BitVec.lt_def, BitVec.toNat_add, BitVec.toNat_ofNat]
    change (_ + 1) % 2 ^ 32 < _
    omega
  apply storeRest_refused
  rw [storeBytes_rest hAlign hLaw (by omega) hLeads]
  apply storeBytes_refused (decide_eq_true hIn)
  exact hLaw.storeByte_odd _ _ _ (align_words_succ hAlign q)

theorem run_storeRest_refused (hLength : 4 * q < length.toNat)
    (hLeads : t.Leads s true (vaddr + BitVec.ofNat 32 (4 * q)) none) :
    (storeRest t.toCpudebug vaddr length bytes (BitVec.ofNat 32 (4 * q))).run s =
      .ok (some replyE03) s := by
  have hIn : BitVec.ofNat 32 (4 * q) < length := by
    have hLt := length.isLt
    rw [BitVec.lt_def, BitVec.toNat_ofNat]
    omega
  apply storeRest_refused
  apply storeBytes_refused (decide_eq_true hIn)
  exact hLaw.storeByte _ _ _ none (align_words hAlign q) hLeads

end Rest

/-! The whole of a write. -/

include hSteady

theorem writeRange_running {m : Nat} (hOpen : ∀ k < m, (loc (wordOf vaddr (4 * k))).isSome)
    (hm : 4 * m ≤ swept length) :
    (writeRange t.toCpudebug host vaddr length bytes m).run s =
      .ok none (t.written s loc vaddr bytes m) := by
  have hRun := run_storeWords host bytes hAlign hLaw hSteady hOpen hm 0
  rw [Nat.add_zero] at hRun
  rw [writeRange_aligned hAlign, hRun]
  rfl

variable (host bytes) in
/-- A word that is translated to no memory is refused, when the words before it are stored. -/
theorem writeRange_refused {k : Nat} (hOpen : ∀ j < k, (loc (wordOf vaddr (4 * j))).isSome)
    (hk : 4 * k < swept length) (hNone : loc (wordOf vaddr (4 * k)) = none) (turns : Nat) :
    (writeRange t.toCpudebug host vaddr length bytes (k + (turns + 1))).run s =
      .ok (some replyE03) (t.written s loc vaddr bytes k) := by
  have hRun := run_storeWords host bytes hAlign hLaw hSteady hOpen hk.le
    (turns + 1)
  have hLeads := leads_written bytes hAlign hSteady hOpen hk.le hk
  rw [hNone] at hLeads
  rw [writeRange_aligned hAlign, hRun]
  by_cases hWhole : 4 * k + 4 ≤ swept length
  · rw [storeWords_refused (word_le hWhole) (hLaw.storeWord _ _ _ none hLeads)]
  · have hAll : ¬0xfffffffc ≤ length := by
      intro hAll
      rw [swept, if_pos hAll] at hk hWhole
      omega
    rw [swept, if_neg hAll] at hk hWhole
    rw [storeWords_stop (not_word_le hAll (by omega) hk.le)]
    exact run_storeRest_refused hAlign hLaw hk hLeads

/-- An answer comes when every whole word is stored. -/
theorem writeRange_ends {q : Nat} (hAll : ¬0xfffffffc ≤ length) (hq : length.toNat / 4 = q)
    (hOpen : ∀ k < q, (loc (wordOf vaddr (4 * k))).isSome) {reply : Text}
    (hRun : (writeRange t.toCpudebug host vaddr length bytes turns).run s = .ok (some reply) s') :
    (storeRest t.toCpudebug vaddr length bytes (BitVec.ofNat 32 (4 * q))).run
      (t.written s loc vaddr bytes q) = .ok (some reply) s' := by
  have hSwept : swept length = length.toNat := if_neg hAll
  by_cases hTurns : turns ≤ q
  · rw [writeRange_running hAlign hLaw hSteady (fun k hk => hOpen k (by omega)) (by omega)] at hRun
    cases hRun
  · obtain ⟨n, rfl⟩ : ∃ n, turns = q + (n + 1) := ⟨turns - q - 1, by omega⟩
    rw [writeRange_aligned hAlign, run_storeWords host bytes hAlign hLaw hSteady hOpen (by omega),
      storeWords_stop (not_word_le hAll (by omega) (by omega))] at hRun
    exact hRun

variable (host bytes) in
theorem writeRange_whole {q : Nat} (hAll : ¬0xfffffffc ≤ length) (hq : length.toNat / 4 = q)
    (hOpen : ∀ k < q, (loc (wordOf vaddr (4 * k))).isSome) :
    (writeRange t.toCpudebug host vaddr length bytes (q + 1)).run s =
      (storeRest t.toCpudebug vaddr length bytes (BitVec.ofNat 32 (4 * q))).run
        (t.written s loc vaddr bytes q) := by
  have hSwept : swept length = length.toNat := if_neg hAll
  rw [writeRange_aligned hAlign, run_storeWords host bytes hAlign hLaw hSteady hOpen (by omega),
    storeWords_stop (not_word_le hAll (by omega) (by omega))]

variable (host bytes turns) in
/-- A write over the whole address space does not come to an end. -/
theorem storeWords_all (hAll : 0xfffffffc ≤ length)
    (hOpen : ∀ k < 2 ^ 30, (loc (wordOf vaddr (4 * k))).isSome) :
    ∃ s', (storeWords t.toCpudebug host vaddr length bytes turns 0).run s = .ok .running s' := by
  have hSwept : swept length = 4 * 2 ^ 30 := if_pos hAll
  induction turns using Nat.strong_induction_on generalizing s with
  | _ turns ih =>
    by_cases hFew : turns ≤ 2 ^ 30
    · have hRun := run_storeWords host bytes hAlign hLaw hSteady
        (fun k hk => hOpen k (by omega)) (show 4 * turns ≤ swept length by omega) 0
      exact ⟨_, hRun⟩
    · have hTurns : turns = 2 ^ 30 + (turns - 2 ^ 30) := by omega
      rw [hTurns, run_storeWords host bytes hAlign hLaw hSteady hOpen hSwept.ge]
      exact ih _ (by omega) (hSteady.setRam hLaw (agrees_laid hOpen hSwept.ge _))

end Aligned

end Write

/-! ## Reading -/

/-- A byte of words of main memory. -/
def Target.byteAt (t : Target ε σ) (s : σ) (lc : Nat → BitVec 30) (k : Nat) : BitVec 8 :=
  t.order.byte (t.ram s (lc (k / 4))) (k % 4)

/-- The text of so many words of main memory. -/
def Target.shown (t : Target ε σ) (s : σ) (lc : Nat → BitVec 30) (m : Nat) : Text :=
  ((List.range (4 * m)).flatMap fun k => byteText (t.byteAt s lc k)).take (buflen - 1)

section Read

variable {t : Target ε σ} {s s' : σ} {host : Order} {vaddr length : Word} {turns : Nat}
variable {lc : Nat → BitVec 30}

theorem printword_shown (m : Nat) :
    printword (t.shown s lc m) (Order.big.word (t.order.byte (t.ram s (lc m)))) =
      t.shown s lc (m + 1) := by
  have hWord : wordText (Order.big.word (t.order.byte (t.ram s (lc m)))) =
      ((List.range 4).map (4 * m + ·)).flatMap fun k => byteText (t.byteAt s lc k) := by
    rw [wordText_eq, List.flatMap_map]
    apply List.flatMap_congr
    intro k hk
    have hk' := List.mem_range.mp hk
    have hDiv : (4 * m + k) / 4 = m := by omega
    have hMod : (4 * m + k) % 4 = k := by omega
    rw [Order.byte_word .big _ hk', Target.byteAt, hDiv, hMod]
  rw [printword, Target.shown, Target.shown, Nat.mul_succ, List.range_add, List.flatMap_append,
    hWord, List.take_append, List.take_append, List.take_take, List.length_take]
  congr 2
  omega

theorem shown_small {m : Nat} (hm : 8 * m < buflen) :
    t.shown s lc m = (List.range (4 * m)).flatMap fun k => byteText (t.byteAt s lc k) := by
  have hLength := (text_of_bytes (4 * m) (t.byteAt s lc)).1
  apply List.take_of_length_le
  rw [hLength]
  omega

theorem length_shown (m : Nat) : (t.shown s lc m).length = min (buflen - 1) (8 * m) := by
  have hLength := (text_of_bytes (4 * m) (t.byteAt s lc)).1
  rw [Target.shown, List.length_take, hLength]
  omega

theorem readRange_empty :
    (readRange t.toCpudebug host vaddr 0 (turns + 1)).run s = .ok (some []) s := rfl

variable (hAlign : vaddr &&& 0x3 = 0) (hLaw : t.Lawful)
variable {m : Nat} (hLeads : ∀ k < m, t.Leads s false (vaddr + BitVec.ofNat 32 (4 * k)) (some (lc k)))

variable (host) in
include hLaw hLeads in
theorem run_fetchWords (hm : ∀ k < m, 4 * k < length.toNat) (turns : Nat) :
    (fetchWords t.toCpudebug host vaddr length (m + turns) 0 []).run s =
      (fetchWords t.toCpudebug host vaddr length turns (BitVec.ofNat 32 (4 * m))
        (t.shown s lc m)).run s := by
  induction m generalizing turns with
  | zero =>
    rw [Nat.zero_add]
    rfl
  | succ m ih =>
    have hIn : BitVec.ofNat 32 (4 * m) < length := by
      have hLt := length.isLt
      have hBelow := hm m (by omega)
      rw [BitVec.lt_def, BitVec.toNat_ofNat]
      omega
    have hTurns : m + 1 + turns = m + (turns + 1) := by omega
    rw [hTurns, ih (fun k hk => hLeads k (by omega)) (fun k hk => hm k (by omega)),
      fetchWords_fetched hIn (hLaw.fetchWord _ _ _ (hLeads m (by omega))), printword_shown,
      ofNat_words_succ]

include hAlign in
theorem readRange_aligned :
    (readRange t.toCpudebug host vaddr length turns).run s =
      match (fetchWords t.toCpudebug host vaddr length turns 0 []).run s with
      | .ok .running s' => .ok none s'
      | .ok .refused s' => .ok (some replyE03) s'
      | .ok (.done buf) s' => .ok (some buf) s'
      | .error e s' => .error e s' := by
  have hStop : ¬((0 : Word) < length ∧ (vaddr + 0) &&& 0x3 ≠ 0) := by
    rintro ⟨-, hOdd⟩
    rw [add_zero] at hOdd
    exact hOdd hAlign
  rw [readRange, EStateM.run_bind, fetchBytes_stop hStop]
  dsimp only
  rw [EStateM.run_bind]
  rcases (fetchWords t.toCpudebug host vaddr length turns 0 []).run s with
    ⟨_ | _ | _, _⟩ | _ <;> rfl

include hAlign hLaw hLeads

/-- The answer shows every word that the range has part of. -/
theorem readRange_ends (hm : length.toNat ≤ 4 * m) (hLast : ∀ k < m, 4 * k < length.toNat)
    (hSmall : 4 * m < 2 ^ 32) {reply : Text}
    (hRun : (readRange t.toCpudebug host vaddr length turns).run s = .ok (some reply) s') :
    reply = t.shown s lc m := by
  by_cases hTurns : turns ≤ m
  · have hWords := run_fetchWords host hLaw (fun k hk => hLeads k (by omega))
      (fun k hk => hLast k (Nat.lt_of_lt_of_le hk hTurns)) 0
    rw [Nat.add_zero] at hWords
    rw [readRange_aligned hAlign, hWords] at hRun
    cases hRun
  · obtain ⟨n, rfl⟩ : ∃ n, turns = m + (n + 1) := ⟨turns - m - 1, by omega⟩
    have hStop : ¬BitVec.ofNat 32 (4 * m) < length := by
      rw [BitVec.lt_def, BitVec.toNat_ofNat]
      omega
    rw [readRange_aligned hAlign, run_fetchWords host hLaw hLeads hLast, fetchWords_stop hStop] at hRun
    cases hRun
    rfl

theorem readRange_whole (hm : length.toNat ≤ 4 * m) (hLast : ∀ k < m, 4 * k < length.toNat)
    (hSmall : 4 * m < 2 ^ 32) :
    (readRange t.toCpudebug host vaddr length (m + 1)).run s = .ok (some (t.shown s lc m)) s := by
  have hStop : ¬BitVec.ofNat 32 (4 * m) < length := by
    rw [BitVec.lt_def, BitVec.toNat_ofNat]
    omega
  rw [readRange_aligned hAlign, run_fetchWords host hLaw hLeads hLast, fetchWords_stop hStop]

end Read

end Sys161.Gdb
