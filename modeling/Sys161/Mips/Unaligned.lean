import Sys161.Lib.ByteOrder
import Sys161.Lib.PageBits
import Sys161.Mips.LlSc

/-!
# Unaligned words

`lwl` and `lwr`, `swl` and `swr`. Each of them moves a part of a register, and
the two of a pair move four bytes that need not lie in one word.
-/

namespace Sys161.Mips

open ByteOrder Exec

set_option autoImplicit false

variable {δ : Type} {b : Board δ} (i : Nat)

/-! ## Masks and shifts -/

section Tables

variable (addr res val : Word)

theorem lane_cases : (addr &&& 3).toNat = 0 ∨ (addr &&& 3).toNat = 1 ∨ (addr &&& 3).toNat = 2 ∨
    (addr &&& 3).toNat = 3 := by
  have hLane : (addr &&& 3).toNat = addr.toNat % 4 := PageBits.toNat_align addr
  omega

theorem loadWordl_eq : ((res &&& ~~~(loadWordl addr).1) |||
    ((val <<< (loadWordl addr).2) &&& (loadWordl addr).1)) =
      overHigh res val (addr &&& 3).toNat := by
  rcases lane_cases addr with h | h | h | h <;> rw [loadWordl, h] <;> rfl

theorem loadWordr_eq : ((res &&& ~~~(loadWordr addr).1) |||
    ((val >>> (loadWordr addr).2) &&& (loadWordr addr).1)) =
      overLow res val (3 - (addr &&& 3).toNat) := by
  rcases lane_cases addr with h | h | h | h <;> rw [loadWordr, h] <;> rfl

theorem storeWordl_eq : ((res &&& ~~~(storeWordl addr).1) |||
    ((val >>> (storeWordl addr).2) &&& (storeWordl addr).1)) =
      overLow res val (addr &&& 3).toNat := by
  rcases lane_cases addr with h | h | h | h <;> rw [storeWordl, h] <;> rfl

theorem storeWordr_eq : ((res &&& ~~~(storeWordr addr).1) |||
    ((val <<< (storeWordr addr).2) &&& (storeWordr addr).1)) =
      overHigh res val (3 - (addr &&& 3).toNat) := by
  rcases lane_cases addr with h | h | h | h <;> rw [storeWordr, h] <;> rfl

end Tables

/-! ## Halves -/

/-- The instructions of a pair: the left one has the address, the right one that of the last byte. -/
inductive Half where
  | left
  | right

namespace Half

def other : Half → Half
  | left => right
  | right => left

def load : Half → Opm
  | left => .lwl
  | right => .lwr

def store : Half → Opm
  | left => .swl
  | right => .swr

def storeStyle : Half → Memstyles
  | left => .wordl
  | right => .wordr

def addr (h : Half) (a : Word) : Word :=
  match h with
  | left => a
  | right => a + 3

/-- The bytes that a half moves; both move all of them where the address is aligned. -/
def Covers (h : Half) (a : Word) (n : Nat) : Prop :=
  match h with
  | left => n + (a &&& 3).toNat < 4
  | right => 3 - ((a + 3) &&& 3).toNat ≤ n

instance (h : Half) (a : Word) (n : Nat) : Decidable (h.Covers a n) := by
  unfold Covers
  split <;> infer_instance

theorem covers_or_other (h : Half) (a : Word) (n : Nat) :
    h.Covers a n ∨ h.other.Covers a n := by
  have hFirst : (a &&& 3).toNat = a.toNat % 4 := PageBits.toNat_align a
  have hLast : ((a + 3) &&& 3).toNat = (a + 3).toNat % 4 := PageBits.toNat_align (a + 3)
  have hAdd : (a + 3).toNat = (a.toNat + 3) % 2 ^ 32 := BitVec.toNat_add a 3
  cases h <;> simp only [Covers, other] <;> omega

end Half

/-- A byte of the four, by its place in the word it lies in. -/
def lane (a : Word) (n : Nat) : Nat := ((a + BitVec.ofNat 32 n) &&& 3).toNat

theorem lane_eq (a : Word) (n : Nat) : lane a n = (a.toNat + n) % 4 := by
  have hLane : lane a n = (a + BitVec.ofNat 32 n).toNat % 4 := PageBits.toNat_align _
  rw [hLane, BitVec.toNat_add, BitVec.toNat_ofNat]
  omega

theorem lane_lt (a : Word) (n : Nat) : lane a n < 4 := by
  rw [lane_eq]
  omega

theorem lane_injective (a : Word) {n n' : Nat} (hn : n < 4) (hn' : n' < 4)
    (h : lane a n = lane a n') : n = n' := by
  rw [lane_eq, lane_eq] at h
  omega

/-- Where a half moves a byte. -/
def Half.place (h : Half) (a : Word) (n : Nat) : Nat :=
  match h with
  | left => n + (a &&& 3).toNat
  | right => n - (3 - ((a + 3) &&& 3).toNat)

theorem lane_covers {h : Half} {a : Word} {n : Nat} (hn : n < 4) (hCovers : h.Covers a n) :
    lane a n = h.place a n ∧
    (a + BitVec.ofNat 32 n) &&& 0xfffffffc = h.addr a &&& 0xfffffffc := by
  have hFirst : (a &&& 3).toNat = a.toNat % 4 := PageBits.toNat_align a
  have hLast : ((a + 3) &&& 3).toNat = (a + 3).toNat % 4 := PageBits.toNat_align (a + 3)
  have hAdd : (a + 3).toNat = (a.toNat + 3) % 2 ^ 32 := BitVec.toNat_add a 3
  have hPlus : (a + BitVec.ofNat 32 n).toNat = (a.toNat + n) % 2 ^ 32 := by
    rw [BitVec.toNat_add, BitVec.toNat_ofNat]
    omega
  have hLt := a.isLt
  constructor
  · rw [lane_eq]
    cases h <;> simp only [Half.Covers, Half.place] at hCovers ⊢ <;> omega
  · apply BitVec.eq_of_toNat_eq
    rw [PageBits.toNat_word, PageBits.toNat_word, hPlus]
    cases h <;> simp only [Half.Covers, Half.addr] at hCovers ⊢ <;> omega

namespace Half

/-- What a load makes of the register, from the word. -/
def loaded (h : Half) (a res val : Word) : Word :=
  match h with
  | left => overHigh res val (a &&& 3).toNat
  | right => overLow res val (3 - ((a + 3) &&& 3).toNat)

/-- What a store makes of the word, from the register. -/
def stored (h : Half) (a wval val : Word) : Word :=
  match h with
  | left => overLow wval val (a &&& 3).toNat
  | right => overHigh wval val (3 - ((a + 3) &&& 3).toNat)

variable (h : Half) (a : Word)

theorem byte_loaded (res val : Word) {n : Nat} (hn : n < 4) :
    Order.big.byte (h.loaded a res val) n =
      if h.Covers a n then Order.big.byte val (lane a n) else Order.big.byte res n := by
  by_cases hCovers : h.Covers a n
  · rw [if_pos hCovers, (lane_covers hn hCovers).1]
    cases h with
    | left => exact (Order.byte_overHigh _ _ hn).trans (if_pos hCovers)
    | right => exact (Order.byte_overLow _ _ hn).trans (if_pos hCovers)
  · rw [if_neg hCovers]
    cases h with
    | left => exact (Order.byte_overHigh _ _ hn).trans (if_neg hCovers)
    | right => exact (Order.byte_overLow _ _ hn).trans (if_neg hCovers)

theorem byte_stored (wval val : Word) {n : Nat} (hn : n < 4) (hCovers : h.Covers a n) :
    Order.big.byte (h.stored a wval val) (lane a n) = Order.big.byte val n := by
  have hLane := (lane_covers hn hCovers).1
  have hLt := lane_lt a n
  cases h with
  | left =>
    refine (Order.byte_overLow _ _ hLt).trans ?_
    rw [place] at hLane
    rw [if_pos (by omega), hLane, Nat.add_sub_cancel]
  | right =>
    refine (Order.byte_overHigh _ _ hLt).trans ?_
    rw [place] at hLane
    rw [Covers] at hCovers
    rw [if_pos (by omega), hLane, Nat.sub_add_cancel hCovers]

/-- The rest of the word stays. -/
theorem byte_stored_of_not (wval val : Word) {k : Nat} (hk : k < 4)
    (hNot : ∀ n < 4, h.Covers a n → lane a n ≠ k) :
    Order.big.byte (h.stored a wval val) k = Order.big.byte wval k := by
  have hNone : ∀ n < 4, ¬(h.Covers a n ∧ lane a n = k) := fun n hn hBoth => hNot n hn hBoth.1 hBoth.2
  cases h with
  | left =>
    refine (Order.byte_overLow _ _ hk).trans (if_neg fun hLe => ?_)
    have hCovers : left.Covers a (k - (a &&& 3).toNat) := by
      dsimp only [Covers]
      omega
    refine hNone _ (by omega) ⟨hCovers, ?_⟩
    rw [(lane_covers (by omega) hCovers).1]
    exact Nat.sub_add_cancel hLe
  | right =>
    refine (Order.byte_overHigh _ _ hk).trans (if_neg fun hLt => ?_)
    have hCovers : right.Covers a (k + (3 - ((a + 3) &&& 3).toNat)) := Nat.le_add_left _ _
    refine hNone _ hLt ⟨hCovers, ?_⟩
    rw [(lane_covers hLt hCovers).1]
    exact Nat.add_sub_cancel _ _

end Half

/-! ## The instructions -/

variable (b) in
/-- The byte at an address lies in a word of main memory, and an access of a kind finds it. -/
def ByteIn (c : Mipscpu) (vaddr : Word) (iswrite : Bool) (w : BitVec 30) : Prop :=
  ∃ paddr, c.mapping.translate (vaddr &&& 0xfffffffc) iswrite = .ok paddr ∧ ramWord b paddr = some w

variable (b) in
/-- Where the four bytes from an address on lie. -/
def Spans (c : Mipscpu) (a : Word) (iswrite : Bool) (loc : Nat → BitVec 30) : Prop :=
  ∀ n < 4, ByteIn b c (a + BitVec.ofNat 32 n) iswrite (loc n)

theorem ByteIn.unique {c : Mipscpu} {vaddr vaddr' : Word} {iswrite : Bool} {w w' : BitVec 30}
    (h : ByteIn b c vaddr iswrite w) (h' : ByteIn b c vaddr' iswrite w')
    (hSame : vaddr &&& 0xfffffffc = vaddr' &&& 0xfffffffc) : w = w' := by
  obtain ⟨paddr, hTrans, hWord⟩ := h
  obtain ⟨paddr', hTrans', hWord'⟩ := h'
  rw [hSame, hTrans'] at hTrans
  obtain rfl := Except.ok.inj hTrans
  exact Option.some.inj (hWord.symm.trans hWord')

/-- The word that a half works on. -/
theorem Spans.half {c : Mipscpu} {a : Word} {iswrite : Bool} {loc : Nat → BitVec 30}
    (hSpans : Spans b c a iswrite loc) (h : Half) :
    ∃ w, ByteIn b c (h.addr a) iswrite w ∧ ∀ n < 4, h.Covers a n → loc n = w := by
  have hWord : ∃ w, ByteIn b c (h.addr a) iswrite w := by
    cases h with
    | left =>
      have hFirst := hSpans 0 (by decide)
      rw [BitVec.add_zero] at hFirst
      exact ⟨_, hFirst⟩
    | right => exact ⟨_, hSpans 3 (by decide)⟩
  obtain ⟨w, hw⟩ := hWord
  exact ⟨w, hw, fun n hn hCovers => (hSpans n hn).unique hw (lane_covers hn hCovers).2⟩

/-- A write finds what a read finds. -/
theorem translate_read {mp : Mapping} {vaddr paddr : Word}
    (h : mp.translate vaddr true = .ok paddr) : mp.translate vaddr false = .ok paddr := by
  unfold Mapping.translate at h ⊢
  split at h
  next => cases h
  next hOk =>
    rw [if_neg hOk]
    split at h
    next hSeg =>
      rw [if_pos hSeg]
      exact h
    next hSeg =>
      rw [if_neg hSeg]
      rw [mapped_eq_ok_iff] at h ⊢
      obtain ⟨mt, hSome, hValid, -, hPaddr⟩ := h
      exact ⟨mt, hSome, hValid, nofun, hPaddr⟩

theorem Spans.read {c : Mipscpu} {a : Word} {loc : Nat → BitVec 30} (h : Spans b c a true loc) :
    Spans b c a false loc := by
  intro n hn
  obtain ⟨paddr, hTrans, hWord⟩ := h n hn
  exact ⟨paddr, translate_read hTrans, hWord⟩

theorem Spans.congr {c c' : Mipscpu} {a : Word} {iswrite : Bool} {loc : Nat → BitVec 30}
    (h : Spans b c a iswrite loc) (hSame : c'.mapping = c.mapping) : Spans b c' a iswrite loc := by
  intro n hn
  obtain ⟨paddr, hTrans, hWord⟩ := h n hn
  exact ⟨paddr, by rw [hSame, hTrans], hWord⟩

section Execute

variable {h : Half} {a insn : Word} {loc : Nat → BitVec 30} {m : Machine δ}

/-- What a load of a half leaves. -/
structure LoadedHalf (h : Half) (a insn : Word) (loc : Nat → BitVec 30) (m t : Machine δ) :
    Prop where
  regs : ∃ val, (t.mycpus i).r = Function.update (m.mycpus i).r (rt insn) val ∧ ∀ n < 4,
    Order.big.byte val n =
      if h.Covers a n then Order.big.byte (m.ram (loc n)) (lane a n)
      else Order.big.byte ((m.mycpus i).r (rt insn)) n
  mapping : (t.mycpus i).mapping = (m.mycpus i).mapping
  ram : t.ram = m.ram

structure StoredHalf (h : Half) (a insn : Word) (loc : Nat → BitVec 30) (m t : Machine δ) :
    Prop where
  covered : ∀ n < 4, h.Covers a n →
    Order.big.byte (t.ram (loc n)) (lane a n) = Order.big.byte ((m.mycpus i).r (rt insn)) n
  others : ∀ w, ∀ k < 4, (∀ n < 4, h.Covers a n → ¬(loc n = w ∧ lane a n = k)) →
    Order.big.byte (t.ram w) k = Order.big.byte (m.ram w) k
  regs : (t.mycpus i).r = (m.mycpus i).r
  mapping : (t.mycpus i).mapping = (m.mycpus i).mapping

/-- The access of a half, with the word that it finds. -/
theorem after_load_half (hOp : opm insn = h.load) (hAddr : needaddr (m.mycpus i) insn = h.addr a)
    {w : BitVec 30} (hWord : ByteIn b (m.mycpus i) (h.addr a) false w)
    {Q : Unit → Machine δ → Prop} {E : Stop → Machine δ → Prop} :
    After (execute b i insn) Q E m ↔
      Q () ((m.setCpu i ((m.mycpus i).translated (h.addr a &&& 0xfffffffc) false)).modCpu i fun c =>
        { c with
          r := Function.update c.r (rt insn)
            (h.loaded a ((m.mycpus i).r (rt insn)) (m.ram w)) }) := by
  obtain ⟨paddr, hTrans, hRam⟩ := hWord
  cases h with
  | left =>
    have hExec : execute b i insn = (loadOp b i insn .wordl : M δ Unit) := by
      simp only [execute, hOp, Half.load, mxLwl]
    rw [hExec, loadOp, after_bind, after_getCpu, hAddr, doload, after_bind, after_bind,
      after_domemFetch_word i hTrans hRam, after_pure, after_setReg]
    rw [loadWordl_eq]
    rfl
  | right =>
    have hExec : execute b i insn = (loadOp b i insn .wordr : M δ Unit) := by
      simp only [execute, hOp, Half.load, mxLwr]
    rw [hExec, loadOp, after_bind, after_getCpu, hAddr, doload, after_bind, after_bind,
      after_domemFetch_word i hTrans hRam, after_pure, after_setReg]
    rw [loadWordr_eq]
    rfl

theorem load_half (hSpans : Spans b (m.mycpus i) a false loc) (hOp : opm insn = h.load)
    (hAddr : needaddr (m.mycpus i) insn = h.addr a) :
    After (execute b i insn) (fun _ t => LoadedHalf i h a insn loc m t) (fun _ _ => False) m := by
  obtain ⟨w, hWord, hLoc⟩ := hSpans.half h
  rw [after_load_half i hOp hAddr hWord]
  have hRegs : ((m.mycpus i).translated (h.addr a &&& 0xfffffffc) false).r = (m.mycpus i).r :=
    congrArg Prod.fst (operands_translated _ _ _)
  refine ⟨⟨h.loaded a ((m.mycpus i).r (rt insn)) (m.ram w), ?_, fun n hn => ?_⟩, ?_, rfl⟩
  · rw [Machine.modCpu_mycpus_self, Machine.setCpu_mycpus_self, hRegs]
  · rw [Half.byte_loaded h a _ _ hn]
    by_cases hCovers : h.Covers a n
    · rw [if_pos hCovers, if_pos hCovers, hLoc n hn hCovers]
    · rw [if_neg hCovers, if_neg hCovers]
  · rw [Machine.modCpu_mycpus_self, Machine.setCpu_mycpus_self]
    exact translated_mapping _ _ _

theorem after_store_half (hOp : opm insn = h.store) (hAddr : needaddr (m.mycpus i) insn = h.addr a)
    {w : BitVec 30} (hWord : ByteIn b (m.mycpus i) (h.addr a) true w)
    {Q : Unit → Machine δ → Prop} {E : Stop → Machine δ → Prop} :
    After (execute b i insn) Q E m ↔
      Q () { m.setCpu i (((m.mycpus i).translated (h.addr a &&& 0xfffffffc) true).translated
          (h.addr a &&& 0xfffffffc) true) with
        ram := Function.update m.ram w
          (h.stored a (m.ram w) ((m.mycpus i).r (rt insn))) } := by
  have hAgain : MapsTo b ((m.setCpu i ((m.mycpus i).translated
      (h.addr a &&& 0xfffffffc) true)).mycpus i) (h.addr a &&& 0xfffffffc) w := by
    rw [Machine.setCpu_mycpus_self, MapsTo, translated_mapping]
    exact hWord
  have hMerge : mergeStore h.storeStyle (h.addr a) ((m.mycpus i).r (rt insn)) (m.ram w) =
      h.stored a (m.ram w) ((m.mycpus i).r (rt insn)) := by
    cases h with
    | left => exact storeWordl_eq _ _ _
    | right => exact storeWordr_eq _ _ _
  have hModify : ∀ f, After (modifyWord b i (h.addr a &&& 0xfffffffc) f) Q E m ↔
      Q () { m.setCpu i (((m.mycpus i).translated (h.addr a &&& 0xfffffffc) true).translated
          (h.addr a &&& 0xfffffffc) true) with
        ram := Function.update m.ram w (f (m.ram w)) } := by
    intro f
    rw [modifyWord, after_bind, after_domemFetch_ram i hWord, after_domemStore_ram i hAgain,
      Machine.setCpu_setCpu, Machine.setCpu_mycpus_self, Machine.setCpu_ram]
  rw [← hMerge]
  cases h with
  | left =>
    have hExec : execute b i insn = (storeOp b i insn .wordl : M δ Unit) := by
      simp only [execute, hOp, Half.store, mxSwl]
    rw [hExec, storeOp, after_bind, after_getCpu, hAddr]
    exact hModify _
  | right =>
    have hExec : execute b i insn = (storeOp b i insn .wordr : M δ Unit) := by
      simp only [execute, hOp, Half.store, mxSwr]
    rw [hExec, storeOp, after_bind, after_getCpu, hAddr]
    exact hModify _

theorem store_half (hSpans : Spans b (m.mycpus i) a true loc) (hOp : opm insn = h.store)
    (hAddr : needaddr (m.mycpus i) insn = h.addr a) :
    After (execute b i insn) (fun _ t => StoredHalf i h a insn loc m t) (fun _ _ => False) m := by
  obtain ⟨w, hWord, hLoc⟩ := hSpans.half h
  rw [after_store_half i hOp hAddr hWord]
  have hOperands : ((m.setCpu i (((m.mycpus i).translated (h.addr a &&& 0xfffffffc) true).translated
      (h.addr a &&& 0xfffffffc) true)).mycpus i).operands = (m.mycpus i).operands := by
    rw [Machine.setCpu_mycpus_self, operands_translated, operands_translated]
  refine ⟨fun n hn hCovers => ?_, fun w' k hk hNone => ?_, congrArg Prod.fst hOperands,
    congrArg (fun o => o.2.2.2.2.2) hOperands⟩
  · dsimp only
    rw [hLoc n hn hCovers, Function.update_self, Half.byte_stored h a _ _ hn hCovers]
  · dsimp only
    by_cases hw : w' = w
    · subst hw
      rw [Function.update_self]
      exact Half.byte_stored_of_not h a _ _ hk fun n hn hCovers hLane =>
        hNone n hn hCovers ⟨hLoc n hn hCovers, hLane⟩
    · rw [Function.update_of_ne hw]

end Execute

/-! ## Pairs -/

/-- The cpu has gone on with its registers, its mapping and main memory as they were. -/
structure Undisturbed (t u : Machine δ) : Prop where
  regs : (u.mycpus i).r = (t.mycpus i).r
  mapping : (u.mycpus i).mapping = (t.mycpus i).mapping
  ram : u.ram = t.ram

theorem Undisturbed.refl (t : Machine δ) : Undisturbed i t t := ⟨rfl, rfl, rfl⟩

/-- The instruction is a half, and its address is the one that the half has. -/
def AtHalf (op : Half → Opm) (h : Half) (a insn : Word) (c : Mipscpu) : Prop :=
  opm insn = op h ∧ needaddr c insn = h.addr a

variable (b) in
/-- One half and then the other. Neither of them stops. -/
def PairRuns (op : Half → Opm) (h : Half) (a first second : Word) (Q : Machine δ → Prop)
    (m : Machine δ) : Prop :=
  After (execute b i first) (fun _ t => ∀ t', Undisturbed i t t' →
    AtHalf op h.other a second (t'.mycpus i) →
      After (execute b i second) (fun _ u => Q u) (fun _ _ => False) t') (fun _ _ => False) m

theorem PairRuns.mono {op : Half → Opm} {h : Half} {a first second : Word}
    {Q Q' : Machine δ → Prop} {m : Machine δ} (hRuns : PairRuns b i op h a first second Q m)
    (hQ : ∀ u, Q u → Q' u) : PairRuns b i op h a first second Q' m :=
  After.mono hRuns (fun _ _ hRest t' hSame hAt => (hRest t' hSame hAt).mono (fun _ u => hQ u)
    fun _ _ hFalse => hFalse) fun _ _ hFalse => hFalse

/-- The word at an address that need not be aligned. -/
def unalignedWord (m : Machine δ) (loc : Nat → BitVec 30) (a : Word) : Word :=
  Order.big.word fun n => Order.big.byte (m.ram (loc n)) (lane a n)

section Pair

variable {h : Half} {a first second : Word} {loc : Nat → BitVec 30} {m : Machine δ}

/-- What a pair of loads leaves. -/
structure LoadedPair (a rg : Word) (loc : Nat → BitVec 30) (m u : Machine δ) : Prop where
  regs : (u.mycpus i).r = Function.update (m.mycpus i).r (rt rg) (unalignedWord m loc a)
  mapping : (u.mycpus i).mapping = (m.mycpus i).mapping
  ram : u.ram = m.ram

theorem load_pair (hAt : AtHalf Half.load h a first (m.mycpus i)) (hRt : rt second = rt first)
    (hSpans : Spans b (m.mycpus i) a false loc) :
    PairRuns b i Half.load h a first second (LoadedPair i a first loc m) m := by
  refine (load_half i hSpans hAt.1 hAt.2).mono (fun _ t hFirst => ?_) fun _ _ hFalse => hFalse
  intro t' hSame hOther
  have hMapping := hSame.mapping.trans hFirst.mapping
  refine (load_half i (hSpans.congr hMapping) hOther.1 hOther.2).mono (fun _ u hSecond => ?_)
    fun _ _ hFalse => hFalse
  obtain ⟨val, hVal, hBytes⟩ := hFirst.regs
  obtain ⟨val', hVal', hBytes'⟩ := hSecond.regs
  have hRegs := hSame.regs.trans hVal
  have hWhole : val' = unalignedWord m loc a := by
    refine Order.eq_of_bytes Order.big fun n hn => ?_
    rw [hBytes' n hn, unalignedWord, Order.byte_word _ _ hn, hSame.ram, hFirst.ram, hRegs, hRt,
      Function.update_self]
    split
    · rfl
    next hNot =>
      rw [hBytes n hn, if_pos ((h.covers_or_other a n).resolve_right hNot)]
  refine ⟨?_, hSecond.mapping.trans hMapping, hSecond.ram.trans (hSame.ram.trans hFirst.ram)⟩
  rw [hVal', hRegs, hRt, Function.update_idem, hWhole]

/-- What a pair of stores leaves. -/
structure StoredPair (a rg : Word) (loc : Nat → BitVec 30) (m u : Machine δ) : Prop where
  word : unalignedWord u loc a = (m.mycpus i).r (rt rg)
  others : ∀ w, ∀ k < 4, (∀ n < 4, ¬(loc n = w ∧ lane a n = k)) →
    Order.big.byte (u.ram w) k = Order.big.byte (m.ram w) k
  regs : (u.mycpus i).r = (m.mycpus i).r
  mapping : (u.mycpus i).mapping = (m.mycpus i).mapping

theorem store_pair (hAt : AtHalf Half.store h a first (m.mycpus i)) (hRt : rt second = rt first)
    (hSpans : Spans b (m.mycpus i) a true loc) :
    PairRuns b i Half.store h a first second (StoredPair i a first loc m) m := by
  refine (store_half i hSpans hAt.1 hAt.2).mono (fun _ t hFirst => ?_) fun _ _ hFalse => hFalse
  intro t' hSame hOther
  have hMapping := hSame.mapping.trans hFirst.mapping
  refine (store_half i (hSpans.congr hMapping) hOther.1 hOther.2).mono (fun _ u hSecond => ?_)
    fun _ _ hFalse => hFalse
  have hRegs := hSame.regs.trans hFirst.regs
  refine ⟨?_, fun w k hk hNone => ?_, hSecond.regs.trans hRegs, hSecond.mapping.trans hMapping⟩
  · refine Order.eq_of_bytes Order.big fun n hn => ?_
    rw [unalignedWord, Order.byte_word _ _ hn]
    by_cases hCovers : h.other.Covers a n
    · rw [hSecond.covered n hn hCovers, hRegs, hRt]
    · have hKept := hSecond.others (loc n) (lane a n) (lane_lt a n) fun n' hn' hCovers' hPlace =>
        hCovers (lane_injective a hn' hn hPlace.2 ▸ hCovers')
      rw [hKept, hSame.ram]
      exact hFirst.covered n hn ((h.covers_or_other a n).resolve_right hCovers)
  · rw [hSecond.others w k hk fun n hn _ => hNone n hn, hSame.ram]
    exact hFirst.others w k hk fun n hn _ => hNone n hn

end Pair

/-- Four bytes go between a register and memory in the big-endian order, wherever they lie. -/
theorem unaligned_pairs (h : Half) (a first second : Word) (loc : Nat → BitVec 30) (m : Machine δ)
    (hRt : rt second = rt first) :
    (AtHalf Half.load h a first (m.mycpus i) → Spans b (m.mycpus i) a false loc →
      PairRuns b i Half.load h a first second (LoadedPair i a first loc m) m) ∧
    (AtHalf Half.store h a first (m.mycpus i) → Spans b (m.mycpus i) a true loc →
      PairRuns b i Half.store h a first second (fun u => StoredPair i a first loc m u ∧
        ∀ (u' : Machine δ) (h' : Half) (third fourth : Word), Undisturbed i u u' →
          AtHalf Half.load h' a third (u'.mycpus i) → rt fourth = rt third →
          PairRuns b i Half.load h' a third fourth (fun v => v.ram = u.ram ∧
            (v.mycpus i).r = Function.update (m.mycpus i).r (rt third)
              ((m.mycpus i).r (rt first))) u') m) := by
  refine ⟨fun hAt hSpans => load_pair i hAt hRt hSpans, fun hAt hSpans => ?_⟩
  refine (store_pair i hAt hRt hSpans).mono i fun u hStored => ⟨hStored, ?_⟩
  intro u' h' third fourth hSame hThird hFourth
  have hAgain : Spans b (u'.mycpus i) a false loc :=
    (hSpans.congr (hSame.mapping.trans hStored.mapping)).read
  refine (load_pair i hThird hFourth hAgain).mono i fun v hLoaded => ?_
  have hWord : unalignedWord u' loc a = (m.mycpus i).r (rt first) := by
    rw [unalignedWord, hSame.ram]
    exact hStored.word
  refine ⟨hLoaded.ram.trans hSame.ram, ?_⟩
  rw [hLoaded.regs, hWord, hSame.regs, hStored.regs]

/-- `swl` and `swr` of register 4 to the address in register 29, which holds what register 4 does. -/
theorem unaligned_pairs_sw : PairRuns bareBoard 0 Half.store .left 0x80000041 0xaba40000 0xbba40003
    (fun u => u.ram 0x10 = 0x00800000 ∧ u.ram 0x11 = 0x41000000)
    ((machineInit () false).modCpu 0 fun c => { c with r := fun _ => 0x80000041 }) := by
  have hSpans : Spans bareBoard
      (((machineInit () false).modCpu 0 fun c => { c with r := fun _ => 0x80000041 }).mycpus 0)
      0x80000041 true fun n => if n < 3 then 0x10 else 0x11 := by
    intro n hn
    interval_cases n <;> exact ⟨_, rfl, rfl⟩
  refine ((unaligned_pairs 0 .left 0x80000041 0xaba40000 0xbba40003 _ _ rfl).2 ⟨rfl, rfl⟩
    hSpans).mono 0 fun u hStored => ?_
  obtain ⟨⟨hWord, hOthers, -, -⟩, -⟩ := hStored
  have hByte : ∀ n < 4, Order.big.byte (u.ram (if n < 3 then 0x10 else 0x11))
      (lane 0x80000041 n) = Order.big.byte 0x80000041 n := by
    intro n hn
    rw [← Order.byte_word .big (fun n => Order.big.byte (u.ram (if n < 3 then 0x10 else 0x11))
      (lane 0x80000041 n)) hn]
    exact congrArg (fun w => Order.big.byte w n) hWord
  constructor
  · refine Order.eq_of_bytes .big fun k hk => ?_
    interval_cases k
    · exact hOthers 0x10 0 (by decide) (by decide)
    · exact hByte 0 (by decide)
    · exact hByte 1 (by decide)
    · exact hByte 2 (by decide)
  · refine Order.eq_of_bytes .big fun k hk => ?_
    interval_cases k
    · exact hByte 3 (by decide)
    · exact hOthers 0x11 1 (by decide) (by decide)
    · exact hOthers 0x11 2 (by decide) (by decide)
    · exact hOthers 0x11 3 (by decide) (by decide)

end Sys161.Mips
