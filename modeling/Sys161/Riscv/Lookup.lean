import Sys161.Lib.Flags
import Sys161.Riscv.Frame

/-!
# Translation as a function

What `translatemem` comes to, as a function of one cpu and of main memory. It
answers for page tables in memory; where the entry of the second level is a
register of a device, a translation is not a function of these.
-/

namespace Sys161.Riscv

open Exec
open Mips (Board Page wordIndex)

set_option autoImplicit false

variable {δ α : Type} (b : Board δ) (i : Nat)

/-- What a read of main memory or of the boot ROM comes to. -/
def memFetch (ram : BitVec 30 → Word) (paddr : Word) : Option Word :=
  if paddr < paddrRambase then none
  else if paddr < paddrRombase then
    if b.busRamsize ≤ paddr - paddrRambase then none
    else some (ram (wordIndex (paddr - paddrRambase)))
  else if paddr < paddrBusbase then bootromFetch (paddr - paddrRombase)
  else none

theorem after_fetchPhys_mem {paddr : Word} (hMem : paddr < paddrBusbase) {m : Machine δ}
    {Q : Option Word → Machine δ → Prop} {E : Stop → Machine δ → Prop} :
    After (fetchPhys b i paddr) Q E m ↔ Q (memFetch b m.ram paddr) m := by
  unfold fetchPhys memFetch
  split
  · rfl
  · split
    · simp only [after_bind, after_get, after_pure, Machine.busMemFetch]
    · rfl

namespace Riscvcpu

variable (c : Riscvcpu) (ram : BitVec 30 → Word) (vaddr : Word) (rwx : Memrwx)

/-- The address of the entry of the second level, if the top level points to one. -/
def entryAddr : Option Word :=
  match c.mmuPttoppage with
  | none => none
  | some page =>
    match topEntry (busUseMap ram page (topIx vaddr)) vaddr .read with
    | .ok (.inl ptpaddr) => some (ptpaddr + secondIx vaddr)
    | _ => none

/-- The entry of the second level is not a register of a device. -/
def EntryInMemory : Prop := ∀ paddr, c.entryAddr ram vaddr = some paddr → paddr < paddrBusbase

def tableLeaf : Except Trap Leaf :=
  match c.mmuPttoppage with
  | none => .error (accessfault vaddr rwx)
  | some page =>
    match topEntry (busUseMap ram page (topIx vaddr)) vaddr rwx with
    | .error t => .error t
    | .ok (.inr leaf) => .ok leaf
    | .ok (.inl ptpaddr) =>
      match memFetch b ram (ptpaddr + secondIx vaddr) with
      | none => .error (accessfault vaddr rwx)
      | some entry => secondEntry entry vaddr rwx

/-- The page walk. -/
def tableWalk : Except Trap Word :=
  match c.tableLeaf b ram vaddr rwx with
  | .error t => .error t
  | .ok leaf => leaf.check c.super c.statusSum vaddr rwx

/-- The cache answers for an address. -/
def Hit : Prop := c.mmuEnable = true ∧ vaddr &&& 0xfffff000 = c.mmuCachedVpage

/-- An address is looked up in the page table. -/
def Walks : Prop := c.mmuEnable = true ∧ vaddr &&& 0xfffff000 ≠ c.mmuCachedVpage

def translation : Except Trap Word :=
  if c.mmuEnable = false then .ok vaddr
  else if vaddr &&& 0xfffff000 = c.mmuCachedVpage then
    if c.cachedAllows rwx then .ok (c.mmuCachedPpage ||| (vaddr &&& 0x00000fff))
    else .error (pagefault vaddr rwx)
  else c.tableWalk b ram vaddr rwx

/-- The page of memory that an instruction at an address is fetched from. -/
def codePage : Option Page :=
  match c.translation b ram vaddr .execute with
  | .ok paddr => mapmem b paddr
  | .error _ => none

end Riscvcpu

/-! ## The page table -/

/-- Whether the top level points to a second one does not depend on the access. -/
theorem topEntry_inl_iff {entry vaddr ptpaddr : Word} (rwx rwx' : Memrwx) :
    topEntry entry vaddr rwx = .ok (.inl ptpaddr) ↔
      topEntry entry vaddr rwx' = .ok (.inl ptpaddr) := by
  unfold topEntry
  split
  · simp
  · split
    · split <;> simp
    · split <;> simp

/-- The faults of a translation. -/
def IsFault (vaddr : Word) (rwx : Memrwx) (t : Trap) : Prop :=
  t = pagefault vaddr rwx ∨ t = accessfault vaddr rwx

theorem topEntry_error {entry vaddr : Word} {rwx : Memrwx} {t : Trap}
    (h : topEntry entry vaddr rwx = .error t) : IsFault vaddr rwx t := by
  unfold topEntry at h
  split at h
  · exact .inl (Except.error.inj h).symm
  · split at h
    · split at h
      · exact .inl (Except.error.inj h).symm
      · simp at h
    · split at h
      · exact .inr (Except.error.inj h).symm
      · simp at h

theorem secondEntry_error {entry vaddr : Word} {rwx : Memrwx} {t : Trap}
    (h : secondEntry entry vaddr rwx = .error t) : IsFault vaddr rwx t := by
  unfold secondEntry at h
  split at h
  · exact .inl (Except.error.inj h).symm
  · split at h
    · exact .inr (Except.error.inj h).symm
    · simp at h

theorem Leaf.check_error {leaf : Leaf} {super sum : Bool} {vaddr : Word} {rwx : Memrwx} {t : Trap}
    (h : leaf.check super sum vaddr rwx = .error t) : IsFault vaddr rwx t := by
  unfold Leaf.check at h
  split at h
  · exact .inl (Except.error.inj h).symm
  · split at h
    · exact .inl (Except.error.inj h).symm
    · split at h
      · exact .inl (Except.error.inj h).symm
      · split at h
        · exact .inl (Except.error.inj h).symm
        · split at h
          · exact .inr (Except.error.inj h).symm
          · simp at h

theorem leaf_of_secondEntry {entry vaddr : Word} {rwx : Memrwx} {leaf : Leaf}
    (h : secondEntry entry vaddr rwx = .ok leaf) : leaf = ⟨entry, false⟩ := by
  unfold secondEntry at h
  split at h
  · simp at h
  · split at h
    · simp at h
    · simpa using h.symm

/-- A visit to a page table that lies in memory leaves the machine as it is. -/
theorem after_findLeaf_mem {vaddr : Word} {rwx : Memrwx} {m : Machine δ}
    (hMem : (m.mycpus i).EntryInMemory m.ram vaddr) {Q : Leaf → Machine δ → Prop}
    {E : Stop → Machine δ → Prop} :
    After (findLeaf b i vaddr rwx) Q E m ↔
      After (liftTrap ((m.mycpus i).tableLeaf b m.ram vaddr rwx)) Q E m := by
  unfold findLeaf Riscvcpu.tableLeaf
  unfold Riscvcpu.EntryInMemory Riscvcpu.entryAddr at hMem
  rw [after_bind, after_getCpu]
  cases hTop : (m.mycpus i).mmuPttoppage with
  | none => rfl
  | some page =>
    rw [hTop] at hMem
    dsimp only at hMem ⊢
    rw [after_bind, after_get, after_bind]
    cases hEntry : topEntry (busUseMap m.ram page (topIx vaddr)) vaddr rwx with
    | error t => rfl
    | ok found =>
      cases found with
      | inr leaf => rfl
      | inl ptpaddr =>
        rw [(topEntry_inl_iff rwx .read).mp hEntry] at hMem
        rw [after_liftTrap_ok, after_bind, after_fetchPhys_mem b i (hMem _ rfl)]
        dsimp only
        cases memFetch b m.ram (ptpaddr + secondIx vaddr) with
        | none => rfl
        | some entry => rfl

theorem even_of_aligned {v : Word} (h : v &&& 0x3 = 0) : v &&& 0x1 = 0 := by
  have hSmaller : v &&& 0x1 = v &&& 0x3 &&& 0x1 := by
    rw [BitVec.and_assoc]
    rfl
  rw [hSmaller, h]
  rfl

theorem ptpaddr_of_topEntry {entry vaddr ptpaddr : Word} {rwx : Memrwx}
    (h : topEntry entry vaddr rwx = .ok (.inl ptpaddr)) : ptpaddr = (entry &&& ptePpn) <<< 2 := by
  unfold topEntry at h
  split at h
  · simp at h
  · split at h
    · split at h <;> simp at h
    · split at h
      · simp at h
      · simpa using h.symm

/-- A page number as a physical address has no offset. -/
theorem offset_ppn (entry : Word) : ((entry &&& ptePpn) <<< 2) &&& 0xfff = 0 := by
  apply BitVec.eq_of_toNat_eq
  rw [PageBits.toNat_offset, BitVec.toNat_shiftLeft, Nat.shiftLeft_eq]
  have hPage : (entry &&& ptePpn) = ((entry &&& 0x3fffffff) >>> 10) <<< 10 := by
    rw [BitVec.shiftLeft_ushiftRight, BitVec.and_assoc]
    rfl
  rw [hPage, BitVec.toNat_shiftLeft, Nat.shiftLeft_eq]
  change _ = 0
  omega

/-- An entry of the second level is a word of memory. -/
theorem align_entryAddr {entry vaddr ptpaddr : Word} {rwx : Memrwx}
    (h : topEntry entry vaddr rwx = .ok (.inl ptpaddr)) :
    (ptpaddr + secondIx vaddr) &&& 0x3 = 0 := by
  have hPtp := congrArg BitVec.toNat (offset_ppn entry)
  rw [← ptpaddr_of_topEntry h, PageBits.toNat_offset] at hPtp
  have hIx : vaddr &&& 0x003ff000#32 = ((vaddr &&& 0x003fffff#32) >>> 12) <<< 12 := by
    rw [BitVec.shiftLeft_ushiftRight, BitVec.and_assoc]
    rfl
  apply BitVec.eq_of_toNat_eq
  rw [PageBits.toNat_align, BitVec.toNat_add, secondIx]
  change (ptpaddr.toNat + ((vaddr &&& 0x003ff000#32) >>> 10).toNat) % 2 ^ 32 % 4 = 0
  rw [hIx, BitVec.toNat_ushiftRight, BitVec.toNat_shiftLeft, Nat.shiftLeft_eq,
    Nat.shiftRight_eq_div_pow]
  change _ = 0 at hPtp
  omega

/-- How a translation stops the program: with a fault, or past the end of the registers where the
page table is read out of these. -/
def TableStop (vaddr : Word) (rwx : Memrwx) (e : Stop) : Prop :=
  (∃ t, e = .trap t ∧ IsFault vaddr rwx t) ∨ e = pastCram

/-- What is left alone by a visit to the page table; the leaf of a superpage stands in memory. -/
theorem after_findLeaf (vaddr : Word) (rwx : Memrwx) (m : Machine δ) :
    After (findLeaf b i vaddr rwx)
      (fun leaf t => Bused m t ∧
        (leaf.superpage = true → (m.mycpus i).tableLeaf b m.ram vaddr rwx = .ok leaf))
      (fun e t => Bused m t ∧ TableStop vaddr rwx e) m := by
  have hFault : ∀ t, IsFault vaddr rwx t → TableStop vaddr rwx (.trap t) :=
    fun t ht => .inl ⟨t, rfl, ht⟩
  unfold findLeaf
  rw [after_bind, after_getCpu]
  cases hTop : (m.mycpus i).mmuPttoppage with
  | none => exact ⟨Bused.refl m, hFault _ (.inr rfl)⟩
  | some page =>
    dsimp only
    rw [after_bind, after_get, after_bind]
    cases hEntry : topEntry (busUseMap m.ram page (topIx vaddr)) vaddr rwx with
    | error t => exact ⟨Bused.refl m, hFault t (topEntry_error hEntry)⟩
    | ok found =>
      cases found with
      | inr leaf =>
        refine ⟨Bused.refl m, fun _ => ?_⟩
        simp only [Riscvcpu.tableLeaf, hTop, hEntry]
      | inl ptpaddr =>
        rw [after_liftTrap_ok]
        dsimp only
        rw [after_bind]
        refine (after_fetchPhys b i _ m).mono ?_ ?_
        · rintro (_ | entry) t ht
          · exact ⟨ht, hFault _ (.inr rfl)⟩
          · dsimp only
            cases hSecond : secondEntry entry vaddr rwx with
            | error tr => exact ⟨ht, hFault tr (secondEntry_error hSecond)⟩
            | ok leaf =>
              refine ⟨ht, fun hSuper => ?_⟩
              rw [leaf_of_secondEntry hSecond] at hSuper
              simp at hSuper
        · rintro e t ⟨rfl | ⟨hAlign, -⟩, ht⟩
          · exact ⟨ht, .inr rfl⟩
          · exact absurd (align_entryAddr hEntry) hAlign

/-! ## Translation -/

/-- As `TableStop`, with the assertion about half-words. -/
def TransStop (vaddr : Word) (rwx : Memrwx) (e : Stop) : Prop :=
  TableStop vaddr rwx e ∨ vaddr &&& 0x1 ≠ 0 ∧ e = .smoke "Assertion failed"

/-- `I` is kept when the cache of a cpu takes up a leaf. -/
def FillBlind (I : Machine δ → Prop) : Prop :=
  ∀ vaddr leaf m, I m → I (m.modCpu i fun c => c.fill vaddr leaf)

theorem keeps_walk {I : Machine δ → Prop} (hBus : BusBlind I) (hFill : FillBlind i I)
    (vaddr : Word) (rwx : Memrwx) :
    Keeps I (fun e t => I t ∧ TableStop vaddr rwx e) (walk b i vaddr rwx) := by
  intro m hm
  unfold walk
  rw [after_bind]
  refine (after_findLeaf b i vaddr rwx m).mono ?_ fun e t ht => ⟨hBus m t ht.1 hm, ht.2⟩
  rintro leaf t ⟨ht, -⟩
  have hI := hBus m t ht hm
  rw [after_bind, after_getCpu, after_bind]
  cases hCheck : leaf.check (t.mycpus i).super (t.mycpus i).statusSum vaddr rwx with
  | error tr => exact ⟨hI, .inl ⟨tr, rfl, Leaf.check_error hCheck⟩⟩
  | ok paddr => exact hFill vaddr leaf t hI

theorem keeps_translatemem {I : Machine δ → Prop} (hBus : BusBlind I) (hFill : FillBlind i I)
    (vaddr : Word) (rwx : Memrwx) :
    Keeps I (fun e t => I t ∧ TransStop vaddr rwx e) (translatemem b i vaddr rwx) := by
  have hWalk : Keeps I (fun e t => I t ∧ TransStop vaddr rwx e) (walk b i vaddr rwx) :=
    (keeps_walk b i hBus hFill vaddr rwx).error fun e t he => ⟨he.1, .inl he.2⟩
  refine Keeps.ite (fun hOdd => Keeps.throw fun _ hm => ⟨hm, .inr ⟨hOdd, rfl⟩⟩) fun _ => ?_
  refine keeps_getCpu i fun c => Keeps.ite (fun _ => Keeps.pure _) fun _ => Keeps.ite (fun _ => ?_)
    fun _ => hWalk
  exact Keeps.ite (fun _ => Keeps.pure _) fun _ =>
    Keeps.throw fun _ hm => ⟨hm, .inl (.inl ⟨_, rfl, .inl rfl⟩)⟩

/-- What holds of a leaf that passes the checks. -/
theorem Leaf.check_ok {leaf : Leaf} {super sum : Bool} {vaddr paddr : Word} {rwx : Memrwx}
    (h : leaf.check super sum vaddr rwx = .ok paddr) :
    leaf.modeRefused super sum rwx = false ∧ leaf.allows rwx = true ∧
      (rwx = .write → leaf.entry &&& pteD ≠ 0) ∧ leaf.entry &&& pteA ≠ 0 ∧
      leaf.entry &&& pteUpperPpn = 0 ∧ paddr = leaf.base ||| leaf.offset vaddr := by
  unfold Leaf.check at h
  split at h
  · simp at h
  · rename_i hMode
    split at h
    · simp at h
    · rename_i hAllows
      split at h
      · simp at h
      · rename_i hDirty
        split at h
        · simp at h
        · rename_i hAccessed
          split at h
          · simp at h
          · rename_i hUpper
            exact ⟨by simpa using hMode, by simpa using hAllows, fun hWrite hD => hDirty ⟨hWrite, hD⟩,
              hAccessed, not_not.mp hUpper, (Except.ok.inj h).symm⟩

/-- The two bits that let a page be written. -/
theorem writeable_of_bits {entry : Word} (hW : entry &&& pteW ≠ 0) (hD : entry &&& pteD ≠ 0) :
    entry &&& (pteW ||| pteD) = pteW ||| pteD := by
  have hTwoW : pteW = BitVec.twoPow 32 2 := by decide
  have hTwoD : pteD = BitVec.twoPow 32 7 := by decide
  rw [hTwoW] at hW ⊢
  rw [hTwoD] at hD ⊢
  rw [BitVec.and_or_distrib_left, Flags.and_twoPow_eq _ _ hW, Flags.and_twoPow_eq _ _ hD]

namespace Riscvcpu

variable {c : Riscvcpu} {vaddr paddr : Word} {rwx : Memrwx} {leaf : Leaf}

/-- After a fill the cache answers as the leaf did. -/
theorem translation_fill (ram : BitVec 30 → Word) (hEnable : c.mmuEnable = true)
    (hSmall : leaf.superpage = false) {super sum : Bool}
    (hCheck : leaf.check super sum vaddr rwx = .ok paddr) :
    (c.fill vaddr leaf).translation b ram vaddr rwx = .ok paddr := by
  obtain ⟨-, hAllows, hDirty, -, -, rfl⟩ := Leaf.check_ok hCheck
  have hCached : (c.fill vaddr leaf).cachedAllows rwx = true := by
    cases rwx with
    | read => simpa [fill, hSmall, cachedAllows, Leaf.allows] using hAllows
    | execute => simpa [fill, hSmall, cachedAllows, Leaf.allows] using hAllows
    | write =>
      have hW : leaf.entry &&& pteW ≠ 0 := by simpa [Leaf.allows] using hAllows
      simpa [fill, hSmall, cachedAllows] using writeable_of_bits hW (hDirty rfl)
  unfold translation
  rw [if_neg (by simp [fill, hSmall, hEnable]), if_pos (by simp [fill, hSmall]), if_pos hCached]
  simp [fill, hSmall, Leaf.offset]

end Riscvcpu

/-- A translation that has been made once can be made again, and needs no register of a device for
that. -/
theorem after_translatemem_again (vaddr : Word) (rwx : Memrwx) (m : Machine δ) :
    After (translatemem b i vaddr rwx)
      (fun paddr t => (t.mycpus i).translation b t.ram vaddr rwx = .ok paddr) (fun _ _ => True)
      m := by
  unfold translatemem
  rw [after_ite]
  split
  · trivial
  · rw [after_bind, after_getCpu, after_ite]
    split
    · rename_i hEnable
      simp [Riscvcpu.translation, hEnable]
    · rename_i hEnable
      rw [after_ite]
      split
      · rename_i hPage
        rw [after_ite]
        split
        · rename_i hAllows
          rw [after_pure, Riscvcpu.translation, if_neg hEnable, if_pos hPage, if_pos hAllows]
        · trivial
      · rename_i hPage
        unfold walk
        rw [after_bind]
        refine (after_findLeaf b i vaddr rwx m).mono ?_ fun _ _ _ => trivial
        rintro leaf t ⟨ht, hSuper⟩
        rw [after_bind, after_getCpu, after_bind]
        cases hCheck : leaf.check (t.mycpus i).super (t.mycpus i).statusSum vaddr rwx with
        | error tr => trivial
        | ok paddr =>
          have hOn : (t.mycpus i).mmuEnable = true := by
            rw [ht.congr (fun c => c.mmuEnable) (fun _ => rfl) i]
            simpa using hEnable
          rw [after_liftTrap_ok, after_bind, after_modCpu, after_pure, Machine.modCpu_mycpus_self]
          show ((t.mycpus i).fill vaddr leaf).translation b t.ram vaddr rwx = .ok paddr
          cases hLeaf : leaf.superpage with
          | false => exact Riscvcpu.translation_fill b _ hOn hLeaf hCheck
          | true =>
            have hPage' : ¬vaddr &&& 0xfffff000 = (t.mycpus i).mmuCachedVpage := by
              rw [ht.congr (fun c => c.mmuCachedVpage) (fun _ => rfl) i]
              exact hPage
            have hTable : (t.mycpus i).tableLeaf b t.ram vaddr rwx = .ok leaf := by
              rw [ht.congr (fun c => c.tableLeaf b t.ram vaddr rwx) (fun _ => rfl) i, ht.ram]
              exact hSuper hLeaf
            rw [Riscvcpu.fill, if_pos hLeaf, Riscvcpu.translation, if_neg (by simp [hOn]),
              if_neg hPage', Riscvcpu.tableWalk, hTable]
            exact hCheck

/-- A cpu but for the translation that it remembers. -/
def Riscvcpu.uncached (c : Riscvcpu) : Riscvcpu :=
  { c with
    mmuCachedVpage := 0, mmuCachedPpage := 0, mmuCachedReadable := false
    mmuCachedWriteable := false, mmuCachedExecutable := false }

theorem Riscvcpu.fill_uncached (c : Riscvcpu) (vaddr : Word) (leaf : Leaf) :
    (c.fill vaddr leaf).uncached = c.uncached := by
  unfold fill
  split <;> rfl

theorem Riscvcpu.uncached_congr {c c' : Riscvcpu} (h : c.uncached = c'.uncached) {β : Sort*}
    (g : Riscvcpu → β) (hg : ∀ c : Riscvcpu, g c.uncached = g c) : g c = g c' := by
  rw [← hg c, h, hg]

/-- A translation that needs no register of a device leaves nothing behind but itself. -/
theorem after_translatemem_mem {vaddr : Word} {rwx : Memrwx} {m : Machine δ}
    (hEven : vaddr &&& 0x1 = 0)
    (hMem : (m.mycpus i).Walks vaddr → (m.mycpus i).EntryInMemory m.ram vaddr) :
    After (translatemem b i vaddr rwx)
      (fun paddr t => (m.mycpus i).translation b m.ram vaddr rwx = .ok paddr ∧
        (t = m ∨ (m.mycpus i).Walks vaddr ∧
          ∃ leaf, (m.mycpus i).tableLeaf b m.ram vaddr rwx = .ok leaf ∧
            t = m.modCpu i fun c => c.fill vaddr leaf))
      (fun e t => ∃ tr, (m.mycpus i).translation b m.ram vaddr rwx = .error tr ∧ e = .trap tr ∧
        t = m) m := by
  unfold translatemem Riscvcpu.translation
  rw [if_neg (not_not.mpr hEven), after_bind, after_getCpu, after_ite]
  split
  · exact ⟨rfl, .inl rfl⟩
  next hOn =>
    rw [after_ite]
    split
    · rw [after_ite]
      split
      · exact ⟨rfl, .inl rfl⟩
      · exact ⟨_, rfl, rfl, rfl⟩
    next hPage =>
      have hWalks : (m.mycpus i).Walks vaddr := ⟨by simpa using hOn, hPage⟩
      rw [walk, after_bind, after_findLeaf_mem b i (hMem hWalks), Riscvcpu.tableWalk]
      cases hLeaf : (m.mycpus i).tableLeaf b m.ram vaddr rwx with
      | error tr => exact ⟨tr, rfl, rfl, rfl⟩
      | ok leaf =>
        dsimp only
        rw [after_liftTrap_ok, after_bind, after_getCpu, after_bind]
        cases leaf.check (m.mycpus i).super (m.mycpus i).statusSum vaddr rwx with
        | error tr => exact ⟨tr, rfl, rfl, rfl⟩
        | ok paddr => exact ⟨rfl, .inr ⟨hWalks, leaf, rfl, rfl⟩⟩

/-! ## Offsets -/

/-- The cached page number stands for a page. -/
def Riscvcpu.CacheAligned (c : Riscvcpu) : Prop := c.mmuCachedPpage &&& 0xfff = 0

namespace Riscvcpu

variable {c : Riscvcpu} {vaddr paddr : Word} {rwx : Memrwx} {leaf : Leaf}

theorem CacheAligned.fill (h : c.CacheAligned) : (c.fill vaddr leaf).CacheAligned := by
  unfold Riscvcpu.fill
  split
  · exact h
  · exact offset_ppn _

theorem offset_check {super sum : Bool} (h : leaf.check super sum vaddr rwx = .ok paddr) :
    paddr &&& 0xfff = vaddr &&& 0xfff := by
  obtain ⟨-, -, -, -, -, rfl⟩ := Leaf.check_ok h
  unfold Leaf.offset
  rw [BitVec.and_or_distrib_right, Leaf.base, offset_ppn]
  split
  · rw [BitVec.and_assoc]
    exact BitVec.zero_or
  · rw [BitVec.and_assoc]
    exact BitVec.zero_or

/-- A translation keeps the offset into the page. -/
theorem offset_translation {ram : BitVec 30 → Word} (hCache : c.CacheAligned)
    (h : c.translation b ram vaddr rwx = .ok paddr) : paddr &&& 0xfff = vaddr &&& 0xfff := by
  unfold translation at h
  split at h
  · rw [Except.ok.inj h]
  · split at h
    · split at h
      · rw [← Except.ok.inj h]
        exact PageBits.offset_or _ hCache
      · simp at h
    · unfold tableWalk at h
      split at h
      · simp at h
      · exact offset_check h

end Riscvcpu

theorem align_of_offset {v w : Word} (h : v &&& 0xfff = w &&& 0xfff) : v &&& 0x3 = w &&& 0x3 := by
  have hMask : ∀ u : Word, u &&& 0x3 = u &&& 0xfff &&& 0x3 := by
    intro u
    rw [BitVec.and_assoc]
    rfl
  rw [hMask v, hMask w, h]

end Sys161.Riscv
