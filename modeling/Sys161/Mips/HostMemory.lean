import Sys161.Lib.ByteOrder
import Sys161.Lib.PageBits
import Sys161.Mips.Lamebus

/-!
# Main memory and the boot ROM as the host has them

RAM as bytes in the order of the cpu, read and written by the host as words of
its own. Loads and stores find a word by its physical address; fetches find it
by a pointer to its page. The two maps of physical memory are compared here, and
the memory of words that the rest of the core is about stands for this one.
-/

namespace Sys161.Mips

open ByteOrder Exec

set_option autoImplicit false

/-- `bus_config` dies where the size is not one of whole pages. -/
structure HostMemory where
  busRamsize : Word
  ramsize_page : busRamsize &&& 0xfff = 0
  ram : Nat → BitVec 8
  fakerom : Nat → Word

namespace HostMemory

variable (host cpu : Order) (mem : HostMemory)

/-- `*(uint32_t *)(ram+offset)` -/
def loadWord (offset : Nat) : Word := host.word fun k => mem.ram (offset + k)

def storeWord (offset : Nat) (w : Word) : HostMemory :=
  { mem with
    ram := fun a => if offset ≤ a ∧ a < offset + 4 then host.byte w (a - offset) else mem.ram a }

def busMemFetch (offset : Word) : Option Word :=
  if mem.busRamsize ≤ offset then none else some (ctoh32 host cpu (mem.loadWord host offset.toNat))

def busMemStore (offset val : Word) : Option HostMemory :=
  if mem.busRamsize ≤ offset then none
  else some (mem.storeWord host offset.toNat (htoc32 host cpu val))

def busMemMap (offset : Word) : Option Page :=
  if mem.busRamsize ≤ offset then none else some (.ram offset)

def bootromFetch (offset : Word) : Option Word :=
  if romWords * 4 ≤ offset.toNat then none
  else some (ctoh32 host cpu (mem.fakerom (offset.toNat / 4)))

/-- `ctoh32(page[pageoffset/sizeof(uint32_t)])` -/
def busUseMap (page : Page) (pageoffset : Word) : Word :=
  match page with
  | .ram base => ctoh32 host cpu (mem.loadWord host (base.toNat + 4 * (pageoffset.toNat / 4)))
  | .rom base => ctoh32 host cpu (mem.fakerom (base.toNat / 4 + pageoffset.toNat / 4))

/-- `accessmem` for a read, before the bus error. -/
def accessmemFetch (busIoFetch : Word → Option Word) (paddr : Word) : Option Word :=
  if paddr < 0x1fc00000 then mem.busMemFetch host cpu paddr
  else if paddr < 0x1fe00000 then mem.bootromFetch host cpu (paddr - 0x1fc00000)
  else if paddr < 0x20000000 then busIoFetch (paddr - 0x1fe00000)
  else mem.busMemFetch host cpu (paddr - 0x00400000)

/-- `accessmem` for a write; no device writes to memory. -/
def accessmemStore (busIoStore : Word → Word → Bool) (paddr val : Word) : Option HostMemory :=
  if paddr < 0x1fc00000 then mem.busMemStore host cpu paddr val
  else if paddr < 0x1fe00000 then none
  else if paddr < 0x20000000 then
    if busIoStore (paddr - 0x1fe00000) val then some mem else none
  else mem.busMemStore host cpu (paddr - 0x00400000) val

def mapmem (paddr : Word) : Option Page :=
  let paddr := paddr &&& 0xfffff000
  if paddr < 0x1fc00000 then mem.busMemMap paddr
  else if paddr < 0x1fe00000 then bootromMap (paddr - 0x1fc00000)
  else if paddr < 0x20000000 then none
  else mem.busMemMap (paddr - 0x00400000)

end HostMemory

def RomSpace (paddr : Word) : Prop := 0x1fc00000 ≤ paddr ∧ paddr < 0x1fe00000

def IoSpace (paddr : Word) : Prop := 0x1fe00000 ≤ paddr ∧ paddr < 0x20000000

namespace HostMemory

variable {host cpu : Order} {mem : HostMemory}

/-! ## Words in bytes -/

theorem ctoh32_htoc32 (host cpu : Order) (w : Word) : ctoh32 host cpu (htoc32 host cpu w) = w := by
  have hOut := htoc32_word host cpu (cpu.byte w)
  rw [Order.word_byte] at hOut
  rw [hOut, ctoh32_word, Order.word_byte]

theorem loadWord_storeWord (mem : HostMemory) (offset : Nat) (w : Word) :
    (mem.storeWord host offset w).loadWord host offset = w := by
  rw [loadWord, ← Order.word_byte host w]
  apply Order.word_congr
  intro k hk
  have hIn : offset ≤ offset + k ∧ offset + k < offset + 4 := by omega
  simp only [storeWord, if_pos hIn, Order.word_byte, Nat.add_sub_cancel_left]

theorem loadWord_storeWord_other (mem : HostMemory) {offset offset' : Nat} (w : Word)
    (h : offset' + 4 ≤ offset ∨ offset + 4 ≤ offset') :
    (mem.storeWord host offset w).loadWord host offset' = mem.loadWord host offset' := by
  apply Order.word_congr
  intro k hk
  have hOut : ¬(offset ≤ offset' + k ∧ offset' + k < offset + 4) := by omega
  simp only [storeWord, if_neg hOut]

/-! ## The two maps, in each part of physical memory -/

theorem ramsize_toNat (mem : HostMemory) : mem.busRamsize.toNat % 4096 = 0 := by
  have h := congrArg BitVec.toNat mem.ramsize_page
  rwa [PageBits.toNat_offset] at h

/-- A word of RAM and the page it is on, by their offsets into `ram`. -/
structure OnPage (offset base pageoffset : Word) : Prop where
  align : offset.toNat % 4 = 0
  base : base.toNat = offset.toNat / 4096 * 4096
  pageoffset : pageoffset.toNat = offset.toNat % 4096

/-- One check is for the word and one for the page. -/
theorem OnPage.bound {offset base pageoffset : Word} (h : OnPage offset base pageoffset) :
    mem.busRamsize ≤ base ↔ mem.busRamsize ≤ offset := by
  have hSize := mem.ramsize_toNat
  rw [BitVec.le_def, BitVec.le_def, h.base]
  omega

theorem OnPage.add {offset base pageoffset : Word} (h : OnPage offset base pageoffset) :
    base + pageoffset = offset := by
  have hLt := offset.isLt
  apply BitVec.eq_of_toNat_eq
  rw [BitVec.toNat_add, h.base, h.pageoffset]
  omega

theorem OnPage.useMap {offset base pageoffset : Word} (h : OnPage offset base pageoffset) :
    mem.busUseMap host cpu (.ram base) pageoffset =
      ctoh32 host cpu (mem.loadWord host offset.toNat) := by
  have hWord : base.toNat + 4 * (pageoffset.toNat / 4) = offset.toNat := by
    have hAlign := h.align
    rw [h.base, h.pageoffset]
    omega
  rw [busUseMap, hWord]

theorem OnPage.fetch {offset base pageoffset : Word} (h : OnPage offset base pageoffset) :
    mem.busMemFetch host cpu offset =
      (mem.busMemMap base).map fun page => mem.busUseMap host cpu page pageoffset := by
  rw [busMemFetch, busMemMap]
  by_cases hOut : mem.busRamsize ≤ offset
  · rw [if_pos hOut, if_pos (h.bound.mpr hOut)]
    rfl
  · rw [if_neg hOut, if_neg (mt h.bound.mp hOut), Option.map_some, h.useMap]

theorem OnPage.store {offset base pageoffset : Word} (h : OnPage offset base pageoffset)
    {page : Page} (hPage : mem.busMemMap base = some page) (val : Word) :
    ∃ mem', mem.busMemStore host cpu offset val = some mem' ∧
      mem'.busUseMap host cpu page pageoffset = val := by
  rw [busMemMap] at hPage
  split at hPage
  · cases hPage
  · next hIn =>
    cases hPage
    refine ⟨_, if_neg (mt h.bound.mpr hIn), ?_⟩
    rw [h.useMap, loadWord_storeWord, ctoh32_htoc32]

theorem onPage {paddr : Word} (hAlign : paddr &&& 0x3 = 0) :
    OnPage paddr (paddr &&& 0xfffff000) (paddr &&& 0xfff) where
  align := by
    have h := congrArg BitVec.toNat hAlign
    rwa [PageBits.toNat_align] at h
  base := PageBits.toNat_page paddr
  pageoffset := PageBits.toNat_offset paddr

/-- Above the hole for I/O both maps go down by as much, a number of pages. -/
theorem onPage_high {paddr : Word} (hAlign : paddr &&& 0x3 = 0) (hHigh : ¬paddr < 0x20000000) :
    OnPage (paddr - 0x00400000) ((paddr &&& 0xfffff000) - 0x00400000) (paddr &&& 0xfff) := by
  obtain ⟨hWord, hBase, hOffset⟩ := onPage hAlign
  have hLow : 0x20000000 ≤ paddr.toNat := Nat.not_lt.mp hHigh
  have hSub : (paddr - 0x00400000).toNat = paddr.toNat - 0x400000 :=
    BitVec.toNat_sub_of_le (BitVec.le_def.mpr (by change 0x400000 ≤ _; omega))
  have hSubBase : ((paddr &&& 0xfffff000) - 0x00400000).toNat =
      (paddr &&& 0xfffff000).toNat - 0x400000 :=
    BitVec.toNat_sub_of_le (BitVec.le_def.mpr (by rw [hBase]; change 0x400000 ≤ _; omega))
  constructor <;> omega

theorem mapmem_eq (mem : HostMemory) (paddr : Word) :
    mem.mapmem paddr =
      if paddr < 0x1fc00000 then mem.busMemMap (paddr &&& 0xfffff000)
      else if paddr < 0x1fe00000 then bootromMap ((paddr &&& 0xfffff000) - 0x1fc00000)
      else if paddr < 0x20000000 then none
      else mem.busMemMap ((paddr &&& 0xfffff000) - 0x00400000) := by
  simp only [mapmem, PageBits.page_lt_iff paddr (n := 0x1fc00000) rfl,
    PageBits.page_lt_iff paddr (n := 0x1fe00000) rfl,
    PageBits.page_lt_iff paddr (n := 0x20000000) rfl]

theorem mapmem_io {paddr : Word} (hIo : IoSpace paddr) : mem.mapmem paddr = none := by
  obtain ⟨hLow, hHigh⟩ := hIo
  rw [mapmem_eq, if_neg, if_neg (BitVec.not_lt.mpr hLow), if_pos hHigh]
  rw [BitVec.le_def] at hLow
  rw [BitVec.lt_def]
  change 0x1fe00000 ≤ _ at hLow
  change ¬_ < 0x1fc00000
  omega

theorem toNat_page_sub {paddr : Word} (hLow : 0x1fc00000 ≤ paddr) :
    ((paddr &&& 0xfffff000) - 0x1fc00000).toNat = paddr.toNat / 4096 * 4096 - 0x1fc00000 := by
  have hBase := PageBits.toNat_page paddr
  rw [← hBase]
  refine BitVec.toNat_sub_of_le (BitVec.le_def.mpr ?_)
  rw [BitVec.le_def] at hLow
  rw [hBase]
  change 0x1fc00000 ≤ _ at hLow
  change 0x1fc00000 ≤ _
  omega

theorem rom_index {n : Nat} (h : 0x1fc00000 ≤ n) :
    (1024 * 4 ≤ n / 4096 * 4096 - 0x1fc00000 ↔ 1024 * 4 ≤ n - 0x1fc00000) ∧
    (n / 4096 * 4096 - 0x1fc00000) / 4 + n % 4096 / 4 = (n - 0x1fc00000) / 4 := by omega

theorem rom_base {n : Nat} (hIn : ¬1024 * 4 ≤ n / 4096 * 4096 - 0x1fc00000) :
    n / 4096 * 4096 - 0x1fc00000 = 0 := by omega

/-- The boot ROM is one page. -/
theorem bootromFetch_eq {paddr : Word} (hRom : RomSpace paddr) :
    mem.bootromFetch host cpu (paddr - 0x1fc00000) =
      (bootromMap ((paddr &&& 0xfffff000) - 0x1fc00000)).map
        fun page => mem.busUseMap host cpu page (paddr &&& 0xfff) := by
  have hSub : (paddr - 0x1fc00000).toNat = paddr.toNat - 0x1fc00000 :=
    BitVec.toNat_sub_of_le hRom.1
  obtain ⟨hPage, hIndex⟩ := rom_index hRom.1
  rw [bootromFetch, bootromMap, hSub, toNat_page_sub hRom.1, romWords]
  by_cases hOut : 1024 * 4 ≤ paddr.toNat - 0x1fc00000
  · rw [if_pos hOut, if_pos (hPage.mpr hOut), Option.map_none]
  · rw [if_neg hOut, if_neg (mt hPage.mp hOut), Option.map_some, busUseMap,
      toNat_page_sub hRom.1, PageBits.toNat_offset, hIndex]

/-- A load is a fetch through the page. -/
theorem accessmemFetch_eq (busIoFetch : Word → Option Word) {paddr : Word}
    (hAlign : paddr &&& 0x3 = 0) (hIo : ¬IoSpace paddr) :
    mem.accessmemFetch host cpu busIoFetch paddr =
      (mem.mapmem paddr).map fun page => mem.busUseMap host cpu page (paddr &&& 0xfff) := by
  rw [accessmemFetch, mapmem_eq]
  by_cases hLow : paddr < 0x1fc00000
  · rw [if_pos hLow, if_pos hLow, (onPage hAlign).fetch]
  rw [if_neg hLow, if_neg hLow]
  by_cases hRom : paddr < 0x1fe00000
  · rw [if_pos hRom, if_pos hRom, bootromFetch_eq ⟨BitVec.not_lt.mp hLow, hRom⟩]
  rw [if_neg hRom, if_neg hRom]
  have hHigh : ¬paddr < 0x20000000 := fun h => hIo ⟨BitVec.not_lt.mp hRom, h⟩
  rw [if_neg hHigh, if_neg hHigh, (onPage_high hAlign hHigh).fetch]

/-- A page of RAM, or the one of the ROM. -/
theorem mapmem_cases {paddr : Word} {page : Page} (hAlign : paddr &&& 0x3 = 0)
    (hPage : mem.mapmem paddr = some page) :
    (∃ offset base, OnPage offset base (paddr &&& 0xfff) ∧ page = .ram base) ∨
    (∃ base, base.toNat + (paddr &&& 0xfff).toNat < 4 * romWords ∧ base.toNat % 4 = 0 ∧
      page = .rom base) := by
  rw [mapmem_eq] at hPage
  by_cases hLow : paddr < 0x1fc00000
  · rw [if_pos hLow, busMemMap] at hPage
    split at hPage <;> cases hPage
    exact .inl ⟨_, _, onPage hAlign, rfl⟩
  rw [if_neg hLow] at hPage
  by_cases hRom : paddr < 0x1fe00000
  · rw [if_pos hRom, bootromMap] at hPage
    split at hPage <;> cases hPage
    next hIn =>
      have hSub : ((paddr &&& 0xfffff000) - 0x1fc00000).toNat =
          paddr.toNat / 4096 * 4096 - 0x1fc00000 := toNat_page_sub (BitVec.not_lt.mp hLow)
      rw [hSub, romWords] at hIn
      have hFirst := rom_base hIn
      refine .inr ⟨_, ?_, ?_, rfl⟩
      · rw [hSub, hFirst, PageBits.toNat_offset, romWords, Nat.zero_add]
        exact Nat.mod_lt _ (by decide)
      · rw [hSub, hFirst]
  rw [if_neg hRom] at hPage
  by_cases hHigh : paddr < 0x20000000
  · rw [if_pos hHigh] at hPage
    cases hPage
  rw [if_neg hHigh, busMemMap] at hPage
  split at hPage <;> cases hPage
  exact .inl ⟨_, _, onPage_high hAlign hHigh, rfl⟩

theorem accessmemStore_visible (busIoStore : Word → Word → Bool) {paddr : Word} {page : Page}
    (hAlign : paddr &&& 0x3 = 0) (hPage : mem.mapmem paddr = some page) (hRam : ¬RomSpace paddr)
    (val : Word) :
    ∃ mem', mem.accessmemStore host cpu busIoStore paddr val = some mem' ∧
      mem'.busUseMap host cpu page (paddr &&& 0xfff) = val := by
  rw [mapmem_eq] at hPage
  rw [accessmemStore]
  by_cases hLow : paddr < 0x1fc00000
  · rw [if_pos hLow] at hPage ⊢
    exact (onPage hAlign).store hPage val
  rw [if_neg hLow] at hPage ⊢
  have hRom : ¬paddr < 0x1fe00000 := fun h => hRam ⟨BitVec.not_lt.mp hLow, h⟩
  rw [if_neg hRom] at hPage ⊢
  by_cases hHigh : paddr < 0x20000000
  · rw [if_pos hHigh] at hPage
    cases hPage
  rw [if_neg hHigh] at hPage ⊢
  exact (onPage_high hAlign hHigh).store hPage val

theorem accessmemStore_mapmem {busIoStore : Word → Word → Bool} {paddr val : Word}
    {mem' : HostMemory} (h : mem.accessmemStore host cpu busIoStore paddr val = some mem') :
    mem'.mapmem = mem.mapmem := by
  have hStored : mem'.busRamsize = mem.busRamsize := by
    simp only [accessmemStore, busMemStore] at h
    split_ifs at h <;> cases h <;> rfl
  funext paddr'
  simp only [mapmem, busMemMap, hStored]

end HostMemory

/-! ## Pages obtained before -/

namespace HostMemory

variable (host cpu : Order) (busIoStore : Word → Word → Bool)

/-- A write, that may be a bus error. -/
def write (mem : HostMemory) (access : Word × Word) : HostMemory :=
  (mem.accessmemStore host cpu busIoStore access.1 access.2).getD mem

theorem write_mapmem (mem : HostMemory) (access : Word × Word) :
    (mem.write host cpu busIoStore access).mapmem = mem.mapmem := by
  rw [write]
  cases hStore : mem.accessmemStore host cpu busIoStore access.1 access.2 with
  | none => rfl
  | some mem' => exact accessmemStore_mapmem hStore

theorem writes_mapmem (mem : HostMemory) (accesses : List (Word × Word)) :
    (accesses.foldl (write host cpu busIoStore) mem).mapmem = mem.mapmem := by
  induction accesses generalizing mem with
  | nil => rfl
  | cons access accesses ih => rw [List.foldl_cons, ih, write_mapmem]

/-- Fetches and loads see the same memory, through pages obtained before any writes. -/
theorem fetch_load_agree (mem : HostMemory) (busIoFetch : Word → Option Word)
    (accesses : List (Word × Word)) {paddr : Word} (hAlign : paddr &&& 0x3 = 0) :
    let mem' := accesses.foldl (write host cpu busIoStore) mem
    (IoSpace paddr → mem.mapmem paddr = none) ∧
    (¬IoSpace paddr →
      ((mem.mapmem paddr).isSome ↔ (mem.accessmemFetch host cpu busIoFetch paddr).isSome)) ∧
    ∀ page, mem.mapmem paddr = some page →
      mem'.mapmem paddr = some page ∧
      mem'.accessmemFetch host cpu busIoFetch paddr =
        some (mem'.busUseMap host cpu page (paddr &&& 0xfff)) ∧
      (¬RomSpace paddr → ∀ val, ∃ mem'',
        mem'.accessmemStore host cpu busIoStore paddr val = some mem'' ∧
        mem''.busUseMap host cpu page (paddr &&& 0xfff) = val) := by
  intro mem'
  have hMap : mem'.mapmem = mem.mapmem := writes_mapmem host cpu busIoStore mem accesses
  refine ⟨mapmem_io, fun hIo => ?_, fun page hPage => ?_⟩
  · rw [accessmemFetch_eq busIoFetch hAlign hIo, Option.isSome_map]
  · have hIo : ¬IoSpace paddr := by
      intro hIo
      rw [mapmem_io hIo] at hPage
      cases hPage
    have hPage' : mem'.mapmem paddr = some page := by rw [hMap, hPage]
    refine ⟨hPage', ?_, fun hRam val => accessmemStore_visible busIoStore hAlign hPage' hRam val⟩
    rw [accessmemFetch_eq busIoFetch hAlign hIo, hPage', Option.map_some]

theorem twoPages : (0x2000 : Word) &&& 0xfff = 0 := by decide

/-- Memory of two pages on a small-endian host, where nothing has been written. -/
def blank : HostMemory where
  busRamsize := 0x2000
  ramsize_page := twoPages
  ram _ := 0
  fakerom _ := 0

/-- The last word of the last page. -/
theorem last_word_agrees :
    ∃ mem'', (blank.write .little .big (fun _ _ => false) (0x1ffc, 0x12345678)).accessmemStore
        .little .big (fun _ _ => false) 0x1ffc 0xcafe = some mem'' ∧
      mem''.busUseMap .little .big (.ram 0x1000) 0xffc = 0xcafe := by
  have hAgree := fetch_load_agree .little .big (fun _ _ => false) blank (fun _ => none)
    [(0x1ffc, 0x12345678)] (by decide : (0x1ffc : Word) &&& 0x3 = 0)
  obtain ⟨-, -, hPage⟩ := hAgree
  obtain ⟨-, -, hStore⟩ := hPage (.ram 0x1000) (by decide)
  exact hStore (fun hRom => absurd hRom.1 (by decide)) 0xcafe

end HostMemory

/-! ## The memory of the core -/

theorem wordIndex_toNat (offset : Word) : (wordIndex offset).toNat = offset.toNat / 4 := by
  have hLt := offset.isLt
  rw [wordIndex, BitVec.extractLsb'_toNat, Nat.shiftRight_eq_div_pow]
  exact Nat.mod_eq_of_lt (by omega)

variable {δ : Type} {host : Order} {mem : HostMemory} {b : Board δ} {m : Machine δ}

variable (host mem b m) in
/-- The memory of words stands for the host's. -/
structure Stands : Prop where
  ramsize : mem.busRamsize = b.busRamsize
  ram (offset : Word) (hAlign : offset.toNat % 4 = 0) :
    ctoh32 host .big (mem.loadWord host offset.toNat) = m.ram (wordIndex offset)
  rom (index : Nat) (hIndex : index < romWords) :
    ctoh32 host .big (mem.fakerom index) = fakerom index

namespace Stands

variable (h : Stands host mem b m)

include h

theorem mapmem (paddr : Word) : mem.mapmem paddr = Mips.mapmem b paddr := by
  simp only [HostMemory.mapmem, HostMemory.busMemMap, Mips.mapmem, Mips.busMemMap, h.ramsize]

theorem busMemFetch {offset : Word} (hAlign : offset.toNat % 4 = 0) :
    mem.busMemFetch host .big offset = m.busMemFetch b offset := by
  rw [HostMemory.busMemFetch, Machine.busMemFetch, h.ramsize, h.ram offset hAlign]

theorem bootromFetch (offset : Word) :
    mem.bootromFetch host .big offset = Mips.bootromFetch offset := by
  rw [HostMemory.bootromFetch, Mips.bootromFetch]
  split
  · rfl
  · next hIn => rw [h.rom _ (Nat.div_lt_of_lt_mul (by omega))]

theorem storeWord {offset : Word} (hAlign : offset.toNat % 4 = 0) (val : Word) :
    Stands host (mem.storeWord host offset.toNat (htoc32 host .big val)) b
      { m with ram := Function.update m.ram (wordIndex offset) val } where
  ramsize := h.ramsize
  ram offset' hAlign' := by
    change _ = Function.update m.ram (wordIndex offset) val (wordIndex offset')
    by_cases hSame : offset' = offset
    · rw [hSame, HostMemory.loadWord_storeWord, HostMemory.ctoh32_htoc32, Function.update_self]
    · have hApart : offset'.toNat ≠ offset.toNat := fun hEq => hSame (BitVec.eq_of_toNat_eq hEq)
      have hIndex : wordIndex offset' ≠ wordIndex offset := by
        intro hEq
        have hWord := congrArg BitVec.toNat hEq
        rw [wordIndex_toNat, wordIndex_toNat] at hWord
        omega
      rw [HostMemory.loadWord_storeWord_other mem _ (by omega), Function.update_of_ne hIndex,
        h.ram offset' hAlign']
  rom := h.rom

variable {i : Nat} {E : Stop → Machine δ → Prop}

theorem fetchPhys {paddr : Word} (busIoFetch : Word → Option Word) (hAlign : paddr &&& 0x3 = 0)
    (hIo : ¬IoSpace paddr) :
    After (Mips.fetchPhys b i paddr)
      (fun val m' => val = mem.accessmemFetch host .big busIoFetch paddr ∧ m' = m) E m := by
  have hWord := (HostMemory.onPage hAlign).align
  rw [Mips.fetchPhys, HostMemory.accessmemFetch]
  by_cases hLow : paddr < 0x1fc00000
  · rw [if_pos hLow, if_pos hLow, h.busMemFetch hWord]
    simp
  rw [if_neg hLow, if_neg hLow]
  by_cases hRom : paddr < 0x1fe00000
  · rw [if_pos hRom, if_pos hRom, h.bootromFetch]
    simp
  have hHigh : ¬paddr < 0x20000000 := fun hHigh => hIo ⟨BitVec.not_lt.mp hRom, hHigh⟩
  rw [if_neg hRom, if_neg hRom, if_neg hHigh, if_neg hHigh,
    h.busMemFetch (HostMemory.onPage_high hAlign hHigh).align]
  simp

theorem busMemStore {offset : Word} (hAlign : offset.toNat % 4 = 0) (val : Word) :
    After (Mips.busMemStore b offset val)
      (fun done m' => match mem.busMemStore host .big offset val with
        | some mem' => done = true ∧ Stands host mem' b m'
        | none => done = false ∧ m' = m) E m := by
  rw [Mips.busMemStore, HostMemory.busMemStore, h.ramsize]
  split
  · simp
  · simpa using h.storeWord hAlign val

theorem storePhys {paddr : Word} (busIoStore : Word → Word → Bool) (hAlign : paddr &&& 0x3 = 0)
    (hIo : ¬IoSpace paddr) (val : Word) :
    After (Mips.storePhys b i paddr val)
      (fun done m' => match mem.accessmemStore host .big busIoStore paddr val with
        | some mem' => done = true ∧ Stands host mem' b m'
        | none => done = false ∧ m' = m) E m := by
  have hWord := (HostMemory.onPage hAlign).align
  rw [Mips.storePhys, HostMemory.accessmemStore]
  by_cases hLow : paddr < 0x1fc00000
  · rw [if_pos hLow, if_pos hLow]
    exact h.busMemStore hWord val
  rw [if_neg hLow, if_neg hLow]
  by_cases hRom : paddr < 0x1fe00000
  · rw [if_pos hRom, if_pos hRom]
    simp
  have hHigh : ¬paddr < 0x20000000 := fun hHigh => hIo ⟨BitVec.not_lt.mp hRom, hHigh⟩
  rw [if_neg hRom, if_neg hRom, if_neg hHigh, if_neg hHigh]
  exact h.busMemStore (HostMemory.onPage_high hAlign hHigh).align val

/-- What a fetch of the core finds through a page is what the host does. -/
theorem busUseMap {paddr : Word} {page : Page} (hAlign : paddr &&& 0x3 = 0)
    (hPage : Mips.mapmem b paddr = some page) :
    mem.busUseMap host .big page (paddr &&& 0xfff) =
      Mips.busUseMap m.ram page (paddr &&& 0xfff) := by
  rw [← h.mapmem] at hPage
  obtain ⟨offset, base, hWord, rfl⟩ | ⟨base, hIn, hBase, rfl⟩ :=
    HostMemory.mapmem_cases hAlign hPage
  · rw [hWord.useMap, Mips.busUseMap, hWord.add, h.ram offset hWord.align]
  · have hLt : base.toNat + (paddr &&& 0xfff).toNat < 2 ^ 32 := by
      rw [romWords] at hIn
      omega
    have hIndex : (base + (paddr &&& 0xfff)).toNat / 4 =
        base.toNat / 4 + (paddr &&& 0xfff).toNat / 4 := by
      rw [BitVec.toNat_add_of_lt hLt]
      omega
    rw [HostMemory.busUseMap, Mips.busUseMap, hIndex, h.rom _ (by omega)]

end Stands

end Sys161.Mips
