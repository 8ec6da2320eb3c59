import Sys161.Bus.Boot
import Sys161.Disk161.Tool
import Sys161.Lib.Numeral
import Sys161.Lib.PageBits

/-!
# Sizes in the configuration

`getsize` from `util.c`, which does what the one of the disk tool does, and the
options of the mainboard and of disks that are given a size.
-/

namespace Sys161.Bus

open CString Disk161

set_option autoImplicit false

/-- An argument of a device, and the text of an option. -/
abbrev Argument := List (BitVec 8)

def getsize (str : Argument) : Except String Int :=
  let n := strtoll 0 str
  if n.erange then
    .error s!"{text str}: Invalid number"
  else
    match suffixed n.value n.rest with
    | some size => .ok size
    | none => .error s!"{text str}: Invalid size suffix {text n.rest}\n"

/-- What is behind the name of an option, if `strncmp` finds it in front. -/
def optionValue (name : String) (arg : Argument) : Option Argument :=
  if name.toList.map ch <+: arg then some (arg.drop name.length) else none

/-! ## The mainboard -/

structure MainboardConfig where
  busRamsize : BitVec 32
  tmpNcpus : BitVec 64
  ncores : BitVec 64

def mainboardName (isold : Bool) : String := if isold then "oldmainboard" else "mainboard"

def mainboardOption (isold : Bool) (c : MainboardConfig) (arg : Argument) :
    Except String MainboardConfig :=
  match optionValue "ramsize=" arg with
  | some size => (getsize size).map fun size => { c with busRamsize := BitVec.ofInt 32 size }
  | none =>
    match isold, optionValue "cpus=" arg, optionValue "cores=" arg with
    | false, some n, _ => .ok { c with tmpNcpus := (strtoul 0 n).value }
    | false, none, some n => .ok { c with ncores := (strtoul 0 n).value }
    | _, _, _ => .error s!"{mainboardName isold}: invalid option \x60{text arg}\x27"

/-- The checks at the end of `lamebus_commonmainboard_init`. -/
def cpusChecked (isold : Bool) (c : MainboardConfig) : Except String MainboardConfig :=
  if c.tmpNcpus = 0 ∨ c.ncores = 0 then
    .error s!"{mainboardName isold}: give me no CPUs and I\x27ll give you no lies"
  else if c.ncores > 1 then
    .error s!"{mainboardName isold}: no support for multicore CPUs yet"
  else if c.tmpNcpus > 32 then
    .error s!"{mainboardName isold}: too many CPUs"
  else
    .ok c

def commonmainboardInit (isold : Bool) (args : List Argument) : Except String MainboardConfig :=
  (args.foldlM (mainboardOption isold) { busRamsize := 0, tmpNcpus := 1, ncores := 1 }).bind
    (cpusChecked isold)

/-- The end of `bus_config`, when there are the devices. There is memory for the RAM. -/
def ramChecked (configfile : String) (c : MainboardConfig) : Except String MainboardConfig :=
  if c.busRamsize = 0 then
    .error s!"config {configfile}: No system memory"
  else if c.busRamsize &&& 0xfff ≠ 0 then
    .error s!"config {configfile}: System memory size not page-aligned"
  else if c.busRamsize > maxmem then
    .error s!"config {configfile}: System memory too large"
  else
    .ok c

def busConfig (configfile : String) (isold : Bool) (args : List Argument) :
    Except String MainboardConfig :=
  (commonmainboardInit isold args).bind (ramChecked configfile)

/-! ## Disks -/

/-- The option `size=` in `disk_init`. -/
def diskSize (slot : Nat) (str : Argument) : Except String (BitVec 32) := do
  let size ← getsize str
  if size.tmod 512 ≠ 0 then
    .error s!"disk: slot {slot}: Configured size is not a unit number of sectors"
  else
    .ok (BitVec.ofInt 32 (size.tdiv 512))

/-! ## What sizes mean -/

/-- The number in front and the suffix. There need not be a number. -/
def sizeNumber (str : Argument) : Int × Argument := (numeral 0 str).getD (0, str)

def sizeUnit (suffix : Argument) : Option Int :=
  if suffix = [] ∨ suffix = [ch 'b'] then some 1
  else if suffix = [ch 's'] then some 512
  else if suffix = [ch 'k'] ∨ suffix = [ch 'K'] then some 1024
  else if suffix = [ch 'm'] ∨ suffix = [ch 'M'] then some 1048576
  else if suffix = [ch 'g'] ∨ suffix = [ch 'G'] then some 1073741824
  else none

/-- Number times unit. -/
def requestedSize (str : Argument) : Option Int :=
  (sizeUnit (sizeNumber str).2).map ((sizeNumber str).1 * ·)

/-- The number is a `long long`. -/
def NumberFits (str : Argument) : Prop :=
  -2 ^ 63 ≤ (sizeNumber str).1 ∧ (sizeNumber str).1 < 2 ^ 63

theorem offT_mul (x y : Int) : offT (offT x * y) = offT (x * y) := Int.bmod_mul_bmod

theorem suffixed_eq {n : Int} (suffix : Argument) (hLow : -2 ^ 63 ≤ n) (hHigh : n < 2 ^ 63) :
    suffixed n suffix = (sizeUnit suffix).map fun unit => offT (n * unit) := by
  have hSame : offT (n * 1) = n := by
    rw [Int.mul_one]
    exact Int.bmod_eq_of_le (by omega) (by omega)
  unfold suffixed sizeUnit
  split
  · rw [Option.map_some, hSame]
  · split
    · rfl
    · split
      · rfl
      · split
        · rw [Option.map_some, offT_mul, Int.mul_assoc]
          rfl
        · split
          · rw [Option.map_some, offT_mul, Int.mul_assoc, offT_mul, Int.mul_assoc]
            rfl
          · rfl

theorem strtoll_sizeNumber (str : Argument) :
    strtoll 0 str =
      if (sizeNumber str).1 < -2 ^ 63 then
        { value := -2 ^ 63, rest := (sizeNumber str).2, erange := true }
      else if 2 ^ 63 ≤ (sizeNumber str).1 then
        { value := 2 ^ 63 - 1, rest := (sizeNumber str).2, erange := true }
      else { value := (sizeNumber str).1, rest := (sizeNumber str).2, erange := false } := by
  unfold sizeNumber
  cases hNumeral : numeral 0 str with
  | none => exact strtoll_of_none hNumeral
  | some q => exact strtoll_of_some hNumeral

/-- A size is read as it is written, up to what an `off_t` holds. -/
theorem getsize_eq_ok_iff {str : Argument} {v : Int} :
    getsize str = .ok v ↔
      NumberFits str ∧ ∃ size, requestedSize str = some size ∧ v = offT size := by
  unfold getsize NumberFits requestedSize
  rw [strtoll_sizeNumber]
  generalize sizeNumber str = q
  obtain ⟨n, suffix⟩ := q
  dsimp only
  split
  · next hLow => exact iff_of_false (by simp) (fun h => absurd h.1.1 (Int.not_le.mpr hLow))
  · next hLow =>
    split
    · next hHigh => exact iff_of_false (by simp) (fun h => absurd h.1.2 (Int.not_lt.mpr hHigh))
    · next hHigh =>
      rw [Int.not_lt] at hLow
      rw [Int.not_le] at hHigh
      rw [if_neg Bool.false_ne_true, suffixed_eq suffix hLow hHigh]
      cases sizeUnit suffix with
      | none => simp
      | some unit =>
        simp only [Option.map_some, Except.ok.injEq, Option.some.injEq, exists_eq_left']
        constructor
        · rintro rfl
          exact ⟨⟨hLow, hHigh⟩, rfl⟩
        · rintro ⟨-, rfl⟩
          rfl

/-- No size is nearer to zero than its number. -/
theorem numberFits_of_size {str : Argument} {size : Int} (h : requestedSize str = some size)
    (hLow : -2 ^ 63 ≤ size) (hHigh : size < 2 ^ 63) : NumberFits str := by
  unfold requestedSize at h
  unfold NumberFits
  generalize (sizeNumber str).1 = n at h
  obtain ⟨unit, hUnit, rfl⟩ := Option.map_eq_some_iff.mp h
  have hPos : unit = 1 ∨ unit = 512 ∨ unit = 1024 ∨ unit = 1048576 ∨ unit = 1073741824 := by
    unfold sizeUnit at hUnit
    split at hUnit
    · simp_all
    · split at hUnit
      · simp_all
      · split at hUnit
        · simp_all
        · split at hUnit
          · simp_all
          · split at hUnit
            · simp_all
            · cases hUnit
  rcases hPos with rfl | rfl | rfl | rfl | rfl <;> omega

theorem offT_eq_iff {n : Int} : offT n = n ↔ -2 ^ 63 ≤ n ∧ n < 2 ^ 63 := by
  unfold offT
  constructor
  · intro hEq
    have hLow := Int.le_bmod (x := n) (m := 2 ^ 64) (by decide)
    have hHigh := Int.bmod_lt (x := n) (m := 2 ^ 64) (by decide)
    omega
  · rintro ⟨hLow, hHigh⟩
    exact Int.bmod_eq_of_le (by omega) (by omega)

theorem exists_offT (n : Int) : ∃ k, offT n = n - 2 ^ 64 * k := by
  have hDiv := Int.bmod_add_bdiv n (2 ^ 64)
  refine ⟨n.bdiv (2 ^ 64), ?_⟩
  unfold offT
  omega

/-- What is read is right or refused. -/
def GetsizeRight (str : Argument) : Prop := ∀ v, getsize str = .ok v → requestedSize str = some v

theorem getsizeRight_iff {str : Argument} :
    GetsizeRight str ↔ ∀ size, requestedSize str = some size → NumberFits str →
      -2 ^ 63 ≤ size ∧ size < 2 ^ 63 := by
  constructor
  · intro hRight size hSize hFits
    have hEq := hRight _ (getsize_eq_ok_iff.mpr ⟨hFits, size, hSize, rfl⟩)
    rw [hSize, Option.some.injEq] at hEq
    exact offT_eq_iff.mp hEq.symm
  · intro hAll v hv
    obtain ⟨hFits, size, hSize, rfl⟩ := getsize_eq_ok_iff.mp hv
    rw [hSize, offT_eq_iff.mpr (hAll size hSize hFits)]

/-! ## The size of the RAM -/

/-- A size that the mainboard may have. -/
def ValidRam (size : Int) : Prop := 0 < size ∧ size % 4096 = 0 ∧ size ≤ 16777216

theorem toNat_ofInt_offT (size : Int) :
    ((BitVec.ofInt 32 (offT size)).toNat : Int) = size % 2 ^ 32 := by
  obtain ⟨k, hk⟩ := exists_offT size
  rw [BitVec.toNat_ofInt, hk]
  omega

/-- The options of a mainboard are set apart from each other. -/
theorem foldlM_ramsize {isold : Bool} {args : List Argument} {c c' : MainboardConfig}
    (hOther : ∀ arg ∈ args, optionValue "ramsize=" arg = none) (w : BitVec 32)
    (h : args.foldlM (mainboardOption isold) c = .ok c') :
    args.foldlM (mainboardOption isold) { c with busRamsize := w } =
      .ok { c' with busRamsize := w } := by
  induction args generalizing c with
  | nil =>
    cases h
    rfl
  | cons arg args ih =>
    rw [List.foldlM_cons] at h ⊢
    have hNone := hOther arg (List.mem_cons_self ..)
    cases hOption : mainboardOption isold c arg with
    | error e =>
      rw [hOption] at h
      cases h
    | ok d =>
      rw [hOption] at h
      have hSame : mainboardOption isold { c with busRamsize := w } arg =
          .ok { d with busRamsize := w } := by
        unfold mainboardOption at hOption ⊢
        rw [hNone] at hOption ⊢
        dsimp only at hOption ⊢
        split at hOption
        · cases hOption
          rfl
        · cases hOption
          rfl
        · cases hOption
      rw [hSame]
      exact ih (fun arg' hArg => hOther arg' (List.mem_cons_of_mem _ hArg)) h

theorem optionValue_append (str : Argument) :
    optionValue "ramsize=" ("ramsize=".toList.map ch ++ str) = some str := by
  have hLength : "ramsize=".length = ("ramsize=".toList.map ch).length := rfl
  rw [optionValue, if_pos (List.prefix_append _ _), hLength, List.drop_left]

/-- The numbers of cpus and cores are checked, not the size. -/
theorem cpusChecked_ramsize {isold : Bool} {c c' : MainboardConfig}
    (h : cpusChecked isold c = .ok c') (w : BitVec 32) :
    c' = c ∧ cpusChecked isold { c with busRamsize := w } = .ok { c with busRamsize := w } := by
  unfold cpusChecked at h ⊢
  split at h
  · cases h
  · next hSome =>
    split at h
    · cases h
    · next hOne =>
      split at h
      · cases h
      · next hFew =>
        cases h
        rw [if_neg hSome, if_neg hOne, if_neg hFew]
        exact ⟨rfl, rfl⟩

/-- The last size given is that of the RAM. -/
theorem commonmainboardInit_eq {isold : Bool} {before behind : List Argument}
    {c : MainboardConfig} {str : Argument}
    (hOthers : commonmainboardInit isold (before ++ behind) = .ok c)
    (hLast : ∀ arg ∈ behind, optionValue "ramsize=" arg = none) :
    commonmainboardInit isold (before ++ ("ramsize=".toList.map ch ++ str) :: behind) =
      (getsize str).map fun size => { c with busRamsize := BitVec.ofInt 32 size } := by
  unfold commonmainboardInit at hOthers ⊢
  rw [List.foldlM_append] at hOthers ⊢
  cases hBefore : before.foldlM (mainboardOption isold)
      { busRamsize := 0, tmpNcpus := 1, ncores := 1 } with
  | error e =>
    rw [hBefore] at hOthers
    cases hOthers
  | ok d =>
    rw [hBefore] at hOthers
    change ((behind.foldlM (mainboardOption isold) d).bind _) = _ at hOthers
    change ((mainboardOption isold d _).bind fun d => behind.foldlM _ d).bind _ = _
    have hOption : mainboardOption isold d ("ramsize=".toList.map ch ++ str) =
        (getsize str).map fun size => { d with busRamsize := BitVec.ofInt 32 size } := by
      unfold mainboardOption
      rw [optionValue_append]
    rw [hOption]
    cases hBehind : behind.foldlM (mainboardOption isold) d with
    | error e =>
      rw [hBehind] at hOthers
      cases hOthers
    | ok d' =>
      rw [hBehind] at hOthers
      cases getsize str with
      | error e => rfl
      | ok size =>
        obtain ⟨rfl, hChecked⟩ := cpusChecked_ramsize hOthers (BitVec.ofInt 32 size)
        have hRam := foldlM_ramsize hLast (BitVec.ofInt 32 size) hBehind
        change Except.bind (behind.foldlM _ { d with busRamsize := BitVec.ofInt 32 size }) _ = _
        rw [hRam]
        exact hChecked

/-- With this size given the RAM is what was asked for, or the machine does not start. -/
def MainboardRight (configfile : String) (isold : Bool) (before behind : List Argument)
    (str : Argument) : Prop :=
  (∀ c, busConfig configfile isold (before ++ ("ramsize=".toList.map ch ++ str) :: behind) = .ok c →
    ∃ size, requestedSize str = some size ∧ ValidRam size ∧ (c.busRamsize.toNat : Int) = size) ∧
  ∀ size, requestedSize str = some size → ValidRam size → ∃ c,
    busConfig configfile isold (before ++ ("ramsize=".toList.map ch ++ str) :: behind) = .ok c

/-- The checks of the RAM are of the word that the size has become. -/
theorem ramChecked_eq_ok_iff {configfile : String} {c c' : MainboardConfig} :
    ramChecked configfile c = .ok c' ↔ c' = c ∧ ValidRam c.busRamsize.toNat := by
  have hZero : c.busRamsize = 0 ↔ c.busRamsize.toNat = 0 := by
    rw [← BitVec.toNat_inj]
    rfl
  have hPage : c.busRamsize &&& 0xfff = 0 ↔ c.busRamsize.toNat % 4096 = 0 := by
    rw [← BitVec.toNat_inj, PageBits.toNat_offset]
    rfl
  have hMax : c.busRamsize > maxmem ↔ 16777216 < c.busRamsize.toNat := BitVec.lt_def
  unfold ramChecked ValidRam
  split
  · next hNone =>
    rw [hZero] at hNone
    exact iff_of_false (by simp) (by omega)
  · next hSome =>
    rw [hZero] at hSome
    split
    · next hOdd =>
      rw [ne_eq, hPage] at hOdd
      exact iff_of_false (by simp) (by omega)
    · next hEven =>
      rw [ne_eq, not_not, hPage] at hEven
      split
      · next hLarge =>
        rw [hMax] at hLarge
        exact iff_of_false (by simp) (by omega)
      · next hFits =>
        rw [hMax] at hFits
        rw [Except.ok.injEq, eq_comm]
        exact (and_iff_left (by omega)).symm

theorem mainboardRight_iff {configfile : String} {isold : Bool} {before behind : List Argument}
    {c : MainboardConfig} {str : Argument}
    (hOthers : commonmainboardInit isold (before ++ behind) = .ok c)
    (hLast : ∀ arg ∈ behind, optionValue "ramsize=" arg = none) :
    MainboardRight configfile isold before behind str ↔
      ∀ size, requestedSize str = some size → NumberFits str → ValidRam (size % 2 ^ 32) →
        ValidRam size := by
  have hConfig {c'} : busConfig configfile isold
      (before ++ ("ramsize=".toList.map ch ++ str) :: behind) = .ok c' ↔
      NumberFits str ∧ ∃ size, requestedSize str = some size ∧ ValidRam (size % 2 ^ 32) ∧
        c' = { c with busRamsize := BitVec.ofInt 32 (offT size) } := by
    rw [busConfig, commonmainboardInit_eq hOthers hLast]
    cases hGetsize : getsize str with
    | error e =>
      refine iff_of_false (fun hOk => by cases hOk) ?_
      rintro ⟨hFits, size, hSize, -⟩
      rw [getsize_eq_ok_iff.mpr ⟨hFits, size, hSize, rfl⟩] at hGetsize
      cases hGetsize
    | ok v =>
      obtain ⟨hFits, size, hSize, rfl⟩ := getsize_eq_ok_iff.mp hGetsize
      change ramChecked configfile { c with busRamsize := BitVec.ofInt 32 (offT size) } = _ ↔ _
      rw [ramChecked_eq_ok_iff, toNat_ofInt_offT, hSize]
      simp only [Option.some.injEq, exists_eq_left']
      exact ⟨fun h => ⟨hFits, h.2, h.1⟩, fun h => ⟨h.2.2, h.2.1⟩⟩
  constructor
  · rintro ⟨hRight, -⟩ size hSize hFits hValid
    obtain ⟨size', hSize', hValid', -⟩ := hRight _ (hConfig.mpr ⟨hFits, size, hSize, hValid, rfl⟩)
    rw [hSize, Option.some.injEq] at hSize'
    rw [hSize']
    exact hValid'
  · intro hAll
    constructor
    · intro c' hOk
      obtain ⟨hFits, size, hSize, hMod, rfl⟩ := hConfig.mp hOk
      have hValid := hAll size hSize hFits hMod
      refine ⟨size, hSize, hValid, ?_⟩
      rw [toNat_ofInt_offT]
      obtain ⟨hPos, -, hMax⟩ := hValid
      exact Int.emod_eq_of_lt (by omega) (by omega)
    · intro size hSize hValid
      have hPos := hValid.1
      have hMax := hValid.2.2
      have hMod : size % 2 ^ 32 = size := Int.emod_eq_of_lt (by omega) (by omega)
      exact ⟨_, hConfig.mpr ⟨numberFits_of_size hSize (by omega) (by omega), size, hSize,
        by rwa [hMod], rfl⟩⟩

/-! ## The sectors of a disk -/

/-- The sectors of a disk are those of the size, and a size with so many sectors is taken. -/
def DiskRight (slot : Nat) (str : Argument) : Prop :=
  (∀ n, diskSize slot str = .ok n → requestedSize str = some ((n.toNat : Int) * 512)) ∧
  ∀ size, requestedSize str = some size → 0 ≤ size → size % 512 = 0 → size < 2 ^ 41 →
    ∃ n, diskSize slot str = .ok n

theorem diskRight_iff {slot : Nat} {str : Argument} :
    DiskRight slot str ↔ ∀ size, requestedSize str = some size → NumberFits str →
      size % 512 = 0 → 0 ≤ size ∧ size < 2 ^ 41 := by
  have hDisk {n} : diskSize slot str = .ok n ↔ NumberFits str ∧ ∃ size,
      requestedSize str = some size ∧ size % 512 = 0 ∧ (n.toNat : Int) = size / 512 % 2 ^ 32 := by
    unfold diskSize
    cases hGetsize : getsize str with
    | error e =>
      refine iff_of_false (fun hOk => by cases hOk) ?_
      rintro ⟨hFits, size, hSize, -⟩
      rw [getsize_eq_ok_iff.mpr ⟨hFits, size, hSize, rfl⟩] at hGetsize
      cases hGetsize
    | ok v =>
      obtain ⟨hFits, size, hSize, rfl⟩ := getsize_eq_ok_iff.mp hGetsize
      rw [hSize]
      simp only [Option.some.injEq, exists_eq_left', hFits, true_and]
      change (if (offT size).tmod 512 ≠ 0 then _ else Except.ok _) = _ ↔ _
      obtain ⟨k, hk⟩ := exists_offT size
      by_cases hWhole : size % 512 = 0
      · have hDvd : (512 : Int) ∣ offT size := by omega
        rw [if_neg (not_not.mpr (Int.tmod_eq_zero_of_dvd hDvd)), Except.ok.injEq,
          Int.tdiv_eq_ediv_of_dvd hDvd, ← BitVec.toNat_inj]
        rw [BitVec.toNat_ofInt]
        constructor
        · intro hEq
          exact ⟨hWhole, by omega⟩
        · rintro ⟨-, hEq⟩
          omega
      · have hNot : ¬ (512 : Int) ∣ offT size := by omega
        rw [if_pos (fun hZero => hNot (Int.dvd_of_tmod_eq_zero hZero))]
        exact iff_of_false (by simp) (fun h => hWhole h.1)
  constructor
  · rintro ⟨hRight, -⟩ size hSize hFits hWhole
    have hSectors : ((BitVec.ofInt 32 (size / 512)).toNat : Int) = size / 512 % 2 ^ 32 := by
      rw [BitVec.toNat_ofInt]
      omega
    have hEq := hRight _ (hDisk.mpr ⟨hFits, size, hSize, hWhole, hSectors⟩)
    rw [hSize, Option.some.injEq, hSectors] at hEq
    omega
  · intro hAll
    constructor
    · intro n hOk
      obtain ⟨hFits, size, hSize, hWhole, hSectors⟩ := hDisk.mp hOk
      have hRange := hAll size hSize hFits hWhole
      rw [hSize, Option.some.injEq, hSectors]
      omega
    · intro size hSize hPos hWhole hMax
      refine ⟨BitVec.ofInt 32 (size / 512), hDisk.mpr
        ⟨numberFits_of_size hSize (by omega) (by omega), size, hSize, hWhole, ?_⟩⟩
      rw [BitVec.toNat_ofInt]
      omega

/-- The sizes that come out wrong: those that `off_t` does not hold, those of a RAM that are
valid modulo 2^32 only, and those of a disk that are negative or have 2^32 sectors or more. -/
theorem configured_sizes {configfile : String} {isold : Bool} {before behind : List Argument}
    {c : MainboardConfig} {slot : Nat} {str : Argument}
    (hOthers : commonmainboardInit isold (before ++ behind) = .ok c)
    (hLast : ∀ arg ∈ behind, optionValue "ramsize=" arg = none) :
    (GetsizeRight str ↔ ∀ size, requestedSize str = some size → NumberFits str →
      -2 ^ 63 ≤ size ∧ size < 2 ^ 63) ∧
    (MainboardRight configfile isold before behind str ↔
      ∀ size, requestedSize str = some size → NumberFits str → ValidRam (size % 2 ^ 32) →
        ValidRam size) ∧
    (DiskRight slot str ↔ ∀ size, requestedSize str = some size → NumberFits str →
      size % 512 = 0 → 0 ≤ size ∧ size < 2 ^ 41) :=
  ⟨getsizeRight_iff, mainboardRight_iff hOthers hLast, diskRight_iff⟩

/-- The size that a line of text gives. -/
def written (line : String) : Argument := line.toList.map ch

theorem configured_sizes_1m :
    GetsizeRight (written "1m") ∧
    MainboardRight "sys161.conf" false [written "ramsize=4g", written "cpus=2"]
      [written "cores=1"] (written "1m") ∧
    DiskRight 2 (written "1m") := by
  have hSize : requestedSize (written "1m") = some 1048576 := by decide +kernel
  have hSizes := @configured_sizes "sys161.conf" false
    [written "ramsize=4g", written "cpus=2"] [written "cores=1"] _ 2 (written "1m") rfl
    (by decide +kernel)
  rw [hSizes.1, hSizes.2.1, hSizes.2.2, hSize]
  simp [ValidRam]

/-- 4100 megabytes are 4, more than any file is nothing, and a negative disk is large. -/
theorem sizes_that_wrap :
    ¬ GetsizeRight (written "17179869184g") ∧
    ¬ MainboardRight "sys161.conf" false [] [] (written "4100m") ∧
    ¬ DiskRight 2 (written "-1s") := by
  refine ⟨fun hRight => ?_, fun hRight => ?_, fun hRight => ?_⟩
  · have hEq := hRight 0 rfl
    revert hEq
    decide +kernel
  · obtain ⟨size, hSize, hValid, -⟩ := hRight.1 _ rfl
    have hEq : requestedSize (written "4100m") = some 4299161600 := by decide +kernel
    rw [hEq, Option.some.injEq] at hSize
    rw [← hSize] at hValid
    exact absurd hValid.2.2 (by decide)
  · have hEq := hRight.1 4294967295 rfl
    revert hEq
    decide +kernel

end Sys161.Bus
