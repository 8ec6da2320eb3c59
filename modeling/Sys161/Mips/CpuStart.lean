import Sys161.Lib.PageBits
import Sys161.Mips.Coherence
import Sys161.Mips.CpuEnable

/-!
# The scratch areas of the cpus, and what a cpu starts with

An access to a scratch area stays in the memory that was allocated for it in the
lower half of the window only. A cpu that is started keeps its mode, its interrupt
enable, a branch under way and its reservation from the time before it was stopped.
-/

namespace Sys161.Mips

open Exec PageBits Runs

set_option autoImplicit false

variable {δ : Type} {b : Board δ}

/-! ## The scratch areas -/

/-- The cpu and the byte of its `cpu_cram` that an access to the area of the cpus names. -/
def cramByte (b : Board δ) (offset : Nat) : Option (Nat × Nat) :=
  let region := offset / lamebusConfigSize
  let offset := offset % lamebusConfigSize
  if region < b.ncpus ∧ lbcCramStart ≤ offset ∧ offset < lbcCramEnd then
    some (region, cramOffset offset)
  else none

/-- Past what was allocated. -/
def PastCram (b : Board δ) (offset : Nat) : Prop :=
  offset / lamebusConfigSize < b.ncpus ∧ 0x380 ≤ offset % lamebusConfigSize

theorem cramByte_eq_some {offset : Nat} {at_ : Nat × Nat} (h : cramByte b offset = some at_) :
    lbcCramStart ≤ offset % lamebusConfigSize ∧
      at_ = (offset / lamebusConfigSize, cramOffset (offset % lamebusConfigSize)) := by
  by_cases hIn : offset / lamebusConfigSize < b.ncpus ∧
      lbcCramStart ≤ offset % lamebusConfigSize ∧ offset % lamebusConfigSize < lbcCramEnd
  · rw [cramByte, if_pos hIn] at h
    exact ⟨hIn.2.1, (Option.some.inj h).symm⟩
  · rw [cramByte, if_neg hIn] at h
    cases h

theorem cramByte_injective {offset offset' : Nat} {at_ : Nat × Nat}
    (h : cramByte b offset = some at_) (h' : cramByte b offset' = some at_) : offset = offset' := by
  obtain ⟨hStart, rfl⟩ := cramByte_eq_some h
  obtain ⟨hStart', hSame⟩ := cramByte_eq_some h'
  obtain ⟨hRegion, hByte⟩ := Prod.mk.inj hSame
  simp only [cramOffset, lbcCramStart, lamebusConfigSize] at *
  omega

section CramByte

variable {offset offset' : Nat} {at_ at' : Nat × Nat} {m : Machine δ}

/-- The word at a byte of a scratch area. -/
def Machine.cramAt (m : Machine δ) (at_ : Nat × Nat) : Word :=
  (m.cpus at_.1).cpuCram (BitVec.ofNat 5 (at_.2 / 4))

def Machine.storeCram (m : Machine δ) (at_ : Nat × Nat) (val : Word) : Machine δ :=
  m.setLamebusCpu at_.1 { m.cpus at_.1 with
    cpuCram := Function.update (m.cpus at_.1).cpuCram (BitVec.ofNat 5 (at_.2 / 4)) val }

theorem after_cramWord {Q : BitVec 5 → Machine δ → Prop} {E : Stop → Machine δ → Prop}
    (hWord : offset % 4 = 0) (hAt : cramByte b offset = some at_) (hIn : at_.2 < lamebusCramSize) :
    After (cramWord (offset % lamebusConfigSize)) Q E m ↔ Q (BitVec.ofNat 5 (at_.2 / 4)) m := by
  obtain ⟨hStart, rfl⟩ := cramByte_eq_some hAt
  have hFits : offset % lamebusConfigSize + 4 ≤ lbcCramStart + lamebusCramSize := by
    simp only [cramOffset, lbcCramStart, lamebusConfigSize, lamebusCramSize] at *
    omega
  rw [cramWord, if_pos hFits]
  rfl

theorem cramByte_window (hAt : cramByte b offset = some at_) :
    ¬b.ncpus ≤ offset / lamebusConfigSize ∧ lbcCramStart ≤ offset % lamebusConfigSize ∧
      offset % lamebusConfigSize < lbcCramEnd := by
  rw [cramByte] at hAt
  split at hAt
  next hWindow => exact ⟨not_le.mpr hWindow.1, hWindow.2⟩
  next => cases hAt

/-- A load from a scratch area is of the word at the byte that its address names. -/
theorem after_fetchCpu_cram {Q : Option Word → Machine δ → Prop} {E : Stop → Machine δ → Prop}
    (hWord : offset % 4 = 0) (hAt : cramByte b offset = some at_) (hIn : at_.2 < lamebusCramSize) :
    After (lamebusControllerFetchCpu b offset) Q E m ↔ Q (some (m.cramAt at_)) m := by
  obtain ⟨hRegion, hWindow⟩ := cramByte_window hAt
  rw [lamebusControllerFetchCpu, after_bind, after_get]
  dsimp only
  rw [if_neg hRegion, if_pos hWindow, after_bind, after_cramWord hWord hAt hIn]
  obtain ⟨-, rfl⟩ := cramByte_eq_some hAt
  rfl

theorem after_storeCpu_cram {val : Word} {Q : Bool → Machine δ → Prop}
    {E : Stop → Machine δ → Prop} (hWord : offset % 4 = 0) (hAt : cramByte b offset = some at_)
    (hIn : at_.2 < lamebusCramSize) :
    After (lamebusControllerStoreCpu b offset val) Q E m ↔ Q true (m.storeCram at_ val) := by
  obtain ⟨hRegion, hWindow⟩ := cramByte_window hAt
  rw [lamebusControllerStoreCpu, after_bind, after_get]
  dsimp only
  rw [if_neg hRegion, if_pos hWindow, after_bind, after_cramWord hWord hAt hIn]
  obtain ⟨-, rfl⟩ := cramByte_eq_some hAt
  rfl

theorem cramAt_storeCram_self (val : Word) : (m.storeCram at_ val).cramAt at_ = val := by
  simp [Machine.storeCram, Machine.cramAt, Machine.setLamebusCpu]

theorem cramAt_storeCram_ne (val : Word) (hWord : offset % 4 = 0) (hWord' : offset' % 4 = 0)
    (hAt : cramByte b offset = some at_) (hAt' : cramByte b offset' = some at')
    (hIn : at_.2 < lamebusCramSize) (hIn' : at'.2 < lamebusCramSize) (hNe : offset' ≠ offset) :
    (m.storeCram at_ val).cramAt at' = m.cramAt at' := by
  have hDiffer : at' ≠ at_ := fun hSame => hNe (cramByte_injective hAt' (hSame ▸ hAt))
  unfold Machine.cramAt Machine.storeCram Machine.setLamebusCpu
  by_cases hCpu : at'.1 = at_.1
  · have hWords : BitVec.ofNat 5 (at'.2 / 4) ≠ BitVec.ofNat 5 (at_.2 / 4) := by
      intro hSame
      have hQuot := congrArg BitVec.toNat hSame
      obtain ⟨hStart, rfl⟩ := cramByte_eq_some hAt
      obtain ⟨hStart', rfl⟩ := cramByte_eq_some hAt'
      refine hDiffer (Prod.ext hCpu ?_)
      simp only [BitVec.toNat_ofNat, cramOffset, lbcCramStart, lamebusConfigSize,
        lamebusCramSize] at *
      omega
    rw [hCpu]
    simp [hWords]
  · simp [hCpu]

/-- What is stored to a scratch area is loaded from its address, and from no other. -/
theorem fetchCpu_storeCpu (m : Machine δ) (val : Word) (hWord : offset % 4 = 0)
    (hWord' : offset' % 4 = 0) (hAt : cramByte b offset = some at_)
    (hAt' : cramByte b offset' = some at') (hIn : at_.2 < lamebusCramSize)
    (hIn' : at'.2 < lamebusCramSize) :
    After (do
      let _ ← lamebusControllerStoreCpu b offset val
      lamebusControllerFetchCpu b offset')
      (fun found _ => found = some (if offset' = offset then val else m.cramAt at'))
      (fun _ _ => False) m := by
  rw [after_bind, after_storeCpu_cram hWord hAt hIn, after_fetchCpu_cram hWord' hAt' hIn']
  split
  next hSame =>
    subst hSame
    obtain rfl : at_ = at' := Option.some.inj (hAt.symm.trans hAt')
    rw [cramAt_storeCram_self]
  next hNe => rw [cramAt_storeCram_ne val hWord hWord' hAt hAt' hIn hIn' hNe]

end CramByte

/-- The access does not leave what was allocated. -/
def InCram (e : Stop) (_ : Machine δ) : Prop := e ≠ pastCram

section InCram

variable {offset : Nat} {m : Machine δ}

theorem inCram_cramWord {Q : BitVec 5 → Machine δ → Prop} (hWord : offset % 4 = 0)
    (hStart : lbcCramStart ≤ offset % lamebusConfigSize) (hQ : ∀ word, Q word m) :
    After (cramWord (offset % lamebusConfigSize)) Q InCram m ↔
      ¬ 0x380 ≤ offset % lamebusConfigSize := by
  rw [cramWord, after_ite]
  by_cases hIn : offset % lamebusConfigSize + 4 ≤ lbcCramStart + lamebusCramSize
  · rw [if_pos hIn]
    refine iff_of_true (hQ _) ?_
    simp only [lbcCramStart, lamebusCramSize] at hIn
    omega
  · rw [if_neg hIn, after_throw]
    refine iff_of_false (fun h => h rfl) (not_not.mpr ?_)
    simp only [lbcCramStart, lamebusCramSize, lamebusConfigSize] at *
    omega

theorem inCram_fetchCpu (hWord : offset % 4 = 0) :
    After (lamebusControllerFetchCpu b offset) (fun _ _ => True) InCram m ↔ ¬ PastCram b offset := by
  rw [lamebusControllerFetchCpu, after_bind, after_get, PastCram]
  dsimp only
  rw [after_ite]
  by_cases hRegion : b.ncpus ≤ offset / lamebusConfigSize
  · rw [if_pos hRegion]
    exact iff_of_true trivial fun h => absurd h.1 (not_lt.mpr hRegion)
  · rw [if_neg hRegion, after_ite, and_iff_right (not_le.mp hRegion)]
    by_cases hWindow : lbcCramStart ≤ offset % lamebusConfigSize ∧
        offset % lamebusConfigSize < lbcCramEnd
    · rw [if_pos hWindow, after_bind]
      exact inCram_cramWord hWord hWindow.1 fun _ => trivial
    · rw [if_neg hWindow]
      refine iff_of_true ?_ fun hPast => hWindow ?_
      · split <;> trivial
      · simp only [lbcCramStart, lbcCramEnd, lamebusConfigSize] at *
        omega

theorem inCram_storeCpu {val : Word} (hWord : offset % 4 = 0) :
    After (lamebusControllerStoreCpu b offset val) (fun _ _ => True) InCram m ↔
      ¬ PastCram b offset := by
  rw [lamebusControllerStoreCpu, after_bind, after_get, PastCram]
  dsimp only
  rw [after_ite]
  by_cases hRegion : b.ncpus ≤ offset / lamebusConfigSize
  · rw [if_pos hRegion]
    exact iff_of_true trivial fun h => absurd h.1 (not_lt.mpr hRegion)
  · rw [if_neg hRegion, after_ite, and_iff_right (not_le.mp hRegion)]
    by_cases hWindow : lbcCramStart ≤ offset % lamebusConfigSize ∧
        offset % lamebusConfigSize < lbcCramEnd
    · rw [if_pos hWindow, after_bind]
      exact inCram_cramWord hWord hWindow.1 fun _ => trivial
    · rw [if_neg hWindow]
      refine iff_of_true ?_ fun hPast => hWindow ?_
      · split <;> trivial
      · simp only [lbcCramStart, lbcCramEnd, lamebusConfigSize] at *
        omega

theorem inCram_fetchConfig (cpunum : Nat) :
    After (lamebusControllerFetchConfig b cpunum offset) (fun _ _ => True) InCram m := by
  rw [lamebusControllerFetchConfig, after_bind, after_get]
  split
  · trivial
  · trivial
  · trivial
  · rw [after_ite]
    split
    · trivial
    · split <;> first | trivial | (rw [after_ite]; split <;> trivial)

/-- Nothing that starting a cpu reads lies past what was allocated. -/
theorem inCram_setCpue (val : Word) : After (setCpue b val) (fun _ _ => True) InCram m := by
  have hAhead : Ahead b fun _ _ _ _ => True := ⟨fun _ => trivial, fun _ _ _ => trivial⟩
  have hCpue : Keeps (fun m : Machine δ => ∀ j, (fun _ _ => True : Nat → Position → Prop) j
      (m.mycpus j).position) InCram (setCpue b val) :=
    Keeps.forM fun j _ => setCpueCpu_position hAhead (fun _ _ _ => trivial) val j
  exact (hCpue m fun _ => trivial).mono (fun _ _ _ => trivial) fun _ _ he => he

theorem inCram_storeConfig (val : Word) :
    After (lamebusControllerStoreConfig b offset val) (fun _ _ => True) InCram m := by
  rw [lamebusControllerStoreConfig]
  dsimp only
  rw [after_ite]
  split
  · trivial
  · split
    · rw [after_ite]
      split <;> trivial
    · trivial
    · rw [after_ite]
      split
      · trivial
      · rw [after_bind]
        exact inCram_setCpue val
    · trivial

end InCram

/-- The word of a scratch area past what was allocated, as the bus addresses it. -/
def OverrunsCram (b : Board δ) (offset : Word) : Prop :=
  b.isold = false ∧ offset &&& 0x3 = 0 ∧ offset.toNat / lamebusSlotMem = lamebusControllerSlot ∧
    32768 ≤ offset.toNat % lamebusSlotMem ∧ PastCram b (offset.toNat % lamebusSlotMem - 32768)

section Dispatch

variable {α : Type} {offset : Word} {m : Machine δ}

/-- The way from the bus to the area of the cpus, for reads and writes. -/
theorem inCram_dispatch {refused : α} {ofCpu ofConfig ofDevice : M δ α} {msg : String}
    (hCpu : (offset.toNat % lamebusSlotMem - 32768) % 4 = 0 →
      (After ofCpu (fun _ _ => True) InCram m ↔
        ¬ PastCram b (offset.toNat % lamebusSlotMem - 32768)))
    (hConfig : After ofConfig (fun _ _ => True) InCram m)
    (hDevice : After ofDevice (fun _ _ => True) InCram m) :
    After (if lamebusNslots ≤ offset.toNat / lamebusSlotMem then pure refused
      else if offset &&& 0x3 ≠ 0 then throw (.smoke msg)
      else if offset.toNat / lamebusSlotMem = lamebusControllerSlot then
        if 32768 ≤ offset.toNat % lamebusSlotMem then if b.isold then pure refused else ofCpu
        else ofConfig
      else ofDevice) (fun _ _ => True) InCram m ↔ ¬ OverrunsCram b offset := by
  have hSlots : lamebusControllerSlot < lamebusNslots := by decide
  rw [OverrunsCram, after_ite]
  by_cases hSlot : lamebusNslots ≤ offset.toNat / lamebusSlotMem
  · rw [if_pos hSlot]
    refine iff_of_true trivial ?_
    rintro ⟨-, -, hController, -⟩
    omega
  rw [if_neg hSlot, after_ite]
  by_cases hAlign : offset &&& 0x3 ≠ 0
  · rw [if_pos hAlign, after_throw]
    exact iff_of_true (fun h => by cases h) fun h => hAlign h.2.1
  rw [if_neg hAlign, after_ite]
  by_cases hController : offset.toNat / lamebusSlotMem = lamebusControllerSlot
  · rw [if_pos hController, after_ite]
    by_cases hCpus : 32768 ≤ offset.toNat % lamebusSlotMem
    · rw [if_pos hCpus, after_ite]
      cases hOld : b.isold with
      | true => exact iff_of_true trivial fun h => by cases h.1
      | false =>
        have hWord : offset.toNat % 4 = 0 := by
          rw [← toNat_align, not_not.mp hAlign]
          rfl
        rw [if_neg (by simp), hCpu (by simp only [lamebusSlotMem]; omega)]
        refine not_congr ⟨fun hPast => ?_, fun h => h.2.2.2.2⟩
        exact ⟨rfl, not_not.mp hAlign, hController, hCpus, hPast⟩
    · rw [if_neg hCpus]
      exact iff_of_true hConfig fun h => hCpus h.2.2.2.1
  · rw [if_neg hController]
    exact iff_of_true hDevice fun h => hController h.2.2.1

end Dispatch

/-- An access of a cpu to the bus stays in the scratch areas exactly if it is not to the upper half
of a window; starting a cpu does; and no two addresses share a byte. -/
theorem cram_in_bounds_iff (m : Machine δ) (cpunum : Nat) (offset val : Word) :
    (After (busIoFetch b cpunum offset) (fun _ _ => True) InCram m ∧
        After (busIoStore b cpunum offset val) (fun _ _ => True) InCram m ↔
      ¬ OverrunsCram b offset) ∧
    After (setCpue b val) (fun _ _ => True) InCram m ∧
    ∀ o o' at_, cramByte b o = some at_ → cramByte b o' = some at_ → o = o' := by
  have hFetch : After (busIoFetch b cpunum offset) (fun _ _ => True) InCram m ↔
      ¬ OverrunsCram b offset :=
    inCram_dispatch inCram_fetchCpu (inCram_fetchConfig cpunum) trivial
  have hStore : After (busIoStore b cpunum offset val) (fun _ _ => True) InCram m ↔
      ¬ OverrunsCram b offset :=
    inCram_dispatch inCram_storeCpu (inCram_storeConfig val) trivial
  refine ⟨?_, inCram_setCpue val, fun _ _ _ => cramByte_injective⟩
  rw [hFetch, hStore, and_self]

/-- A cpu loads from the upper half of its window. -/
def loadPastCram : List (Act Unit) :=
  [.poke 0 0x3c02bfff, .poke 1 0x34428000, .poke 2 0x8c440380, .setEntrypoint 0 kseg0, .turn 0,
    .turn 0]

theorem load_past_cram : ∃ p m m', Path (Step bareBoard) (machineInit () false) p m ∧
    p.map Prod.fst = loadPastCram ∧ (cpuTurn bareBoard 0).run m = .error pastCram m' := by
  have hSeen : seen bareBoard loadPastCram (machineInit () false)
      (fun m => thrown (cpuTurn bareBoard 0) m) = some (some pastCram) := by
    decide +kernel
  obtain ⟨p, m, hPath, hActs, hThrown⟩ := path_of_seen hSeen (by decide)
  obtain ⟨m', hRun⟩ := run_of_thrown hThrown
  exact ⟨p, m, m', hPath, hActs, hRun⟩

/-! ## What a cpu starts with -/

theorem after_hangUnless {x : M δ Unit} {Q : Unit → Machine δ → Prop} {E : Stop → Machine δ → Prop}
    {m : Machine δ} : After (hangUnless x) Q E m ↔
      After x Q (caught (fun _ t => Q () (t.hung .entryInvalid)) E) m := by
  rw [hangUnless, after_bind, after_attempt]
  have hDone : (fun (_ : Unit) (t : Machine δ) =>
      After (if true = true then pure () else hang .entryInvalid) Q E t) = Q := by
    funext u t
    rw [if_pos rfl]
    rfl
  have hHung : (caught (fun done t => After (if done = true then pure () else hang .entryInvalid)
      Q E t) E : Stop → Machine δ → Prop) = caught (fun _ t => Q () (t.hung .entryInvalid)) E := by
    funext e t
    cases e <;> rfl
  rw [← hHung]
  exact iff_of_eq (congrArg (fun P => After x P _ m) hDone)

/-- The address that a cpu is started at. -/
def Machine.startEntry (m : Machine δ) (j : Nat) : Word := (m.cpus j).cpuCram 0

/-- The top of the scratch area of a cpu, in kseg1. -/
def startStack (j : Nat) : Word :=
  cpuGetSecondaryStartStack (BitVec.ofNat 32 (lamebusSlotMem * lamebusControllerSlot + 32768 +
    j * lamebusConfigSize + lbcCramEnd))

def Mipscpu.kernelMapping (c : Mipscpu) : Mapping := { c.mapping with usermode := false }

/-- An aligned kernel address at which the cpu can fetch. -/
structure KernelEntry (b : Board δ) (c : Mipscpu) (addr : Word) : Prop where
  aligned : addr &&& 0x3 = 0
  kernel : 0x80000000 ≤ addr
  mapped : ∃ at_, c.kernelMapping.fetch b addr = .ok at_

/-- The cpu is about to execute at the entry, with nothing of what it did before, and neither an
exception nor a hang has come of it. -/
structure Started (b : Board δ) (m : Machine δ) (j : Nat) (m' : Machine δ) : Prop where
  state : (m'.mycpus j).state = .running
  pc : (m'.mycpus j).pc = m.startEntry j
  nextpc : (m'.mycpus j).nextpc = m.startEntry j + 4
  fetch : ∃ page, (m'.mycpus j).pcpage = some page ∧
    (m'.mycpus j).mapping.fetch b (m.startEntry j) = .ok (page, (m'.mycpus j).pcoff)
  fetchNext : ∃ page, (m'.mycpus j).nextpcpage = some page ∧
    (m'.mycpus j).mapping.fetch b (m.startEntry j + 4) = .ok (page, (m'.mycpus j).nextpcoff)
  stack : (m'.mycpus j).r 29 = startStack j
  argument : (m'.mycpus j).r 4 = (m.cpus j).cpuCram 1
  kernel : (m'.mycpus j).currentUsermode = false
  irqoff : (m'.mycpus j).currentIrqon = false
  jumping : (m'.mycpus j).jumping = false
  slot : (m'.mycpus j).inJumpdelay = false
  unreserved : (m'.mycpus j).llActive = false
  epc : (m'.mycpus j).exEpc = (m.mycpus j).exEpc
  cause : (m'.mycpus j).toCauseReg = (m.mycpus j).toCauseReg
  hangs : m'.hangs = m.hangs

/-- What the cpu was doing when it was stopped is not to be taken up again. -/
structure Mipscpu.Quiescent (c : Mipscpu) : Prop where
  kernel : c.currentUsermode = false
  irqoff : c.currentIrqon = false
  jumping : c.jumping = false
  slot : c.inJumpdelay = false
  unreserved : c.llActive = false

/-- The fetch position that `cpu_set_entrypoint` begins with. -/
def Mipscpu.enter (c : Mipscpu) (addr : Word) : Mipscpu :=
  { c with r := Function.update c.r 25 addr, expc := addr, pc := addr, nextpc := addr + 4 }

/-- What follows `cpu_set_entrypoint`. -/
def Mipscpu.launched (c : Mipscpu) (stackaddr argument : Word) : Mipscpu :=
  { c with r := Function.update (Function.update c.r 29 stackaddr) 4 argument, state := .running }

def Machine.launch (m : Machine δ) (j : Nat) (stackaddr argument : Word) : Machine δ :=
  { m.modCpu j fun c => c.launched stackaddr argument with
    cpuRunningMask := m.cpuRunningMask ||| (1#32 <<< j) }

theorem launch_mycpus_self (m : Machine δ) (j : Nat) (c : Mipscpu) (stackaddr argument : Word) :
    ((m.setCpu j c).launch j stackaddr argument).mycpus j = c.launched stackaddr argument := by
  have hSelf := Machine.modCpu_mycpus_self (m.setCpu j c) j fun c => c.launched stackaddr argument
  rw [Machine.setCpu_mycpus_self] at hSelf
  exact hSelf

theorem after_launch {Q : Unit → Machine δ → Prop} {E : Stop → Machine δ → Prop} {m : Machine δ}
    {j : Nat} {stackaddr argument : Word} : After (do
      cpuSetStack j stackaddr argument
      cpuEnable j) Q E m ↔ Q () (m.launch j stackaddr argument) := by
  have hTwice : ∀ f g : Mipscpu → Mipscpu, (m.modCpu j f).modCpu j g = m.modCpu j fun c => g (f c) := by
    intro f g
    simp [Machine.modCpu]
  rw [after_bind, cpuSetStack, after_modCpu, cpuEnable, after_bind, after_modCpu, hTwice]
  exact Iff.rfl

theorem after_setCpueCpu_start {Q : Unit → Machine δ → Prop} {E : Stop → Machine δ → Prop}
    {m : Machine δ} {j : Nat} {val : Word} (hBit : val.getLsbD j = true)
    (hOff : (m.cpus j).cpuEnabled = false) (hAligned : m.startEntry j &&& 0x3 = 0) :
    After (setCpueCpu b val j) Q E m ↔
      After (hangUnless (precomputePc b j)) (fun _ t =>
        After (hangUnless (precomputeNextpc b j))
          (fun _ t => Q () (t.launch j (startStack j) ((m.cpus j).cpuCram 1))) E t) E
        (m.modCpu j fun c => c.enter (m.startEntry j)) := by
  have hMask : m.startEntry j &&& 0xfffffffc = m.startEntry j := by
    have hSplit : m.startEntry j &&& 0xfffffffc ||| m.startEntry j &&& 0x3 = m.startEntry j := by
      rw [← BitVec.and_or_distrib_left]
      exact BitVec.and_allOnes
    rw [hAligned] at hSplit
    exact BitVec.or_zero.symm.trans hSplit
  have hEntry : (m.cpus j).cpuCram 0 = m.startEntry j := rfl
  rw [setCpueCpu, after_bind, after_get]
  simp only [hOff, hBit, Bool.false_and, Bool.not_false, Bool.true_and, Bool.false_eq_true, if_false,
    if_true]
  rw [after_bind, cpuSetEntrypoint, hEntry, hAligned, if_neg (by simp)]
  dsimp only
  rw [hMask, after_bind, after_modCpu, after_bind]
  simp only [after_launch]
  exact Iff.rfl

/-- The address after the entry is one at which the cpu can fetch too. -/
def NextMapped (b : Board δ) (m : Machine δ) (j : Nat) : Prop :=
  ∃ at_, (m.mycpus j).kernelMapping.fetch b (m.startEntry j + 4) = .ok at_

theorem kernelMapping_eq {c : Mipscpu} (h : c.currentUsermode = false) :
    c.kernelMapping = c.mapping := by
  rw [Mipscpu.kernelMapping, Mipscpu.mapping, h]

section EntryPoint

variable {Q : Unit → Machine δ → Prop} {E : Stop → Machine δ → Prop} {m : Machine δ} {j : Nat}
  {at_ : Page × Word} {e : Exn}

theorem after_entryPc_ok (h : (m.mycpus j).mapping.fetch b (m.mycpus j).pc = .ok at_) :
    After (hangUnless (precomputePc b j)) Q E m ↔ Q () (m.setCpu j
      (((m.mycpus j).translated (m.mycpus j).pc false).setPcpage at_.1 at_.2)) := by
  rw [after_hangUnless, after_precomputePc]
  dsimp only
  rw [h]

theorem after_entryPc_error (h : (m.mycpus j).mapping.fetch b (m.mycpus j).pc = .error e) :
    After (hangUnless (precomputePc b j)) Q E m ↔ Q () ((m.setCpu j
      (((m.mycpus j).translated (m.mycpus j).pc false).exception b e)).hung .entryInvalid) := by
  rw [after_hangUnless, after_precomputePc]
  dsimp only
  rw [h]
  exact Iff.rfl

theorem after_entryNext_ok (h : (m.mycpus j).mapping.fetch b (m.mycpus j).nextpc = .ok at_) :
    After (hangUnless (precomputeNextpc b j)) Q E m ↔ Q () (m.setCpu j
      (((m.mycpus j).translated (m.mycpus j).nextpc false).setNextpcpage at_.1 at_.2)) := by
  rw [after_hangUnless, after_precomputeNextpc]
  dsimp only
  rw [h]

theorem after_entryNext_error (h : (m.mycpus j).mapping.fetch b (m.mycpus j).nextpc = .error e) :
    After (hangUnless (precomputeNextpc b j)) Q E m ↔ Q () ((m.setCpu j
      (((m.mycpus j).translated (m.mycpus j).nextpc false).exception b e)).hung .entryInvalid) := by
  rw [after_hangUnless, after_precomputeNextpc]
  dsimp only
  rw [h]
  exact Iff.rfl

theorem hangs_entryNext (m : Machine δ) (j : Nat) :
    After (hangUnless (precomputeNextpc b j)) (fun _ t => m.hangs.length ≤ t.hangs.length)
      (fun _ _ => False) m := by
  cases hFetch : (m.mycpus j).mapping.fetch b (m.mycpus j).nextpc with
  | error e =>
    rw [after_entryNext_error hFetch]
    exact Nat.le_succ _
  | ok at_ =>
    rw [after_entryNext_ok hFetch]
    exact le_rfl

end EntryPoint

/-- The cpu once the first translation has been made. -/
def Mipscpu.enteredPc (c : Mipscpu) (addr : Word) (at_ : Page × Word) : Mipscpu :=
  ((c.enter addr).translated addr false).setPcpage at_.1 at_.2

/-- And once both have been. -/
def Mipscpu.entered (c : Mipscpu) (addr : Word) (at_ next : Page × Word) : Mipscpu :=
  ((c.enteredPc addr at_).translated (addr + 4) false).setNextpcpage next.1 next.2

theorem enteredPc_mapping (c : Mipscpu) (addr : Word) (at_ : Page × Word) :
    (c.enteredPc addr at_).mapping = c.mapping :=
  translated_mapping (c.enter addr) addr false

theorem enteredPc_nextpc (c : Mipscpu) (addr : Word) (at_ : Page × Word) :
    (c.enteredPc addr at_).nextpc = addr + 4 :=
  congrArg FetchState.nextpc (translated_toFetchState (c.enter addr) addr false)

/-- A cpu is started without a hang exactly if it can fetch at the entry and after it, in the mode
that it was stopped in. -/
theorem start_cases {m : Machine δ} {j : Nat} {val : Word} (hBit : val.getLsbD j = true)
    (hOff : (m.cpus j).cpuEnabled = false) (hAligned : m.startEntry j &&& 0x3 = 0) :
    (∃ at_ next, (m.mycpus j).mapping.fetch b (m.startEntry j) = .ok at_ ∧
      (m.mycpus j).mapping.fetch b (m.startEntry j + 4) = .ok next ∧
      ∀ Q E, After (setCpueCpu b val j) Q E m ↔
        Q () ((m.setCpu j ((m.mycpus j).entered (m.startEntry j) at_ next)).launch j (startStack j)
          ((m.cpus j).cpuCram 1))) ∨
    ((∀ at_ next, (m.mycpus j).mapping.fetch b (m.startEntry j) = .ok at_ →
        (m.mycpus j).mapping.fetch b (m.startEntry j + 4) ≠ .ok next) ∧
      After (setCpueCpu b val j) (fun _ t => t.hangs ≠ m.hangs) (fun _ _ => False) m) := by
  have hLonger : ∀ (l l' : List Hang), l.length < l'.length → l' ≠ l := by
    rintro l l' hLt rfl
    exact lt_irrefl _ hLt
  have hSelf := Machine.modCpu_mycpus_self m j fun c => c.enter (m.startEntry j)
  cases hFetch : (m.mycpus j).mapping.fetch b (m.startEntry j) with
  | error e =>
    refine Or.inr ⟨fun at_ next h => (by cases h), ?_⟩
    rw [after_setCpueCpu_start hBit hOff hAligned,
      after_entryPc_error (e := e) (by rw [hSelf]; exact hFetch)]
    refine (hangs_entryNext _ j).mono (fun _ t ht => ?_) fun _ _ he => he
    exact hLonger _ _ (lt_of_lt_of_le (Nat.lt_succ_self _) ht)
  | ok at_ =>
    have hPc : ((m.modCpu j fun c => c.enter (m.startEntry j)).mycpus j).mapping.fetch b
        ((m.modCpu j fun c => c.enter (m.startEntry j)).mycpus j).pc = .ok at_ := by
      rw [hSelf]
      exact hFetch
    have hState : (m.modCpu j fun c => c.enter (m.startEntry j)).setCpu j
        ((((m.mycpus j).enter (m.startEntry j)).translated (m.startEntry j) false).setPcpage at_.1
          at_.2) = m.setCpu j ((m.mycpus j).enteredPc (m.startEntry j) at_) :=
      Machine.setCpu_setCpu m j _ _
    have hSecond : ((m.setCpu j ((m.mycpus j).enteredPc (m.startEntry j) at_)).mycpus j).mapping.fetch
        b ((m.setCpu j ((m.mycpus j).enteredPc (m.startEntry j) at_)).mycpus j).nextpc =
        (m.mycpus j).mapping.fetch b (m.startEntry j + 4) := by
      rw [Machine.setCpu_mycpus_self, enteredPc_mapping, enteredPc_nextpc]
    cases hNext : (m.mycpus j).mapping.fetch b (m.startEntry j + 4) with
    | error e =>
      refine Or.inr ⟨fun _ next _ h => (by cases h), ?_⟩
      rw [after_setCpueCpu_start hBit hOff hAligned, after_entryPc_ok hPc, hSelf]
      change After (hangUnless (precomputeNextpc b j)) _ _ ((m.modCpu j fun c =>
        c.enter (m.startEntry j)).setCpu j ((((m.mycpus j).enter (m.startEntry j)).translated
          (m.startEntry j) false).setPcpage at_.1 at_.2))
      rw [hState, after_entryNext_error (hSecond.trans hNext)]
      exact hLonger m.hangs (_ :: m.hangs) (Nat.lt_succ_self _)
    | ok next =>
      refine Or.inl ⟨at_, next, rfl, rfl, fun Q E => ?_⟩
      rw [after_setCpueCpu_start hBit hOff hAligned, after_entryPc_ok hPc, hSelf]
      change After (hangUnless (precomputeNextpc b j)) _ _ ((m.modCpu j fun c =>
        c.enter (m.startEntry j)).setCpu j ((((m.mycpus j).enter (m.startEntry j)).translated
          (m.startEntry j) false).setPcpage at_.1 at_.2)) ↔ _
      rw [hState, after_entryNext_ok (hSecond.trans hNext), Machine.setCpu_mycpus_self,
        Machine.setCpu_setCpu, enteredPc_nextpc]
      exact Iff.rfl

/-- The cpu that has been entered, field by field; the translations may have changed TLBHI. -/
theorem entered_eq (c : Mipscpu) (addr : Word) (at_ next : Page × Word) :
    ∃ vpn, c.entered addr at_ next = { c.enter addr with
      tlbentry := { c.tlbentry with mtVpn := vpn }
      pcpage := some at_.1
      pcoff := at_.2
      nextpcpage := some next.1
      nextpcoff := next.2 } := by
  rcases translated_eq (c.enter addr) addr false with hPc | hPc
  · rcases translated_eq (c.enteredPc addr at_) (addr + 4) false with hNext | hNext
    · rw [Mipscpu.entered, hNext, Mipscpu.enteredPc, hPc]
      exact ⟨_, rfl⟩
    · rw [Mipscpu.entered, hNext, Mipscpu.enteredPc, hPc]
      exact ⟨_, rfl⟩
  · rcases translated_eq (c.enteredPc addr at_) (addr + 4) false with hNext | hNext
    · rw [Mipscpu.entered, hNext, Mipscpu.enteredPc, hPc]
      exact ⟨_, rfl⟩
    · rw [Mipscpu.entered, hNext, Mipscpu.enteredPc, hPc]
      exact ⟨_, rfl⟩

/-- What a start without a hang leaves. -/
theorem started_launch {m : Machine δ} {j : Nat} {at_ next : Page × Word}
    (hPc : (m.mycpus j).mapping.fetch b (m.startEntry j) = .ok at_)
    (hNext : (m.mycpus j).mapping.fetch b (m.startEntry j + 4) = .ok next) :
    Started b m j ((m.setCpu j ((m.mycpus j).entered (m.startEntry j) at_ next)).launch j
      (startStack j) ((m.cpus j).cpuCram 1)) ↔ (m.mycpus j).Quiescent := by
  obtain ⟨vpn, hEntered⟩ := entered_eq (m.mycpus j) (m.startEntry j) at_ next
  have hSelf := launch_mycpus_self m j ((m.mycpus j).entered (m.startEntry j) at_ next)
    (startStack j) ((m.cpus j).cpuCram 1)
  constructor
  · intro h
    have hKernel := h.kernel
    have hIrq := h.irqoff
    have hJumping := h.jumping
    have hSlot := h.slot
    have hLl := h.unreserved
    rw [hSelf, hEntered] at hKernel hIrq hJumping hSlot hLl
    exact ⟨hKernel, hIrq, hJumping, hSlot, hLl⟩
  · intro h
    constructor <;> try rw [hSelf, hEntered]
    case fetch => exact ⟨at_.1, rfl, hPc⟩
    case fetchNext => exact ⟨next.1, rfl, hNext⟩
    case kernel => exact h.kernel
    case irqoff => exact h.irqoff
    case jumping => exact h.jumping
    case slot => exact h.slot
    case unreserved => exact h.unreserved
    all_goals rfl

/-- Setting the bit of a cpu that is off starts it as it should exactly if the cpu was not stopped in
user mode, with interrupts on, between a branch and its delay slot or with a reservation; and if the
word after the entry is there as well. -/
theorem started_iff {m : Machine δ} {j : Nat} {val : Word} (hBit : val.getLsbD j = true)
    (hOff : (m.cpus j).cpuEnabled = false) (hEntry : KernelEntry b (m.mycpus j) (m.startEntry j)) :
    After (setCpueCpu b val j) (fun _ m' => Started b m j m') (fun _ _ => False) m ↔
      (m.mycpus j).Quiescent ∧ NextMapped b m j := by
  rcases start_cases (b := b) hBit hOff hEntry.aligned with
    ⟨at_, next, hPc, hNext, hStart⟩ | ⟨hNot, hHangs⟩
  · rw [hStart, started_launch hPc hNext]
    refine (and_iff_left_of_imp fun h => ⟨next, ?_⟩).symm
    rw [kernelMapping_eq h.kernel]
    exact hNext
  · constructor
    · intro h
      refine exists_end (h.and hHangs) ?_ fun _ _ he => he.1.elim
      rintro _ t ⟨hStarted, hMore⟩
      exact absurd hStarted.hangs hMore
    · rintro ⟨hQuiescent, next, hNext⟩
      obtain ⟨at_, hPc⟩ := hEntry.mapped
      rw [kernelMapping_eq hQuiescent.kernel] at hPc hNext
      exact absurd hNext (hNot at_ next hPc)

/-- The second cpu is off, with an entry in its scratch area. -/
def secondOff : Machine Unit :=
  (machineInit () false).setLamebusCpu 1 { lamebusCpuInit 1 with cpuCram := fun _ => kseg0 }

theorem started_second : After (setCpueCpu twinBoard 3 1) (fun _ m' => Started twinBoard secondOff 1 m')
    (fun _ _ => False) secondOff := by
  have hEntry : KernelEntry twinBoard (secondOff.mycpus 1) (secondOff.startEntry 1) :=
    ⟨by decide, by decide, (.ram 0, 0), rfl⟩
  refine (started_iff (by decide) (by decide) hEntry).mpr ⟨⟨rfl, rfl, rfl, rfl, rfl⟩, ?_⟩
  exact ⟨(.ram 0, 4), rfl⟩

/-- The first cpu starts the second, turns its interrupts on and switches itself off; the second
switches it on again. -/
def restartFirst : List (Act Unit) :=
  [.poke 0 0x3c02bfff, .poke 1 0x34428000, .poke 2 0x3c048000, .poke 3 0x34840040,
    .poke 4 0xac440300, .poke 5 0xac440700, .poke 6 0x24030003, .poke 7 0xac43fe14,
    .poke 8 0x24030001, .poke 9 0x40836000, .poke 10 0x24030000, .poke 11 0xac43fe14,
    .poke 16 0x3c02bfff, .poke 17 0x34428000, .poke 18 0x24030001, .poke 20 0xac43fe14,
    .setEntrypoint 0 kseg0] ++ (List.replicate 11 [.turn 0, .turn 1]).flatten ++ [.turn 0]

/-- It starts at its entry with interrupts on. -/
theorem started_with_interrupts_on : ∃ p m m', Path (Step twinBoard) (machineInit () false) p m ∧
    Step twinBoard m (.turn 1) m' ∧ (m.mycpus 0).state = .disabled ∧
    (m.cpus 0).cpuEnabled = false ∧ (m'.mycpus 0).state = .running ∧
    (m'.mycpus 0).pc = m.startEntry 0 ∧ m.startEntry 0 = 0x80000040 ∧
    (m'.mycpus 0).currentIrqon = true := by
  have hBefore : seen twinBoard restartFirst (machineInit () false) (fun m =>
      ((m.mycpus 0).state, (m.cpus 0).cpuEnabled, m.startEntry 0)) =
      some (.disabled, false, 0x80000040) := by
    decide +kernel
  have hAfter : seen twinBoard (restartFirst ++ [.turn 1]) (machineInit () false) (fun m =>
      ((m.mycpus 0).state, (m.mycpus 0).pc, (m.mycpus 0).currentIrqon)) =
      some (.running, 0x80000040, true) := by
    decide +kernel
  obtain ⟨p, m, m', hPath, hStep, hLook, hLook'⟩ := step_of_seen hBefore hAfter (by decide) (by decide)
  obtain ⟨hOff, hLook⟩ := Prod.mk.inj hLook
  obtain ⟨hEnabled, hEntry⟩ := Prod.mk.inj hLook
  obtain ⟨hOn, hLook'⟩ := Prod.mk.inj hLook'
  obtain ⟨hPc, hIrq⟩ := Prod.mk.inj hLook'
  exact ⟨p, m, m', hPath, hStep, hOff, hEnabled, hOn, hPc.trans hEntry.symm, hEntry, hIrq⟩

end Sys161.Mips
