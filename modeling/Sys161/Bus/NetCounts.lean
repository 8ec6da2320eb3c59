import Mathlib.Data.List.GetD
import Sys161.Bus.Net

/-!
# The counts of arriving packets

What `dorecv` adds to the statistics, beside what a datagram is by all its bytes.
While the last packet has not cleared only eight bytes of the next are read, and
the length that it claims is held against these.
-/

namespace Sys161.Bus

open Runs

set_option autoImplicit false

/-- The counts of `g_stats` that `dorecv` keeps. -/
structure NetStats where
  sRpkts : BitVec 32
  sDpkts : BitVec 32
  sEpkts : BitVec 32
deriving DecidableEq

def NetStats.received (g : NetStats) : NetStats := { g with sRpkts := g.sRpkts + 1 }

def NetStats.dropped (g : NetStats) : NetStats := { g with sDpkts := g.sDpkts + 1 }

def NetStats.error (g : NetStats) : NetStats := { g with sEpkts := g.sEpkts + 1 }

/-- The size of the buffer that `dorecv` reads into. -/
def NetData.readbuflen (nd : NetData) : Nat := if nd.ndRirq ≠ 0 then 8 else netBufsize

/-- `g_stats` after `dorecv`. -/
def dorecvStats (nd : NetData) (junk : Nat → BitVec 8) (packet : Except String (List (BitVec 8)))
    (g : NetStats) : NetStats :=
  let overrun := nd.ndRirq ≠ 0
  match packet with
  | .error _ => g
  | .ok data =>
    let data := data.take nd.readbuflen
    let readbuf := fill (if overrun then junk else nd.ndRbuf) data
    let r := data.length
    if r < 8 then g.error
    else if loadBe16 readbuf 0 ≠ frameMagic then g.error
    else if loadBe16 readbuf 6 ≠ nd.ndStatus.setWidth 16 ∧ loadBe16 readbuf 6 ≠ broadcastAddr ∧
        nd.ndControl &&& ndcPromisc = 0 then g
    else if (loadBe16 readbuf 4).toNat > r then g.error
    else if (loadBe16 readbuf 4).toNat < r then g.error
    else if overrun then g.dropped
    else g.received

/-! ## What a datagram is -/

/-- A field of the link header of a datagram. -/
def lhField (data : List (BitVec 8)) (offset : Nat) : BitVec 16 :=
  loadBe16 (fun i => data.getD i 0) offset

def lhFrame (data : List (BitVec 8)) : BitVec 16 := lhField data 0

def lhPacketlen (data : List (BitVec 8)) : Nat := (lhField data 4).toNat

def lhTo (data : List (BitVec 8)) : BitVec 16 := lhField data 6

inductive Datagram where
  | malformed
  | notForUs
  | wellFormed
deriving DecidableEq

def NetData.forUs (nd : NetData) (addr : BitVec 16) : Prop :=
  addr = nd.ndStatus.setWidth 16 ∨ addr = broadcastAddr ∨ nd.ndControl &&& ndcPromisc ≠ 0

instance (nd : NetData) (addr : BitVec 16) : Decidable (nd.forUs addr) :=
  inferInstanceAs (Decidable (_ ∨ _))

/-- A datagram with a link header, for this interface. -/
def NetData.Addressed (nd : NetData) (data : List (BitVec 8)) : Prop :=
  8 ≤ data.length ∧ lhFrame data = frameMagic ∧ nd.forUs (lhTo data)

instance (nd : NetData) (data : List (BitVec 8)) : Decidable (nd.Addressed data) :=
  inferInstanceAs (Decidable (_ ∧ _))

/-- The address is looked at before the length. -/
def NetData.classify (nd : NetData) (data : List (BitVec 8)) : Datagram :=
  if data.length < 8 ∨ lhFrame data ≠ frameMagic then .malformed
  else if ¬ nd.forUs (lhTo data) then .notForUs
  else if lhPacketlen data ≠ data.length then .malformed
  else .wellFormed

/-- What becomes of a datagram: it is received where the last packet has cleared. -/
def Accounted (data : List (BitVec 8)) (s s' : Net × NetStats) : Prop :=
  match s.1.nd.classify data with
  | .malformed =>
    s'.2 = s.2.error ∧ s'.1.nd.ndRirq = s.1.nd.ndRirq ∧ s'.1.line = s.1.line
  | .notForUs => s'.2 = s.2 ∧ s'.1.nd.ndRirq = s.1.nd.ndRirq ∧ s'.1.line = s.1.line
  | .wellFormed =>
    if s.1.nd.ndRirq = 0 then
      s'.2 = s.2.received ∧ s'.1.nd.ndRirq = ndiDone ∧ s'.1.line = true ∧
        ∀ i < data.length, s'.1.nd.ndRbuf i = data.getD i 0
    else
      s'.2 = s.2.dropped ∧ s'.1.nd.ndRirq = s.1.nd.ndRirq ∧ s'.1.line = s.1.line ∧
        s'.1.nd.ndRbuf = s.1.nd.ndRbuf

/-- The length that an addressed datagram claims is that of the datagram just where it is that of
what is read of it. -/
def NetData.Fits (nd : NetData) (data : List (BitVec 8)) : Prop :=
  nd.Addressed data →
    (lhPacketlen data = data.length ↔ lhPacketlen data = min data.length nd.readbuflen)

/-! ## One arrival -/

section Arrival

variable {nd : NetData} {junk : Nat → BitVec 8} {data : List (BitVec 8)} {g : NetStats}

theorem eight_le_readbuflen (nd : NetData) : 8 ≤ nd.readbuflen := by
  unfold NetData.readbuflen netBufsize
  split <;> omega

/-- The whole link header is read, whatever was in the buffer. -/
theorem loadBe16_fill (buf : Nat → BitVec 8) {room offset : Nat} (hRoom : 8 ≤ room)
    (hLength : 8 ≤ data.length) (hOffset : offset ≤ 6) :
    loadBe16 (fill buf (data.take room)) offset = lhField data offset := by
  have hByte (i : Nat) (hi : i < 8) : fill buf (data.take room) i = data.getD i 0 := by
    have hTaken : i < (data.take room).length := by
      rw [List.length_take]
      omega
    rw [fill, List.getD_eq_getElem _ _ hTaken, List.getD_eq_getElem _ _ (by omega),
      List.getElem_take]
  rw [loadBe16, lhField, loadBe16, hByte _ (by omega), hByte _ (by omega)]

theorem fill_read (buf : Nat → BitVec 8) {room i : Nat} (hRoom : data.length ≤ room)
    (hi : i < data.length) : fill buf (data.take room) i = data.getD i 0 := by
  rw [List.take_of_length_le hRoom, fill, List.getD_eq_getElem _ _ hi,
    List.getD_eq_getElem _ _ hi]

theorem classify_addressed (h : nd.Addressed data) :
    nd.classify data = if lhPacketlen data = data.length then .wellFormed else .malformed := by
  obtain ⟨hLength, hFrame, hTo⟩ := h
  rw [NetData.classify, if_neg (by simp [hLength, hFrame]), if_neg (not_not_intro hTo)]
  exact ite_not ..

theorem classify_other (h : ¬ nd.Addressed data) :
    nd.classify data =
      if data.length < 8 ∨ lhFrame data ≠ frameMagic then .malformed else .notForUs := by
  unfold NetData.classify
  split
  · rfl
  · next hHeader =>
    rw [not_or, Nat.not_lt, not_not] at hHeader
    rw [if_pos fun hTo => h ⟨hHeader.1, hHeader.2, hTo⟩]

theorem length_read (nd : NetData) (data : List (BitVec 8)) :
    (data.take nd.readbuflen).length = min data.length nd.readbuflen := by
  rw [List.length_take, Nat.min_comm]

theorem dorecvStats_short (h : data.length < 8) :
    dorecvStats nd junk (.ok data) g = g.error := by
  rw [dorecvStats]
  simp only [length_read]
  rw [if_pos (by omega)]

theorem dorecvStats_header (h : 8 ≤ data.length) :
    dorecvStats nd junk (.ok data) g =
      if lhFrame data = frameMagic then
        if nd.forUs (lhTo data) then
          if lhPacketlen data = min data.length nd.readbuflen then
            if nd.ndRirq = 0 then g.received else g.dropped
          else g.error
        else g
      else g.error := by
  have hRoom := eight_le_readbuflen nd
  have hField (buf : Nat → BitVec 8) (offset : Nat) (hOffset : offset ≤ 6) :
      loadBe16 (fill buf (data.take nd.readbuflen)) offset = lhField data offset :=
    loadBe16_fill buf hRoom h hOffset
  have hFrame (buf : Nat → BitVec 8) :
      loadBe16 (fill buf (data.take nd.readbuflen)) 0 = lhFrame data := hField buf 0 (by omega)
  have hLen (buf : Nat → BitVec 8) :
      (loadBe16 (fill buf (data.take nd.readbuflen)) 4).toNat = lhPacketlen data :=
    congrArg BitVec.toNat (hField buf 4 (by omega))
  have hTo (buf : Nat → BitVec 8) :
      loadBe16 (fill buf (data.take nd.readbuflen)) 6 = lhTo data := hField buf 6 (by omega)
  have hForUs : (lhTo data ≠ nd.ndStatus.setWidth 16 ∧ lhTo data ≠ broadcastAddr ∧
      nd.ndControl &&& ndcPromisc = 0) ↔ ¬ nd.forUs (lhTo data) := by
    simp [NetData.forUs]
  rw [dorecvStats]
  simp only [length_read, hFrame, hLen, hTo, hForUs]
  rw [if_neg (by omega)]
  split_ifs <;> first | rfl | omega | contradiction

theorem dorecvStats_addressed (h : nd.Addressed data) :
    dorecvStats nd junk (.ok data) g =
      if lhPacketlen data = min data.length nd.readbuflen then
        if nd.ndRirq = 0 then g.received else g.dropped
      else g.error := by
  obtain ⟨hLength, hFrame, hTo⟩ := h
  rw [dorecvStats_header hLength, if_pos hFrame, if_pos hTo]

theorem dorecvStats_other (h : ¬ nd.Addressed data) :
    dorecvStats nd junk (.ok data) g =
      if data.length < 8 ∨ lhFrame data ≠ frameMagic then g.error else g := by
  by_cases hLength : data.length < 8
  · rw [dorecvStats_short hLength, if_pos (.inl hLength)]
  · rw [dorecvStats_header (by omega)]
    by_cases hFrame : lhFrame data = frameMagic
    · rw [if_pos hFrame, if_neg fun hTo => h ⟨by omega, hFrame, hTo⟩,
        if_neg (by simp [hLength, hFrame])]
    · rw [if_neg hFrame, if_pos (.inr hFrame)]

/-- The same checks decide whether the buffer is handed to the guest. -/
theorem wants_iff (nd : NetData) (data : List (BitVec 8)) (buf : Nat → BitVec 8) :
    nd.wants (fill buf (data.take nd.readbuflen)) (data.take nd.readbuflen).length = true ↔
      nd.Addressed data ∧ lhPacketlen data = min data.length nd.readbuflen := by
  have hRoom := eight_le_readbuflen nd
  rw [List.length_take, Nat.min_comm]
  by_cases hLength : 8 ≤ data.length
  · have hField (offset : Nat) (hOffset : offset ≤ 6) :
        loadBe16 (fill buf (data.take nd.readbuflen)) offset = lhField data offset :=
      loadBe16_fill buf hRoom hLength hOffset
    have hRead : 8 ≤ min data.length nd.readbuflen := by omega
    simp only [NetData.wants, NetData.Addressed, NetData.forUs, hField _ (Nat.zero_le 6),
      hField 4 (by omega), hField 6 (by omega), hLength, hRead, lhPacketlen, lhFrame, lhTo]
    simp [or_assoc, and_assoc]
  · have hRead : ¬ 8 ≤ min data.length nd.readbuflen := by omega
    simp [NetData.wants, NetData.Addressed, hLength, hRead]

theorem dorecv_ok (nd : NetData) (slot : Fin 32) (junk : Nat → BitVec 8) (data : List (BitVec 8)) :
    dorecv nd slot junk (.ok data) =
      if nd.ndRirq ≠ 0 then { dev := nd }
      else if nd.Addressed data ∧ lhPacketlen data = min data.length nd.readbuflen then
        readdone { nd with ndRbuf := fill nd.ndRbuf (data.take nd.readbuflen) }
      else { dev := { nd with ndRbuf := fill nd.ndRbuf (data.take nd.readbuflen) } } := by
  by_cases hBusy : nd.ndRirq ≠ 0
  · simp only [dorecv, hBusy, ne_eq, not_false_eq_true, if_true, ite_self]
  · have hWants := wants_iff nd data nd.ndRbuf
    have hRoom : nd.readbuflen = netBufsize := if_neg hBusy
    rw [hRoom] at hWants ⊢
    have hSame (rbuf : Nat → BitVec 8) (r : Nat) :
        ({ nd with ndRbuf := rbuf } : NetData).wants rbuf r = nd.wants rbuf r := rfl
    rw [dorecv]
    simp only [if_neg hBusy, hSame, Bool.not_eq_true', ← hWants]
    split_ifs <;> simp_all

theorem error_ne_received (g : NetStats) : g.error ≠ g.received := by
  intro h
  have hSame := congrArg NetStats.sEpkts h
  simp [NetStats.error, NetStats.received] at hSame

theorem error_ne_dropped (g : NetStats) : g.error ≠ g.dropped := by
  intro h
  have hSame := congrArg NetStats.sEpkts h
  simp [NetStats.error, NetStats.dropped] at hSame

/-- The state after a datagram has arrived. -/
def arrived (slot : Fin 32) (junk : Nat → BitVec 8) (data : List (BitVec 8)) (s : Net × NetStats) :
    Net × NetStats :=
  (s.1.after (dorecv s.1.nd slot junk (.ok data)), dorecvStats s.1.nd junk (.ok data) s.2)

variable {s : Net × NetStats}

theorem dorecv_quiet (slot : Fin 32) (junk : Nat → BitVec 8) (data : List (BitVec 8))
    (h : s.1.nd.ndRirq ≠ 0 ∨ ¬ (s.1.nd.Addressed data ∧
      lhPacketlen data = min data.length s.1.nd.readbuflen)) :
    (arrived slot junk data s).1.nd.ndRirq = s.1.nd.ndRirq ∧
      (arrived slot junk data s).1.line = s.1.line ∧
      (s.1.nd.ndRirq ≠ 0 → (arrived slot junk data s).1.nd.ndRbuf = s.1.nd.ndRbuf) := by
  rw [arrived, dorecv_ok]
  by_cases hBusy : s.1.nd.ndRirq ≠ 0
  · rw [if_pos hBusy]
    exact ⟨rfl, rfl, fun _ => rfl⟩
  · rw [if_neg hBusy, if_neg (h.resolve_left hBusy)]
    exact ⟨rfl, rfl, fun hBusy' => absurd hBusy' hBusy⟩

theorem dorecv_received (slot : Fin 32) (junk : Nat → BitVec 8) (hFree : s.1.nd.ndRirq = 0)
    (hData : s.1.nd.Addressed data)
    (hRead : lhPacketlen data = min data.length s.1.nd.readbuflen) :
    (arrived slot junk data s).1.nd.ndRirq = ndiDone ∧ (arrived slot junk data s).1.line = true ∧
      (arrived slot junk data s).1.nd.ndRbuf =
        fill s.1.nd.ndRbuf (data.take s.1.nd.readbuflen) := by
  rw [arrived, dorecv_ok, if_neg (not_not_intro hFree), if_pos ⟨hData, hRead⟩]
  exact ⟨rfl, rfl, rfl⟩

variable {slot : Fin 32}

theorem accounted_other (h : ¬ s.1.nd.Addressed data) :
    Accounted data s (arrived slot junk data s) := by
  obtain ⟨hRirq, hLine, -⟩ := dorecv_quiet slot junk data (.inr fun hData => h hData.1)
  have hStats : (arrived slot junk data s).2 = _ := dorecvStats_other h
  rw [Accounted, classify_other h]
  by_cases hHeader : data.length < 8 ∨ lhFrame data ≠ frameMagic
  · rw [if_pos hHeader] at hStats ⊢
    exact ⟨hStats, hRirq, hLine⟩
  · rw [if_neg hHeader] at hStats ⊢
    exact ⟨hStats, hRirq, hLine⟩

theorem accounted_addressed (h : s.1.nd.Addressed data) :
    Accounted data s (arrived slot junk data s) ↔
      (lhPacketlen data = data.length ↔
        lhPacketlen data = min data.length s.1.nd.readbuflen) := by
  have hStats : (arrived slot junk data s).2 = _ := dorecvStats_addressed h
  rw [Accounted, classify_addressed h]
  by_cases hRead : lhPacketlen data = min data.length s.1.nd.readbuflen
  · rw [iff_true_right hRead]
    rw [if_pos hRead] at hStats
    by_cases hWhole : lhPacketlen data = data.length
    · refine iff_of_true ?_ hWhole
      simp only [if_pos hWhole]
      by_cases hFree : s.1.nd.ndRirq = 0
      · obtain ⟨hRirq, hLine, hRbuf⟩ := dorecv_received slot junk hFree h hRead
        rw [if_pos hFree] at hStats ⊢
        refine ⟨hStats, hRirq, hLine, fun i hi => ?_⟩
        rw [hRbuf]
        exact fill_read _ (by omega) hi
      · obtain ⟨hRirq, hLine, hRbuf⟩ :=
          dorecv_quiet slot junk data (.inl hFree)
        rw [if_neg hFree] at hStats ⊢
        exact ⟨hStats, hRirq, hLine, hRbuf hFree⟩
    · refine iff_of_false ?_ hWhole
      simp only [if_neg hWhole]
      rintro ⟨hError, -, -⟩
      rw [hStats] at hError
      split_ifs at hError
      · exact error_ne_received _ hError.symm
      · exact error_ne_dropped _ hError.symm
  · rw [iff_false_right hRead]
    rw [if_neg hRead] at hStats
    by_cases hWhole : lhPacketlen data = data.length
    · refine iff_of_false ?_ (not_not_intro hWhole)
      simp only [if_pos hWhole]
      split_ifs
      · rintro ⟨hReceived, -⟩
        exact error_ne_received _ (hStats.symm.trans hReceived)
      · rintro ⟨hDropped, -⟩
        exact error_ne_dropped _ (hStats.symm.trans hDropped)
    · refine iff_of_true ?_ hWhole
      obtain ⟨hRirq, hLine, -⟩ := dorecv_quiet slot junk data (.inr fun hData => hRead hData.2)
      simp only [if_neg hWhole]
      exact ⟨hStats, hRirq, hLine⟩

theorem accounted_iff : Accounted data s (arrived slot junk data s) ↔ s.1.nd.Fits data := by
  by_cases h : s.1.nd.Addressed data
  · rw [accounted_addressed h, NetData.Fits, imp_iff_right h]
  · exact iff_of_true (accounted_other h) fun hData => absurd hData h

end Arrival

/-! ## Runs -/

section Runs

variable {slot : Fin 32} {bigEndian : Bool}

/-- A step of the interface with the counts. -/
inductive CountedStep (slot : Fin 32) (bigEndian : Bool) :
    Net × NetStats → NetAct → Net × NetStats → Prop where
  | arrive {s : Net × NetStats} (junk : Nat → BitVec 8) (data : List (BitVec 8)) :
      CountedStep slot bigEndian s (.arrive (.ok data)) (arrived slot junk data s)
  | other {n n' : Net} {g : NetStats} {act : NetAct} :
      (∀ data, act ≠ .arrive (.ok data)) → Net.Step slot bigEndian n act n' →
      CountedStep slot bigEndian (n, g) act (n', g)

theorem CountedStep.net {s s' : Net × NetStats} {act : NetAct}
    (h : CountedStep slot bigEndian s act s') : Net.Step slot bigEndian s.1 act s'.1 := by
  cases h with
  | arrive junk data => exact .arrive
  | other _ hStep => exact hStep

/-- A datagram is accounted for; nothing else changes the counts. -/
def StepAccounted (s : Net × NetStats) (act : NetAct) (s' : Net × NetStats) : Prop :=
  match act with
  | .arrive (.ok data) => Accounted data s s'
  | _ => s'.2 = s.2

def StepFits (s : Net × NetStats) (act : NetAct) (_ : Net × NetStats) : Prop :=
  ∀ data, act = .arrive (.ok data) → s.1.nd.Fits data

theorem stepAccounted_arrived {junk : Nat → BitVec 8} {data : List (BitVec 8)}
    {s : Net × NetStats} :
    StepAccounted s (.arrive (.ok data)) (arrived slot junk data s) ↔ s.1.nd.Fits data :=
  accounted_iff

theorem CountedStep.stepAccounted_iff {s s' : Net × NetStats} {act : NetAct}
    (h : CountedStep slot bigEndian s act s') : StepAccounted s act s' ↔ StepFits s act s' := by
  cases h with
  | arrive junk data =>
    constructor
    · intro hAccounted _ hArrive
      cases hArrive
      exact stepAccounted_arrived.mp hAccounted
    · intro hFits
      exact stepAccounted_arrived.mpr (hFits data rfl)
  | other hOther _ =>
    refine iff_of_true ?_ fun data hArrive => absurd hArrive (hOther data)
    unfold StepAccounted
    split
    · exact absurd rfl (hOther _)
    · rfl

/-- In a run every datagram is accounted for just where of each that is addressed to the interface
the length it claims is judged by what is read of it as by the whole of it. -/
theorem net_receive_accounting {s s' : Net × NetStats} {p : List (NetAct × (Net × NetStats))}
    (hRun : Path (CountedStep slot bigEndian) s p s') :
    AllSteps StepAccounted s p ↔ AllSteps StepFits s p := by
  induction hRun with
  | nil s => exact Iff.rfl
  | cons hStep _ ih => rw [allSteps_cons, allSteps_cons, hStep.stepAccounted_iff, ih]

/-- A broadcast of nine bytes. -/
def nineBytes : List (BitVec 8) := [0xa4, 0xb3, 0, 2, 0, 9, 0xff, 0xff, 0x21]

def freshNet : Net × NetStats := (⟨{ cleanMemory with ndStatus := 1 }, false, []⟩, ⟨0, 0, 0⟩)

def onceArrived : Net × NetStats := arrived 0 cleanMemory.ndRbuf nineBytes freshNet

theorem nineBytes_received : AllSteps StepAccounted freshNet
    [(.arrive (.ok nineBytes), onceArrived)] := by
  have hRun : Path (CountedStep 0 true) freshNet
      [(.arrive (.ok nineBytes), onceArrived)] onceArrived :=
    .cons (.arrive _ _) (.nil _)
  apply (net_receive_accounting hRun).mpr
  refine ⟨fun data hArrive _ => ?_, trivial⟩
  cases hArrive
  decide

/-- The second of two equal packets is counted as an error when the first has not been
acknowledged. -/
theorem not_net_receive_accounting : ∃ r, netInit cleanMemory 0 ".sockets/hub" 1 .sent = some r ∧
    ∃ p s', Path (CountedStep 0 true) (Net.start r, ⟨0, 0, 0⟩) p s' ∧ s'.2 = ⟨1, 0, 1⟩ ∧
      ¬ AllSteps StepAccounted (Net.start r, ⟨0, 0, 0⟩) p := by
  refine ⟨_, rfl, ?_⟩
  refine ⟨_, _, .cons (.arrive cleanMemory.ndRbuf nineBytes)
    (.cons (.arrive cleanMemory.ndRbuf nineBytes) (.nil _)), by decide, ?_⟩
  rintro ⟨-, hSecond, -⟩
  exact absurd (stepAccounted_arrived.mp hSecond (by decide)) (by decide)

/-! ## Totals -/

/-- How often a step is to be counted. -/
def NetAct.countable (nd : NetData) : NetAct → Nat
  | .arrive (.ok data) => if nd.classify data = .notForUs then 0 else 1
  | _ => 0

def countable : Net × NetStats → List (NetAct × (Net × NetStats)) → Nat
  | _, [] => 0
  | s, (act, s') :: p => act.countable s.1.nd + countable s' p

def NetStats.total (g : NetStats) : BitVec 32 := g.sRpkts + g.sDpkts + g.sEpkts

theorem total_received (g : NetStats) : g.received.total = g.total + 1 := by
  simp only [NetStats.total, NetStats.received]
  ac_rfl

theorem total_dropped (g : NetStats) : g.dropped.total = g.total + 1 := by
  simp only [NetStats.total, NetStats.dropped]
  ac_rfl

theorem total_error (g : NetStats) : g.error.total = g.total + 1 := by
  simp only [NetStats.total, NetStats.error]
  ac_rfl

theorem total_arrived (slot : Fin 32) (junk : Nat → BitVec 8) (data : List (BitVec 8))
    (s : Net × NetStats) :
    (arrived slot junk data s).2.total =
      s.2.total + BitVec.ofNat 32 (if s.1.nd.classify data = .notForUs then 0 else 1) := by
  by_cases h : s.1.nd.Addressed data
  · have hStats : (arrived slot junk data s).2 = _ := dorecvStats_addressed h
    rw [hStats, classify_addressed h]
    split_ifs <;> simp_all [total_received, total_dropped, total_error]
  · have hStats : (arrived slot junk data s).2 = _ := dorecvStats_other h
    rw [hStats, classify_other h]
    split_ifs <;> simp_all [total_error]

theorem CountedStep.total {s s' : Net × NetStats} {act : NetAct}
    (h : CountedStep slot bigEndian s act s') :
    s'.2.total = s.2.total + BitVec.ofNat 32 (act.countable s.1.nd) := by
  cases h with
  | arrive junk data => exact total_arrived slot junk data s
  | other hOther _ =>
    unfold NetAct.countable
    split
    · exact absurd rfl (hOther _)
    · exact (BitVec.add_zero _).symm

/-- Whatever a datagram is taken for, it is counted once, and one for another address is not. -/
theorem total_of_run {s s' : Net × NetStats} {p : List (NetAct × (Net × NetStats))}
    (hRun : Path (CountedStep slot bigEndian) s p s') :
    s'.2.total = s.2.total + BitVec.ofNat 32 (countable s p) := by
  induction hRun with
  | nil s => exact (BitVec.add_zero _).symm
  | cons hStep _ ih =>
    rw [ih, hStep.total, countable, BitVec.ofNat_add, BitVec.add_assoc]

end Runs

end Sys161.Bus
