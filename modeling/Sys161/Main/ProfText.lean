import Mathlib.Data.List.Induction
import Sys161.Main.Prof

/-!
# The text that is profiled

The bins are to cover all the segments, and the file is to tell a reader which
sixteen bytes each of them stands for.
-/

namespace Sys161.Main

open Bus

set_option autoImplicit false

def textEnd (s : Segment) : Word := s.1 + roundedSize s.2

/-- The segments that are not taken to be empty. -/
def taken (segs : List Segment) : List Segment := segs.filter fun s => roundedSize s.2 ≠ 0

/-- The least base of some segments and the greatest of their ends. -/
structure Bounds (l : List Segment) (base last : Word) : Prop where
  base_le : ∀ s ∈ l, base ≤ s.1
  exists_base : ∃ s ∈ l, s.1 = base
  le_last : ∀ s ∈ l, textEnd s ≤ last
  exists_last : ∃ s ∈ l, textEnd s = last

/-- At no point do all the ends so far lie at or below all the bases. -/
def Ordered (l : List Segment) : Prop :=
  ∀ q, q <+: l → q ≠ [] → ∃ a ∈ q, ∃ z ∈ q, a.1 < textEnd z

theorem Bounds.lt_iff {l : List Segment} {base last : Word} (h : Bounds l base last) :
    base < last ↔ ∃ a ∈ l, ∃ z ∈ l, a.1 < textEnd z := by
  obtain ⟨a, ha, rfl⟩ := h.exists_base
  obtain ⟨z, hz, rfl⟩ := h.exists_last
  constructor
  · intro hLess
    exact ⟨a, ha, z, hz, hLess⟩
  · rintro ⟨a', ha', z', hz', hLess⟩
    have hBase := h.base_le a' ha'
    have hLast := h.le_last z' hz'
    bv_omega

theorem ordered_concat {l : List Segment} {s : Segment} :
    Ordered (l ++ [s]) ↔ Ordered l ∧ ∃ a ∈ l ++ [s], ∃ z ∈ l ++ [s], a.1 < textEnd z := by
  constructor
  · intro h
    refine ⟨fun q hq => h q (hq.trans (List.prefix_append l [s])), ?_⟩
    exact h (l ++ [s]) (List.prefix_refl _) (by simp)
  · rintro ⟨hBefore, hAll⟩ q hq hSome
    rcases List.prefix_concat_iff.mp hq with rfl | hq
    · exact hAll
    · exact hBefore q hq hSome

theorem bounds_singleton (s : Segment) : Bounds [s] s.1 (textEnd s) where
  base_le := by simp
  exists_base := ⟨s, List.mem_singleton_self s, rfl⟩
  le_last := by simp
  exists_last := ⟨s, List.mem_singleton_self s, rfl⟩

theorem Bounds.concat {l : List Segment} {base last : Word} (h : Bounds l base last)
    (s : Segment) :
    Bounds (l ++ [s]) (if s.1 < base then s.1 else base)
      (if textEnd s > last then textEnd s else last) where
  base_le := by
    intro t ht
    rcases List.mem_append.mp ht with ht | ht
    · have hLe := h.base_le t ht
      split <;> bv_omega
    · cases List.mem_singleton.mp ht
      split <;> bv_omega
  exists_base := by
    obtain ⟨t, ht, hBase⟩ := h.exists_base
    split
    · exact ⟨s, by simp, rfl⟩
    · exact ⟨t, List.mem_append_left _ ht, hBase⟩
  le_last := by
    intro t ht
    rcases List.mem_append.mp ht with ht | ht
    · have hLe := h.le_last t ht
      split <;> bv_omega
    · cases List.mem_singleton.mp ht
      split <;> bv_omega
  exists_last := by
    obtain ⟨t, ht, hLast⟩ := h.exists_last
    split
    · exact ⟨s, by simp, rfl⟩
    · exact ⟨t, List.mem_append_left _ ht, hLast⟩

/-- The profiler with these bounds and nothing else. -/
def Profiler.spanning (base last : Word) : Profiler :=
  { Profiler.initial with
    prof := { Profiler.initial.prof with profTextbase := base }, profTextend := last }

/-- What has been noted of some segments. -/
inductive Noted : List Segment → Profiler → Prop where
  | none : Noted [] Profiler.initial
  | some {l : List Segment} {base last : Word} :
      Bounds l base last → base < last → Noted l (Profiler.spanning base last)

/-- One segment more widens the bounds, or they are corrupt. -/
theorem profAddtext_noted {l : List Segment} {p : Profiler} (h : Noted l p) {s : Segment}
    (hTaken : roundedSize s.2 ≠ 0) :
    (∃ p', profAddtext p s.1 s.2 = .ok p' ∧ Noted (l ++ [s]) p' ∧
        ∃ a ∈ l ++ [s], ∃ z ∈ l ++ [s], a.1 < textEnd z) ∨
      profAddtext p s.1 s.2 = .error textCorrupt ∧
        ¬ ∃ a ∈ l ++ [s], ∃ z ∈ l ++ [s], a.1 < textEnd z := by
  -- with the new bounds, whichever they are
  have hNew {base last : Word} (hBounds : Bounds (l ++ [s]) base last)
      (hEq : profAddtext p s.1 s.2 =
        if last ≤ base then .error textCorrupt else .ok (Profiler.spanning base last)) :
      (∃ p', profAddtext p s.1 s.2 = .ok p' ∧ Noted (l ++ [s]) p' ∧
          ∃ a ∈ l ++ [s], ∃ z ∈ l ++ [s], a.1 < textEnd z) ∨
        profAddtext p s.1 s.2 = .error textCorrupt ∧
          ¬ ∃ a ∈ l ++ [s], ∃ z ∈ l ++ [s], a.1 < textEnd z := by
    rw [hEq, ← hBounds.lt_iff]
    by_cases hCorrupt : last ≤ base
    · right
      exact ⟨if_pos hCorrupt, by bv_omega⟩
    · left
      have hLess : base < last := by bv_omega
      exact ⟨_, if_neg hCorrupt, .some hBounds hLess, hLess⟩
  cases h with
  | none =>
    apply hNew (bounds_singleton s)
    have hUnset : Profiler.initial.prof.profTextbase = 0 ∧ Profiler.initial.profTextend = 0 :=
      ⟨rfl, rfl⟩
    rw [profAddtext, if_neg hTaken]
    dsimp only
    rw [if_pos hUnset]
    rfl
  | @some _ base last hBounds hLess =>
    apply hNew (hBounds.concat s)
    have hSet : ¬ ((Profiler.spanning base last).prof.profTextbase = 0 ∧
        (Profiler.spanning base last).profTextend = 0) := by
      rintro ⟨hBase, hLast⟩
      change base = 0 at hBase
      change last = 0 at hLast
      rw [hBase, hLast] at hLess
      exact BitVec.lt_irrefl _ hLess
    rw [profAddtext, if_neg hTaken]
    dsimp only
    rw [if_neg hSet]
    rfl

/-- All the segments are noted as long as they are in order. -/
theorem foldlM_profAddtext (segs : List Segment) :
    (∃ p, segs.foldlM (fun p s => profAddtext p s.1 s.2) Profiler.initial = .ok p ∧
        Noted (taken segs) p ∧ Ordered (taken segs)) ∨
      segs.foldlM (fun p s => profAddtext p s.1 s.2) Profiler.initial = .error textCorrupt ∧
        ¬ Ordered (taken segs) := by
  induction segs using List.reverseRecOn with
  | nil =>
    left
    refine ⟨Profiler.initial, rfl, .none, ?_⟩
    intro q hq hSome
    exact absurd (List.prefix_nil.mp hq) hSome
  | append_singleton l s ih =>
    rw [List.foldlM_append]
    by_cases hEmpty : roundedSize s.2 = 0
    · have hSame : taken (l ++ [s]) = taken l := by
        simp [taken, hEmpty]
      rw [hSame]
      rcases ih with ⟨p, hFold, hNoted, hOrdered⟩ | ⟨hFold, hCorrupt⟩
      · left
        refine ⟨p, ?_, hNoted, hOrdered⟩
        rw [hFold]
        change (profAddtext p s.1 s.2 >>= _) = _
        rw [profAddtext, if_pos hEmpty]
        rfl
      · right
        rw [hFold]
        exact ⟨rfl, hCorrupt⟩
    · have hMore : taken (l ++ [s]) = taken l ++ [s] := by
        have hLast : taken [s] = [s] := List.filter_cons_of_pos (decide_eq_true hEmpty)
        exact (List.filter_append ..).trans (congrArg (taken l ++ ·) hLast)
      rw [hMore, ordered_concat]
      rcases ih with ⟨p, hFold, hNoted, hOrdered⟩ | ⟨hFold, hCorrupt⟩
      · rw [hFold]
        change (∃ p', (profAddtext p s.1 s.2 >>= _) = _ ∧ _) ∨
          (profAddtext p s.1 s.2 >>= _) = _ ∧ _
        rcases profAddtext_noted hNoted hEmpty with ⟨p', hAdd, hNoted', hLess⟩ | ⟨hAdd, hNot⟩
        · left
          rw [hAdd]
          exact ⟨p', rfl, hNoted', hOrdered, hLess⟩
        · right
          rw [hAdd]
          exact ⟨rfl, fun h => hNot h.2⟩
      · right
        rw [hFold]
        exact ⟨rfl, fun h => hCorrupt h.1⟩

/-! ## The bins -/

def InSegment (s : Segment) (pc : Word) : Prop :=
  s.1.toNat ≤ pc.toNat ∧ pc.toNat < s.1.toNat + s.2.toNat

/-- A sample is counted, in the bin of the sixteen bytes that it is in. -/
def Sampled (p : Profiler) (pc : Word) : Prop :=
  let bin := p.prof.addr2bin pc
  bin < p.prof.profSamplenum ∧
    p.prof.profTextbase.toNat + 16 * bin.toNat ≤ pc.toNat ∧
    pc.toNat < p.prof.profTextbase.toNat + 16 * (bin.toNat + 1) ∧
    (profSample p.prof pc).dev.profSampledata =
      Function.update p.prof.profSampledata bin (p.prof.profSampledata bin + 1)

/-- What is written tells where the bins are, and nothing of the text is without one. -/
def GeometryRight (segs : List Segment) : Prop :=
  ∃ p, profStart true segs = .ok p ∧
    (∀ ghh, .histogram ghh ∈ profWrite p →
      ghh.ghhHighpc.toNat = ghh.ghhLowpc.toNat + 16 * ghh.ghhSize.toNat) ∧
    ∀ s ∈ segs, ∀ pc, InSegment s pc → Sampled p pc

/-- The least base and the greatest end are some bins apart, with all segments between them. -/
structure TextFits (segs : List Segment) : Prop where
  ordered : Ordered (taken segs)
  aligned : ∀ a ∈ taken segs, ∀ z ∈ taken segs, (∀ s ∈ taken segs, a.1 ≤ s.1) →
    (∀ s ∈ taken segs, textEnd s ≤ textEnd z) → (textEnd z).toNat % 16 = a.1.toNat % 16
  covered : ∀ s ∈ segs, 0 < s.2 → ∃ a ∈ taken segs, ∃ z ∈ taken segs,
    a.1 ≤ s.1 ∧ s.1.toNat + s.2.toNat ≤ (textEnd z).toNat

/-- The profiler after the bins have been made. -/
def Profiler.binned (base last : Word) : Profiler :=
  { Profiler.spanning base last with
    prof := { profActive := true, profTextbase := base, profSamplenum := (last - base) / 16,
              profSampledata := fun _ => 0 }
    profOn := true }

section Bins

variable {base last pc : Word}

theorem toNat_samplenum (h : base < last) :
    ((last - base) / 16).toNat = (last.toNat - base.toNat) / 16 := by
  rw [BitVec.toNat_udiv, BitVec.toNat_sub_of_le (by bv_omega)]
  rfl

theorem sampled_binned (h : base < last) :
    Sampled (Profiler.binned base last) pc ↔
      base ≤ pc ∧ (pc.toNat - base.toNat) / 16 < (last.toNat - base.toNat) / 16 := by
  have hNum := toNat_samplenum h
  change (pc - base) / 16 < (last - base) / 16 ∧
    base.toNat + 16 * ((pc - base) / 16).toNat ≤ pc.toNat ∧
    pc.toNat < base.toNat + 16 * (((pc - base) / 16).toNat + 1) ∧ _ ↔ _
  have hUpdate (hBin : (pc - base) / 16 < (last - base) / 16) :
      (profSample (Profiler.binned base last).prof pc).dev.profSampledata =
        Function.update (fun _ => 0) ((pc - base) / 16) (0 + 1) := by
    have hActive : (Profiler.binned base last).prof.profActive = true := rfl
    have hBin' : (Profiler.binned base last).prof.addr2bin pc <
        (Profiler.binned base last).prof.profSamplenum := hBin
    rw [profSample, if_pos hActive]
    dsimp only
    rw [if_pos hBin']
    rfl
  by_cases hLe : base ≤ pc
  · have hBin : ((pc - base) / 16).toNat = (pc.toNat - base.toNat) / 16 := by
      rw [BitVec.toNat_udiv, BitVec.toNat_sub_of_le hLe]
      rfl
    have hNat := BitVec.le_def.mp hLe
    rw [BitVec.lt_def] at hUpdate ⊢
    rw [hBin, hNum] at hUpdate ⊢
    constructor
    · rintro ⟨hIn, -⟩
      exact ⟨hLe, hIn⟩
    · rintro ⟨-, hIn⟩
      exact ⟨hIn, by omega, by omega, hUpdate hIn⟩
  · refine iff_of_false ?_ (fun hIn => hLe hIn.1)
    rintro ⟨-, hFrom, -⟩
    exact hLe (BitVec.le_def.mpr (Nat.le_trans (Nat.le_add_right _ _) hFrom))

end Bins

theorem profSetup_spanning {base last : Word} (h : base < last) :
    profSetup (Profiler.spanning base last) = .ok (Profiler.binned base last) := by
  have hSet : ¬ ((Profiler.spanning base last).prof.profTextbase = 0 ∧
      (Profiler.spanning base last).profTextend = 0) := by
    rintro ⟨hBase, hLast⟩
    change base = 0 at hBase
    change last = 0 at hLast
    rw [hBase, hLast] at h
    exact BitVec.lt_irrefl _ h
  have hOrder : ¬ (Profiler.spanning base last).profTextend ≤
      (Profiler.spanning base last).prof.profTextbase := by
    change ¬ last ≤ base
    bv_omega
  rw [profSetup, if_neg hSet, if_neg hOrder]
  rfl

theorem geometryRight_of_ok {segs : List Segment} {p : Profiler}
    (h : profStart true segs = .ok p) :
    GeometryRight segs ↔
      (∀ ghh, .histogram ghh ∈ profWrite p →
        ghh.ghhHighpc.toNat = ghh.ghhLowpc.toNat + 16 * ghh.ghhSize.toNat) ∧
      ∀ s ∈ segs, ∀ pc, InSegment s pc → Sampled p pc := by
  constructor
  · rintro ⟨p', h', hRight⟩
    rw [h] at h'
    cases h'
    exact hRight
  · intro hRight
    exact ⟨p, h, hRight⟩

theorem geometry_none {segs : List Segment} (hNone : taken segs = [])
    (h : profStart true segs = .ok Profiler.initial) : GeometryRight segs ↔ TextFits segs := by
  rw [geometryRight_of_ok h]
  constructor
  · rintro ⟨-, hSampled⟩
    refine ⟨?_, ?_, ?_⟩
    · intro q hq hSome
      rw [hNone] at hq
      exact absurd (List.prefix_nil.mp hq) hSome
    · intro a ha
      rw [hNone] at ha
      cases ha
    · intro s hs hPos
      have hPos' := BitVec.lt_def.mp hPos
      obtain ⟨hBin, -⟩ := hSampled s hs s.1 ⟨Nat.le_refl _, Nat.lt_add_of_pos_right hPos'⟩
      exact absurd (BitVec.lt_def.mp hBin) (Nat.not_lt_zero _)
  · intro hFits
    constructor
    · intro ghh hMem
      cases hMem
    · rintro s hs pc ⟨hFrom, hTo⟩
      have hPos : 0 < s.2 := BitVec.lt_def.mpr (by change 0 < s.2.toNat; omega)
      obtain ⟨a, ha, -⟩ := hFits.covered s hs hPos
      rw [hNone] at ha
      cases ha

theorem geometry_binned {segs : List Segment} {base last : Word}
    (hBounds : Bounds (taken segs) base last) (hLess : base < last)
    (hOrdered : Ordered (taken segs))
    (h : profStart true segs = .ok (Profiler.binned base last)) :
    GeometryRight segs ↔ TextFits segs := by
  have hNat := BitVec.lt_def.mp hLess
  have hNum := toNat_samplenum hLess
  have hFile : (∀ ghh, .histogram ghh ∈ profWrite (Profiler.binned base last) →
      ghh.ghhHighpc.toNat = ghh.ghhLowpc.toNat + 16 * ghh.ghhSize.toNat) ↔
      last.toNat % 16 = base.toNat % 16 := by
    have hHere : (∀ ghh, .histogram ghh ∈ profWrite (Profiler.binned base last) →
        ghh.ghhHighpc.toNat = ghh.ghhLowpc.toNat + 16 * ghh.ghhSize.toNat) ↔
        last.toNat = base.toNat + 16 * ((last - base) / 16).toNat := by
      constructor
      · intro hAll
        exact hAll (Profiler.binned base last).histogram (by simp [profWrite, Profiler.binned])
      · intro hEq ghh hMem
        simp only [profWrite, Profiler.binned, if_true, List.mem_cons, List.mem_map, reduceCtorEq,
          and_false, exists_false, or_false, false_or, GmonRecord.histogram.injEq] at hMem
        rw [hMem]
        exact hEq
    rw [hHere, hNum]
    omega
  rw [geometryRight_of_ok h, hFile]
  constructor
  · rintro ⟨hAligned, hSampled⟩
    refine ⟨hOrdered, ?_, ?_⟩
    · intro a ha z hz hLeast hMost
      obtain ⟨b, hb, rfl⟩ := hBounds.exists_base
      obtain ⟨y, hy, rfl⟩ := hBounds.exists_last
      have hBase : a.1 = b.1 := BitVec.le_antisymm (hLeast b hb) (hBounds.base_le a ha)
      have hLast : textEnd z = textEnd y := BitVec.le_antisymm (hBounds.le_last z hz) (hMost y hy)
      rw [hBase, hLast]
      exact hAligned
    · intro s hs hPos
      have hPos' : 0 < s.2.toNat := BitVec.lt_def.mp hPos
      have hWord := s.1.isLt
      have hFirst := hSampled s hs s.1 ⟨Nat.le_refl _, Nat.lt_add_of_pos_right hPos'⟩
      obtain ⟨hFrom, -⟩ := (sampled_binned hLess).mp hFirst
      -- the last address of the segment, or of all
      have hTop : min (s.1.toNat + s.2.toNat - 1) (2 ^ 32 - 1) < 2 ^ 32 := by omega
      have hEnd := hSampled s hs (BitVec.ofNat 32 (min (s.1.toNat + s.2.toNat - 1) (2 ^ 32 - 1)))
        (by rw [InSegment, BitVec.toNat_ofNat, Nat.mod_eq_of_lt hTop]; omega)
      obtain ⟨-, hIn⟩ := (sampled_binned hLess).mp hEnd
      rw [BitVec.toNat_ofNat, Nat.mod_eq_of_lt hTop] at hIn
      obtain ⟨b, hb, rfl⟩ := hBounds.exists_base
      obtain ⟨y, hy, rfl⟩ := hBounds.exists_last
      have hLastWord := (textEnd y).isLt
      exact ⟨b, hb, y, hy, hFrom, by omega⟩
  · intro hFits
    obtain ⟨b, hb, hBase⟩ := hBounds.exists_base
    obtain ⟨y, hy, hLast⟩ := hBounds.exists_last
    have hAligned := hFits.aligned b hb y hy (hBase ▸ hBounds.base_le) (hLast ▸ hBounds.le_last)
    rw [hBase, hLast] at hAligned
    refine ⟨hAligned, ?_⟩
    rintro s hs pc ⟨hFrom, hTo⟩
    have hPos : 0 < s.2 := BitVec.lt_def.mpr (by change 0 < s.2.toNat; omega)
    obtain ⟨a, ha, z, hz, hLow, hHigh⟩ := hFits.covered s hs hPos
    have hLeast := BitVec.le_def.mp (hBounds.base_le a ha)
    have hMost := BitVec.le_def.mp (hBounds.le_last z hz)
    have hLow' := BitVec.le_def.mp hLow
    exact (sampled_binned hLess).mpr ⟨BitVec.le_def.mpr (by omega), by omega⟩

/-- The bins are right exactly where the segments, with the sizes that they are taken to have, end
some bins after they begin and lie in between. -/
theorem geometryRight_iff (segs : List Segment) : GeometryRight segs ↔ TextFits segs := by
  rcases foldlM_profAddtext segs with ⟨p, hFold, hNoted, hOrdered⟩ | ⟨hFold, hCorrupt⟩
  · have hStart : profStart true segs = profSetup p := by
      rw [profStart, hFold]
      rfl
    generalize hTaken : taken segs = l at hNoted
    cases hNoted with
    | none => exact geometry_none hTaken hStart
    | some hBounds hLess =>
      subst hTaken
      exact geometry_binned hBounds hLess hOrdered (hStart.trans (profSetup_spanning hLess))
  · refine iff_of_false ?_ (fun hFits => hCorrupt hFits.ordered)
    rintro ⟨p, hStart, -⟩
    rw [profStart, hFold] at hStart
    cases hStart

/-- A segment of sixteen words has four bins, for sixty-five bytes as the file has it. -/
theorem geometry_of_sixteen_words : ¬ GeometryRight [(0x80000000, 64)] := by
  rintro ⟨p, hStart, hFile, -⟩
  have hMade : profStart true [(0x80000000, 64)] =
      .ok (Profiler.binned 0x80000000 0x80000041) := by rfl
  rw [hMade] at hStart
  cases hStart
  have hBytes := hFile (Profiler.binned 0x80000000 0x80000041).histogram
    (List.mem_cons_of_mem _ (List.mem_cons_self ..))
  exact absurd hBytes (by decide)

/-- Nothing of fourteen bytes is sampled. -/
example : (Profiler.binned 0x80000000 (textEnd (0x80000000, 14))).prof.profSamplenum = 0 := by
  decide

end Sys161.Main
