import Mathlib.Data.List.Nodup
import Sys161.Main.Prof

/-!
# The call graph of the profiler

The entries of `prof.c` for pairs of a caller and a callee, which are kept in
the list of the bin that the caller is in.
-/

namespace Sys161.Main

open Bus

set_option autoImplicit false

abbrev Pair := Word × Word

def CgEntry.key (ce : CgEntry) : Pair := (ce.gceFrom, ce.gceTo)

/-- The loop of `prof_call`: the first entry of the pair is counted up. -/
def countUp (k : Pair) : List CgEntry → Option (List CgEntry)
  | [] => none
  | ce :: rest =>
    if ce.key = k then some ({ ce with gceCount := ce.gceCount + 1 } :: rest)
    else (countUp k rest).map (ce :: ·)

def profCall (malloc : Bool) (p : Profiler) (frompc topc : Word) : Except String Profiler :=
  if p.prof.profActive = false then
    .ok p
  else
    let bin := p.prof.addr2bin frompc
    if bin ≥ p.prof.profSamplenum then
      .ok p
    else
      match countUp (frompc, topc) (p.profCg bin) with
      | some list => .ok { p with profCg := Function.update p.profCg bin list }
      | none =>
        if malloc then
          .ok { p with
            profCg := Function.update p.profCg bin (⟨frompc, topc, 1⟩ :: p.profCg bin) }
        else
          .error "malloc failed updating profiling data"

def profEnable (p : Profiler) : Profiler :=
  if p.profOn then { p with prof := { p.prof with profActive := true } } else p

def profDisable (p : Profiler) : Profiler :=
  { p with prof := { p.prof with profActive := false } }

def profClear (p : Profiler) : Profiler :=
  if p.profOn = false then p
  else
    { p with
      prof := { p.prof with
        profSampledata := fun i =>
          if i < p.prof.profSamplenum then 0 else p.prof.profSampledata i }
      profCg := fun i => if i < p.prof.profSamplenum then [] else p.profCg i }

/-- A call comes with the answer of `malloc`. -/
inductive ProfOp where
  | call (malloc : Bool) (frompc topc : Word)
  | enable
  | disable
  | clear

def profStep (p : Profiler) : ProfOp → Except String Profiler
  | .call malloc frompc topc => profCall malloc p frompc topc
  | .enable => .ok (profEnable p)
  | .disable => .ok (profDisable p)
  | .clear => .ok (profClear p)

/-! ## Calls since the last clear -/

/-- Whether calls are counted, and how many there have been of each pair. -/
structure Tally where
  counting : Bool
  calls : Pair → Nat

/-- Where profiling has not been set up it is not enabled either. -/
def Tally.next (isOn : Bool) (a : Tally) : ProfOp → Tally
  | .call _ frompc topc =>
    if a.counting then
      { a with calls := Function.update a.calls (frompc, topc) (a.calls (frompc, topc) + 1) }
    else
      a
  | .enable => { a with counting := isOn || a.counting }
  | .disable => { a with counting := false }
  | .clear => if isOn then { a with calls := fun _ => 0 } else a

/-- Profiling is enabled from when it is set up. -/
def tally (isOn : Bool) (ops : List ProfOp) : Tally :=
  ops.foldl (Tally.next isOn) ⟨isOn, fun _ => 0⟩

/-! ## A list of entries -/

/-- The count of the first entry of a pair. -/
def countFor (k : Pair) (l : List CgEntry) : Option Word :=
  (l.find? fun ce => ce.key = k).map CgEntry.gceCount

section List

variable {k : Pair} {l l' : List CgEntry} {n : Word}

@[simp] theorem countFor_nil : countFor k [] = none := rfl

theorem countFor_cons_self {ce : CgEntry} (h : ce.key = k) :
    countFor k (ce :: l) = some ce.gceCount := by
  simp [countFor, h]

theorem countFor_cons_of_ne {ce : CgEntry} (h : ce.key ≠ k) :
    countFor k (ce :: l) = countFor k l := by
  simp [countFor, h]

theorem countFor_eq_none_iff : countFor k l = none ↔ ∀ ce ∈ l, ce.key ≠ k := by
  simp [countFor]

theorem mem_of_countFor (h : countFor k l = some n) : ⟨k.1, k.2, n⟩ ∈ l := by
  obtain ⟨ce, hFind, rfl⟩ := Option.map_eq_some_iff.mp h
  have hKey : ce.key = k := by simpa using List.find?_some hFind
  subst hKey
  exact List.mem_of_find?_eq_some hFind

theorem countUp_eq_none_iff : countUp k l = none ↔ countFor k l = none := by
  induction l with
  | nil => exact iff_of_true rfl rfl
  | cons ce rest ih =>
    rw [countUp]
    by_cases hKey : ce.key = k
    · rw [if_pos hKey, countFor_cons_self hKey]
      exact iff_of_false (by simp) (by simp)
    · rw [if_neg hKey, countFor_cons_of_ne hKey, Option.map_eq_none_iff, ih]

/-- The keys stay where they are, and one count is one more. -/
theorem countFor_countUp (h : countUp k l = some l') :
    l'.map CgEntry.key = l.map CgEntry.key ∧
      countFor k l' = (countFor k l).map (· + 1) ∧ (countFor k l).isSome ∧
      ∀ k', k' ≠ k → countFor k' l' = countFor k' l := by
  induction l generalizing l' with
  | nil => cases h
  | cons ce rest ih =>
    rw [countUp] at h
    split at h
    · next hKey =>
      cases h
      have hKey' : CgEntry.key { ce with gceCount := ce.gceCount + 1 } = k := hKey
      refine ⟨rfl, ?_, ?_, ?_⟩
      · rw [countFor_cons_self hKey, countFor_cons_self hKey']
        rfl
      · rw [countFor_cons_self hKey]
        rfl
      · intro k' hNe
        have hOther : ce.key ≠ k' := hKey ▸ hNe.symm
        have hOther' : CgEntry.key { ce with gceCount := ce.gceCount + 1 } ≠ k' := hOther
        rw [countFor_cons_of_ne hOther, countFor_cons_of_ne hOther']
    · next hKey =>
      obtain ⟨rest', hRest, rfl⟩ := Option.map_eq_some_iff.mp h
      obtain ⟨hKeys, hCount, hSome, hOthers⟩ := ih hRest
      rw [countFor_cons_of_ne hKey, countFor_cons_of_ne hKey]
      refine ⟨by rw [List.map_cons, List.map_cons, hKeys], hCount, hSome, ?_⟩
      intro k' hNe
      by_cases hHere : ce.key = k'
      · rw [countFor_cons_self hHere, countFor_cons_self hHere]
      · rw [countFor_cons_of_ne hHere, countFor_cons_of_ne hHere, hOthers k' hNe]

end List

/-! ## The entries of all bins -/

theorem mem_bins_iff {p : Profiler} {i : Word} : i ∈ p.bins ↔ i < p.prof.profSamplenum := by
  constructor
  · intro hi
    obtain ⟨n, hn, rfl⟩ := List.mem_map.mp hi
    have hWord := p.prof.profSamplenum.isLt
    rw [List.mem_range] at hn
    rw [BitVec.lt_def, BitVec.toNat_ofNat, Nat.mod_eq_of_lt (by omega)]
    exact hn
  · intro hi
    exact List.mem_map.mpr ⟨i.toNat, List.mem_range.mpr (BitVec.lt_def.mp hi), by simp⟩

/-- How often a pair has been called, as far as an entry can tell. -/
def expected (calls : Nat) : Option Word := if calls = 0 then none else some (BitVec.ofNat 32 calls)

theorem expected_succ {calls : Nat} (h : (expected calls).isSome) :
    (expected calls).map (· + 1) = expected (calls + 1) := by
  unfold expected at h ⊢
  split at h
  · cases h
  · next hSome =>
    rw [if_neg hSome, if_neg (Nat.succ_ne_zero _), Option.map_some, BitVec.ofNat_add]
    rfl

structure Exact (isOn : Bool) (p : Profiler) (a : Tally) : Prop where
  isOn : p.profOn = isOn
  active : p.prof.profActive = a.counting
  off : p.profOn = false → p.prof.profSamplenum = 0
  inBin : ∀ i < p.prof.profSamplenum, ∀ ce ∈ p.profCg i, p.prof.addr2bin ce.gceFrom = i
  nodup : ∀ i < p.prof.profSamplenum, ((p.profCg i).map CgEntry.key).Nodup
  counted : ∀ k : Pair, p.prof.addr2bin k.1 < p.prof.profSamplenum →
    countFor k (p.profCg (p.prof.addr2bin k.1)) = expected (a.calls k)

namespace Exact

variable {isOn : Bool} {p : Profiler} {a : Tally} {frompc topc : Word}

/-- The list of the caller's bin counts one call more. -/
theorem call (h : Exact isOn p a) {list : List CgEntry}
    (hKeys : (list.map CgEntry.key).Nodup)
    (hBin : ∀ ce ∈ list, p.prof.addr2bin ce.gceFrom = p.prof.addr2bin frompc)
    (hCount : countFor (frompc, topc) list = expected (a.calls (frompc, topc) + 1))
    (hOthers : ∀ k, k ≠ (frompc, topc) →
      countFor k list = countFor k (p.profCg (p.prof.addr2bin frompc))) :
    Exact isOn { p with profCg := Function.update p.profCg (p.prof.addr2bin frompc) list }
      { a with calls := Function.update a.calls (frompc, topc) (a.calls (frompc, topc) + 1) } where
  isOn := h.isOn
  active := h.active
  off := h.off
  inBin := by
    intro i hi ce hce
    dsimp only at hi hce ⊢
    by_cases hHere : i = p.prof.addr2bin frompc
    · subst hHere
      rw [Function.update_self] at hce
      exact hBin ce hce
    · rw [Function.update_of_ne hHere] at hce
      exact h.inBin i hi ce hce
  nodup := by
    intro i hi
    dsimp only at hi ⊢
    by_cases hHere : i = p.prof.addr2bin frompc
    · subst hHere
      rw [Function.update_self]
      exact hKeys
    · rw [Function.update_of_ne hHere]
      exact h.nodup i hi
  counted := by
    intro k hk
    change countFor k (Function.update p.profCg _ list (p.prof.addr2bin k.1)) =
      expected (Function.update a.calls _ _ k)
    by_cases hPair : k = (frompc, topc)
    · subst hPair
      rw [Function.update_self, Function.update_self]
      exact hCount
    · rw [Function.update_of_ne hPair, ← h.counted k hk]
      by_cases hHere : p.prof.addr2bin k.1 = p.prof.addr2bin frompc
      · rw [hHere, Function.update_self]
        exact hOthers k hPair
      · rw [Function.update_of_ne hHere]

theorem profCall (h : Exact isOn p a) {malloc : Bool} {p' : Profiler}
    (hCall : profCall malloc p frompc topc = .ok p') :
    Exact isOn p' (a.next isOn (.call malloc frompc topc)) := by
  unfold Main.profCall at hCall
  dsimp only [Tally.next]
  split at hCall
  · next hOff =>
    cases hCall
    rw [h.active] at hOff
    rw [if_neg (by simp [hOff])]
    exact h
  · next hActive =>
    rw [h.active, Bool.not_eq_false] at hActive
    rw [if_pos hActive]
    dsimp only at hCall
    split at hCall
    · next hOut =>
      cases hCall
      -- there is no list for the caller
      refine ⟨h.isOn, h.active, h.off, h.inBin, h.nodup, ?_⟩
      intro k hk
      have hOther : k ≠ (frompc, topc) := by
        rintro rfl
        exact absurd hk (BitVec.not_lt.mpr hOut)
      change _ = expected (Function.update a.calls _ _ k)
      rw [Function.update_of_ne hOther]
      exact h.counted k hk
    · next hIn =>
      have hBin : p.prof.addr2bin frompc < p.prof.profSamplenum := BitVec.not_le.mp hIn
      have hCounted := h.counted (frompc, topc) hBin
      dsimp only at hCounted
      split at hCall
      · next list hUp =>
        cases hCall
        obtain ⟨hKeys, hCount, hSome, hOthers⟩ := countFor_countUp hUp
        have hNodup := h.nodup _ hBin
        rw [← hKeys] at hNodup
        apply h.call hNodup _ _ hOthers
        · intro ce hce
          have hKey := List.mem_map_of_mem (f := CgEntry.key) hce
          rw [hKeys] at hKey
          obtain ⟨ce', hce', hEq⟩ := List.mem_map.mp hKey
          have hFrom : ce'.gceFrom = ce.gceFrom := congrArg Prod.fst hEq
          rw [← hFrom]
          exact h.inBin _ hBin ce' hce'
        · rw [hCounted] at hSome
          rw [hCount, hCounted, expected_succ hSome]
      · next hNone =>
        rw [countUp_eq_none_iff] at hNone
        split at hCall
        · cases hCall
          rw [hNone, expected] at hCounted
          have hZero : a.calls (frompc, topc) = 0 := by
            by_contra hSome
            rw [if_neg hSome] at hCounted
            cases hCounted
          apply h.call
          · rw [List.map_cons, List.nodup_cons]
            refine ⟨?_, h.nodup _ hBin⟩
            intro hKey
            obtain ⟨ce, hce, hEq⟩ := List.mem_map.mp hKey
            exact countFor_eq_none_iff.mp hNone ce hce hEq
          · intro ce hce
            rcases List.mem_cons.mp hce with rfl | hce
            · rfl
            · exact h.inBin _ hBin ce hce
          · rw [hZero]
            exact countFor_cons_self rfl
          · intro k hNe
            exact countFor_cons_of_ne (Ne.symm hNe)
        · cases hCall

theorem profClear (h : Exact isOn p a) : Exact isOn (profClear p) (a.next isOn .clear) := by
  unfold Main.profClear
  dsimp only [Tally.next]
  split
  · next hOff =>
    rw [h.isOn] at hOff
    rw [if_neg (by simp [hOff])]
    exact h
  · next hOn =>
    rw [h.isOn, Bool.not_eq_false] at hOn
    rw [if_pos hOn]
    refine ⟨h.isOn, h.active, h.off, ?_, ?_, ?_⟩
    · intro i hi ce hce
      dsimp only at hi hce
      rw [if_pos hi] at hce
      cases hce
    · intro i hi
      dsimp only at hi ⊢
      rw [if_pos hi]
      exact List.nodup_nil
    · intro k hk
      have hk' : p.prof.addr2bin k.1 < p.prof.profSamplenum := hk
      change countFor k (if p.prof.addr2bin k.1 < p.prof.profSamplenum then [] else _) = _
      rw [if_pos hk']
      rfl

theorem step (h : Exact isOn p a) {op : ProfOp} {p' : Profiler} (hStep : profStep p op = .ok p') :
    Exact isOn p' (a.next isOn op) := by
  cases op with
  | call malloc frompc topc => exact h.profCall hStep
  | enable =>
    cases hStep
    dsimp only [Tally.next]
    unfold profEnable
    split
    · next hOn =>
      rw [h.isOn] at hOn
      exact ⟨h.isOn, by simp [hOn], h.off, h.inBin, h.nodup, h.counted⟩
    · next hOff =>
      rw [h.isOn, Bool.not_eq_true] at hOff
      exact ⟨h.isOn, by simp [hOff, h.active], h.off, h.inBin, h.nodup, h.counted⟩
  | disable =>
    cases hStep
    exact ⟨h.isOn, rfl, h.off, h.inBin, h.nodup, h.counted⟩
  | clear =>
    cases hStep
    exact h.profClear

theorem run (h : Exact isOn p a) {ops : List ProfOp} {p' : Profiler}
    (hRun : ops.foldlM profStep p = .ok p') : Exact isOn p' (ops.foldl (Tally.next isOn) a) := by
  induction ops generalizing p a with
  | nil =>
    cases hRun
    exact h
  | cons op ops ih =>
    rw [List.foldlM_cons] at hRun
    cases hStep : profStep p op with
    | error e =>
      rw [hStep] at hRun
      cases hRun
    | ok q =>
      rw [hStep] at hRun
      exact ih (h.step hStep) hRun

/-- There is one entry of a pair at most, in all of the bins. -/
theorem nodup_bins (h : Exact isOn p a) :
    ((p.bins.flatMap p.profCg).map CgEntry.key).Nodup := by
  have hLess : ∀ i ∈ p.bins, i < p.prof.profSamplenum := fun i hi => mem_bins_iff.mp hi
  have hBins : p.bins.Nodup := by
    apply List.Nodup.map_on _ List.nodup_range
    intro n hn m hm hEq
    have hWord := p.prof.profSamplenum.isLt
    rw [List.mem_range] at hn hm
    have hNat := congrArg BitVec.toNat hEq
    rwa [BitVec.toNat_ofNat, BitVec.toNat_ofNat, Nat.mod_eq_of_lt (by omega),
      Nat.mod_eq_of_lt (by omega)] at hNat
  rw [List.map_flatMap, List.nodup_flatMap]
  refine ⟨fun i hi => h.nodup i (hLess i hi), ?_⟩
  apply List.Pairwise.imp_of_mem _ hBins
  intro i j hi hj hNe
  change List.Disjoint _ _
  rw [List.disjoint_left]
  intro k hk hk'
  obtain ⟨ce, hce, rfl⟩ := List.mem_map.mp hk
  obtain ⟨ce', hce', hEq⟩ := List.mem_map.mp hk'
  have hFrom : ce'.gceFrom = ce.gceFrom := congrArg Prod.fst hEq
  have hHere := h.inBin i (hLess i hi) ce hce
  have hThere := h.inBin j (hLess j hj) ce' hce'
  rw [hFrom] at hThere
  exact hNe (hHere.symm.trans hThere)

end Exact

theorem foldlM_profAddtext_off {segs : List Segment} {q p : Profiler}
    (hOff : q.profOn = false ∧ q.prof.profActive = false ∧ q.prof.profSamplenum = 0)
    (h : segs.foldlM (fun p s => profAddtext p s.1 s.2) q = .ok p) :
    p.profOn = false ∧ p.prof.profActive = false ∧ p.prof.profSamplenum = 0 := by
  induction segs generalizing q with
  | nil =>
    cases h
    exact hOff
  | cons s segs ih =>
    rw [List.foldlM_cons] at h
    cases hAdd : profAddtext q s.1 s.2 with
    | error e =>
      rw [hAdd] at h
      cases h
    | ok r =>
      rw [hAdd] at h
      refine ih ?_ h
      unfold profAddtext at hAdd
      split at hAdd
      · cases hAdd
        exact hOff
      · dsimp only at hAdd
        generalize (ite (q.prof.profTextbase = 0 ∧ q.profTextend = 0) _ _ : Word × Word) = text
          at hAdd
        split at hAdd
        · cases hAdd
        · cases hAdd
          exact hOff

theorem exact_profStart {profiling : Bool} {segs : List Segment} {p : Profiler}
    (h : profStart profiling segs = .ok p) : Exact p.profOn p ⟨p.profOn, fun _ => 0⟩ := by
  -- without bins there are no entries
  have hNone {q : Profiler}
      (hOff : q.profOn = false ∧ q.prof.profActive = false ∧ q.prof.profSamplenum = 0) :
      Exact q.profOn q ⟨q.profOn, fun _ => 0⟩ := by
    obtain ⟨hOn, hActive, hNum⟩ := hOff
    have hBin (i : Word) : ¬ i < q.prof.profSamplenum := by
      rw [hNum]
      exact BitVec.not_lt_zero
    exact ⟨rfl, hActive.trans hOn.symm, fun _ => hNum, fun i hi => absurd hi (hBin i),
      fun i hi => absurd hi (hBin i), fun k hk => absurd hk (hBin _)⟩
  unfold profStart at h
  cases hText : segs.foldlM (fun p s => profAddtext p s.1 s.2) Profiler.initial with
  | error e =>
    rw [hText] at h
    cases h
  | ok q =>
    have hOff := foldlM_profAddtext_off ⟨rfl, rfl, rfl⟩ hText
    rw [hText] at h
    change (if profiling = true then profSetup q else .ok q) = .ok p at h
    split at h
    · unfold profSetup at h
      split at h
      · cases h
        exact hNone hOff
      · split at h
        · cases h
        · cases h
          refine ⟨rfl, rfl, fun hOn => Bool.noConfusion hOn, ?_, fun _ _ => List.nodup_nil,
            fun _ _ => rfl⟩
          intro i _ ce hce
          cases hce
    · cases h
      exact hNone hOff

/-- Whatever is called, enabled, disabled and cleared after the start: an entry is in its caller's
bin, a pair has one at most, which has counted its calls since the last clear, and the file has
each entry once. -/
theorem callgraph_exact {profiling : Bool} {segs : List Segment} {p₀ p : Profiler}
    {ops : List ProfOp} (hStart : profStart profiling segs = .ok p₀)
    (hRun : ops.foldlM profStep p₀ = .ok p) :
    let calls := (tally p₀.profOn ops).calls
    (∀ i < p.prof.profSamplenum, ∀ ce ∈ p.profCg i, p.prof.addr2bin ce.gceFrom = i) ∧
    ((p.bins.flatMap p.profCg).map CgEntry.key).Nodup ∧
    (∀ k : Pair, p.prof.addr2bin k.1 < p.prof.profSamplenum →
      if calls k = 0 then ∀ ce ∈ p.bins.flatMap p.profCg, ce.key ≠ k
      else ⟨k.1, k.2, BitVec.ofNat 32 (calls k)⟩ ∈ p.profCg (p.prof.addr2bin k.1)) ∧
    ∀ ce, (profWrite p).count (.callgraph ce) =
      if ce ∈ p.bins.flatMap p.profCg then 1 else 0 := by
  have hExact : Exact p₀.profOn p (tally p₀.profOn ops) := (exact_profStart hStart).run hRun
  refine ⟨hExact.inBin, hExact.nodup_bins, ?_, ?_⟩
  · intro k hk
    have hCount := hExact.counted k hk
    unfold expected at hCount
    split
    · next hZero =>
      rw [if_pos hZero, countFor_eq_none_iff] at hCount
      intro ce hce hKey
      obtain ⟨i, hi, hIn⟩ := List.mem_flatMap.mp hce
      have hBin := hExact.inBin i (mem_bins_iff.mp hi) ce hIn
      have hFrom : ce.gceFrom = k.1 := congrArg Prod.fst hKey
      rw [hFrom] at hBin
      subst hBin
      exact hCount ce hIn hKey
    · next hSome =>
      rw [if_neg hSome] at hCount
      exact mem_of_countFor hCount
  · intro ce
    have hOnce : (p.bins.flatMap p.profCg).count ce =
        if ce ∈ p.bins.flatMap p.profCg then 1 else 0 :=
      (List.Nodup.of_map _ hExact.nodup_bins).count
    unfold profWrite
    split
    · rw [List.count_cons_of_ne (by simp), List.count_cons_of_ne (by simp),
        List.count_map_of_injective _ _ (fun _ _ h => GmonRecord.callgraph.inj h)]
      exact hOnce
    · next hOff =>
      have hNum := hExact.off (by simpa using hOff)
      have hBins : p.bins = [] := by
        rw [Profiler.bins, hNum]
        rfl
      rw [hBins]
      rfl

def twoBins : Profiler where
  prof := { profActive := true, profTextbase := 0x1000, profSamplenum := 2,
            profSampledata := fun _ => 0 }
  profTextend := 0x1020
  profCg := fun _ => []
  profOn := true

theorem callgraph_two_calls :
    ∃ p, [ProfOp.call true 0x1004 0x2000, .clear, .call true 0x1004 0x2000,
        .call true 0x1004 0x2000, .disable, .call true 0x1004 0x2000].foldlM profStep twoBins =
          .ok p ∧
      ⟨0x1004, 0x2000, 2⟩ ∈ p.profCg 0 := by
  have hStart : profStart true [(0x1000, 31)] = .ok twoBins := rfl
  have hRun : [ProfOp.call true 0x1004 0x2000, .clear, .call true 0x1004 0x2000,
      .call true 0x1004 0x2000, .disable, .call true 0x1004 0x2000].foldlM profStep twoBins =
        .ok _ := rfl
  obtain ⟨-, -, hCounted, -⟩ := callgraph_exact hStart hRun
  have hEntry := hCounted (0x1004, 0x2000) (by decide)
  rw [if_neg (by decide)] at hEntry
  exact ⟨_, hRun, hEntry⟩

end Sys161.Main
