import Sys161.Mips.MultUnit

/-!
# The wait counters over a run

Between two turns no wait counter of a cpu is above one, and both are zero where
the next instruction is in a delay slot. So an instruction stalls at most once,
and never in a delay slot.
-/

namespace Sys161.Mips

open Exec Runs

set_option autoImplicit false

variable {δ : Type} {b : Board δ} (i : Nat)

/-! ## Where a cpu is in its course -/

structure Course where
  jumping : Bool
  inJumpdelay : Bool
  pc : Word
  nextpc : Word
  hiwait : Nat
  lowait : Nat

def Mipscpu.course (c : Mipscpu) : Course :=
  ⟨c.jumping, c.inJumpdelay, c.pc, c.nextpc, c.hiwait, c.lowait⟩

namespace Course

/-- No branch has been taken, and the cpu is at an address. -/
def at_ (s : Course) (pc : Word) : Course :=
  { s with jumping := false, inJumpdelay := false, pc := pc, nextpc := pc + 4 }

/-- The addresses follow each other, unless a branch has been taken. -/
def Level (s : Course) : Prop := s.jumping = false → s.nextpc = s.pc + 4

/-- What holds of a cpu between two turns. -/
structure Rested (s : Course) : Prop where
  level : s.Level
  inJumpdelay : s.inJumpdelay = false
  hiwait : s.hiwait ≤ 1
  lowait : s.lowait ≤ 1
  slot : s.jumping = true → s.hiwait = 0 ∧ s.lowait = 0

/-- `K` is kept where a cpu is put at an address. -/
structure Kept (K : Course → Prop) : Prop where
  at_ : ∀ s pc, K s → K (s.at_ pc)
  enter : ∀ s pc, K s → K { s with pc := pc, nextpc := pc + 4 }

theorem kept_level : Kept Level where
  at_ _ _ _ _ := rfl
  enter _ _ _ _ := rfl

theorem kept_rested : Kept Rested where
  at_ _ _ h := ⟨fun _ => rfl, rfl, h.hiwait, h.lowait, fun hJumping => Bool.noConfusion hJumping⟩
  enter _ _ h := ⟨fun _ => rfl, h.inJumpdelay, h.hiwait, h.lowait, h.slot⟩

end Course

theorem course_translated (c : Mipscpu) (vaddr : Word) (iswrite : Bool) :
    (c.translated vaddr iswrite).course = c.course := by
  obtain h | h := translated_eq c vaddr iswrite <;> rw [h]
  rfl

/-- What is asked of the course of each cpu. -/
def AllIn (K : Nat → Course → Prop) (m : Machine δ) : Prop := ∀ j, K j (m.mycpus j).course

/-- An exception that is posted keeps it. -/
def PostsIn (K : Nat → Course → Prop) (e : Stop) (m : Machine δ) : Prop := e = .exception → AllIn K m

section AllIn

variable {K : Nat → Course → Prop}

theorem AllIn.modCpu {m : Machine δ} (hm : AllIn K m) {f : Mipscpu → Mipscpu}
    (hf : K i (m.mycpus i).course → K i (f (m.mycpus i)).course) : AllIn K (m.modCpu i f) :=
  forall_modCpu (P := fun j c => K j c.course) i hm (hf (hm i))

theorem AllIn.same {m : Machine δ} (hm : AllIn K m) {f : Mipscpu → Mipscpu}
    (hf : ∀ c, (f c).course = c.course) : AllIn K (m.modCpu i f) :=
  hm.modCpu i fun h => by rwa [hf]

variable (hK : ∀ j, Course.Kept (K j))

include hK

theorem AllIn.exception {m : Machine δ} (hm : AllIn K m) (e : Exn) :
    AllIn K (m.modCpu i fun c => c.exception b e) :=
  hm.modCpu i fun h => (hK i).at_ _ _ h

theorem keeps_raise_in {α : Type} (e : Exn) :
    Keeps (AllIn K) (Posted (AllIn K)) (raise b i e : M δ α) :=
  fun _ hm => ⟨rfl, hm.exception i hK e⟩

theorem translatemem_in (vaddr : Word) (iswrite : Bool) :
    Keeps (AllIn K) (Posted (AllIn K)) (translatemem b i vaddr iswrite) := by
  intro m hm
  have hLooked : AllIn K (m.modCpu i fun c => c.translated vaddr iswrite) :=
    hm.same i fun c => course_translated c vaddr iswrite
  rw [after_translatemem]
  split
  · exact hLooked
  · rename_i e _
    have hRaised := hLooked.exception (b := b) i hK e
    refine ⟨rfl, ?_⟩
    simpa [Machine.modCpu] using hRaised

theorem precomputePc_in : Keeps (AllIn K) (Posted (AllIn K)) (precomputePc b i) := by
  refine keeps_getCpu i fun c => Keeps.bind (translatemem_in i hK _ _) fun _ => ?_
  refine Keeps.bind (fun m hm => hm.same i fun _ => rfl) fun _ => ?_
  exact Keeps.ite (fun _ => keeps_raise_in i hK _) fun _ m hm => hm.same i fun _ => rfl

theorem precomputeNextpc_in : Keeps (AllIn K) (Posted (AllIn K)) (precomputeNextpc b i) := by
  refine keeps_getCpu i fun c => Keeps.bind (translatemem_in i hK _ _) fun _ => ?_
  refine Keeps.bind (fun m hm => hm.same i fun _ => rfl) fun _ => ?_
  exact Keeps.ite (fun _ => keeps_raise_in i hK _) fun _ m hm => hm.same i fun _ => rfl

theorem precomputeBoth_in {E : Stop → Machine δ → Prop} :
    Keeps (AllIn K) E (precomputeBoth b i) :=
  Keeps.bind (keeps_attempt_posted (precomputePc_in i hK)) fun _ =>
    Keeps.bind (keeps_attempt_posted (precomputeNextpc_in i hK)) fun _ => Keeps.pure _

theorem phonyException_in : Keeps (AllIn K) (PostsIn K) (phonyException b i) := by
  have hThrow : ∀ msg, Keeps (AllIn K) (PostsIn K) (throw (.smoke msg) : M δ Unit) := fun _ =>
    Keeps.throw fun _ _ => nofun
  refine Keeps.bind (fun m hm => hm.modCpu i fun h => (hK i).at_ _ _ h) fun _ => ?_
  refine Keeps.bind (keeps_attempt_posted (precomputePc_in i hK)) fun _ =>
    Keeps.ite (fun _ => ?_) fun _ => hThrow _
  exact Keeps.bind (keeps_attempt_posted (precomputeNextpc_in i hK)) fun _ =>
    Keeps.ite (fun _ => Keeps.pure _) fun _ => hThrow _

omit hK in
theorem hangUnless_in {x : M δ Unit} {E : Stop → Machine δ → Prop}
    (hx : Keeps (AllIn K) (Posted (AllIn K)) x) : Keeps (AllIn K) E (hangUnless x) :=
  Keeps.bind (keeps_attempt_posted hx) fun _ =>
    Keeps.ite (fun _ => Keeps.pure _) fun _ _ hm => hm

theorem cpuSetEntrypoint_in {E : Stop → Machine δ → Prop} (addr : Word) :
    Keeps (AllIn K) E (cpuSetEntrypoint b i addr) := by
  have hRest : Keeps (AllIn K) E (do
      let addr := addr &&& 0xfffffffc
      modCpu i fun c =>
        { c with r := Function.update c.r 25 addr, expc := addr, pc := addr, nextpc := addr + 4 }
      hangUnless (precomputePc b i)
      hangUnless (precomputeNextpc b i)) :=
    Keeps.bind (fun m hm => hm.modCpu i fun h => (hK i).enter _ _ h) fun _ =>
      Keeps.bind (hangUnless_in (precomputePc_in i hK)) fun _ =>
        hangUnless_in (precomputeNextpc_in i hK)
  exact Keeps.ite (fun _ => Keeps.bind (fun _ hm => hm) fun _ => hRest) fun _ => hRest

theorem ioKeeps_in {E : Stop → Machine δ → Prop} (hE : ∀ e m, e ≠ .exception → E e m) :
    IoKeeps b (AllIn K) E where
  toBusKeeps := busKeeps_mycpus b (g := Mipscpu.course) (fun _ _ _ => rfl)
    (fun _ m _ => hE _ m nofun) fun m _ => hE _ m (by decide)
  setCpue val := by
    refine Keeps.forM fun j _ => Keeps.bind Keeps.get fun m => Keeps.ite (fun _ => ?_) fun _ =>
      Keeps.ite (fun _ => ?_) fun _ => Keeps.pure _
    · refine Keeps.bind (fun _ hm => hm) fun _ => ?_
      exact Keeps.bind (fun _ hm => hm.same j fun _ => rfl) fun _ _ hm => hm
    · refine Keeps.bind (cpuSetEntrypoint_in j hK _) fun _ => ?_
      refine Keeps.bind (fun _ hm => hm.same j fun _ => rfl) fun _ => ?_
      exact Keeps.bind (fun _ hm => hm.same j fun _ => rfl) fun _ _ hm => hm

end AllIn

/-! ## An instruction -/

/-- What holds while cpu `i` executes an instruction. -/
def Course.Executing (i j : Nat) (s : Course) : Prop := (j = i → s.Level) ∧ (j ≠ i → s.Rested)

theorem kept_executing (j : Nat) : Course.Kept (Course.Executing i j) where
  at_ s pc h := ⟨fun hj => Course.kept_level.at_ s pc (h.1 hj),
    fun hj => Course.kept_rested.at_ s pc (h.2 hj)⟩
  enter s pc h := ⟨fun hj => Course.kept_level.enter s pc (h.1 hj),
    fun hj => Course.kept_rested.enter s pc (h.2 hj)⟩

theorem AllIn.level {m : Machine δ} (hm : AllIn (Course.Executing i) m) {f : Mipscpu → Mipscpu}
    (hf : (m.mycpus i).course.Level → (f (m.mycpus i)).course.Level) :
    AllIn (Course.Executing i) (m.modCpu i f) :=
  hm.modCpu i fun h => ⟨fun _ => hf (h.1 rfl), fun hne => absurd rfl hne⟩

theorem posted_in {α : Type} {K : Nat → Course → Prop} {x : M δ α}
    (hx : Keeps (AllIn K) (Posted (AllIn K)) x) : Keeps (AllIn K) (PostsIn K) x :=
  hx.error fun _ _ h _ => h.2

theorem abranch_in (addr : Word) :
    Keeps (AllIn (Course.Executing i)) (PostsIn (Course.Executing i)) (abranch b i addr) := by
  have hK := kept_executing i
  refine Keeps.ite (fun _ => posted_in (keeps_raise_in i hK _)) fun _ => ?_
  refine Keeps.bind (fun m hm => hm.level i fun _ hJumping => Bool.noConfusion hJumping) fun _ => ?_
  refine keeps_getCpu i fun c => ?_
  cases c.pcpage with
  | none => exact fun _ _ => nofun
  | some page =>
    refine Keeps.bind (fun _ hm => hm) fun insn => Keeps.ite (fun _ m hm => ?_) fun _ =>
      posted_in (precomputeNextpc_in i hK)
    exact hm.same i fun _ => rfl

theorem rules_in (insn : Word) :
    Rules b i insn (AllIn (Course.Executing i)) (PostsIn (Course.Executing i)) where
  smoke _ _ _ := nofun
  undefined _ _ := nofun
  raise e _ hm _ := hm.exception i (kept_executing i) e
  reg _ _ _ _ hm := hm.same i fun _ => rfl
  hilo _ _ _ _ _ hm := hm.level i fun h => h
  phonyException := phonyException_in i (kept_executing i)
  abranch := abranch_in i
  translatemem vaddr iswrite := posted_in (translatemem_in i (kept_executing i) vaddr iswrite)
  domemFetch vaddr willbewrite :=
    (ioKeeps_in (kept_executing i) fun _ _ hne he => absurd he hne).domemFetch i
      (posted_in (translatemem_in i (kept_executing i) vaddr willbewrite))
      fun e => posted_in (keeps_raise_in i (kept_executing i) e)
  domemStore _ vaddr val :=
    (ioKeeps_in (kept_executing i) fun _ _ hne he => absurd he hne).domemStore i
      (posted_in (translatemem_in i (kept_executing i) vaddr true))
      (fun e => posted_in (keeps_raise_in i (kept_executing i) e)) fun _ _ hm => hm
  ll _ _ _ _ hm := hm.same i fun _ => rfl
  hang _ _ _ _ hm := hm
  mtc0 c0 _ _ _ hm := hm.same i fun c => by cases c0 <;> rfl
  reduceRandom _ _ hm := hm.same i fun _ => rfl
  probetlb m _ hm := by
    unfold probetlb
    rw [after_bind, after_getCpu]
    split
    · exact hm.same i fun _ => rfl
    · exact hm.same i fun _ => rfl
  tlbr _ _ _ _ hm := hm.same i fun _ => rfl
  writetlb ix m _ _ _ hm := by
    unfold writetlb
    split
    · rw [after_bind, after_modCpu, after_bind]
      refine (after_checkTlbDups i _ _).mono ?_ fun _ _ h => h.elim
      rintro _ m' ⟨hCpus, -, -⟩
      refine precomputeBoth_in i (kept_executing i) m' fun j => ?_
      rw [hCpus]
      refine hm.same i ?_ j
      exact fun _ => rfl
    · exact nofun
  doWait m _ hm := by
    unfold doWait
    rw [after_bind, after_getCpu]
    split
    · exact hm.same i (f := fun c => { c with state := .idle }) fun _ => rfl
    · exact hm
  doRfe m _ _ hUser hm := by
    unfold doRfe
    rw [after_bind, after_getCpu, if_neg (by simp [hUser]), after_bind, after_modCpu]
    exact precomputeBoth_in i (kept_executing i) _ (hm.level i fun h => h)

/-- What holds of the cpu that is about to execute an instruction. -/
structure Course.Primed (s : Course) : Prop where
  jumping : s.jumping = false
  level : s.Level
  hiwait : s.hiwait ≤ 1
  lowait : s.lowait ≤ 1

/-- The counters after it: at two only for the multiply unit, none of whose instructions is a
branch. -/
structure Course.Counted (s : Course) : Prop where
  hiwait : s.hiwait ≤ 2
  lowait : s.lowait ≤ 2
  branch : s.jumping = true → s.hiwait ≤ 1 ∧ s.lowait ≤ 1

theorem Course.Primed.counted {c c' : Mipscpu} (h : c.course.Primed) (hWaits : c'.waits = c.waits) :
    c'.course.Counted := by
  obtain ⟨hHi, hLo⟩ := Prod.mk.inj hWaits
  have hHiwait : c'.hiwait ≤ 1 := hHi.trans_le h.hiwait
  have hLowait : c'.lowait ≤ 1 := hLo.trans_le h.lowait
  exact ⟨hHiwait.trans (by decide), hLowait.trans (by decide), fun _ => ⟨hHiwait, hLowait⟩⟩

theorem execute_counted (insn : Word) (t : Machine δ) (hPrimed : (t.mycpus i).course.Primed) :
    After (execute b i insn) (fun _ m => (m.mycpus i).course.Counted)
      (fun e m => e = .exception → (m.mycpus i).course.Counted) t := by
  by_cases hUnit : UsesUnit insn
  · cases hStalls : stalls insn (t.mycpus i) with
    | true =>
      rw [after_execute_stall i hStalls]
      have ht : Akin i (t.mycpus i).waits (t.mycpus i).waits t t := ⟨rfl, rfl, rfl⟩
      refine (blind_phonyException i t t ht).mono ?_ ?_
      · rintro _ m ⟨p, -, h⟩
        exact hPrimed.counted h.waits
      · rintro e m ⟨p, -, h⟩ -
        exact hPrimed.counted h.waits
    | false =>
      obtain ⟨f, hf, traps, hRun⟩ := runsUnit_of_usesUnit (b := b) i hUnit
      obtain ⟨-, hRun⟩ | ⟨-, hRun⟩ := hRun t hStalls
      · rw [after_error_iff hRun]
        exact nofun
      · rw [after_ok_iff hRun, Machine.modCpu_mycpus_self]
        have hJumping : (f (t.mycpus i)).jumping = (t.mycpus i).jumping :=
          congrArg FetchState.jumping (hf.fetchState _)
        refine ⟨hf.hiwait _ (hPrimed.hiwait.trans (by decide)),
          hf.lowait _ (hPrimed.lowait.trans (by decide)), fun hBranch => ?_⟩
        have hTaken : (f (t.mycpus i)).jumping = true := hBranch
        rw [hJumping] at hTaken
        exact absurd (hTaken.symm.trans hPrimed.jumping) (by decide)
  · exact (execute_waits i hUnit t).mono (fun _ _ h => hPrimed.counted h)
      fun _ _ h _ => hPrimed.counted h

/-- At the end of the cycle the counters come down. -/
theorem rested_tick {c : Mipscpu} (hLevel : c.course.Level) (hCounted : c.course.Counted) :
    c.tick.course.Rested where
  level := hLevel
  inJumpdelay := rfl
  hiwait := Nat.sub_le_of_le_add hCounted.hiwait
  lowait := Nat.sub_le_of_le_add hCounted.lowait
  slot hJumping := by
    obtain ⟨hHi, hLo⟩ := hCounted.branch hJumping
    exact ⟨Nat.sub_eq_zero_of_le hHi, Nat.sub_eq_zero_of_le hLo⟩

/-! ## A turn -/

def AllRested (m : Machine δ) : Prop := ∀ j, (m.mycpus j).course.Rested

theorem complete_rested {insn : Word} {t : Machine δ}
    (hOthers : ∀ j, j ≠ i → (t.mycpus j).course.Rested) (hPrimed : (t.mycpus i).course.Primed) :
    After (complete b i insn) (fun _ => AllRested) (fun _ _ => True) t := by
  have ht : AllIn (Course.Executing i) t := fun j => ⟨fun hj => hj ▸ hPrimed.level, hOthers j⟩
  have hExec := ((rules_in (b := b) i insn).execute t ht).and (execute_counted i insn t hPrimed)
  have hEnd : ∀ retirePc retireUsermode (m : Machine δ), AllIn (Course.Executing i) m →
      (m.mycpus i).course.Counted → After (do
        modCpu i Mipscpu.tick
        retire i retirePc retireUsermode) (fun _ => AllRested) (fun _ _ => True) m := by
    intro retirePc retireUsermode m hm hCounted
    have hTicked : AllRested (m.modCpu i Mipscpu.tick) := by
      intro j
      by_cases hj : j = i
      · subst hj
        rw [Machine.modCpu_mycpus_self]
        exact rested_tick ((hm j).1 rfl) hCounted
      · rw [Machine.modCpu_mycpus_ne m _ hj]
        exact (hm j).2 hj
    rw [after_bind, after_modCpu]
    unfold retire
    rw [after_bind, after_getCpu]
    split
    · exact hTicked
    · exact hTicked
  unfold complete
  rw [after_bind, after_getCpu, after_bind, after_attempt]
  refine hExec.mono (fun _ m h => hEnd _ _ m h.1 h.2) fun e m h => ?_
  cases e with
  | exception => exact hEnd _ _ m (h.1 rfl) (h.2 rfl)
  | smoke | undefined => trivial

/-- The cpu at an address, with the pages of the next two instructions. -/
def Mipscpu.atPages (c : Mipscpu) (pc : Word) (page : Page) (off : Word) (page' : Page)
    (off' : Word) : Mipscpu :=
  { c with toFetchState := ⟨false, false, pc, pc, pc + 4, off, off', some page, some page'⟩ }

theorem untimed_rewoundTo (c : Mipscpu) (page : Page) (off : Word) (page' : Page) (off' : Word) :
    (c.rewoundTo page off page' off').untimed = (c.atPages c.expc page off page' off').untimed := by
  have hFirst := untimed_translated c.rewound c.expc false
  have hSecond := untimed_translated ((c.rewound.translated c.expc false).setPcpage page off)
    (c.expc + 4) false
  calc (c.rewoundTo page off page' off').untimed
      = ((((c.rewound.translated c.expc false).setPcpage page off).translated
          (c.expc + 4) false).untimed.setNextpcpage page' off') := rfl
    _ = ((c.rewound.translated c.expc false).untimed.setPcpage page off).setNextpcpage
          page' off' := by
        rw [hSecond]
        rfl
    _ = (c.atPages c.expc page off page' off').untimed := by
        rw [hFirst]
        rfl

theorem waits_rewoundTo (c : Mipscpu) (page : Page) (off : Word) (page' : Page) (off' : Word) :
    (c.rewoundTo page off page' off').waits = c.waits := by
  have hFirst := waits_translated c.rewound c.expc false
  have hSecond := waits_translated ((c.rewound.translated c.expc false).setPcpage page off)
    (c.expc + 4) false
  exact hSecond.trans hFirst

theorem rested_rewoundTo {c : Mipscpu} (hHi : c.hiwait ≤ 1) (hLo : c.lowait ≤ 1) (page : Page)
    (off : Word) (page' : Page) (off' : Word) :
    (c.rewoundTo page off page' off').course.Rested := by
  have hUntimed := congrArg Mipscpu.toFetchState (untimed_rewoundTo c page off page' off')
  have hFetch : (c.rewoundTo page off page' off').toFetchState =
      (c.atPages c.expc page off page' off').toFetchState := hUntimed
  obtain ⟨hHiwait, hLowait⟩ := Prod.mk.inj (waits_rewoundTo c page off page' off')
  have hJumping : (c.rewoundTo page off page' off').jumping = false :=
    congrArg FetchState.jumping hFetch
  refine ⟨fun _ => ?_, congrArg FetchState.inJumpdelay hFetch, ?_, ?_, fun hTaken => ?_⟩
  · have hPc : (c.rewoundTo page off page' off').pc = c.expc := congrArg FetchState.pc hFetch
    have hNextpc : (c.rewoundTo page off page' off').nextpc = c.expc + 4 :=
      congrArg FetchState.nextpc hFetch
    exact hNextpc.trans (by rw [← hPc]; rfl)
  · exact hHiwait.trans_le hHi
  · exact hLowait.trans_le hLo
  · exact absurd (hJumping.symm.trans hTaken) (by decide)

theorem phonyException_rested (m : Machine δ) (hHi : (m.mycpus i).hiwait ≤ 1)
    (hLo : (m.mycpus i).lowait ≤ 1) : After (phonyException b i)
      (fun _ m' => ∃ c, m' = m.setCpu i c ∧ c.course.Rested) (fun _ _ => True) m := by
  rw [after_phonyException]
  dsimp only
  split
  · trivial
  · split
    · trivial
    · exact ⟨_, rfl, rested_rewoundTo hHi hLo _ _ _ _⟩

theorem rested_exception {c : Mipscpu} (hHi : c.hiwait ≤ 1) (hLo : c.lowait ≤ 1) (e : Exn) :
    (c.exception b e).course.Rested :=
  ⟨fun _ => rfl, rfl, hHi, hLo, fun hTaken => Bool.noConfusion hTaken⟩

theorem advancePc_course (insn : Word) (m : Machine δ) :
    After (advancePc b i insn)
      (fun _ m' => ∃ c, m' = m.setCpu i c ∧ c.course = (m.mycpus i).advance.course)
      (fun e m' => e = .exception ∧ ∃ (c : Mipscpu) (e : Exn),
        c.waits = (m.mycpus i).waits ∧ m' = m.setCpu i (c.exception b e)) m := by
  unfold advancePc
  rw [after_bind, after_modCpu, after_bind, after_getCpu, Machine.modCpu,
    Machine.setCpu_mycpus_self]
  split
  · split
    · rw [after_modCpu, Machine.modCpu, Machine.setCpu_setCpu, Machine.setCpu_mycpus_self]
      exact ⟨_, rfl, rfl⟩
    · rw [after_precomputeNextpc]
      dsimp only
      rw [Machine.setCpu_mycpus_self]
      split
      · refine ⟨_, Machine.setCpu_setCpu m i _ _, ?_⟩
        exact course_translated (m.mycpus i).advance (m.mycpus i).advance.nextpc false
      · refine ⟨rfl, _, _, ?_, Machine.setCpu_setCpu m i _ _⟩
        exact waits_translated (m.mycpus i).advance (m.mycpus i).advance.nextpc false
  · rw [after_modCpu, Machine.modCpu, Machine.setCpu_setCpu, Machine.setCpu_mycpus_self]
    exact ⟨_, rfl, rfl⟩

/-- How a turn leaves the cpu before an instruction is executed. -/
def IssueRested (m : Machine δ) (is : Issue) (m' : Machine δ) : Prop :=
  Elsewhere i m m' ∧ match is with
    | .insn _ => (m'.mycpus i).course.Primed
    | _ => (m'.mycpus i).course.Rested

theorem fetch_rested (m : Machine δ) (hJumping : (m.mycpus i).jumping = false)
    (hHi : (m.mycpus i).hiwait ≤ 1) (hLo : (m.mycpus i).lowait ≤ 1) :
    After (fetch b i) (IssueRested i m) (fun _ _ => True) m := by
  unfold fetch
  rw [after_bind, after_getCpu, after_bind]
  cases (m.mycpus i).pcpage with
  | none => trivial
  | some page =>
    rw [after_useMap_some, after_bind, after_attempt]
    refine (advancePc_course i _ m).mono ?_ ?_
    · rintro _ m' ⟨c, rfl, hCourse⟩
      have hPrimed : c.course.Primed := by
        rw [hCourse]
        exact ⟨hJumping, fun _ => rfl, hHi, hLo⟩
      rw [if_pos rfl, after_bind, after_modCpu, after_bind, after_get, after_bind, after_getCpu,
        Machine.modCpu, Machine.setCpu_setCpu, Machine.setCpu_mycpus_self, after_ite]
      split
      · unfold breakpoint
        rw [after_bind, after_bind]
        refine (phonyException_rested i _ ?_ ?_).mono ?_ fun _ _ _ => trivial
        · rw [Machine.setCpu_mycpus_self]
          exact hPrimed.hiwait
        · rw [Machine.setCpu_mycpus_self]
          exact hPrimed.lowait
        · rintro _ m' ⟨c', rfl, hRested⟩
          rw [Machine.setCpu_setCpu]
          constructor
          · intro j hj
            exact (Machine.modCpu_mycpus_ne _ _ hj).trans (Machine.setCpu_mycpus_ne m c' hj)
          · have hSelf := Machine.modCpu_mycpus_self (m.setCpu i c') i fun c =>
              { c with exCount := c.exCount - 1, hitBreakpoint := true }
            rw [Machine.setCpu_mycpus_self] at hSelf
            exact (congrArg (fun c : Mipscpu => c.course.Rested) hSelf).mpr hRested
      · refine ⟨elsewhere_setCpu i m _, ?_⟩
        dsimp only
        rw [Machine.setCpu_mycpus_self]
        exact hPrimed
    · rintro _ m' ⟨rfl, c, e, hWaits, rfl⟩
      obtain ⟨hHiwait, hLowait⟩ := Prod.mk.inj hWaits
      refine ⟨elsewhere_setCpu i m _, ?_⟩
      dsimp only
      rw [Machine.setCpu_mycpus_self]
      exact rested_exception (hHiwait.trans_le hHi) (hLowait.trans_le hLo) e

theorem startCycle_counters (c : Mipscpu) : (c.startCycle b).jumping = false ∧
    (c.startCycle b).waits = c.waits := by
  unfold Mipscpu.startCycle Mipscpu.updateExpc
  dsimp only
  cases c.jumping with
  | true =>
    rw [if_pos rfl]
    split
    · exact ⟨rfl, rfl⟩
    · exact ⟨rfl, rfl⟩
  | false =>
    rw [if_neg Bool.false_ne_true]
    split
    · exact ⟨rfl, rfl⟩
    · exact ⟨rfl, rfl⟩

theorem issue_rested (m : Machine δ) (hm : (m.mycpus i).course.Rested) :
    After (issue b i) (IssueRested i m) (fun _ _ => True) m := by
  unfold issue
  rw [after_bind, after_getCpu, after_ite]
  split
  · exact ⟨fun _ _ => rfl, hm⟩
  · obtain ⟨hJumping, hWaits⟩ := startCycle_counters (b := b) (m.mycpus i)
    obtain ⟨hHi, hLo⟩ := Prod.mk.inj hWaits
    rw [after_bind, after_modCpu, after_bind]
    have hSelf := Machine.modCpu_mycpus_self m i fun c => c.startCycle b
    refine (fetch_rested (b := b) i ((m.modCpu i fun c => c.startCycle b).countStats i
      (PercpuStats.cycle ((m.modCpu i fun c => c.startCycle b).mycpus i).currentUsermode))
      ?_ ?_ ?_).mono ?_ fun _ _ _ => trivial
    · show ((m.modCpu i fun c => c.startCycle b).mycpus i).jumping = false
      rw [hSelf]
      exact hJumping
    · show ((m.modCpu i fun c => c.startCycle b).mycpus i).hiwait ≤ 1
      rw [hSelf]
      exact hHi.trans_le hm.hiwait
    · show ((m.modCpu i fun c => c.startCycle b).mycpus i).lowait ≤ 1
      rw [hSelf]
      exact hLo.trans_le hm.lowait
    · rintro is m' ⟨hElsewhere, hIs⟩
      exact ⟨(elsewhere_setCpu i m _).trans i hElsewhere, hIs⟩

theorem AllRested.elsewhere {m m' : Machine δ} (hm : AllRested m) (h : Elsewhere i m m')
    (hi : (m'.mycpus i).course.Rested) : AllRested m' := by
  intro j
  by_cases hj : j = i
  · subst hj
    exact hi
  · rw [h j hj]
    exact hm j

theorem cpuTurn_rested (m : Machine δ) (hm : AllRested m) :
    After (cpuTurn b i) (fun _ => AllRested) (fun _ _ => True) m := by
  unfold cpuTurn
  rw [after_bind]
  refine (issue_rested i m (hm i)).mono ?_ fun _ _ _ => trivial
  rintro (_ | _ | _ | insn) t ⟨hElsewhere, hIs⟩
  · exact hm.elsewhere i hElsewhere hIs
  · exact hm.elsewhere i hElsewhere hIs
  · exact hm.elsewhere i hElsewhere hIs
  · rw [after_bind]
    refine complete_rested i (fun j hj => ?_) hIs
    rw [hElsewhere j hj]
    exact hm j

/-! ## Runs -/

theorem step_rested {m m' : Machine δ} {a : Act δ} (hm : AllRested m) (hStep : Step b m a m') :
    AllRested m' := by
  have hK : ∀ _ : Nat, Course.Kept Course.Rested := fun _ => Course.kept_rested
  have hIo := ioKeeps_in (δ := δ) (b := b) (K := fun _ => Course.Rested) hK
    (E := fun _ _ => True) fun _ _ _ => trivial
  cases a with
  | turn i =>
    refine step_after hStep (E := fun _ _ => True) ?_
    simp only [Act.exec, after_bind, after_pure]
    exact cpuTurn_rested i m hm
  | raiseIrq slot =>
    exact step_after hStep (E := fun _ _ => True) (hIo.deviceIrq slot true m hStep.1 hm)
  | lowerIrq slot =>
    exact step_after hStep (E := fun _ _ => True) (hIo.deviceIrq slot false m hStep.1 hm)
  | devices d => exact step_after hStep (E := fun _ _ => True) hm
  | setIrqs i lamebus ipi =>
    refine step_after hStep (E := fun _ _ => True) fun j => ?_
    rw [cpuSetIrqs_mycpus (g := Mipscpu.course) fun _ _ _ => rfl]
    exact hm j
  | setEntrypoint i addr =>
    exact step_after hStep
      (cpuSetEntrypoint_in i (K := fun _ => Course.Rested) hK (E := fun _ _ => True) addr m hm)
  | setStack i stackaddr argument =>
    exact step_after hStep (E := fun _ _ => True)
      (AllIn.same (K := fun _ => Course.Rested) i hm (f := fun c =>
        { c with r := Function.update (Function.update c.r 29 stackaddr) 4 argument }) fun _ => rfl)
  | poke index val => exact step_after hStep (E := fun _ _ => True) hm
  | debugger cycling stopped lethal gdbReady => exact step_after hStep (E := fun _ _ => True) hm

theorem allRested_machineInit (devices : δ) (gdbReady : Bool) :
    AllRested (machineInit devices gdbReady) := fun _ =>
  ⟨fun _ => rfl, rfl, Nat.zero_le 1, Nat.zero_le 1, fun _ => ⟨rfl, rfl⟩⟩

/-- For every interleaving: an instruction stalls only where a counter is at one, which it is not
where the instruction is in a delay slot. -/
theorem rested_of_run {devices : δ} {gdbReady : Bool} {p : List (Act δ × Machine δ)}
    {m : Machine δ} (hRun : Path (Step b) (machineInit devices gdbReady) p m) : AllRested m :=
  hRun.invariant (fun _ _ _ hm hStep => step_rested hm hStep)
    (allRested_machineInit devices gdbReady)

end Sys161.Mips
