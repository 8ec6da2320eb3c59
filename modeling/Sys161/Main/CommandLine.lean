import Mathlib
import Sys161.Lib.Attempt
import Sys161.Main.Options

/-!
# What command lines there are

A word of options has some without an argument and then at most one with, whose
argument is in the same word or is the next one. `main` accepts what is made of
such words, the kernel, and anything behind it.
-/

namespace Sys161.Main

open CString Disk161

set_option autoImplicit false

/-- An option with the argument it takes. -/
structure Given where
  opt : BitVec 8
  arg : Option Arg

inductive Last where
  | attached (opt : BitVec 8) (arg : Arg)
  | separate (opt : BitVec 8) (arg : Arg)

structure Cluster where
  flags : List (BitVec 8)
  last : Option Last

def Last.inWord : Last → Arg
  | .attached opt arg => opt :: arg
  | .separate opt _ => [opt]

def Last.behind : Last → List Arg
  | .attached _ _ => []
  | .separate _ arg => [arg]

def Last.given : Last → Given
  | .attached opt arg => ⟨opt, some arg⟩
  | .separate opt arg => ⟨opt, some arg⟩

def Last.Valid (myopts : Arg) : Last → Prop
  | .attached opt arg => optKind myopts opt = .valued ∧ arg ≠ []
  | .separate opt _ => optKind myopts opt = .valued

namespace Cluster

/-- The word without its dash. -/
def inWord (c : Cluster) : Arg := c.flags ++ (c.last.map Last.inWord).getD []

def behind (c : Cluster) : List Arg := (c.last.map Last.behind).getD []

def render (c : Cluster) : List Arg := (ch '-' :: c.inWord) :: c.behind

def given (c : Cluster) : List Given :=
  c.flags.map (fun f => ⟨f, none⟩) ++ (c.last.map Last.given).toList

structure Valid (myopts : Arg) (c : Cluster) : Prop where
  flags : ∀ f ∈ c.flags, optKind myopts f = .flag
  last : ∀ l ∈ c.last, l.Valid myopts

/-- A dash alone is passed over. -/
def bare : Cluster where
  flags := []
  last := none

theorem valid_bare (myopts : Arg) : bare.Valid myopts where
  flags _ hf := absurd hf List.not_mem_nil
  last _ hl := by cases hl

theorem eq_bare_of_inWord {c : Cluster} (h : c.inWord = []) : c = bare := by
  obtain ⟨flags, last⟩ := c
  obtain ⟨hFlags, hLast⟩ := List.append_eq_nil_iff.mp h
  cases last with
  | none =>
    change flags = [] at hFlags
    rw [hFlags]
    rfl
  | some l => cases l <;> cases hLast

end Cluster

/-- An operand, or no argument at all. -/
def Ends (args : List Arg) : Prop := ∀ a ∈ args.head?, a.head? ≠ some (ch '-')

instance (args : List Arg) : Decidable (Ends args) :=
  inferInstanceAs (Decidable (∀ a ∈ args.head?, _))

/-! ## Reading from the front -/

def addGiven (o : Given) (r : List Given × List Arg) : List Given × List Arg := (o :: r.1, r.2)

/-- The options in what is left of a word and in the arguments behind it, and the operands. -/
def readArgs (myopts : Arg) : Arg → List Arg → Option (List Given × List Arg)
  | [], [] => some ([], [])
  | [], a :: rest =>
    if a.head? = some (ch '-') then readArgs myopts a.tail rest else some ([], a :: rest)
  | c :: cur, rest =>
    match optKind myopts c with
    | .unknown => none
    | .flag => (readArgs myopts cur rest).map (addGiven ⟨c, none⟩)
    | .valued =>
      if cur = [] then
        match rest with
        | [] => none
        | v :: rest => (readArgs myopts [] rest).map (addGiven ⟨c, some v⟩)
      else (readArgs myopts [] rest).map (addGiven ⟨c, some cur⟩)
termination_by cur rest => cur.length + (rest.map fun a => a.length + 1).sum
decreasing_by
  all_goals simp only [List.length_nil, List.length_cons, List.length_tail, List.map_cons,
    List.sum_cons]
  all_goals omega

section Grammar

variable {myopts : Arg}

theorem readArgs_operands {ops : List Arg} (hEnds : Ends ops) :
    readArgs myopts [] ops = some ([], ops) := by
  cases ops with
  | nil => rw [readArgs]
  | cons a rest => rw [readArgs, if_neg (hEnds a rfl)]

theorem readArgs_dash (cur : Arg) (rest : List Arg) :
    readArgs myopts [] ((ch '-' :: cur) :: rest) = readArgs myopts cur rest := by
  rw [readArgs, if_pos List.head?_cons, List.tail_cons]

theorem readArgs_unknown {c : BitVec 8} (hKind : optKind myopts c = .unknown) (cur : Arg)
    (rest : List Arg) : readArgs myopts (c :: cur) rest = none := by
  rw [readArgs.eq_def]
  dsimp only
  rw [hKind]

theorem readArgs_flag {c : BitVec 8} (hKind : optKind myopts c = .flag) (cur : Arg)
    (rest : List Arg) :
    readArgs myopts (c :: cur) rest = (readArgs myopts cur rest).map (addGiven ⟨c, none⟩) := by
  rw [readArgs.eq_def]
  dsimp only
  rw [hKind]

theorem readArgs_attached {c : BitVec 8} (hKind : optKind myopts c = .valued) {cur : Arg}
    (hCur : cur ≠ []) (rest : List Arg) :
    readArgs myopts (c :: cur) rest =
      (readArgs myopts [] rest).map (addGiven ⟨c, some cur⟩) := by
  rw [readArgs.eq_def]
  dsimp only
  rw [hKind]
  exact if_neg hCur

theorem readArgs_separate {c : BitVec 8} (hKind : optKind myopts c = .valued) (v : Arg)
    (rest : List Arg) :
    readArgs myopts [c] (v :: rest) = (readArgs myopts [] rest).map (addGiven ⟨c, some v⟩) := by
  rw [readArgs.eq_def]
  dsimp only
  rw [hKind]
  exact if_pos rfl

theorem readArgs_missing {c : BitVec 8} (hKind : optKind myopts c = .valued) :
    readArgs myopts [c] [] = none := by
  rw [readArgs.eq_def]
  dsimp only
  rw [hKind]
  exact if_pos rfl

/-- What is printed of clusters is read as them. -/
theorem readArgs_cluster {c : Cluster} (hc : c.Valid myopts) {rest : List Arg}
    {r : List Given × List Arg} (hRest : readArgs myopts [] rest = some r) :
    readArgs myopts c.inWord (c.behind ++ rest) = some (c.given ++ r.1, r.2) := by
  obtain ⟨flags, last⟩ := c
  obtain ⟨hFlags, hLast⟩ := hc
  induction flags with
  | nil =>
    cases last with
    | none => exact hRest
    | some l =>
      have hl := hLast l rfl
      cases l with
      | attached opt arg =>
        change readArgs myopts (opt :: arg) rest = some (⟨opt, some arg⟩ :: r.1, r.2)
        rw [readArgs_attached hl.1 hl.2, hRest]
        rfl
      | separate opt arg =>
        change readArgs myopts [opt] (arg :: rest) = some (⟨opt, some arg⟩ :: r.1, r.2)
        rw [readArgs_separate hl, hRest]
        rfl
  | cons f flags ih =>
    have hTail := ih fun g hg => hFlags g (List.mem_cons_of_mem f hg)
    change readArgs myopts (f :: Cluster.inWord ⟨flags, last⟩) (Cluster.behind ⟨flags, last⟩ ++ rest)
      = some (⟨f, none⟩ :: (Cluster.given ⟨flags, last⟩ ++ r.1), r.2)
    rw [readArgs_flag (hFlags f List.mem_cons_self), hTail hLast]
    rfl

theorem readArgs_clusters {cs : List Cluster} (hcs : ∀ c ∈ cs, c.Valid myopts) {ops : List Arg}
    (hEnds : Ends ops) :
    readArgs myopts [] (cs.flatMap Cluster.render ++ ops) =
      some (cs.flatMap Cluster.given, ops) := by
  induction cs with
  | nil => exact readArgs_operands hEnds
  | cons c cs ih =>
    have hTail := ih fun d hd => hcs d (List.mem_cons_of_mem c hd)
    rw [List.flatMap_cons, List.append_assoc, Cluster.render, List.cons_append, readArgs_dash,
      readArgs_cluster (hcs c List.mem_cons_self) hTail, List.flatMap_cons]

/-- What is read has been printed of clusters. -/
theorem exists_clusters {cur : Arg} {args : List Arg} {r : List Given × List Arg}
    (h : readArgs myopts cur args = some r) :
    ∃ (c : Cluster) (cs : List Cluster), c.Valid myopts ∧ (∀ d ∈ cs, d.Valid myopts) ∧
      cur = c.inWord ∧
      args = c.behind ++ (cs.flatMap Cluster.render ++ r.2) ∧ Ends r.2 ∧
      r.1 = c.given ++ cs.flatMap Cluster.given := by
  induction cur, args using readArgs.induct myopts generalizing r with
  | case1 =>
    rw [readArgs] at h
    cases h
    refine ⟨.bare, [], Cluster.valid_bare _, fun d hd => absurd hd List.not_mem_nil, rfl, rfl, ?_, rfl⟩
    intro a ha
    cases ha
  | case2 a rest hDash ih =>
    rw [readArgs, if_pos hDash] at h
    obtain ⟨c, cs, hc, hcs, hWord, hArgs, hEnds, hGiven⟩ := ih h
    have ha : a = ch '-' :: c.inWord := by
      rw [← hWord]
      exact (List.cons_head?_tail hDash).symm
    refine ⟨.bare, c :: cs, Cluster.valid_bare _, ?_, rfl, ?_, hEnds, ?_⟩
    · intro d hd
      rcases List.mem_cons.mp hd with rfl | hd
      · exact hc
      · exact hcs d hd
    · rw [List.flatMap_cons, Cluster.render, ha, hArgs, List.append_assoc]
      rfl
    · rw [List.flatMap_cons, hGiven]
      rfl
  | case3 a rest hOperand =>
    rw [readArgs, if_neg hOperand] at h
    cases h
    refine ⟨.bare, [], Cluster.valid_bare _, fun d hd => absurd hd List.not_mem_nil, rfl, rfl, ?_, rfl⟩
    intro b hb
    cases hb
    exact hOperand
  | case4 c cur rest hKind =>
    rw [readArgs_unknown hKind] at h
    cases h
  | case5 c cur rest hKind ih =>
    rw [readArgs_flag hKind] at h
    obtain ⟨r', hRead, rfl⟩ := Option.map_eq_some_iff.mp h
    obtain ⟨d, cs, hd, hcs, hWord, hArgs, hEnds, hGiven⟩ := ih hRead
    refine ⟨{ d with flags := c :: d.flags }, cs, ⟨?_, hd.last⟩, hcs, ?_, hArgs, hEnds, ?_⟩
    · intro f hf
      rcases List.mem_cons.mp hf with rfl | hf
      · exact hKind
      · exact hd.flags f hf
    · rw [hWord]
      rfl
    · change ⟨c, none⟩ :: r'.1 = _
      rw [hGiven]
      rfl
  | case6 c hKind =>
    rw [readArgs_missing hKind] at h
    cases h
  | case7 c hKind v rest ih =>
    rw [readArgs_separate hKind] at h
    obtain ⟨r', hRead, rfl⟩ := Option.map_eq_some_iff.mp h
    obtain ⟨d, cs, hd, hcs, hWord, hArgs, hEnds, hGiven⟩ := ih hRead
    rw [Cluster.eq_bare_of_inWord hWord.symm] at hArgs hGiven
    refine ⟨⟨[], some (.separate c v)⟩, cs, ⟨by simp, ?_⟩, hcs, rfl, ?_, hEnds, ?_⟩
    · intro l hl
      cases hl
      exact hKind
    · rw [hArgs]
      rfl
    · change ⟨c, some v⟩ :: r'.1 = _
      rw [hGiven]
      rfl
  | case8 c cur rest hKind hCur ih =>
    rw [readArgs_attached hKind hCur] at h
    obtain ⟨r', hRead, rfl⟩ := Option.map_eq_some_iff.mp h
    obtain ⟨d, cs, hd, hcs, hWord, hArgs, hEnds, hGiven⟩ := ih hRead
    rw [Cluster.eq_bare_of_inWord hWord.symm] at hArgs hGiven
    refine ⟨⟨[], some (.attached c cur)⟩, cs, ⟨by simp, ?_⟩, hcs, rfl, ?_, hEnds, ?_⟩
    · intro l hl
      cases hl
      exact ⟨hKind, hCur⟩
    · rw [hArgs]
      rfl
    · change ⟨c, some cur⟩ :: r'.1 = _
      rw [hGiven]
      rfl

theorem readArgs_eq_some_iff {args : List Arg} {os : List Given} {ops : List Arg} :
    readArgs myopts [] args = some (os, ops) ↔
      ∃ cs : List Cluster, (∀ c ∈ cs, c.Valid myopts) ∧
        args = cs.flatMap Cluster.render ++ ops ∧ Ends ops ∧ os = cs.flatMap Cluster.given := by
  constructor
  · intro h
    obtain ⟨c, cs, _, hcs, hWord, hArgs, hEnds, hGiven⟩ := exists_clusters h
    rw [Cluster.eq_bare_of_inWord hWord.symm] at hArgs hGiven
    exact ⟨cs, hcs, hArgs, hEnds, hGiven⟩
  · rintro ⟨cs, hcs, rfl, hEnds, rfl⟩
    exact readArgs_clusters hcs hEnds

end Grammar

/-! ## The place of `mygetopt` -/

/-- The place is in a word of options or in front of an argument, with this still to be read. -/
inductive At (argv : List Arg) (g : Getopt) : Arg → List Arg → Prop where
  | inside {arg : Arg} {rest : List Arg} : g.myoptind ≠ 0 → g.myoptchr ≠ 0 →
      g.myoptchr ≤ arg.length → argv.drop g.myoptind = arg :: rest →
      At argv g (arg.drop g.myoptchr) rest
  | between : g.myoptind ≠ 0 → g.myoptchr = 0 → At argv g [] (argv.drop g.myoptind)

section Place

variable {argv : List Arg} {myopts : Arg} {g : Getopt} {arg : Arg} {rest : List Arg}

theorem getElem?_of_drop {i : Nat} (h : argv.drop i = arg :: rest) : argv[i]? = some arg := by
  rw [← List.head?_drop, h, List.head?_cons]

theorem drop_succ_of_drop {α : Type} {l rest : List α} {a : α} {i : Nat} (h : l.drop i = a :: rest) :
    l.drop (i + 1) = rest := by
  rw [← List.tail_drop, h, List.tail_cons]

/-- There are turns enough for all arguments. -/
theorem nextChar_turns (turns turns' : Nat) (g : Getopt) (h : argv.length ≤ g.myoptind + turns)
    (h' : argv.length ≤ g.myoptind + turns') :
    nextChar argv turns g = nextChar argv turns' g := by
  induction turns generalizing turns' g with
  | zero =>
    have hNone : argv[g.myoptind]? = none := List.getElem?_eq_none h
    cases turns' with
    | zero => rfl
    | succ turns' => rw [nextChar, nextChar, hNone]
  | succ turns ih =>
    cases turns' with
    | zero =>
      have hNone : argv[g.myoptind]? = none := List.getElem?_eq_none h'
      rw [nextChar, nextChar, hNone]
    | succ turns' =>
      rw [nextChar, nextChar]
      cases argv[g.myoptind]? with
      | none => rfl
      | some arg =>
        dsimp only
        split
        · rfl
        · rw [ih turns' _ (by dsimp only; omega) (by dsimp only; omega)]

theorem mygetopt_congr {g' : Getopt} (hg : g.myoptind ≠ 0) (hg' : g'.myoptind ≠ 0)
    (h : nextChar argv argv.length g = nextChar argv argv.length g') :
    mygetopt argv myopts g = mygetopt argv myopts g' := by
  rw [mygetopt, mygetopt, if_neg hg, if_neg hg', h]

theorem nextChar_length (g : Getopt) :
    nextChar argv argv.length g = nextChar argv (argv.length + 1) g :=
  nextChar_turns _ _ g (by omega) (by omega)

/-- At the end of a word it goes on with the next argument. -/
theorem mygetopt_skip (hInd : g.myoptind ≠ 0) (hChr : g.myoptchr = arg.length)
    (hSome : g.myoptchr ≠ 0) (hArg : argv[g.myoptind]? = some arg) :
    mygetopt argv myopts g =
      mygetopt argv myopts { g with myoptind := g.myoptind + 1, myoptchr := 0 } := by
  refine mygetopt_congr hInd (Nat.succ_ne_zero _) ?_
  have hZero : charAt arg g.myoptchr = 0 := by
    rw [charAt, hChr, List.getD_eq_getElem?_getD, List.getElem?_eq_none (Nat.le_refl _)]
    rfl
  rw [nextChar_length, nextChar, hArg]
  dsimp only
  rw [if_neg (fun h => hSome h.1), if_neg hSome, if_pos hZero]

theorem mygetopt_dash {cur : Arg} (hInd : g.myoptind ≠ 0) (hChr : g.myoptchr = 0)
    (hArg : argv[g.myoptind]? = some (ch '-' :: cur)) :
    mygetopt argv myopts g = mygetopt argv myopts { g with myoptchr := 1 } := by
  refine mygetopt_congr hInd hInd ?_
  rw [nextChar_length, nextChar_length, nextChar, nextChar, hArg]
  dsimp only
  rw [if_pos hChr, if_neg (fun h => h.2 rfl)]
  exact (if_neg fun h => Nat.one_ne_zero h.1).symm

/-- What it has found, before it looks up the option. -/
theorem nextChar_inside {c : BitVec 8} {cur : Arg} (hInside : g.myoptchr ≠ 0)
    (hArg : argv[g.myoptind]? = some arg) (hCur : arg.drop g.myoptchr = c :: cur) (hc : c ≠ 0) :
    nextChar argv argv.length g = (some c, { g with myoptchr := g.myoptchr + 1 }) := by
  have hChar : charAt arg g.myoptchr = c := by
    rw [charAt, List.getD_eq_getElem?_getD, ← List.head?_drop, hCur]
    rfl
  rw [nextChar_length, nextChar, hArg]
  dsimp only
  rw [if_neg (fun h => hInside h.1), if_neg hInside, hChar, if_neg hc]

theorem mygetopt_operands (hInd : g.myoptind ≠ 0) (hChr : g.myoptchr = 0)
    (hEnds : Ends (argv.drop g.myoptind)) : mygetopt argv myopts g = (none, g) := by
  have hNext : nextChar argv argv.length g = (none, g) := by
    rw [nextChar_length, nextChar]
    cases hArg : argv[g.myoptind]? with
    | none => rfl
    | some arg =>
      have hHead := hEnds arg (by rw [List.head?_drop, hArg]; rfl)
      have hDash : charAt arg 0 ≠ ch '-' := by
        cases arg with
        | nil => decide
        | cons c arg => exact fun h => hHead (congrArg some h)
      dsimp only
      rw [if_pos ⟨hChr, hDash⟩]
  rw [mygetopt, if_neg hInd, hNext]

theorem At.boundary (myopts : Arg) {args : List Arg} (h : At argv g [] args) :
    ∃ g' : Getopt, g'.myoptind ≠ 0 ∧ g'.myoptchr = 0 ∧ argv.drop g'.myoptind = args ∧
      mygetopt argv myopts g = mygetopt argv myopts g' := by
  generalize hCur : ([] : Arg) = cur at h
  cases h with
  | @inside arg _ hInd hChr hLe hDrop =>
    have hEnd : g.myoptchr = arg.length :=
      Nat.le_antisymm hLe (List.drop_eq_nil_iff.mp hCur.symm)
    exact ⟨_, Nat.succ_ne_zero _, rfl, drop_succ_of_drop hDrop,
      mygetopt_skip hInd hEnd hChr (getElem?_of_drop hDrop)⟩
  | between hInd hChr => exact ⟨g, hInd, hChr, rfl, rfl⟩

theorem behind_eq {c : BitVec 8} {cur : Arg} (hDrop : argv.drop g.myoptind = arg :: rest)
    (hCur : arg.drop g.myoptchr = c :: cur) :
    (argv.getD g.myoptind []).drop (g.myoptchr + 1) = cur := by
  rw [List.getD_eq_getElem?_getD, getElem?_of_drop hDrop]
  exact drop_succ_of_drop hCur

section Inside

variable {c : BitVec 8} {cur : Arg} (hInd : g.myoptind ≠ 0) (hInside : g.myoptchr ≠ 0)
  (hDrop : argv.drop g.myoptind = arg :: rest) (hCur : arg.drop g.myoptchr = c :: cur)
  (hc : c ≠ 0)

include hInd hInside hDrop hCur hc

theorem mygetopt_unknown (hKind : optKind myopts c = .unknown) :
    (mygetopt argv myopts g).1 = some questionMark := by
  rw [mygetopt, if_neg hInd, nextChar_inside hInside (getElem?_of_drop hDrop) hCur hc]
  dsimp only
  rw [hKind]

theorem mygetopt_flag (hKind : optKind myopts c = .flag) :
    mygetopt argv myopts g = (some c, { g with myoptchr := g.myoptchr + 1 }) := by
  rw [mygetopt, if_neg hInd, nextChar_inside hInside (getElem?_of_drop hDrop) hCur hc]
  dsimp only
  rw [hKind]

theorem mygetopt_attached (hKind : optKind myopts c = .valued) (hSome : cur ≠ []) :
    mygetopt argv myopts g =
      (some c, { myoptarg := some cur, myoptind := g.myoptind + 1, myoptchr := 0 }) := by
  rw [mygetopt, if_neg hInd, nextChar_inside hInside (getElem?_of_drop hDrop) hCur hc]
  dsimp only
  rw [hKind]
  dsimp only
  rw [behind_eq hDrop hCur, if_pos (List.length_pos_iff.mpr hSome)]

theorem mygetopt_separate (hKind : optKind myopts c = .valued) (hNone : cur = []) {v : Arg}
    {behind : List Arg} (hRest : rest = v :: behind) :
    mygetopt argv myopts g =
      (some c, { myoptarg := some v, myoptind := g.myoptind + 2, myoptchr := 0 }) := by
  have hNext : argv[g.myoptind + 1]? = some v := by
    rw [← List.head?_drop, drop_succ_of_drop hDrop, hRest, List.head?_cons]
  rw [mygetopt, if_neg hInd, nextChar_inside hInside (getElem?_of_drop hDrop) hCur hc]
  dsimp only
  rw [hKind]
  dsimp only
  rw [behind_eq hDrop hCur, hNone, if_neg (by decide), hNext]

theorem mygetopt_missing (hKind : optKind myopts c = .valued) (hNone : cur = [])
    (hRest : rest = []) : (mygetopt argv myopts g).1 = some questionMark := by
  have hNext : argv[g.myoptind + 1]? = none := by
    rw [← List.head?_drop, drop_succ_of_drop hDrop, hRest, List.head?_nil]
  rw [mygetopt, if_neg hInd, nextChar_inside hInside (getElem?_of_drop hDrop) hCur hc]
  dsimp only
  rw [hKind]
  dsimp only
  rw [behind_eq hDrop hCur, hNone, if_neg (by decide), hNext]

end Inside

end Place

/-! ## The loop of `main` -/

section Loop

variable {fopen : Arg → Option String} {argv : List Arg} {g : Getopt}

def takeGiven (fopen : Arg → Option String) (s : Settings) (o : Given) : Except MainStop Settings :=
  takeOption fopen s o.opt (o.arg.getD [])

theorem mem_of_optKind {myopts : Arg} {c : BitVec 8} (h : optKind myopts c ≠ .unknown) :
    c ∈ myopts := by
  by_contra hNot
  apply h
  have hNone : myopts.dropWhile (· ≠ c) = [] := by
    rw [List.dropWhile_eq_nil_iff]
    intro d hd
    refine decide_eq_true ?_
    rintro rfl
    exact hNot hd
  rw [optKind, hNone]
  exact ite_self _

/-- Options on their own do not look at what an earlier option has left. -/
theorem takeOption_flag {c : BitVec 8} (hKind : optKind mainOpts c = .flag) (s : Settings)
    (a b : Arg) : takeOption fopen s c a = takeOption fopen s c b := by
  have hMem : c ∈ mainOpts := mem_of_optKind (by rw [hKind]; decide)
  have hFlags : ∀ c ∈ mainOpts, optKind mainOpts c = .flag →
      c ≠ ch 'c' ∧ c ≠ ch 'C' ∧ c ≠ ch 'D' ∧ c ≠ ch 'f' ∧ c ≠ ch 'p' ∧ c ≠ ch 't' ∧
        c ≠ ch 'Z' := by
    decide
  obtain ⟨hConfig, hExtra, hDoom, hFile, hPort, hTrace, hTimeout⟩ := hFlags c hMem hKind
  simp only [takeOption, if_neg hConfig, if_neg hExtra, if_neg hDoom, if_neg hFile, if_neg hPort,
    if_neg hTrace, if_neg hTimeout]

theorem takeOption_questionMark (s : Settings) (arg : Arg) :
    takeOption fopen s questionMark arg = .error .usage := rfl

theorem setTracefile_not_endless (s : Settings) (arg : Arg) :
    setTracefile fopen s arg ≠ .error .endless := by
  rw [setTracefile]
  split
  · simp
  · split
    · simp
    · split <;> simp

theorem setTraceflags_not_endless (t : Tracing) (letters : Arg) :
    setTraceflags t letters ≠ .error .endless := by
  rw [setTraceflags]
  induction letters generalizing t with
  | nil => intro h; cases h
  | cons letter letters ih =>
    rw [List.foldlM_cons]
    cases setTraceflag t letter with
    | none => intro h; cases h
    | some t' => exact ih t'

theorem ne_ite {α : Type} {p : Prop} [Decidable p] {x y z : α} (hx : x ≠ z) (hy : y ≠ z) :
    (if p then x else y) ≠ z := by
  split
  · exact hx
  · exact hy

theorem takeOption_not_endless (s : Settings) (c : BitVec 8) (arg : Arg) :
    takeOption fopen s c arg ≠ .error .endless := by
  have hTrace : (setTraceflags s.tracing arg).map
      (fun t => { s with tracing := t, consoleTracing := true }) ≠ .error .endless := by
    have hFlags := setTraceflags_not_endless s.tracing arg
    cases hLetters : setTraceflags s.tracing arg with
    | error e =>
      rw [hLetters] at hFlags
      intro h
      cases h
      exact hFlags rfl
    | ok t => intro h; cases h
  have hExtra : addConfigextra s arg ≠ .error .endless := by
    rw [addConfigextra]
    split
    · simp
    · split <;> simp
  have hTimeout : setTimeout s arg ≠ .error .endless := by
    rw [setTimeout]
    split <;> simp
  have hOk (s' : Settings) : (.ok s' : Except MainStop Settings) ≠ .error .endless := by simp
  rw [takeOption]
  refine ne_ite (hOk _) (ne_ite hExtra (ne_ite (hOk _) (ne_ite (setTracefile_not_endless s arg) ?_)))
  refine ne_ite (hOk _) (ne_ite (hOk _) (ne_ite (hOk _) (ne_ite hTrace (ne_ite (hOk _) ?_))))
  exact ne_ite (hOk _) (ne_ite hTimeout (by simp))

/-- The loop has done these options and is at these operands, or it has refused something. -/
def Looped (fopen : Arg → Option String) (argv : List Arg) (s : Settings) :
    Option (List Given × List Arg) → Except MainStop (Nat × Settings) → Prop
  | none, out => ∃ e, e ≠ .endless ∧ out = .error e
  | some (os, ops), out => ∃ myoptind, argv.drop myoptind = ops ∧
      out = (os.foldlM (takeGiven fopen) s).map fun s => (myoptind, s)

theorem Looped.add {s : Settings} (o : Given) {r : Option (List Given × List Arg)}
    {out : Settings → Except MainStop (Nat × Settings)}
    (h : ∀ s, Looped fopen argv s r (out s)) :
    Looped fopen argv s (r.map (addGiven o)) ((takeGiven fopen s o).bind out) := by
  cases hTake : takeGiven fopen s o with
  | error e =>
    cases r with
    | none =>
      refine ⟨e, ?_, rfl⟩
      rintro rfl
      exact takeOption_not_endless s o.opt _ hTake
    | some r =>
      obtain ⟨myoptind, hDrop, _⟩ := h s
      refine ⟨myoptind, hDrop, ?_⟩
      change _ = ((takeGiven fopen s o).bind fun s => r.1.foldlM (takeGiven fopen) s).map _
      rw [hTake]
      rfl
  | ok s' =>
    cases r with
    | none => exact h s'
    | some r =>
      obtain ⟨myoptind, hDrop, hOut⟩ := h s'
      refine ⟨myoptind, hDrop, ?_⟩
      change _ = ((takeGiven fopen s o).bind fun s => r.1.foldlM (takeGiven fopen) s).map _
      rw [hTake]
      exact hOut

theorem optionLoop_congr {g' : Getopt}
    (h : mygetopt argv mainOpts g = mygetopt argv mainOpts g') (turns : Nat) (s : Settings) :
    optionLoop fopen argv turns g s = optionLoop fopen argv turns g' s := by
  cases turns with
  | zero => rfl
  | succ turns => rw [optionLoop, optionLoop, h]

theorem optionLoop_some {opt : BitVec 8} {g' : Getopt}
    (h : mygetopt argv mainOpts g = (some opt, g')) (turns : Nat) (s : Settings) :
    optionLoop fopen argv (turns + 1) g s =
      (takeOption fopen s opt (g'.myoptarg.getD [])).bind (optionLoop fopen argv turns g') := by
  rw [optionLoop, h]

theorem optionLoop_refused (h : (mygetopt argv mainOpts g).1 = some questionMark) (turns : Nat)
    (s : Settings) : optionLoop fopen argv (turns + 1) g s = .error .usage := by
  rw [optionLoop_some (Prod.ext h rfl : mygetopt argv mainOpts g = (some questionMark, _)),
    takeOption_questionMark]
  rfl

theorem optionLoop_operands (hInd : g.myoptind ≠ 0) (hChr : g.myoptchr = 0)
    (hEnds : Ends (argv.drop g.myoptind)) (turns : Nat) (s : Settings) :
    Looped fopen argv s (some ([], argv.drop g.myoptind))
      (optionLoop fopen argv (turns + 1) g s) := by
  refine ⟨g.myoptind, rfl, ?_⟩
  rw [optionLoop, mygetopt_operands hInd hChr hEnds]
  rfl

/-- What is left to read. -/
def unread (cur : Arg) (args : List Arg) : Nat := cur.length + (args.map fun a => a.length + 1).sum

theorem unread_cons (cur a : Arg) (args : List Arg) :
    unread cur (a :: args) = cur.length + (a.length + 1 + unread [] args) := by
  rw [unread, unread, List.map_cons, List.sum_cons, List.length_nil, Nat.zero_add]

theorem unread_eq (cur : Arg) (args : List Arg) : unread cur args = cur.length + unread [] args := by
  rw [unread, unread, List.length_nil, Nat.zero_add]

theorem At.inside_of_cons {c : BitVec 8} {cur : Arg} {args : List Arg}
    (h : At argv g (c :: cur) args) :
    ∃ arg, g.myoptind ≠ 0 ∧ g.myoptchr ≠ 0 ∧ argv.drop g.myoptind = arg :: args ∧
      arg.drop g.myoptchr = c :: cur := by
  generalize hCur : c :: cur = l at h
  cases h with
  | inside hInd hChr _ hDrop => exact ⟨_, hInd, hChr, hDrop, rfl⟩
  | between hInd hChr => cases hCur

/-- The loop reads what there is to read, in every place. -/
theorem optionLoop_looped {cur : Arg} {args : List Arg} (hAt : At argv g cur args)
    (hNul : ∀ a ∈ argv, (0 : BitVec 8) ∉ a) {turns : Nat} (hTurns : unread cur args < turns)
    (s : Settings) :
    Looped fopen argv s (readArgs mainOpts cur args) (optionLoop fopen argv turns g s) := by
  have hNonzero {i k : Nat} {arg cur : Arg} {rest : List Arg} {c : BitVec 8}
      (hDrop : argv.drop i = arg :: rest) (hCur : arg.drop k = c :: cur) : c ≠ 0 := by
    rintro rfl
    have hMem : arg ∈ argv := List.mem_of_mem_drop (hDrop ▸ List.mem_cons_self)
    exact hNul arg hMem (List.mem_of_mem_drop (hCur ▸ List.mem_cons_self))
  obtain ⟨turns, rfl⟩ : ∃ n, turns = n + 1 := ⟨turns - 1, by omega⟩
  induction cur, args using readArgs.induct mainOpts generalizing g turns s with
  | case1 =>
    obtain ⟨g', hInd, hChr, hDrop, hSame⟩ := hAt.boundary mainOpts
    rw [optionLoop_congr hSame, readArgs, ← hDrop]
    apply optionLoop_operands hInd hChr
    rw [hDrop]
    intro a ha
    cases ha
  | case2 a rest hDash ih =>
    obtain ⟨g', hInd, hChr, hDrop, hSame⟩ := hAt.boundary mainOpts
    obtain ⟨cur, rfl⟩ : ∃ cur, a = ch '-' :: cur := ⟨a.tail, (List.cons_head?_tail hDash).symm⟩
    have hArg := getElem?_of_drop hDrop
    rw [readArgs_dash, optionLoop_congr (hSame.trans (mygetopt_dash hInd hChr hArg))]
    rw [unread_cons, List.length_cons] at hTurns
    have hFirst : At argv { g' with myoptchr := 1 } ((ch '-' :: cur).drop 1) rest :=
      At.inside hInd Nat.one_ne_zero (Nat.le_add_left 1 cur.length) hDrop
    apply ih hFirst
    rw [List.tail_cons, unread_eq]
    omega
  | case3 a rest hOperand =>
    obtain ⟨g', hInd, hChr, hDrop, hSame⟩ := hAt.boundary mainOpts
    rw [optionLoop_congr hSame, readArgs, if_neg hOperand, ← hDrop]
    apply optionLoop_operands hInd hChr
    rw [hDrop]
    intro b hb
    cases hb
    exact hOperand
  | case4 c cur rest hKind =>
    obtain ⟨arg, hInd, hChr, hDrop, hCur⟩ := hAt.inside_of_cons
    rw [readArgs_unknown hKind]
    exact ⟨.usage, by decide, optionLoop_refused
      (mygetopt_unknown hInd hChr hDrop hCur (hNonzero hDrop hCur) hKind) turns s⟩
  | case5 c cur rest hKind ih =>
    obtain ⟨arg, hInd, hChr, hDrop, hCur⟩ := hAt.inside_of_cons
    have hc := hNonzero hDrop hCur
    rw [readArgs_flag hKind, optionLoop_some (mygetopt_flag hInd hChr hDrop hCur hc hKind),
      takeOption_flag hKind s _ []]
    rw [unread_eq, List.length_cons] at hTurns
    refine Looped.add ⟨c, none⟩ fun s' => ?_
    obtain ⟨turns, rfl⟩ : ∃ n, turns = n + 1 := ⟨turns - 1, by omega⟩
    have hLe : g.myoptchr < arg.length := by
      by_contra hNot
      rw [List.drop_eq_nil_iff.mpr (Nat.not_lt.mp hNot)] at hCur
      cases hCur
    have hNext : At argv { g with myoptchr := g.myoptchr + 1 } (arg.drop (g.myoptchr + 1)) rest :=
      At.inside hInd (Nat.succ_ne_zero _) hLe hDrop
    rw [drop_succ_of_drop hCur] at hNext
    apply ih hNext
    rw [unread_eq]
    omega
  | case6 c hKind =>
    obtain ⟨arg, hInd, hChr, hDrop, hCur⟩ := hAt.inside_of_cons
    rw [readArgs_missing hKind]
    exact ⟨.usage, by decide, optionLoop_refused
      (mygetopt_missing hInd hChr hDrop hCur (hNonzero hDrop hCur) hKind rfl rfl) turns s⟩
  | case7 c hKind v rest ih =>
    obtain ⟨arg, hInd, hChr, hDrop, hCur⟩ := hAt.inside_of_cons
    have hc := hNonzero hDrop hCur
    rw [readArgs_separate hKind,
      optionLoop_some (mygetopt_separate hInd hChr hDrop hCur hc hKind rfl rfl)]
    rw [unread_cons] at hTurns
    refine Looped.add ⟨c, some v⟩ fun s' => ?_
    obtain ⟨turns, rfl⟩ : ∃ n, turns = n + 1 := ⟨turns - 1, by omega⟩
    have hNext : At argv { myoptarg := some v, myoptind := g.myoptind + 2, myoptchr := 0 } []
        (argv.drop (g.myoptind + 2)) := At.between (Nat.succ_ne_zero _) rfl
    rw [drop_succ_of_drop (drop_succ_of_drop hDrop)] at hNext
    apply ih hNext
    omega
  | case8 c cur rest hKind hSome ih =>
    obtain ⟨arg, hInd, hChr, hDrop, hCur⟩ := hAt.inside_of_cons
    have hc := hNonzero hDrop hCur
    rw [readArgs_attached hKind hSome,
      optionLoop_some (mygetopt_attached hInd hChr hDrop hCur hc hKind hSome)]
    rw [unread_eq, List.length_cons] at hTurns
    refine Looped.add ⟨c, some cur⟩ fun s' => ?_
    obtain ⟨turns, rfl⟩ : ∃ n, turns = n + 1 := ⟨turns - 1, by omega⟩
    have hNext : At argv { myoptarg := some cur, myoptind := g.myoptind + 1, myoptchr := 0 } []
        (argv.drop (g.myoptind + 1)) := At.between (Nat.succ_ne_zero _) rfl
    rw [drop_succ_of_drop hDrop] at hNext
    apply ih hNext
    omega

end Loop

/-! ## Command lines -/

/-- The command line is one of words of options that are all taken, a kernel and its arguments. -/
def Accepts (fopen : Arg → Option String) (args : List Arg) (r : Invocation) : Prop :=
  ∃ (cs : List Cluster) (kernelArgs : List Arg), (∀ c ∈ cs, c.Valid mainOpts) ∧
    r.kernel.head? ≠ some (ch '-') ∧ args = cs.flatMap Cluster.render ++ r.kernel :: kernelArgs ∧
    (cs.flatMap Cluster.given).foldlM (takeGiven fopen) Settings.default = .ok r.settings ∧
    r.argstr = joinArgs kernelArgs

theorem ends_cons {a : Arg} {args : List Arg} (h : a.head? ≠ some (ch '-')) : Ends (a :: args) := by
  intro b hb
  cases hb
  exact h

theorem foldlM_not_endless {fopen : Arg → Option String} (os : List Given) (s : Settings) :
    os.foldlM (takeGiven fopen) s ≠ .error .endless := by
  induction os generalizing s with
  | nil => intro h; cases h
  | cons o os ih =>
    rw [List.foldlM_cons]
    cases hTake : takeGiven fopen s o with
    | error e =>
      intro h
      cases h
      exact takeOption_not_endless s o.opt _ hTake
    | ok s' => exact ih s'

/-- The loop starts at the first argument behind the name of the program. -/
theorem mainLoop_looped (fopen : Arg → Option String) {name : Arg} {args : List Arg}
    (hNul : ∀ a ∈ name :: args, (0 : BitVec 8) ∉ a) :
    Looped fopen (name :: args) Settings.default (readArgs mainOpts [] args)
      (optionLoop fopen (name :: args) (((name :: args).map fun a => a.length + 1).sum + 1)
        Getopt.zeroed Settings.default) := by
  have hStart : mygetopt (name :: args) mainOpts Getopt.zeroed =
      mygetopt (name :: args) mainOpts { Getopt.zeroed with myoptind := 1 } := rfl
  have hAt : At (name :: args) { Getopt.zeroed with myoptind := 1 } [] args :=
    At.between Nat.one_ne_zero rfl
  rw [optionLoop_congr hStart]
  apply optionLoop_looped hAt hNul
  rw [unread, List.map_cons, List.sum_cons, List.length_nil]
  omega

/-- `sys161 -wc a.conf kernel q` -/
def bootLine : List Arg :=
  ["-wc", "a.conf", "kernel", "q"].map fun a => a.toList.map ch

end Sys161.Main
