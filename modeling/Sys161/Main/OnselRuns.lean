import Sys161.Bus.Event
import Sys161.Main.Onsel

/-!
# The hooks in use

What the table is for is a bag: an entry comes in, is called once each time there
is something to read while it is there, and goes out when its hook has had enough
or somebody takes it out. The rest of the program sees these calls and no others.
-/

namespace Sys161.Main

open Runs Bus

set_option autoImplicit false

section Table

variable {α φ ρ ω : Type} {H : Hooks α φ ρ ω}

/-- The entries in use. -/
def inUse (l : List (Selection α φ ρ)) : Multiset (Selection α φ ρ) :=
  ↑(l.filter fun s => 0 ≤ s.sdFd)

def Onsel.live (o : Onsel α φ ρ ω) : Multiset (Selection α φ ρ) := inUse o.selections

def Ask.Proper : Ask α φ ρ → Prop
  | .onselect s => 0 ≤ s.sdFd
  | .notonselect fd => 0 ≤ fd

/-- Hooks ask for descriptors that there are, and one that is to be taken out does not take itself
out as well. -/
structure Hooks.Proper (H : Hooks α φ ρ ω) : Prop where
  asks : ∀ f a w, ∀ ask ∈ (H.func f a w).asks, ask.Proper
  once : ∀ (s : Selection α φ ρ) w, (H.func s.sdFunc s.sdData w).result ≠ 0 →
    .notonselect s.sdFd ∉ (H.func s.sdFunc s.sdData w).asks

/-! ## The entries -/

theorem inUse_cons (s : Selection α φ ρ) (l : List (Selection α φ ρ)) :
    inUse (s :: l) = inUse [s] + inUse l := by
  rw [inUse, inUse, inUse, Multiset.coe_add, ← List.filter_append, List.singleton_append]

theorem inUse_append (l l' : List (Selection α φ ρ)) : inUse (l ++ l') = inUse l + inUse l' := by
  rw [inUse, inUse, inUse, Multiset.coe_add, List.filter_append]

theorem inUse_of_nonneg {s : Selection α φ ρ} (hs : 0 ≤ s.sdFd) : inUse [s] = {s} := by
  have hFilter : [s].filter (fun s => 0 ≤ s.sdFd) = [s] := by simp [hs]
  rw [inUse, hFilter]
  rfl

theorem inUse_of_neg {s : Selection α φ ρ} (hs : s.sdFd < 0) : inUse [s] = 0 := by
  have hFilter : [s].filter (fun s => 0 ≤ s.sdFd) = [] := by simp [hs]
  rw [inUse, hFilter]
  rfl

theorem inUse_unused (s : Selection α φ ρ) : inUse [s.unused] = 0 :=
  inUse_of_neg (by decide : (-1 : Int) < 0)

theorem inUse_set {l : List (Selection α φ ρ)} {i : Nat} {t : Selection α φ ρ} (h : l[i]? = some t)
    (s : Selection α φ ρ) : inUse [t] + inUse (l.set i s) = inUse [s] + inUse l := by
  induction l generalizing i with
  | nil => cases h
  | cons x l ih =>
    cases i with
    | zero =>
      obtain rfl : x = t := Option.some.inj h
      rw [List.set_cons_zero, inUse_cons s l, inUse_cons x l, add_left_comm]
    | succ i =>
      have hTail := ih h
      rw [List.set_cons_succ, inUse_cons x (l.set i s), inUse_cons x l, add_left_comm, hTail, add_left_comm]

theorem mem_inUse_iff {l : List (Selection α φ ρ)} {s : Selection α φ ρ} :
    s ∈ inUse l ↔ s ∈ l ∧ 0 ≤ s.sdFd := by
  rw [inUse, Multiset.mem_coe, List.mem_filter, decide_eq_true_iff]

theorem card_inUse_le (l : List (Selection α φ ρ)) : (inUse l).card ≤ l.length := by
  rw [inUse, Multiset.coe_card]
  exact List.length_filter_le _ l

/-- All entries are in use where there are as many in use as there are entries. -/
theorem card_inUse_eq_iff {l : List (Selection α φ ρ)} :
    (inUse l).card = l.length ↔ ∀ s ∈ l, 0 ≤ s.sdFd := by
  rw [inUse, Multiset.coe_card, List.length_filter_eq_length_iff]
  simp only [decide_eq_true_iff]

/-! ## What a part of a step does -/

variable (H) in
/-- What the rest of the program sees of a deed. -/
def Hooks.after (w : ω) : Bag.Deed (Selection α φ ρ) → ω
  | .entered _ => w
  | .used s => (H.func s.sdFunc s.sdData w).world
  | .left s => H.giveBack s w

variable (H) in
/-- The table goes on, with these deeds. -/
structure Moves (o o' : Onsel α φ ρ ω) (ds : List (Bag.Deed (Selection α φ ρ))) : Prop where
  deeds : o'.deeds = o.deeds ++ ds
  world : o'.world = ds.foldl H.after o.world
  bag : Bag.Runs o.live ds o'.live
  room : o.selections.length ≤ maxsels → o'.selections.length ≤ maxsels
  stays : ∀ (j : Nat) s, o.selections[j]? = some s → 0 ≤ s.sdFd →
    o'.selections[j]? = some s ∨ .left s ∈ ds

theorem Moves.refl (o : Onsel α φ ρ ω) : Moves H o o [] :=
  ⟨(List.append_nil _).symm, rfl, Bag.Runs.nil _, id, fun _ _ h _ => .inl h⟩

theorem Moves.trans {o o' o'' : Onsel α φ ρ ω} {ds ds' : List (Bag.Deed (Selection α φ ρ))}
    (h : Moves H o o' ds) (h' : Moves H o' o'' ds') : Moves H o o'' (ds ++ ds') where
  deeds := by rw [h'.deeds, h.deeds, List.append_assoc]
  world := by rw [h'.world, h.world, List.foldl_append]
  bag := h.bag.append h'.bag
  room := fun hRoom => h'.room (h.room hRoom)
  stays := by
    intro j s hSlot hs
    rcases h.stays j s hSlot hs with hSlot | hLeft
    · rcases h'.stays j s hSlot hs with hSlot | hLeft
      · exact .inl hSlot
      · exact .inr (List.mem_append_right ds hLeft)
    · exact .inr (List.mem_append_left ds' hLeft)

theorem moves_used {o : Onsel α φ ρ ω} {i : Nat} {s : Selection α φ ρ}
    (hSlot : o.selections[i]? = some s) (hs : 0 ≤ s.sdFd) :
    Moves H o { o with
      world := (H.func s.sdFunc s.sdData o.world).world, deeds := o.deeds ++ [.used s] }
      [.used s] :=
  ⟨rfl, rfl, Bag.Runs.single ⟨mem_inUse_iff.mpr ⟨List.mem_of_getElem? hSlot, hs⟩, rfl⟩, id,
    fun _ _ h _ => .inl h⟩

theorem release_live {o : Onsel α φ ρ ω} {i : Nat} {s : Selection α φ ρ}
    (hSlot : o.selections[i]? = some s) (hs : 0 ≤ s.sdFd) :
    o.live = s ::ₘ (release H o i s).live := by
  have hSet := inUse_set hSlot s.unused
  rw [inUse_of_nonneg hs, inUse_unused, zero_add] at hSet
  exact hSet.symm

theorem release_other {o : Onsel α φ ρ ω} {i j : Nat} (h : i ≠ j) (s : Selection α φ ρ) :
    (release H o i s).selections[j]? = o.selections[j]? := by
  rw [release, List.getElem?_set_ne h]

theorem release_moves {o : Onsel α φ ρ ω} {i : Nat} {s : Selection α φ ρ}
    (hSlot : o.selections[i]? = some s) (hs : 0 ≤ s.sdFd) :
    Moves H o (release H o i s) [.left s] where
  deeds := rfl
  world := rfl
  bag := Bag.Runs.single (release_live hSlot hs)
  room := by
    intro hRoom
    rwa [release, List.length_set]
  stays := by
    intro j t hOther ht
    by_cases hSame : i = j
    · subst hSame
      rw [hSlot] at hOther
      cases hOther
      exact .inr List.mem_cons_self
    · exact .inl (by rwa [release_other hSame])

theorem findsel_cases {o : Onsel α φ ρ ω} {ix : Nat} (h : findsel o = some ix) :
    (∃ t, o.selections[ix]? = some t ∧ t.sdFd < 0) ∨
      (ix = o.selections.length ∧ o.selections.length < maxsels) := by
  rw [findsel] at h
  split at h
  · next i hFind =>
    cases h
    obtain ⟨hIx, hNeg, -⟩ := List.findIdx?_eq_some_iff_getElem.mp hFind
    exact .inl ⟨o.selections[ix], List.getElem?_eq_getElem hIx, of_decide_eq_true hNeg⟩
  · split at h
    · next hRoom =>
      cases h
      exact .inr ⟨rfl, hRoom⟩
    · cases h

theorem onselect_moves {o o' : Onsel α φ ρ ω} {s : Selection α φ ρ} (hs : 0 ≤ s.sdFd)
    (h : onselect o s = .ok o') : Moves H o o' [.entered s] := by
  rw [onselect] at h
  split at h
  · cases h
  · next ix hFind =>
    cases h
    rcases findsel_cases hFind with ⟨t, hSlot, ht⟩ | ⟨rfl, hRoom⟩
    · have hIx : ix < o.selections.length := (List.getElem?_eq_some_iff.mp hSlot).1
      have hSet := inUse_set hSlot s
      rw [inUse_of_neg ht, zero_add, inUse_of_nonneg hs] at hSet
      refine ⟨rfl, rfl, ?_, ?_, ?_⟩
      · refine Bag.Runs.single ?_
        rw [Bag.step, Onsel.live, if_pos hIx, hSet]
        rfl
      · intro hRoom
        dsimp only
        rwa [if_pos hIx, List.length_set]
      · intro j u hOther hu
        have hNe : ix ≠ j := by
          rintro rfl
          rw [hSlot] at hOther
          cases hOther
          omega
        refine .inl ?_
        dsimp only
        rwa [if_pos hIx, List.getElem?_set_ne hNe]
    · have hOut : ¬ o.selections.length < o.selections.length := lt_irrefl _
      refine ⟨rfl, rfl, ?_, ?_, ?_⟩
      · refine Bag.Runs.single ?_
        rw [Bag.step, Onsel.live, if_neg hOut, inUse_append, inUse_of_nonneg hs, add_comm]
        rfl
      · intro _
        dsimp only
        rw [if_neg hOut, List.length_append, List.length_singleton]
        omega
      · intro j u hOther _
        refine .inl ?_
        dsimp only
        rw [if_neg hOut, List.getElem?_append_left (List.getElem?_eq_some_iff.mp hOther).1]
        exact hOther

theorem notonselect_moves {o o' : Onsel α φ ρ ω} {fd : Int} (hFd : 0 ≤ fd)
    (h : notonselect H o fd = .ok o') : ∃ s, s.sdFd = fd ∧ Moves H o o' [.left s] := by
  rw [notonselect] at h
  split at h
  · cases h
  · next i hFind =>
    obtain ⟨hIx, hSame, -⟩ := List.findIdx?_eq_some_iff_getElem.mp hFind
    have hSlot : o.selections[i]? = some o.selections[i] := List.getElem?_eq_getElem hIx
    have hs : o.selections[i].sdFd = fd := of_decide_eq_true hSame
    rw [hSlot] at h
    cases h
    exact ⟨_, hs, release_moves hSlot (hs ▸ hFd)⟩

/-- What comes of a call of `onselect` or `notonselect`. -/
inductive Ask.Does : Ask α φ ρ → Bag.Deed (Selection α φ ρ) → Prop where
  | onselect (s : Selection α φ ρ) : Ask.Does (.onselect s) (.entered s)
  | notonselect (s : Selection α φ ρ) : Ask.Does (.notonselect s.sdFd) (.left s)

theorem ask_moves {o o' : Onsel α φ ρ ω} {a : Ask α φ ρ} (ha : a.Proper)
    (h : a.run H o = .ok o') : ∃ d, a.Does d ∧ Moves H o o' [d] := by
  cases a with
  | onselect s => exact ⟨_, .onselect s, onselect_moves ha h⟩
  | notonselect fd =>
    obtain ⟨s, rfl, hMoves⟩ := notonselect_moves ha h
    exact ⟨_, .notonselect s, hMoves⟩

theorem asks_moves {asks : List (Ask α φ ρ)} (hAsks : ∀ a ∈ asks, a.Proper)
    {o o' : Onsel α φ ρ ω} (h : asks.foldlM (Ask.run H) o = .ok o') :
    ∃ ds, List.Forall₂ Ask.Does asks ds ∧ Moves H o o' ds := by
  induction asks generalizing o with
  | nil =>
    cases h
    exact ⟨[], .nil, Moves.refl _⟩
  | cons a asks ih =>
    obtain ⟨ha, hRest⟩ := List.forall_mem_cons.mp hAsks
    obtain ⟨o₁, hFirst, h⟩ := bind_eq_ok h
    obtain ⟨d, hDoes, hMoves⟩ := ask_moves ha hFirst
    obtain ⟨ds, hDoes', hMoves'⟩ := ih hRest h
    exact ⟨d :: ds, .cons hDoes hDoes', hMoves.trans hMoves'⟩

/-- An entry goes out where somebody has asked for it. -/
theorem asked_of_left {asks : List (Ask α φ ρ)} {ds : List (Bag.Deed (Selection α φ ρ))}
    (h : List.Forall₂ Ask.Does asks ds) {s : Selection α φ ρ} (hLeft : .left s ∈ ds) :
    .notonselect s.sdFd ∈ asks := by
  induction h with
  | nil => exact absurd hLeft List.not_mem_nil
  | cons hHead _ ih =>
    rcases List.mem_cons.mp hLeft with hHere | hLater
    · rw [← hHere] at hHead
      cases hHead
      exact List.mem_cons_self
    · exact List.mem_cons_of_mem _ (ih hLater)

/-! ## Calls -/

/-- The call of a hook: in which slot its entry is, what it answers, and what comes of its asks. -/
structure Call (α φ ρ ω : Type) where
  slot : Nat
  entry : Selection α φ ρ
  answer : Answer α φ ρ ω
  asked : List (Bag.Deed (Selection α φ ρ))

/-- The hook is called, it asks, and then its entry is taken out if the result is not zero. -/
def Call.deeds (c : Call α φ ρ ω) : List (Bag.Deed (Selection α φ ρ)) :=
  .used c.entry :: (c.asked ++ if c.answer.result = 0 then [] else [.left c.entry])

variable (H) in
structure Call.Made (c : Call α φ ρ ω) (w : ω) : Prop where
  answer : c.answer = H.func c.entry.sdFunc c.entry.sdData w
  asked : List.Forall₂ Ask.Does c.answer.asks c.asked

variable (H) in
/-- The calls are made one after the other. -/
def AllMade : ω → List (Call α φ ρ ω) → Prop
  | _, [] => True
  | w, c :: calls => c.Made H w ∧ AllMade (c.deeds.foldl H.after w) calls

theorem callSelection_moves (hHooks : H.Proper) {o o' : Onsel α φ ρ ω} {i : Nat}
    {s : Selection α φ ρ} (hSlot : o.selections[i]? = some s) (hs : 0 ≤ s.sdFd)
    (h : callSelection H o i s = .ok o') :
    ∃ c : Call α φ ρ ω, c.slot = i ∧ c.entry = s ∧ c.Made H o.world ∧ Moves H o o' c.deeds ∧
      ∀ j t, o.selections[j]? = some t → 0 ≤ t.sdFd →
        o'.selections[j]? = some t ∨ .left t ∈ c.asked ∨ j = i ∧ c.answer.result ≠ 0 := by
  obtain ⟨o₁, hAsks, h⟩ := map_eq_ok h
  have hFirst : Moves H o _ [.used s] := moves_used hSlot hs
  obtain ⟨ds, hDoes, hMoves⟩ := asks_moves (hHooks.asks s.sdFunc s.sdData o.world) hAsks
  refine ⟨⟨i, s, H.func s.sdFunc s.sdData o.world, ds⟩, rfl, rfl, ⟨rfl, hDoes⟩, ?_⟩
  rw [Call.deeds]
  dsimp only
  split at h
  · next hOn =>
    cases h
    rw [if_pos hOn, List.append_nil]
    refine ⟨hFirst.trans hMoves, fun j t hOther ht => ?_⟩
    exact (hMoves.stays j t hOther ht).imp_right .inl
  · next hOff =>
    -- The entry is still the one that was called.
    have hStill : o₁.selections[i]? = some s := by
      rcases hMoves.stays i s hSlot hs with hStill | hGone
      · exact hStill
      · exact absurd (asked_of_left hDoes hGone) (hHooks.once s o.world hOff)
    rw [hStill] at h
    cases h
    rw [if_neg hOff]
    refine ⟨hFirst.trans (hMoves.trans (release_moves hStill hs)), fun j t hOther ht => ?_⟩
    rcases hMoves.stays j t hOther ht with hSame | hGone
    · by_cases hHere : i = j
      · exact .inr (.inr ⟨hHere.symm, hOff⟩)
      · exact .inl (by rwa [release_other hHere])
    · exact .inr (.inl hGone)

/-- The calls of a pass over the table from a slot on: each slot is come to once, and the hook that
stands in it then is called if its descriptor is ready. An entry that was there and ready is not
called only if a hook before it has had it taken out, and an entry goes on standing in its slot
unless its hook has had enough or some hook has it taken out. -/
structure Pass (H : Hooks α φ ρ ω) (ready : Int → Bool) (first : Nat) (o o' : Onsel α φ ρ ω)
    (calls : List (Call α φ ρ ω)) : Prop where
  made : AllMade H o.world calls
  slots : (calls.map Call.slot).Pairwise (· < ·)
  start : ∀ c ∈ calls, first ≤ c.slot
  found : ∀ c ∈ calls, ready c.entry.sdFd = true
  called : ∀ i s, first ≤ i → o.selections[i]? = some s → 0 ≤ s.sdFd → ready s.sdFd = true →
    (∃ c ∈ calls, c.slot = i ∧ c.entry = s) ∨ ∃ c ∈ calls, c.slot < i ∧ .left s ∈ c.asked
  stays : ∀ i s, o.selections[i]? = some s → 0 ≤ s.sdFd → o'.selections[i]? = some s ∨
    (∃ c ∈ calls, .left s ∈ c.asked) ∨
      ∃ c ∈ calls, c.slot = i ∧ c.entry = s ∧ c.answer.result ≠ 0

theorem Pass.done {ready : Int → Bool} {i : Nat} {o : Onsel α φ ρ ω}
    (h : o.selections.length ≤ i) : Pass H ready i o o [] where
  made := trivial
  slots := List.Pairwise.nil
  start := fun _ hc => absurd hc List.not_mem_nil
  found := fun _ hc => absurd hc List.not_mem_nil
  called := by
    intro j s hLow hSlot
    have hIn := (List.getElem?_eq_some_iff.mp hSlot).1
    omega
  stays := fun _ _ hSlot _ => .inl hSlot

theorem Pass.skip {ready : Int → Bool} {i : Nat} {o o' : Onsel α φ ρ ω}
    {calls : List (Call α φ ρ ω)} {s : Selection α φ ρ} (hSlot : o.selections[i]? = some s)
    (hSkip : s.sdFd < 0 ∨ ready s.sdFd = false) (h : Pass H ready (i + 1) o o' calls) :
    Pass H ready i o o' calls where
  made := h.made
  slots := h.slots
  start := fun c hc => (Nat.le_succ i).trans (h.start c hc)
  found := h.found
  called := by
    intro j t hLow hOther ht hFound
    by_cases hHere : i = j
    · subst hHere
      rw [hSlot] at hOther
      cases hOther
      rcases hSkip with hNeg | hIdle
      · omega
      · rw [hFound] at hIdle
        cases hIdle
    · exact h.called j t (by omega) hOther ht hFound
  stays := h.stays

theorem Pass.call {ready : Int → Bool} {o o₁ o' : Onsel α φ ρ ω} {c : Call α φ ρ ω}
    {calls : List (Call α φ ρ ω)} (hSlot : o.selections[c.slot]? = some c.entry)
    (hNow : ready c.entry.sdFd = true) (hMade : c.Made H o.world) (hMoves : Moves H o o₁ c.deeds)
    (hStays : ∀ j t, o.selections[j]? = some t → 0 ≤ t.sdFd →
      o₁.selections[j]? = some t ∨ .left t ∈ c.asked ∨ j = c.slot ∧ c.answer.result ≠ 0)
    (h : Pass H ready (c.slot + 1) o₁ o' calls) : Pass H ready c.slot o o' (c :: calls) := by
  have hMem {d : Call α φ ρ ω} (hd : d ∈ calls) : d ∈ c :: calls := List.mem_cons_of_mem c hd
  constructor
  · refine ⟨hMade, ?_⟩
    rw [← hMoves.world]
    exact h.made
  · refine List.Pairwise.cons ?_ h.slots
    intro slot hIn
    obtain ⟨d, hd, rfl⟩ := List.mem_map.mp hIn
    exact h.start d hd
  · intro d hd
    rcases List.mem_cons.mp hd with rfl | hd
    · exact le_rfl
    · exact (Nat.le_succ c.slot).trans (h.start d hd)
  · intro d hd
    rcases List.mem_cons.mp hd with rfl | hd
    · exact hNow
    · exact h.found d hd
  · intro j t hLow hOther ht hFound
    by_cases hHere : c.slot = j
    · subst hHere
      rw [hSlot] at hOther
      cases hOther
      exact .inl ⟨c, List.mem_cons_self, rfl, rfl⟩
    · rcases hStays j t hOther ht with hStill | hGone | ⟨hSame, -⟩
      · rcases h.called j t (by omega) hStill ht hFound with ⟨d, hd, hCall⟩ | ⟨d, hd, hOut⟩
        · exact .inl ⟨d, hMem hd, hCall⟩
        · exact .inr ⟨d, hMem hd, hOut⟩
      · exact .inr ⟨c, List.mem_cons_self, by omega, hGone⟩
      · exact absurd hSame.symm hHere
  · intro j t hOther ht
    rcases hStays j t hOther ht with hStill | hGone | ⟨rfl, hOff⟩
    · rcases h.stays j t hStill ht with hStill | ⟨d, hd, hOut⟩ | ⟨d, hd, hOff⟩
      · exact .inl hStill
      · exact .inr (.inl ⟨d, hMem hd, hOut⟩)
      · exact .inr (.inr ⟨d, hMem hd, hOff⟩)
    · exact .inr (.inl ⟨c, List.mem_cons_self, hGone⟩)
    · rw [hSlot] at hOther
      cases hOther
      exact .inr (.inr ⟨c, List.mem_cons_self, rfl, rfl, hOff⟩)

theorem dispatch_passes (hHooks : H.Proper) {ready : Int → Bool} {turns i : Nat}
    {o o' : Onsel α φ ρ ω} (hTurns : i + turns = maxsels) (hRoom : o.selections.length ≤ maxsels)
    (h : dispatch H ready turns i o = .ok o') :
    ∃ calls, Pass H ready i o o' calls ∧ Moves H o o' (calls.flatMap Call.deeds) := by
  induction turns generalizing i o with
  | zero =>
    cases h
    exact ⟨[], .done (hRoom.trans hTurns.ge), Moves.refl _⟩
  | succ turns ih =>
    rw [dispatch] at h
    cases hSlot : o.selections[i]? with
    | none =>
      rw [hSlot] at h
      cases h
      exact ⟨[], .done (List.getElem?_eq_none_iff.mp hSlot), Moves.refl _⟩
    | some s =>
      rw [hSlot] at h
      dsimp only at h
      split at h
      · next hSkip =>
        obtain ⟨calls, hRest, hMoves⟩ := ih (by omega) hRoom h
        exact ⟨calls, hRest.skip hSlot hSkip, hMoves⟩
      · next hCall =>
        rw [not_or, not_lt, Bool.not_eq_false] at hCall
        obtain ⟨o₁, hFirst, hLater⟩ := bind_eq_ok h
        obtain ⟨c, rfl, rfl, hMade, hMoves, hStays⟩ :=
          callSelection_moves hHooks hSlot hCall.1 hFirst
        obtain ⟨calls, hRest, hMoves'⟩ := ih (by omega) (hMoves.room hRoom) hLater
        exact ⟨c :: calls, hRest.call hSlot hCall.2 hMade hMoves hStays, hMoves.trans hMoves'⟩

/-! ## Invariants of the entries and the rest of the program -/

def Ask.entry : Ask α φ ρ → Option (Selection α φ ρ)
  | .onselect s => some s
  | .notonselect _ => none

/-- The entries that a hook asks for. -/
def Answer.entries (a : Answer α φ ρ ω) : List (Selection α φ ρ) := a.asks.filterMap Ask.entry

/-- No hook takes anything out of the table. -/
def Hooks.Enters (H : Hooks α φ ρ ω) : Prop :=
  ∀ f a w, ∀ ask ∈ (H.func f a w).asks, ∃ t, ask = .onselect t ∧ 0 ≤ t.sdFd

theorem Hooks.Enters.proper (h : H.Enters) : H.Proper where
  asks := by
    intro f a w ask hAsk
    obtain ⟨t, rfl, ht⟩ := h f a w ask hAsk
    exact ht
  once := by
    intro s w _ hAsk
    obtain ⟨t, hEq, -⟩ := h s.sdFunc s.sdData w _ hAsk
    cases hEq

/-- A call of a hook that is there keeps the invariant, whether it stays there or not. -/
structure Hooks.Preserves (H : Hooks α φ ρ ω) (I : Multiset (Selection α φ ρ) → ω → Prop) :
    Prop where
  stays : ∀ live w s, s ∈ live → I live w → (H.func s.sdFunc s.sdData w).result = 0 →
    I (↑(H.func s.sdFunc s.sdData w).entries + live) (H.func s.sdFunc s.sdData w).world
  goes : ∀ live w s, I (s ::ₘ live) w → (H.func s.sdFunc s.sdData w).result ≠ 0 →
    I (↑(H.func s.sdFunc s.sdData w).entries + live)
      (H.giveBack s (H.func s.sdFunc s.sdData w).world)

theorem onselect_live (H : Hooks α φ ρ ω) {o o' : Onsel α φ ρ ω} {s : Selection α φ ρ} (hs : 0 ≤ s.sdFd)
    (h : onselect o s = .ok o') : o'.live = s ::ₘ o.live ∧ o'.world = o.world := by
  have hMoves : Moves H o o' [.entered s] := onselect_moves hs h
  obtain ⟨b, hStep, hRest⟩ := Bag.Runs.cons_iff.mp hMoves.bag
  obtain ⟨p, hp, hNil⟩ := hRest
  obtain rfl := List.map_eq_nil_iff.mp hNil
  cases hp
  exact ⟨hStep, hMoves.world⟩

theorem asks_live {a : Answer α φ ρ ω} (hAsks : ∀ ask ∈ a.asks, ∃ t, ask = .onselect t ∧ 0 ≤ t.sdFd)
    {o o' : Onsel α φ ρ ω} (h : a.asks.foldlM (Ask.run H) o = .ok o') :
    o'.live = ↑a.entries + o.live ∧ o'.world = o.world := by
  rw [Answer.entries]
  generalize a.asks = asks at hAsks h
  induction asks generalizing o with
  | nil =>
    cases h
    exact ⟨(zero_add _).symm, rfl⟩
  | cons ask asks ih =>
    obtain ⟨⟨t, rfl, ht⟩, hRest⟩ := List.forall_mem_cons.mp hAsks
    obtain ⟨o₁, hFirst, h⟩ := bind_eq_ok h
    obtain ⟨hLive, hWorld⟩ := onselect_live H ht hFirst
    obtain ⟨hLive', hWorld'⟩ := ih hRest h
    have hEntry : (Ask.onselect t).entry = some t := rfl
    constructor
    · rw [hLive', hLive, List.filterMap_cons_some hEntry, ← Multiset.cons_coe, Multiset.cons_add,
        Multiset.add_cons]
    · rw [hWorld', hWorld]

section Invariant

variable {I : Multiset (Selection α φ ρ) → ω → Prop}

theorem callSelection_invariant (hEnters : H.Enters) (hI : H.Preserves I) {o o' : Onsel α φ ρ ω}
    {i : Nat} {s : Selection α φ ρ} (hSlot : o.selections[i]? = some s) (hs : 0 ≤ s.sdFd)
    (hOld : I o.live o.world) (h : callSelection H o i s = .ok o') : I o'.live o'.world := by
  obtain ⟨o₁, hAsks, h⟩ := map_eq_ok h
  have hEnter := hEnters s.sdFunc s.sdData o.world
  obtain ⟨hLive, hWorld⟩ := asks_live hEnter hAsks
  change o₁.live = _ + o.live at hLive
  split at h
  · next hStays =>
    cases h
    rw [hLive, hWorld]
    exact hI.stays _ _ _ (mem_inUse_iff.mpr ⟨List.mem_of_getElem? hSlot, hs⟩) hOld hStays
  · next hGoes =>
    have hStill : o₁.selections[i]? = some s := by
      obtain ⟨ds, hDoes, hMoves⟩ :=
        asks_moves (hEnters.proper.asks s.sdFunc s.sdData o.world) hAsks
      rcases hMoves.stays i s hSlot hs with hStill | hGone
      · exact hStill
      · exact absurd (asked_of_left hDoes hGone) (hEnters.proper.once s o.world hGoes)
    rw [hStill] at h
    cases h
    have hOut : o.live = s ::ₘ inUse (o.selections.set i s.unused) :=
      @release_live _ _ _ _ H o i s hSlot hs
    have hOut' : o₁.live = s ::ₘ (release H o₁ i s).live := release_live hStill hs
    rw [hOut', hOut, Multiset.add_cons] at hLive
    have hRest := (Multiset.cons_inj_right s).mp hLive
    rw [hOut] at hOld
    rw [hRest]
    change I _ (H.giveBack s o₁.world)
    rw [hWorld]
    exact hI.goes _ _ _ hOld hGoes

theorem dispatch_invariant (hEnters : H.Enters) (hI : H.Preserves I) {ready : Int → Bool}
    {turns i : Nat} {o o' : Onsel α φ ρ ω} (hOld : I o.live o.world)
    (h : dispatch H ready turns i o = .ok o') : I o'.live o'.world := by
  induction turns generalizing i o with
  | zero =>
    cases h
    exact hOld
  | succ turns ih =>
    rw [dispatch] at h
    cases hSlot : o.selections[i]? with
    | none =>
      rw [hSlot] at h
      cases h
      exact hOld
    | some s =>
      rw [hSlot] at h
      dsimp only at h
      split at h
      · exact ih hOld h
      · next hCall =>
        rw [not_or, not_lt] at hCall
        obtain ⟨o₁, hFirst, h⟩ := bind_eq_ok h
        exact ih (callSelection_invariant hEnters hI hSlot hCall.1 hOld hFirst) h

theorem tryselect_invariant (hEnters : H.Enters) (hI : H.Preserves I) {o o' : Onsel α φ ρ ω}
    {found : Option (Int → Bool)} (hOld : I o.live o.world)
    (h : tryselect H o found = .ok o') : I o'.live o'.world := by
  cases found with
  | none =>
    cases h
    exact hOld
  | some ready => exact dispatch_invariant hEnters hI hOld h

end Invariant

/-! ## Runs -/

def SelectOp.Proper : SelectOp α φ ρ → Prop
  | .ask a => a.Proper
  | .tryselect _ => True

/-- A call of `onselect` or `notonselect` puts one entry in or takes one out. A call of `tryselect`
is a pass over the table, if `select` finds anything, where every call is for an entry whose
descriptor was polled and ready. -/
def Served (H : Hooks α φ ρ ω) (o o' : Onsel α φ ρ ω) (op : SelectOp α φ ρ)
    (ds : List (Bag.Deed (Selection α φ ρ))) : Prop :=
  match op with
  | .ask a => ∃ d, ds = [d] ∧ a.Does d
  | .tryselect none => ds = []
  | .tryselect (some ready) => ∃ calls : List (Call α φ ρ ω), ds = calls.flatMap Call.deeds ∧
    Pass H (fun fd => polled o fd && ready fd) 0 o o' calls

theorem step_moves (hHooks : H.Proper) {o o' : Onsel α φ ρ ω} {op : SelectOp α φ ρ}
    (hOp : op.Proper) (hRoom : o.selections.length ≤ maxsels) (h : o.step H op = .ok o') :
    ∃ ds, Moves H o o' ds ∧ Served H o o' op ds := by
  cases op with
  | ask a =>
    obtain ⟨d, hDoes, hMoves⟩ := ask_moves hOp h
    exact ⟨[d], hMoves, d, rfl, hDoes⟩
  | tryselect found =>
    cases found with
    | none =>
      cases h
      exact ⟨[], Moves.refl _, rfl⟩
    | some ready =>
      have hLoop : dispatch H (fun fd => polled o fd && ready fd) maxsels 0 o = .ok o' := h
      obtain ⟨calls, hPass, hMoves⟩ := dispatch_passes hHooks (Nat.zero_add _) hRoom hLoop
      exact ⟨_, hMoves, calls, rfl, hPass⟩

/-- The records run out where all are in use, and a descriptor is not found where none has it. -/
structure Smokes (H : Hooks α φ ρ ω) (o : Onsel α φ ρ ω) : Prop where
  full : ∀ s, (∃ e, onselect o s = .error e) ↔ o.live.card = maxsels
  absent : ∀ fd, 0 ≤ fd → ((∃ e, notonselect H o fd = .error e) ↔ ∀ s ∈ o.live, s.sdFd ≠ fd)

theorem smokes_iff {o : Onsel α φ ρ ω} (hRoom : o.selections.length ≤ maxsels) :
    Smokes H o := by
  constructor
  · intro s
    have hLe := card_inUse_le o.selections
    constructor
    · rintro ⟨e, h⟩
      rw [onselect] at h
      split at h
      · next hNone =>
        rw [findsel] at hNone
        split at hNone
        · cases hNone
        · next hFind =>
          split at hNone
          · cases hNone
          · next hFull =>
            have hAll : ∀ s ∈ o.selections, 0 ≤ s.sdFd := by
              intro t ht
              have hUsed := List.findIdx?_eq_none_iff.mp hFind t ht
              simpa using hUsed
            rw [Onsel.live, card_inUse_eq_iff.mpr hAll]
            omega
      · cases h
    · intro hCard
      rw [Onsel.live] at hCard
      have hLength : o.selections.length = maxsels := by omega
      have hAll := card_inUse_eq_iff.mp (hCard.trans hLength.symm)
      have hNone : findsel o = none := by
        cases hFind : findsel o with
        | none => rfl
        | some ix =>
          rcases findsel_cases hFind with ⟨t, hSlot, ht⟩ | ⟨-, hSome⟩
          · have hUsed := hAll t (List.mem_of_getElem? hSlot)
            omega
          · omega
      exact ⟨_, by rw [onselect, hNone]⟩
  · intro fd hFd
    constructor
    · rintro ⟨e, h⟩ s hLive hSame
      rw [notonselect] at h
      split at h
      · next hFind =>
        have hNone := List.findIdx?_eq_none_iff.mp hFind s (mem_inUse_iff.mp hLive).1
        rw [hSame] at hNone
        simp at hNone
      · split at h <;> cases h
    · intro hAbsent
      have hFind : (o.selections.findIdx? fun s => s.sdFd = fd) = none := by
        rw [List.findIdx?_eq_none_iff]
        intro s hs
        rw [decide_eq_false_iff_not]
        intro hSame
        exact hAbsent s (mem_inUse_iff.mpr ⟨hs, hSame ▸ hFd⟩) hSame
      exact ⟨_, by rw [notonselect, hFind]⟩

variable (H) in
/-- The deeds so far are a run of a bag that the table now holds, and the rest of the program has
seen these deeds. -/
structure Kept (w : ω) (o : Onsel α φ ρ ω) : Prop where
  room : o.selections.length ≤ maxsels
  bag : Bag.Runs 0 o.deeds o.live
  world : o.world = o.deeds.foldl H.after w

theorem kept_start (w : ω) : Kept H w (Onsel.start w : Onsel α φ ρ ω) :=
  ⟨Nat.zero_le _, Bag.Runs.nil _, rfl⟩

theorem Kept.moves {w : ω} {o o' : Onsel α φ ρ ω} {ds : List (Bag.Deed (Selection α φ ρ))}
    (h : Kept H w o) (hMoves : Moves H o o' ds) : Kept H w o' where
  room := hMoves.room h.room
  bag := by
    rw [hMoves.deeds]
    exact h.bag.append hMoves.bag
  world := by rw [hMoves.deeds, List.foldl_append, ← h.world, hMoves.world]

/-- In every run, entries are put in, called while they are there, and taken out once, the rest of
the program sees exactly these calls, every hook whose descriptor is ready is called once in each
pass and taken out where it returns nonzero, and the records run out only when all are in use. -/
theorem onsel_runs (hHooks : H.Proper) {w : ω} {p : List (SelectOp α φ ρ × Onsel α φ ρ ω)}
    {o : Onsel α φ ρ ω} (hp : Path (fun o op o' => o.step H op = .ok o') (Onsel.start w) p o)
    (hOps : ∀ e ∈ p, e.1.Proper) :
    AllStates (fun o => Bag.Runs 0 o.deeds o.live ∧ o.world = o.deeds.foldl H.after w ∧
        o.live.card ≤ maxsels ∧ Smokes H o) (Onsel.start w) p ∧
      AllSteps (fun o op o' => ∃ ds, o'.deeds = o.deeds ++ ds ∧ Served H o o' op ds)
        (Onsel.start w) p := by
  have hProper : AllSteps (fun (_ : Onsel α φ ρ ω) op _ => op.Proper) (Onsel.start w) p := by
    refine AllSteps.of_labels fun _ op _ hop => ?_
    obtain ⟨e, he, rfl⟩ := List.mem_map.mp hop
    exact hOps e he
  constructor
  · have hKept : AllStates (Kept H w) (Onsel.start w) p := by
      refine hp.allStates_of_allSteps ?_ (kept_start w) hProper
      intro o op o' hKept hOp hStep
      obtain ⟨ds, hMoves, -⟩ := step_moves hHooks hOp hKept.room hStep
      exact hKept.moves hMoves
    have hEach {o : Onsel α φ ρ ω} (h : Kept H w o) :
        Bag.Runs 0 o.deeds o.live ∧ o.world = o.deeds.foldl H.after w ∧
          o.live.card ≤ maxsels ∧ Smokes H o :=
      ⟨h.bag, h.world, (card_inUse_le o.selections).trans h.room, smokes_iff h.room⟩
    exact ⟨hEach hKept.1, fun e he => hEach (hKept.2 e he)⟩
  · have hKeep : ∀ (o : Onsel α φ ρ ω) op o', Kept H w o → SelectOp.Proper op →
        o.step H op = .ok o' →
        Kept H w o' ∧ ∃ ds, o'.deeds = o.deeds ++ ds ∧ Served H o o' op ds := by
      intro o op o' hKept hOp hStep
      obtain ⟨ds, hMoves, hServed⟩ := step_moves hHooks hOp hKept.room hStep
      exact ⟨hKept.moves hMoves, ds, hMoves.deeds, hServed⟩
    exact hp.allSteps_of_invariant hKeep (kept_start w) hProper

end Table

/-- A hook that is called twice and the second time wants to go. -/
def twiceHooks : Hooks Unit Unit Unit Nat where
  func _ _ w := ⟨[], if w = 0 then 0 else -1, w + 1⟩
  rfunc _ _ w := w + 10

theorem onsel_runs_twice : ∃ (p : List (SelectOp Unit Unit Unit × Onsel Unit Unit Unit Nat)) (o : _),
    Path (fun o op o' => o.step twiceHooks op = .ok o') (Onsel.start 0) p o ∧ p.length = 3 ∧
      o.live = 0 ∧ Bag.Runs 0 o.deeds o.live ∧ o.deeds.foldl twiceHooks.after 0 = 12 := by
  let s : Selection Unit Unit Unit := ⟨5, (), (), some ()⟩
  let o₁ : Onsel Unit Unit Unit Nat := ⟨[s], 0, [.entered s]⟩
  let o₂ : Onsel Unit Unit Unit Nat := ⟨[s], 1, [.entered s, .used s]⟩
  let o₃ : Onsel Unit Unit Unit Nat := ⟨[s.unused], 12, [.entered s, .used s, .used s, .left s]⟩
  let pass : SelectOp Unit Unit Unit := .tryselect (some fun _ => true)
  have hEnter : (Onsel.start 0).step twiceHooks (.ask (.onselect s)) = .ok o₁ := rfl
  have hStay : o₁.step twiceHooks pass = .ok o₂ := rfl
  have hLeave : o₂.step twiceHooks pass = .ok o₃ := rfl
  have hHooks : twiceHooks.Proper :=
    ⟨fun _ _ _ _ h => absurd h List.not_mem_nil, fun _ _ _ h => absurd h List.not_mem_nil⟩
  have hRun : Path (fun o op o' => Onsel.step twiceHooks o op = .ok o') (Onsel.start 0) _ o₃ :=
    .cons hEnter (.cons hStay (.cons hLeave (.nil o₃)))
  have hOps : ∀ e ∈ [(SelectOp.ask (.onselect s), o₁), (pass, o₂), (pass, o₃)], e.1.Proper := by
    intro e he
    rcases List.mem_cons.mp he with rfl | he
    · exact (by decide : (0 : Int) ≤ 5)
    · rcases List.mem_cons.mp he with rfl | he
      · trivial
      · rw [List.mem_singleton.mp he]
        trivial
  obtain ⟨hBag, hWorld, -⟩ := hRun.last_state (onsel_runs hHooks hRun hOps).1
  exact ⟨_, o₃, hRun, rfl, rfl, hBag, hWorld.symm⟩

end Sys161.Main
