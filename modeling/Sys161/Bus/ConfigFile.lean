import Mathlib.Data.List.ReduceOption
import Sys161.Bus.Config
import Sys161.Lib.Decimal

/-!
# Which configurations are accepted

A configuration is a list of entries, one for each slot in use. The bus that
`bus_config` leaves is said of the entries and of the options of the command
line, without the order in which the file is gone through.
-/

namespace Sys161.Bus

open CString Disk161

set_option autoImplicit false

structure Entry where
  slot : Fin 32
  dev : BusDevice
  args : List Argument

/-- The words of a line say this. -/
inductive Entry.Reads : List Argument → Entry → Prop where
  | intro {slotWord name : Argument} {e : Entry} : slotNumber slotWord = some e.slot →
      findDev name = some e.dev → e.args.length + 2 < maxargs →
      Entry.Reads (slotWord :: name :: e.args) e

/-- The arguments that options of the command line add for a slot. -/
def extrasFor (slot : Fin 32) (extras : List Argument) : List Argument :=
  (extras.filter fun x => extraSlot x = slot.val).map extraArg

/-- Which device the entry has in which slot. -/
def Entry.use (e : Entry) : Fin 32 × DeviceInfo := (e.slot, e.dev.devInfo)

/-- The slots of one kind of device, in their order. -/
def slotsOf (dev : DeviceInfo) (uses : List (Fin 32 × DeviceInfo)) : List (Fin 32) :=
  (uses.filter fun use => use.2 = dev).map Prod.fst

section Entries

variable {δ : Type}

def BusConfig.seedAt (b : BusConfig δ) (slot : Fin 32) : Option Seed :=
  match b.devices slot with
  | some (_, .seeded seed) => some seed
  | _ => none

/-- What is left where the devices are set up in this order: the last serial device has the keys,
the last random generator its seed, and the network cards stand in their order. -/
def BusConfig.leftBy (b : BusConfig δ) (uses : List (Fin 32 × DeviceInfo)) : Globals where
  onkeydata := (slotsOf .serial uses).getLast?
  seed := ((slotsOf .random uses).filterMap b.seedAt).getLast?
  nics := slotsOf .net uses

variable (init : DeviceInfo → Fin 32 → List Argument → Except String δ)

/-- Each slot is used once and the controller sits in its own; a device gets the arguments of its
line and of the options for its slot; no option is left over, and what the devices overwrite is
what the last of them put there. -/
structure Configured (entries : List Entry) (extras : List Argument) (b : BusConfig δ) : Prop where
  slots : (entries.map Entry.slot).Nodup
  controller : ∀ e ∈ entries, e.dev.devIscontroller = decide (e.slot = lamebusControllerSlot)
  room : ∀ e ∈ entries, e.args.length + 2 + (extrasFor e.slot extras).length ≤ maxargs
  plugged : ∀ e ∈ entries, ∃ d,
    ldiInit init e.dev.devInfo e.slot (e.args ++ extrasFor e.slot extras) = .ok d ∧
      b.devices e.slot = some (e.dev.devInfo, d)
  empty : ∀ slot, slot ∉ entries.map Entry.slot → b.devices slot = none
  extras : ∀ x ∈ extras, ch ':' ∈ x ∧ ∃ e ∈ entries, extraSlot x = e.slot.val
  globals : b.globals = b.leftBy (entries.map Entry.use)
  board : ∃ dev, b.devices lamebusControllerSlot = some (dev, .board b.board)
  cpus : 1 ≤ b.board.tmpNcpus ∧ b.board.tmpNcpus ≤ 32 ∧ b.board.ncores = 1
  ram : ValidRam b.board.busRamsize.toNat

/-! ## One line -/

/-- The options that wait for a slot, in their order. -/
def waiting (slot : Fin 32) (extras : List (Option Argument)) : List Argument :=
  extrasFor slot extras.reduceOption

def dropExtra (slot : Fin 32) (extra : Option Argument) : Option Argument :=
  extra.filter fun x => extraSlot x ≠ slot.val

theorem waiting_cons_none (slot : Fin 32) (extras : List (Option Argument)) :
    waiting slot (none :: extras) = waiting slot extras := rfl

theorem waiting_cons_some (slot : Fin 32) (x : Argument) (extras : List (Option Argument)) :
    waiting slot (some x :: extras) =
      if extraSlot x = slot.val then extraArg x :: waiting slot extras else waiting slot extras := by
  rw [waiting, extrasFor, List.reduceOption_cons_of_some, List.filter_cons]
  by_cases hSlot : extraSlot x = slot.val
  · rw [if_pos (decide_eq_true hSlot), if_pos hSlot]
    rfl
  · rw [if_neg (fun h => hSlot (of_decide_eq_true h)), if_neg hSlot]
    rfl

theorem waiting_map_some (slot : Fin 32) (extras : List Argument) :
    waiting slot (extras.map some) = extrasFor slot extras := by
  rw [waiting, List.reduceOption, List.filterMap_map]
  exact congrArg _ List.filterMap_some

/-- What waits for another slot goes on waiting. -/
theorem waiting_dropExtra {slot slot' : Fin 32} (h : slot ≠ slot') (extras : List (Option Argument)) :
    waiting slot (extras.map (dropExtra slot')) = waiting slot extras := by
  induction extras with
  | nil => rfl
  | cons extra extras ih =>
    rw [List.map_cons]
    cases extra with
    | none => exact ih
    | some x =>
      by_cases hTaken : extraSlot x = slot'.val
      · have hOther : ¬ extraSlot x = slot.val := by
          intro hSame
          exact h (Fin.ext (by omega))
        have hNone : dropExtra slot' (some x) = none := by
          simp [dropExtra, hTaken]
        rw [hNone, waiting_cons_none, waiting_cons_some, if_neg hOther, ih]
      · have hSome : dropExtra slot' (some x) = some x := by
          simp [dropExtra, hTaken]
        rw [hSome, waiting_cons_some, waiting_cons_some, ih]

theorem takeExtras_eq_ok_iff {slot : Fin 32} {extras extras' : List (Option Argument)}
    {argv argv' : List Argument} (hRoom : argv.length ≤ maxargs) :
    takeExtras slot extras argv = .ok (argv', extras') ↔
      argv.length + (waiting slot extras).length ≤ maxargs ∧ argv' = argv ++ waiting slot extras ∧
        extras' = extras.map (dropExtra slot) := by
  induction extras generalizing argv argv' extras' with
  | nil =>
    have hNone : waiting slot [] = [] := rfl
    rw [takeExtras, hNone, Except.ok.injEq, Prod.mk.injEq, List.append_nil, List.map_nil]
    constructor
    · rintro ⟨rfl, rfl⟩
      exact ⟨hRoom, rfl, rfl⟩
    · rintro ⟨_, rfl, rfl⟩
      exact ⟨rfl, rfl⟩
  | cons extra extras ih =>
    have hMap {argv : List Argument} {x : Option Argument} (hRoom : argv.length ≤ maxargs) :
        (takeExtras slot extras argv).map (fun r => (r.1, x :: r.2)) = .ok (argv', extras') ↔
          argv.length + (waiting slot extras).length ≤ maxargs ∧
            argv' = argv ++ waiting slot extras ∧
            extras' = x :: extras.map (dropExtra slot) := by
      cases hTake : takeExtras slot extras argv with
      | error e =>
        refine iff_of_false (fun h => by cases h) ?_
        rintro ⟨hLength, rfl, rfl⟩
        rw [(ih hRoom).mpr ⟨hLength, rfl, rfl⟩] at hTake
        cases hTake
      | ok r =>
        obtain ⟨hLength, hArgv, hExtras⟩ := (ih hRoom).mp hTake
        change Except.ok (r.1, x :: r.2) = _ ↔ _
        rw [Except.ok.injEq, Prod.mk.injEq, hArgv, hExtras]
        exact ⟨fun h => ⟨hLength, h.1.symm, h.2.symm⟩, fun h => ⟨h.2.1.symm, h.2.2.symm⟩⟩
    cases extra with
    | none =>
      rw [takeExtras, hMap hRoom, waiting_cons_none]
      rfl
    | some x =>
      rw [takeExtras, waiting_cons_some]
      by_cases hSlot : extraSlot x = slot.val
      · have hNone : dropExtra slot (some x) = none := by
          simp [dropExtra, hSlot]
        rw [if_pos hSlot, if_pos hSlot, List.map_cons, hNone]
        by_cases hFull : argv.length ≥ maxargs
        · rw [if_pos hFull]
          refine iff_of_false (fun h => by cases h) ?_
          rintro ⟨hLength, -, -⟩
          rw [List.length_cons] at hLength
          omega
        · have hRoom' : (argv ++ [extraArg x]).length ≤ maxargs := by
            rw [List.length_append, List.length_singleton]
            omega
          rw [if_neg hFull, hMap hRoom', List.length_append, List.length_singleton,
            List.length_cons, List.append_assoc, List.singleton_append, Nat.add_assoc,
            Nat.add_comm 1]
      · have hSome : dropExtra slot (some x) = some x := by
          simp [dropExtra, hSlot]
        rw [if_neg hSlot, if_neg hSlot, hMap hRoom, List.map_cons, hSome]

/-- What the device of an entry makes of the bus and of the options that wait. -/
structure Places (s : BusConfig δ × List (Option Argument)) (e : Entry)
    (s' : BusConfig δ × List (Option Argument)) : Prop where
  free : s.1.devices e.slot = none
  controller : e.dev.devIscontroller = decide (e.slot = lamebusControllerSlot)
  room : e.args.length + 2 + (waiting e.slot s.2).length ≤ maxargs
  plugged : ∃ d, ldiInit init e.dev.devInfo e.slot (e.args ++ waiting e.slot s.2) = .ok d ∧
    s'.1 = s.1.plug e.slot e.dev.devInfo d
  left : s'.2 = s.2.map (dropExtra e.slot)

def Reading.state (r : Reading δ) : BusConfig δ × List (Option Argument) := (r.bus, r.configextra)

variable {init} {configfile : String}

/-- `configDevice` once it knows the slot and the device. -/
theorem placeDevice_iff {r r' : Reading δ} {slot : Fin 32} {dev : BusDevice} {e : String}
    {slotWord name : Argument} {args : List Argument}
    (hRoom : (slotWord :: name :: args).length ≤ maxargs) :
    (do
      let (argv, extras) ← takeExtras slot r.configextra (slotWord :: name :: args)
      if dev.devIscontroller ≠ decide (slot = lamebusControllerSlot) then throw e
      let d ← ldiInit init dev.devInfo slot (argv.drop 2)
      return { bus := r.bus.plug slot dev.devInfo d, configextra := extras, line := r.line }) =
        (.ok r' : Except String (Reading δ)) ↔
      (slotWord :: name :: args).length + (waiting slot r.configextra).length ≤ maxargs ∧
        dev.devIscontroller = decide (slot = lamebusControllerSlot) ∧
        ∃ d, ldiInit init dev.devInfo slot (args ++ waiting slot r.configextra) = .ok d ∧
          r' = { bus := r.bus.plug slot dev.devInfo d
                 configextra := r.configextra.map (dropExtra slot)
                 line := r.line } := by
  constructor
  · intro h
    obtain ⟨⟨argv, extras⟩, hTake, h⟩ := bind_eq_ok h
    obtain ⟨hLength, rfl, rfl⟩ := (takeExtras_eq_ok_iff hRoom).mp hTake
    by_cases hController : dev.devIscontroller = decide (slot = lamebusControllerSlot)
    · dsimp only at h
      rw [if_neg (not_not.mpr hController)] at h
      obtain ⟨d, hInit, h⟩ := bind_eq_ok h
      cases h
      exact ⟨hLength, hController, d, hInit, rfl⟩
    · dsimp only at h
      rw [if_pos hController] at h
      cases h
  · rintro ⟨hLength, hController, d, hInit, rfl⟩
    rw [(takeExtras_eq_ok_iff hRoom).mpr ⟨hLength, rfl, rfl⟩]
    dsimp only [bind, Except.bind]
    rw [if_neg (not_not.mpr hController)]
    change (ldiInit init dev.devInfo slot (args ++ waiting slot r.configextra)).bind _ = _
    rw [hInit]
    rfl

theorem configDevice_eq_ok_iff {r r' : Reading δ} {slotWord : Argument} {rest : List Argument}
    (hRoom : rest.length + 1 < maxargs) :
    configDevice init configfile r slotWord rest = .ok r' ↔
      ∃ e, e.Reads (slotWord :: rest) ∧ Places init r.state e r'.state ∧ r'.line = r.line := by
  have hReads {e : Entry} (h : e.Reads (slotWord :: rest)) :
      slotNumber slotWord = some e.slot ∧ ∃ name, rest = name :: e.args ∧
        findDev name = some e.dev := by
    cases h with
    | intro hSlot hDev _ => exact ⟨hSlot, _, rfl, hDev⟩
  rw [configDevice]
  cases hSlot : slotNumber slotWord with
  | none =>
    refine iff_of_false (fun h => by cases h) ?_
    rintro ⟨e, he, -⟩
    rw [hSlot] at hReads
    cases (hReads he).1
  | some slot =>
    cases rest with
    | nil =>
      refine iff_of_false (fun h => by cases h) ?_
      rintro ⟨e, he, -⟩
      obtain ⟨-, name, hRest, -⟩ := hReads he
      cases hRest
    | cons name args =>
      have hEntry {e : Entry} (h : e.Reads (slotWord :: name :: args)) :
          e.slot = slot ∧ e.args = args ∧ findDev name = some e.dev := by
        obtain ⟨hSame, name', hRest, hDev⟩ := hReads h
        rw [hSlot, Option.some.injEq] at hSame
        obtain ⟨rfl, rfl⟩ := List.cons.inj hRest
        exact ⟨hSame.symm, rfl, hDev⟩
      dsimp only
      split
      · next hUsed =>
        refine iff_of_false (fun h => by cases h) ?_
        rintro ⟨e, he, hPlaces, -⟩
        obtain ⟨rfl, -, -⟩ := hEntry he
        have hFree : r.bus.devices e.slot = none := hPlaces.free
        rw [hFree] at hUsed
        cases hUsed
      · next hUnused =>
        have hFree : r.bus.devices slot = none := by simpa using hUnused
        cases hDev : findDev name with
        | none =>
          refine iff_of_false (fun h => by cases h) ?_
          rintro ⟨e, he, -, -⟩
          obtain ⟨-, -, hSome⟩ := hEntry he
          rw [hDev] at hSome
          cases hSome
        | some dev =>
          have hRest : (slotWord :: name :: args).length ≤ maxargs := by
            rw [List.length_cons]
            omega
          rw [placeDevice_iff hRest]
          constructor
          · rintro ⟨hLength, hController, d, hInit, rfl⟩
            have hArgs : args.length + 2 < maxargs := by
              rw [List.length_cons] at hRoom
              omega
            have hReads' : Entry.Reads (slotWord :: name :: args) ⟨slot, dev, args⟩ :=
              @Entry.Reads.intro slotWord name ⟨slot, dev, args⟩ hSlot hDev hArgs
            refine ⟨⟨slot, dev, args⟩, hReads', ⟨hFree, hController, ?_, ⟨d, hInit, rfl⟩, rfl⟩, rfl⟩
            simp only [List.length_cons] at hLength
            dsimp only [Reading.state]
            omega
          · rintro ⟨e, he, hPlaces, hLine⟩
            obtain ⟨rfl, rfl, hSame⟩ := hEntry he
            rw [hDev, Option.some.injEq] at hSame
            subst hSame
            obtain ⟨d, hInit, hBus⟩ := hPlaces.plugged
            have hLeft := hPlaces.left
            have hLength := hPlaces.room
            obtain ⟨bus, extras, line⟩ := r'
            simp only [Reading.state] at hInit hBus hLeft hLength
            refine ⟨?_, hPlaces.controller, d, hInit, ?_⟩
            · simp only [List.length_cons]
              omega
            · rw [hBus, hLeft, ← hLine]

theorem configLine_eq_ok_iff {r r' : Reading δ} {buf : List (BitVec 8)} :
    configLine init configfile r buf = .ok r' ↔ r'.line = r.line + 1 ∧
      (configWords buf = [] ∧ r'.state = r.state ∨
        ∃ e, e.Reads (configWords buf) ∧ Places init r.state e r'.state) := by
  rw [configLine]
  generalize configWords buf = argv
  dsimp only
  split
  · next hFull =>
    refine iff_of_false (fun h => by cases h) ?_
    rintro ⟨-, ⟨rfl, -⟩ | ⟨e, he, -⟩⟩
    · exact absurd hFull (by decide)
    · cases he with
      | intro _ _ hRoom =>
        simp only [List.length_cons] at hFull
        omega
  · next hRoom =>
    cases argv with
    | nil =>
      obtain ⟨bus, extras, line⟩ := r'
      simp only [Except.ok.injEq, Reading.mk.injEq, Reading.state, Prod.mk.injEq]
      constructor
      · rintro ⟨rfl, rfl, rfl⟩
        exact ⟨rfl, .inl ⟨trivial, rfl, rfl⟩⟩
      · rintro ⟨rfl, ⟨-, rfl, rfl⟩ | ⟨e, he, -⟩⟩
        · exact ⟨rfl, rfl, rfl⟩
        · cases he
    | cons slotWord rest =>
      rw [List.length_cons] at hRoom
      dsimp only
      rw [configDevice_eq_ok_iff (by omega)]
      constructor
      · rintro ⟨e, he, hPlaces, hLine⟩
        exact ⟨hLine, .inr ⟨e, he, hPlaces⟩⟩
      · rintro ⟨hLine, ⟨hNil, -⟩ | ⟨e, he, hPlaces⟩⟩
        · cases hNil
        · exact ⟨e, he, hPlaces, hLine⟩

/-! ## All lines -/

variable (init) in
/-- One entry after the other. -/
def PlacesAll (s : BusConfig δ × List (Option Argument)) :
    List Entry → BusConfig δ × List (Option Argument) → Prop
  | [], s' => s' = s
  | e :: entries, s' => ∃ s₁, Places init s e s₁ ∧ PlacesAll s₁ entries s'

theorem configLines_eq_ok_iff {lines : List (List (BitVec 8))} {r : Reading δ}
    {s' : BusConfig δ × List (Option Argument)} :
    (∃ r', lines.foldlM (configLine init configfile) r = .ok r' ∧ r'.state = s') ↔
      ∃ entries, List.Forall₂ Entry.Reads ((lines.map configWords).filter (· ≠ [])) entries ∧
        PlacesAll init r.state entries s' := by
  induction lines generalizing r with
  | nil =>
    constructor
    · rintro ⟨r', h, rfl⟩
      cases h
      exact ⟨[], .nil, rfl⟩
    · rintro ⟨entries, hReads, hPlaces⟩
      cases hReads
      exact ⟨r, rfl, hPlaces.symm⟩
  | cons line lines ih =>
    have hFold : (∃ r', (line :: lines).foldlM (configLine init configfile) r = .ok r' ∧
          r'.state = s') ↔
        ∃ r₁, configLine init configfile r line = .ok r₁ ∧
          ∃ r', lines.foldlM (configLine init configfile) r₁ = .ok r' ∧ r'.state = s' := by
      constructor
      · rintro ⟨r', h, hState⟩
        obtain ⟨r₁, hFirst, h⟩ := bind_eq_ok h
        exact ⟨r₁, hFirst, r', h, hState⟩
      · rintro ⟨r₁, hFirst, r', h, hState⟩
        refine ⟨r', ?_, hState⟩
        rw [List.foldlM_cons, hFirst]
        exact h
    rw [hFold]
    simp only [ih, configLine_eq_ok_iff]
    by_cases hEmpty : configWords line = []
    · have hFilter : ((line :: lines).map configWords).filter (· ≠ []) =
          (lines.map configWords).filter (· ≠ []) := by
        rw [List.map_cons, List.filter_cons_of_neg]
        simp [hEmpty]
      rw [hFilter]
      constructor
      · rintro ⟨r₁, ⟨-, ⟨-, hSame⟩ | ⟨e, he, -⟩⟩, entries, hReads, hPlaces⟩
        · rw [hSame] at hPlaces
          exact ⟨entries, hReads, hPlaces⟩
        · rw [hEmpty] at he
          cases he
      · rintro ⟨entries, hReads, hPlaces⟩
        exact ⟨{ r with line := r.line + 1 }, ⟨rfl, .inl ⟨hEmpty, rfl⟩⟩, entries, hReads, hPlaces⟩
    · have hFilter : ((line :: lines).map configWords).filter (· ≠ []) =
          configWords line :: (lines.map configWords).filter (· ≠ []) := by
        rw [List.map_cons, List.filter_cons_of_pos]
        simp [hEmpty]
      rw [hFilter]
      constructor
      · rintro ⟨r₁, ⟨-, ⟨hNil, -⟩ | ⟨e, he, hFirst⟩⟩, entries, hReads, hPlaces⟩
        · exact absurd hNil hEmpty
        · exact ⟨e :: entries, .cons he hReads, r₁.state, hFirst, hPlaces⟩
      · rintro ⟨entries, hReads, hPlaces⟩
        cases hReads with
        | cons he hReads =>
          obtain ⟨s₁, hFirst, hPlaces⟩ := hPlaces
          exact ⟨⟨s₁.1, s₁.2, r.line + 1⟩, ⟨rfl, .inr ⟨_, he, hFirst⟩⟩, _, hReads, hPlaces⟩

/-! ## What is left of those before -/

def Globals.andThen (g g' : Globals) : Globals where
  onkeydata := g'.onkeydata.or g.onkeydata
  seed := g'.seed.or g.seed
  nics := g.nics ++ g'.nics

theorem Globals.andThen_assoc (g g' g'' : Globals) :
    (g.andThen g').andThen g'' = g.andThen (g'.andThen g'') := by
  simp only [Globals.andThen, Option.or_assoc, List.append_assoc]

theorem Globals.andThen_leftBy_nil (g : Globals) (b : BusConfig δ) :
    g.andThen (b.leftBy []) = g := by
  rw [Globals.andThen]
  exact Globals.ext rfl rfl (List.append_nil g.nics)

theorem zeroed_andThen (g : Globals) : (BusConfig.zeroed δ).globals.andThen g = g :=
  Globals.ext (Option.or_none) (Option.or_none) rfl

theorem slotsOf_append (dev : DeviceInfo) (uses uses' : List (Fin 32 × DeviceInfo)) :
    slotsOf dev (uses ++ uses') = slotsOf dev uses ++ slotsOf dev uses' := by
  rw [slotsOf, List.filter_append, List.map_append]
  rfl

theorem leftBy_append (b : BusConfig δ) (uses uses' : List (Fin 32 × DeviceInfo)) :
    b.leftBy (uses ++ uses') = (b.leftBy uses).andThen (b.leftBy uses') := by
  simp only [BusConfig.leftBy, Globals.andThen, slotsOf_append, List.filterMap_append,
    List.getLast?_append]

/-- What one device leaves is in its slot. -/
theorem leftBy_congr {b b' : BusConfig δ} {uses : List (Fin 32 × DeviceInfo)}
    (h : ∀ use ∈ uses, b.devices use.1 = b'.devices use.1) : b.leftBy uses = b'.leftBy uses := by
  have hSeeds : (slotsOf .random uses).filterMap b.seedAt =
      (slotsOf .random uses).filterMap b'.seedAt := by
    refine List.filterMap_congr fun slot hSlot => ?_
    obtain ⟨use, hUse, rfl⟩ := List.mem_map.mp hSlot
    rw [BusConfig.seedAt, BusConfig.seedAt, h use (List.mem_of_mem_filter hUse)]
  rw [BusConfig.leftBy, BusConfig.leftBy, hSeeds]

/-! ## The entries together -/

variable (init) in
/-- What the entries make of the bus and the options, whatever their order. -/
structure Placed (s : BusConfig δ × List (Option Argument)) (entries : List Entry)
    (s' : BusConfig δ × List (Option Argument)) : Prop where
  slots : (entries.map Entry.slot).Nodup
  free : ∀ e ∈ entries, s.1.devices e.slot = none
  controller : ∀ e ∈ entries, e.dev.devIscontroller = decide (e.slot = lamebusControllerSlot)
  room : ∀ e ∈ entries, e.args.length + 2 + (waiting e.slot s.2).length ≤ maxargs
  plugged : ∀ e ∈ entries, ∃ d,
    ldiInit init e.dev.devInfo e.slot (e.args ++ waiting e.slot s.2) = .ok d ∧
      s'.1.devices e.slot = some (e.dev.devInfo, d)
  other : ∀ slot, slot ∉ entries.map Entry.slot → s'.1.devices slot = s.1.devices slot
  left : s'.2 = s.2.map fun extra =>
    extra.filter fun x => ∀ e ∈ entries, extraSlot x ≠ e.slot.val
  globals : s'.1.globals = s.1.globals.andThen (s'.1.leftBy (entries.map Entry.use))
  board : (∃ dev c, s'.1.devices lamebusControllerSlot = some (dev, .board c) ∧ s'.1.board = c ∧
      lamebusControllerSlot ∈ entries.map Entry.slot) ∨
    s'.1.board = s.1.board ∧ lamebusControllerSlot ∉ entries.map Entry.slot

theorem mem_devtable {name : Argument} {dev : BusDevice} (h : findDev name = some dev) :
    dev ∈ devtable :=
  List.mem_of_find?_eq_some h

theorem ldiInit_controller {dev : BusDevice} (hDev : dev ∈ devtable) {slot : Fin 32}
    {args : List Argument} {d : Devdata δ} (h : ldiInit init dev.devInfo slot args = .ok d) :
    (dev.devIscontroller = true ∧ ∃ c, d = .board c) ∨
      (dev.devIscontroller = false ∧ ∀ c, d ≠ .board c) := by
  have hKinds : ∀ dev ∈ devtable, dev.devIscontroller =
      decide (dev.devInfo = .oldmainboard ∨ dev.devInfo = .mainboard) := by
    decide
  rw [hKinds dev hDev]
  revert h
  cases dev.devInfo <;> intro h <;> obtain ⟨_, _, rfl⟩ := map_eq_ok h
  case oldmainboard | mainboard => exact .inl ⟨rfl, _, rfl⟩
  all_goals exact .inr ⟨rfl, fun c h => by cases h⟩

/-- Only a random generator has a seed. -/
theorem ldiInit_seeded {dev : DeviceInfo} {slot : Fin 32} {args : List Argument} {d : Devdata δ}
    (h : ldiInit init dev slot args = .ok d) : dev = .random ↔ ∃ seed, d = .seeded seed := by
  revert h
  cases dev <;> intro h <;> obtain ⟨_, _, rfl⟩ := map_eq_ok h
  case random => exact iff_of_true rfl ⟨_, rfl⟩
  all_goals exact iff_of_false (by decide) fun ⟨_, h⟩ => by cases h

theorem filter_dropExtra (slot : Fin 32) (p : Argument → Bool) (extra : Option Argument) :
    (dropExtra slot extra).filter p = extra.filter fun x => extraSlot x ≠ slot.val && p x := by
  cases extra with
  | none => rfl
  | some x => simp [dropExtra]

theorem plug_self (b : BusConfig δ) (slot : Fin 32) (dev : DeviceInfo) (d : Devdata δ) :
    (b.plug slot dev d).devices slot = some (dev, d) := if_pos rfl

theorem plug_other (b : BusConfig δ) {slot slot' : Fin 32} (h : slot' ≠ slot) (dev : DeviceInfo)
    (d : Devdata δ) : (b.plug slot dev d).devices slot' = b.devices slot' := if_neg h

theorem plug_board (b : BusConfig δ) (slot : Fin 32) (dev : DeviceInfo) {d : Devdata δ}
    (h : ∀ c, d ≠ .board c) : (b.plug slot dev d).board = b.board := by
  cases d with
  | board c => exact absurd rfl (h c)
  | seeded seed => rfl
  | other o => rfl

/-- A device that is plugged in leaves what `leftBy` says of it alone. -/
theorem plug_globals {dev : DeviceInfo} {slot : Fin 32} {args : List Argument} {d : Devdata δ}
    (h : ldiInit init dev slot args = .ok d) (b : BusConfig δ) :
    (b.plug slot dev d).globals =
      b.globals.andThen ((b.plug slot dev d).leftBy [(slot, dev)]) := by
  have hSeeded := ldiInit_seeded h
  apply Globals.ext
  · change (if dev = .serial then some slot else b.globals.onkeydata) =
      (slotsOf .serial [(slot, dev)]).getLast?.or b.globals.onkeydata
    by_cases hDev : dev = .serial <;> simp [slotsOf, hDev]
  · change _ = (((slotsOf .random [(slot, dev)]).filterMap _).getLast?).or b.globals.seed
    by_cases hDev : dev = .random
    · obtain ⟨seed, rfl⟩ := hSeeded.mp hDev
      have hSeed : (b.plug slot dev (.seeded seed)).seedAt slot = some seed := by
        rw [BusConfig.seedAt, plug_self]
      have hSlots : slotsOf .random [(slot, dev)] = [slot] := by
        simp [slotsOf, hDev]
      rw [hSlots, List.filterMap_cons_some hSeed]
      rfl
    · cases d with
      | seeded seed => exact absurd (hSeeded.mpr ⟨seed, rfl⟩) hDev
      | board c => simp [slotsOf, hDev, BusConfig.plug, Globals.setUp]
      | other o => simp [slotsOf, hDev, BusConfig.plug, Globals.setUp]
  · change (if dev = .net then b.globals.nics ++ [slot] else b.globals.nics) =
      b.globals.nics ++ slotsOf .net [(slot, dev)]
    by_cases hDev : dev = .net <;> simp [slotsOf, hDev]

/-- What a device leaves first, and those after it, is what they leave together. -/
theorem plug_andThen {dev : DeviceInfo} {slot : Fin 32} {args : List Argument} {d : Devdata δ}
    (h : ldiInit init dev slot args = .ok d) (b : BusConfig δ) {b' : BusConfig δ}
    (hSelf : b'.devices slot = some (dev, d)) (uses : List (Fin 32 × DeviceInfo)) :
    (b.plug slot dev d).globals.andThen (b'.leftBy uses) =
      b.globals.andThen (b'.leftBy ((slot, dev) :: uses)) := by
  have hSame : (b.plug slot dev d).leftBy [(slot, dev)] = b'.leftBy [(slot, dev)] := by
    apply leftBy_congr
    intro use hUse
    rw [List.mem_singleton.mp hUse, plug_self, hSelf]
  rw [plug_globals h, hSame, Globals.andThen_assoc, ← leftBy_append, List.singleton_append]

theorem Places.slot_ne {s s₁ : BusConfig δ × List (Option Argument)} {e e' : Entry}
    (h : Places init s e s₁) (hFree : s₁.1.devices e'.slot = none) : e'.slot ≠ e.slot := by
  obtain ⟨d, -, hBus⟩ := h.plugged
  intro hSame
  rw [hBus, hSame, plug_self] at hFree
  cases hFree

theorem Placed.cons {s s₁ s' : BusConfig δ × List (Option Argument)} {e : Entry}
    {entries : List Entry} (hDev : e.dev ∈ devtable) (h : Places init s e s₁)
    (hAll : Placed init s₁ entries s') : Placed init s (e :: entries) s' := by
  obtain ⟨d, hInit, hBus⟩ := h.plugged
  have hNe : ∀ e' ∈ entries, e'.slot ≠ e.slot := fun e' he' => h.slot_ne (hAll.free e' he')
  have hNotMem : e.slot ∉ entries.map Entry.slot := by
    intro hMem
    obtain ⟨e', he', hSame⟩ := List.mem_map.mp hMem
    exact hNe e' he' hSame
  have hSelf : s₁.1.devices e.slot = some (e.dev.devInfo, d) := by
    rw [hBus, plug_self]
  have hOther {slot : Fin 32} (hSlot : slot ≠ e.slot) : s₁.1.devices slot = s.1.devices slot := by
    rw [hBus, plug_other _ hSlot]
  have hWaiting {e' : Entry} (he' : e' ∈ entries) :
      waiting e'.slot s₁.2 = waiting e'.slot s.2 := by
    rw [h.left, waiting_dropExtra (hNe e' he')]
  constructor
  · exact List.nodup_cons.mpr ⟨hNotMem, hAll.slots⟩
  · intro e' he'
    rcases List.mem_cons.mp he' with rfl | he'
    · exact h.free
    · rw [← hOther (hNe e' he')]
      exact hAll.free e' he'
  · intro e' he'
    rcases List.mem_cons.mp he' with rfl | he'
    · exact h.controller
    · exact hAll.controller e' he'
  · intro e' he'
    rcases List.mem_cons.mp he' with rfl | he'
    · exact h.room
    · rw [← hWaiting he']
      exact hAll.room e' he'
  · intro e' he'
    rcases List.mem_cons.mp he' with rfl | he'
    · exact ⟨d, hInit, by rw [hAll.other _ hNotMem, hSelf]⟩
    · rw [← hWaiting he']
      exact hAll.plugged e' he'
  · intro slot hSlot
    rw [List.map_cons, List.mem_cons, not_or] at hSlot
    rw [hAll.other slot hSlot.2, hOther hSlot.1]
  · rw [hAll.left, h.left, List.map_map]
    refine List.map_congr_left fun extra _ => ?_
    rw [Function.comp_apply, filter_dropExtra]
    congr 1
    funext x
    simp
  · rw [hAll.globals, hBus, plug_andThen hInit s.1 (by rw [hAll.other _ hNotMem, hSelf])]
    rfl
  · rcases ldiInit_controller hDev hInit with ⟨hYes, c, rfl⟩ | ⟨hNo, hNone⟩
    · have hSlot : lamebusControllerSlot = e.slot :=
        (of_decide_eq_true (h.controller.symm.trans hYes)).symm
      rcases hAll.board with ⟨_, _, _, _, hMem⟩ | ⟨hBoard, _⟩
      · exact absurd (hSlot ▸ hMem) hNotMem
      · refine .inl ⟨e.dev.devInfo, c, ?_, ?_, ?_⟩
        · rw [hSlot, hAll.other _ hNotMem, hSelf]
        · rw [hBoard, hBus]
          rfl
        · rw [hSlot]
          exact List.mem_cons_self
    · have hSlot : e.slot ≠ lamebusControllerSlot :=
        of_decide_eq_false (h.controller.symm.trans hNo)
      have hSame : s₁.1.board = s.1.board := by
        rw [hBus, plug_board s.1 _ _ hNone]
      rcases hAll.board with ⟨dev, c, hDevice, hBoard, hMem⟩ | ⟨hBoard, hNone⟩
      · exact .inl ⟨dev, c, hDevice, hBoard, List.mem_cons_of_mem _ hMem⟩
      · refine .inr ⟨hBoard.trans hSame, ?_⟩
        rw [List.map_cons, List.mem_cons, not_or]
        exact ⟨hSlot.symm, hNone⟩

theorem Placed.uncons {s s' : BusConfig δ × List (Option Argument)} {e : Entry}
    {entries : List Entry} (hDev : e.dev ∈ devtable) (h : Placed init s (e :: entries) s') :
    ∃ s₁, Places init s e s₁ ∧ Placed init s₁ entries s' := by
  obtain ⟨d, hInit, hSelf⟩ := h.plugged e List.mem_cons_self
  obtain ⟨hNotMem, hSlots⟩ := List.nodup_cons.mp h.slots
  have hMem {e' : Entry} (he' : e' ∈ entries) : e' ∈ e :: entries := List.mem_cons_of_mem e he'
  have hNe : ∀ e' ∈ entries, e'.slot ≠ e.slot := by
    intro e' he' hSame
    exact hNotMem (hSame ▸ List.mem_map_of_mem he')
  have hController := h.controller e List.mem_cons_self
  refine ⟨(s.1.plug e.slot e.dev.devInfo d, s.2.map (dropExtra e.slot)),
    ⟨h.free e List.mem_cons_self, hController, h.room e List.mem_cons_self, ⟨d, hInit, rfl⟩, rfl⟩, ?_⟩
  constructor
  · exact hSlots
  · intro e' he'
    rw [plug_other _ (hNe e' he')]
    exact h.free e' (hMem he')
  · exact fun e' he' => h.controller e' (hMem he')
  · intro e' he'
    rw [waiting_dropExtra (hNe e' he')]
    exact h.room e' (hMem he')
  · intro e' he'
    rw [waiting_dropExtra (hNe e' he')]
    exact h.plugged e' (hMem he')
  · intro slot hSlot
    by_cases hSame : slot = e.slot
    · rw [hSame, plug_self, hSelf]
    · rw [plug_other _ hSame]
      apply h.other
      rw [List.map_cons, List.mem_cons, not_or]
      exact ⟨hSame, hSlot⟩
  · rw [h.left, List.map_map]
    refine List.map_congr_left fun extra _ => ?_
    rw [Function.comp_apply, filter_dropExtra]
    congr 1
    funext x
    simp
  · rw [h.globals, plug_andThen hInit s.1 hSelf]
    rfl
  · rcases ldiInit_controller hDev hInit with ⟨hYes, c, rfl⟩ | ⟨hNo, hOther⟩
    · have hSlot : lamebusControllerSlot = e.slot :=
        (of_decide_eq_true (hController.symm.trans hYes)).symm
      rcases h.board with ⟨dev, c', hDevice, hBoard, _⟩ | ⟨_, hNone⟩
      · rw [hSlot, hSelf] at hDevice
        cases hDevice
        exact .inr ⟨hBoard, hSlot ▸ hNotMem⟩
      · rw [hSlot] at hNone
        exact absurd List.mem_cons_self hNone
    · have hSlot : e.slot ≠ lamebusControllerSlot :=
        of_decide_eq_false (hController.symm.trans hNo)
      rcases h.board with ⟨dev, c, hDevice, hBoard, hIn⟩ | ⟨hBoard, hNone⟩
      · refine .inl ⟨dev, c, hDevice, hBoard, ?_⟩
        rcases List.mem_cons.mp hIn with hSame | hIn
        · exact absurd hSame.symm hSlot
        · exact hIn
      · rw [List.map_cons, List.mem_cons, not_or] at hNone
        exact .inr ⟨hBoard.trans (plug_board s.1 _ _ hOther).symm, hNone.2⟩

theorem placesAll_iff {s s' : BusConfig δ × List (Option Argument)} {entries : List Entry}
    (hTable : ∀ e ∈ entries, e.dev ∈ devtable) :
    PlacesAll init s entries s' ↔ Placed init s entries s' := by
  induction entries generalizing s with
  | nil =>
    have hKeep (extra : Option Argument) :
        (extra.filter fun x => ∀ e ∈ ([] : List Entry), extraSlot x ≠ e.slot.val) = extra := by
      cases extra <;> simp
    constructor
    · rintro rfl
      refine ⟨List.nodup_nil, by simp, by simp, by simp, by simp, fun _ _ => rfl, ?_,
        (Globals.andThen_leftBy_nil _ _).symm, .inr ⟨rfl, List.not_mem_nil⟩⟩
      simp only [hKeep, List.map_id']
    · intro h
      have hDevices : s'.1.devices = s.1.devices := funext fun slot => h.other slot (by simp)
      have hBoard : s'.1.board = s.1.board := by
        rcases h.board with ⟨_, _, _, _, hIn⟩ | ⟨hBoard, _⟩
        · cases hIn
        · exact hBoard
      have hGlobals := h.globals.trans (Globals.andThen_leftBy_nil _ _)
      have hLeft := h.left
      simp only [hKeep, List.map_id'] at hLeft
      exact Prod.ext (BusConfig.ext hDevices hBoard hGlobals) hLeft
  | cons e entries ih =>
    have hDev := hTable e List.mem_cons_self
    have hRest : ∀ e' ∈ entries, e'.dev ∈ devtable := fun e' he' =>
      hTable e' (List.mem_cons_of_mem e he')
    constructor
    · rintro ⟨s₁, hFirst, hAll⟩
      exact Placed.cons hDev hFirst ((ih hRest).mp hAll)
    · intro h
      obtain ⟨s₁, hFirst, hAll⟩ := h.uncons hDev
      exact ⟨s₁, hFirst, (ih hRest).mpr hAll⟩

/-! ## The whole file -/

theorem checkExtra_eq_ok_iff {x : Argument} :
    checkExtra x = .ok () ↔ ch ':' ∈ x ∧ 0 ≤ extraSlot x ∧ extraSlot x < 32 := by
  rw [checkExtra]
  split
  · next hNone => exact iff_of_false (fun h => by cases h) (fun h => hNone h.1)
  · next hColon =>
    have hSlots : (lamebusNslots : Int) = 32 := rfl
    split
    · next hOut => exact iff_of_false (fun h => by cases h) (by omega)
    · next hIn => exact iff_of_true rfl ⟨not_not.mp hColon, by omega⟩

theorem forM_checkExtra_iff {extras : List Argument} :
    extras.forM checkExtra = .ok () ↔
      ∀ x ∈ extras, ch ':' ∈ x ∧ 0 ≤ extraSlot x ∧ extraSlot x < 32 := by
  induction extras with
  | nil => exact iff_of_true rfl fun x hx => absurd hx List.not_mem_nil
  | cons x extras ih =>
    rw [List.forall_mem_cons, ← ih, ← checkExtra_eq_ok_iff]
    change (checkExtra x).bind (fun _ => extras.forM checkExtra) = _ ↔ _
    cases checkExtra x with
    | error e => exact iff_of_false (fun h => by cases h) fun h => by cases h.1
    | ok u => exact ⟨fun h => ⟨rfl, h⟩, fun h => h.2⟩

theorem commonmainboardInit_cpus {isold : Bool} {args : List Argument} {c : MainboardConfig}
    (h : commonmainboardInit isold args = .ok c) :
    1 ≤ c.tmpNcpus ∧ c.tmpNcpus ≤ 32 ∧ c.ncores = 1 := by
  obtain ⟨c', -, hChecked⟩ := bind_eq_ok h
  unfold cpusChecked at hChecked
  split at hChecked
  · cases hChecked
  · next hSome =>
    split at hChecked
    · cases hChecked
    · next hOne =>
      split at hChecked
      · cases hChecked
      · next hFew =>
        cases hChecked
        bv_omega

theorem ldiInit_cpus {dev : DeviceInfo} {slot : Fin 32} {args : List Argument}
    {c : MainboardConfig} (h : ldiInit init dev slot args = .ok (.board c)) :
    1 ≤ c.tmpNcpus ∧ c.tmpNcpus ≤ 32 ∧ c.ncores = 1 := by
  revert h
  cases dev <;> intro h <;> obtain ⟨a, ha, hSame⟩ := map_eq_ok h
  case oldmainboard | mainboard =>
    cases hSame
    exact commonmainboardInit_cpus ha
  all_goals cases hSame

/-- The lines of a file that are not blank. -/
def configLines (f : List (BitVec 8)) : List (List Argument) :=
  ((fgetsAll f.length f).map configWords).filter (· ≠ [])

theorem left_eq_nil_iff {extras : List Argument} {entries : List Entry} :
    ((extras.map some).map fun extra =>
        extra.filter fun x => ∀ e ∈ entries, extraSlot x ≠ e.slot.val).reduceOption = [] ↔
      ∀ x ∈ extras, ∃ e ∈ entries, extraSlot x = e.slot.val := by
  induction extras with
  | nil => exact iff_of_true rfl fun x hx => absurd hx List.not_mem_nil
  | cons x extras ih =>
    rw [List.forall_mem_cons, ← ih, List.map_cons, List.map_cons]
    by_cases hTaken : ∃ e ∈ entries, extraSlot x = e.slot.val
    · have hNone : (some x).filter (fun x => decide (∀ e ∈ entries, extraSlot x ≠ e.slot.val)) =
          none := by
        rw [Option.filter_some, if_neg]
        simpa using hTaken
      rw [hNone, List.reduceOption_cons_of_none]
      exact (and_iff_right hTaken).symm
    · have hSome : (some x).filter (fun x => decide (∀ e ∈ entries, extraSlot x ≠ e.slot.val)) =
          some x := by
        rw [Option.filter_some, if_pos]
        simpa using hTaken
      rw [hSome, List.reduceOption_cons_of_some]
      exact iff_of_false (List.cons_ne_nil _ _) fun h => hTaken h.1

theorem reads_devtable {lines : List (List Argument)} {entries : List Entry}
    (h : List.Forall₂ Entry.Reads lines entries) : ∀ e ∈ entries, e.dev ∈ devtable := by
  induction h with
  | nil => exact fun e he => absurd he List.not_mem_nil
  | cons hHead _ ih =>
    refine List.forall_mem_cons.mpr ⟨?_, ih⟩
    cases hHead with
    | intro _ hDev _ => exact mem_devtable hDev

/-- The run over the file, apart from what the lines are. -/
theorem configured_iff {entries : List Entry} {extras : List Argument} {b : BusConfig δ} :
    Configured init entries extras b ↔
      (∀ x ∈ extras, ch ':' ∈ x ∧ 0 ≤ extraSlot x ∧ extraSlot x < 32) ∧
        ∃ left, Placed init (BusConfig.zeroed δ, extras.map some) entries (b, left) ∧
          left.reduceOption = [] ∧ ValidRam b.board.busRamsize.toNat := by
  constructor
  · intro h
    refine ⟨fun x hx => ?_, _, ⟨h.slots, fun _ _ => rfl, h.controller, ?_, ?_, h.empty, rfl, ?_, ?_⟩,
      left_eq_nil_iff.mpr fun x hx => (h.extras x hx).2, h.ram⟩
    · obtain ⟨hColon, e, -, hSlot⟩ := h.extras x hx
      have hBound := e.slot.isLt
      exact ⟨hColon, by omega⟩
    · intro e he
      rw [waiting_map_some]
      exact h.room e he
    · intro e he
      rw [waiting_map_some]
      exact h.plugged e he
    · exact h.globals.trans (zeroed_andThen _).symm
    · obtain ⟨dev, hDevice⟩ := h.board
      refine .inl ⟨dev, _, hDevice, rfl, ?_⟩
      by_contra hNone
      rw [h.empty _ hNone] at hDevice
      cases hDevice
  · rintro ⟨hExtras, left, h, hLeft, hRam⟩
    have hPlugged := h.plugged
    have hRoom := h.room
    simp only [waiting_map_some] at hPlugged hRoom
    have hAll : left = _ := h.left
    rw [hAll] at hLeft
    have hTaken := left_eq_nil_iff.mp hLeft
    obtain ⟨dev, c, hDevice, rfl, hIn⟩ | ⟨hBoard, -⟩ := h.board
    · refine ⟨h.slots, h.controller, hRoom, hPlugged, h.other,
        fun x hx => ⟨(hExtras x hx).1, hTaken x hx⟩, h.globals.trans (zeroed_andThen _),
        ⟨dev, hDevice⟩, ?_, hRam⟩
      obtain ⟨e, he, hSlot⟩ := List.mem_map.mp hIn
      obtain ⟨d, hInit, hSelf⟩ := hPlugged e he
      rw [hSlot, hDevice] at hSelf
      cases hSelf
      exact ldiInit_cpus hInit
    · have hZero : b.board = (BusConfig.zeroed δ).board := hBoard
      rw [hZero] at hRam
      have hNone : ¬ (0 : Int) < ((0 : BitVec 32).toNat : Int) := by decide
      exact absurd hRam.1 hNone

variable (init) in
/-- The entries one after the other, and the checks in front of and behind them. -/
def RunsThrough (entries : List Entry) (extras : List Argument) (b : BusConfig δ) : Prop :=
  (∀ x ∈ extras, ch ':' ∈ x ∧ 0 ≤ extraSlot x ∧ extraSlot x < 32) ∧
    ∃ left, PlacesAll init (BusConfig.zeroed δ, extras.map some) entries (b, left) ∧
      left.reduceOption = [] ∧ ValidRam b.board.busRamsize.toNat

theorem runsThrough_iff {lines : List (List Argument)} {entries : List Entry}
    (hReads : List.Forall₂ Entry.Reads lines entries) {extras : List Argument} {b : BusConfig δ} :
    RunsThrough init entries extras b ↔ Configured init entries extras b := by
  simp only [RunsThrough, placesAll_iff (reads_devtable hReads), configured_iff]

theorem busConfigFile_eq_ok_iff {extras : List Argument} {f : List (BitVec 8)}
    {b : BusConfig δ} :
    busConfigFile init configfile extras (some f) = .ok b ↔
      ∃ entries, List.Forall₂ Entry.Reads (configLines f) entries ∧
        RunsThrough init entries extras b := by
  let r₀ : Reading δ :=
    { bus := BusConfig.zeroed δ, configextra := extras.map some, line := 0 }
  have hRun : busConfigFile init configfile extras (some f) = .ok b ↔
      extras.forM checkExtra = .ok () ∧ ∃ left,
        (∃ r, (fgetsAll f.length f).foldlM (configLine init configfile) r₀ = .ok r ∧
          r.state = (b, left)) ∧ left.reduceOption = [] ∧ ValidRam b.board.busRamsize.toNat := by
    constructor
    · intro h
      obtain ⟨_, hExtras, h⟩ := bind_eq_ok h
      obtain ⟨r, hFold, h⟩ := bind_eq_ok h
      split at h
      · cases h
      · next hLeft =>
        obtain ⟨c, hRam, h⟩ := bind_eq_ok h
        cases h
        exact ⟨hExtras, r.configextra, ⟨r, hFold, rfl⟩, hLeft, (ramChecked_eq_ok_iff.mp hRam).2⟩
    · rintro ⟨hExtras, left, ⟨r, hFold, hState⟩, hLeft, hRam⟩
      obtain ⟨rfl, rfl⟩ := Prod.mk.inj hState
      rw [busConfigFile, hExtras]
      dsimp only [bind, Except.bind]
      rw [hFold]
      dsimp only
      rw [hLeft, ramChecked_eq_ok_iff.mpr ⟨rfl, hRam⟩]
      rfl
  rw [hRun, forM_checkExtra_iff]
  simp only [configLines_eq_ok_iff]
  constructor
  · rintro ⟨hExtras, left, ⟨entries, hReads, hPlaces⟩, hLeft, hRam⟩
    exact ⟨entries, hReads, hExtras, left, hPlaces, hLeft, hRam⟩
  · rintro ⟨entries, hReads, hExtras, left, hPlaces, hLeft, hRam⟩
    exact ⟨hExtras, left, ⟨entries, hReads, hPlaces⟩, hLeft, hRam⟩

/-- `bus_config` accepts a file and leaves a bus exactly where the lines of the file are entries
that, with the options of the command line, make up a configuration with this bus. -/
theorem bus_config (init : DeviceInfo → Fin 32 → List Argument → Except String δ)
    (configfile : String) (extras : List Argument) (f : List (BitVec 8)) (b : BusConfig δ) :
    busConfigFile init configfile extras (some f) = .ok b ↔
      ∃ entries, List.Forall₂ Entry.Reads (configLines f) entries ∧
        Configured init entries extras b := by
  rw [busConfigFile_eq_ok_iff]
  constructor
  · rintro ⟨entries, hReads, h⟩
    exact ⟨entries, hReads, (runsThrough_iff hReads).mp h⟩
  · rintro ⟨entries, hReads, h⟩
    exact ⟨entries, hReads, (runsThrough_iff hReads).mpr h⟩

end Entries

end Sys161.Bus
