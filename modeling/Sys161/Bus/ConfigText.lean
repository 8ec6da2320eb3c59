import Mathlib.Data.List.Perm.Basic
import Mathlib.Data.List.TakeWhile
import Sys161.Bus.ConfigFile
import Sys161.Lib.Attempt
import Sys161.Lib.Words

/-!
# Configuration files that are written down

A configuration is written one line for each entry, and `bus_config` reads it
back.
-/

namespace Sys161.Bus

open CString

set_option autoImplicit false

def Entry.words (e : Entry) : List Argument := decimal e.slot.val :: e.dev.devName :: e.args

def Entry.print (e : Entry) : List (BitVec 8) := wordLine (ch ' ') eol e.words

/-- A character that may stand in an argument. -/
def Plain (c : BitVec 8) : Prop := isBlank c = false ∧ c ≠ ch '#' ∧ c ≠ 0

instance (c : BitVec 8) : Decidable (Plain c) := inferInstanceAs (Decidable (_ ∧ _))

structure Entry.Printable (e : Entry) : Prop where
  dev : e.dev ∈ devtable
  args : ∀ arg ∈ e.args, arg ≠ [] ∧ ∀ c ∈ arg, Plain c
  count : e.args.length + 2 < maxargs
  fits : e.print.length < configBufsize

theorem plain_decimal : ∀ slot : Fin 32, ∀ c ∈ decimal slot.val, Plain c := by
  decide +kernel

theorem plain_devName : ∀ dev ∈ devtable, dev.devName ≠ [] ∧ ∀ c ∈ dev.devName, Plain c := by
  decide

theorem findDev_devName : ∀ dev ∈ devtable, findDev dev.devName = some dev := by
  decide

theorem slotNumber_decimal : ∀ slot : Fin 32, slotNumber (decimal slot.val) = some slot := by
  decide +kernel

theorem fgets_line {body : List (BitVec 8)} (hBody : ∀ c ∈ body, c ≠ eol) (rest : List (BitVec 8))
    {room : Nat} (hRoom : body.length < room) :
    fgets room (body ++ eol :: rest) = (body ++ [eol], rest) := by
  induction body generalizing room with
  | nil =>
    obtain ⟨room, rfl⟩ : ∃ k, room = k + 1 := ⟨room - 1, by rw [List.length_nil] at hRoom; omega⟩
    rw [List.nil_append, fgets, if_pos rfl]
    rfl
  | cons c body ih =>
    rw [List.length_cons] at hRoom
    obtain ⟨room, rfl⟩ : ∃ k, room = k + 1 := ⟨room - 1, by omega⟩
    have hFirst := hBody c List.mem_cons_self
    have hRest : ∀ c ∈ body, c ≠ eol := fun d hd => hBody d (List.mem_cons_of_mem c hd)
    rw [List.cons_append, fgets, if_neg hFirst, ih hRest (by omega)]
    rfl

/-- The words of a line settle what it says. -/
theorem Entry.Reads.unique {ws : List Argument} {e e' : Entry} (h : e.Reads ws)
    (h' : e'.Reads ws) : e = e' := by
  cases h with
  | intro hSlot hDev _ =>
    obtain ⟨slot, dev, args⟩ := e
    obtain ⟨slot', dev', args'⟩ := e'
    cases h' with
    | intro hSlot' hDev' _ =>
      rw [hSlot, Option.some.injEq] at hSlot'
      rw [hDev, Option.some.injEq] at hDev'
      dsimp only at hSlot' hDev'
      rw [hSlot', hDev']

theorem Entry.print_ne_nil (e : Entry) : e.print ≠ [] := by
  obtain ⟨body, hBody, -⟩ := exists_wordLine (ch ' ') eol e.words
  rw [Entry.print, hBody]
  simp

section Printable

variable {e : Entry} (he : e.Printable)

include he

theorem Entry.Printable.words : ∀ w ∈ e.words, w ≠ [] ∧ ∀ c ∈ w, Plain c := by
  intro w hw
  rcases List.mem_cons.mp hw with rfl | hw
  · obtain ⟨c, l, hDecimal, _⟩ := decimal_cons e.slot.val
    refine ⟨?_, plain_decimal e.slot⟩
    rw [hDecimal]
    exact List.cons_ne_nil _ _
  · rcases List.mem_cons.mp hw with rfl | hw
    · exact plain_devName e.dev he.dev
    · exact he.args w hw

theorem Entry.Printable.reads : e.Reads e.words :=
  .intro (slotNumber_decimal e.slot) (findDev_devName e.dev he.dev) he.count

/-- There is neither a comment nor a zero in a printed line. -/
theorem Entry.Printable.uncut : (cstr e.print).takeWhile (· ≠ ch '#') = e.print := by
  have hMem : ∀ c ∈ e.print, c ≠ ch '#' ∧ c ≠ 0 := by
    intro c hc
    rcases mem_wordLine hc with rfl | rfl | ⟨w, hw, hc⟩
    · decide
    · decide
    · exact ((he.words w hw).2 c hc).2
  have hCstr : cstr e.print = e.print :=
    List.takeWhile_eq_self_iff.mpr fun c hc => decide_eq_true (hMem c hc).2
  rw [hCstr]
  exact List.takeWhile_eq_self_iff.mpr fun c hc => decide_eq_true (hMem c hc).1

theorem Entry.Printable.configWords : configWords e.print = e.words := by
  rw [Bus.configWords, he.uncut]
  apply strtok_wordLine rfl rfl
  · exact fun w hw => ⟨(he.words w hw).1, fun c hc => ((he.words w hw).2 c hc).1⟩
  · have hCount := he.count
    rw [Entry.words, List.length_cons, List.length_cons]
    omega

theorem Entry.Printable.fgets (rest : List (BitVec 8)) :
    fgets (configBufsize - 1) (e.print ++ rest) = (e.print, rest) := by
  obtain ⟨body, hBody, hMem⟩ := exists_wordLine (ch ' ') eol e.words
  have hEol : ∀ c ∈ body, c ≠ eol := by
    intro c hc
    rcases hMem c hc with rfl | ⟨w, hw, hc⟩
    · decide
    · rintro rfl
      exact absurd ((he.words w hw).2 eol hc).1 (by decide)
  have hFits := he.fits
  have hPrint : e.print = body ++ [eol] := hBody
  rw [hPrint, List.length_append, List.length_singleton] at hFits
  rw [hPrint, List.append_assoc, List.singleton_append]
  exact fgets_line hEol rest (by omega)

end Printable

/-- The lines come back one by one. -/
theorem fgetsAll_print {entries : List Entry} (hAll : ∀ e ∈ entries, e.Printable) {calls : Nat}
    (hCalls : entries.length ≤ calls) :
    fgetsAll calls (entries.flatMap Entry.print) = entries.map Entry.print := by
  induction entries generalizing calls with
  | nil =>
    cases calls with
    | zero => rfl
    | succ calls => rfl
  | cons e entries ih =>
    rw [List.length_cons] at hCalls
    obtain ⟨calls, rfl⟩ : ∃ k, calls = k + 1 := ⟨calls - 1, by omega⟩
    obtain ⟨he, hRest⟩ := List.forall_mem_cons.mp hAll
    have hSome : e.print ++ entries.flatMap Entry.print ≠ [] := by
      intro h
      exact e.print_ne_nil (List.append_eq_nil_iff.mp h).1
    rw [List.flatMap_cons, fgetsAll, if_neg hSome, he.fgets, ih hRest (by omega), List.map_cons]

theorem length_le_print (entries : List Entry) :
    entries.length ≤ (entries.flatMap Entry.print).length := by
  induction entries with
  | nil => exact le_rfl
  | cons e entries ih =>
    have hLength := List.length_pos_iff.mpr e.print_ne_nil
    rw [List.flatMap_cons, List.length_append, List.length_cons]
    omega

theorem configLines_print {entries : List Entry} (hAll : ∀ e ∈ entries, e.Printable) :
    configLines (entries.flatMap Entry.print) = entries.map Entry.words := by
  have hWords : (entries.map Entry.print).map Bus.configWords = entries.map Entry.words := by
    rw [List.map_map]
    exact List.map_congr_left fun e he => (hAll e he).configWords
  rw [configLines, fgetsAll_print hAll (length_le_print entries), hWords, List.filter_eq_self]
  intro ws hws
  obtain ⟨e, -, rfl⟩ := List.mem_map.mp hws
  rfl

/-- Only the entries that were printed are read. -/
theorem reads_print_iff {entries entries' : List Entry} (hAll : ∀ e ∈ entries, e.Printable) :
    List.Forall₂ Entry.Reads (entries.map Entry.words) entries' ↔ entries' = entries := by
  induction entries generalizing entries' with
  | nil => rw [List.map_nil, List.forall₂_nil_left_iff]
  | cons e entries ih =>
    obtain ⟨he, hRest⟩ := List.forall_mem_cons.mp hAll
    rw [List.map_cons, List.forall₂_cons_left_iff]
    constructor
    · rintro ⟨e', entries', hReads, hTail, rfl⟩
      rw [hReads.unique he.reads, (ih hRest).mp hTail]
    · rintro rfl
      exact ⟨e, entries, he.reads, (ih hRest).mpr rfl, rfl⟩

/-- A configuration that is written down is the one that is read. -/
theorem bus_config_print {δ : Type} (init : DeviceInfo → Fin 32 → List Argument → Except String δ)
    (configfile : String) (extras : List Argument) (entries : List Entry)
    (hAll : ∀ e ∈ entries, e.Printable) (b : BusConfig δ) :
    busConfigFile init configfile extras (some (entries.flatMap Entry.print)) = .ok b ↔
      Configured init entries extras b := by
  have hReads := (reads_print_iff hAll).mpr rfl
  rw [busConfigFile_eq_ok_iff, configLines_print hAll, ← runsThrough_iff hReads]
  simp only [reads_print_iff hAll, exists_eq_left]

/-- A board with one processor and a console. -/
def consoleBoard : List Entry :=
  [⟨31, ⟨written "mainboard", .mainboard, true⟩, [written "ramsize=1m", written "cpus=1"]⟩,
    ⟨0, ⟨written "serial", .serial, false⟩, []⟩]

theorem consoleBoard_printable : ∀ e ∈ consoleBoard, e.Printable := by
  have hAll : ∀ e ∈ consoleBoard, e.dev ∈ devtable ∧
      (∀ arg ∈ e.args, arg ≠ [] ∧ ∀ c ∈ arg, Plain c) ∧ e.args.length + 2 < maxargs ∧
        e.print.length < configBufsize := by
    decide +kernel
  intro e he
  obtain ⟨hDev, hArgs, hCount, hFits⟩ := hAll e he
  exact ⟨hDev, hArgs, hCount, hFits⟩

def plainInit : DeviceInfo → Fin 32 → List Argument → Except String Unit := fun _ _ _ => .ok ()

theorem busConfigFile_console :
    ∃ b, b.board.busRamsize = 0x100000 ∧
      busConfigFile plainInit "sys161.conf" [] (some (consoleBoard.flatMap Entry.print)) = .ok b := by
  have hRun : (busConfigFile plainInit "sys161.conf" []
      (some (consoleBoard.flatMap Entry.print))).toOption.map (fun b => b.board.busRamsize) =
        some 0x100000 := by
    decide +kernel
  exact Attempt.exists_ok_of_map hRun

theorem bus_config_print_console :
    ∃ b, b.board.busRamsize = 0x100000 ∧ Configured plainInit consoleBoard [] b := by
  obtain ⟨b, hSize, hRun⟩ := busConfigFile_console
  exact ⟨b, hSize, (bus_config_print plainInit "sys161.conf" [] _ consoleBoard_printable b).mp hRun⟩

/-! ## The order of the lines -/

/-- The slot that a line names, and its device. -/
def lineUse : List Argument → Option (Fin 32 × DeviceInfo)
  | slotWord :: name :: _ =>
    match slotNumber slotWord, findDev name with
    | some slot, some dev => some (slot, dev.devInfo)
    | _, _ => none
  | _ => none

theorem Entry.Reads.lineUse {ws : List Argument} {e : Entry} (h : e.Reads ws) :
    lineUse ws = some e.use := by
  cases h with
  | intro hSlot hDev _ =>
    rw [Bus.lineUse, hSlot, hDev]
    rfl

theorem filterMap_lineUse {lines : List (List Argument)} {entries : List Entry}
    (h : List.Forall₂ Entry.Reads lines entries) :
    lines.filterMap lineUse = entries.map Entry.use := by
  induction h with
  | nil => rfl
  | cons hHead _ ih => rw [List.filterMap_cons_some hHead.lineUse, ih, List.map_cons]

/-- The bus where the devices are set up in this order. -/
def BusConfig.inOrder {δ : Type} (b : BusConfig δ) (uses : List (Fin 32 × DeviceInfo)) :
    BusConfig δ :=
  { b with globals := b.leftBy uses }

theorem BusConfig.inOrder_inOrder {δ : Type} (b : BusConfig δ)
    (uses uses' : List (Fin 32 × DeviceInfo)) :
    (b.inOrder uses).inOrder uses' = b.inOrder uses' := rfl

theorem Configured.perm {δ : Type} {init : DeviceInfo → Fin 32 → List Argument → Except String δ}
    {entries entries' : List Entry} {extras : List Argument} {b : BusConfig δ}
    (h : Configured init entries extras b) (hPerm : entries.Perm entries') :
    Configured init entries' extras (b.inOrder (entries'.map Entry.use)) where
  slots := ((hPerm.map Entry.slot).nodup_iff).mp h.slots
  controller := fun e he => h.controller e (hPerm.mem_iff.mpr he)
  room := fun e he => h.room e (hPerm.mem_iff.mpr he)
  plugged := fun e he => h.plugged e (hPerm.mem_iff.mpr he)
  empty := fun slot hSlot => h.empty slot fun hIn => hSlot ((hPerm.map Entry.slot).mem_iff.mp hIn)
  extras := by
    intro x hx
    obtain ⟨hColon, e, he, hSlot⟩ := h.extras x hx
    exact ⟨hColon, e, hPerm.mem_iff.mp he, hSlot⟩
  globals := rfl
  board := h.board
  cpus := h.cpus
  ram := h.ram

section Order

variable {δ : Type} {init : DeviceInfo → Fin 32 → List Argument → Except String δ}
  {configfile : String} {extras : List Argument} {f f' : List (BitVec 8)} {b : BusConfig δ}

theorem busConfigFile_inOrder
    (h : busConfigFile init configfile extras (some f) = .ok b) :
    b = b.inOrder ((configLines f).filterMap lineUse) := by
  obtain ⟨entries, hReads, hRun⟩ := busConfigFile_eq_ok_iff.mp h
  have hGlobals := ((runsThrough_iff hReads).mp hRun).globals
  rw [filterMap_lineUse hReads]
  exact BusConfig.ext rfl rfl hGlobals

theorem busConfigFile_of_perm (hPerm : (configLines f).Perm (configLines f'))
    (h : busConfigFile init configfile extras (some f) = .ok b) :
    busConfigFile init configfile extras (some f') =
      .ok (b.inOrder ((configLines f').filterMap lineUse)) := by
  obtain ⟨entries, hReads, hRun⟩ := busConfigFile_eq_ok_iff.mp h
  obtain ⟨entries', hReads', hSame⟩ := List.perm_comp_forall₂ hPerm.symm hReads
  rw [filterMap_lineUse hReads']
  refine busConfigFile_eq_ok_iff.mpr ⟨entries', hReads', (runsThrough_iff hReads').mpr ?_⟩
  exact ((runsThrough_iff hReads).mp hRun).perm hSame.symm

end Order

/-- A board with two consoles, and two random generators. -/
def twoConsoles : List Entry :=
  consoleBoard ++
    [⟨1, ⟨written "serial", .serial, false⟩, []⟩,
      ⟨2, ⟨written "random", .random, false⟩, [written "seed=161"]⟩,
      ⟨3, ⟨written "random", .random, false⟩, [written "autoseed"]⟩]

end Sys161.Bus
