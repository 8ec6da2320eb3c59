import Sys161.Gdb.Receive
import Sys161.Main.Meter
import Sys161.Main.OnselRuns

/-!
# Connections of the debugger and of meters

The hooks that the program puts into the table. A hook gets a pointer, and the
memory of a meter is given back by an event on the queue of the clock.
-/

namespace Sys161.Main

open Runs Gdb Bus

set_option autoImplicit false

inductive HookFunc where
  | accepter
  | gdbReceive
  | meterAccept
  | meterReceive
  | dorecv
  | consoleSel
deriving DecidableEq

inductive HookRfunc where
  | gdbCleanup
deriving DecidableEq

/-- The pointers that hooks get. -/
inductive HookData where
  | null
  | gCtx
  | meter (m : Nat)
  | netdata (slot : Fin 32)
deriving DecidableEq

abbrev PeerSelection := Selection HookData HookFunc HookRfunc

/-- What the host is going to return: the descriptors of `accept`, and what `read` reads, which is
nothing when it fails or the other side has gone. -/
structure Host where
  accept : Nat → Int
  malloc : Nat → Bool
  read : Nat → List (BitVec 8)

structure Peers where
  gCtx : Gdbcontext
  gCtxInuse : Bool
  /-- The packets for `debug_exec`. -/
  packets : List GdbFrame
  meters : Nat → Option MeterConn
  nmeters : Nat
  /-- The calls of `meter_update` that are scheduled. -/
  updates : Multiset Nat
  /-- A failed assertion, or a use of memory that has been given back. -/
  broken : Option String
  calls : Nat

namespace Peers

def start (buf : Nat → BitVec 8) : Peers where
  gCtx := { myfd := -1, buf := buf, bufptr := 0 }
  gCtxInuse := false
  packets := []
  meters := fun _ => none
  nmeters := 0
  updates := 0
  broken := none
  calls := 0

def breaks (w : Peers) (x : String) : Peers := { w with broken := some x }

def setMeter (w : Peers) (m : Nat) (c : Option MeterConn) : Peers :=
  { w with meters := Function.update w.meters m c }

end Peers

section Hooks

variable (host : Host) (memory : Nat → BitVec 8)

abbrev PeerAnswer := Answer HookData HookFunc HookRfunc Peers

def gdbSelection (fd : Int) : PeerSelection := ⟨fd, .gCtx, .gdbReceive, some .gdbCleanup⟩

def meterSelection (fd : Int) (m : Nat) : PeerSelection := ⟨fd, .meter m, .meterReceive, none⟩

def accepter (w : Peers) : PeerAnswer :=
  let remotefd := host.accept w.calls
  let w := { w with calls := w.calls + 1 }
  if remotefd < 0 ∨ w.gCtxInuse then ⟨[], 0, w⟩
  else
    ⟨[.onselect (gdbSelection remotefd)], 0,
      { w with gCtxInuse := true, gCtx := { w.gCtx with myfd := remotefd, bufptr := 0 } }⟩

/-- The packets are kept for `debug_exec`, which does nothing with the connection. -/
def gdbReceiveHook (w : Peers) : PeerAnswer :=
  let data := (host.read w.calls).take w.gCtx.room
  let w := { w with calls := w.calls + 1 }
  if data = [] then ⟨[], -1, { w with gCtx := { w.gCtx with myfd := -1 } }⟩
  else
    let r := gdbReceive w.gCtx data
    let w := { w with gCtx := r.2.1, packets := w.packets ++ r.1 }
    ⟨[], 0, w⟩

def gdbCleanup (w : Peers) : Peers :=
  if w.gCtx.myfd < 0 then { w with gCtxInuse := false } else w.breaks "ctx->myfd < 0"

/-- `meter_update`, which `meter_accept` calls and then the clock. -/
def meterUpdateEvent (m : Nat) (w : Peers) : Peers :=
  match w.meters m with
  | none => w.breaks "meter_update"
  | some c =>
    if c.fd < 0 then w.setMeter m none
    else { w with updates := m ::ₘ w.updates }

def meterAccept (w : Peers) : PeerAnswer :=
  let remotefd := host.accept w.calls
  let memory_ok := host.malloc w.calls
  let w := { w with calls := w.calls + 1 }
  if remotefd < 0 ∨ memory_ok = false then ⟨[], 0, w⟩
  else
    let m := w.nmeters
    let w := { w.setMeter m (some (MeterConn.start remotefd memory)) with nmeters := m + 1 }
    ⟨[.onselect (meterSelection remotefd m)], 0, meterUpdateEvent m w⟩

def meterReceiveHook (m : Nat) (w : Peers) : PeerAnswer :=
  match w.meters m with
  | none => ⟨[], 0, w.breaks "meter_receive"⟩
  | some c =>
    let data := (host.read w.calls).take c.room
    let w := { w with calls := w.calls + 1 }
    if data = [] then ⟨[], -1, w.setMeter m (some (meterHangup c))⟩
    else ⟨[], 0, w.setMeter m (some (meterReceive c data).2)⟩

/-- At the end of the file, the console leaves the table. -/
def consoleSel (w : Peers) : PeerAnswer :=
  ⟨[], if host.read w.calls = [] then -1 else 0, { w with calls := w.calls + 1 }⟩

def peerHooks : Hooks HookData HookFunc HookRfunc Peers where
  func f d w :=
    match f, d with
    | .accepter, _ => accepter host w
    | .gdbReceive, .gCtx => gdbReceiveHook host w
    | .meterAccept, _ => meterAccept host memory w
    | .meterReceive, .meter m => meterReceiveHook host m w
    | .dorecv, _ => ⟨[], 0, { w with calls := w.calls + 1 }⟩
    | .consoleSel, _ => consoleSel host w
    | .gdbReceive, _ => ⟨[], 0, w.breaks "gdb_receive"⟩
    | .meterReceive, _ => ⟨[], 0, w.breaks "meter_receive"⟩
  rfunc f d w :=
    match f, d with
    | .gdbCleanup, .gCtx => gdbCleanup w
    | .gdbCleanup, _ => w.breaks "ctx==&g_ctx"

/-- The hooks that the program puts into the table when it starts. -/
structure IsListener (s : PeerSelection) : Prop where
  fd : 0 ≤ s.sdFd
  func : s.sdFunc ≠ .gdbReceive ∧ s.sdFunc ≠ .meterReceive
  rfunc : s.sdRfunc = none

inductive PeerOp where
  | listen (s : PeerSelection)
  | tryselect (found : Option (Int → Bool))
  | meterUpdate (m : Nat)

abbrev PeerOnsel := Onsel HookData HookFunc HookRfunc Peers

/-- The clock calls `meter_update` with the data it has been scheduled with. -/
def runUpdate (o : PeerOnsel) (m : Nat) : PeerOnsel :=
  { o with world := meterUpdateEvent m { o.world with updates := o.world.updates.erase m } }

inductive PeerStep : PeerOnsel → PeerOp → PeerOnsel → Prop where
  | listen {o o' : PeerOnsel} {s : PeerSelection} : IsListener s → onselect o s = .ok o' →
      PeerStep o (.listen s) o'
  | tryselect {o o' : PeerOnsel} {found : Option (Int → Bool)} :
      Main.tryselect (peerHooks host memory) o found = .ok o' → PeerStep o (.tryselect found) o'
  | meterUpdate {o : PeerOnsel} {m : Nat} : m ∈ o.world.updates →
      PeerStep o (.meterUpdate m) (runUpdate o m)

end Hooks

/-! ## What holds in between -/

def isDebugger (s : PeerSelection) : Prop := s.sdFunc = .gdbReceive

def isMeter (m : Nat) (s : PeerSelection) : Prop := s.sdFunc = .meterReceive ∧ s.sdData = .meter m

instance : DecidablePred isDebugger := fun s => inferInstanceAs (Decidable (s.sdFunc = _))

instance (m : Nat) : DecidablePred (isMeter m) := fun _ => inferInstanceAs (Decidable (_ ∧ _))

/-- A hook has the data that its functions take. -/
structure Typed (s : PeerSelection) : Prop where
  debugger : s.sdFunc = .gdbReceive → s.sdData = .gCtx
  meter : s.sdFunc = .meterReceive → ∃ m, s.sdData = .meter m
  rfunc : s.sdRfunc = if s.sdFunc = .gdbReceive then some .gdbCleanup else none

/-- The descriptor of a meter, negative where there is no meter. -/
def Peers.meterFd (w : Peers) (m : Nat) : Int := ((w.meters m).map fun c => c.fd).getD (-1)

/-- The hook of a meter with this descriptor, if it is one. -/
def meterHooks (m : Nat) (fd : Int) : Multiset PeerSelection :=
  if 0 ≤ fd then {meterSelection fd m} else 0

/-- There is at most one debugger, with a hook on its descriptor; every meter has a hook on its own
descriptor as long as it is connected, and its memory as long as there is a hook or an event for
it. -/
structure Connected (live : Multiset PeerSelection) (w : Peers) : Prop where
  typed : ∀ s ∈ live, Typed s
  debugger : live.filter isDebugger = if w.gCtxInuse then {gdbSelection w.gCtx.myfd} else 0
  myfd : w.gCtxInuse = true ↔ 0 ≤ w.gCtx.myfd
  meter : ∀ m, live.filter (isMeter m) = meterHooks m (w.meterFd m)
  update : ∀ m, w.updates.count m = if (w.meters m).isSome then 1 else 0
  fresh : ∀ m, w.nmeters ≤ m → w.meters m = none
  sound : w.broken = none

/-! ## Data does not change the descriptor -/

theorem gdbReceive_myfd (ctx : Gdbcontext) (data : List (BitVec 8)) :
    (gdbReceive ctx data).2.1.myfd = ctx.myfd := by
  have hTurn : ∀ (ctx : Gdbcontext) f ctx', gdbTurn ctx = .ok (f, ctx') → ctx'.myfd = ctx.myfd := by
    intro ctx f ctx' h
    rw [gdbTurn_eq] at h
    split at h
    · cases h
    · split at h
      · cases h
        rfl
      · cases h
  rw [gdbReceive]
  dsimp only
  rw [Framing.drain_keeps Gdbcontext.myfd hTurn]
  split <;> rfl

theorem meterReceive_fd (c : MeterConn) (data : List (BitVec 8)) :
    (meterReceive c data).2.fd = c.fd := by
  have hTurn : ∀ (c : MeterConn) f c', meterTurn c = .ok (f, c') → c'.fd = c.fd := by
    intro c f c' h
    rw [meterTurn] at h
    split at h
    · cases h
    · cases h
      rfl
  rw [meterReceive]
  dsimp only
  rw [Framing.drain_keeps (fun c : MeterConn => c.fd) hTurn, MeterConn.inputOverflow]
  split <;> rfl

/-! ## The parts of a step -/

section Parts

variable {live : Multiset PeerSelection} {w : Peers} {s : PeerSelection} {m : Nat}

/-- Where there is at most one, there is no other. -/
theorem rest_eq_zero {rest : Multiset PeerSelection} {t : PeerSelection} {c : Prop} [Decidable c]
    (h : s ::ₘ rest = if c then {t} else 0) : rest = 0 := by
  split at h
  · exact ((Multiset.singleton_eq_cons_iff rest).mp h.symm).2
  · exact absurd h Multiset.cons_ne_zero

theorem Connected.calls (h : Connected live w) (n : Nat) : Connected live { w with calls := n } :=
  ⟨h.typed, h.debugger, h.myfd, h.meter, h.update, h.fresh, h.sound⟩

theorem Connected.listener_in (h : Connected live w) (hs : IsListener s) :
    Connected (s ::ₘ live) w where
  typed := by
    intro t ht
    rcases Multiset.mem_cons.mp ht with rfl | ht
    · exact ⟨fun hf => absurd hf hs.func.1, fun hf => absurd hf hs.func.2,
        by rw [if_neg hs.func.1, hs.rfunc]⟩
    · exact h.typed t ht
  debugger := by rw [Multiset.filter_cons_of_neg live hs.func.1, h.debugger]
  myfd := h.myfd
  meter := by
    intro m
    rw [Multiset.filter_cons_of_neg live fun hm : isMeter m s => hs.func.2 hm.1, h.meter]
  update := h.update
  fresh := h.fresh
  sound := h.sound

theorem Connected.listener_out (h : Connected (s ::ₘ live) w) (hGdb : s.sdFunc ≠ .gdbReceive)
    (hMeter : s.sdFunc ≠ .meterReceive) : Connected live w where
  typed := fun t ht => h.typed t (Multiset.mem_cons_of_mem ht)
  debugger := by rw [← h.debugger, Multiset.filter_cons_of_neg live hGdb]
  myfd := h.myfd
  meter := by
    intro m
    rw [← h.meter, Multiset.filter_cons_of_neg live fun hm : isMeter m s => hMeter hm.1]
  update := h.update
  fresh := h.fresh
  sound := h.sound

theorem Connected.debugger_in (h : Connected live w) (hFree : w.gCtxInuse = false)
    {ctx : Gdbcontext} (hFd : 0 ≤ ctx.myfd) :
    Connected (gdbSelection ctx.myfd ::ₘ live) { w with gCtxInuse := true, gCtx := ctx } where
  typed := by
    intro t ht
    rcases Multiset.mem_cons.mp ht with rfl | ht
    · exact ⟨fun _ => rfl, (fun hf => nomatch hf), rfl⟩
    · exact h.typed t ht
  debugger := by
    have hNone := h.debugger
    rw [hFree] at hNone
    rw [Multiset.filter_cons_of_pos live (rfl : isDebugger (gdbSelection ctx.myfd)), hNone]
    rfl
  myfd := iff_of_true rfl hFd
  meter := by
    intro m
    have hOther : ¬ isMeter m (gdbSelection ctx.myfd) := fun hm => by cases hm.1
    rw [Multiset.filter_cons_of_neg live hOther]
    exact h.meter m
  update := h.update
  fresh := h.fresh
  sound := h.sound

/-- The descriptor is closed, the hook goes, and then the context is free. -/
theorem Connected.debugger_out (h : Connected (s ::ₘ live) w) (hs : s.sdFunc = .gdbReceive) :
    Connected live (gdbCleanup { w with gCtx := { w.gCtx with myfd := -1 } }) := by
  have hOnly := h.debugger
  rw [Multiset.filter_cons_of_pos live (hs : isDebugger s)] at hOnly
  have hNone : live.filter isDebugger = 0 := rest_eq_zero hOnly
  have hNot (m : Nat) : ¬ isMeter m s := by
    rintro ⟨hFunc, -⟩
    rw [hs] at hFunc
    cases hFunc
  rw [gdbCleanup, if_pos (by decide : (-1 : Int) < 0)]
  exact
    { typed := fun t ht => h.typed t (Multiset.mem_cons_of_mem ht)
      debugger := hNone
      myfd := iff_of_false Bool.false_ne_true (by decide : ¬ (0 : Int) ≤ -1)
      meter := by
        intro m
        rw [← Multiset.filter_cons_of_neg live (hNot m), h.meter]
        rfl
      update := h.update
      fresh := h.fresh
      sound := h.sound }

theorem Connected.debugger_data (h : Connected live w) {ctx : Gdbcontext}
    (hFd : ctx.myfd = w.gCtx.myfd) (packets : List GdbFrame) :
    Connected live { w with gCtx := ctx, packets := packets } :=
  ⟨h.typed, by rw [hFd]; exact h.debugger, by rw [hFd]; exact h.myfd, h.meter, h.update, h.fresh,
    h.sound⟩

theorem meterFd_setMeter (w : Peers) (m : Nat) (c : Option MeterConn) (k : Nat) :
    (w.setMeter m c).meterFd k = if k = m then (c.map fun c => c.fd).getD (-1) else w.meterFd k := by
  rw [Peers.meterFd, Peers.setMeter, Peers.meterFd]
  dsimp only
  rw [Function.update_apply]
  split <;> rfl

theorem isSome_setMeter (w : Peers) (m : Nat) (c : Option MeterConn) (k : Nat) :
    ((w.setMeter m c).meters k).isSome = if k = m then c.isSome else (w.meters k).isSome := by
  rw [Peers.setMeter]
  dsimp only
  rw [Function.update_apply]
  split <;> rfl

theorem fresh_setMeter (h : Connected live w) (hm : m < w.nmeters) (c : Option MeterConn) :
    ∀ k, w.nmeters ≤ k → (w.setMeter m c).meters k = none := by
  intro k hk
  have hNe : k ≠ m := by omega
  exact (Function.update_of_ne hNe _ _).trans (h.fresh k hk)

theorem Connected.lt_nmeters (h : Connected live w) {c : MeterConn} (hm : w.meters m = some c) :
    m < w.nmeters := by
  by_contra hOut
  rw [h.fresh m (by omega)] at hm
  cases hm

theorem Connected.meter_data (h : Connected live w) {c c' : MeterConn} (hm : w.meters m = some c)
    (hFd : c'.fd = c.fd) : Connected live (w.setMeter m (some c')) where
  typed := h.typed
  debugger := h.debugger
  myfd := h.myfd
  meter := by
    intro k
    rw [h.meter, meterFd_setMeter]
    by_cases hk : k = m
    · subst hk
      rw [if_pos rfl, Peers.meterFd, hm, Option.map_some, Option.map_some, hFd]
    · rw [if_neg hk]
  update := by
    intro k
    rw [isSome_setMeter]
    refine (h.update k).trans ?_
    by_cases hk : k = m
    · subst hk
      rw [if_pos rfl, hm]
      rfl
    · rw [if_neg hk]
  fresh := fresh_setMeter h (h.lt_nmeters hm) _
  sound := h.sound

theorem Connected.meter_out (h : Connected (s ::ₘ live) w) (hFunc : s.sdFunc = .meterReceive)
    (hData : s.sdData = .meter m) {c : MeterConn} (hm : w.meters m = some c) :
    Connected live (w.setMeter m (some (meterHangup c))) := by
  have hIs : isMeter m s := ⟨hFunc, hData⟩
  have hOnly := h.meter m
  rw [Multiset.filter_cons_of_pos live hIs] at hOnly
  have hNone : live.filter (isMeter m) = 0 := rest_eq_zero hOnly
  have hNotGdb : ¬ isDebugger s := by
    intro hGdb
    rw [isDebugger, hFunc] at hGdb
    cases hGdb
  constructor
  · exact fun t ht => h.typed t (Multiset.mem_cons_of_mem ht)
  · rw [← Multiset.filter_cons_of_neg live hNotGdb]
    exact h.debugger
  · exact h.myfd
  · intro k
    rw [meterFd_setMeter]
    by_cases hk : k = m
    · subst hk
      rw [if_pos rfl, hNone]
      rfl
    · have hNot : ¬ isMeter k s := by
        rintro ⟨-, hOther⟩
        rw [hData, HookData.meter.injEq] at hOther
        exact hk hOther.symm
      rw [if_neg hk, ← h.meter, Multiset.filter_cons_of_neg live hNot]
  · intro k
    rw [isSome_setMeter]
    refine (h.update k).trans ?_
    by_cases hk : k = m
    · subst hk
      rw [if_pos rfl, hm]
      rfl
    · rw [if_neg hk]
  · exact fresh_setMeter h (h.lt_nmeters hm) _
  · exact h.sound

/-- `meter_update` for memory that is there, with the event gone that has called it. -/
theorem Connected.update_event (h : Connected live w) (hm : m ∈ w.updates) :
    Connected live (meterUpdateEvent m { w with updates := w.updates.erase m }) := by
  have hCount := h.update m
  have hSome : (w.meters m).isSome = true := by
    by_contra hNone
    rw [if_neg hNone] at hCount
    exact absurd hm (Multiset.count_eq_zero.mp hCount)
  obtain ⟨c, hc⟩ := Option.isSome_iff_exists.mp hSome
  rw [if_pos hSome] at hCount
  have hErase (k : Nat) : (w.updates.erase m).count k =
      if k = m then 0 else if (w.meters k).isSome then 1 else 0 := by
    by_cases hk : k = m
    · subst hk
      rw [if_pos rfl, Multiset.count_erase_self, hCount]
    · rw [if_neg hk, Multiset.count_erase_of_ne hk, h.update]
  rw [meterUpdateEvent]
  dsimp only
  rw [hc]
  dsimp only
  split
  · next hClosed =>
    refine ⟨h.typed, h.debugger, h.myfd, ?_, ?_, ?_, h.sound⟩
    · intro k
      rw [meterFd_setMeter]
      refine (h.meter k).trans ?_
      by_cases hk : k = m
      · subst hk
        have hFd : w.meterFd k = c.fd := by rw [Peers.meterFd, hc]; rfl
        rw [if_pos rfl, hFd, meterHooks, if_neg (not_le.mpr hClosed)]
        rfl
      · rw [if_neg hk]
        rfl
    · intro k
      rw [isSome_setMeter]
      refine (hErase k).trans ?_
      by_cases hk : k = m
      · rw [if_pos hk, if_pos hk]
        rfl
      · rw [if_neg hk, if_neg hk]
    · intro k hk
      have hNe : k ≠ m := by
        have hLt := h.lt_nmeters hc
        rintro rfl
        exact absurd hk (not_le.mpr hLt)
      exact (Function.update_of_ne hNe _ _).trans (h.fresh k hk)
  · refine ⟨h.typed, h.debugger, h.myfd, h.meter, ?_, h.fresh, h.sound⟩
    intro k
    dsimp only
    rw [Multiset.cons_erase hm]
    exact h.update k

/-- A new meter has its hook and its event. -/
theorem Connected.meter_in (h : Connected live w) (memory : Nat → BitVec 8) {fd : Int}
    (hFd : 0 ≤ fd) :
    Connected (meterSelection fd w.nmeters ::ₘ live)
      (meterUpdateEvent w.nmeters
        { w.setMeter w.nmeters (some (MeterConn.start fd memory)) with
          nmeters := w.nmeters + 1 }) := by
  have hFresh := h.fresh w.nmeters le_rfl
  have hNone : w.updates.count w.nmeters = 0 := by
    rw [h.update, hFresh]
    rfl
  have hHook : isMeter w.nmeters (meterSelection fd w.nmeters) := ⟨rfl, rfl⟩
  have hNotGdb : ¬ isDebugger (meterSelection fd w.nmeters) := fun hGdb => nomatch hGdb
  have hOpen : ¬ (MeterConn.start fd memory).fd < 0 := by
    change ¬ fd < 0
    omega
  rw [meterUpdateEvent]
  dsimp only [Peers.setMeter]
  rw [Function.update_self]
  dsimp only
  rw [if_neg hOpen]
  constructor
  · intro t ht
    rcases Multiset.mem_cons.mp ht with rfl | ht
    · exact ⟨(fun hf => nomatch hf), fun _ => ⟨_, rfl⟩, rfl⟩
    · exact h.typed t ht
  · rw [Multiset.filter_cons_of_neg live hNotGdb]
    exact h.debugger
  · exact h.myfd
  · intro k
    refine Eq.trans ?_ (congrArg (meterHooks k)
      (meterFd_setMeter w w.nmeters (some (MeterConn.start fd memory)) k)).symm
    by_cases hk : k = w.nmeters
    · subst hk
      have hBefore : live.filter (isMeter w.nmeters) = 0 := by
        rw [h.meter, Peers.meterFd, hFresh]
        rfl
      rw [Multiset.filter_cons_of_pos live hHook, hBefore, if_pos rfl]
      exact (if_pos hFd).symm
    · have hNot : ¬ isMeter k (meterSelection fd w.nmeters) := by
        rintro ⟨-, hOther⟩
        exact hk (HookData.meter.inj hOther).symm
      rw [Multiset.filter_cons_of_neg live hNot, if_neg hk, h.meter]
  · intro k
    refine Eq.trans ?_ (congrArg (fun b : Bool => if b then 1 else 0)
      (isSome_setMeter w w.nmeters (some (MeterConn.start fd memory)) k)).symm
    by_cases hk : k = w.nmeters
    · subst hk
      rw [if_pos rfl, Multiset.count_cons_self, hNone]
      rfl
    · rw [if_neg hk, Multiset.count_cons_of_ne hk, h.update]
  · intro k hk
    have hNe : k ≠ w.nmeters := by
      dsimp only at hk
      omega
    exact (Function.update_of_ne hNe _ _).trans (h.fresh k (by dsimp only at hk; omega))
  · exact h.sound

end Parts

/-! ## Runs -/

section Runs

variable {host : Host} {memory : Nat → BitVec 8}

theorem peerHooks_enters : (peerHooks host memory).Enters := by
  intro f d w ask hAsk
  have hEmpty {r : PeerAnswer} (hNil : r.asks = []) (h : ask ∈ r.asks) :
      ∃ t, ask = .onselect t ∧ 0 ≤ t.sdFd := by
    rw [hNil] at h
    exact absurd h List.not_mem_nil
  cases f with
  | accepter =>
    change ask ∈ (accepter host w).asks at hAsk
    rw [accepter] at hAsk
    dsimp only at hAsk
    split at hAsk
    · exact hEmpty rfl hAsk
    · next hIn =>
      rw [not_or, not_lt] at hIn
      exact ⟨_, List.mem_singleton.mp hAsk, hIn.1⟩
  | meterAccept =>
    change ask ∈ (meterAccept host memory w).asks at hAsk
    rw [meterAccept] at hAsk
    dsimp only at hAsk
    split at hAsk
    · exact hEmpty rfl hAsk
    · next hIn =>
      rw [not_or, not_lt] at hIn
      exact ⟨_, List.mem_singleton.mp hAsk, hIn.1⟩
  | gdbReceive =>
    refine hEmpty ?_ hAsk
    cases d with
    | gCtx =>
      change (gdbReceiveHook host w).asks = []
      rw [gdbReceiveHook]
      dsimp only
      split <;> rfl
    | null | meter | netdata => rfl
  | meterReceive =>
    refine hEmpty ?_ hAsk
    cases d with
    | meter m =>
      change (meterReceiveHook host m w).asks = []
      rw [meterReceiveHook]
      split
      · rfl
      · dsimp only
        split <;> rfl
    | null | gCtx | netdata => rfl
  | dorecv => exact hEmpty rfl hAsk
  | consoleSel => exact hEmpty rfl hAsk

theorem entries_nil {r : PeerAnswer} (h : r.asks = []) (live : Multiset PeerSelection) :
    ↑r.entries + live = live := by
  rw [Answer.entries, h]
  exact zero_add live

theorem entries_one {r : PeerAnswer} {t : PeerSelection} (h : r.asks = [.onselect t])
    (live : Multiset PeerSelection) : ↑r.entries + live = t ::ₘ live := by
  rw [Answer.entries, h]
  exact Multiset.singleton_add t live

theorem accepter_connected {live : Multiset PeerSelection} {w : Peers} (h : Connected live w) :
    (accepter host w).result = 0 ∧
      Connected (↑(accepter host w).entries + live) (accepter host w).world := by
  rw [accepter]
  dsimp only
  split
  · refine ⟨rfl, ?_⟩
    rw [entries_nil rfl]
    exact h.calls _
  · next hIn =>
    rw [not_or, not_lt, Bool.not_eq_true] at hIn
    refine ⟨rfl, ?_⟩
    rw [entries_one rfl]
    exact @Connected.debugger_in live _ (h.calls (w.calls + 1)) hIn.2
      { w.gCtx with myfd := host.accept w.calls, bufptr := 0 } hIn.1

theorem meterAccept_connected {live : Multiset PeerSelection} {w : Peers} (h : Connected live w) :
    (meterAccept host memory w).result = 0 ∧
      Connected (↑(meterAccept host memory w).entries + live) (meterAccept host memory w).world := by
  rw [meterAccept]
  dsimp only
  split
  · refine ⟨rfl, ?_⟩
    rw [entries_nil rfl]
    exact h.calls _
  · next hIn =>
    rw [not_or, not_lt] at hIn
    refine ⟨rfl, ?_⟩
    rw [entries_one rfl]
    exact (h.calls (w.calls + 1)).meter_in memory hIn.1

/-- A meter whose hook is in the table is there. -/
theorem Connected.exists_meter {live : Multiset PeerSelection} {w : Peers} {s : PeerSelection}
    {m : Nat} (h : Connected live w) (hs : s ∈ live) (hm : isMeter m s) :
    ∃ c, w.meters m = some c := by
  have hMem : s ∈ live.filter (isMeter m) := Multiset.mem_filter.mpr ⟨hs, hm⟩
  rw [h.meter, Peers.meterFd] at hMem
  cases hc : w.meters m with
  | none =>
    rw [hc] at hMem
    exact absurd hMem (Multiset.notMem_zero s)
  | some c => exact ⟨c, rfl⟩

variable (host memory) in
/-- What the call of a hook leaves, if the hook stays, and with the hook taken out, if it does not. -/
structure Calls (live : Multiset PeerSelection) (s : PeerSelection) (r : PeerAnswer) : Prop where
  stays : r.result = 0 → Connected (↑r.entries + live) r.world
  goes : r.result ≠ 0 → ∀ rest, live = s ::ₘ rest →
    Connected (↑r.entries + rest) ((peerHooks host memory).giveBack s r.world)

theorem calls_of_stays {live : Multiset PeerSelection} {s : PeerSelection} {r : PeerAnswer}
    (h : r.result = 0 ∧ Connected (↑r.entries + live) r.world) :
    Calls host memory live s r :=
  ⟨fun _ => h.2, fun hGoes => absurd h.1 hGoes⟩

theorem consoleSel_calls {live : Multiset PeerSelection} {w : Peers} {s : PeerSelection}
    (h : Connected live w) (hs : s ∈ live) (hFunc : s.sdFunc = .consoleSel) :
    Calls host memory live s (consoleSel host w) where
  stays := by
    intro _
    rw [entries_nil rfl]
    exact h.calls _
  goes := by
    intro _ rest hRest
    have hRfunc := (h.typed s hs).rfunc
    rw [hFunc, if_neg (by decide)] at hRfunc
    rw [entries_nil rfl, Hooks.giveBack, hRfunc]
    rw [hRest] at h
    exact (h.listener_out (by rw [hFunc]; decide) (by rw [hFunc]; decide)).calls _

theorem gdbReceive_calls {live : Multiset PeerSelection} {w : Peers} {s : PeerSelection}
    (h : Connected live w) (hs : s ∈ live) (hFunc : s.sdFunc = .gdbReceive) :
    Calls host memory live s (gdbReceiveHook host w) := by
  have hTyped := h.typed s hs
  have hRfunc := hTyped.rfunc
  rw [if_pos hFunc] at hRfunc
  rw [gdbReceiveHook]
  dsimp only
  split
  · constructor
    · intro hResult
      exact absurd hResult (by decide : ¬ (-1 : Int) = 0)
    · intro _ rest hRest
      rw [hRest] at h
      rw [entries_nil rfl, Hooks.giveBack, hRfunc, hTyped.debugger hFunc]
      exact (h.calls (w.calls + 1)).debugger_out hFunc
  · refine calls_of_stays ⟨rfl, ?_⟩
    rw [entries_nil rfl]
    exact (h.calls (w.calls + 1)).debugger_data (gdbReceive_myfd _ _) _

theorem meterReceive_calls {live : Multiset PeerSelection} {w : Peers} {s : PeerSelection} {m : Nat}
    (h : Connected live w) (hs : s ∈ live) (hFunc : s.sdFunc = .meterReceive)
    (hData : s.sdData = .meter m) :
    Calls host memory live s (meterReceiveHook host m w) := by
  have hRfunc := (h.typed s hs).rfunc
  rw [hFunc, if_neg (by decide)] at hRfunc
  obtain ⟨c, hc⟩ := h.exists_meter hs ⟨hFunc, hData⟩
  rw [meterReceiveHook, hc]
  dsimp only
  split
  · constructor
    · intro hResult
      exact absurd hResult (by decide : ¬ (-1 : Int) = 0)
    · intro _ rest hRest
      rw [hRest] at h
      rw [entries_nil rfl, Hooks.giveBack, hRfunc]
      exact (h.calls (w.calls + 1)).meter_out hFunc hData hc
  · refine calls_of_stays ⟨rfl, ?_⟩
    rw [entries_nil rfl]
    exact (h.calls (w.calls + 1)).meter_data hc (meterReceive_fd c _)

theorem peerHooks_calls {live : Multiset PeerSelection} {w : Peers} {s : PeerSelection}
    (h : Connected live w) (hs : s ∈ live) :
    Calls host memory live s
      ((peerHooks host memory).func s.sdFunc s.sdData w) := by
  have hTyped := h.typed s hs
  cases hFunc : s.sdFunc with
  | accepter => exact calls_of_stays (accepter_connected h)
  | meterAccept => exact calls_of_stays (meterAccept_connected h)
  | dorecv =>
    refine calls_of_stays ⟨rfl, ?_⟩
    rw [entries_nil rfl]
    exact h.calls _
  | consoleSel => exact consoleSel_calls h hs hFunc
  | gdbReceive =>
    rw [hTyped.debugger hFunc]
    exact gdbReceive_calls h hs hFunc
  | meterReceive =>
    obtain ⟨m, hData⟩ := hTyped.meter hFunc
    rw [hData]
    exact meterReceive_calls h hs hFunc hData

theorem peerHooks_preserves : (peerHooks host memory).Preserves Connected where
  stays := fun _ _ _ hs h hResult => (peerHooks_calls h hs).stays hResult
  goes := fun _ _ s h hResult =>
    (peerHooks_calls h (Multiset.mem_cons_self s _)).goes hResult _ rfl

theorem peerStep_connected {o o' : PeerOnsel} {op : PeerOp}
    (h : Connected o.live o.world) (hStep : PeerStep host memory o op o') :
    Connected o'.live o'.world := by
  cases hStep with
  | listen hListener hOn =>
    obtain ⟨hLive, hWorld⟩ :=
      onselect_live (peerHooks host memory) hListener.fd hOn
    rw [hLive, hWorld]
    exact h.listener_in hListener
  | tryselect hTry => exact tryselect_invariant peerHooks_enters peerHooks_preserves h hTry
  | meterUpdate hm => exact h.update_event hm

theorem connected_start (buf : Nat → BitVec 8) :
    Connected (Onsel.start (Peers.start buf) : PeerOnsel).live (Peers.start buf) where
  typed := fun _ hs => absurd hs (Multiset.notMem_zero _)
  debugger := rfl
  myfd := iff_of_false Bool.false_ne_true (by decide : ¬ (0 : Int) ≤ -1)
  meter := fun _ => rfl
  update := fun _ => rfl
  fresh := fun _ _ => rfl
  sound := rfl

/-- In every run of the program there is at most one debugger, whose hook is on the open descriptor;
each meter has one hook, on its own descriptor, while it is connected, and one event while it is
there at all; and no hook or event is ever called for a meter that has been given back. -/
theorem connections_run {buf : Nat → BitVec 8} {p : List (PeerOp × PeerOnsel)} {o : PeerOnsel}
    (hp : Path (PeerStep host memory) (Onsel.start (Peers.start buf)) p o) :
    AllStates (fun o => Connected o.live o.world) (Onsel.start (Peers.start buf)) p :=
  hp.allStates_of_step (fun _ _ _ h hStep => peerStep_connected h hStep) (connected_start buf)

end Runs

/-- A debugger connects with descriptor 4, and closes its side. -/
def debuggerHost : Host where
  accept := fun _ => 4
  malloc := fun _ => true
  read := fun _ => []

def debugListener : PeerSelection := ⟨3, .null, .accepter, none⟩

theorem connections_run_debugger : ∃ p o,
    Path (PeerStep debuggerHost fun _ => 0) (Onsel.start (Peers.start fun _ => 0)) p o ∧
      p.length = 3 ∧ o.live = {debugListener} ∧ Connected o.live o.world := by
  let start : Peers := Peers.start fun _ => 0
  let joined : Peers :=
    { start with gCtxInuse := true, gCtx := { start.gCtx with myfd := 4 }, calls := 1 }
  let o₁ : PeerOnsel := ⟨[debugListener], start, [.entered debugListener]⟩
  let o₂ : PeerOnsel := ⟨[debugListener, gdbSelection 4], joined,
    [.entered debugListener, .used debugListener, .entered (gdbSelection 4)]⟩
  let o₃ : PeerOnsel := ⟨[debugListener, (gdbSelection 4).unused], { start with calls := 2 },
    o₂.deeds ++ [.used (gdbSelection 4), .left (gdbSelection 4)]⟩
  have hListen : PeerStep debuggerHost (fun _ => 0) (Onsel.start start) (.listen debugListener) o₁ :=
    .listen ⟨by decide, by decide, rfl⟩ rfl
  have hJoin : PeerStep debuggerHost (fun _ => 0) o₁ (.tryselect (some fun fd => fd == 3)) o₂ :=
    .tryselect rfl
  have hLeave : PeerStep debuggerHost (fun _ => 0) o₂ (.tryselect (some fun fd => fd == 4)) o₃ :=
    .tryselect rfl
  have hRun := Path.cons hListen (.cons hJoin (.cons hLeave (.nil o₃)))
  exact ⟨_, o₃, hRun, rfl, rfl, hRun.last_state (connections_run hRun)⟩

end Sys161.Main
