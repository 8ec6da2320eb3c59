import Sys161.Bus.DevNet
import Sys161.Lib.Runs

/-!
# Runs of the network interface

The interface with the interrupt line of its slot and its events on the queue.
Packets arrive, and events fire, at any time.
-/

namespace Sys161.Bus

open Runs

set_option autoImplicit false

structure Net where
  nd : NetData
  line : Bool
  pending : List Arm

def Net.after (n : Net) (r : Done NetData) : Net where
  nd := r.dev
  line := r.irq.getD n.line
  pending := n.pending ++ r.arm.toList

/-- `ta_func(ta_data, ta_code)`. -/
def netFire (nd : NetData) (slot : Fin 32) (a : Arm) (sendto : SendResult) :
    Except String (Done NetData) :=
  match a.func with
  | .keepalive => .ok (keepalive nd slot sendto)
  | .triggersend => .ok (triggersend nd slot sendto)
  | _ => .error "Segmentation fault"

inductive NetAct where
  | fetch (offset : BitVec 32)
  | store (offset val : BitVec 32)
  | arrive (packet : Except String (List (BitVec 8)))
  | fire (a : Arm)

inductive Net.Step (slot : Fin 32) (bigEndian : Bool) : Net → NetAct → Net → Prop where
  | fetch {n : Net} {offset val : BitVec 32} :
      netFetch bigEndian n.nd offset = some val → Net.Step slot bigEndian n (.fetch offset) n
  | store {n : Net} {offset val : BitVec 32} {r : Done NetData} :
      netStore bigEndian n.nd offset val = some r →
      Net.Step slot bigEndian n (.store offset val) (n.after r)
  | arrive {n : Net} {junk : Nat → BitVec 8} {packet : Except String (List (BitVec 8))} :
      Net.Step slot bigEndian n (.arrive packet) (n.after (dorecv n.nd slot junk packet))
  | fire {n : Net} {before after : List Arm} {a : Arm} {sendto : SendResult} {r : Done NetData} :
      n.pending = before ++ a :: after → netFire n.nd slot a sendto = .ok r →
      Net.Step slot bigEndian n (.fire a)
        (Net.after { n with pending := before ++ after } r)

/-- The interface as `net_init` hands it to the bus, where the lines of all slots are down. -/
def Net.start (r : Done NetData) : Net := Net.after ⟨r.dev, false, []⟩ r

section Runs

variable {slot : Fin 32} {bigEndian : Bool} {n n' : Net} {act : NetAct} {p : List (NetAct × Net)}

/-- How many packet sends wait on the queue. -/
def Net.sends (n : Net) : Nat := n.pending.countP fun a => a.func = .triggersend

def NetData.starting (nd : NetData) : Prop := nd.ndControl &&& ndcStart ≠ 0

/-- The START bit is set iff one send is pending; the interrupt is raised iff one of its two
registers is not zero. -/
def Net.Consistent (n : Net) : Prop :=
  (n.nd.starting ↔ n.sends = 1) ∧ (n.line = true ↔ n.nd.ndRirq ≠ 0 ∨ n.nd.ndWirq ≠ 0)

/-- No arriving packet changes the receive buffer before the last one has cleared. -/
def Net.Keeps (slot : Fin 32) (bigEndian : Bool) (n : Net) : Prop :=
  ∀ packet n', Net.Step slot bigEndian n (.arrive packet) n' → n.nd.ndRirq ≠ 0 →
    n'.nd.ndRbuf = n.nd.ndRbuf

/-- What a function of the interface comes to, for the line and the queue. -/
structure NetDone (nd : NetData) (r : Done NetData) : Prop where
  irq : r.irq = some r.dev.chkint ∨
    (r.irq = none ∧ r.dev.ndRirq = nd.ndRirq ∧ r.dev.ndWirq = nd.ndWirq)
  start : (r.dev.ndControl = nd.ndControl ∧ ∀ a, r.arm = some a → a.func = .keepalive) ∨
    (nd.starting ∧ r.dev.starting ∧ r.arm = none) ∨
    (¬ nd.starting ∧ ¬ r.dev.starting ∧ r.arm = none) ∨
    (¬ nd.starting ∧ r.dev.starting ∧ r.arm = some packetSend)

theorem starting_or (nd : NetData) (val : BitVec 32) :
    ({ nd with ndControl := val ||| ndcStart } : NetData).starting := by
  intro hClear
  have hBit := congrArg (BitVec.getLsbD · 1) hClear
  simp [ndcStart] at hBit

theorem not_starting_clear (nd : NetData) :
    ¬ ({ nd with ndControl := nd.ndControl &&& ~~~ndcStart } : NetData).starting := by
  simp [NetData.starting, BitVec.and_assoc]

theorem NetDone.same (nd : NetData) (msgs : List String) (hung : Option String) :
    NetDone nd { dev := nd, msgs := msgs, hung := hung } where
  irq := .inr ⟨rfl, rfl, rfl⟩
  start := .inl ⟨rfl, by simp⟩

theorem netDone_buffers (nd : NetData) (rbuf wbuf : Nat → BitVec 8) :
    NetDone nd { dev := { nd with ndRbuf := rbuf, ndWbuf := wbuf } } where
  irq := .inr ⟨rfl, rfl, rfl⟩
  start := .inl ⟨rfl, by simp⟩

theorem netDone_keepalive (nd : NetData) (slot : Fin 32) (sendto : SendResult) :
    NetDone nd (keepalive nd slot sendto) := by
  unfold keepalive
  split <;> constructor <;> simp

/-- A packet is refused or taken; the buffer is written to only where the last one has cleared. -/
theorem dorecv_cases (nd : NetData) (slot : Fin 32) (junk : Nat → BitVec 8)
    (data : List (BitVec 8)) :
    ∃ rbuf, (nd.ndRirq ≠ 0 → rbuf = nd.ndRbuf) ∧
      (dorecv nd slot junk (.ok data) = { dev := { nd with ndRbuf := rbuf } } ∨
        dorecv nd slot junk (.ok data) = readdone { nd with ndRbuf := rbuf }) := by
  by_cases hOver : nd.ndRirq = 0
  · refine ⟨fill nd.ndRbuf (data.take netBufsize), fun hNot => absurd hOver hNot, ?_⟩
    simp only [dorecv, hOver, ne_eq, not_true_eq_false, if_false]
    split
    · exact .inl rfl
    · exact .inr rfl
  · refine ⟨nd.ndRbuf, fun _ => rfl, .inl ?_⟩
    simp only [dorecv, hOver, ne_eq, not_false_eq_true, if_true, ite_self]

theorem netDone_dorecv (nd : NetData) (slot : Fin 32) (junk : Nat → BitVec 8)
    (packet : Except String (List (BitVec 8))) : NetDone nd (dorecv nd slot junk packet) := by
  cases packet with
  | error => exact NetDone.same ..
  | ok data =>
    obtain ⟨rbuf, -, hEq | hEq⟩ := dorecv_cases nd slot junk data
    · rw [hEq]
      exact netDone_buffers ..
    · rw [hEq]
      exact ⟨.inl rfl, .inl ⟨rfl, by simp [readdone]⟩⟩

theorem netDone_setirq (nd : NetData) (val : BitVec 32) (isread : Bool) :
    NetDone nd (setirq nd val isread) := by
  unfold setirq
  split
  · exact NetDone.same ..
  · cases isread <;> constructor <;> simp

theorem netDone_setctl (nd : NetData) (val : BitVec 32) : NetDone nd (setctl nd val) := by
  unfold setctl
  split
  · exact NetDone.same ..
  · split
    · next hStart =>
      split
      · next hBusy => exact ⟨.inr ⟨rfl, rfl, rfl⟩, .inr (.inl ⟨hBusy, hStart, rfl⟩)⟩
      · next hIdle => exact ⟨.inr ⟨rfl, rfl, rfl⟩, .inr (.inr (.inr ⟨hIdle, hStart, rfl⟩))⟩
    · next hStart =>
      split
      · next hBusy =>
        exact ⟨.inr ⟨rfl, rfl, rfl⟩, .inr (.inl ⟨hBusy, starting_or nd val, rfl⟩)⟩
      · next hIdle => exact ⟨.inr ⟨rfl, rfl, rfl⟩, .inr (.inr (.inl ⟨hIdle, hStart, rfl⟩))⟩

theorem netDone_netStore {nd : NetData} {offset val : BitVec 32} {r : Done NetData}
    (h : netStore bigEndian nd offset val = some r) : NetDone nd r := by
  rw [netStore] at h
  split_ifs at h with hRead hWrite hReadintr hWriteintr hControl
  · rw [← Option.some.inj h]
    exact netDone_buffers ..
  · rw [← Option.some.inj h]
    exact netDone_buffers ..
  · rw [← Option.some.inj h]
    exact netDone_setirq ..
  · rw [← Option.some.inj h]
    exact netDone_setirq ..
  · rw [← Option.some.inj h]
    exact netDone_setctl ..

/-- The invariant: the bit also counts the sends where there is none. -/
structure Net.Sound (n : Net) : Prop where
  line : n.line = n.nd.chkint
  sends : (n.nd.starting ∧ n.sends = 1) ∨ (¬ n.nd.starting ∧ n.sends = 0)

theorem sends_after (n : Net) (r : Done NetData) :
    (n.after r).sends = n.sends + r.arm.toList.countP fun a => a.func = .triggersend := by
  simp [Net.sends, Net.after]

theorem NetDone.line {r : Done NetData} (h : NetDone n.nd r) (hLine : n.line = n.nd.chkint) :
    (n.after r).line = (n.after r).nd.chkint := by
  rcases h.irq with hIrq | ⟨hIrq, hRirq, hWirq⟩
  · simp [Net.after, hIrq]
  · simp [Net.after, hIrq, hLine, NetData.chkint, hRirq, hWirq]

theorem NetDone.sound {r : Done NetData} (h : NetDone n.nd r) (hn : n.Sound) : (n.after r).Sound := by
  refine ⟨h.line hn.line, ?_⟩
  rw [sends_after]
  have hSends := hn.sends
  rcases h.start with ⟨hSame, hArm⟩ | ⟨hOld, hNew, hArm⟩ | ⟨hOld, hNew, hArm⟩ | ⟨hOld, hNew, hArm⟩
  · have hNone : (r.arm.toList.countP fun a => a.func = .triggersend) = 0 := by
      cases hEq : r.arm with
      | none => rfl
      | some a => simp [hArm a hEq]
    rw [hNone]
    simpa [Net.after, NetData.starting, hSame] using hSends
  · have hOne : n.sends = 1 := by simpa [hOld] using hSends
    exact .inl ⟨hNew, by simp [hArm, hOne]⟩
  · have hNone : n.sends = 0 := by simpa [hOld] using hSends
    exact .inr ⟨hNew, by simp [hArm, hNone]⟩
  · have hNone : n.sends = 0 := by simpa [hOld] using hSends
    exact .inl ⟨hNew, by simp [hArm, packetSend, hNone]⟩

theorem triggersend_done (nd : NetData) (slot : Fin 32) (sendto : SendResult) :
    (triggersend nd slot sendto).arm = none ∧ ¬ (triggersend nd slot sendto).dev.starting ∧
      ((triggersend nd slot sendto).irq = some (triggersend nd slot sendto).dev.chkint ∨
        ((triggersend nd slot sendto).irq = none ∧
          (triggersend nd slot sendto).dev.ndRirq = nd.ndRirq ∧
          (triggersend nd slot sendto).dev.ndWirq = nd.ndWirq)) := by
  unfold triggersend dosend
  dsimp only
  split
  · exact ⟨rfl, not_starting_clear _, .inr ⟨rfl, rfl, rfl⟩⟩
  · exact ⟨rfl, not_starting_clear _, .inl rfl⟩

theorem Net.Sound.step (hn : n.Sound) (h : Net.Step slot bigEndian n act n') : n'.Sound := by
  cases h with
  | fetch => exact hn
  | store hStore => exact (netDone_netStore hStore).sound hn
  | arrive => exact (netDone_dorecv ..).sound hn
  | @fire before after a sendto r hPending hFire =>
    have hSends : n.sends = Net.sends { n with pending := before ++ after } +
        if a.func = .triggersend then 1 else 0 := by
      simp [Net.sends, hPending, List.countP_cons]
      omega
    unfold netFire at hFire
    split at hFire
    · next hFunc =>
      cases hFire
      apply (netDone_keepalive ..).sound (n := { n with pending := before ++ after })
      refine ⟨hn.line, ?_⟩
      have hSame := hn.sends
      rw [hSends, hFunc] at hSame
      exact hSame
    · next hFunc =>
      cases hFire
      obtain ⟨hArm, hClear, hIrq⟩ := triggersend_done n.nd slot sendto
      rw [if_pos hFunc] at hSends
      constructor
      · rcases hIrq with hIrq | ⟨hIrq, hRirq, hWirq⟩
        · simp [Net.after, hIrq]
        · simp [Net.after, hIrq, hn.line, NetData.chkint, hRirq, hWirq]
      · refine .inr ⟨hClear, ?_⟩
        have hOld := hn.sends
        rw [sends_after, hArm]
        simp
        omega
    · cases hFire

theorem Net.Sound.consistent (hn : n.Sound) : n.Consistent := by
  refine ⟨?_, ?_⟩
  · rcases hn.sends with ⟨hStart, hOne⟩ | ⟨hClear, hNone⟩
    · simp [hStart, hOne]
    · simp [hClear, hNone]
  · rw [hn.line]
    simp [NetData.chkint]

theorem keeps (n : Net) : n.Keeps slot bigEndian := by
  intro packet n' hStep hRirq
  cases hStep with
  | @arrive junk =>
    cases packet with
    | error => rfl
    | ok data =>
      obtain ⟨rbuf, hSame, hEq | hEq⟩ := dorecv_cases n.nd slot junk data
      · simpa [Net.after, hEq] using hSame hRirq
      · simpa [Net.after, hEq, readdone] using hSame hRirq

theorem netInit_cases {mem : NetData} {hubname : String} {hwaddr : BitVec 16} {sendto : SendResult}
    {r : Done NetData} (h : netInit mem slot hubname hwaddr sendto = some r) :
    r.dev.ndRirq = mem.ndRirq ∧ r.dev.ndWirq = mem.ndWirq ∧ r.dev.ndControl = mem.ndControl ∧
      r.irq = none ∧ ∀ a, r.arm = some a → a.func = .keepalive := by
  unfold netInit at h
  split at h
  · cases h
  · obtain rfl := Option.some.inj h
    unfold keepalive
    split <;> simp

/-- The memory that `domalloc` returned is as an interface at rest needs it. -/
def NetData.AtRest (mem : NetData) : Prop :=
  mem.ndRirq = 0 ∧ mem.ndWirq = 0 ∧ ¬ mem.starting

theorem sound_start_iff {mem : NetData} {hubname : String} {hwaddr : BitVec 16}
    {sendto : SendResult} {r : Done NetData}
    (h : netInit mem slot hubname hwaddr sendto = some r) :
    ((Net.start r).Consistent → mem.AtRest) ∧ (mem.AtRest → (Net.start r).Sound) := by
  obtain ⟨hRirq, hWirq, hControl, hIrq, hArm⟩ := netInit_cases h
  have hNone : (Net.start r).sends = 0 := by
    cases hEq : r.arm with
    | none => simp [Net.start, Net.sends, Net.after, hEq]
    | some a => simp [Net.start, Net.sends, Net.after, hEq, hArm a hEq]
  have hDown : (Net.start r).line = false := by simp [Net.start, Net.after, hIrq]
  have hDev : (Net.start r).nd = r.dev := rfl
  constructor
  · rintro ⟨hStart, hLine⟩
    rw [hDev, NetData.starting, hControl, hNone] at hStart
    rw [hDown, hDev, hRirq, hWirq] at hLine
    refine ⟨?_, ?_, ?_⟩
    · simp_all
    · simp_all
    · simpa [NetData.starting] using hStart
  · rintro ⟨hR, hW, hClear⟩
    refine ⟨?_, .inr ⟨?_, hNone⟩⟩
    · simp [hDown, hDev, NetData.chkint, hRirq, hWirq, hR, hW]
    · rwa [hDev, NetData.starting, hControl]

/-- From `net_init`, the bit, the queue, the line and the buffer agree in all states of all runs just
where the memory it was given happened to hold zeros. -/
theorem net_state_machine {mem : NetData} {hubname : String} {hwaddr : BitVec 16}
    {sendto : SendResult} {r : Done NetData}
    (h : netInit mem slot hubname hwaddr sendto = some r) :
    (∀ p n, Path (Net.Step slot bigEndian) (Net.start r) p n →
      n.Consistent ∧ n.Keeps slot bigEndian) ↔ mem.AtRest := by
  obtain ⟨hOnly, hEnough⟩ := sound_start_iff h
  constructor
  · intro hRuns
    exact hOnly (hRuns [] _ (.nil _)).1
  · intro hRest p n hRun
    have hSound : n.Sound :=
      hRun.invariant (fun n act n' hn hStep => hn.step hStep) (hEnough hRest)
    exact ⟨hSound.consistent, keeps n⟩

def cleanMemory : NetData where
  ndHubaddr := ""
  ndLostcarrier := false
  ndRirq := 0
  ndWirq := 0
  ndControl := 0
  ndStatus := 0
  ndRbuf _ := 0
  ndWbuf _ := 0

theorem net_state_machine_clean : ∃ r, netInit cleanMemory 0 ".sockets/hub" 1 .sent = some r ∧
    ∀ p n, Path (Net.Step 0 true) (Net.start r) p n → n.Consistent ∧ n.Keeps 0 true := by
  obtain ⟨r, hInit⟩ : ∃ r, netInit cleanMemory 0 ".sockets/hub" 1 .sent = some r := ⟨_, rfl⟩
  have hRest : cleanMemory.AtRest := ⟨rfl, rfl, by simp [NetData.starting, cleanMemory]⟩
  exact ⟨r, hInit, (net_state_machine hInit).mpr hRest⟩

/-- Memory that another device has left. -/
def usedMemory : NetData := { cleanMemory with ndRirq := 0x6e657400, ndControl := 2 }

/-- No send can ever be started, and the interrupt that the register speaks of is not raised. -/
theorem not_net_state_machine : ∃ r, netInit usedMemory 0 ".sockets/hub" 1 .sent = some r ∧
    ¬ ∀ p n, Path (Net.Step 0 true) (Net.start r) p n → n.Consistent ∧ n.Keeps 0 true := by
  refine ⟨_, rfl, fun hRuns => ?_⟩
  obtain ⟨⟨hStart, -⟩, -⟩ := hRuns [] _ (.nil _)
  have hSet : usedMemory.ndControl &&& ndcStart ≠ 0 := by decide
  exact absurd (hStart.mp hSet) (by decide)

end Runs

end Sys161.Bus
