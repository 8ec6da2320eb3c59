import Mathlib.Data.List.Nodup
import Sys161.Hub.Nethub
import Sys161.Lib.Attempt

/-!
# Which senders the hub knows, and who gets what

The array of senders is a list for these results. A turn of the loop registers a
sender, sends, and drops senders; each is a function on that list.
-/

namespace Sys161.Hub

open Attempt

set_option autoImplicit false

/-- The table when a sender has been heard. -/
def register (addr : Addr) (rsun : SockaddrUn) (rlen : Nat) (l : List Sender) : List Sender :=
  if addr ∈ l.map Sender.addr then
    l.map fun sdr => if sdr.addr = addr then { sdr with sun := rsun, len := rlen } else sdr
  else
    l ++ [⟨addr, rsun, rlen, 0⟩]

/-- The table when sends have failed. -/
def tally (fails : Nat → Bool) (l : List Sender) : List Sender :=
  l.mapIdx fun i sdr => if fails i then { sdr with errors := sdr.errors + 1 } else sdr

/-- The table without the senders that killsenders drops. -/
def alive (l : List Sender) : List Sender := l.filter fun sdr => sdr.errors ≤ 5

/-- The packets that went out, and where to. -/
def sends (es : List Event) : List (List (BitVec 8) × SockaddrUn × Nat) :=
  es.filterMap fun
    | .sendto pkt sun len => some (pkt, sun, len)
    | .notice _ => none

/-- A packet to each of the senders, in the order of the table. -/
def toAll (pkt : List (BitVec 8)) (l : List Sender) : List (List (BitVec 8) × SockaddrUn × Nat) :=
  l.map fun sdr => (pkt, sdr.sun, sdr.len)

@[simp] theorem sends_nil : sends [] = [] := rfl

@[simp] theorem sends_notice (n : Notice) (es : List Event) :
    sends (.notice n :: es) = sends es := rfl

@[simp] theorem sends_sendto (pkt : List (BitVec 8)) (sun : SockaddrUn) (len : Nat)
    (es : List Event) : sends (.sendto pkt sun len :: es) = (pkt, sun, len) :: sends es := rfl

@[simp] theorem sends_append (es es' : List Event) :
    sends (es ++ es') = sends es ++ sends es' := by
  simp [sends]

section Tables

variable {addr : Addr} {rsun : SockaddrUn} {rlen : Nat} {l : List Sender}

theorem addrs_register :
    (register addr rsun rlen l).map Sender.addr =
      if addr ∈ l.map Sender.addr then l.map Sender.addr else l.map Sender.addr ++ [addr] := by
  unfold register
  split
  · rw [List.map_map]
    apply List.map_congr_left
    intro sdr _
    simp only [Function.comp]
    split <;> rfl
  · rw [List.map_append]
    rfl

theorem nodup_register (h : (l.map Sender.addr).Nodup) :
    ((register addr rsun rlen l).map Sender.addr).Nodup := by
  rw [addrs_register]
  split
  · exact h
  · next hNew =>
    rw [← List.concat_eq_append]
    exact h.concat hNew

theorem tally_cons (fails : Nat → Bool) (sdr : Sender) :
    tally fails (sdr :: l) =
      (if fails 0 then { sdr with errors := sdr.errors + 1 } else sdr) ::
        tally (fun i => fails (i + 1)) l := by
  simp [tally, List.mapIdx_cons]

theorem addrs_tally (fails : Nat → Bool) :
    (tally fails l).map Sender.addr = l.map Sender.addr := by
  induction l generalizing fails with
  | nil => rfl
  | cons sdr rest ih =>
    rw [tally_cons, List.map_cons, List.map_cons, ih]
    split <;> rfl

theorem nodup_alive (h : (l.map Sender.addr).Nodup) : ((alive l).map Sender.addr).Nodup :=
  h.sublist (List.filter_sublist.map _)

end Tables

section Loops

variable {a : PtrArray Sender}

theorem guyAt_append {before rest : List Sender} {sdr : Sender}
    (h : Holds a (before ++ sdr :: rest)) : guyAt a before.length = .ok sdr := by
  rw [guyAt, h.getguy]
  simp

theorem Holds.write_append {before rest : List Sender} {sdr : Sender}
    (h : Holds a (before ++ sdr :: rest)) (new : Sender) :
    Holds (Hub.writeGuy a before.length new) (before ++ new :: rest) := by
  have hWrite := h.writeGuy before.length new
  simpa using hWrite

theorem Holds.remove_append {before rest : List Sender} {sdr : Sender}
    (h : Holds a (before ++ sdr :: rest)) :
    Holds (arrayRemove a before.length) (before ++ rest) := by
  have hRemove := h.remove (by simp : before.length < (before ++ sdr :: rest).length)
  rw [List.eraseIdx_append_of_length_le (Nat.le_refl _), Nat.sub_self] at hRemove
  exact hRemove

theorem Holds.pass {before rest : List Sender} {sdr : Sender}
    (h : Holds a (before ++ sdr :: rest)) : Holds a ((before ++ [sdr]) ++ rest) := by
  simpa using h

theorem checkLoop_absent (addr : Addr) (rsun : SockaddrUn) (rlen : Nat)
    {before rest : List Sender} (h : Holds a (before ++ rest))
    (hNone : addr ∉ rest.map Sender.addr) :
    checkLoop addr rsun rlen rest.length before.length a = .ok none := by
  induction rest generalizing before with
  | nil => rfl
  | cons sdr rest ih =>
    rw [List.map_cons, List.mem_cons, not_or] at hNone
    have hRest := ih h.pass hNone.2
    rw [List.length_append, List.length_singleton] at hRest
    rw [List.length_cons, checkLoop, guyAt_append h]
    simp only [bind, Except.bind]
    rw [if_neg (Ne.symm hNone.1)]
    exact hRest

theorem checkLoop_present (addr : Addr) (rsun : SockaddrUn) (rlen : Nat)
    {before rest : List Sender} (h : Holds a (before ++ rest))
    (hNodup : (rest.map Sender.addr).Nodup) (hSome : addr ∈ rest.map Sender.addr) :
    ∃ a', checkLoop addr rsun rlen rest.length before.length a = .ok (some a') ∧
      Holds a' (before ++ register addr rsun rlen rest) := by
  induction rest generalizing before with
  | nil => simp at hSome
  | cons sdr rest ih =>
    rw [List.map_cons, List.nodup_cons] at hNodup
    rw [List.length_cons, checkLoop, guyAt_append h]
    simp only [bind, Except.bind]
    by_cases hHere : sdr.addr = addr
    · have hOthers : ∀ other ∈ rest, other.addr ≠ addr := by
        intro other hOther hEq
        apply hNodup.1
        rw [hHere, ← hEq]
        exact List.mem_map_of_mem hOther
      have hRest : register addr rsun rlen (sdr :: rest) =
          { sdr with sun := rsun, len := rlen } :: rest := by
        rw [register, if_pos hSome, List.map_cons, if_pos hHere]
        congr 1
        rw [List.map_congr_left fun other hOther => if_neg (hOthers other hOther)]
        exact List.map_id' rest
      rw [if_pos hHere, hRest]
      exact ⟨_, rfl, h.write_append _⟩
    · have hIn : addr ∈ rest.map Sender.addr := by
        rcases List.mem_cons.mp hSome with hEq | hIn
        · exact absurd hEq.symm hHere
        · exact hIn
      have hRest : register addr rsun rlen (sdr :: rest) =
          sdr :: register addr rsun rlen rest := by
        rw [register, if_pos hSome, List.map_cons, if_neg hHere, register, if_pos hIn]
      rcases ih h.pass hNodup.2 hIn with ⟨a', hRun, hHolds⟩
      rw [List.length_append, List.length_singleton] at hRun
      rw [if_neg hHere, hRest]
      exact ⟨a', hRun, by simpa using hHolds⟩

theorem sendLoop_spec (fails : Nat → Bool) (pkt : List (BitVec 8)) {before rest : List Sender}
    (h : Holds a (before ++ rest)) :
    Yields (sendLoop fails pkt rest.length before.length a)
      (fun r => Holds r.1 (before ++ tally (fun i => fails (before.length + i)) rest) ∧
        sends r.2 = toAll pkt rest) (fun _ => False) := by
  induction rest generalizing before a with
  | nil => exact ⟨h, rfl⟩
  | cons sdr rest ih =>
    have hShift : (fun i => fails (before.length + 1 + i)) =
        fun i => fails (before.length + (i + 1)) := by
      funext i
      rw [Nat.add_right_comm, Nat.add_assoc]
    rw [List.length_cons, sendLoop, guyAt_append h, tally_cons, ← hShift]
    simp only [yields_bind, yields_ok]
    split
    · next hFail =>
      have hRest := ih (h.write_append { sdr with errors := sdr.errors + 1 }).pass
      rw [List.length_append, List.length_singleton] at hRest
      simp only [yields_bind, yields_pure]
      apply hRest.mono
      · intro r hr
        constructor
        · simpa [hFail] using hr.1
        · simp [hr.2, toAll]
      · exact fun _ => id
    · next hSent =>
      have hRest := ih h.pass
      rw [List.length_append, List.length_singleton] at hRest
      simp only [yields_bind, yields_pure]
      apply hRest.mono
      · intro r hr
        constructor
        · simpa [hSent] using hr.1
        · simp [hr.2, toAll]
      · exact fun _ => id

theorem killLoop_spec {kept rest : List Sender} (h : Holds a (kept ++ rest)) :
    Yields (killLoop rest.length kept.length a)
      (fun r => Holds r.1 (kept ++ alive rest) ∧ sends r.2 = []) (fun _ => False) := by
  induction rest generalizing kept a with
  | nil => exact ⟨h, rfl⟩
  | cons sdr rest ih =>
    rw [List.length_cons, killLoop, guyAt_append h]
    simp only [yields_bind, yields_ok]
    split
    · next hDrop =>
      have hAlive : alive (sdr :: rest) = alive rest :=
        List.filter_cons_of_neg (by simpa using hDrop)
      rw [hAlive, yields_bind]
      apply (ih h.remove_append).mono
      · intro r hr
        exact ⟨hr.1, hr.2⟩
      · exact fun _ => id
    · next hKeep =>
      have hAlive : alive (sdr :: rest) = sdr :: alive rest :=
        List.filter_cons_of_pos (by simpa using hKeep)
      have hRest := ih h.pass
      rw [List.length_append, List.length_singleton] at hRest
      rw [hAlive]
      apply hRest.mono
      · intro r hr
        exact ⟨by simpa using hr.1, hr.2⟩
      · exact fun _ => id

end Loops

section Turns

variable {host : Host} {t : Turn} {a : PtrArray Sender} {l : List Sender}

theorem dosend_spec (pkt : List (BitVec 8)) (h : Holds a l) :
    Yields (dosend t pkt a)
      (fun r => Holds r.1 (tally t.sendFails l) ∧ sends r.2 = toAll pkt l) (fun _ => False) := by
  have hStart : Holds a ([] ++ l) := h
  have hLoop := sendLoop_spec t.sendFails pkt hStart
  rw [dosend, h.num]
  simpa using hLoop

theorem killsenders_spec (h : Holds a l) :
    Yields (killsenders a) (fun r => Holds r.1 (alive l) ∧ sends r.2 = []) (fun _ => False) := by
  have hStart : Holds a ([] ++ l) := h
  have hLoop := killLoop_spec hStart
  rw [killsenders, h.num]
  exact hLoop

/-- There is memory for a sender that is new. -/
def Turn.Memory (t : Turn) : Prop := t.senderMalloc = true ∧ t.arrayMalloc = true

theorem checksender_spec {addr : Addr} (rsun : SockaddrUn) (rlen : Nat) (h : Holds a l)
    (hNodup : (l.map Sender.addr).Nodup) (hAddr : addr ≠ broadcastAddr) :
    Yields (checksender host t addr rsun rlen a)
      (fun r => Holds r.1 (register addr rsun rlen l) ∧ sends r.2 = [])
      (fun e => e = .outOfMemory ∧ ¬t.Memory) := by
  have hStart : Holds a ([] ++ l) := h
  unfold checksender
  rw [if_neg hAddr, h.num]
  by_cases hIn : addr ∈ l.map Sender.addr
  · rcases checkLoop_present addr rsun rlen hStart hNodup hIn with ⟨a', hRun, hHolds⟩
    rw [List.length_nil] at hRun
    rw [hRun]
    exact ⟨hHolds, rfl⟩
  · have hRun := checkLoop_absent addr rsun rlen hStart hIn
    have hNew : register addr rsun rlen l = l ++ [⟨addr, rsun, rlen, 0⟩] := if_neg hIn
    rcases h.add t.arrayMalloc ⟨addr, rsun, rlen, 0⟩ with ⟨hMemory, hHolds⟩
    rw [List.length_nil] at hRun
    rw [hRun, hNew]
    simp only [yields_bind, yields_ok]
    split
    · next hNone =>
      constructor
      · rfl
      · intro hThere
        simp [hThere.1] at hNone
    · split
      · next hFailed =>
        constructor
        · rfl
        · intro hThere
          exact hFailed (hMemory hThere.2)
      · next hAdded =>
        constructor
        · exact hHolds (not_not.mp hAdded)
        · rw [sends_append, sends_notice, sends_nil, List.nil_append]
          split <;> rfl

/-- The host reports all of the address, and an address of the right kind. -/
def Datagram.Sound (host : Host) (d : Datagram) : Prop :=
  d.rlen ≤ host.sizeofSockaddrUn ∧ d.rsun.family = host.afUnix ∧
    (host.hasSunLen = true → d.rlen ≤ d.rsun.len)

/-- A header with the magic number and the size of the packet, from a pathname that fits. -/
def Datagram.WellFormed (host : Host) (d : Datagram) : Prop :=
  sizeofLinkheader ≤ d.packet.length ∧ lhFrame d.packet = frameMagic ∧
    (lhPacketlen d.packet).toNat = d.packet.length ∧
    (host.hasSunLen = true → d.rlen = d.rsun.len)

instance (host : Host) (d : Datagram) : Decidable (d.WellFormed host) :=
  inferInstanceAs (Decidable (_ ∧ _))

/-- What becomes of the table and what is sent when a packet has passed the checks. -/
def deliver (t : Turn) (d : Datagram) (l : List Sender) :
    List Sender × List (List (BitVec 8) × SockaddrUn × Nat) :=
  let known := register (lhFrom d.packet) d.rsun d.rlen l
  if lhTo d.packet = hubAddr then
    (known, [])
  else
    (alive (tally t.sendFails known), toAll d.packet known)

/-- What a turn makes of the table, and what it sends. -/
def turnTable (host : Host) (t : Turn) (l : List Sender) :
    List Sender × List (List (BitVec 8) × SockaddrUn × Nat) :=
  match t.received with
  | none => (l, [])
  | some d =>
    if d.WellFormed host ∧ lhFrom d.packet ≠ broadcastAddr then
      deliver t d l
    else
      (l, [])

/-- What is left of a turn when the packet has passed the checks. -/
theorem deliver_spec (d : Datagram) (h : Holds a l) (hNodup : (l.map Sender.addr).Nodup)
    (hFrom : lhFrom d.packet ≠ broadcastAddr) :
    Yields (do
      let (a, added) ← checksender host t (lhFrom d.packet) d.rsun d.rlen a
      if lhTo d.packet = hubAddr then
        return (a, added)
      else
        let (a, sent) ← dosend t d.packet a
        let (a, dropped) ← killsenders a
        return (a, added ++ sent ++ dropped))
      (fun r => Holds r.1 (deliver t d l).1 ∧ sends r.2 = (deliver t d l).2)
      (fun e => e = .outOfMemory ∧ ¬t.Memory) := by
  rw [yields_bind]
  apply (checksender_spec d.rsun d.rlen h hNodup hFrom).mono
  · rintro ⟨b, added⟩ ⟨hKnown, hAdded⟩
    dsimp only at hKnown hAdded ⊢
    by_cases hTo : lhTo d.packet = hubAddr
    · simp only [deliver, hTo, if_true]
      exact ⟨hKnown, hAdded⟩
    · simp only [deliver, hTo, if_false]
      rw [yields_bind]
      apply (dosend_spec d.packet hKnown).mono
      · rintro ⟨b', sent⟩ ⟨hTally, hSent⟩
        dsimp only at hTally hSent ⊢
        rw [yields_bind]
        apply (killsenders_spec hTally).mono
        · rintro ⟨b'', dropped⟩ ⟨hAlive, hDropped⟩
          dsimp only at hAlive hDropped ⊢
          constructor
          · exact hAlive
          · simp [hAdded, hSent, hDropped]
        · exact fun _ => False.elim
      · exact fun _ => False.elim
  · exact fun _ => id

theorem loopTurn_spec (h : Holds a l) (hNodup : (l.map Sender.addr).Nodup) :
    Yields (loopTurn host t a)
      (fun r => Holds r.1 (turnTable host t l).1 ∧ sends r.2 = (turnTable host t l).2)
      (fun e => ∃ d, t.received = some d ∧
        (e = .assertion ∧ ¬d.Sound host ∨ e = .outOfMemory ∧ ¬t.Memory)) := by
  unfold loopTurn turnTable
  cases hGot : t.received with
  | none => exact ⟨h, rfl⟩
  | some d =>
    dsimp only
    have hRefused : ∀ n, ¬(d.WellFormed host ∧ lhFrom d.packet ≠ broadcastAddr) →
        Yields (pure (a, [.notice n]) : Except Stop _)
          (fun r => Holds r.1 (if d.WellFormed host ∧ lhFrom d.packet ≠ broadcastAddr then
            deliver t d l else (l, [])).1 ∧
          sends r.2 = (if d.WellFormed host ∧ lhFrom d.packet ≠ broadcastAddr then
            deliver t d l else (l, [])).2)
          (fun e => ∃ d', some d = some d' ∧
            (e = .assertion ∧ ¬d'.Sound host ∨ e = .outOfMemory ∧ ¬t.Memory)) := by
      intro n hBad
      rw [if_neg hBad]
      exact ⟨h, rfl⟩
    refine .ite (fun hLen => ⟨d, rfl, .inl ⟨rfl, fun hSound => hLen hSound.1⟩⟩) fun _ => ?_
    refine .ite (fun hFamily => ⟨d, rfl, .inl ⟨rfl, fun hSound => hFamily hSound.2.1⟩⟩) fun _ => ?_
    refine .ite (fun hSun => ⟨d, rfl, .inl ⟨rfl, fun hSound => hSun.2 (hSound.2.2 hSun.1)⟩⟩)
      fun hSun => ?_
    refine .ite (fun hShort => hRefused _ fun hGood =>
      Nat.ne_of_lt hShort.2 (hGood.1.2.2.2 hShort.1)) fun hShort => ?_
    refine .ite (fun hNe => ?_) fun hWhole => ?_
    · have hBoth : d.rlen ≤ d.rsun.len ∧ ¬d.rlen < d.rsun.len :=
        ⟨not_not.mp fun hLe => hSun ⟨hNe.1, hLe⟩, fun hLt => hShort ⟨hNe.1, hLt⟩⟩
      have hNot := hNe.2
      omega
    refine .ite (fun hRunt => hRefused _ fun hGood => Nat.not_le_of_lt hRunt hGood.1.1)
      fun hSize => ?_
    refine .ite (fun hFrame => hRefused _ fun hGood => hFrame hGood.1.2.1) fun hFrame => ?_
    refine .ite (fun hBadSize => hRefused _ fun hGood => hBadSize hGood.1.2.2.1)
      fun hPacketlen => ?_
    refine .ite (fun hBroadcast => hRefused _ fun hGood => hGood.2 hBroadcast) fun hFrom => ?_
    have hGood : d.WellFormed host :=
      ⟨Nat.le_of_not_lt hSize, not_not.mp hFrame, not_not.mp hPacketlen,
        fun hHas => not_not.mp fun hNe => hWhole ⟨hHas, hNe⟩⟩
    rw [if_pos ⟨hGood, hFrom⟩]
    apply (deliver_spec d h hNodup hFrom).mono
    · exact fun _ => id
    · exact fun e hMemory => ⟨d, rfl, .inr hMemory⟩

/-- What the hub may rely on of the host in a turn: a sound address, and memory. -/
def Turn.Served (host : Host) (t : Turn) : Prop :=
  ∀ d, t.received = some d → d.Sound host ∧ t.Memory

theorem turn_stops {e : Stop} (h : ∃ d, t.received = some d ∧
    (e = .assertion ∧ ¬d.Sound host ∨ e = .outOfMemory ∧ ¬t.Memory)) : ¬t.Served host := by
  intro hServed
  rcases h with ⟨d, hGot, ⟨_, hBad⟩ | ⟨_, hBad⟩⟩
  · exact hBad (hServed d hGot).1
  · exact hBad (hServed d hGot).2

theorem turnTable_accepted {d : Datagram} (hGot : t.received = some d)
    (hGood : d.WellFormed host) (hFrom : lhFrom d.packet ≠ broadcastAddr) :
    turnTable host t l = deliver t d l := by
  rw [turnTable, hGot]
  exact if_pos ⟨hGood, hFrom⟩

theorem turnTable_refused (hBad : ∀ d, t.received = some d →
    ¬d.WellFormed host ∨ lhFrom d.packet = broadcastAddr) : turnTable host t l = (l, []) := by
  rw [turnTable]
  cases hGot : t.received with
  | none => rfl
  | some d =>
    apply if_neg
    rintro ⟨hGood, hFrom⟩
    rcases hBad d hGot with hNot | hBroadcast
    · exact hNot hGood
    · exact hFrom hBroadcast

theorem nodup_turnTable (h : (l.map Sender.addr).Nodup) :
    ((turnTable host t l).1.map Sender.addr).Nodup := by
  unfold turnTable
  cases t.received with
  | none => exact h
  | some d =>
    dsimp only
    split
    · unfold deliver
      dsimp only
      split
      · exact nodup_register h
      · apply nodup_alive
        rw [addrs_tally]
        exact nodup_register h
    · exact h

theorem loop_spec (ts : List Turn) (h : Holds a l) (hNodup : (l.map Sender.addr).Nodup) :
    Yields (loop host ts a)
      (fun r => ∃ l', Holds r.1 l' ∧ (l'.map Sender.addr).Nodup)
      (fun _ => ∃ t ∈ ts, ¬t.Served host) := by
  induction ts generalizing a l with
  | nil => exact ⟨l, h, hNodup⟩
  | cons t ts ih =>
    rw [loop, yields_bind]
    apply (loopTurn_spec h hNodup).mono
    · rintro ⟨b, done⟩ ⟨hHolds, _⟩
      dsimp only
      rw [yields_bind]
      apply (ih hHolds (nodup_turnTable hNodup)).mono
      · exact fun _ => id
      · rintro _ ⟨t', hIn, hBad⟩
        exact ⟨t', List.mem_cons_of_mem _ hIn, hBad⟩
    · intro e hStop
      exact ⟨t, List.mem_cons_self, turn_stops hStop⟩

theorem mem_register (addr : Addr) (rsun : SockaddrUn) (rlen : Nat) (l : List Sender) :
    ∃ sdr ∈ register addr rsun rlen l, sdr.addr = addr ∧ sdr.sun = rsun ∧ sdr.len = rlen := by
  unfold register
  split
  · next hIn =>
    rcases List.mem_map.mp hIn with ⟨sdr, hSdr, hAddr⟩
    exact ⟨_, List.mem_map_of_mem hSdr, by simp [hAddr]⟩
  · exact ⟨_, List.mem_append_right _ List.mem_cons_self, rfl, rfl, rfl⟩

end Turns

end Sys161.Hub
