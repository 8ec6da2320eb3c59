import Sys161.Lib.Buffer
import Sys161.Lib.CString
import Sys161.Lib.Framing
import Sys161.Lib.Runs

/-!
# Packets from the debugger

A packet goes from a dollar sign to two characters after a hash mark. What comes
from the debugger is read in pieces and cut into packets.
-/

namespace Sys161.Gdb

open Buffer CString Framing Runs

set_option autoImplicit false

def buflen : Nat := 1024

def dollar : BitVec 8 := 0x24

def hashMark : BitVec 8 := 0x23

structure Gdbcontext where
  myfd : Int
  buf : Nat → BitVec 8
  bufptr : Nat

def Gdbcontext.kept (ctx : Gdbcontext) : List (BitVec 8) := contents ctx.buf ctx.bufptr

/-- What is taken off the buffer at a time: the packet, and what is dropped before it. -/
structure GdbFrame where
  dropped : List (BitVec 8)
  packet : List (BitVec 8)
deriving DecidableEq

/-- Why the loop in `gdb_receive` ends. -/
inductive GdbStop where
  | incomplete
  | assertion (x : String)
deriving DecidableEq

/-- One turn of the loop in `gdb_receive`, up to `debug_exec` of the packet. -/
def gdbTurn (ctx : Gdbcontext) : Except GdbStop (GdbFrame × Gdbcontext) :=
  match ctx.kept.idxOf? dollar with
  | none => .error .incomplete
  | some offset =>
    if ¬ offset < ctx.bufptr then .error (.assertion "offset < ctx->bufptr")
    else
      let maxpacklen := ctx.bufptr - offset
      match (ctx.kept.drop offset).idxOf? hashMark with
      | none => .error .incomplete
      | some hashpos =>
        let packetlen := hashpos + 3
        if packetlen > maxpacklen then .error .incomplete
        else if ¬ packetlen + 1 < buflen + 1 then
          .error (.assertion "packetlen+1 < sizeof(tmpbuf)")
        else
          let usedlen := offset + packetlen
          if ¬ usedlen ≤ ctx.bufptr then .error (.assertion "usedlen <= ctx->bufptr")
          else
            .ok (⟨ctx.kept.take offset, (ctx.kept.drop offset).take packetlen⟩,
              { ctx with
                bufptr := ctx.bufptr - usedlen
                buf := moveDown ctx.buf usedlen (ctx.bufptr - usedlen) })

/-- `gdb_receive` where `read` gives some bytes. -/
def gdbReceive (ctx : Gdbcontext) (data : List (BitVec 8)) :
    List GdbFrame × Gdbcontext × Option GdbStop :=
  let ctx := if buflen ≤ ctx.bufptr then { ctx with bufptr := 0 } else ctx
  let ctx := { ctx with
    buf := store ctx.buf ctx.bufptr data
    bufptr := ctx.bufptr + data.length }
  drain gdbTurn (ctx.bufptr + 1) ctx

/-! ## Frames -/

/-- The first packet of a stream that is there as a whole. -/
def gdbCut (l : List (BitVec 8)) : Option (GdbFrame × List (BitVec 8)) :=
  match l.idxOf? dollar with
  | none => none
  | some offset =>
    match (l.drop offset).idxOf? hashMark with
    | none => none
    | some hashpos =>
      if hashpos + 3 > l.length - offset then none
      else
        some (⟨l.take offset, (l.drop offset).take (hashpos + 3)⟩,
          (l.drop offset).drop (hashpos + 3))

/-- Nothing is dropped but what comes before a dollar sign, and the packet has one hash mark, two
before its end. -/
def GdbFrame.Sound (f : GdbFrame) : Prop :=
  dollar ∉ f.dropped ∧
    ∃ body c d, f.packet = dollar :: body ++ [hashMark, c, d] ∧ hashMark ∉ body

theorem gdbCut_of_parts {g body r : List (BitVec 8)} {c d : BitVec 8} (hDropped : dollar ∉ g)
    (hBody : hashMark ∉ body) :
    gdbCut (g ++ (dollar :: body ++ [hashMark, c, d]) ++ r) =
      some (⟨g, dollar :: body ++ [hashMark, c, d]⟩, r) := by
  have hDollar : (g ++ (dollar :: body ++ [hashMark, c, d]) ++ r).idxOf? dollar = some g.length :=
    (idxOf?_eq_some_split dollar).mpr
      ⟨g, body ++ [hashMark, c, d] ++ r, by simp, hDropped, rfl⟩
  have hHash : (dollar :: body ++ [hashMark, c, d] ++ r).idxOf? hashMark = some (body.length + 1) := by
    refine (idxOf?_eq_some_split hashMark).mpr ⟨dollar :: body, c :: d :: r, by simp, ?_, rfl⟩
    simpa [hBody] using (by decide : hashMark ≠ dollar)
  have hDrop : (g ++ (dollar :: body ++ [hashMark, c, d]) ++ r).drop g.length =
      dollar :: body ++ [hashMark, c, d] ++ r := by
    rw [List.append_assoc, List.drop_left]
  have hLength : (dollar :: body ++ [hashMark, c, d]).length = body.length + 1 + 3 := by simp
  rw [gdbCut, hDollar]
  dsimp only
  rw [hDrop, hHash]
  dsimp only
  rw [if_neg (by simp), List.append_assoc, List.take_left, ← hLength, List.take_left,
    List.drop_left]

/-- A cut tells the parts apart. -/
theorem exists_parts {l r : List (BitVec 8)} {f : GdbFrame} (h : gdbCut l = some (f, r)) :
    ∃ g body c d r', l = g ++ (dollar :: body ++ [hashMark, c, d]) ++ r' ∧ dollar ∉ g ∧
      hashMark ∉ body := by
  unfold gdbCut at h
  split at h
  · cases h
  · next offset hDollar =>
    split at h
    · cases h
    · next hashpos hHash =>
      split at h
      · cases h
      · next hWhole =>
        obtain ⟨g, t, rfl, hDropped, rfl⟩ := (idxOf?_eq_some_split dollar).mp hDollar
        rw [List.drop_left] at hHash
        obtain ⟨front, back, hText, hBody, rfl⟩ := (idxOf?_eq_some_split hashMark).mp hHash
        have hTwo : 2 ≤ back.length := by
          have hLength := congrArg List.length hText
          simp only [List.length_append, List.length_cons] at hLength hWhole
          omega
        match front, back, hTwo with
        | [], _, _ => exact absurd (List.cons.inj hText).1 (by decide)
        | b :: body, c :: d :: r', _ =>
          obtain ⟨rfl, rfl⟩ := List.cons.inj hText
          exact ⟨g, body, c, d, r', by simp, hDropped, fun hMem => hBody (by simp [hMem])⟩

theorem gdbCut_eq_some_iff {l r : List (BitVec 8)} {f : GdbFrame} :
    gdbCut l = some (f, r) ↔ l = f.dropped ++ f.packet ++ r ∧ f.Sound := by
  constructor
  · intro h
    obtain ⟨g, body, c, d, r', rfl, hDropped, hBody⟩ := exists_parts h
    rw [gdbCut_of_parts hDropped hBody] at h
    cases h
    exact ⟨rfl, hDropped, body, c, d, rfl, hBody⟩
  · rintro ⟨rfl, hDropped, body, c, d, hPacket, hBody⟩
    obtain ⟨g, packet⟩ := f
    obtain rfl : packet = dollar :: body ++ [hashMark, c, d] := hPacket
    exact gdbCut_of_parts hDropped hBody

theorem GdbFrame.Sound.packet_pos {f : GdbFrame} (h : f.Sound) : 4 ≤ f.packet.length := by
  obtain ⟨-, body, c, d, hPacket, -⟩ := h
  simp [hPacket]

def packetCutter : Cutter (BitVec 8) GdbFrame where
  cut := gdbCut
  shorter h := by
    obtain ⟨rfl, hSound⟩ := gdbCut_eq_some_iff.mp h
    have hSome := hSound.packet_pos
    simp
    omega
  extend m h := by
    obtain ⟨rfl, hSound⟩ := gdbCut_eq_some_iff.mp h
    exact gdbCut_eq_some_iff.mpr ⟨by simp, hSound⟩

/-- The packets of a whole stream with what is dropped before each, and what is no packet yet. -/
def gdbFrames (stream : List (BitVec 8)) : List GdbFrame × List (BitVec 8) :=
  packetCutter.frames stream

/-- Nothing of the stream is lost or made up. -/
theorem join_gdbFrames (l : List (BitVec 8)) :
    ((gdbFrames l).1.map fun f => f.dropped ++ f.packet).flatten ++ (gdbFrames l).2 = l ∧
      ∀ f ∈ (gdbFrames l).1, f.Sound := by
  unfold gdbFrames
  induction l using packetCutter.frames_induct with
  | hNone l hCut => simp [Cutter.frames_none hCut]
  | hSome l f r hCut ih =>
    obtain ⟨rfl, hSound⟩ := gdbCut_eq_some_iff.mp hCut
    obtain ⟨hJoin, hAll⟩ := ih
    rw [Cutter.frames_some hCut]
    refine ⟨?_, ?_⟩
    · simpa using hJoin
    · simpa [hSound] using hAll

/-! ## The loop -/

def tooLong : GdbStop := .assertion "packetlen+1 < sizeof(tmpbuf)"

theorem Gdbcontext.length_kept (ctx : Gdbcontext) : ctx.kept.length = ctx.bufptr := by
  simp [Gdbcontext.kept]

/-- A turn is a cut of the buffer, but for a packet that does not fit with its terminator. -/
theorem gdbTurn_eq (ctx : Gdbcontext) :
    gdbTurn ctx =
      match gdbCut ctx.kept with
      | none => .error .incomplete
      | some (f, r) =>
        if f.packet.length < buflen then
          .ok (f, { ctx with
            bufptr := r.length
            buf := moveDown ctx.buf (f.dropped ++ f.packet).length r.length })
        else .error tooLong := by
  unfold gdbTurn gdbCut
  cases hDollar : ctx.kept.idxOf? dollar with
  | none => rfl
  | some offset =>
    obtain ⟨g, t, hKept, -, hOffset⟩ := (idxOf?_eq_some_split dollar).mp hDollar
    have hIn : offset < ctx.bufptr := by
      have hLength := congrArg List.length hKept
      rw [ctx.length_kept, List.length_append, List.length_cons] at hLength
      omega
    dsimp only
    rw [if_neg (not_not.mpr hIn), ctx.length_kept]
    cases hHash : (ctx.kept.drop offset).idxOf? hashMark with
    | none => rfl
    | some hashpos =>
      dsimp only
      by_cases hShort : hashpos + 3 > ctx.bufptr - offset
      · rw [if_pos hShort, if_pos hShort]
      · have hUsed : offset + (hashpos + 3) ≤ ctx.bufptr := by omega
        have hPacket : ((ctx.kept.drop offset).take (hashpos + 3)).length = hashpos + 3 := by
          rw [List.length_take, List.length_drop, ctx.length_kept]
          omega
        have hDropped : (ctx.kept.take offset).length = offset := by
          rw [List.length_take, ctx.length_kept]
          omega
        have hRest : ((ctx.kept.drop offset).drop (hashpos + 3)).length =
            ctx.bufptr - (offset + (hashpos + 3)) := by
          rw [List.length_drop, List.length_drop, ctx.length_kept]
          omega
        rw [if_neg hShort, if_neg hShort, if_neg (not_not.mpr hUsed)]
        dsimp only
        rw [hPacket, List.length_append, hPacket, hDropped, hRest]
        by_cases hFits : hashpos + 3 < buflen
        · rw [if_pos hFits, if_neg (by omega)]
        · rw [if_neg hFits, if_pos (by omega)]
          rfl

theorem follows_gdbTurn :
    Follows packetCutter gdbTurn Gdbcontext.kept (fun f => f.packet.length < buflen) .incomplete
      tooLong where
  stop ctx hCut := by
    have hNone : gdbCut ctx.kept = none := hCut
    rw [gdbTurn_eq, hNone]
  next ctx f r hCut hFits := by
    have hSome : gdbCut ctx.kept = some (f, r) := hCut
    rw [gdbTurn_eq, hSome]
    refine ⟨_, if_pos hFits, ?_⟩
    obtain ⟨hKept, -⟩ := gdbCut_eq_some_iff.mp hCut
    have hLength := congrArg List.length hKept
    rw [ctx.length_kept, List.length_append] at hLength
    rw [Gdbcontext.kept, contents_moveDown, ← hLength, ← Gdbcontext.kept, hKept, List.drop_left]
  refuse ctx f r hCut hLong := by
    have hSome : gdbCut ctx.kept = some (f, r) := hCut
    rw [gdbTurn_eq, hSome]
    exact if_neg hLong

/-! ## Runs -/

/-- The connection; a failed assertion ends the program. -/
structure GdbConn where
  ctx : Gdbcontext
  failed : Option GdbStop

/-- What was read, and what was taken off the buffer. -/
structure GdbLabel where
  data : List (BitVec 8)
  frames : List GdbFrame

def Gdbcontext.room (ctx : Gdbcontext) : Nat := buflen - if buflen ≤ ctx.bufptr then 0 else ctx.bufptr

/-- A failed assertion among the reasons to stop. -/
def GdbStop.failure : Option GdbStop → Option GdbStop
  | some .incomplete => none
  | s => s

inductive GdbConn.Step : GdbConn → GdbLabel → GdbConn → Prop where
  | receive {g : GdbConn} {data : List (BitVec 8)} : g.failed = none → 0 ≤ g.ctx.myfd → data ≠ [] →
      data.length ≤ g.ctx.room →
      GdbConn.Step g ⟨data, (gdbReceive g.ctx data).1⟩
        ⟨(gdbReceive g.ctx data).2.1, GdbStop.failure (gdbReceive g.ctx data).2.2⟩
  | hangup {g : GdbConn} : g.failed = none → 0 ≤ g.ctx.myfd →
      GdbConn.Step g ⟨[], []⟩ { g with ctx := { g.ctx with myfd := -1 } }

def GdbConn.start (fd : Int) (buf : Nat → BitVec 8) : GdbConn where
  ctx := { myfd := fd, buf := buf, bufptr := 0 }
  failed := none

def received (p : List (GdbLabel × GdbConn)) : List (BitVec 8) := (p.map fun e => e.1.data).flatten

def handed (p : List (GdbLabel × GdbConn)) : List GdbFrame := (p.map fun e => e.1.frames).flatten

/-- The buffer is not full, or holds a packet. -/
def GdbConn.HasRoom (g : GdbConn) : Prop := g.ctx.bufptr < buflen ∨ gdbCut g.ctx.kept ≠ none

/-- The packets of the stream so far were handed on, what is no packet yet is kept, and no assertion
has failed. -/
def Framed (p : List (GdbLabel × GdbConn)) (g : GdbConn) : Prop :=
  (handed p, g.ctx.kept) = gdbFrames (received p) ∧ g.failed = none

def FitPackets (stream : List (BitVec 8)) : Prop :=
  ∀ f ∈ (gdbFrames stream).1, f.packet.length < buflen

section

variable {fd : Int} {buf : Nat → BitVec 8} {g g' : GdbConn} {l : GdbLabel}
  {p : List (GdbLabel × GdbConn)}

theorem received_concat (p : List (GdbLabel × GdbConn)) (l : GdbLabel) (g : GdbConn) :
    received (p ++ [(l, g)]) = received p ++ l.data := by
  simp [received]

theorem handed_concat (p : List (GdbLabel × GdbConn)) (l : GdbLabel) (g : GdbConn) :
    handed (p ++ [(l, g)]) = handed p ++ l.frames := by
  simp [handed]

theorem gdbFrames_append (s t : List (BitVec 8)) :
    gdbFrames (s ++ t) = ((gdbFrames s).1 ++ (gdbFrames ((gdbFrames s).2 ++ t)).1,
      (gdbFrames ((gdbFrames s).2 ++ t)).2) :=
  Cutter.frames_append ..

theorem fitPackets_append (s t : List (BitVec 8)) :
    FitPackets (s ++ t) ↔ FitPackets s ∧ FitPackets ((gdbFrames s).2 ++ t) := by
  unfold FitPackets
  rw [gdbFrames_append]
  simp only [List.mem_append, or_imp, forall_and]

/-- `gdb_receive` takes all packets, or fails where one is as long as the buffer. -/
theorem gdbReceive_spec {ctx : Gdbcontext} (data : List (BitVec 8)) (hRoom : ctx.bufptr < buflen) :
    (FitPackets (ctx.kept ++ data) →
        ((gdbReceive ctx data).1, (gdbReceive ctx data).2.1.kept) = gdbFrames (ctx.kept ++ data)) ∧
      (GdbStop.failure (gdbReceive ctx data).2.2 = none ↔ FitPackets (ctx.kept ++ data)) := by
  have hNot : ¬ buflen ≤ ctx.bufptr := by omega
  simp only [gdbReceive, if_neg hNot]
  generalize hRead : ({ ctx with
    buf := store ctx.buf ctx.bufptr data
    bufptr := ctx.bufptr + data.length } : Gdbcontext) = ctx'
  have hKept : ctx'.kept = ctx.kept ++ data := by
    rw [← hRead]
    exact contents_store ..
  have hFuel : ctx'.kept.length < ctx.bufptr + data.length + 1 := by simp [hKept, ctx.length_kept]
  rw [← hKept]
  by_cases hFits : FitPackets ctx'.kept
  · obtain ⟨hFrames, hRest, hStop⟩ := follows_gdbTurn.drain_all hFuel hFits
    refine ⟨fun _ => ?_, ?_⟩
    · rw [hFrames, hRest]
      rfl
    · rw [hStop]
      exact iff_of_true rfl hFits
  · refine ⟨fun h => absurd h hFits, ?_⟩
    rw [follows_gdbTurn.drain_refused hFuel hFits]
    exact iff_of_false (by simp [GdbStop.failure, tooLong]) hFits

theorem Framed.room (h : Framed p g) (hRoom : g.HasRoom) : g.ctx.bufptr < buflen := by
  rcases hRoom with hLess | hPacket
  · exact hLess
  · have hKept : g.ctx.kept = (gdbFrames (received p)).2 := congrArg Prod.snd h.1
    exact absurd (hKept ▸ packetCutter.cut_rest (received p)) hPacket

/-- A step from a state in which all is well. -/
theorem Framed.step (h : Framed p g) (hRoom : g.HasRoom) (hFits : FitPackets (received p))
    (hStep : GdbConn.Step g l g') :
    (g'.failed = none → Framed (p ++ [(l, g')]) g') ∧
      (g'.failed = none ↔ FitPackets (received (p ++ [(l, g')]))) := by
  have hKept : g.ctx.kept = (gdbFrames (received p)).2 := congrArg Prod.snd h.1
  have hHanded : handed p = (gdbFrames (received p)).1 := congrArg Prod.fst h.1
  rw [received_concat, Framed, received_concat, handed_concat]
  cases hStep with
  | hangup =>
    simp only [List.append_nil]
    exact ⟨fun hNone => ⟨h.1, hNone⟩, iff_of_true h.2 hFits⟩
  | @receive data =>
    obtain ⟨hAll, hFailed⟩ := gdbReceive_spec data (h.room hRoom)
    have hBoth : FitPackets (received p ++ data) ↔ FitPackets (g.ctx.kept ++ data) := by
      rw [fitPackets_append, ← hKept]
      exact and_iff_right hFits
    rw [hBoth]
    refine ⟨fun hNone => ⟨?_, hNone⟩, hFailed⟩
    have hNew := hAll (hFailed.mp hNone)
    rw [gdbFrames_append, ← hHanded, ← hKept, ← hNew]

theorem framed_iff (hRun : Path GdbConn.Step (GdbConn.start fd buf) p g)
    (hRoom : AllStates GdbConn.HasRoom (GdbConn.start fd buf) p) :
    Framed p g ↔ FitPackets (received p) := by
  suffices hBoth : (g.failed = none → Framed p g) ∧ (g.failed = none ↔ FitPackets (received p)) from
    ⟨fun h => hBoth.2.mp h.2, fun h => hBoth.1 (hBoth.2.mpr h)⟩
  refine hRun.invariant_history (P := fun p g => AllStates GdbConn.HasRoom _ p →
    (g.failed = none → Framed p g) ∧ (g.failed = none ↔ FitPackets (received p))) ?_ ?_ hRoom
  · intro _
    have hNone : gdbFrames [] = ([], []) := Cutter.frames_none rfl
    simp [Framed, FitPackets, received, handed, GdbConn.start, Gdbcontext.kept, hNone]
  · intro p g l g' hPath hg hStep hStates
    have hPart : AllStates GdbConn.HasRoom _ p :=
      ⟨hStates.1, fun e he => hStates.2 e (List.mem_append_left _ he)⟩
    obtain ⟨hFramed, hFits⟩ := hg hPart
    have hLive : g.failed = none := by
      cases hStep <;> assumption
    exact (hFramed hLive).step (hPath.last_state hPart) (hFits.mp hLive) hStep

/-- However the stream comes in pieces, its packets are handed on as they are in the stream, nothing
but bytes before a dollar sign is dropped, and no assertion fails, exactly when no packet is as long
as the buffer. -/
theorem gdb_framing (hRun : Path GdbConn.Step (GdbConn.start fd buf) p g)
    (hRoom : AllStates GdbConn.HasRoom (GdbConn.start fd buf) p) :
    (Framed p g ∧
      ((handed p).map fun f => f.dropped ++ f.packet).flatten ++ g.ctx.kept = received p ∧
      ∀ f ∈ handed p, f.Sound) ↔
      ∀ f ∈ (gdbFrames (received p)).1, f.packet.length < buflen := by
  rw [← FitPackets, ← framed_iff hRun hRoom]
  refine and_iff_left_of_imp fun hFramed => ?_
  obtain ⟨hJoin, hSound⟩ := join_gdbFrames (received p)
  have hKept : g.ctx.kept = (gdbFrames (received p)).2 := congrArg Prod.snd hFramed.1
  have hHanded : handed p = (gdbFrames (received p)).1 := congrArg Prod.fst hFramed.1
  rw [hKept, hHanded]
  exact ⟨hJoin, hSound⟩

end

/-! ### Two packets in two reads, and one as long as the buffer -/

def text (s : String) : List (BitVec 8) := s.toList.map ch

theorem two_packets : ∃ p g, Path GdbConn.Step (GdbConn.start 3 fun _ => 0) p g ∧
    AllStates GdbConn.HasRoom (GdbConn.start 3 fun _ => 0) p ∧
    received p = text "+$g#67$?#3f" := by
  refine ⟨_, _, .cons (@GdbConn.Step.receive _ (text "+$g") rfl (by decide) (by decide) (by decide))
    (.cons (@GdbConn.Step.receive _ (text "#67$?#3f") rfl (by decide) (by decide) (by decide))
      (.nil _)), ?_, rfl⟩
  simp only [allStates_cons, allStates_nil]
  exact ⟨.inl (by decide), .inl (by decide), .inl (by decide)⟩

theorem gdbFrames_two : gdbFrames (text "+$g#67$?#3f") =
    ([⟨text "+", text "$g#67"⟩, ⟨[], text "$?#3f"⟩], []) := by
  have hFirst : packetCutter.cut (text "+$g#67$?#3f") =
      some (⟨text "+", text "$g#67"⟩, text "$?#3f") := rfl
  have hSecond : packetCutter.cut (text "$?#3f") = some (⟨[], text "$?#3f"⟩, []) := rfl
  rw [gdbFrames, Cutter.frames_some hFirst, Cutter.frames_some hSecond, Cutter.frames_none rfl]

theorem gdb_framing_two : ∃ p g, Path GdbConn.Step (GdbConn.start 3 fun _ => 0) p g ∧
    handed p = [⟨text "+", text "$g#67"⟩, ⟨[], text "$?#3f"⟩] ∧ g.failed = none := by
  obtain ⟨p, g, hRun, hRoom, hReceived⟩ := two_packets
  have hShort : ∀ f ∈ (gdbFrames (received p)).1, f.packet.length < buflen := by
    rw [hReceived, gdbFrames_two]
    decide
  obtain ⟨⟨hFrames, hLive⟩, -⟩ := (gdb_framing hRun hRoom).mpr hShort
  have hHanded := congrArg Prod.fst hFrames
  rw [hReceived, gdbFrames_two] at hHanded
  exact ⟨p, g, hRun, hHanded, hLive⟩

theorem fails_at_buffer_length {packet : List (BitVec 8)} (hLength : packet.length = buflen)
    (hCut : gdbCut packet = some (⟨[], packet⟩, [])) :
    ∃ p g, Path GdbConn.Step (GdbConn.start 3 fun _ => 0) p g ∧
      AllStates GdbConn.HasRoom (GdbConn.start 3 fun _ => 0) p ∧ received p = packet ∧
      (∀ f ∈ (gdbFrames (received p)).1, f.packet.length ≤ buflen) ∧
      g.failed = some tooLong ∧ handed p = [] ∧ ¬ Framed p g := by
  have hRead : (⟨3, store (fun _ => 0) 0 packet, packet.length⟩ : Gdbcontext).kept = packet := by
    have hStore := contents_store (fun _ => 0) 0 packet
    simpa [Gdbcontext.kept] using hStore
  have hTurn : gdbTurn ⟨3, store (fun _ => 0) 0 packet, packet.length⟩ = .error tooLong := by
    rw [gdbTurn_eq, hRead, hCut]
    simp [hLength]
  have hEmpty : ¬ buflen ≤ 0 := by decide
  have hReceive : gdbReceive ⟨3, fun _ => 0, 0⟩ packet =
      ([], ⟨3, store (fun _ => 0) 0 packet, packet.length⟩, some tooLong) := by
    simp only [gdbReceive, if_neg hEmpty, Nat.zero_add, drain, hTurn]
  have hSome : packet ≠ [] := by
    rintro rfl
    cases hCut
  have hStep := @GdbConn.Step.receive (GdbConn.start 3 fun _ => 0) packet rfl (by decide) hSome
    (by rw [hLength]; decide)
  simp only [GdbConn.start, hReceive] at hStep
  have hReceived : received [(GdbLabel.mk packet [],
      GdbConn.mk ⟨3, store (fun _ => 0) 0 packet, packet.length⟩ (some tooLong))] = packet := by
    simp [received]
  refine ⟨_, _, .cons hStep (.nil _), ?_, hReceived, ?_, rfl, rfl, ?_⟩
  · rw [allStates_cons, allStates_nil]
    refine ⟨.inl (by decide), .inr ?_⟩
    rw [hRead, hCut]
    exact Option.some_ne_none _
  · have hFirst : packetCutter.cut packet = some (⟨[], packet⟩, []) := hCut
    have hStream : (gdbFrames packet).1 = [⟨[], packet⟩] := by
      rw [gdbFrames, Cutter.frames_some hFirst, Cutter.frames_none rfl]
    intro f hf
    have hMem : f ∈ (gdbFrames packet).1 := hReceived ▸ hf
    rw [hStream, List.mem_singleton] at hMem
    rw [hMem]
    exact Nat.le_of_eq hLength
  · rintro ⟨-, hNone⟩
    cases hNone

def longPacket : List (BitVec 8) :=
  dollar :: List.replicate 1020 (ch 'x') ++ [hashMark, ch '0', ch '0']

theorem length_longPacket : longPacket.length = buflen := by
  rw [longPacket, List.length_append, List.length_cons, List.length_replicate]
  rfl

theorem gdbCut_longPacket : gdbCut longPacket = some (⟨[], longPacket⟩, []) := by
  have hBody : hashMark ∉ List.replicate 1020 (ch 'x') := by
    intro hMem
    exact absurd (List.eq_of_mem_replicate hMem) (by decide)
  have hCut := gdbCut_of_parts (g := []) (r := []) (c := ch '0') (d := ch '0') (by simp) hBody
  rwa [List.nil_append, List.append_nil] at hCut

/-- The packet fits in the buffer, and the assertion fails. -/
theorem not_gdb_framing : ∃ p g, Path GdbConn.Step (GdbConn.start 3 fun _ => 0) p g ∧
    AllStates GdbConn.HasRoom (GdbConn.start 3 fun _ => 0) p ∧ received p = longPacket ∧
    (∀ f ∈ (gdbFrames (received p)).1, f.packet.length ≤ buflen) ∧
    g.failed = some tooLong ∧ handed p = [] ∧ ¬ Framed p g :=
  fails_at_buffer_length length_longPacket gdbCut_longPacket

end Sys161.Gdb
