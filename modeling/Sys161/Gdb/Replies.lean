import Sys161.Gdb.Checksum

/-!
# What the debugger is sent

A minus or a plus for a packet, and packets with answers. The debugger cuts what
it is sent as `gdb_receive` cuts what it sends.
-/

namespace Sys161.Gdb

open CString Framing Hex

set_option autoImplicit false

inductive Reply where
  | minus
  | plus
  | body (string : Text)
deriving DecidableEq

def Reply.text : Reply → Text
  | .minus => [ch '-']
  | .plus => [ch '+']
  | .body s => dollar :: s ++ hashMark :: byteText (BitVec.ofNat 8 (byteSum s))

/-- The first reply, if it is there with its right checksum. -/
def cutReply : Text → Option (Reply × Text)
  | [] => none
  | c :: l =>
    if c = ch '-' then some (.minus, l)
    else if c = ch '+' then some (.plus, l)
    else if c = dollar then
      match cutAt hashMark l with
      | some (s, a :: b :: r) => if Checks s a b then some (.body s, r) else none
      | _ => none
    else none

/-- There is a packet at the front. -/
def FirstBody (l : Text) (s r : Text) : Prop :=
  ∃ a b, l = dollar :: s ++ hashMark :: a :: b :: r ∧ hashMark ∉ s ∧ Checks s a b

theorem cutReply_eq_some_iff {l r : Text} {reply : Reply} :
    cutReply l = some (reply, r) ↔
      match reply with
      | .minus => l = ch '-' :: r
      | .plus => l = ch '+' :: r
      | .body s => FirstBody l s r := by
  have hMinus : dollar ≠ ch '-' := by decide
  have hPlus : dollar ≠ ch '+' := by decide
  constructor
  · intro h
    cases l with
    | nil => cases h
    | cons c l =>
      rw [cutReply] at h
      split at h
      · next hc =>
        cases h
        rw [hc]
      · split at h
        · next hc =>
          cases h
          rw [hc]
        · split at h
          · next hc =>
            split at h
            · next s a b r' hCut =>
              split at h
              · next hChecks =>
                cases h
                obtain ⟨rfl, hFirst⟩ := (cutAt_eq_some_iff hashMark).mp hCut
                exact ⟨a, b, by rw [hc]; rfl, hFirst, hChecks⟩
              · cases h
            · cases h
          · cases h
  · intro h
    cases reply with
    | minus =>
      rw [h, cutReply, if_pos rfl]
    | plus =>
      rw [h, cutReply, if_neg (by decide), if_pos rfl]
    | body s =>
      obtain ⟨a, b, rfl, hFirst, hChecks⟩ := h
      have hCut : cutAt hashMark (s ++ hashMark :: a :: b :: r) = some (s, a :: b :: r) :=
        (cutAt_eq_some_iff hashMark).mpr ⟨rfl, hFirst⟩
      rw [List.cons_append, cutReply, if_neg hMinus, if_neg hPlus, if_pos rfl, hCut]
      exact if_pos hChecks

def replyCutter : Cutter (BitVec 8) Reply where
  cut := cutReply
  shorter {l reply r} h := by
    have hParts := cutReply_eq_some_iff.mp h
    cases reply with
    | minus =>
      rw [hParts]
      exact Nat.lt_succ_self _
    | plus =>
      rw [hParts]
      exact Nat.lt_succ_self _
    | body s =>
      obtain ⟨a, b, rfl, -, -⟩ := hParts
      simp only [List.length_append, List.length_cons]
      omega
  extend {l reply r} m h := by
    have hParts := cutReply_eq_some_iff.mp h
    rw [cutReply_eq_some_iff]
    cases reply with
    | minus => rw [hParts, List.cons_append]
    | plus => rw [hParts, List.cons_append]
    | body s =>
      obtain ⟨a, b, rfl, hFirst, hChecks⟩ := hParts
      exact ⟨a, b, by simp, hFirst, hChecks⟩

/-! ## Replies one after the other -/

def Reply.Framed : Reply → Prop
  | .body s => hashMark ∉ s
  | _ => True

theorem checks_byteText (s : Text) :
    Checks s (hexDigit ((BitVec.ofNat 8 (byteSum s)).extractLsb' 4 4))
      (hexDigit ((BitVec.ofNat 8 (byteSum s)).extractLsb' 0 4)) := by
  obtain ⟨hHex, hValue⟩ := byteText_hex (BitVec.ofNat 8 (byteSum s))
  rw [BitVec.toNat_ofNat] at hValue
  exact ⟨hHex _ (List.mem_cons_self ..), hHex _ (by simp [byteText]), hValue⟩

theorem cutReply_text {reply : Reply} (h : reply.Framed) (rest : Text) :
    cutReply (reply.text ++ rest) = some (reply, rest) := by
  rw [cutReply_eq_some_iff]
  cases reply with
  | minus => rfl
  | plus => rfl
  | body s => exact ⟨_, _, by simp [Reply.text, byteText], h, checks_byteText s⟩

theorem frames_texts {replies : List Reply} (h : ∀ reply ∈ replies, reply.Framed) :
    replyCutter.frames (replies.flatMap Reply.text) = (replies, []) := by
  induction replies with
  | nil => exact Cutter.frames_none rfl
  | cons reply replies ih =>
    obtain ⟨hHead, hTail⟩ := List.forall_mem_cons.mp h
    rw [List.flatMap_cons, Cutter.frames_some (cutReply_text hHead _), ih hTail]

/-! ## What `debug_send` sends -/

/-- A string of plain characters that fits into a buffer. -/
structure Sendable (string : Text) : Prop where
  fits : string.length < buflen
  plain : ∀ c ∈ string, c ≠ 0 ∧ c ≠ hashMark ∧ c.toNat < 128

theorem Sendable.framed {string : Text} (h : Sendable string) : (Reply.body string).Framed :=
  fun hMem => (h.plain _ hMem).2.1 rfl

theorem byteSum_lt {string : Text} (hPlain : ∀ c ∈ string, c.toNat < 128) :
    byteSum string ≤ 128 * string.length := by
  induction string with
  | nil => exact Nat.le_refl 0
  | cons c string ih =>
    obtain ⟨hHead, hTail⟩ := List.forall_mem_cons.mp hPlain
    have hRest := ih hTail
    rw [byteSum] at hRest ⊢
    rw [List.map_cons, List.sum_cons, List.length_cons]
    omega

/-- Plain characters have no sign. -/
theorem sum_charInt {string : Text} (signedChar : Bool) (hPlain : ∀ c ∈ string, c.toNat < 128) :
    (string.map (charInt signedChar)).sum = byteSum string := by
  induction string with
  | nil => rfl
  | cons c string ih =>
    obtain ⟨hHead, hTail⟩ := List.forall_mem_cons.mp hPlain
    have hChar : charInt signedChar c = c.toNat := by
      rw [charInt]
      split
      · exact BitVec.toInt_eq_toNat_of_lt (by omega)
      · rfl
    rw [List.map_cons, List.sum_cons, hChar, ih hTail, byteSum, byteSum, List.map_cons,
      List.sum_cons, Nat.cast_add]

theorem debugSend_eq {string : Text} (signedChar : Bool) (h : Sendable string) :
    debugSend signedChar string = (Reply.body string).text := by
  have hPlain : ∀ c ∈ string, c.toNat < 128 := fun c hc => (h.plain c hc).2.2
  have hString : cstr string = string := by
    have hSplit := cstr_of_ne (fun hZero => (h.plain 0 hZero).1 rfl) ([] : Text)
    rw [List.append_nil] at hSplit
    exact hSplit.trans (List.append_nil _)
  have hSum := sum_charInt signedChar hPlain
  have hLt := byteSum_lt hPlain
  have hFits := h.fits
  have hBuflen : buflen = 1024 := rfl
  have hNot : ¬ NegativeSum signedChar string := by
    rintro ⟨hNeg, -⟩
    rw [hSum, Int.bmod_eq_of_le (by omega) (by omega)] at hNeg
    omega
  obtain ⟨hByte, -⟩ := hexText_remainder (byteSum string % 256) (Nat.mod_lt _ (by decide))
  have hMod : BitVec.ofNat 8 (byteSum string % 256) = BitVec.ofNat 8 (byteSum string) := by
    apply BitVec.eq_of_toNat_eq
    rw [BitVec.toNat_ofNat, BitVec.toNat_ofNat]
    exact Nat.mod_mod _ _
  rw [debugSend, hString, srem_charSum, hostRemainder, if_neg hNot, hByte, hMod]
  rfl

theorem sendable_append {s t : Text} (hFits : (s ++ t).length < buflen)
    (hs : ∀ c ∈ s, c ≠ 0 ∧ c ≠ hashMark ∧ c.toNat < 128)
    (ht : ∀ c ∈ t, c ≠ 0 ∧ c ≠ hashMark ∧ c.toNat < 128) : Sendable (s ++ t) :=
  ⟨hFits, List.forall_mem_append.mpr ⟨hs, ht⟩⟩

theorem plain_of_isHex : ∀ c : BitVec 8, IsHex c → c ≠ 0 ∧ c ≠ hashMark ∧ c.toNat < 128 := by
  decide +kernel

theorem sendable_hex {string : Text} (hFits : string.length < buflen)
    (hHex : ∀ c ∈ string, IsHex c) : Sendable string :=
  ⟨hFits, fun c hc => plain_of_isHex c (hHex c hc)⟩

end Sys161.Gdb
