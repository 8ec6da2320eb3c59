import Sys161.Lib.Numeral
import Sys161.Main.Meter

/-!
# The replies to a meter client

What `protocol.txt` says a client gets for its requests, and when it does. The
replies come between the reports of `meter_update`, and the requests in as many
pieces as `meter_receive` reads.
-/

namespace Sys161.Main

open Bus Buffer CString Framing Runs

set_option autoImplicit false

/-- What happens to a connection: a line for `processline`, or a report. -/
inductive MeterEvent where
  | request (line : List (BitVec 8))
  | update (fields : String)

/-- The connection, and all that has been sent on it. -/
structure Talk where
  conn : MeterConn
  sent : List String

def Talk.next (t : Talk) : MeterEvent → Talk
  | .request line =>
    { conn := processline t.conn line
      sent := t.sent ++ (command t.conn.interval (lineWords line)).2.toList }
  | .update fields => { t with sent := t.sent ++ ["DATA " ++ fields ++ "\r\n"] }

/-! ## The protocol -/

inductive Reply where
  | ok
  | bad
deriving DecidableEq

def Reply.word : Reply → String
  | .ok => "OK"
  | .bad => "BAD"

/-- One line with the word in front. -/
def IsReply (r : Reply) (s : String) : Prop :=
  ∃ t : String, '\n' ∉ t.toList ∧ s = r.word ++ t ++ "\r\n"

/-- The number in a request for an interval. -/
def requested : List (List (BitVec 8)) → Option Int
  | [word, number] =>
    if sameCase word ("interval".toList.map ch) then
      match numeral 0 number with
      | some (n, []) => some n
      | _ => none
    else none
  | _ => none

/-- Between 100 ns and 2 s. -/
def InRange (n : Int) : Prop := 100 ≤ n ∧ n ≤ 2000000000

instance (n : Int) : Decidable (InRange n) := inferInstanceAs (Decidable (_ ∧ _))

/-- The interval and the replies so far, as the protocol has them. -/
def protocol (v : BitVec 64 × List Reply) : MeterEvent → BitVec 64 × List Reply
  | .update _ => v
  | .request line =>
    match lineWords line with
    | [] => v
    | words =>
      match requested words with
      | some n => if InRange n then (BitVec.ofInt 64 n, v.2 ++ [.ok]) else (v.1, v.2 ++ [.bad])
      | none => (v.1, v.2 ++ [.bad])

/-- What a client takes for replies. -/
def responses (sent : List String) : List String :=
  sent.filter fun s => s.toList.take 4 ≠ "DATA".toList

/-- The interval and the replies are those of the protocol. -/
def Answers (t : Talk) (v : BitVec 64 × List Reply) : Prop :=
  t.conn.interval = v.1 ∧ List.Forall₂ IsReply v.2 (responses t.sent)

/-- No number that is in the range is asked for, and none that the machine takes for one in its
own. -/
def Unanswerable : MeterEvent → Prop
  | .update _ => True
  | .request line => ∀ n, requested (lineWords line) = some n →
    ¬ InRange n ∧ ¬ (10000 ≤ n + 2 ^ 64 ∧ n + 2 ^ 64 ≤ 2000000000)

/-! ## One event -/

section Event

variable {interval : BitVec 64} {words : List (List (BitVec 8))} {s : String} {n : Int}

def badReplies : List String :=
  ["BAD Too many words in command\r\n", "BAD Invalid number\r\n", "BAD Interval too small\r\n",
    "BAD Interval too large\r\n", "BAD Invalid command\r\n"]

/-- The command has read a number that it takes. -/
def Taken (r : Strtoul) : Prop :=
  r.erange = false ∧ r.rest = [] ∧ minMeterNsecs ≤ r.value ∧ r.value ≤ maxMeterNsecs

/-- A request for an interval comes to a BAD or to nothing at all. -/
theorem command_interval {word number : List (BitVec 8)}
    (hWord : sameCase word ("interval".toList.map ch) = true) :
    ¬ Taken (strtoul 0 number) ∧
        (∃ s ∈ badReplies, command interval [word, number] = (interval, some s)) ∨
      Taken (strtoul 0 number) ∧
        command interval [word, number] = ((strtoul 0 number).value, none) := by
  have hFew : ¬ [word, number].length > maxwords := by simp [maxwords]
  rw [command, if_neg hFew]
  swap
  · exact hWord
  dsimp only
  generalize strtoul 0 number = r
  split
  · next hInvalid =>
    left
    refine ⟨?_, _, by simp [badReplies], rfl⟩
    rintro ⟨hRange, hRest, -⟩
    simp [hRange, hRest] at hInvalid
  · next hValid =>
    rw [not_or, not_not, Bool.not_eq_true] at hValid
    split
    · next hSmall =>
      left
      refine ⟨?_, _, by simp [badReplies], rfl⟩
      rintro ⟨-, -, hMin, -⟩
      exact absurd hSmall (BitVec.not_lt.mpr hMin)
    · next hMin =>
      split
      · next hLarge =>
        left
        refine ⟨?_, _, by simp [badReplies], rfl⟩
        rintro ⟨-, -, -, hMax⟩
        exact absurd hLarge (BitVec.not_lt.mpr hMax)
      · next hMax =>
        right
        exact ⟨⟨hValid.1, hValid.2, BitVec.not_lt.mp hMin, BitVec.not_lt.mp hMax⟩, rfl⟩

/-- Other words come to a BAD. -/
theorem command_other (hSome : words ≠ [])
    (hNot : ∀ word number, words = [word, number] →
      sameCase word ("interval".toList.map ch) = false) :
    requested words = none ∧ ∃ s ∈ badReplies, command interval words = (interval, some s) := by
  constructor
  · unfold requested
    split
    · next word number =>
      rw [if_neg (fun hWord => Bool.noConfusion ((hNot word number rfl).symm.trans hWord))]
    · rfl
  · cases words with
    | nil => exact absurd rfl hSome
    | cons word args =>
      rw [command]
      · split
        · exact ⟨_, by simp [badReplies], rfl⟩
        · exact ⟨_, by simp [badReplies], rfl⟩
      · rintro number hWord rfl
        rw [hNot word number rfl] at hWord
        cases hWord

/-- The number that is taken is the one asked for, or that and 2^64. -/
theorem taken_iff {number : List (BitVec 8)} :
    Taken (strtoul 0 number) ↔ ∃ n, numeral 0 number = some (n, []) ∧
      (10000 ≤ n ∧ n ≤ 2000000000 ∨ 10000 ≤ n + 2 ^ 64 ∧ n + 2 ^ 64 ≤ 2000000000) := by
  unfold Taken
  cases hNumeral : numeral 0 number with
  | none =>
    rw [strtoul_of_none hNumeral]
    refine iff_of_false ?_ (by simp)
    rintro ⟨-, -, hMin, -⟩
    exact absurd hMin (show ¬ minMeterNsecs ≤ 0 by decide)
  | some q =>
    obtain ⟨n, rest⟩ := q
    rw [strtoul_of_some hNumeral]
    by_cases hLarge : 2 ^ 64 ≤ n.natAbs
    · rw [if_pos hLarge]
      refine iff_of_false (by simp) ?_
      rintro ⟨n', hEq, hRange⟩
      obtain ⟨rfl, -⟩ := Prod.mk.inj (Option.some.inj hEq)
      omega
    · rw [if_neg hLarge]
      have hNat : ((BitVec.ofInt 64 n).toNat : Int) = if 0 ≤ n then n else n + 2 ^ 64 := by
        rw [BitVec.toNat_ofInt]
        split <;> omega
      rw [BitVec.le_def, BitVec.le_def]
      change _ ∧ rest = [] ∧ 10000 ≤ (BitVec.ofInt 64 n).toNat ∧
        (BitVec.ofInt 64 n).toNat ≤ 2000000000 ↔ _
      constructor
      · rintro ⟨-, rfl, hMin, hMax⟩
        refine ⟨n, rfl, ?_⟩
        split at hNat <;> omega
      · rintro ⟨n', hEq, hRange⟩
        obtain ⟨rfl, rfl⟩ := Prod.mk.inj (Option.some.inj hEq)
        refine ⟨rfl, rfl, ?_⟩
        split at hNat <;> omega

theorem requested_eq_some_iff {word number : List (BitVec 8)}
    (hWord : sameCase word ("interval".toList.map ch) = true) :
    requested [word, number] = some n ↔ numeral 0 number = some (n, []) := by
  rw [requested, if_pos hWord]
  split
  · next n' hNumeral =>
    rw [hNumeral, Option.some.injEq, Option.some.injEq, Prod.mk.injEq, eq_self, and_true]
  · next hOther =>
    refine iff_of_false (by simp) ?_
    intro hNumeral
    exact hOther n hNumeral

/-- A command that is answered is answered with a BAD, and leaves the interval. -/
theorem command_cases (interval : BitVec 64) (words : List (List (BitVec 8))) :
    (∃ s ∈ badReplies, command interval words = (interval, some s)) ∨
      (command interval words).2 = none := by
  unfold command
  split
  · exact .inr rfl
  · split
    · exact .inl ⟨_, by simp [badReplies], rfl⟩
    · split
      · dsimp only
        split
        · exact .inl ⟨_, by simp [badReplies], rfl⟩
        · split
          · exact .inl ⟨_, by simp [badReplies], rfl⟩
          · split
            · exact .inl ⟨_, by simp [badReplies], rfl⟩
            · exact .inr rfl
      · exact .inl ⟨_, by simp [badReplies], rfl⟩

theorem isReply_of_bad (h : s ∈ badReplies) :
    IsReply .bad s ∧ ¬ IsReply .ok s ∧ s.toList.take 4 ≠ "DATA".toList := by
  have hBad (t : String) (hLine : '\n' ∉ t.toList) :
      IsReply .bad ("BAD" ++ t ++ "\r\n") ∧ ¬ IsReply .ok ("BAD" ++ t ++ "\r\n") ∧
        ("BAD" ++ t ++ "\r\n").toList.take 4 ≠ "DATA".toList := by
    refine ⟨⟨t, hLine, rfl⟩, ?_, ?_⟩
    · rintro ⟨t', -, hEq⟩
      have hFirst := congrArg (fun s => s.toList.head?) hEq
      simp [Reply.word] at hFirst
    · intro hEq
      have hFirst := congrArg List.head? hEq
      simp at hFirst
  simp only [badReplies, List.mem_cons, List.not_mem_nil, or_false] at h
  rcases h with rfl | rfl | rfl | rfl | rfl
  · exact hBad " Too many words in command" (by decide)
  · exact hBad " Invalid number" (by decide)
  · exact hBad " Interval too small" (by decide)
  · exact hBad " Interval too large" (by decide)
  · exact hBad " Invalid command" (by decide)

end Event

theorem responses_concat (sent : List String) (s : String) :
    responses (sent ++ [s]) =
      responses sent ++ if s.toList.take 4 ≠ "DATA".toList then [s] else [] := by
  rw [responses, List.filter_append, List.filter_singleton]
  simp only [responses, decide_eq_true_eq, Bool.cond_eq_ite]

theorem responses_report (sent : List String) (fields : String) :
    responses (sent ++ ["DATA " ++ fields ++ "\r\n"]) = responses sent := by
  rw [responses_concat, if_neg, List.append_nil]
  simp

theorem forall₂_concat_iff {α β : Type} {R : α → β → Prop} {l : List α} {l' : List β} {a : α} {b : β}
    (h : List.Forall₂ R l l') : List.Forall₂ R (l ++ [a]) (l' ++ [b]) ↔ R a b := by
  constructor
  · intro hAll
    have hLast := List.forall₂_drop l.length hAll
    rw [List.drop_left, h.length_eq, List.drop_left] at hLast
    exact (List.forall₂_cons.mp hLast).1
  · intro hLast
    exact List.rel_append h (.cons hLast .nil)

/-- A reply that comes is a BAD where the protocol has one as well. -/
theorem answers_bad {t : Talk} {v : BitVec 64 × List Reply} (h : Answers t v) {s : String}
    (hBad : s ∈ badReplies) (r : Reply) (interval : BitVec 64) (m : MeterConn) :
    Answers ⟨m, t.sent ++ [s]⟩ (interval, v.2 ++ [r]) ↔ m.interval = interval ∧ r = .bad := by
  obtain ⟨hIs, hNot, hText⟩ := isReply_of_bad hBad
  unfold Answers
  dsimp only
  rw [responses_concat, if_pos hText, forall₂_concat_iff h.2]
  refine and_congr_right fun _ => ?_
  cases r with
  | ok => exact iff_of_false hNot (by simp)
  | bad => exact iff_of_true hIs rfl

/-- A step that is not answered is one reply short. -/
theorem not_answers_silent {t : Talk} {v : BitVec 64 × List Reply} (h : Answers t v) (r : Reply)
    (interval : BitVec 64) (m : MeterConn) :
    ¬ Answers ⟨m, t.sent⟩ (interval, v.2 ++ [r]) := by
  rintro ⟨-, hAll⟩
  have hBefore := h.2.length_eq
  have hAfter := hAll.length_eq
  rw [List.length_append, List.length_singleton] at hAfter
  dsimp only at hAfter
  omega

theorem command_nil (interval : BitVec 64) : command interval [] = (interval, none) := by
  rw [command]

theorem protocol_blank {line : List (BitVec 8)} (hNone : lineWords line = [])
    (v : BitVec 64 × List Reply) : protocol v (.request line) = v := by
  unfold protocol
  simp only [hNone]

/-- The protocol has a reply for every request with words in it. -/
def protocolReply (words : List (List (BitVec 8))) : Reply :=
  match requested words with
  | some n => if InRange n then .ok else .bad
  | none => .bad

theorem protocol_request {v : BitVec 64 × List Reply} {line : List (BitVec 8)}
    (hSome : lineWords line ≠ []) : ∃ interval,
      protocol v (.request line) = (interval, v.2 ++ [protocolReply (lineWords line)]) ∧
      (protocolReply (lineWords line) = .bad → interval = v.1) := by
  unfold protocol protocolReply
  dsimp only
  split
  · next hNone => exact absurd hNone hSome
  · split
    · next n hRequested =>
      split
      · exact ⟨_, rfl, fun hBad => Reply.noConfusion hBad⟩
      · exact ⟨_, rfl, fun _ => rfl⟩
    · exact ⟨_, rfl, fun _ => rfl⟩

theorem protocolReply_bad_iff {words : List (List (BitVec 8))} :
    protocolReply words = .bad ↔ ∀ n, requested words = some n → ¬ InRange n := by
  unfold protocolReply
  cases requested words with
  | none => simp
  | some n =>
    dsimp only
    by_cases hIn : InRange n
    · rw [if_pos hIn]
      exact iff_of_false Reply.noConfusion (fun hAll => hAll n rfl hIn)
    · rw [if_neg hIn]
      refine iff_of_true rfl ?_
      rintro n' hEq
      rwa [← Option.some.inj hEq]

theorem answers_next {t : Talk} {v : BitVec 64 × List Reply} (h : Answers t v) (e : MeterEvent) :
    Answers (t.next e) (protocol v e) ↔ Unanswerable e := by
  cases e with
  | update fields =>
    refine iff_of_true ⟨h.1, ?_⟩ trivial
    change List.Forall₂ IsReply v.2 (responses (t.sent ++ _))
    rw [responses_report]
    exact h.2
  | request line =>
    rw [Talk.next]
    have hInterval : (processline t.conn line).interval =
        (command t.conn.interval (lineWords line)).1 := rfl
    generalize processline t.conn line = m at hInterval
    rcases eq_or_ne (lineWords line) [] with hNone | hSome
    · rw [hNone, command_nil] at hInterval ⊢
      rw [protocol_blank hNone]
      refine iff_of_true ⟨hInterval.trans h.1, ?_⟩ ?_
      · simpa using h.2
      · intro n hEq
        rw [hNone] at hEq
        cases hEq
    · obtain ⟨interval, hProtocol, hKept⟩ := protocol_request (v := v) hSome
      rw [hProtocol]
      unfold Unanswerable
      dsimp only
      generalize lineWords line = words at *
      -- a BAD is right where the protocol has one
      have hBad {s : String} (hMem : s ∈ badReplies)
          (hCommand : command t.conn.interval words = (t.conn.interval, some s)) :
          Answers ⟨m, t.sent ++ (command t.conn.interval words).2.toList⟩
            (interval, v.2 ++ [protocolReply words]) ↔ protocolReply words = .bad := by
        rw [hCommand] at hInterval ⊢
        dsimp only [Option.toList_some]
        rw [answers_bad h hMem]
        refine and_iff_right_of_imp fun hReply => ?_
        rw [hKept hReply, ← h.1]
        exact hInterval
      by_cases hRequest : ∃ word number, words = [word, number] ∧
          sameCase word ("interval".toList.map ch) = true
      · obtain ⟨word, number, rfl, hWord⟩ := hRequest
        rcases @command_interval t.conn.interval word number hWord with
          ⟨hNot, s, hMem, hCommand⟩ | ⟨hTaken, hCommand⟩
        · rw [hBad hMem hCommand, protocolReply_bad_iff]
          rw [taken_iff] at hNot
          refine forall₂_congr fun n hEq => (and_iff_left ?_).symm
          intro hWraps
          exact hNot ⟨n, (requested_eq_some_iff hWord).mp hEq, .inr hWraps⟩
        · rw [hCommand, Option.toList_none, List.append_nil]
          refine iff_of_false (not_answers_silent h _ _ _) ?_
          intro hAll
          obtain ⟨n, hNumeral, hRange⟩ := taken_iff.mp hTaken
          obtain ⟨hOut, hNoWrap⟩ := hAll n ((requested_eq_some_iff hWord).mpr hNumeral)
          rcases hRange with hRange | hRange
          · exact hOut ⟨by omega, hRange.2⟩
          · exact hNoWrap hRange
      · obtain ⟨hNone, s, hMem, hCommand⟩ := @command_other t.conn.interval words hSome (by
          intro word number hEq
          by_contra hWord
          exact hRequest ⟨word, number, hEq, by simpa using hWord⟩)
        rw [hBad hMem hCommand, protocolReply_bad_iff]
        refine forall₂_congr fun n hEq => ?_
        rw [hNone] at hEq
        cases hEq

/-! ## Any number of events -/

/-- The replies are those of the protocol, whatever the interval. -/
def Replied (t : Talk) (v : BitVec 64 × List Reply) : Prop :=
  List.Forall₂ IsReply v.2 (responses t.sent)

/-- An event brings no more replies than the protocol has. -/
theorem replies_next (t : Talk) (v : BitVec 64 × List Reply) (e : MeterEvent) :
    ∃ new expected, responses (t.next e).sent = responses t.sent ++ new ∧
      (protocol v e).2 = v.2 ++ expected ∧ new.length ≤ expected.length := by
  cases e with
  | update fields =>
    refine ⟨[], [], ?_, (List.append_nil _).symm, le_rfl⟩
    rw [List.append_nil]
    exact responses_report t.sent fields
  | request line =>
    rcases eq_or_ne (lineWords line) [] with hNone | hSome
    · refine ⟨[], [], ?_, ?_, le_rfl⟩
      · simp [Talk.next, hNone, command_nil]
      · rw [protocol_blank hNone, List.append_nil]
    · obtain ⟨interval, hProtocol, -⟩ := protocol_request (v := v) hSome
      rw [hProtocol]
      rcases command_cases t.conn.interval (lineWords line) with ⟨s, hBad, hCommand⟩ | hSilent
      · refine ⟨[s], _, ?_, rfl, le_rfl⟩
        rw [Talk.next, hCommand, Option.toList_some, responses_concat,
          if_pos (isReply_of_bad hBad).2.2]
      · refine ⟨[], _, ?_, rfl, by simp⟩
        rw [Talk.next, hSilent, Option.toList_none, List.append_nil, List.append_nil]

/-- What has come in order so far stays in order, and what has not does not come right again. -/
theorem replied_of_next {t : Talk} {v : BitVec 64 × List Reply} {e : MeterEvent}
    (hFewer : (responses t.sent).length ≤ v.2.length) (h : Replied (t.next e) (protocol v e)) :
    Replied t v := by
  obtain ⟨new, expected, hNew, hExpected, hLe⟩ := replies_next t v e
  unfold Replied at h ⊢
  rw [hNew, hExpected] at h
  have hLength := h.length_eq
  rw [List.length_append, List.length_append] at hLength
  have hSame : v.2.length = (responses t.sent).length := by omega
  have hTake := List.forall₂_take v.2.length h
  rwa [List.take_left, hSame, List.take_left] at hTake

/-- Where the replies are right, the interval is. -/
theorem answers_of_replied {t : Talk} {v : BitVec 64 × List Reply} {e : MeterEvent}
    (h : Answers t v) (hNext : Replied (t.next e) (protocol v e)) :
    Answers (t.next e) (protocol v e) := by
  refine ⟨?_, hNext⟩
  cases e with
  | update fields => exact h.1
  | request line =>
    rcases eq_or_ne (lineWords line) [] with hNone | hSome
    · have hCommand : command t.conn.interval (lineWords line) = (t.conn.interval, none) := by
        rw [hNone, command_nil]
      rw [protocol_blank hNone, ← h.1]
      exact congrArg Prod.fst hCommand
    · obtain ⟨interval, hProtocol, hKept⟩ := protocol_request (v := v) hSome
      rcases command_cases t.conn.interval (lineWords line) with ⟨s, hBad, hCommand⟩ | hSilent
      · obtain ⟨-, hNotOk, hText⟩ := isReply_of_bad hBad
        unfold Replied at hNext
        rw [Talk.next, hCommand, Option.toList_some, hProtocol] at hNext
        dsimp only at hNext
        rw [responses_concat, if_pos hText, forall₂_concat_iff h.2] at hNext
        have hReply : protocolReply (lineWords line) = .bad := by
          cases hKind : protocolReply (lineWords line) with
          | ok => exact absurd (hKind ▸ hNext) hNotOk
          | bad => rfl
        rw [hProtocol]
        dsimp only
        rw [hKept hReply, ← h.1]
        exact congrArg Prod.fst hCommand
      · unfold Replied at hNext
        rw [Talk.next, hSilent, Option.toList_none, List.append_nil, hProtocol] at hNext
        have hBefore := h.2.length_eq
        have hAfter := hNext.length_eq
        rw [List.length_append, List.length_singleton] at hAfter
        dsimp only at hAfter
        omega

theorem fewer_next {t : Talk} {v : BitVec 64 × List Reply}
    (h : (responses t.sent).length ≤ v.2.length) (e : MeterEvent) :
    (responses (t.next e).sent).length ≤ (protocol v e).2.length := by
  obtain ⟨new, expected, hNew, hExpected, hLe⟩ := replies_next t v e
  rw [hNew, hExpected, List.length_append, List.length_append]
  omega

theorem replied_of_foldl {events : List MeterEvent} {t : Talk} {v : BitVec 64 × List Reply}
    (hFewer : (responses t.sent).length ≤ v.2.length)
    (h : Replied (events.foldl Talk.next t) (events.foldl protocol v)) : Replied t v := by
  induction events generalizing t v with
  | nil => exact h
  | cons e events ih => exact replied_of_next hFewer (ih (fewer_next hFewer e) h)

theorem answers_foldl {t : Talk} {v : BitVec 64 × List Reply} (h : Answers t v)
    (events : List MeterEvent) :
    Answers (events.foldl Talk.next t) (events.foldl protocol v) ↔ ∀ e ∈ events, Unanswerable e := by
  induction events generalizing t v with
  | nil => exact iff_of_true h (by simp)
  | cons e events ih =>
    rw [List.forall_mem_cons]
    constructor
    · intro hAll
      have hFewer := fewer_next (Nat.le_of_eq h.2.length_eq.symm) e
      have hNext := answers_of_replied h (replied_of_foldl hFewer hAll.2)
      exact ⟨(answers_next h e).mp hNext, (ih hNext).mp hAll⟩
    · rintro ⟨hFirst, hRest⟩
      exact (ih ((answers_next h e).mpr hFirst)).mpr hRest

/-- After any part of a sequence of requests and reports the client has the replies of the protocol
and the interval is the protocol's, exactly as long as nothing is asked for that is in the range. -/
theorem meter_replies (m : MeterConn) (events : List MeterEvent) :
    (∀ past, past <+: events →
        Answers (past.foldl Talk.next ⟨m, []⟩) (past.foldl protocol (m.interval, []))) ↔
      ∀ e ∈ events, Unanswerable e := by
  have hStart : Answers ⟨m, []⟩ (m.interval, []) := ⟨rfl, .nil⟩
  constructor
  · exact fun hAll => (answers_foldl hStart events).mp (hAll events (List.prefix_refl events))
  · exact fun hAll past hPast =>
      (answers_foldl hStart past).mpr fun e he => hAll e (hPast.subset he)

/-- The interval is set, and nothing is said of it. -/
theorem interval_no_reply :
    let e := MeterEvent.request (text "INTERVAL 20000\r")
    let t := Talk.next ⟨MeterConn.start 3 fun _ => 0, []⟩ e
    t.sent = [] ∧ t.conn.interval = 20000 ∧
      ¬ ∀ past, past <+: [e] → Answers (past.foldl Talk.next ⟨MeterConn.start 3 fun _ => 0, []⟩)
        (past.foldl protocol (defaultMeterNsecs, [])) := by
  refine ⟨rfl, rfl, ?_⟩
  intro hAll
  have hLength := (hAll _ (List.prefix_refl _)).2.length_eq
  exact absurd hLength (by decide)

/-! ## Runs of `meter_receive` -/

/-- Some bytes are read and their lines executed, or a report is sent. -/
inductive TalkLabel where
  | read (l : MeterLabel)
  | update (fields : String)

def TalkLabel.events : TalkLabel → List MeterEvent
  | .read l => l.lines.map .request
  | .update fields => [.update fields]

inductive TalkStep : Talk → TalkLabel → Talk → Prop where
  | read {t : Talk} {l : MeterLabel} {m : MeterConn} : MeterConn.Step t.conn l m →
      TalkStep t (.read l) ⟨m, t.sent ++ m.said.drop t.conn.said.length⟩
  | update {t : Talk} {fields : String} : TalkStep t (.update fields) (t.next (.update fields))

def MeterConn.overflows (m : MeterConn) : List String :=
  if meterBufsize ≤ m.bufpos then [overflowmsg] else []

/-- What the client is told before anything is read. -/
def TalkLabel.told (m : MeterConn) : TalkLabel → List String
  | .read _ => m.overflows
  | .update _ => []

/-- The interval, and what has been sent. -/
def Talk.view (t : Talk) : BitVec 64 × List String := (t.conn.interval, t.sent)

theorem Talk.view_next {t u : Talk} (h : t.view = u.view) (e : MeterEvent) :
    (t.next e).view = (u.next e).view := by
  obtain ⟨hInterval, hSent⟩ := Prod.mk.inj h
  cases e with
  | update fields => exact Prod.ext hInterval (congrArg (· ++ _) hSent)
  | request line =>
    change ((command t.conn.interval _).1, t.sent ++ _) = ((command u.conn.interval _).1, u.sent ++ _)
    rw [hInterval, hSent]

/-- Lines that are obeyed are requests, one after the other. -/
theorem view_requests (lines : List (List (BitVec 8))) (t : Talk) (said : List String) :
    ∃ new, lines.foldl obey (t.conn.interval, said) =
        ((lines.foldl obey (t.conn.interval, said)).1, said ++ new) ∧
      ((lines.map MeterEvent.request).foldl Talk.next t).view =
        ((lines.foldl obey (t.conn.interval, said)).1, t.sent ++ new) := by
  induction lines generalizing t said with
  | nil => exact ⟨[], by simp, by simp [Talk.view]⟩
  | cons line lines ih =>
    obtain ⟨new, hObey, hView⟩ := ih (t.next (.request line))
      (said ++ (command t.conn.interval (lineWords line)).2.toList)
    have hFirst : obey (t.conn.interval, said) line = ((t.next (.request line)).conn.interval,
        said ++ (command t.conn.interval (lineWords line)).2.toList) := rfl
    refine ⟨(command t.conn.interval (lineWords line)).2.toList ++ new, ?_, ?_⟩
    · rw [List.foldl_cons, hFirst, ← List.append_assoc]
      exact hObey
    · rw [List.map_cons, List.foldl_cons, List.foldl_cons, hFirst, ← List.append_assoc]
      exact hView

theorem inputOverflow_spec (m : MeterConn) :
    m.inputOverflow.interval = m.interval ∧ m.inputOverflow.said = m.said ++ m.overflows ∧
      m.inputOverflow.bufpos < meterBufsize := by
  unfold MeterConn.inputOverflow MeterConn.overflows
  split
  · exact ⟨rfl, rfl, (by decide : 0 < meterBufsize)⟩
  · next hRoom => exact ⟨rfl, (List.append_nil _).symm, not_le.mp hRoom⟩

/-- A step of a run is its events; where the buffer was full there is one reply more. -/
theorem TalkStep.view {t u : Talk} {l : TalkLabel} (h : TalkStep t l u) :
    u.view = (l.events.foldl Talk.next { t with sent := t.sent ++ l.told t.conn }).view := by
  cases h with
  | update => simp [TalkLabel.events, TalkLabel.told]
  | read hStep =>
    obtain ⟨hInterval, hSaid, hRoom⟩ := inputOverflow_spec t.conn
    cases hStep with
    | hangup =>
      refine Prod.ext hInterval ?_
      change t.sent ++ t.conn.inputOverflow.said.drop t.conn.said.length = _
      rw [hSaid, List.drop_left]
      rfl
    | @receive data =>
      have hSame : meterReceive t.conn data = meterReceive t.conn.inputOverflow data := by
        unfold meterReceive
        rw [inputOverflow_of_room hRoom]
      obtain ⟨-, hObeyed⟩ := meterReceive_spec data hRoom
      rw [← hSame, hInterval, hSaid] at hObeyed
      obtain ⟨new, hNew, hView⟩ := view_requests (meterReceive t.conn data).1
        { t with sent := t.sent ++ t.conn.overflows } (t.conn.said ++ t.conn.overflows)
      change _ = (((meterReceive t.conn data).1.map MeterEvent.request).foldl Talk.next
        { t with sent := t.sent ++ t.conn.overflows }).view
      rw [hView, ← hObeyed]
      rw [← hObeyed] at hNew
      refine Prod.ext rfl ?_
      change t.sent ++ (meterReceive t.conn data).2.said.drop t.conn.said.length = _
      rw [(Prod.mk.inj hNew).2, List.append_assoc, List.drop_left, List.append_assoc]

/-- What the protocol has for the requests of a run. -/
def due (p : List (TalkLabel × Talk)) : BitVec 64 × List Reply :=
  (p.flatMap fun e => e.1.events).foldl protocol (defaultMeterNsecs, [])

/-- No line has filled the buffer. -/
def HasRoom (t : Talk) (_ : TalkLabel) (_ : Talk) : Prop := t.conn.bufpos < meterBufsize

theorem answers_congr {t u : Talk} (h : t.view = u.view) (v : BitVec 64 × List Reply) :
    Answers t v ↔ Answers u v := by
  obtain ⟨hInterval, hSent⟩ := Prod.mk.inj h
  unfold Answers
  rw [hInterval, hSent]

/-- However the requests come in pieces, with reports in between: after every read the client has
the replies of the protocol, exactly as long as nothing is asked for that is in the range. -/
theorem replies_run {fd : Int} {buf : Nat → BitVec 8} {p : List (TalkLabel × Talk)} {t : Talk}
    (hRun : Path TalkStep ⟨MeterConn.start fd buf, []⟩ p t)
    (hRoom : AllSteps HasRoom ⟨MeterConn.start fd buf, []⟩ p) :
    (∀ q u r, p = q ++ r → Path TalkStep ⟨MeterConn.start fd buf, []⟩ q u →
        Answers u (due q)) ↔
      AllSteps (fun _ l _ => ∀ e ∈ l.events, Unanswerable e) ⟨MeterConn.start fd buf, []⟩ p := by
  apply hRun.history_iff_allSteps
  · exact ⟨rfl, .nil⟩
  · rintro q u l u' r rfl hPath hAnswers hStep
    have hHere : u.conn.bufpos < meterBufsize := (hPath.allSteps_append_iff.mp hRoom).2.1
    have hTold : l.told u.conn = [] := by
      cases l with
      | read => exact if_neg (Nat.not_le.mpr hHere)
      | update => rfl
    have hView := hStep.view
    rw [hTold, List.append_nil] at hView
    rw [due, List.flatMap_append, List.foldl_append, List.flatMap_singleton,
      answers_congr hView]
    exact answers_foldl hAnswers l.events

/-- Where nothing is kept, or is given up, the lines are those of what is read. -/
theorem meterReceive_fresh {m : MeterConn} (hFresh : m.inputOverflow.bufpos = 0)
    (data : List (BitVec 8)) :
    ((meterReceive m data).1, (meterReceive m data).2.kept) = streamLines data := by
  have hSame : meterReceive m data = meterReceive m.inputOverflow data := by
    unfold meterReceive
    rw [inputOverflow_of_room (m := m.inputOverflow) (by rw [hFresh]; decide)]
  have hRoom : m.inputOverflow.bufpos < meterBufsize := by
    rw [hFresh]
    decide
  have hLines := (meterReceive_spec data hRoom).1
  rw [hFresh, Nat.zero_add, contents_store_zero _ le_rfl, ← hSame] at hLines
  rw [hLines, List.drop_eq_nil_of_le (by simp), List.append_nil]

theorem TalkStep.receives {t u : Talk} {data : List (BitVec 8)} {lines : List (List (BitVec 8))}
    (h : TalkStep t (.read ⟨data, lines⟩) u) (hData : data ≠ []) :
    lines = (meterReceive t.conn data).1 ∧ u.conn = (meterReceive t.conn data).2 := by
  cases h with
  | read hStep =>
    cases hStep with
    | hangup => exact absurd rfl hData
    | receive => exact ⟨rfl, rfl⟩

theorem isReply_overflow : IsReply .bad overflowmsg :=
  ⟨" Input overflow", by decide, rfl⟩

/-- A line that fills the buffer has two replies: for the overflow, and for what is left of it. -/
theorem overlong_line {t u w : Talk} {head rest : List (BitVec 8)}
    {lines lines' : List (List (BitVec 8))} (hStart : t.conn.bufpos = 0)
    (hFull : head.length = meterBufsize) (hHead : newline ∉ head) (hRest : newline ∉ rest)
    (h : TalkStep t (.read ⟨head, lines⟩) u)
    (h' : TalkStep u (.read ⟨rest ++ [newline], lines'⟩) w) :
    IsReply .bad overflowmsg ∧
      w.view = (({ t with sent := t.sent ++ [overflowmsg] } : Talk).next (.request rest)).view := by
  refine ⟨isReply_overflow, ?_⟩
  have hNone : ¬ meterBufsize ≤ t.conn.bufpos := by
    rw [hStart]
    decide
  have hCutHead : streamLines head = ([], head) :=
    Cutter.frames_none ((cutAt_eq_none_iff newline).mpr hHead)
  have hCutRest : streamLines (rest ++ [newline]) = ([rest], []) := by
    have hFirst : (endedBy newline).cut (rest ++ [newline]) = some (rest, []) :=
      (cutAt_eq_some_iff newline).mpr ⟨rfl, hRest⟩
    rw [streamLines, Cutter.frames_some hFirst, Cutter.frames_none rfl]
  -- the first read fills the buffer
  obtain ⟨rfl, hConn⟩ := h.receives (by rintro rfl; exact absurd hFull (by decide))
  have hKept := meterReceive_fresh (m := t.conn)
    (by rw [MeterConn.inputOverflow, if_neg hNone, hStart]) head
  rw [hCutHead, ← hConn] at hKept
  obtain ⟨hLines, hLeft⟩ := Prod.mk.inj hKept
  have hView : u.view = t.view := by
    have hStep := h.view
    rw [hLines] at hStep
    simpa [TalkLabel.events, TalkLabel.told, MeterConn.overflows, hNone] using hStep
  have hPos : u.conn.bufpos = meterBufsize := by
    have hLength := congrArg List.length hLeft
    rwa [MeterConn.kept, length_contents, hFull] at hLength
  -- and the second finds it full
  obtain ⟨rfl, -⟩ := h'.receives (by simp)
  have hOnly := meterReceive_fresh (m := u.conn)
    (by rw [MeterConn.inputOverflow, if_pos hPos.ge]) (rest ++ [newline])
  rw [hCutRest] at hOnly
  have hStep := h'.view
  rw [(Prod.mk.inj hOnly).1] at hStep
  rw [hStep]
  have hTold : TalkLabel.told u.conn (.read ⟨rest ++ [newline], [rest]⟩) = [overflowmsg] :=
    if_pos hPos.ge
  rw [hTold]
  obtain ⟨hInterval, hSent⟩ := Prod.mk.inj hView
  have hBefore : ({ u with sent := u.sent ++ [overflowmsg] } : Talk).view =
      ({ t with sent := t.sent ++ [overflowmsg] } : Talk).view :=
    Prod.ext hInterval (congrArg (· ++ [overflowmsg]) hSent)
  exact Talk.view_next hBefore (.request rest)

end Sys161.Main
