/-
  Sources that fail behind a text.

  All that can be read without asking for more than the text is read as if nothing stood
  behind it, and the first call that has to ask for more fails as the source does.

  * `Reader.followedBy`: the source goes on behind its last answer;
  * `Reader.AsksBeyond`: by the end of a call, more has been asked for than the source holds;
  * `Reader.Inside`: a reader somewhere in a text, and `Inside.next_cases`: what the next call
    does there;
  * `Utf8.Malformed`: bytes at which no character can be read;
  * `failure_costs_nothing_before`: what a failing source makes of a text.
-/
import SmtDialogue.Proofs.Beyond
import SmtDialogue.Proofs.ByteText

namespace SmtDialogue

open Source

variable {size : Char → Nat} {text more : List Char} {reader : Reader} {k n : Nat}

/-! ## Bytes that are no text -/

namespace Utf8

/-- What a byte makes of a character, `begun` being the bytes of it that are there. -/
def taking? (begun : Option Partial) (value : UInt8) : Option Partial :=
  begun.elim (lead? value.toNat) (·.extend? value.toNat)

/-- No character can be read at the head of these reads, and the stream has not ended where
    a character may start. Overlong forms are characters here, as the decoder reads them. -/
inductive Malformed : Option Partial → List ByteRead → Prop
  /-- The stream fails. -/
  | failure {begun : Option Partial} {message : String} {rest : List ByteRead} :
      Malformed begun (.failure message :: rest)
  /-- The stream runs empty inside a character. -/
  | cut {p : Partial} : Malformed (some p) []
  /-- The stream ends inside a character. -/
  | stop {p : Partial} {rest : List ByteRead} : Malformed (some p) (.stop :: rest)
  /-- The byte does not start a character, or does not continue the one that has begun. -/
  | misplaced {begun : Option Partial} {value : UInt8} {rest : List ByteRead} :
      taking? begun value = none → Malformed begun (.byte value :: rest)
  /-- The bytes are complete, and the number that they stand for is no character. -/
  | invalid {begun : Option Partial} {p : Partial} {value : UInt8} {rest : List ByteRead} :
      taking? begun value = some p → p.missing = 0 → ¬ p.bits.isValidChar →
        Malformed begun (.byte value :: rest)
  /-- The byte belongs to a character, and what follows does not complete it. -/
  | more {begun : Option Partial} {p : Partial} {value : UInt8} {rest : List ByteRead} :
      taking? begun value = some p → p.missing ≠ 0 → Malformed (some p) rest →
        Malformed begun (.byte value :: rest)

/-- **Decoding fails exactly at what is malformed.** -/
theorem malformed_iff {begun : Option Partial} {reads : List ByteRead} : Malformed begun reads ↔
    ∃ message n beyond, decodeFrom begun reads = .failure message n :: beyond := by
  constructor
  · intro h
    induction h with
    | failure => exact ⟨_, _, _, by rw [decodeFrom]⟩
    | cut => exact ⟨_, _, _, by rw [decodeFrom]⟩
    | stop => exact ⟨_, _, _, by rw [decodeFrom]⟩
    | misplaced h =>
      rw [taking?] at h
      exact ⟨_, _, _, by rw [decodeFrom, h]⟩
    | @invalid begun p value rest h hlast hinvalid =>
      rw [taking?] at h
      refine ⟨invalidMessage, p.taken, decodeFrom none rest, ?_⟩
      simp only [decodeFrom, h, if_pos hlast, Partial.complete, if_neg hinvalid]
    | more h hmore _ ih =>
      rw [taking?] at h
      simpa only [decodeFrom, h, if_neg hmore] using ih
  · rintro ⟨message, n, beyond, hdecode⟩
    induction reads generalizing begun with
    | nil =>
      cases begun with
      | none => simp [decodeFrom] at hdecode
      | some p => exact .cut
    | cons read reads ih =>
      cases read with
      | failure => exact .failure
      | stop =>
        cases begun with
        | none => simp [decodeFrom] at hdecode
        | some p => exact .stop
      | byte value =>
        cases htaking : taking? begun value with
        | none => exact .misplaced htaking
        | some p =>
          have htaken := htaking
          rw [taking?] at htaken
          rw [decodeFrom, htaken] at hdecode
          dsimp only at hdecode
          split at hdecode
          · rename_i hlast
            refine .invalid htaking hlast fun hvalid => ?_
            rw [Partial.complete, if_pos hvalid] at hdecode
            simp at hdecode
          · rename_i hmore
            exact .more htaking hmore (ih hdecode)

end Utf8

namespace Reader

/-! ## A reader in a text -/

/-- The source goes on with `tail` behind its last answer. -/
def followedBy (reader : Reader) (tail : Source) : Reader :=
  { reader with rest := reader.rest ++ tail }

@[simp] theorem followedBy_nil (reader : Reader) : reader.followedBy [] = reader := by
  rw [followedBy, List.append_nil]

/-- By the end of call `k`, counted from 0, more has been asked for than the source holds: a
    source that reported its end would have done so. -/
def AsksBeyond (reader : Reader) (k : Nat) : Prop :=
  ((reader.followedBy [.stop]).later (k + 1)).unread = []

/-- The reader has read a part of `text` from its beginning, and `more` is what follows. -/
structure Inside (size : Char → Nat) (text : List Char) (reader : Reader) (more : List Char) :
    Prop where
  rest_eq : reader.rest = sized size more
  cursor_eq : reader.cursor.advanceOver more = Cursor.advanceOver {} text
  more_ne_nil : reader.peeked = true → more ≠ []
  unclosed_eq : reader.unclosed = []

theorem Inside.unread_ne_nil (h : Inside size text reader more) :
    (reader.followedBy [.stop]).unread ≠ [] := by
  unfold unread
  split
  · rename_i hpeeked
    obtain ⟨c, more, rfl⟩ := List.exists_cons_of_ne_nil (h.more_ne_nil hpeeked)
    simp [followedBy, h.rest_eq]
  · simp [followedBy]

/-- Whatever stands behind the text, the next call does the same. -/
def Indifferent (reader : Reader) : Prop :=
  ∀ tail : Source, Silent tail →
    (reader.followedBy tail).next = (reader.next.1, reader.next.2.followedBy tail)

/-- **A call stays within the text, or fails as the source does behind it.** -/
theorem Inside.next_cases (h : Inside size text reader more) :
    ((∃ left, Inside size text reader.next.2 left) ∧ reader.Indifferent ∧
      (reader.done = false → IsParsed reader.next.1)) ∨
    ((reader.followedBy [.stop]).next.2.unread = [] ∧ ∀ message n beyond,
      (reader.followedBy (.failure message n :: beyond)).next =
        (.error ⟨.io message, Cursor.advanceOver {} text⟩,
          { reader.behind more beyond false with done := true })) := by
  obtain ⟨hrest, hcursor, hmore, hunclosed⟩ := h
  have hfollowed (tail : Source) :
      reader.followedBy tail = { reader with rest := sized size more ++ tail } := by
    rw [followedBy, hrest]
  cases hdone : reader.done with
  | true =>
    refine Or.inl ⟨⟨more, ?_⟩, fun tail _ => ?_, by simp⟩
    · rw [next_of_done hdone]
      exact ⟨hrest, hcursor, hmore, hunclosed⟩
    · rw [next_of_done hdone]
      exact next_of_done hdone
  | false =>
  rcases assemble_cases size [] reader more with
    ⟨result, front, left, peeked, hparsed, hstays⟩ | hbeyond
  · obtain ⟨rfl, hpeeked, hread⟩ := hstays
    have hnext : ∃ ended, ∀ tail : Source, Silent tail → (reader.followedBy tail).next =
        (result, { reader.behind front (sized size left ++ tail) peeked with done := ended }) := by
      rcases hparsed with ⟨x, rfl⟩ | ⟨e, rfl, -⟩
      · refine ⟨reader.done, fun tail htail => ?_⟩
        rw [hfollowed]
        exact next_of_assemble hdone (hread tail htail)
      · refine ⟨true, fun tail htail => ?_⟩
        rw [hfollowed]
        exact next_of_assemble_error hdone (hread tail htail)
    obtain ⟨ended, hnext⟩ := hnext
    have hhere := hnext [] trivial
    rw [followedBy_nil, List.append_nil] at hhere
    refine Or.inl ⟨⟨left, ?_⟩, fun tail htail => ?_, fun _ => ?_⟩
    · rw [hhere]
      refine ⟨rfl, ?_, hpeeked, hunclosed⟩
      rw [cursor_behind, ← Cursor.advanceOver_append, hcursor]
    · rw [hnext tail htail, hhere]
      rfl
    · rw [hhere]
      exact hparsed
  · refine Or.inr ⟨?_, fun message n beyond => ?_⟩
    · have hopen : (reader.followedBy [.stop]).done = false := hdone
      rw [unread_next_eq hopen, hfollowed]
      exact hbeyond.asks
    · rw [hfollowed, ← hcursor]
      exact next_of_assemble_error hdone (hbeyond.fails message n beyond)

/-! ## Call by call -/

/-- **As long as nothing beyond the text is asked for, it makes no difference what stands
    there.** -/
theorem Inside.later (h : Inside size text reader more) (hwithin : ∀ j < k, ¬ reader.AsksBeyond j) :
    (∃ left, Inside size text (reader.later k) left) ∧ ∀ tail : Source, Silent tail →
      (reader.followedBy tail).later k = (reader.later k).followedBy tail := by
  induction k with
  | zero => exact ⟨⟨more, h⟩, fun tail _ => rfl⟩
  | succ k ih =>
    obtain ⟨⟨left, hinside⟩, hlater⟩ := ih fun j hj => hwithin j (Nat.lt_succ_of_lt hj)
    rcases hinside.next_cases with ⟨hafter, hsame, -⟩ | ⟨hasks, -⟩
    · refine ⟨hafter, fun tail htail => ?_⟩
      rw [later_succ, hlater tail htail, hsame tail htail]
      rfl
    · refine absurd ?_ (hwithin k (Nat.lt_succ_self k))
      rw [AsksBeyond, later_succ, hlater _ silent_stop]
      exact hasks

/-- **The first call that asks for more than the text is the one that fails**; up to it, what
    stands behind the text makes no difference. -/
theorem Inside.call_cases (h : Inside size text reader more)
    (hwithin : ∀ j < k, ¬ reader.AsksBeyond j) :
    (¬ reader.AsksBeyond k ∧ (reader.later k).Indifferent ∧
      ((reader.later k).done = false → IsParsed (reader.later k).next.1)) ∨
    (reader.AsksBeyond k ∧ ∀ message n beyond, ∃ after : Reader,
      ((reader.later k).followedBy (.failure message n :: beyond)).next =
        (.error ⟨.io message, Cursor.advanceOver {} text⟩, after) ∧
      after.cursor = Cursor.advanceOver {} text ∧ after.unread = beyond ∧ after.unclosed = []) := by
  obtain ⟨⟨left, hinside⟩, hlater⟩ := h.later hwithin
  rcases hinside.next_cases with ⟨⟨others, hafter⟩, hsame, hparsed⟩ | ⟨hasks, hfails⟩
  · refine Or.inl ⟨?_, hsame, hparsed⟩
    rw [AsksBeyond, later_succ, hlater _ silent_stop, hsame _ silent_stop]
    exact hafter.unread_ne_nil
  · refine Or.inr ⟨?_, fun message n beyond => ?_⟩
    · rw [AsksBeyond, later_succ, hlater _ silent_stop]
      exact hasks
    · exact ⟨_, hfails message n beyond, hinside.cursor_eq, rfl, hinside.unclosed_eq⟩

variable {message : String} {units : Nat} {tail beyond : Source}

theorem Inside.next_eq_of_within (h : Inside size text reader more) (htail : Silent tail)
    (hwithin : ∀ j ≤ k, ¬ reader.AsksBeyond j) :
    ((reader.followedBy tail).later k).next.1 = (reader.later k).next.1 := by
  have hbefore : ∀ j < k, ¬ reader.AsksBeyond j := fun j hj => hwithin j (Nat.le_of_lt hj)
  rcases h.call_cases hbefore with ⟨-, hsame, -⟩ | ⟨hasks, -⟩
  · rw [(h.later hbefore).2 tail htail, hsame tail htail]
  · exact absurd hasks (hwithin k (Nat.le_refl k))

theorem Inside.fails_at (h : Inside size text reader more) (hasks : reader.AsksBeyond n)
    (hbefore : ∀ j < n, ¬ reader.AsksBeyond j) :
    let broken := reader.followedBy (.failure message units :: beyond)
    (broken.later n).next.1 = .error ⟨.io message, Cursor.advanceOver {} text⟩ ∧
      (broken.later (n + 1)).cursor = Cursor.advanceOver {} text ∧
      (broken.later (n + 1)).unread = beyond ∧ (broken.later (n + 1)).unclosed = [] := by
  intro broken
  have hlater : broken.later n = (reader.later n).followedBy (.failure message units :: beyond) :=
    (h.later hbefore).2 _ silent_failure
  rcases h.call_cases hbefore with ⟨hnot, -⟩ | ⟨-, hfails⟩
  · exact absurd hasks hnot
  · obtain ⟨after, hnext, hafter⟩ := hfails message units beyond
    rw [later_succ, hlater, hnext]
    exact ⟨rfl, hafter⟩

theorem Inside.refused_of_within (h : Inside size text reader more) (hdone : reader.done = false)
    (hwithin : ∀ k, ¬ reader.AsksBeyond k) :
    ∃ n e, (reader.later n).next.1 = .error e ∧ e.value.isLexical = false := by
  obtain ⟨n, hreads, hend⟩ := exists_end reader
  rcases h.call_cases fun j (_ : j < n) => hwithin j with ⟨-, -, hparsed⟩ | ⟨hasks, -⟩
  · rcases hparsed (not_done_of_before hdone hreads) with ⟨x, hx⟩ | ⟨e, he⟩
    · exact absurd hx (hend x)
    · exact ⟨n, e, he⟩
  · exact absurd hasks (hwithin n)

end Reader

/-! ## Sources that fail -/

/-- Bytes of a text in front of malformed ones are read as the text in front of a failure. -/
theorem Source.ofChunks_eq_broken {chunks : List Chunk} {reads : List ByteRead}
    (hreads : Utf8.Malformed none reads)
    (h : chunks.flatMap Chunk.reads = (Utf8.encode text).map .byte ++ reads) :
    ∃ message units beyond, Source.ofChunks chunks =
      sized Char.utf8Size text ++ .failure message units :: beyond := by
  obtain ⟨message, units, beyond, hdecode⟩ := Utf8.malformed_iff.1 hreads
  refine ⟨message, units, beyond, ?_⟩
  rw [Source.ofChunks, h, Utf8.decode, Utf8.decodeFrom_encode, hdecode]

/-- **A failure or the end of the input is final, and costs nothing that came before.**

    Some calls read an expression, the next one fails or finds the end, and from then on there
    is nothing, and nothing is taken from the source, whatever else it would have to say.

    Where a source fails behind a text, the calls up to the first one that asks for more than
    the text read what they read in the text alone. That call fails as the source does, at the
    place behind the text, and no comment is found unclosed. If there is no such call, a token
    that may not stand where it does has ended the reading before. So it is as well where the
    bytes of the text are followed by bytes that are malformed. -/
theorem failure_costs_nothing_before :
    (∀ reader : Reader, ∃ n,
      (∀ k < n, ∃ x, (reader.later k).next.1 = .ok (some x)) ∧
      (∀ x, (reader.later n).next.1 ≠ .ok (some x)) ∧
      ∀ k, n < k → (reader.later k).next.1 = .ok none ∧ reader.later k = reader.later (n + 1)) ∧
    (∀ (size : Char → Nat) (text : List Char) (message : String) (units : Nat) (beyond : Source),
      let alone : Reader := { rest := sized size text }
      let broken : Reader := { rest := sized size text ++ .failure message units :: beyond }
      (∃ n, alone.AsksBeyond n ∧
        (∀ k < n, ¬ alone.AsksBeyond k ∧ (broken.later k).next.1 = (alone.later k).next.1) ∧
        (broken.later n).next.1 = .error ⟨.io message, Cursor.advanceOver {} text⟩ ∧
        (broken.later (n + 1)).cursor = Cursor.advanceOver {} text ∧
        (broken.later (n + 1)).unread = beyond ∧ (broken.later (n + 1)).unclosed = []) ∨
      (∀ k, ¬ alone.AsksBeyond k ∧ (broken.later k).next.1 = (alone.later k).next.1) ∧
        ∃ n e, (alone.later n).next.1 = .error e ∧ e.value.isLexical = false) ∧
    ∀ (text : List Char) (chunks : List Chunk) (reads : List ByteRead),
      Utf8.Malformed none reads →
      chunks.flatMap Chunk.reads = (Utf8.encode text).map .byte ++ reads →
      ∃ message units beyond, Source.ofChunks chunks =
        sized Char.utf8Size text ++ .failure message units :: beyond := by
  refine ⟨Reader.ends_once, ?_, fun _ _ _ => Source.ofChunks_eq_broken⟩
  intro size text message units beyond alone broken
  have hinside : Reader.Inside size text alone text := ⟨rfl, rfl, by simp [alone], rfl⟩
  have hbroken : broken = alone.followedBy (.failure message units :: beyond) := rfl
  rw [hbroken]
  classical
  by_cases hasks : ∃ n, alone.AsksBeyond n
  · have hbefore : ∀ j < Nat.find hasks, ¬ alone.AsksBeyond j := fun j hj => Nat.find_min hasks hj
    refine Or.inl ⟨Nat.find hasks, Nat.find_spec hasks, fun k hk => ⟨hbefore k hk, ?_⟩, ?_⟩
    · exact hinside.next_eq_of_within silent_failure
        fun j hj => hbefore j (Nat.lt_of_le_of_lt hj hk)
    · exact hinside.fails_at (Nat.find_spec hasks) hbefore
  · have hnever (k : Nat) : ¬ alone.AsksBeyond k := fun hk => hasks ⟨k, hk⟩
    refine Or.inr ⟨fun k => ⟨hnever k, ?_⟩, hinside.refused_of_within rfl hnever⟩
    exact hinside.next_eq_of_within silent_failure fun j _ => hnever j

end SmtDialogue
