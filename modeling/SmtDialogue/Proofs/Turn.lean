/-
  What can come of a call, whatever the sink and the replies do.

  * `Sink.Reliable` are streams on which nothing fails;
  * `Session.Turn`: a command is not written, is written in part, is written and not sent
    off, stays without a reply, or is answered;
  * `exchange_of_turn`: a turn tells what a command does, and `turn_exchange`: there is one
    for each command; `sent_or_not`: what is read of the replies;
  * `Call.outcome`, `perform_eq`: what a call makes of what came of its command;
  * `Speaks`: the session can send, and nothing fails on its sink; `perform_of_next`: then a
    call takes the reply that is read next;
  * `start_cases`: a session is opened by a call, the `greeting`;
  * `Session.answered`: the replies that have been read, and `Session.last`: the session
    behind some calls.
-/
import SmtDialogue.Proofs.Answer

namespace SmtDialogue

/-! ## Sinks that do not fail -/

/-- Streams of which it is known that nothing fails on them, and what they have taken. -/
structure Sink.Reliable (σ : Type) [Sink σ] where
  /-- Nothing will fail on this stream. -/
  Sound : σ → Prop
  /-- What this stream has taken. -/
  contents : σ → List UInt8
  write_eq : ∀ {sink : σ}, Sound sink → ∀ text : String, ∃ after,
    Sink.write text sink = (.ok (), after) ∧ Sound after ∧
      contents after = contents sink ++ Utf8.encode text.toList
  flush_eq : ∀ {sink : σ}, Sound sink → ∃ after,
    Sink.flush sink = (.ok (), after) ∧ Sound after ∧ contents after = contents sink

/-- A recorder without limits. -/
def Recorder.reliable : Sink.Reliable Recorder where
  Sound r := r.room = none ∧ r.failingFlush = none
  contents := Recorder.bytes
  write_eq := by
    rintro r ⟨hroom, hflush⟩ text
    refine ⟨{ r with bytes := r.bytes ++ Utf8.encode text.toList }, ?_, ⟨hroom, hflush⟩, rfl⟩
    simp [Sink.write, Recorder.write, hroom]
  flush_eq := by
    rintro r ⟨hroom, hflush⟩
    refine ⟨{ r with flushes := r.flushes + 1 }, ?_, ⟨hroom, hflush⟩, rfl⟩
    simp [Sink.flush, Recorder.flush, hflush]

/-! ## What passes -/

/-- An expression as it is sent, on a line of its own. -/
def Sexp.line (x : Sexp) : String :=
  x.render ++ "\n"

theorem Utf8.encode_line_ne_nil (x : Sexp) : Utf8.encode x.line.toList ≠ [] := by
  intro h
  have hlast : String.utf8EncodeChar '\n' ≠ [] := by decide
  rw [Sexp.line, String.toList_append, encode, List.flatMap_append, List.append_eq_nil_iff] at h
  exact hlast (by simpa using h.2)

/-- The reply that is recorded, if one is. -/
def Event.reply? : Event → Option Sexp
  | .reply x => some x
  | .unclosedComment _ | .skippedEntry _ | .command _ => none

/-- Why there is no reply. -/
def SessionError.ofNext? : Except (Located SyntaxError) (Option Sexp) → Option SessionError
  | .ok (some _) => none
  | .ok none => some .closed
  | .error e => some (.ofSyntax e)

/-- The solver has said nothing that the error tells of. -/
def SessionError.IsSilent : SessionError → Prop
  | .io _ | .closed | .malformed _ => True
  | .spawn _ _ | .protocol _ _ | .server _ => False

theorem SessionError.isSilent_of_ofNext? {result : Except (Located SyntaxError) (Option Sexp)}
    {e : SessionError} (h : ofNext? result = some e) : e.IsSilent := by
  rcases result with cause | _ | x
  · obtain rfl := Option.some.inj h
    obtain ⟨value, position⟩ := cause
    cases value <;> trivial
  · obtain rfl := Option.some.inj h
    trivial
  · simp [ofNext?] at h

theorem SessionError.ofNext?_eq_none_iff {result : Except (Located SyntaxError) (Option Sexp)} :
    ofNext? result = none ↔ ∃ x, result = .ok (some x) := by
  rcases result with cause | _ | x <;> simp [ofNext?]

theorem Reader.done_of_ofNext? {reader : Reader} {e : SessionError}
    (h : SessionError.ofNext? reader.next.1 = some e) : reader.next.2.done = true := by
  rw [next] at h ⊢
  by_cases hdone : reader.done = true
  · rw [if_pos hdone]
    exact hdone
  · rw [if_neg hdone] at h ⊢
    split
    · rename_i hassemble
      simp [hassemble, SessionError.ofNext?] at h
    · rfl

namespace Session

variable {σ : Type} {s after : Session σ} {command : Sexp} {request : Request} {call : Call}
  {result : Except SessionError Sexp}

/-- The replies that have been read, in order. -/
def answered (s : Session σ) : List Sexp :=
  s.log.filterMap Event.reply?

theorem answered_record (events : List Event) :
    (s.record events).answered = s.answered ++ events.filterMap Event.reply? :=
  List.filterMap_append

/-- What is found while the next reply is read: comments that are not closed. -/
def findings (s : Session σ) : List Event :=
  (s.replies.next.2.unclosed.drop s.replies.unclosed.length).map .unclosedComment

@[simp] theorem reply?_findings (s : Session σ) : s.findings.filterMap Event.reply? = [] := by
  rw [findings, List.filterMap_map, List.filterMap_eq_nil_iff]
  exact fun _ _ => rfl

theorem receive_of_reply {x : Sexp} (hholds : s.holdsReplies = true)
    (hnext : s.replies.next.1 = .ok (some x)) :
    s.receive = (.ok x, { s with
      replies := s.replies.next.2, log := s.log ++ s.findings ++ [.reply x] }) := by
  have hsame : s.replies.next = (.ok (some x), s.replies.next.2) := Prod.ext hnext rfl
  rw [receive, if_pos hholds, hsame]
  rfl

theorem receive_of_no_reply {e : SessionError} (hholds : s.holdsReplies = true)
    (hnone : SessionError.ofNext? s.replies.next.1 = some e) :
    s.receive = (.error e, { s with
      replies := s.replies.next.2, log := s.log ++ s.findings }) := by
  rw [receive, if_pos hholds, findings]
  rcases hnext : s.replies.next with ⟨cause | _ | x, replies⟩ <;> rw [hnext] at hnone
  · obtain rfl := Option.some.inj hnone
    rfl
  · obtain rfl := Option.some.inj hnone
    rfl
  · cases hnone

variable [Sink σ]

/-- The sink takes the command and sends it off. -/
def Delivers (s : Session σ) (command : Sexp) (sink : σ) : Prop :=
  s.holdsSink = true ∧
    ∃ written, Sink.write command.line s.sink = (.ok (), written) ∧
      Sink.flush written = (.ok (), sink)

/-! ## What can come of a command -/

/-- What can come of a command in the session `s`, and how the session goes on. -/
inductive Turn (s : Session σ) (command : Sexp) : Except SessionError Sexp → Session σ → Prop
  /-- Nothing is done in a closed session. -/
  | closed : s.holdsSink = false → Turn s command (.error .closed) s
  /-- The command was not written, or not to its end. -/
  | cut {e : String} {sink : σ} : s.holdsSink = true →
      Sink.write command.line s.sink = (.error e, sink) →
      Turn s command (.error (.io e)) { s with sink, log := s.log ++ [.command command] }
  /-- The command was written, and not sent off. -/
  | unsent {e : String} {written sink : σ} : s.holdsSink = true →
      Sink.write command.line s.sink = (.ok (), written) →
      Sink.flush written = (.error e, sink) →
      Turn s command (.error (.io e)) { s with sink, log := s.log ++ [.command command] }
  /-- The command was sent, and no reply can be read. -/
  | unanswered {sink : σ} {e : SessionError} : s.Delivers command sink → s.holdsReplies = true →
      SessionError.ofNext? s.replies.next.1 = some e →
      Turn s command (.error e) { s with
        sink, replies := s.replies.next.2
        log := s.log ++ [.command command] ++ s.findings }
  /-- The command was sent, and a reply was read. -/
  | answered {sink : σ} {x : Sexp} : s.Delivers command sink → s.holdsReplies = true →
      s.replies.next.1 = .ok (some x) →
      Turn s command (.ok x) { s with
        sink, replies := s.replies.next.2
        log := s.log ++ [.command command] ++ s.findings ++ [.reply x] }

theorem send_of_shut (hshut : s.holdsSink = false) (command : Sexp) :
    s.send command = (.error "solver input closed", s) := by
  rw [send, if_neg (Bool.eq_false_iff.1 hshut)]

theorem send_of_cut {e : String} {sink : σ} (hopen : s.holdsSink = true)
    (hwrite : Sink.write command.line s.sink = (.error e, sink)) :
    s.send command = (.error e, { s with sink }) := by
  rw [Sexp.line] at hwrite
  rw [send, if_pos hopen, hwrite]

theorem send_of_written {written sink : σ} {flushed : Except String Unit}
    (hopen : s.holdsSink = true)
    (hwrite : Sink.write command.line s.sink = (.ok (), written))
    (hflush : Sink.flush written = (flushed, sink)) :
    s.send command = (flushed, { s with sink }) := by
  rw [Sexp.line] at hwrite
  simp only [send, if_pos hopen, hwrite, hflush]

theorem exchange_of_not_sent {e : String} {left : Session σ} (hopen : s.holdsSink = true)
    (hsend : (s.record [.command command]).send command = (.error e, left)) :
    s.exchange command = (.error (.io e), left) := by
  have hclosed : ¬ s.isClosed = true := by simp [isClosed, hopen]
  rw [exchange, if_neg hclosed, hsend]

theorem exchange_of_sent {left : Session σ} (hopen : s.holdsSink = true)
    (hsend : (s.record [.command command]).send command = (.ok (), left)) :
    s.exchange command = left.receive := by
  have hclosed : ¬ s.isClosed = true := by simp [isClosed, hopen]
  rw [exchange, if_neg hclosed, hsend]

/-- **A turn tells what a command does.** -/
theorem exchange_of_turn (h : Turn s command result after) :
    s.exchange command = (result, after) := by
  cases h with
  | closed hshut =>
    have hclosed : s.isClosed = true := by simp [isClosed, hshut]
    rw [exchange, if_pos hclosed]
  | cut hopen hwrite =>
    have hsend := send_of_cut (s := s.record [.command command]) hopen hwrite
    exact exchange_of_not_sent hopen hsend
  | unsent hopen hwrite hflush =>
    have hsend := send_of_written (s := s.record [.command command]) hopen hwrite hflush
    exact exchange_of_not_sent hopen hsend
  | unanswered hdelivers hholds hnone =>
    obtain ⟨hopen, written, hwrite, hflush⟩ := hdelivers
    have hsend := send_of_written (s := s.record [.command command]) hopen hwrite hflush
    exact (exchange_of_sent hopen hsend).trans (receive_of_no_reply hholds hnone)
  | answered hdelivers hholds hnext =>
    obtain ⟨hopen, written, hwrite, hflush⟩ := hdelivers
    have hsend := send_of_written (s := s.record [.command command]) hopen hwrite hflush
    exact (exchange_of_sent hopen hsend).trans (receive_of_reply hholds hnext)

/-- **This is all that can come of a command.** -/
theorem turn_exchange (hheld : s.holdsReplies = s.holdsSink) (command : Sexp) :
    Turn s command (s.exchange command).1 (s.exchange command).2 := by
  -- some turn there is, and it tells what the exchange is
  suffices h : ∃ result after, Turn s command result after by
    obtain ⟨result, after, hturn⟩ := h
    rwa [exchange_of_turn hturn]
  cases hopen : s.holdsSink with
  | false => exact ⟨_, _, .closed hopen⟩
  | true =>
    have hholds := hheld.trans hopen
    rcases hwrite : Sink.write command.line s.sink with ⟨e | _, written⟩
    · exact ⟨_, _, .cut hopen hwrite⟩
    rcases hflush : Sink.flush written with ⟨e | _, sink⟩
    · exact ⟨_, _, .unsent hopen hwrite hflush⟩
    have hdelivers : s.Delivers command sink := ⟨hopen, written, hwrite, hflush⟩
    cases hnone : SessionError.ofNext? s.replies.next.1 with
    | some e => exact ⟨_, _, .unanswered hdelivers hholds hnone⟩
    | none =>
      obtain ⟨x, hnext⟩ := SessionError.ofNext?_eq_none_iff.1 hnone
      exact ⟨_, _, .answered hdelivers hholds hnext⟩

/-- **Whether a command is sent decides over the replies**: nothing is read if it is not, and
    else what comes of it is what is read next. -/
theorem sent_or_not (h : Turn s command result after) :
    (s.holdsSink = false ∧ result = .error .closed ∧ after = s) ∨
    (s.holdsSink = true ∧ after.holdsSink = true ∧ after.sink = (s.send command).2.sink ∧
      ((∃ e, (s.send command).1 = .error e ∧ result = .error (.io e) ∧
        after.replies = s.replies) ∨
      ((s.send command).1 = .ok () ∧ after.replies = s.replies.next.2 ∧
        ((∃ e, SessionError.ofNext? s.replies.next.1 = some e ∧ result = .error e) ∨
          ∃ x, s.replies.next.1 = .ok (some x) ∧ result = .ok x)))) := by
  cases h with
  | closed hshut => exact Or.inl ⟨hshut, rfl, rfl⟩
  | cut hopen hwrite =>
    rw [send_of_cut hopen hwrite]
    exact Or.inr ⟨hopen, hopen, rfl, Or.inl ⟨_, rfl, rfl, rfl⟩⟩
  | unsent hopen hwrite hflush =>
    rw [send_of_written hopen hwrite hflush]
    exact Or.inr ⟨hopen, hopen, rfl, Or.inl ⟨_, rfl, rfl, rfl⟩⟩
  | unanswered hdelivers _ hnone =>
    obtain ⟨hopen, written, hwrite, hflush⟩ := hdelivers
    rw [send_of_written hopen hwrite hflush]
    exact Or.inr ⟨hopen, hopen, rfl, Or.inr ⟨rfl, rfl, Or.inl ⟨_, hnone, rfl⟩⟩⟩
  | answered hdelivers _ hnext =>
    obtain ⟨hopen, written, hwrite, hflush⟩ := hdelivers
    rw [send_of_written hopen hwrite hflush]
    exact Or.inr ⟨hopen, hopen, rfl, Or.inr ⟨rfl, rfl, Or.inr ⟨_, hnext, rfl⟩⟩⟩

/-- The session can send, and nothing fails on its sink. -/
structure Speaks (R : Sink.Reliable σ) (s : Session σ) : Prop where
  sound : R.Sound s.sink
  holdsSink : s.holdsSink = true
  holdsReplies : s.holdsReplies = true

theorem contents_of_delivers {R : Sink.Reliable σ} {sink : σ} (hsound : R.Sound s.sink)
    (h : s.Delivers command sink) :
    R.Sound sink ∧ R.contents sink = R.contents s.sink ++ Utf8.encode command.line.toList := by
  obtain ⟨-, written, hwrite, hflush⟩ := h
  obtain ⟨written', hwrite', hsound, hcontents⟩ := R.write_eq hsound command.line
  obtain rfl : written = written' := congrArg Prod.snd (hwrite.symm.trans hwrite')
  obtain ⟨sink', hflush', hsound, hsame⟩ := R.flush_eq hsound
  obtain rfl : sink = sink' := congrArg Prod.snd (hflush.symm.trans hflush')
  exact ⟨hsound, hsame.trans hcontents⟩

theorem delivers_of_speaks {R : Sink.Reliable σ} (h : Speaks R s) (command : Sexp) :
    ∃ sink, s.Delivers command sink := by
  obtain ⟨written, hwrite, hsound, -⟩ := R.write_eq h.sound command.line
  obtain ⟨sink, hflush, -, -⟩ := R.flush_eq hsound
  exact ⟨sink, h.holdsSink, written, hwrite, hflush⟩

theorem held_of_turn (hheld : s.holdsReplies = s.holdsSink) (h : Turn s command result after) :
    after.holdsReplies = after.holdsSink := by
  cases h <;> exact hheld

theorem answered_of_turn (h : Turn s command result after) :
    after.answered = s.answered ++ result.toOption.toList := by
  cases h <;> simp [answered, Except.toOption, Event.reply?, List.filterMap_cons]

end Session

/-! ## What a call makes of it -/

/-- What is worth a warning in the answer to a request. -/
def Request.warnings (request : Request) (result : Except SessionError Sexp) : List Event :=
  match result.bind request.answer with
  | .ok a => Session.skippedEvents a
  | .error _ => []

theorem Request.exists_warnings (request : Request) (result : Except SessionError Sexp) :
    ∃ skipped, request.warnings result = List.map .skippedEntry skipped := by
  unfold warnings
  split
  · rename_i a _
    cases a with
    | model reading => exact ⟨reading.skipped, rfl⟩
    | done | verdict | reply => exact ⟨[], rfl⟩
  · exact ⟨[], rfl⟩

/-- How a call ends, given what came of its command. -/
def Call.outcome : Call → Except SessionError Sexp → Outcome
  | ask request, result => .ofResult (result.bind request.answer)
  | push, result =>
    match result.bind Request.push.answer with
    | .ok a => .answer a
    | .error e => .abort ("unable to push an assertion scope: " ++ e.message)
  | exit, result =>
    match result.bind Request.exit.answer with
    | .error .closed => .answer .done
    | ended => .ofResult ended
  | close, _ => .answer .done

theorem Call.outcome_ok (call : Call) (x : Sexp) : call.outcome (.ok x) = call.expected x := by
  cases call with
  | ask request =>
    rw [outcome, expected, ← Request.answer_eq_expected]
    rfl
  | push =>
    rw [outcome, expected, ← Request.answer_eq_expected]
    rfl
  | close => rfl
  | exit =>
    have hanswer : Except.bind (.ok x) Request.exit.answer = Request.exit.expected x :=
      Request.answer_eq_expected .exit x
    rw [outcome, expected, hanswer]
    split
    · rename_i hclosed
      exact absurd hclosed (Request.expected_ne_closed _ _)
    · rfl

/-- How a call ends if its request fails: a solver may leave without a word. -/
def Call.failing : Call → SessionError → Outcome
  | ask _, e => .failure e
  | push, e => .abort ("unable to push an assertion scope: " ++ e.message)
  | exit, .closed => .answer .done
  | exit, e => .failure e
  | close, _ => .answer .done

theorem Call.outcome_error (call : Call) (e : SessionError) :
    call.outcome (.error e) = call.failing e := by
  cases call with
  | ask | push | close => rfl
  | exit => cases e <;> rfl

namespace Session

variable {σ : Type} {s : Session σ} {request : Request} {call : Call}

/-- The session that a call leaves behind. -/
def behind (call : Call) (s : Session σ) : Session σ :=
  match call with
  | .ask _ | .push => s
  | .exit | .close => s.close

@[simp] theorem sink_behind : (behind call s).sink = s.sink := by
  cases call <;> rfl

@[simp] theorem replies_behind : (behind call s).replies = s.replies := by
  cases call <;> rfl

@[simp] theorem answered_behind : (behind call s).answered = s.answered := by
  cases call <;> rfl

theorem behind_of_not_leaves (h : ¬ call.Leaves) : behind call s = s := by
  cases call with
  | ask | push => rfl
  | exit | close => exact absurd trivial h

theorem behind_of_leaves (h : call.Leaves) : behind call s = s.close := by
  cases call with
  | ask | push => exact h.elim
  | exit | close => rfl

theorem answered_record_warnings (request : Request) (result : Except SessionError Sexp) :
    (s.record (request.warnings result)).answered = s.answered := by
  obtain ⟨skipped, hskipped⟩ := request.exists_warnings result
  simp [answered_record, hskipped, List.filterMap_map, Event.reply?, Function.comp_def]

variable [Sink σ]

theorem ask_eq (s : Session σ) (request : Request) :
    s.ask request = ((s.exchange request.command).1.bind request.answer,
      (s.exchange request.command).2.record (request.warnings (s.exchange request.command).1)) := by
  rcases hexchange : s.exchange request.command with ⟨e | x, after⟩
  · simp [ask, hexchange, Request.warnings, Except.bind, record]
  · rcases hanswer : request.answer x with e | a
    · simp [ask, hexchange, hanswer, Request.warnings, Except.bind, record]
    · simp [ask, hexchange, hanswer, Request.warnings, Except.bind]

/-- **A call ends by what came of its command**, and the session goes on from there. -/
theorem perform_eq (s : Session σ) (h : call.request? = some request) :
    s.perform call = (call.outcome (s.exchange request.command).1,
      behind call ((s.exchange request.command).2.record
        (request.warnings (s.exchange request.command).1))) := by
  have hask := ask_eq s request
  cases call with
  | ask asked =>
    obtain rfl := Option.some.inj h
    rw [perform, hask]
    rfl
  | push =>
    obtain rfl := Option.some.inj h
    rw [perform, hask, Call.outcome]
    cases (s.exchange Request.push.command).1.bind Request.push.answer <;> rfl
  | exit =>
    obtain rfl := Option.some.inj h
    rw [perform, hask, Call.outcome]
    rcases (s.exchange Request.exit.command).1.bind Request.exit.answer with e | a
    · cases e <;> rfl
    · rfl
  | close => simp [Call.request?] at h

theorem sink_perform (s : Session σ) (h : call.request? = some request) :
    (s.perform call).2.sink = (s.exchange request.command).2.sink := by
  rw [perform_eq s h, sink_behind, record]

theorem replies_perform (s : Session σ) (h : call.request? = some request) :
    (s.perform call).2.replies = (s.exchange request.command).2.replies := by
  rw [perform_eq s h, replies_behind, record]

/-- **A call takes the reply that is read next**, once its command is sent. -/
theorem perform_of_delivers {sink : σ} {x : Sexp} {replies : Reader}
    (hdelivers : s.Delivers request.command sink) (hholds : s.holdsReplies = true)
    (hnext : s.replies.next = (.ok (some x), replies))
    (hunclosed : replies.unclosed = s.replies.unclosed) (h : call.request? = some request) :
    s.perform call = (call.expected x, behind call { s with
      sink, replies
      log := s.log ++ [.command request.command, .reply x] ++ request.warnings (.ok x) }) := by
  have hfindings : s.findings = [] := by simp [findings, hnext, hunclosed]
  have hreply : s.replies.next.1 = .ok (some x) := congrArg Prod.fst hnext
  rw [perform_eq s h, exchange_of_turn (.answered hdelivers hholds hreply), Call.outcome_ok, hnext,
    hfindings, List.append_nil, List.append_assoc]
  rfl

theorem perform_of_next {R : Sink.Reliable σ} {x : Sexp} {replies : Reader} (hs : Speaks R s)
    (call : Call) (hnext : s.replies.next = (.ok (some x), replies))
    (hunclosed : replies.unclosed = s.replies.unclosed) (h : call.request? = some request) :
    ∃ sink, R.Sound sink ∧
      R.contents sink = R.contents s.sink ++ Utf8.encode request.command.line.toList ∧
      s.perform call = (call.expected x, behind call { s with
        sink, replies
        log := s.log ++ [.command request.command, .reply x] ++ request.warnings (.ok x) }) := by
  obtain ⟨sink, hdelivers⟩ := delivers_of_speaks hs request.command
  obtain ⟨hsound, hcontents⟩ := contents_of_delivers hs.sound hdelivers
  exact ⟨sink, hsound, hcontents,
    perform_of_delivers hdelivers hs.holdsReplies hnext hunclosed h⟩

theorem perform_of_next_error {R : Sink.Reliable σ} {e : Located SyntaxError} (hs : Speaks R s)
    (call : Call) (hnext : s.replies.next.1 = .error e) (h : call.request? = some request) :
    (s.perform call).1 = call.outcome (.error (.ofSyntax e)) ∧
      (s.perform call).2.replies.done = true := by
  obtain ⟨sink, hdelivers⟩ := delivers_of_speaks hs request.command
  have hnone : SessionError.ofNext? s.replies.next.1 = some (.ofSyntax e) := by
    rw [hnext]
    rfl
  rw [perform_eq s h, exchange_of_turn (.unanswered hdelivers hs.holdsReplies hnone),
    replies_behind]
  exact ⟨rfl, Reader.done_of_ofNext? hnone⟩

/-- The call that opens a session. -/
def greeting : Call :=
  .ask (.setOption "print-success" (.symbol "true"))

/-- **A session is opened by a call as any other**, and is closed if that fails. -/
theorem start_cases (sink : σ) (replies : Reader) :
    (∃ a opened, perform greeting { sink, replies } = (.answer a, opened) ∧
      start sink replies = (.answer a, opened)) ∨
    ∃ e left, perform greeting { sink, replies } = (.failure e, left) ∧
      start sink replies = (.failure e, left.close) := by
  rcases hask : ask (.setOption "print-success" (.symbol "true"))
    ({ sink, replies } : Session σ) with ⟨e | a, after⟩
  · refine Or.inr ⟨e, after, ?_, ?_⟩
    · rw [greeting, perform, hask]
      rfl
    · simp only [start, hask]
  · refine Or.inl ⟨a, after, ?_, ?_⟩
    · rw [greeting, perform, hask]
      rfl
    · simp only [start, hask]

theorem start_of_perform {sink : σ} {replies : Reader} {a : Answer} {opened : Session σ}
    (h : perform greeting { sink, replies } = (.answer a, opened)) :
    start sink replies = (.answer a, opened) := by
  rcases start_cases sink replies with ⟨b, found, hperform, hstart⟩ | ⟨e, left, hperform, -⟩
  · rw [hstart, ← hperform, h]
  · simp [hperform] at h

/-- The session behind some calls. -/
def last (s : Session σ) (calls : List Call) : Session σ :=
  ((s.run calls).map Prod.snd).getLastD s

@[simp] theorem last_nil (s : Session σ) : s.last [] = s := rfl

@[simp] theorem last_cons (s : Session σ) (call : Call) (calls : List Call) :
    s.last (call :: calls) = (s.perform call).2.last calls :=
  List.getLastD_cons

end Session

end SmtDialogue
