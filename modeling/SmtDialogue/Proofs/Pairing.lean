/-
  Which reply a call reads, on a sink that may fail.

  Replies carry no mark of what they answer. A call reads the reply that comes next, and
  this is the one to its own command only if all lines that were sent before have been
  answered.

  * `Sink.Faithful`: streams that take a text, or fail and take less of it;
  * `Passage`: a call with the session before and behind it, and `Session.story`: a whole
    session, passage by passage;
  * `Passage.records`: the sink has got all of the line of this call, and `Passage.loses`:
    it has, although the session was told that sending failed;
  * `Passage.Fate`: all that can come of a call;
  * `replies_pair_with_lines`: a call reads as many replies too early as lines were lost
    before it.
-/
import SmtDialogue.Proofs.Reply
import SmtDialogue.Proofs.Turn

namespace SmtDialogue

open Source

/-! ## Sinks that may fail -/

/-- Streams of which it is known what they have taken. If they fail on a text, there is a
    part of it that they have not taken. -/
structure Sink.Faithful (σ : Type) [Sink σ] where
  /-- What this stream has taken. -/
  contents : σ → List UInt8
  write_ok : ∀ {text : String} {sink after : σ}, Sink.write text sink = (.ok (), after) →
    contents after = contents sink ++ Utf8.encode text.toList
  write_error : ∀ {text e : String} {sink after : σ}, Sink.write text sink = (.error e, after) →
    ∃ taken missing, missing ≠ [] ∧ Utf8.encode text.toList = taken ++ missing ∧
      contents after = contents sink ++ taken
  flush_eq : ∀ sink : σ, contents (Sink.flush sink).2 = contents sink

/-- A recorder fails when there is no room left, and when it is told to. -/
def Recorder.faithful : Sink.Faithful Recorder where
  contents := Recorder.bytes
  write_ok := by
    intro text r after h
    simp only [Sink.write, Recorder.write] at h
    split at h
    · rw [← (Prod.mk.inj h).2]
    · obtain ⟨hfits, rfl⟩ := Prod.mk.inj h
      split at hfits
      · rename_i hroom
        rw [List.take_of_length_le hroom]
      · simp at hfits
  write_error := by
    intro text e r after h
    simp only [Sink.write, Recorder.write] at h
    split at h
    · simp at h
    · rename_i room _
      obtain ⟨hfits, rfl⟩ := Prod.mk.inj h
      split at hfits
      · simp at hfits
      · rename_i hroom
        refine ⟨_, (Utf8.encode text.toList).drop (room - r.bytes.length), ?_,
          (List.take_append_drop _ _).symm, rfl⟩
        rw [ne_eq, List.drop_eq_nil_iff]
        exact hroom
  flush_eq _ := rfl

/-- A recorder that has got one more text, and has been asked to send it off. -/
def Recorder.sent (text : String) (r : Recorder) : Recorder :=
  { r with bytes := r.bytes ++ Utf8.encode text.toList, flushes := r.flushes + 1 }

theorem Recorder.write_eq {r : Recorder} (h : r.room = none) (text : String) :
    Sink.write text r = (.ok (), { r with bytes := r.bytes ++ Utf8.encode text.toList }) := by
  simp only [Sink.write, write, h]

/-! ## Passages -/

/-- A call in a session, and how it ends. -/
structure Passage (σ : Type) where
  before : Session σ
  call : Call
  outcome : Outcome
  after : Session σ

namespace Session

variable {σ : Type} [Sink σ]

/-- One call. -/
def passage (s : Session σ) (call : Call) : Passage σ :=
  ⟨s, call, (s.perform call).1, (s.perform call).2⟩

/-- Some calls, one after the other. -/
def passages (s : Session σ) : List Call → List (Passage σ)
  | [] => []
  | call :: calls => s.passage call :: (s.perform call).2.passages calls

/-- The call that opens a session. -/
def opening (sink : σ) (replies : Reader) : Passage σ :=
  ⟨{ sink, replies }, greeting, (start sink replies).1, (start sink replies).2⟩

/-- A whole session, from the call that opens it. -/
def story (sink : σ) (replies : Reader) (calls : List Call) : List (Passage σ) :=
  opening sink replies :: (start sink replies).2.passages calls

/-- The passages are those of a run. -/
theorem map_passages (s : Session σ) (calls : List Call) :
    (s.passages calls).map (fun p => (p.outcome, p.after)) = s.run calls := by
  induction calls generalizing s with
  | nil => rfl
  | cons call calls ih =>
    rw [passages, run, List.map_cons, ih]
    rfl

end Session

namespace Passage

variable {σ : Type} {p : Passage σ} {request : Request} {e : SessionError}

/-- The call has read this reply. -/
def Reads (p : Passage σ) (x : Sexp) : Prop :=
  p.after.answered = p.before.answered ++ [x]

/-- The call ends as only a reply can make it end. A solver that is asked to leave need not
    reply. -/
def RestsOnReply (p : Passage σ) : Prop :=
  match p.outcome with
  | .answer _ => ¬ p.call.Leaves
  | .failure (.protocol _ _) | .failure (.server _) => True
  | .failure _ | .abort _ => False

/-- The call has read nothing. -/
structure Mute (p : Passage σ) : Prop where
  answered : p.after.answered = p.before.answered
  not_restsOnReply : ¬ p.RestsOnReply

theorem not_reads_of_mute (h : p.Mute) (x : Sexp) : ¬ p.Reads x := by
  intro hreads
  rw [Reads, h.answered] at hreads
  simp at hreads

theorem not_restsOnReply_of_isSilent (he : e.IsSilent)
    (h : p.outcome = p.call.outcome (.error e)) : ¬ p.RestsOnReply := by
  obtain ⟨before, call, outcome, after⟩ := p
  dsimp only at h
  subst h
  cases call <;> cases e <;> simp_all [RestsOnReply, Call.outcome, SessionError.IsSilent,
    Outcome.ofResult, Except.bind, Call.Leaves]

variable [Sink σ] {F : Sink.Faithful σ} {sink : σ}

/-- The sink has got all of the line of this call. -/
def records (F : Sink.Faithful σ) (p : Passage σ) : Bool :=
  p.call.request?.any fun request =>
    F.contents p.after.sink =
      F.contents p.before.sink ++ Utf8.encode request.command.line.toList

/-- The session was told that its command could not be sent. -/
def fails (p : Passage σ) : Bool :=
  p.call.request?.any fun request => !(p.before.send request.command).1.isOk

/-- The sink has got all of the line of this call, and the session was told otherwise. -/
def loses (F : Sink.Faithful σ) (p : Passage σ) : Bool :=
  p.records F && p.fails

theorem records_eq_true_iff (hrequest : p.call.request? = some request) :
    p.records F = true ↔ F.contents p.after.sink =
      F.contents p.before.sink ++ Utf8.encode request.command.line.toList := by
  rw [records, hrequest, Option.any_some, decide_eq_true_iff]

theorem fails_eq (hrequest : p.call.request? = some request) :
    p.fails = !(p.before.send request.command).1.isOk := by
  rw [fails, hrequest, Option.any_some]

/-! ## What comes of a call -/

/-- All that can come of a call. -/
inductive Fate (F : Sink.Faithful σ) (p : Passage σ) : Prop
  /-- The sink has not got the line, if there is one, and nothing is read. -/
  | idle : p.Mute → p.records F = false → p.after.replies = p.before.replies → Fate F p
  /-- The line is lost: a reply to it may come, and no one waits for it. -/
  | lost : p.Mute → p.loses F = true → p.after.replies = p.before.replies → Fate F p
  /-- There are no more replies. -/
  | unanswered : p.Mute → p.after.replies.done = true → Fate F p
  /-- The next reply is read. -/
  | read (x : Sexp) : p.Reads x → p.outcome = p.call.expected x → p.records F = true →
      p.fails = false → p.before.replies.next = (.ok (some x), p.after.replies) → Fate F p

theorem Fate.close (h : p.Fate F) : Fate F { p with after := p.after.close } := by
  cases h with
  | idle hmute hrecords hreplies => exact .idle ⟨hmute.1, hmute.2⟩ hrecords hreplies
  | lost hmute hloses hreplies => exact .lost ⟨hmute.1, hmute.2⟩ hloses hreplies
  | unanswered hmute hdone => exact .unanswered ⟨hmute.1, hmute.2⟩ hdone
  | read x hreads houtcome hrecords hfails hnext =>
    exact .read x hreads houtcome hrecords hfails hnext

theorem records_of_delivers (hrequest : p.call.request? = some request)
    (h : p.before.Delivers request.command p.after.sink) : p.records F = true := by
  obtain ⟨-, written, hwrite, hflush⟩ := h
  have hsame := F.flush_eq written
  rw [hflush] at hsame
  rw [records_eq_true_iff hrequest, hsame, F.write_ok hwrite]

theorem not_fails_of_delivers (hrequest : p.call.request? = some request)
    (h : p.before.Delivers request.command sink) : p.fails = false := by
  obtain ⟨hholds, written, hwrite, hflush⟩ := h
  rw [fails_eq hrequest, Session.send_of_written hholds hwrite hflush]
  rfl

theorem not_records_of_cut {e : String} (hrequest : p.call.request? = some request)
    (hwrite : Sink.write request.command.line p.before.sink = (.error e, p.after.sink)) :
    p.records F = false := by
  obtain ⟨taken, missing, hmissing, hline, hcontents⟩ := F.write_error hwrite
  rw [Bool.eq_false_iff, ne_eq, records_eq_true_iff hrequest, hcontents, hline]
  intro hall
  rw [List.append_cancel_left_eq, List.self_eq_append_right] at hall
  exact hmissing hall

theorem not_records_of_closed (hrequest : p.call.request? = some request)
    (hsink : p.after.sink = p.before.sink) : p.records F = false := by
  rw [Bool.eq_false_iff, ne_eq, records_eq_true_iff hrequest, hsink]
  intro hall
  rw [List.self_eq_append_right] at hall
  exact Utf8.encode_line_ne_nil _ hall

theorem loses_of_unsent {e : String} {written : σ} (hrequest : p.call.request? = some request)
    (hholds : p.before.holdsSink = true)
    (hwrite : Sink.write request.command.line p.before.sink = (.ok (), written))
    (hflush : Sink.flush written = (.error e, p.after.sink)) : p.loses F = true := by
  have hsame := F.flush_eq written
  rw [hflush] at hsame
  have hrecords : p.records F = true := by
    rw [records_eq_true_iff hrequest, hsame, F.write_ok hwrite]
  rw [loses, hrecords, fails_eq hrequest, Session.send_of_written hholds hwrite hflush]
  rfl

end Passage

namespace Session

variable {σ : Type} [Sink σ] {F : Sink.Faithful σ} {s after : Session σ} {call : Call}
  {request : Request} {result : Except SessionError Sexp}

theorem fate_of_turn (hrequest : call.request? = some request)
    (h : Turn s request.command result after) :
    Passage.Fate F ⟨s, call, call.outcome result,
      behind call (after.record (request.warnings result))⟩ := by
  have hanswered : (behind call (after.record (request.warnings result))).answered =
      s.answered ++ result.toOption.toList := by
    rw [answered_behind, answered_record_warnings, answered_of_turn h]
  have hmute {e : SessionError} (herror : result = .error e) (he : e.IsSilent) :
      Passage.Mute ⟨s, call, call.outcome result,
        behind call (after.record (request.warnings result))⟩ := by
    subst herror
    exact ⟨hanswered.trans (List.append_nil _), Passage.not_restsOnReply_of_isSilent he rfl⟩
  cases h with
  | closed hshut =>
    exact .idle (hmute rfl trivial) (Passage.not_records_of_closed hrequest sink_behind)
      replies_behind
  | @cut e sink hholds hwrite =>
    refine .idle (hmute rfl trivial) (Passage.not_records_of_cut hrequest (e := e) ?_)
      replies_behind
    rw [sink_behind]
    exact hwrite
  | @unsent e written sink hholds hwrite hflush =>
    refine .lost (hmute rfl trivial) (Passage.loses_of_unsent hrequest hholds hwrite (e := e) ?_)
      replies_behind
    rw [sink_behind]
    exact hflush
  | unanswered hdelivers _ hnone =>
    refine .unanswered (hmute rfl (SessionError.isSilent_of_ofNext? hnone)) ?_
    rw [replies_behind]
    exact Reader.done_of_ofNext? hnone
  | @answered sink x hdelivers _ hnext =>
    refine .read x hanswered (Call.outcome_ok call x) (Passage.records_of_delivers hrequest ?_)
      (Passage.not_fails_of_delivers hrequest hdelivers) ?_
    · rw [sink_behind]
      exact hdelivers
    · rw [replies_behind]
      exact Prod.ext hnext rfl

/-- **This is all that can come of a call.** -/
theorem fate_perform (hheld : s.holdsReplies = s.holdsSink) (call : Call) :
    (s.passage call).Fate F := by
  rcases hrequest : call.request? with _ | request
  · obtain rfl := Call.eq_close_of_request? hrequest
    exact .idle ⟨rfl, fun hrests => hrests trivial⟩ rfl rfl
  · rw [passage, perform_eq s hrequest]
    exact fate_of_turn hrequest (turn_exchange hheld request.command)

theorem held_perform (hheld : s.holdsReplies = s.holdsSink) (call : Call) :
    (s.perform call).2.holdsReplies = (s.perform call).2.holdsSink := by
  by_cases hleaves : call.Leaves
  · cases call with
    | ask | push => exact hleaves.elim
    | close => rfl
    | exit =>
      have hrequest : Call.exit.request? = some .exit := rfl
      rw [perform_eq s hrequest, behind_of_leaves hleaves]
      rfl
  · obtain ⟨request, hrequest⟩ := Call.exists_request_of_not_leaves hleaves
    have hturn := held_of_turn hheld (turn_exchange hheld request.command)
    rw [perform_eq s hrequest, behind_of_not_leaves hleaves]
    exact hturn

end Session

/-! ## Counting lines and replies -/

theorem Reader.Reads.snoc {reader middle after : Reader} {xs : List Sexp} {x : Sexp}
    (h : reader.Reads xs middle) (hnext : middle.next = (.ok (some x), after)) :
    reader.Reads (xs ++ [x]) after := by
  induction h with
  | nil => exact .cons hnext .nil
  | cons hfirst _ ih => exact .cons hfirst (ih hnext)

variable {σ : Type} [Sink σ]

/-- What is known of the session `s` behind some passages, as long as there may be replies:
    which replies have been read, and that each of them and each lost line makes one of the
    lines that the sink has got. -/
structure Accounted (F : Sink.Faithful σ) (replies : Reader) (past : List (Passage σ))
    (s : Session σ) : Prop where
  held : s.holdsReplies = s.holdsSink
  reads : s.replies.done = false → replies.Reads s.answered s.replies
  count : s.replies.done = false →
    s.answered.length + past.countP (Passage.loses F) = past.countP (Passage.records F)

variable {F : Sink.Faithful σ} {replies : Reader} {past : List (Passage σ)} {p : Passage σ}

/-- **A passage keeps the account.** -/
theorem Accounted.step (h : Accounted F replies past p.before) (hfate : p.Fate F)
    (hheld : p.after.holdsReplies = p.after.holdsSink) :
    Accounted F replies (past ++ [p]) p.after := by
  cases hfate with
  | idle hmute hrecords hreplies =>
    have hloses : p.loses F = false := by rw [Passage.loses, hrecords, Bool.false_and]
    refine ⟨hheld, ?_, ?_⟩ <;> rw [hmute.answered, hreplies]
    · exact h.reads
    · simpa [List.countP_append, List.countP_singleton, hrecords, hloses] using h.count
  | lost hmute hloses hreplies =>
    have hrecords : p.records F = true := (Bool.and_eq_true_iff.1 hloses).1
    refine ⟨hheld, ?_, ?_⟩ <;> rw [hmute.answered, hreplies]
    · exact h.reads
    · intro hdone
      have hcount := h.count hdone
      simp only [List.countP_append, List.countP_singleton, hrecords, hloses, if_true]
      omega
  | unanswered hmute hdone =>
    refine ⟨hheld, ?_, ?_⟩ <;> simp [hdone]
  | read x hreads houtcome hrecords hfails hnext =>
    have hloses : p.loses F = false := by rw [Passage.loses, hfails, Bool.and_false]
    have hdone := (Reader.not_done_of_next hnext).1
    have hcount := h.count hdone
    refine ⟨hheld, ?_, ?_⟩ <;> rw [hreads] <;> intro _
    · exact (h.reads hdone).snoc hnext
    · simp only [List.countP_append, List.countP_singleton, hrecords, hloses, List.length_append,
        List.length_singleton, if_true]
      simp only [Bool.false_eq_true, if_false]
      omega

namespace Session

variable {s : Session σ} {calls : List Call} {k : Nat}

/-- **Each passage finds the account in order.** -/
theorem accounted_passages (h : Accounted F replies past s) (hp : (s.passages calls)[k]? = some p) :
    Accounted F replies (past ++ (s.passages calls).take k) p.before ∧ p.Fate F := by
  -- the passages before the one that is looked for become its past, one by one
  induction calls generalizing s past k with
  | nil => simp [passages] at hp
  | cons call calls ih =>
    have hfate : (s.passage call).Fate F := fate_perform h.held call
    cases k with
    | zero =>
      obtain rfl := Option.some.inj hp
      simpa using ⟨h, hfate⟩
    | succ k =>
      have hstep := Accounted.step h hfate (held_perform h.held call)
      rw [passages, List.getElem?_cons_succ] at hp
      rw [passages, List.take_succ_cons, List.append_cons]
      exact ih hstep hp

theorem fate_start (sink : σ) (replies : Reader) :
    (opening sink replies).Fate F := by
  have hfate := fate_perform (F := F) (s := { sink, replies }) rfl greeting
  rw [passage] at hfate
  rw [opening]
  rcases start_cases sink replies with ⟨a, opened, hperform, hstart⟩ | ⟨e, left, hperform, hstart⟩
  · rw [hperform] at hfate
    rwa [hstart]
  · rw [hperform] at hfate
    rw [hstart]
    exact hfate.close

theorem held_start (sink : σ) (replies : Reader) :
    (start sink replies).2.holdsReplies = (start sink replies).2.holdsSink := by
  have hheld := held_perform (s := { sink, replies }) rfl greeting
  rcases start_cases sink replies with ⟨a, opened, hperform, hstart⟩ | ⟨e, left, -, hstart⟩
  · rw [hperform] at hheld
    rwa [hstart]
  · rw [hstart]
    rfl

theorem accounted_story {sink : σ} (hp : (story sink replies calls)[k]? = some p) :
    Accounted F replies ((story sink replies calls).take k) p.before ∧ p.Fate F := by
  have hfresh : Accounted F replies [] { sink, replies } := ⟨rfl, fun _ => .nil, fun _ => rfl⟩
  have hstart := fate_start (F := F) sink replies
  cases k with
  | zero =>
    obtain rfl := Option.some.inj hp
    exact ⟨hfresh, hstart⟩
  | succ k =>
    have hopened := Accounted.step hfresh hstart (held_start sink replies)
    rw [story, List.getElem?_cons_succ] at hp
    exact accounted_passages hopened hp

/-- **Replies are paired with the lines that the sink has got, one for one and in order, but
    for the lines that were lost.** When a call ends as only a reply can make it end, it has
    read one. When it has read a reply, the sink has got all of its line, and the replies read
    before, with the lines lost before, are as many as the lines that the sink got before: a
    call reads the reply to its own line if no line was lost, and else an earlier one. -/
theorem replies_pair_with_lines (F : Sink.Faithful σ) {sink : σ} {replies : Reader}
    {calls : List Call} {k : Nat} {p : Passage σ} (hp : (story sink replies calls)[k]? = some p) :
    (p.RestsOnReply → ∃ x, p.Reads x) ∧
    ∀ x, p.Reads x →
      p.outcome = p.call.expected x ∧ p.records F = true ∧
      replies.Reads (p.before.answered ++ [x]) p.after.replies ∧
      p.before.answered.length + ((story sink replies calls).take k).countP (Passage.loses F) =
        ((story sink replies calls).take k).countP (Passage.records F) := by
  obtain ⟨haccounted, hfate⟩ := accounted_story (F := F) hp
  cases hfate with
  | idle hmute | lost hmute | unanswered hmute =>
    exact ⟨fun hrests => absurd hrests hmute.not_restsOnReply,
      fun x hx => absurd hx (Passage.not_reads_of_mute hmute x)⟩
  | read y hy houtcome hrecords hfails hnext =>
    refine ⟨fun _ => ⟨y, hy⟩, fun x hx => ?_⟩
    obtain rfl : y = x := by simpa using hy.symm.trans hx
    have hdone := (Reader.not_done_of_next hnext).1
    exact ⟨houtcome, hrecords, (haccounted.reads hdone).snoc hnext, haccounted.count hdone⟩

variable {s : Session Recorder}

theorem delivers_of_recorder (hholds : s.holdsSink = true) (hroom : s.sink.room = none)
    (hflush : s.sink.failingFlush ≠ some (s.sink.flushes + 1)) (command : Sexp) :
    s.Delivers command (s.sink.sent command.line) := by
  refine ⟨hholds, _, Recorder.write_eq hroom command.line, ?_⟩
  simp only [Sink.flush, Recorder.flush, if_neg hflush, Recorder.sent]

theorem exchange_of_failing_flush (hholds : s.holdsSink = true) (hroom : s.sink.room = none)
    (hflush : s.sink.failingFlush = some (s.sink.flushes + 1)) (command : Sexp) :
    s.exchange command = (.error (.io "flush failed"), { s with
      sink := s.sink.sent command.line, log := s.log ++ [.command command] }) := by
  refine exchange_of_turn (.unsent hholds (Recorder.write_eq hroom command.line) ?_)
  simp only [Sink.flush, Recorder.flush, if_pos hflush, Recorder.sent]

/-- The second flush fails, and the solver replies all the same. -/
theorem story_of_failing_flush :
    let replies : Reader :=
      { rest := Source.ofChunks [.bytes (Utf8.encode "success\nsat\nunsat\n".toList)] }
    ∃ first second third : Passage Recorder,
      story { failingFlush := some 2 } replies [.ask .checkSat, .ask .checkSat] =
        [first, second, third] ∧
      first.records Recorder.faithful = true ∧
      second.outcome = .failure (.io "flush failed") ∧ second.loses Recorder.faithful = true ∧
      third.outcome = .answer (.verdict .sat) ∧ third.Reads (.symbol "sat") ∧
      third.before.answered = [.symbol "success"] := by
  intro replies
  let success : Reply := .word "success" (by decide)
  let sat : Reply := .word "sat" (by decide)
  have hchunks : [Utf8.encode "success\nsat\nunsat\n".toList].flatten =
      Utf8.encode (success.text ++ (sat.text ++ "unsat\n".toList)) := by
    dsimp only [success, sat]
    decide +kernel
  have hrest : replies.rest =
      sized Char.utf8Size (success.text ++ (sat.text ++ "unsat\n".toList)) :=
    Source.ofChunks_eq_sized hchunks
  obtain ⟨middle, last, hfirst, hclosed, hsecond, hstill⟩ := Reply.next_two rfl hrest
  let setOption := (Request.setOption "print-success" (.symbol "true")).command
  let checkSat := Request.checkSat.command
  let s : Session Recorder := { sink := { failingFlush := some 2 }, replies }
  let s₁ : Session Recorder := { s with
    sink := s.sink.sent setOption.line, replies := middle
    log := [.command setOption, .reply (.symbol "success")] }
  let s₂ : Session Recorder := { s₁ with
    sink := s₁.sink.sent checkSat.line, log := s₁.log ++ [.command checkSat] }
  let s₃ : Session Recorder := { s₂ with
    sink := s₂.sink.sent checkSat.line, replies := last
    log := s₂.log ++ [.command checkSat, .reply (.symbol "sat")] }
  have hopens : greeting.request? = some (.setOption "print-success" (.symbol "true")) := rfl
  have hasks : (Call.ask .checkSat).request? = some .checkSat := rfl
  have hfirstFlush : (some 2 : Option Nat) ≠ some 1 := by decide
  have hdelivers : s.Delivers setOption s₁.sink :=
    delivers_of_recorder rfl rfl hfirstFlush setOption
  have hstart : start s.sink replies = (.answer .done, s₁) := by
    have hgreets : s.perform greeting = (.answer .done, s₁) :=
      perform_of_delivers hdelivers rfl hfirst hclosed hopens
    exact start_of_perform hgreets
  have hfails : s₁.perform (.ask .checkSat) = (.failure (.io "flush failed"), s₂) := by
    have hexchange := exchange_of_failing_flush (s := s₁) rfl rfl rfl checkSat
    rw [perform_eq s₁ hasks, hexchange]
    rfl
  have hthird : (some 2 : Option Nat) ≠ some 3 := by decide
  have hsent : s₂.Delivers checkSat s₃.sink := delivers_of_recorder rfl rfl hthird checkSat
  have hreads : s₂.perform (.ask .checkSat) = (.answer (.verdict .sat), s₃) :=
    perform_of_delivers hsent rfl hsecond hstill hasks
  refine ⟨⟨s, greeting, .answer .done, s₁⟩, ⟨s₁, .ask .checkSat, .failure (.io "flush failed"), s₂⟩,
    ⟨s₂, .ask .checkSat, .answer (.verdict .sat), s₃⟩, ?_, ?_, rfl, ?_, rfl, rfl, rfl⟩
  · rw [story, opening, hstart, passages, passages, passages, passage, passage, hfails, hreads]
  · exact Passage.records_of_delivers hopens hdelivers
  · exact Passage.loses_of_unsent hasks rfl (Recorder.write_eq rfl _) rfl

/-- The first reply to `(check-sat)` is read by the call after the one that it answers. -/
theorem reply_of_lost_line_is_read :
    let replies : Reader :=
      { rest := Source.ofChunks [.bytes (Utf8.encode "success\nsat\nunsat\n".toList)] }
    let passages := story { failingFlush := some 2 } replies [.ask .checkSat, .ask .checkSat]
    ∃ failed p, passages[1]? = some failed ∧ failed.outcome = .failure (.io "flush failed") ∧
      passages[2]? = some p ∧ p.outcome = .answer (.verdict .sat) ∧ p.Reads (.symbol "sat") ∧
      p.before.answered.length = 1 ∧
      (passages.take 2).countP (Passage.records Recorder.faithful) = 2 := by
  obtain ⟨first, second, third, hstory, hrecords, houtcome, hloses, hverdict, hreads, hbefore⟩ :=
    story_of_failing_flush
  have hsecond : second.records Recorder.faithful = true := (Bool.and_eq_true_iff.1 hloses).1
  intro replies passages
  have hpassages : passages = [first, second, third] := hstory
  rw [hpassages]
  refine ⟨second, third, rfl, houtcome, rfl, hverdict, hreads, ?_, ?_⟩
  · rw [hbefore]
    rfl
  · simp [hrecords, hsecond]

/-- Behind a lost line, a reply is read that is one too early. -/
theorem replies_pair_with_lines_sat :
    let replies : Reader :=
      { rest := Source.ofChunks [.bytes (Utf8.encode "success\nsat\nunsat\n".toList)] }
    let passages := story { failingFlush := some 2 } replies [.ask .checkSat, .ask .checkSat]
    ∃ p, passages[2]? = some p ∧ p.Reads (.symbol "sat") ∧
      replies.Reads [.symbol "success", .symbol "sat"] p.after.replies ∧
      1 + (passages.take 2).countP (Passage.loses Recorder.faithful) =
        (passages.take 2).countP (Passage.records Recorder.faithful) := by
  obtain ⟨first, second, third, hstory, -, -, -, -, hreads, hbefore⟩ := story_of_failing_flush
  intro replies passages
  have hthird : passages[2]? = some third := congrArg (fun l => l[2]?) hstory
  obtain ⟨-, -, hpaired, hcount⟩ := (replies_pair_with_lines Recorder.faithful hthird).2 _ hreads
  rw [hbefore] at hpaired hcount
  exact ⟨third, hthird, hreads, hpaired, hcount⟩

end Session

end SmtDialogue
