/-
  A session is a dialogue: each call takes the next reply.

  * `Session.Ready`: a session waits for its next reply;
  * `perform_of_ready`: what a call writes, records, reads and brings;
  * `session_refines_dialogue`: a session over streams of bytes behaves as if the replies
    came as values, one for each call.
-/
import SmtDialogue.Proofs.Reply
import SmtDialogue.Proofs.Turn

namespace SmtDialogue

open Source

namespace Session

variable {σ : Type} {s after : Session σ} {reply : Reply} {pending : List Reply} {command : Sexp}
  {replies : Reader} {x : Sexp}

/-- What is recorded at the level of debugging. -/
def debugLog (s : Session σ) : List Event :=
  s.log.filter fun event => event.level = .debug

theorem debugLog_record_warnings (request : Request) (result : Except SessionError Sexp) :
    (s.record (request.warnings result)).debugLog = s.debugLog := by
  obtain ⟨skipped, hskipped⟩ := request.exists_warnings result
  simp [debugLog, record, hskipped, List.filter_map, Event.level, Function.comp_def]

@[simp] theorem debugLog_behind (call : Call) : (behind call s).debugLog = s.debugLog := by
  cases call <;> rfl

/-! ## One reply for each request -/

variable [Sink σ] {R : Sink.Reliable σ}

/-- The session waits for the pending replies. Blanks may be left of the last one. -/
structure Ready (R : Sink.Reliable σ) (s : Session σ) (pending : List Reply) : Prop
    extends Speaks R s where
  done : s.replies.done = false
  rest : ∃ blanks, (∀ c ∈ blanks, isBlank c) ∧
    s.replies.rest = sized Char.utf8Size (blanks ++ Reply.texts pending)

/-- What has changed once a command has been sent and the reply to it has been read: the
    command has been written on a line of its own, command and reply have been recorded, and
    the reader stands behind the reply. -/
structure Exchanged (R : Sink.Reliable σ) (s : Session σ) (command : Sexp) (reply : Reply)
    (pending : List Reply) (after : Session σ) : Prop where
  contents : R.contents after.sink =
    R.contents s.sink ++ Utf8.encode (command.render ++ "\n").toList
  debugLog : after.debugLog = s.debugLog ++ [.command command, .reply reply.value]
  rest : after.replies.rest = sized Char.utf8Size (reply.blanks ++ Reply.texts pending)
  peeked : after.replies.peeked = reply.value.peeks

theorem Exchanged.close (h : Exchanged R s command reply pending after) :
    Exchanged R s command reply pending after.close :=
  ⟨h.contents, h.debugLog, h.rest, h.peeked⟩

/-- **What a call brings is told from its request and the next reply alone**, and there are
    no traces of it but its command and the reply. -/
theorem perform_of_ready (h : Ready R s (reply :: pending)) {call : Call} {request : Request}
    (hrequest : call.request? = some request) :
    ∃ after, s.perform call = (call.expected reply.value, after) ∧
      Exchanged R s request.command reply pending after ∧
      (¬ call.Leaves → Ready R after pending) := by
  obtain ⟨blanks, hblanks, hrest⟩ := h.rest
  have hnext := Reply.next_of_reply h.done hblanks
    (by rw [hrest, Reply.texts_cons, List.append_assoc])
  obtain ⟨sink, hsound, hcontents, hperform⟩ := perform_of_next h.toSpeaks call hnext rfl hrequest
  refine ⟨_, hperform, ⟨?_, ?_, ?_, ?_⟩, ?_⟩
  · rw [sink_behind]
    exact hcontents
  · -- of what a call records, only the command and the reply are there for debugging
    rw [debugLog_behind]
    refine (debugLog_record_warnings (s := { s with log := _ }) request _).trans ?_
    simp [debugLog, Event.level]
  · rw [replies_behind]
    rfl
  · rw [replies_behind]
    rfl
  · intro hstay
    rw [behind_of_not_leaves hstay]
    exact ⟨⟨hsound, h.holdsSink, h.holdsReplies⟩, h.done, reply.blanks, reply.isBlank_of_mem, rfl⟩

/-- **Each call takes the next reply**, as long as no call before it leaves. -/
theorem run_of_ready (h : Ready R s pending) {calls : List Call} {k : Nat} {call : Call}
    {request : Request} (hcall : calls[k]? = some call) (hrequest : call.request? = some request)
    (hreply : pending[k]? = some reply) (hstay : ∀ earlier ∈ calls.take k, ¬ earlier.Leaves) :
    ∃ before after, (s :: (s.run calls).map Prod.snd)[k]? = some before ∧
      (s.run calls)[k]? = some (call.expected reply.value, after) ∧
      Exchanged R before request.command reply (pending.drop (k + 1)) after := by
  induction k generalizing s calls pending with
  | zero =>
    obtain ⟨later, rfl⟩ : ∃ later, calls = call :: later := by
      cases calls <;> simp_all
    obtain ⟨others, rfl⟩ : ∃ others, pending = reply :: others := by
      cases pending <;> simp_all
    obtain ⟨after, hperform, hexchanged, -⟩ := perform_of_ready h hrequest
    exact ⟨s, after, rfl, by simp [run, hperform], by simpa using hexchanged⟩
  | succ k ih =>
    obtain ⟨first, later, rfl⟩ : ∃ first later, calls = first :: later := by
      cases calls <;> simp_all
    obtain ⟨next, others, rfl⟩ : ∃ next others, pending = next :: others := by
      cases pending <;> simp_all
    have hfirst : ¬ first.Leaves := hstay first (by simp)
    obtain ⟨other, hother⟩ := Call.exists_request_of_not_leaves hfirst
    obtain ⟨middle, hperform, -, hready⟩ := perform_of_ready h hother
    obtain ⟨before, after, hbefore, hafter, hexchanged⟩ := ih (hready hfirst)
      (by simpa using hcall) (by simpa using hreply)
      fun earlier hmem => hstay earlier (by simp [hmem])
    have hrun : s.run (first :: later) =
        (first.expected next.value, middle) :: middle.run later := by
      rw [run, hperform]
    refine ⟨before, after, ?_, ?_, by simpa using hexchanged⟩
    · rw [hrun]
      simpa using hbefore
    · rw [hrun]
      simpa using hafter

/-! ## Whole sessions -/

theorem ready_of_chunks {sink : σ} (hsink : R.Sound sink) {replies : List Reply}
    {chunks : List (List UInt8)} (hchunks : chunks.flatten = Utf8.encode (Reply.texts replies)) :
    Ready R { sink, replies := { rest := Source.ofChunks (chunks.map .bytes) } } replies :=
  ⟨⟨hsink, rfl, rfl⟩, rfl, [], by simp, Source.ofChunks_eq_sized hchunks⟩

theorem greeting_expected_iff {x : Sexp} :
    (∃ a, greeting.expected x = .answer a) ↔ x = .symbol "success" := by
  have hack : (Request.setOption "print-success" (.symbol "true")).Acknowledged := trivial
  simp only [greeting, Call.expected, Outcome.ofResult_eq_answer_iff,
    Request.expected_eq_ok_iff hack, exists_and_left, exists_eq, and_true]

/-- **Opening a session** is a request as any other. -/
theorem start_of_ready {sink : σ} {replies : Reader}
    (h : Ready R { sink, replies } (reply :: pending)) :
    ∃ outcome opened, Session.start sink replies = (outcome, opened) ∧
      Exchanged R { sink, replies } (.list [.symbol "set-option", .keyword "print-success",
        .symbol "true"]) reply pending opened ∧
      ((∃ a, outcome = .answer a) ↔ reply.value = .symbol "success") ∧
      (reply.value = .symbol "success" → Ready R opened pending) := by
  have hgreets : greeting.request? = some (.setOption "print-success" (.symbol "true")) := rfl
  obtain ⟨after, hperform, hexchanged, hready⟩ := perform_of_ready h hgreets
  rcases start_cases sink replies with ⟨a, opened, hanswer, hstart⟩ | ⟨e, left, hfailure, hstart⟩
  · obtain ⟨houtcome, rfl⟩ := Prod.mk.inj (hperform.symm.trans hanswer)
    have hsuccess := greeting_expected_iff.1 ⟨a, houtcome⟩
    exact ⟨.answer a, after, hstart, hexchanged, by simp [hsuccess], fun _ => hready id⟩
  · obtain ⟨houtcome, rfl⟩ := Prod.mk.inj (hperform.symm.trans hfailure)
    have hnot : reply.value ≠ .symbol "success" := by
      rw [ne_eq, ← greeting_expected_iff, houtcome]
      simp
    exact ⟨.failure e, after.close, hstart, hexchanged.close, by simp [hnot],
      fun hsuccess => absurd hsuccess hnot⟩

/-- **A session over streams of bytes is a dialogue in which the replies come as values**,
    one for each call. It is opened exactly if the first one acknowledges that. From then on
    each call up to the first one that leaves writes its command on a line of its own, records
    the command and the reply, and brings what is expected from the reply. No more has been
    read by then than what tells the end of the reply, one character at most. -/
theorem session_refines_dialogue (R : Sink.Reliable σ) {sink : σ} (hsink : R.Sound sink)
    (greeting : Reply) (replies : List Reply) {chunks : List (List UInt8)}
    (hchunks : chunks.flatten = Utf8.encode (Reply.texts (greeting :: replies))) :
    let source := Source.ofChunks (chunks.map .bytes)
    ∃ outcome opened, Session.start sink { rest := source } = (outcome, opened) ∧
      R.contents opened.sink =
        R.contents sink ++ Utf8.encode "(set-option :print-success true)\n".toList ∧
      ((∃ a, outcome = .answer a) ↔ greeting.value = .symbol "success") ∧
      (greeting.value = .symbol "success" →
        ∀ (calls : List Call) (k : Nat) (call : Call) (request : Request) (reply : Reply),
          calls[k]? = some call → call.request? = some request → replies[k]? = some reply →
          (∀ earlier ∈ calls.take k, ¬ earlier.Leaves) →
          ∃ before after, (opened :: (opened.run calls).map Prod.snd)[k]? = some before ∧
            (opened.run calls)[k]? = some (call.expected reply.value, after) ∧
            R.contents after.sink =
              R.contents before.sink ++ Utf8.encode (request.command.render ++ "\n").toList ∧
            after.debugLog = before.debugLog ++ [.command request.command, .reply reply.value] ∧
            Reader.pulled source after.replies = (Utf8.encode (Reply.texts (greeting ::
              replies.take k) ++ reply.value.render.toList ++ reply.seen)).length) := by
  have hready := ready_of_chunks hsink hchunks
  obtain ⟨outcome, opened, hstart, hexchanged, hiff, hopened⟩ := start_of_ready hready
  have hcommand : Sexp.render (.list [.symbol "set-option", .keyword "print-success",
      .symbol "true"]) ++ "\n" = "(set-option :print-success true)\n" := by decide +kernel
  refine ⟨outcome, opened, hstart, hcommand ▸ hexchanged.contents, hiff, ?_⟩
  intro hsuccess calls k call request reply hcall hrequest hreply hstay
  obtain ⟨before, after, hbefore, hafter, hk⟩ :=
    run_of_ready (hopened hsuccess) hcall hrequest hreply hstay
  refine ⟨before, after, hbefore, hafter, hk.contents, hk.debugLog, ?_⟩
  have hsplit : Reply.texts (greeting :: replies) = Reply.texts (greeting :: replies.take k) ++
      reply.text ++ Reply.texts (replies.drop (k + 1)) := by
    obtain ⟨hlt, rfl⟩ := List.getElem?_eq_some_iff.1 hreply
    have hreplies : replies.take k ++ replies[k] :: replies.drop (k + 1) = replies := by
      rw [← List.drop_eq_getElem_cons hlt, List.take_append_drop]
    rw [Reply.texts_cons, Reply.texts_cons, ← congrArg Reply.texts hreplies, Reply.texts_append,
      Reply.texts_cons]
    simp only [List.append_assoc]
  rw [Source.ofChunks_eq_sized hchunks, hsplit]
  exact Reply.pulled_of_reply hk.rest hk.peeked

/-- The solver acknowledges, and is asked once, the replies arriving in two parts. -/
theorem session_refines_dialogue_sat :
    let source := Source.ofChunks
      [.bytes (Utf8.encode "succ".toList), .bytes (Utf8.encode "ess\nsat\n".toList)]
    ∃ outcome opened, Session.start ({} : Recorder) { rest := source } = (outcome, opened) ∧
      ∃ before after, (opened :: (opened.run [.ask .checkSat]).map Prod.snd)[0]? = some before ∧
        (opened.run [.ask .checkSat])[0]? = some (.answer (.verdict .sat), after) ∧
        after.sink.bytes = before.sink.bytes ++ Utf8.encode "(check-sat)\n".toList ∧
        Reader.pulled source after.replies = 12 := by
  let greeting : Reply := ⟨.symbol "success", ['\n'],
    ⟨by decide, List.all_eq_true.1 (by decide), by simp, by decide⟩, by decide,
    List.all_eq_true.1 (by decide)⟩
  let reply : Reply := ⟨.symbol "sat", ['\n'],
    ⟨by decide, List.all_eq_true.1 (by decide), by simp, by decide⟩, by decide,
    List.all_eq_true.1 (by decide)⟩
  have hchunks : [Utf8.encode "succ".toList, Utf8.encode "ess\nsat\n".toList].flatten =
      Utf8.encode (Reply.texts [greeting, reply]) := by decide +kernel
  have hsound : Recorder.reliable.Sound {} := ⟨rfl, rfl⟩
  obtain ⟨outcome, opened, hstart, -, -, hturns⟩ :=
    session_refines_dialogue Recorder.reliable hsound greeting [reply] hchunks
  obtain ⟨before, after, hbefore, hafter, hcontents, -, hpulled⟩ :=
    hturns rfl [.ask .checkSat] 0 (.ask .checkSat) .checkSat reply rfl rfl rfl (by simp)
  have hbytes : (Utf8.encode (Reply.texts (greeting :: [reply].take 0) ++
      reply.value.render.toList ++ reply.seen)).length = 12 := by
    dsimp only [greeting, reply]
    decide +kernel
  exact ⟨outcome, opened, hstart, before, after, hbefore, hafter, hcontents, hpulled.trans hbytes⟩

end Session

end SmtDialogue
