/-
  The life of a session: it is opened, calls are made in it, and it is left.

  * `held_last`: a session holds both of its streams or none, and `Session.Equipped`: a
    command finds the streams that it uses;
  * `isClosed_perform`, `isClosed_last`: only a call that leaves closes a session;
  * `exit_eq_done_iff`, `exit_cases`: how it ends that a solver is asked to leave;
  * `open_until_left`: what a session is from its opening on, whatever the streams do.
-/
import SmtDialogue.Proofs.Framing
import SmtDialogue.Proofs.Pairing

namespace SmtDialogue

theorem Request.expected_error_cases {request : Request} {x : Sexp} {e : SessionError}
    (h : request.expected x = .error e) :
    (∃ message, e = .server message) ∨ e = .protocol request.command x := by
  rw [← answer_eq_expected] at h
  unfold answer at h
  split at h
  · exact Or.inl ⟨_, (Except.error.inj h).symm⟩
  · simp at h
  · exact Or.inr (Except.error.inj h).symm

theorem SessionError.IsSilent.cases {e : SessionError} (h : e.IsSilent) :
    e = .closed ∨ (∃ cause, e = .malformed cause) ∨ ∃ message, e = .io message := by
  cases e with
  | closed => exact Or.inl rfl
  | malformed cause => exact Or.inr (Or.inl ⟨cause, rfl⟩)
  | io message => exact Or.inr (Or.inr ⟨message, rfl⟩)
  | spawn | protocol | server => exact h.elim

namespace Session

variable {σ : Type} [Sink σ] {s after : Session σ} {command : Sexp} {call : Call}
  {result : Except SessionError Sexp}

/-! ## Both streams or none -/

theorem held_last (hheld : s.holdsReplies = s.holdsSink) (calls : List Call) :
    (s.last calls).holdsReplies = (s.last calls).holdsSink := by
  induction calls generalizing s with
  | nil => exact hheld
  | cons call calls ih =>
    rw [last_cons]
    exact ih (held_perform hheld call)

theorem holds_send (s : Session σ) (command : Sexp) :
    (s.send command).2.holdsSink = s.holdsSink ∧
      (s.send command).2.holdsReplies = s.holdsReplies := by
  cases hopen : s.holdsSink with
  | false =>
    rw [send_of_shut hopen]
    exact ⟨hopen, rfl⟩
  | true =>
    rcases hwrite : Sink.write command.line s.sink with ⟨e | _, written⟩
    · rw [send_of_cut hopen hwrite]
      exact ⟨hopen, rfl⟩
    · rw [send_of_written hopen hwrite rfl]
      exact ⟨hopen, rfl⟩

/-- A command finds the streams that it uses, unless the session is closed: the sink is held
    when the command is sent, and the replies are held once it has been sent. -/
def Equipped (s : Session σ) (command : Sexp) : Prop :=
  s.isClosed = false →
    (s.record [.command command]).holdsSink = true ∧
    ∀ sent, (s.record [.command command]).send command = (.ok (), sent) →
      sent.holdsReplies = true

theorem equipped_of_held (hheld : s.holdsReplies = s.holdsSink) (command : Sexp) :
    s.Equipped command := by
  intro hopen
  have hsink : s.holdsSink = true := by simpa [isClosed] using hopen
  refine ⟨hsink, ?_⟩
  intro sent hsend
  have hholds := (holds_send (s.record [.command command]) command).2
  rw [hsend] at hholds
  exact hholds.trans (hheld.trans hsink)

/-! ## What closes a session -/

theorem holdsSink_of_turn (h : Turn s command result after) : after.holdsSink = s.holdsSink := by
  cases h <;> rfl

theorem isSilent_of_turn {e : SessionError} (h : Turn s command (.error e) after) : e.IsSilent := by
  cases h with
  | closed | cut | unsent => trivial
  | unanswered _ _ hnone => exact SessionError.isSilent_of_ofNext? hnone

/-- **Only a call that leaves closes a session**, however it ends. -/
theorem isClosed_perform (hheld : s.holdsReplies = s.holdsSink) (call : Call) :
    (s.perform call).2.isClosed = true ↔ s.isClosed = true ∨ call.Leaves := by
  by_cases hleaves : call.Leaves
  · have hclosed : (s.perform call).2.isClosed = true := by
      rcases hrequest : call.request? with _ | request
      · obtain rfl := Call.eq_close_of_request? hrequest
        rfl
      · rw [perform_eq s hrequest, behind_of_leaves hleaves]
        rfl
    exact ⟨fun _ => Or.inr hleaves, fun _ => hclosed⟩
  · obtain ⟨request, hrequest⟩ := Call.exists_request_of_not_leaves hleaves
    have hsink := holdsSink_of_turn (turn_exchange hheld request.command)
    rw [perform_eq s hrequest, behind_of_not_leaves hleaves]
    simp [isClosed, record, hsink, hleaves]

theorem isClosed_last (hheld : s.holdsReplies = s.holdsSink) (calls : List Call) :
    (s.last calls).isClosed = true ↔ s.isClosed = true ∨ ∃ call ∈ calls, call.Leaves := by
  induction calls generalizing s with
  | nil => simp
  | cons call calls ih =>
    rw [last_cons, ih (held_perform hheld call), isClosed_perform hheld]
    simp [or_assoc]

theorem isClosed_start (sink : σ) (replies : Reader) :
    (start sink replies).2.isClosed = true ↔ ∃ e, (start sink replies).1 = .failure e := by
  have hgreets := isClosed_perform (s := { sink, replies }) rfl greeting
  rcases start_cases sink replies with ⟨a, opened, hperform, hstart⟩ | ⟨e, left, -, hstart⟩
  · rw [hperform] at hgreets
    rw [hstart]
    constructor
    · intro hclosed
      rcases hgreets.1 hclosed with hshut | hleaves
      · simp [isClosed] at hshut
      · exact hleaves.elim
    · rintro ⟨e, he⟩
      simp at he
  · rw [hstart]
    exact ⟨fun _ => ⟨e, rfl⟩, fun _ => rfl⟩

/-! ## Leaving -/

/-- Asking a solver to leave ends well if it agrees, and if there is no one to ask. -/
theorem exit_eq_done_iff (s : Session σ) : (s.perform .exit).1 = .answer .done ↔
    (s.exchange Request.exit.command).1 = .ok (.symbol "success") ∨
      (s.exchange Request.exit.command).1 = .error .closed := by
  have hrequest : Call.exit.request? = some .exit := rfl
  rw [perform_eq s hrequest]
  rcases (s.exchange Request.exit.command).1 with e | x
  · rw [Call.outcome_error]
    cases e <;> simp [Call.failing]
  · have hacknowledged : Request.exit.Acknowledged := trivial
    have hok : Request.exit.expected x = .ok .done ↔ x = .symbol "success" ∧ Answer.done = .done :=
      Request.expected_eq_ok_iff hacknowledged
    rw [Call.outcome_ok, Call.expected, Outcome.ofResult_eq_answer_iff, hok]
    simp

theorem exit_cases (hheld : s.holdsReplies = s.holdsSink)
    (hfails : (s.perform .exit).1 ≠ .answer .done) :
    ∃ e, (s.ask .exit).1 = .error e ∧ (s.perform .exit).1 = .failure e ∧
      ((∃ message, e = .server message) ∨ (∃ x, e = .protocol Request.exit.command x) ∨
        (∃ cause, e = .malformed cause) ∨ ∃ message, e = .io message) := by
  have hrequest : Call.exit.request? = some .exit := rfl
  have hturn := turn_exchange hheld Request.exit.command
  rw [perform_eq s hrequest] at hfails ⊢
  rw [ask_eq]
  rcases hexchange : s.exchange Request.exit.command with ⟨e | x, left⟩
  · rw [hexchange] at hturn hfails
    rw [Call.outcome_error] at hfails ⊢
    rcases (isSilent_of_turn hturn).cases with rfl | ⟨cause, rfl⟩ | ⟨message, rfl⟩
    · exact absurd rfl hfails
    · exact ⟨_, rfl, rfl, Or.inr (Or.inr (Or.inl ⟨cause, rfl⟩))⟩
    · exact ⟨_, rfl, rfl, Or.inr (Or.inr (Or.inr ⟨message, rfl⟩))⟩
  · have hanswer : Except.bind (.ok x) Request.exit.answer = Request.exit.expected x :=
      Request.answer_eq_expected .exit x
    rw [hexchange] at hfails
    rw [Call.outcome_ok, Call.expected] at hfails ⊢
    rw [hanswer]
    rcases hexpected : Request.exit.expected x with e | a
    · refine ⟨e, rfl, rfl, ?_⟩
      rcases Request.expected_error_cases hexpected with hserver | rfl
      · exact Or.inl hserver
      · exact Or.inr (Or.inl ⟨x, rfl⟩)
    · have hacknowledged : Request.exit.Acknowledged := trivial
      obtain ⟨-, rfl⟩ := (Request.expected_eq_ok_iff hacknowledged).1 hexpected
      rw [hexpected] at hfails
      exact absurd rfl hfails

/-! ## A whole life -/

/-- **A session is open until it is left.** Whatever the streams do, after any calls:

    it holds both of its streams or none, and a command finds the streams that it uses;

    it is closed if it could not be opened, or one of the calls was to exit or to close, and
    for no other reason: no failure of another call closes it, and no call opens it again;

    to exit ends well if the solver agrees or there is no one to ask, else with the error of the
    request;

    and once it is closed it stays as it is, its streams and its log included: requests fail,
    to push gives up for the same reason, and to exit or to close is nothing. -/
theorem open_until_left (sink : σ) (replies : Reader) (calls : List Call) :
    let s := (start sink replies).2.last calls
    s.holdsReplies = s.holdsSink ∧ (∀ command, s.Equipped command) ∧
    (s.isClosed = true ↔
      (∃ e, (start sink replies).1 = .failure e) ∨ ∃ call ∈ calls, call = .exit ∨ call = .close) ∧
    (∀ call, (s.perform call).2.isClosed = true ↔
      s.isClosed = true ∨ call = .exit ∨ call = .close) ∧
    ((s.perform .exit).1 = .answer .done ↔
      (s.exchange Request.exit.command).1 = .ok (.symbol "success") ∨
        (s.exchange Request.exit.command).1 = .error .closed) ∧
    ((s.perform .exit).1 ≠ .answer .done →
      ∃ e, (s.ask .exit).1 = .error e ∧ (s.perform .exit).1 = .failure e ∧
        ((∃ message, e = .server message) ∨ (∃ x, e = .protocol Request.exit.command x) ∨
          (∃ cause, e = .malformed cause) ∨ ∃ message, e = .io message)) ∧
    (s.isClosed = true →
      (∀ request, s.perform (.ask request) = (.failure .closed, s)) ∧
      s.perform .push =
        (.abort ("unable to push an assertion scope: " ++ SessionError.closed.message), s) ∧
      s.perform .exit = (.answer .done, s) ∧ s.perform .close = (.answer .done, s)) := by
  intro s
  have hleaves (call : Call) : call.Leaves ↔ call = .exit ∨ call = .close := by
    cases call <;> simp [Call.Leaves]
  have hheld : s.holdsReplies = s.holdsSink := held_last (held_start sink replies) calls
  refine ⟨hheld, equipped_of_held hheld, ?_, ?_, exit_eq_done_iff s, exit_cases hheld, ?_⟩
  · simp only [← hleaves, ← isClosed_start]
    exact isClosed_last (held_start sink replies) calls
  · intro call
    rw [← hleaves]
    exact isClosed_perform hheld call
  · intro hclosed
    have hsink : s.holdsSink = false := by simpa [isClosed] using hclosed
    have hshut : s.Shut := ⟨hsink, hheld.trans hsink⟩
    exact ⟨fun request => perform_of_shut hshut (.ask request), perform_of_shut hshut .push,
      perform_of_shut hshut .exit, perform_of_shut hshut .close⟩

end Session

end SmtDialogue
