/-
  Sessions whose replies have come to an end.

  Behind a reply that cannot be read, no reply is looked for any more: what stands there can
  not be taken for the answer to another command.

  * `Passage.Breaks`: the call fails because there is no reply that can be read;
  * `Session.Spent`: nothing is read of the replies any more;
  * `spent_of_breaks`: a call that breaks leaves a spent session;
  * `perform_of_spent`: in a spent session every call fails, and the session stays spent;
  * `broken_session_never_answers`: so it is for all calls behind one that breaks.
-/
import SmtDialogue.Proofs.Ending
import SmtDialogue.Proofs.Story

namespace SmtDialogue

variable {σ : Type} {s after : Session σ} {call : Call} {request : Request} {e : SessionError}

theorem Request.not_isSilent_of_answer {reply : Sexp} (h : request.answer reply = .error e) :
    ¬ e.IsSilent := by
  unfold Request.answer at h
  split at h
  · obtain rfl := Except.error.inj h
    exact id
  · simp at h
  · obtain rfl := Except.error.inj h
    exact id

namespace Passage

variable [Sink σ]

/-- The request of the call fails. -/
def FailsWith (p : Passage σ) (e : SessionError) : Prop :=
  ∃ request, p.call.request? = some request ∧ (p.before.ask request).1 = .error e

/-- The call fails because there is no reply that can be read: it is malformed, there is none,
    or reading failed although the command was sent. -/
def Breaks (p : Passage σ) : Prop :=
  (∃ cause, p.FailsWith (.malformed cause)) ∨ p.FailsWith .closed ∨
    (∃ message, p.FailsWith (.io message)) ∧ p.fails = false

end Passage

namespace Session

/-- Nothing is read of the replies any more. -/
def Spent (s : Session σ) : Prop :=
  s.replies.done = true ∨ s.holdsSink = false

theorem Spent.behind (h : s.Spent) (call : Call) : (behind call s).Spent := by
  cases call with
  | ask | push => exact h
  | exit | close => exact Or.inr rfl

variable [Sink σ] {command : Sexp} {result : Except SessionError Sexp} {p q : Passage σ}
  {calls : List Call} {j k : Nat}

/-! ## How the replies come to an end -/

/-- **Behind a call that finds no reply, the session is spent.** -/
theorem spent_of_breaks (hheld : p.before.holdsReplies = p.before.holdsSink) (hbreaks : p.Breaks) :
    (p.before.perform p.call).2.Spent := by
  obtain ⟨e, ⟨request, hrequest, hfails⟩, hsilent, hio⟩ : ∃ e, p.FailsWith e ∧ e.IsSilent ∧
      ∀ message, e = .io message → p.fails = false := by
    rcases hbreaks with ⟨cause, hfails⟩ | hfails | ⟨⟨message, hfails⟩, hsent⟩
    · exact ⟨_, hfails, trivial, by simp⟩
    · exact ⟨_, hfails, trivial, by simp⟩
    · exact ⟨_, hfails, trivial, fun _ _ => hsent⟩
  have hturn := turn_exchange hheld request.command
  rw [ask_eq] at hfails
  rw [perform_eq _ hrequest]
  refine Spent.behind ?_ p.call
  rcases sent_or_not hturn with ⟨hshut, -, hafter⟩ | ⟨-, -, -, ⟨message, hunsent, hresult, -⟩ |
    ⟨-, hreplies, ⟨cause, hnone, -⟩ | ⟨x, -, hresult⟩⟩⟩
  · refine Or.inr ?_
    rw [hafter]
    exact hshut
  · -- a command that was not sent leaves the replies alone, and is no breach
    rw [hresult] at hfails
    obtain rfl := Except.error.inj hfails
    have hsent := hio message rfl
    rw [Passage.fails_eq hrequest, hunsent] at hsent
    simp [Except.isOk, Except.toBool] at hsent
  · refine Or.inl ?_
    rw [record, hreplies]
    exact Reader.done_of_ofNext? hnone
  · rw [hresult] at hfails
    exact absurd hsilent (Request.not_isSilent_of_answer hfails)

/-! ## Spent sessions -/

/-- **In a spent session a command is not sent or stays without a reply**, and nothing is read. -/
theorem turn_of_spent (hspent : s.Spent) (h : Turn s command result after) :
    after.replies = s.replies ∧ after.Spent ∧ ∃ e, result = .error e ∧
      (e = .closed ∨ ∃ message, e = .io message ∧ (s.send command).1 = .error message) := by
  rcases sent_or_not h with ⟨-, hresult, rfl⟩ | ⟨hopen, -, -, hsent⟩
  · exact ⟨rfl, hspent, .closed, hresult, Or.inl rfl⟩
  have hdone : s.replies.done = true := by
    rcases hspent with hdone | hshut
    · exact hdone
    · simp [hopen] at hshut
  have hafter (hreplies : after.replies = s.replies) : after.Spent := Or.inl (hreplies ▸ hdone)
  have hnext := Reader.next_of_done hdone
  rcases hsent with ⟨message, hunsent, hresult, hreplies⟩ |
    ⟨-, hreplies, ⟨e, hnone, hresult⟩ | ⟨x, hsome, -⟩⟩
  · exact ⟨hreplies, hafter hreplies, _, hresult, Or.inr ⟨message, rfl, hunsent⟩⟩
  · rw [hnext] at hreplies hnone
    obtain rfl := Option.some.inj hnone
    exact ⟨hreplies, hafter hreplies, _, hresult, Or.inl rfl⟩
  · simp [hnext] at hsome

/-- What a spent session makes of a call. -/
structure Unanswered (p : Passage σ) : Prop where
  replies : p.after.replies = p.before.replies
  outcome : ∀ request, p.call.request? = some request → ∃ e, p.FailsWith e ∧
    p.outcome = p.call.failing e ∧
    (e = .closed ∨ ∃ message, e = .io message ∧ (p.before.send request.command).1 = .error message)

/-- **In a spent session every call fails, and the session stays spent.** -/
theorem perform_of_spent (hheld : s.holdsReplies = s.holdsSink) (hspent : s.Spent) (call : Call) :
    Unanswered (s.passage call) ∧ (s.perform call).2.Spent := by
  rcases hrequest : call.request? with _ | request
  · obtain rfl := Call.eq_close_of_request? hrequest
    exact ⟨⟨rfl, by simp [passage, Call.request?]⟩, Or.inr rfl⟩
  · obtain ⟨hreplies, hafter, e, hresult, he⟩ :=
      turn_of_spent hspent (turn_exchange hheld request.command)
    have hperform := perform_eq s hrequest
    refine ⟨⟨?_, ?_⟩, ?_⟩
    · rw [passage, replies_perform s hrequest, hreplies]
    · intro asked hasked
      obtain rfl := Option.some.inj (hrequest.symm.trans hasked)
      refine ⟨e, ⟨request, hrequest, ?_⟩, ?_, he⟩
      · rw [passage, ask_eq, hresult]
        rfl
      · rw [passage, hperform, hresult, Call.outcome_error]
    · rw [hperform]
      refine Spent.behind ?_ call
      exact hafter

/-! ## Behind the last reply -/

/-- Behind a call that breaks, the session is spent, and the replies are where the call has left
    them. -/
def SpentBehind (past : List (Passage σ)) (s : Session σ) : Prop :=
  ∀ p ∈ past, p.Breaks → s.Spent ∧ s.replies = p.after.replies

theorem keeps_spentBehind : Keeps (σ := σ) SpentBehind := by
  intro past s call hheld h p hp hbreaks
  rcases List.mem_append.1 hp with hpast | hnew
  · obtain ⟨hspent, hreplies⟩ := h p hpast hbreaks
    obtain ⟨hunanswered, hafter⟩ := perform_of_spent hheld hspent call
    exact ⟨hafter, hunanswered.replies.trans hreplies⟩
  · obtain rfl := List.mem_singleton.1 hnew
    exact ⟨spent_of_breaks hheld hbreaks, rfl⟩

theorem SpentBehind.close {past : List (Passage σ)} (h : SpentBehind (past ++ [p]) p.after) :
    SpentBehind (past ++ [{ p with after := p.after.close }]) p.after.close := by
  intro q hq hbreaks
  refine ⟨Or.inr rfl, ?_⟩
  rcases List.mem_append.1 hq with hpast | hnew
  · exact (h q (List.mem_append_left _ hpast) hbreaks).2
  · obtain rfl := List.mem_singleton.1 hnew
    rfl

variable {sink : σ} {replies : Reader}

/-- **A session whose replies have broken never answers again.** Behind a call that finds its
    reply malformed, finds none, or fails to read it, nothing more is taken of the replies. Each
    request fails, since there are no replies or since its command cannot be sent, and the call
    ends as such a failure makes it end. -/
theorem broken_session_never_answers (hp : (story sink replies calls)[j]? = some p)
    (hbreaks : p.Breaks) (hjk : j < k) (hq : (story sink replies calls)[k]? = some q) :
    q.after.replies = p.after.replies ∧
    ∀ request, q.call.request? = some request → ∃ e, q.FailsWith e ∧
      q.outcome = q.call.failing e ∧
      (e = .closed ∨
        ∃ message, e = .io message ∧ (q.before.send request.command).1 = .error message) := by
  obtain ⟨hcarried, hbehind, -⟩ :=
    story_invariant (I := SpentBehind) (by simp [SpentBehind]) keeps_spentBehind
      (fun _ _ => SpentBehind.close) hq
  have hmem : p ∈ (story sink replies calls).take k := by
    rw [← List.getElem?_take_of_lt hjk] at hp
    exact List.mem_of_getElem? hp
  obtain ⟨hspent, hreplies⟩ := hbehind p hmem hbreaks
  obtain ⟨⟨hsame, hfailing⟩, -⟩ := perform_of_spent hcarried.held hspent q.call
  rw [← hcarried.eq_passage (Nat.zero_lt_of_lt hjk)] at hsame hfailing
  exact ⟨hsame.trans hreplies, hfailing⟩

/-- Behind a parenthesis that closes nothing, the reply `sat` is never read. -/
theorem broken_session_never_answers_stray :
    let replies : Reader :=
      { rest := Source.ofChunks [.bytes (Utf8.encode "success\n)\nsat\n".toList)] }
    let passages := story ({} : Recorder) replies [.ask .checkSat, .ask .checkSat]
    ∃ p q cause, passages[1]? = some p ∧ p.FailsWith (.malformed cause) ∧ passages[2]? = some q ∧
      q.after.replies = p.after.replies ∧ ∃ e, q.outcome = .failure e := by
  intro replies passages
  let setOption := (Request.setOption "print-success" (.symbol "true")).command
  let middle : Reader := ⟨Source.sized Char.utf8Size "\n)\nsat\n".toList, ⟨0, 7⟩, true, false, []⟩
  let cause : Located SyntaxError := ⟨.unexpectedToken .closing Assembly.programKinds, ⟨1, 0⟩⟩
  have hfirst : replies.next = (.ok (some (.symbol "success")), middle) := by decide +kernel
  have hsecond : middle.next.1 = .error cause := by decide +kernel
  let s : Session Recorder := { sink := {}, replies }
  let s₁ : Session Recorder := { s with
    sink := s.sink.sent setOption.line, replies := middle
    log := [.command setOption, .reply (.symbol "success")] }
  have hopens : greeting.request? = some (.setOption "print-success" (.symbol "true")) := rfl
  have hdelivers : s.Delivers setOption s₁.sink :=
    delivers_of_recorder rfl rfl (Option.some_ne_none _).symm setOption
  have hgreets : s.perform greeting = (.answer .done, s₁) :=
    perform_of_delivers hdelivers rfl hfirst rfl hopens
  have hstart : start s.sink replies = (.answer .done, s₁) := start_of_perform hgreets
  have hfails : (s₁.passage (.ask .checkSat)).FailsWith (.malformed cause) := by
    have hsends : s₁.Delivers Request.checkSat.command _ :=
      delivers_of_recorder rfl rfl (Option.some_ne_none _).symm Request.checkSat.command
    have hnone : SessionError.ofNext? s₁.replies.next.1 = some (.malformed cause) := by
      rw [show s₁.replies.next.1 = _ from hsecond]
      rfl
    refine ⟨.checkSat, rfl, ?_⟩
    rw [passage, ask_eq, exchange_of_turn (.unanswered hsends rfl hnone)]
    rfl
  have hpassages : passages = opening s.sink replies ::
      s₁.passages [.ask .checkSat, .ask .checkSat] := by
    rw [← show (start s.sink replies).2 = s₁ from congrArg Prod.snd hstart]
    rfl
  have hp : passages[1]? = some (s₁.passage (.ask .checkSat)) := by
    rw [hpassages]
    rfl
  have hq : passages[2]? = some ((s₁.perform (.ask .checkSat)).2.passage (.ask .checkSat)) := by
    rw [hpassages]
    rfl
  obtain ⟨hreplies, hfailing⟩ :=
    broken_session_never_answers hp (Or.inl ⟨cause, hfails⟩) (Nat.lt_succ_self 1) hq
  obtain ⟨e, -, houtcome, -⟩ := hfailing .checkSat rfl
  exact ⟨_, _, cause, hp, hfails, hq, hreplies, e, houtcome⟩

end Session

end SmtDialogue
