/-
  What is recorded of a session on a sink that may fail, and what such a failure does.

  * `Recorder.fits`: how much of some bytes a recorder takes, and `fits_lines`: of some lines it
    takes the first ones and a part of the next;
  * `Passage.command?`: the command that a call writes, and `Recorded`: what the commands so far
    have left on the recorder;
  * `Passage.sends`: the line of the call has been written and sent off, and `Counted`: there
    are as many replies as such lines;
  * `sending_failures_are_isolated`: a failure of the sink cuts what is recorded, and leaves the
    replies alone.
-/
import SmtDialogue.Proofs.Framing
import SmtDialogue.Proofs.Story

namespace SmtDialogue

/-! ## Recorders -/

theorem Sexp.encode_lines_append (xs ys : List Sexp) : Utf8.encode (lines (xs ++ ys)).toList =
    Utf8.encode (lines xs).toList ++ Utf8.encode (lines ys).toList := by
  simp [Utf8.encode]

theorem Sexp.encode_lines_singleton (x : Sexp) :
    Utf8.encode (lines [x]).toList = Utf8.encode x.line.toList := by
  simp

namespace Recorder

variable {r after : Recorder} {taken : List UInt8}

/-- As much of the bytes as there is room for. -/
def fits (r : Recorder) (bytes : List UInt8) : List UInt8 :=
  match r.room with
  | none => bytes
  | some room => bytes.take (room - r.bytes.length)

@[simp] theorem fits_nil (r : Recorder) : r.fits [] = [] := by
  unfold fits
  split <;> simp

theorem write_eq_fits (text : String) (r : Recorder) :
    (Sink.write text r).2 = { r with bytes := r.bytes ++ r.fits (Utf8.encode text.toList) } := by
  cases hroom : r.room <;> simp only [Sink.write, write, fits, hroom]

theorem fits_append (hroom : after.room = r.room) (hbytes : after.bytes = r.bytes ++ r.fits taken)
    (more : List UInt8) : r.fits (taken ++ more) = r.fits taken ++ after.fits more := by
  unfold fits at hbytes ⊢
  rw [hroom]
  split
  · rfl
  · rename_i room hlimit
    simp only [hlimit] at hbytes
    rw [List.take_append, hbytes, List.length_append, List.length_take]
    congr 2
    omega

/-- A front part of some lines is made of the first ones, and of a part of the next one. -/
theorem take_lines (n : Nat) (xs : List Sexp) : ∃ whole rest part,
    xs = whole ++ rest ∧
    (Utf8.encode (Sexp.lines xs).toList).take n =
      Utf8.encode (Sexp.lines whole).toList ++ part ∧
    (rest = [] ∧ part = [] ∨
      (∃ x others, rest = x :: others ∧ part <+: Utf8.encode x.line.toList ∧
        part ≠ Utf8.encode x.line.toList) ∧ n ≤ (Utf8.encode (Sexp.lines xs).toList).length) := by
  -- a line that fits is taken, and leaves room for the others; else it is the one that is cut
  induction xs generalizing n with
  | nil => exact ⟨[], [], [], rfl, by simp [Utf8.encode], Or.inl ⟨rfl, rfl⟩⟩
  | cons x xs ih =>
    have hlines (ys : List Sexp) : Utf8.encode (Sexp.lines (x :: ys)).toList =
        Utf8.encode x.line.toList ++ Utf8.encode (Sexp.lines ys).toList := by
      rw [← Sexp.encode_lines_singleton, ← Sexp.encode_lines_append]
      rfl
    rw [hlines, List.take_append]
    by_cases hfits : (Utf8.encode x.line.toList).length ≤ n
    · obtain ⟨whole, rest, part, rfl, htake, hrest⟩ := ih (n - (Utf8.encode x.line.toList).length)
      refine ⟨x :: whole, rest, part, rfl, ?_, ?_⟩
      · rw [htake, List.take_of_length_le hfits, hlines, List.append_assoc]
      · refine hrest.imp_right (And.imp_right fun hlength => ?_)
        rw [List.length_append]
        omega
    · have hless : n < (Utf8.encode x.line.toList).length := Nat.lt_of_not_le hfits
      refine ⟨[], x :: xs, (Utf8.encode x.line.toList).take n, rfl, ?_, Or.inr ⟨?_, ?_⟩⟩
      · rw [Nat.sub_eq_zero_of_le (Nat.le_of_lt hless), List.take_zero, List.append_nil]
        simp [Utf8.encode]
      · refine ⟨x, xs, rfl, List.take_prefix _ _, fun hall => ?_⟩
        have hlength := congrArg List.length hall
        rw [List.length_take] at hlength
        omega
      · rw [List.length_append]
        omega

/-- **Of some lines, a recorder takes the first ones, and a part of the next one.** If that is not
    all of them, it takes nothing more. -/
theorem fits_lines (r : Recorder) (xs : List Sexp) : ∃ whole rest part,
    xs = whole ++ rest ∧
    r.fits (Utf8.encode (Sexp.lines xs).toList) = Utf8.encode (Sexp.lines whole).toList ++ part ∧
    (rest = [] ∧ part = [] ∨
      (∃ x others, rest = x :: others ∧ part <+: Utf8.encode x.line.toList ∧
        part ≠ Utf8.encode x.line.toList) ∧
      ∀ more, r.fits (Utf8.encode (Sexp.lines xs).toList ++ more) =
        r.fits (Utf8.encode (Sexp.lines xs).toList)) := by
  cases hroom : r.room with
  | none =>
    refine ⟨xs, [], [], (List.append_nil xs).symm, ?_, Or.inl ⟨rfl, rfl⟩⟩
    rw [List.append_nil, fits, hroom]
  | some room =>
    obtain ⟨whole, rest, part, hxs, htake, hrest⟩ := take_lines (room - r.bytes.length) xs
    refine ⟨whole, rest, part, hxs, ?_, hrest.imp_right (And.imp_right fun hfull => ?_)⟩
    · simp only [fits, hroom]
      exact htake
    · intro more
      simp only [fits, hroom]
      rw [List.take_append_of_le_length hfull]

end Recorder

/-! ## What the calls write -/

namespace Passage

variable {σ : Type} {p : Passage σ} {request : Request}

/-- The command that the call writes. In a closed session none is written. -/
def command? (p : Passage σ) : Option Sexp :=
  if p.before.holdsSink then p.call.request?.map Request.command else none

/-- The line of the call is written and sent off without a failure. -/
def sends [Sink σ] (p : Passage σ) : Bool :=
  p.call.request?.any fun request => (p.before.send request.command).1.isOk

theorem command?_of_open (hopen : p.before.holdsSink = true)
    (hrequest : p.call.request? = some request) : p.command? = some request.command := by
  rw [command?, if_pos hopen, hrequest, Option.map_some]

theorem command?_of_closed (hclosed : p.before.holdsSink = false) : p.command? = none := by
  rw [command?, if_neg (Bool.eq_false_iff.1 hclosed)]

theorem sends_eq [Sink σ] (hrequest : p.call.request? = some request) :
    p.sends = (p.before.send request.command).1.isOk := by
  rw [sends, hrequest, Option.any_some]

end Passage

namespace Session

section

variable {sink : Recorder} {past : List (Passage Recorder)} {p : Passage Recorder}
  {s after : Session Recorder} {command : Sexp}

theorem send_recorder (hopen : s.holdsSink = true) (command : Sexp) :
    (s.send command).2.sink.room = s.sink.room ∧ (s.send command).2.sink.bytes =
      s.sink.bytes ++ s.sink.fits (Utf8.encode command.line.toList) := by
  have hwritten := Recorder.write_eq_fits command.line s.sink
  rcases hwrite : Sink.write command.line s.sink with ⟨_ | _, written⟩
  · rw [send_of_cut hopen hwrite]
    rw [hwrite] at hwritten
    obtain rfl := hwritten
    exact ⟨rfl, rfl⟩
  · rw [send_of_written hopen hwrite rfl]
    rw [hwrite] at hwritten
    obtain rfl := hwritten
    exact ⟨rfl, rfl⟩

/-- Of the lines that have been written, the recorder has what fits. -/
structure Recorded (sink : Recorder) (past : List (Passage Recorder)) (s : Session Recorder) :
    Prop where
  room : s.sink.room = sink.room
  bytes : s.sink.bytes = sink.bytes ++
    sink.fits (Utf8.encode (Sexp.lines (past.filterMap Passage.command?)).toList)

theorem Recorded.idle (h : Recorded sink past s) (hnone : p.command? = none)
    (hsink : after.sink = s.sink) : Recorded sink (past ++ [p]) after := by
  constructor
  · rw [hsink, h.room]
  · rw [hsink, h.bytes, List.filterMap_append, List.filterMap_cons_none hnone, List.filterMap_nil,
      List.append_nil]

theorem Recorded.send (h : Recorded sink past s) (hopen : s.holdsSink = true)
    (hcommand : p.command? = some command) (hsink : after.sink = (s.send command).2.sink) :
    Recorded sink (past ++ [p]) after := by
  obtain ⟨hroom, hbytes⟩ := send_recorder hopen command
  constructor
  · rw [hsink, hroom, h.room]
  · rw [hsink, hbytes, List.filterMap_append, List.filterMap_cons_some hcommand,
      List.filterMap_nil, Sexp.encode_lines_append, Sexp.encode_lines_singleton,
      Recorder.fits_append h.room h.bytes, ← List.append_assoc, h.bytes]

theorem Recorded.close (h : Recorded sink (past ++ [p]) p.after) :
    Recorded sink (past ++ [{ p with after := p.after.close }]) p.after.close := by
  refine ⟨h.room, h.bytes.trans ?_⟩
  rw [List.filterMap_append, List.filterMap_append]
  rfl

/-- **A call leaves on the recorder what fits of its line.** -/
theorem keeps_recorded (sink : Recorder) : Keeps (Recorded sink) := by
  intro past s call hheld h
  rcases hrequest : call.request? with _ | request
  · obtain rfl := Call.eq_close_of_request? hrequest
    refine h.idle ?_ rfl
    rw [Passage.command?, passage, Call.request?]
    split <;> rfl
  · have hafter := sink_perform s hrequest
    rcases sent_or_not (turn_exchange hheld request.command) with
      ⟨hclosed, -, hsame⟩ | ⟨hopen, -, hsink, -⟩
    · refine h.idle (Passage.command?_of_closed hclosed) ?_
      rw [hafter, hsame]
    · exact h.send hopen (Passage.command?_of_open hopen hrequest) (hafter.trans hsink)

end

/-! ## What is read -/

section

variable {σ : Type} [Sink σ] {replies : Reader} {past : List (Passage σ)} {s after : Session σ}
  {p : Passage σ}

/-- As long as there may be more, the replies that have been read are as many as the lines that
    have been sent off. -/
structure Counted (replies : Reader) (past : List (Passage σ)) (s : Session σ) : Prop where
  reads : s.replies.done = false → replies.Reads s.answered s.replies
  count : s.replies.done = false → s.answered.length = past.countP Passage.sends

theorem Counted.idle (h : Counted replies past s) (hsends : p.sends = false)
    (hreplies : after.replies = s.replies) (hanswered : after.answered = s.answered) :
    Counted replies (past ++ [p]) after := by
  constructor
  · rw [hreplies, hanswered]
    exact h.reads
  · rw [hreplies, hanswered, List.countP_append, List.countP_singleton, hsends]
    exact h.count

theorem Counted.read {x : Sexp} (h : Counted replies past s) (hsends : p.sends = true)
    (hnext : s.replies.next = (.ok (some x), after.replies))
    (hanswered : after.answered = s.answered ++ [x]) : Counted replies (past ++ [p]) after := by
  have hdone := (Reader.not_done_of_next hnext).1
  constructor
  · rw [hanswered]
    exact fun _ => (h.reads hdone).snoc hnext
  · rw [hanswered, List.length_append, h.count hdone, List.countP_append, List.countP_singleton,
      hsends]
    exact fun _ => rfl

theorem Counted.close (h : Counted replies (past ++ [p]) p.after) :
    Counted replies (past ++ [{ p with after := p.after.close }]) p.after.close := by
  refine ⟨h.reads, fun hmore => (h.count hmore).trans ?_⟩
  rw [List.countP_append, List.countP_append]
  rfl

/-- **A call reads a reply exactly if its line is sent off**, as long as there are replies. -/
theorem keeps_counted (replies : Reader) : Keeps (σ := σ) (Counted replies) := by
  intro past s call hheld h
  rcases hrequest : call.request? with _ | request
  · obtain rfl := Call.eq_close_of_request? hrequest
    exact h.idle rfl rfl rfl
  · have hturn := turn_exchange hheld request.command
    have hsends : (s.passage call).sends = (s.send request.command).1.isOk :=
      Passage.sends_eq hrequest
    have hreplies := replies_perform s hrequest
    have hanswered : (s.perform call).2.answered =
        s.answered ++ (s.exchange request.command).1.toOption.toList := by
      rw [perform_eq s hrequest, answered_behind, answered_record_warnings, answered_of_turn hturn]
    rcases sent_or_not hturn with ⟨hclosed, hresult, hsame⟩ |
      ⟨-, -, -, ⟨e, hunsent, hresult, hkept⟩ | ⟨hsent, hread, ⟨e, hnone, -⟩ | ⟨x, hsome, hresult⟩⟩⟩
    · have hunsent : (s.passage call).sends = false := by
        rw [hsends, send_of_shut hclosed]
        rfl
      rw [hresult] at hanswered
      rw [hsame] at hreplies
      exact h.idle hunsent hreplies (hanswered.trans (List.append_nil _))
    · rw [hunsent] at hsends
      rw [hresult] at hanswered
      exact h.idle hsends (hreplies.trans hkept) (hanswered.trans (List.append_nil _))
    · have hdone : (s.perform call).2.replies.done = true := by
        rw [hreplies, hread]
        exact Reader.done_of_ofNext? hnone
      exact ⟨fun hmore => absurd hmore (by simp [hdone]),
        fun hmore => absurd hmore (by simp [hdone])⟩
    · rw [hsent] at hsends
      rw [hresult] at hanswered
      exact h.read hsends (Prod.ext hsome (hreplies.trans hread).symm) hanswered

theorem failing_io_ne_answer {call : Call} {request : Request} {e : String} {a : Answer}
    (hrequest : call.request? = some request) : call.failing (.io e) ≠ .answer a := by
  cases call with
  | ask | push | exit => simp [Call.failing]
  | close => simp [Call.request?] at hrequest

/-- **A command that is not sent leaves the replies alone**, and the session open unless the call
    leaves, or is the one that opens the session. -/
theorem Carried.of_unsent {k : Nat} {request : Request} {e : String} (h : Carried k p)
    (hopen : p.before.holdsSink = true) (hrequest : p.call.request? = some request)
    (hunsent : (p.before.send request.command).1 = .error e) :
    p.outcome = p.call.failing (.io e) ∧ p.after.replies = p.before.replies ∧
      (p.after.isClosed = true ↔ p.call.Leaves ∨ k = 0) := by
  have hperform := perform_eq p.before hrequest
  obtain ⟨hresult, hkept, hstays⟩ : (p.before.exchange request.command).1 = .error (.io e) ∧
      (p.before.exchange request.command).2.replies = p.before.replies ∧
      (p.before.exchange request.command).2.holdsSink = true := by
    rcases sent_or_not (turn_exchange h.held request.command) with
      ⟨hclosed, -⟩ | ⟨-, hstays, -, ⟨e', hfails, hresult, hkept⟩ | ⟨hsent, -⟩⟩
    · simp [hopen] at hclosed
    · obtain rfl : e' = e := Except.error.inj (hfails.symm.trans hunsent)
      exact ⟨hresult, hkept, hstays⟩
    · simp [hunsent] at hsent
  have houtcome : p.outcome = p.call.failing (.io e) := by
    rw [h.outcome, hperform, hresult, Call.outcome_error]
  have hreplies : (p.before.perform p.call).2.replies = p.before.replies := by
    rw [replies_perform p.before hrequest, hkept]
  refine ⟨houtcome, ?_⟩
  rcases h.after with ⟨hafter, hopening⟩ | ⟨hzero, hafter⟩
  · refine ⟨hafter ▸ hreplies, ?_⟩
    have hk : k ≠ 0 := by
      intro hzero
      obtain ⟨a, ha⟩ := hopening hzero
      exact failing_io_ne_answer hrequest (houtcome.symm.trans ha)
    rw [hafter, hperform]
    by_cases hleaves : p.call.Leaves
    · rw [behind_of_leaves hleaves]
      exact ⟨fun _ => Or.inl hleaves, fun _ => rfl⟩
    · rw [behind_of_not_leaves hleaves]
      simp [isClosed, record, hstays, hleaves, hk]
  · rw [hafter]
    exact ⟨hreplies, fun _ => Or.inr hzero, fun _ => rfl⟩

end

/-! ## Failures of the sink -/

variable {sink : Recorder} {replies : Reader} {calls : List Call} {k : Nat} {p : Passage Recorder}

theorem recorded_story (hp : (story sink replies calls)[k]? = some p) :
    Recorded sink ((story sink replies calls).take (k + 1)) p.after := by
  have hfresh : Recorded sink [] ({ sink, replies } : Session Recorder) := by
    refine ⟨rfl, ?_⟩
    simp [Utf8.encode]
  exact (story_invariant hfresh (keeps_recorded sink) (fun _ _ => Recorded.close) hp).2.2

/-- **A failure of the sink cuts what is recorded, and leaves the replies alone.**

    All that is recorded are the lines of the commands that the calls have written, in their
    order, up to one of which a part is recorded, and nothing behind it. If a line is not written
    and sent off, the call fails, nothing is read, and the session stays open, unless the call
    leaves or is the one that opens the session. As long as there may be more replies, those that
    have been read are as many as the lines that have been written and sent off. -/
theorem sending_failures_are_isolated (hp : (story sink replies calls)[k]? = some p) :
    (∃ whole rest part,
      ((story sink replies calls).take (k + 1)).filterMap Passage.command? = whole ++ rest ∧
      p.after.sink.bytes = sink.bytes ++ Utf8.encode (Sexp.lines whole).toList ++ part ∧
      (rest = [] ∧ part = [] ∨
        (∃ x others, rest = x :: others ∧ part <+: Utf8.encode x.line.toList ∧
          part ≠ Utf8.encode x.line.toList) ∧
        ∀ m q, k ≤ m → (story sink replies calls)[m]? = some q →
          q.after.sink.bytes = p.after.sink.bytes)) ∧
    (∀ request e, p.before.holdsSink = true → p.call.request? = some request →
      (p.before.send request.command).1 = .error e →
      p.outcome = p.call.failing (.io e) ∧ p.after.replies = p.before.replies ∧
        (p.after.isClosed = true ↔ p.call.Leaves ∨ k = 0)) ∧
    (p.after.replies.done = false →
      replies.Reads p.after.answered p.after.replies ∧
      p.after.answered.length =
        ((story sink replies calls).take (k + 1)).countP Passage.sends) := by
  have hfresh : Counted replies [] ({ sink, replies } : Session Recorder) :=
    ⟨fun _ => .nil, fun _ => rfl⟩
  obtain ⟨hcarried, -, hcounted⟩ :=
    story_invariant hfresh (keeps_counted replies) (fun _ _ => Counted.close) hp
  refine ⟨?_, fun request e hopen hrequest => hcarried.of_unsent hopen hrequest,
    fun hmore => ⟨hcounted.reads hmore, hcounted.count hmore⟩⟩
  obtain ⟨whole, rest, part, hlines, hfits, hrest⟩ :=
    sink.fits_lines (((story sink replies calls).take (k + 1)).filterMap Passage.command?)
  have hbytes := (recorded_story hp).bytes
  refine ⟨whole, rest, part, hlines, ?_, hrest.imp_right (And.imp_right fun hfull => ?_)⟩
  · rw [hbytes, hfits, List.append_assoc]
  · intro m q hkm hq
    obtain ⟨d, rfl⟩ := Nat.exists_eq_add_of_le hkm
    rw [(recorded_story hq).bytes, hbytes, Nat.add_right_comm, List.take_add, List.filterMap_append,
      Sexp.encode_lines_append, hfull]

/-- There is room for the first line and a part of the second. -/
theorem sending_failures_are_isolated_full :
    let replies : Reader :=
      { rest := Source.ofChunks [.bytes (Utf8.encode "success\nsat\n".toList)] }
    let passages := story ({ room := some 40 } : Recorder) replies [.ask .checkSat, .push]
    ∃ p, passages[1]? = some p ∧ p.outcome = .failure (.io "sink full") ∧
      p.after.replies = p.before.replies ∧ p.after.isClosed = false ∧
      p.after.replies.done = false ∧ replies.Reads p.after.answered p.after.replies ∧
      p.after.answered.length = (passages.take 2).countP Passage.sends := by
  intro replies passages
  let setOption := (Request.setOption "print-success" (.symbol "true")).command
  let checkSat := Request.checkSat.command
  let middle : Reader := ⟨Source.sized Char.utf8Size "\nsat\n".toList, ⟨0, 7⟩, true, false, []⟩
  have hfirst : replies.next = (.ok (some (.symbol "success")), middle) := by decide +kernel
  let s : Session Recorder := { sink := { room := some 40 }, replies }
  let s₁ : Session Recorder := { s with
    sink := s.sink.sent setOption.line, replies := middle
    log := [.command setOption, .reply (.symbol "success")] }
  have hopens : greeting.request? = some (.setOption "print-success" (.symbol "true")) := rfl
  have hwrite : Sink.write setOption.line s.sink =
      (.ok (), { s.sink with bytes := Utf8.encode setOption.line.toList }) := by decide +kernel
  have hgreets : s.perform greeting = (.answer .done, s₁) :=
    perform_of_delivers ⟨rfl, _, hwrite, rfl⟩ rfl hfirst rfl hopens
  have hpassages : passages = opening s.sink replies :: s₁.passages [.ask .checkSat, .push] := by
    rw [← show (start s.sink replies).2 = s₁ from congrArg Prod.snd (start_of_perform hgreets)]
    rfl
  have hp : passages[1]? = some (s₁.passage (.ask .checkSat)) := by
    rw [hpassages]
    rfl
  have hunsent : (s₁.send checkSat).1 = .error "sink full" := by decide +kernel
  obtain ⟨-, hfails, hcounts⟩ := sending_failures_are_isolated hp
  obtain ⟨houtcome, hreplies, hclosed⟩ := hfails .checkSat "sink full" rfl rfl hunsent
  have hmore : (s₁.passage (.ask .checkSat)).after.replies.done = false := by
    rw [hreplies]
    rfl
  refine ⟨_, hp, houtcome, hreplies, ?_, hmore, hcounts hmore⟩
  rw [Bool.eq_false_iff, ne_eq, hclosed]
  rintro (hleaves | hzero)
  · exact hleaves
  · exact absurd hzero (by decide)

end Session

end SmtDialogue
