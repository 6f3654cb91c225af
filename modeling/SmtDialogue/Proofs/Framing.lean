/-
  What a session sends, read by whoever listens.

  * `Sexp.lines`: some expressions, each on a line of its own;
  * `parse_lines`: lines are read as the expressions on them, spelled out;
  * `Call.Writable`: all names, texts and numbers in a call are written in a way that can be
    read, and `Call.commands` are the commands of some calls;
  * `sent_parses_as_commands`: what a session has sent is read as the commands that its
    calls sent, one expression for each.
-/
import SmtDialogue.Proofs.Coverage
import SmtDialogue.Proofs.Dialogue
import SmtDialogue.Proofs.WrittenForm

namespace SmtDialogue

open Source

/-! ## Lines -/

/-- Some expressions, each on a line of its own. -/
def Sexp.lines (xs : List Sexp) : String :=
  String.ofList (xs.flatMap fun x => x.line.toList)

@[simp] theorem Sexp.toList_lines (xs : List Sexp) :
    (lines xs).toList = xs.flatMap fun x => x.line.toList :=
  String.toList_ofList

namespace Reader

variable {size : Char → Nat} {reader : Reader} {gap blanks : List Char} {xs : List Sexp}

theorem ends_of_spelled (hgap : Gap.Spelled gap) (hrest : reader.rest = sized size gap) :
    reader.Ends := by
  have hgaps : reader.rest = sized size (gap ++ []) := by rw [hrest, List.append_nil]
  exact ⟨_, _, token_eq_of_trails hgap .nil hgaps, rfl⟩

theorem results_of_lines (hxs : ∀ x ∈ xs, x.Writable) (hdone : reader.done = false)
    (hblanks : ∀ c ∈ blanks, isBlank c)
    (hrest : reader.rest = sized size (blanks ++ (Sexp.lines xs).toList)) :
    reader.results.1 = (xs.map Sexp.spelledOut).map .ok := by
  induction xs generalizing reader blanks with
  | nil =>
    have hgap : Gap.Spelled (blanks ++ []) := Gap.Spelled.nil.blanks hblanks
    rw [Sexp.toList_lines, List.flatMap_nil] at hrest
    exact results_of_none ((next_eq_none_iff hdone).2 (ends_of_spelled hgap hrest))
  | cons x xs ih =>
    have hx : x.Writable := hxs x List.mem_cons_self
    have hbreak : ∀ c ∈ ['\n'], isBlank c := List.all_eq_true.1 (by decide)
    let message : Reply := ⟨x.spelledOut, ['\n'], Sexp.readable_spelledOut x hx, by simp, hbreak⟩
    have hline : x.line.toList = message.text := by
      rw [Sexp.line, Reply.text, Sexp.render_spelledOut hx, String.toList_append]
      rfl
    have htext : reader.rest =
        sized size (blanks ++ message.text ++ (Sexp.lines xs).toList) := by
      rw [hrest, Sexp.toList_lines, Sexp.toList_lines, List.flatMap_cons, hline, List.append_assoc]
    have hnext := Reply.next_of_reply hdone hblanks htext
    have hmore : (reader.behind (blanks ++ message.value.render.toList)
        (sized size (message.blanks ++ (Sexp.lines xs).toList)) message.value.peeks).results.1 =
          (xs.map Sexp.spelledOut).map .ok :=
      ih (fun y hy => hxs y (List.mem_cons_of_mem x hy)) hdone hbreak rfl
    rw [results_of_some hnext, List.map_cons, List.map_cons]
    exact congrArg (Except.ok x.spelledOut :: ·) hmore

end Reader

/-- **Lines are read as the expressions on them**, one for each. -/
theorem parse_lines {xs : List Sexp} (h : ∀ x ∈ xs, x.Writable) :
    parse (Sexp.lines xs) = .ok (xs.map Sexp.spelledOut) := by
  have hrest : (Reader.ofText (Sexp.lines xs)).rest =
      sized (fun _ => 1) ([] ++ (Sexp.lines xs).toList) := rfl
  rw [parse_eq_ok_iff]
  exact Reader.results_of_lines h rfl (by simp) hrest

/-! ## Requests that can be read -/

/-- All names, texts and numbers in the request are written in a way that can be read. -/
def Request.Writable : Request → Prop
  | raw x => x.Writable
  | declareConst id sort => IsSymbolText id.toList ∧ sort.Writable
  | declareFun id params result =>
    IsSymbolText id.toList ∧ (∀ s ∈ params, s.Writable) ∧ result.Writable
  | assertTerm t => t.Writable
  | setLogic name => IsSymbolText name.toList
  | setOption name value => (∀ c ∈ name.toList, isWordChar c) ∧ value.Writable
  | checkSat | getModel | push | pop | exit => True

theorem Sexp.writable_application {name : String} {xs : List Sexp}
    (hname : IsSymbolText name.toList) (hxs : ∀ x ∈ xs, x.Writable) :
    (Sexp.list (.symbol name :: xs)).Writable :=
  ⟨hname, Sexp.allWritable_iff.2 hxs⟩

theorem Request.writable_command {request : Request} (h : request.Writable) :
    request.command.Writable := by
  cases request with
  | raw x => exact h
  | declareConst id sort =>
    have hsort := SortExpr.writable_toSexp sort h.2
    exact Sexp.writable_application (by decide) (by simpa [h.1, Sexp.Writable] using hsort)
  | declareFun id params result =>
    obtain ⟨hid, hparams, hresult⟩ := h
    have hsorts : (Sexp.list (params.map SortExpr.toSexp)).Writable := by
      rw [Sexp.writable_list]
      intro x hx
      obtain ⟨s, hs, rfl⟩ := List.mem_map.1 hx
      exact SortExpr.writable_toSexp s (hparams s hs)
    have hlast := SortExpr.writable_toSexp result hresult
    refine Sexp.writable_application (by decide) ?_
    intro x hx
    simp only [List.mem_cons, List.not_mem_nil, or_false] at hx
    rcases hx with rfl | rfl | rfl
    · exact hid
    · exact hsorts
    · exact hlast
  | assertTerm t =>
    have ht := Term.writable_toSexp t h
    exact Sexp.writable_application (by decide) (by simpa using ht)
  | setLogic name =>
    have hname : (Sexp.symbol name).Writable := h
    exact Sexp.writable_application (by decide) (by simpa using hname)
  | setOption name value =>
    have hname : (Sexp.keyword name).Writable := h.1
    exact Sexp.writable_application (by decide) (by simpa [h.2] using hname)
  | checkSat | getModel | push | pop | exit =>
    exact Sexp.writable_application (by decide) (by simp)

namespace Call

/-- All names, texts and numbers in the call are written in a way that can be read. -/
def Writable (call : Call) : Prop :=
  ∀ request ∈ call.request?, request.Writable

/-- The commands that some calls send. Nothing is sent behind a call that leaves. -/
def commands : List Call → List Sexp
  | [] => []
  | ask request :: calls => request.command :: commands calls
  | push :: calls => Request.push.command :: commands calls
  | exit :: _ => [Request.exit.command]
  | close :: _ => []

variable {call : Call} {calls : List Call}

theorem commands_of_not_leaves {request : Request} (h : ¬ call.Leaves)
    (hrequest : call.request? = some request) :
    commands (call :: calls) = request.command :: commands calls := by
  cases call with
  | ask asked =>
    obtain rfl := Option.some.inj hrequest
    rfl
  | push =>
    obtain rfl := Option.some.inj hrequest
    rfl
  | exit | close => exact absurd trivial h

theorem writable_commands (h : ∀ call ∈ calls, call.Writable) :
    ∀ x ∈ commands calls, x.Writable := by
  fun_induction commands calls with
  | case1 => simp
  | case2 request calls ih =>
    have hrequest : request.Writable := h (.ask request) List.mem_cons_self request rfl
    rintro x (_ | ⟨_, hx⟩)
    · exact Request.writable_command hrequest
    · exact ih (fun call hcall => h call (List.mem_cons_of_mem _ hcall)) x hx
  | case3 calls ih =>
    have hpush : Request.push.Writable := trivial
    rintro x (_ | ⟨_, hx⟩)
    · exact Request.writable_command hpush
    · exact ih (fun call hcall => h call (List.mem_cons_of_mem _ hcall)) x hx
  | case4 =>
    have hexit : Request.exit.Writable := trivial
    intro x hx
    obtain rfl := List.mem_singleton.1 hx
    exact Request.writable_command hexit
  | case5 => simp

end Call

/-! ## What is sent -/

namespace Session

variable {σ : Type} [Sink σ] {R : Sink.Reliable σ} {s after : Session σ} {command : Sexp}
  {result : Except SessionError Sexp} {call : Call} {request : Request}

/-- The session is closed on both sides. -/
def Shut (s : Session σ) : Prop :=
  s.holdsSink = false ∧ s.holdsReplies = false

theorem contents_of_turn (hs : Speaks R s) (h : Turn s command result after) :
    Speaks R after ∧
      R.contents after.sink = R.contents s.sink ++ Utf8.encode command.line.toList := by
  obtain ⟨sink, -, written, hok, hsent⟩ := delivers_of_speaks hs command
  obtain ⟨hsound, hsink, hreplies⟩ := hs
  cases h with
  | closed hshut => simp [hsink] at hshut
  | cut _ hwrite => simp [hok] at hwrite
  | unsent _ hwrite hflush =>
    obtain ⟨-, rfl⟩ := Prod.mk.inj (hok.symm.trans hwrite)
    simp [hsent] at hflush
  | unanswered hdelivers | answered hdelivers =>
    obtain ⟨hthere, hcontents⟩ := contents_of_delivers hsound hdelivers
    exact ⟨⟨hthere, hsink, hreplies⟩, hcontents⟩

theorem contents_perform (hs : Speaks R s) (call : Call)
    (hrequest : call.request? = some request) :
    R.contents (s.perform call).2.sink =
        R.contents s.sink ++ Utf8.encode request.command.line.toList ∧
      (¬ call.Leaves → Speaks R (s.perform call).2) ∧
      (call.Leaves → (s.perform call).2.Shut) := by
  have hturn := turn_exchange (hs.holdsReplies.trans hs.holdsSink.symm) request.command
  obtain ⟨hspeaks, hcontents⟩ := contents_of_turn hs hturn
  rw [perform_eq s hrequest]
  refine ⟨by rw [sink_behind]; exact hcontents, ?_, ?_⟩
  · intro hstay
    rw [behind_of_not_leaves hstay]
    exact ⟨hspeaks.sound, hspeaks.holdsSink, hspeaks.holdsReplies⟩
  · intro hleaves
    rw [behind_of_leaves hleaves]
    exact ⟨rfl, rfl⟩

omit [Sink σ] in
theorem close_of_shut (h : s.Shut) : s.close = s := by
  obtain ⟨sink, replies, holdsSink, holdsReplies, log⟩ := s
  obtain ⟨rfl, rfl⟩ := h
  rfl

/-- **A closed session stays as it is**, and its calls end as calls do to which no reply comes. -/
theorem perform_of_shut (h : s.Shut) (call : Call) :
    s.perform call = (call.failing .closed, s) := by
  have hclose : s.close = s := close_of_shut h
  rcases hrequest : call.request? with _ | request
  · obtain rfl := Call.eq_close_of_request? hrequest
    rw [perform, hclose]
    rfl
  · have hrecord : s.record (request.warnings (.error .closed)) = s := by
      simp [record, Request.warnings, Except.bind]
    rw [perform_eq s hrequest, exchange_of_turn (.closed h.1), Call.outcome_error, hrecord]
    by_cases hleaves : call.Leaves
    · rw [behind_of_leaves hleaves, hclose]
    · rw [behind_of_not_leaves hleaves]

theorem last_of_shut (h : s.Shut) (calls : List Call) : s.last calls = s := by
  induction calls with
  | nil => rfl
  | cons call calls ih => rw [last_cons, perform_of_shut h, ih]

/-- **What some calls send**: their commands, each on a line of its own. -/
theorem contents_last (hs : Speaks R s) (calls : List Call) :
    R.contents (s.last calls).sink =
      R.contents s.sink ++ Utf8.encode (Sexp.lines (Call.commands calls)).toList := by
  induction calls generalizing s with
  | nil => simp [Call.commands, Utf8.encode]
  | cons call calls ih =>
    by_cases hleaves : call.Leaves
    · cases call with
      | ask | push => exact hleaves.elim
      | close =>
        rw [last_cons, last_of_shut (s := (s.perform .close).2) ⟨rfl, rfl⟩]
        simp [Call.commands, Utf8.encode, perform, close]
      | exit =>
        obtain ⟨hcontents, -, hshut⟩ := contents_perform hs .exit rfl
        rw [last_cons, last_of_shut (hshut trivial), hcontents]
        simp [Call.commands]
    · obtain ⟨request, hrequest⟩ := Call.exists_request_of_not_leaves hleaves
      obtain ⟨hcontents, hspeaks, -⟩ := contents_perform hs call hrequest
      rw [last_cons, ih (hspeaks hleaves), hcontents,
        Call.commands_of_not_leaves hleaves hrequest]
      simp [Utf8.encode, List.append_assoc]

theorem contents_start {sink : σ} {replies : Reader} {a : Answer} {opened : Session σ}
    (hsink : R.Sound sink) (h : Session.start sink replies = (.answer a, opened)) :
    Speaks R opened ∧ R.contents opened.sink = R.contents sink ++ Utf8.encode (Sexp.lines
      [.list [.symbol "set-option", .keyword "print-success", .symbol "true"]]).toList := by
  have hfresh : Speaks R ({ sink, replies } : Session σ) := ⟨hsink, rfl, rfl⟩
  obtain ⟨hcontents, hspeaks, -⟩ := contents_perform hfresh greeting rfl
  rcases start_cases sink replies with ⟨b, found, hperform, hstart⟩ | ⟨e, left, -, hstart⟩
  · obtain rfl : found = opened := congrArg Prod.snd (hstart.symm.trans h)
    rw [hperform] at hcontents hspeaks
    refine ⟨hspeaks (fun hleaves => hleaves), hcontents.trans ?_⟩
    simp [Request.command]
  · simp [hstart] at h

/-- **What a session has sent is read as the commands that its calls sent**, one expression
    for each and in their order, the first of them being the one that opened the session.
    In the expressions that are read, negative integers and bit-vector values are spelled
    out, and nothing else differs from what was sent. -/
theorem sent_parses_as_commands (R : Sink.Reliable σ) {sink : σ} (hsink : R.Sound sink)
    {replies : Reader} {a : Answer} {opened : Session σ}
    (hopened : Session.start sink replies = (.answer a, opened))
    {calls : List Call} (hcalls : ∀ call ∈ calls, call.Writable) :
    ∃ text : String,
      R.contents (opened.last calls).sink = R.contents sink ++ Utf8.encode text.toList ∧
      parse text = .ok (.list [.symbol "set-option", .keyword "print-success", .symbol "true"] ::
        (Call.commands calls).map Sexp.spelledOut) := by
  obtain ⟨hspeaks, hgreeting⟩ := contents_start hsink hopened
  have hcommand : (Request.setOption "print-success" (.symbol "true")).command.Writable := by
    refine Request.writable_command ⟨List.all_eq_true.1 (by decide), ?_⟩
    have hname : IsSymbolText "true".toList := by decide
    exact hname
  refine ⟨Sexp.lines (.list [.symbol "set-option", .keyword "print-success", .symbol "true"] ::
    Call.commands calls), ?_, parse_lines ?_⟩
  · rw [contents_last hspeaks, hgreeting]
    simp [Utf8.encode, List.append_assoc]
  · rintro x (_ | ⟨_, hx⟩)
    · exact hcommand
    · exact Call.writable_commands hcalls x hx

/-- An assertion with a negative integer and a bit-vector value under a binding, and two more
    calls, behind which nothing is sent. -/
theorem sent_parses_as_commands_assert :
    let calls : List Call := [.ask (.assertTerm (.letIn "x" (.int (-5))
      (.app "f" [.const "x", .bitVec 5 8]))), .push, .exit, .ask .checkSat]
    ∃ a opened, Session.start ({} : Recorder)
        { rest := Source.ofChunks [.bytes (Utf8.encode "success\n".toList)] } =
          (.answer a, opened) ∧
      (∀ call ∈ calls, call.Writable) ∧
      ∃ text : String, (opened.last calls).sink.bytes = Utf8.encode text.toList ∧
        parse text = .ok [
          .list [.symbol "set-option", .keyword "print-success", .symbol "true"],
          .list [.symbol "assert", .list [.symbol "let",
            .list [.list [.symbol "x", .list [.symbol "-", .int 5]]],
            .list [.symbol "f", .symbol "x", .list [.symbol "_", .symbol "bv5", .int 8]]]],
          .list [.symbol "push"],
          .list [.symbol "exit"]] := by
  intro calls
  have hsound : Recorder.reliable.Sound {} := ⟨rfl, rfl⟩
  have hchunks : [Utf8.encode "success\n".toList].flatten =
      Utf8.encode (Reply.texts [.word "success" (by decide)]) := by
    decide +kernel
  obtain ⟨outcome, opened, hstart, -, hiff, -⟩ := start_of_ready (ready_of_chunks hsound hchunks)
  obtain ⟨a, rfl⟩ := hiff.2 rfl
  have hcalls : ∀ call ∈ calls, call.Writable := by
    have hname : IsSymbolText "x".toList := by decide
    have hfunction : IsSymbolText "f".toList := by decide
    have hint : Int64.minValue < -5 := by decide
    have hwidth : (0 : Int64) ≤ 8 := by decide
    have hassert : (Request.assertTerm (.letIn "x" (.int (-5))
        (.app "f" [.const "x", .bitVec 5 8]))).Writable :=
      ⟨hname, hint, hfunction, hname, hwidth, trivial⟩
    intro call hcall request hrequest
    simp only [calls, List.mem_cons, List.not_mem_nil, or_false] at hcall
    rcases hcall with rfl | rfl | rfl | rfl <;> obtain rfl := Option.some.inj hrequest
    · exact hassert
    · trivial
    · trivial
    · trivial
  obtain ⟨text, hcontents, hparse⟩ := sent_parses_as_commands Recorder.reliable hsound hstart hcalls
  exact ⟨a, opened, hstart, hcalls, text, hcontents, hparse⟩

end Session

end SmtDialogue
