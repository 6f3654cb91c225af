/-
  What stands behind a text, and whether a reader asks for it.

  A reader of a text either stays within the text, and then it makes no difference what the
  source has to say behind it, or it goes beyond the text, and then it fails as the source does.

  * `Reader.StaysWithin`, `Reader.GoesBeyond`: the two ways in which a text can be read;
  * `token_cases`, `assemble_cases`: each token and each expression is read in one of them.
-/
import SmtDialogue.Proofs.Ending
import SmtDialogue.Proofs.TokenText

namespace SmtDialogue

open Source

variable {size : Char → Nat} {text more front : List Char} {tail : Source} {reader : Reader}

namespace Source

theorem run_cases (size : Char → Nat) (p : Char → Bool) (text : List Char) :
    (∃ word c more, text = word ++ c :: more ∧
      ∀ tail, run p (sized size text ++ tail) = (word, sized size (c :: more) ++ tail)) ∨
    ∀ tail, Silent tail → run p (sized size text ++ tail) = (text, tail) := by
  obtain ⟨word, more, rfl, hword, hend⟩ := exists_run p text
  cases more with
  | cons c more =>
    have hc : EndsRun p (.char c (size c) :: sized size more) := hend
    refine Or.inl ⟨word, c, more, rfl, fun tail => ?_⟩
    rw [sized_append, List.append_assoc, run_append hword]
    exact hc
  | nil =>
    refine Or.inr fun tail htail => ?_
    rw [List.append_nil, run_sized_append hword, run_of_silent p htail, List.append_nil]

theorem quoted_cases (size : Char → Nat) (escaped : Bool) (text : List Char) :
    (∃ body more, text = body ++ '"' :: more ∧
      ∀ tail, quoted escaped (sized size text ++ tail) =
        (body, sized size ('"' :: more) ++ tail)) ∨
    ∀ tail, Silent tail → quoted escaped (sized size text ++ tail) = (text, tail) := by
  by_cases hclosed : ∃ body more, text = body ++ '"' :: more ∧ isQuotable escaped body
  · obtain ⟨body, more, rfl, hbody⟩ := hclosed
    refine Or.inl ⟨body, more, rfl, fun tail => ?_⟩
    rw [sized_append, List.append_assoc]
    exact quoted_append hbody
  · refine Or.inr fun tail => quoted_of_isUnclosed fun body more htext hbody => ?_
    exact hclosed ⟨body, more, htext, hbody⟩

end Source

/-! ## Gaps -/

namespace Gap

/-- The gap ends at a character of the text, whatever stands behind the text. -/
def EndsWithin (size : Char → Nat) (place : Cursor) (text : List Char) : Prop :=
  ∃ gap c more, text = gap ++ c :: more ∧ ∀ tail : Source, Silent tail →
    skip .blank place (sized size text ++ tail) =
      ⟨sized size (c :: more) ++ tail, place.advanceOver gap, []⟩

/-- All of the text is gap, and what stands behind it is asked for. -/
structure RunsOut (size : Char → Nat) (place : Cursor) (text : List Char) : Prop where
  fails : ∀ (message : String) (n : Nat) (beyond : Source),
    skip .blank place (sized size text ++ .failure message n :: beyond) =
      ⟨.failure message n :: beyond, place.advanceOver text, []⟩
  asks : (skip .blank place (sized size text ++ [.stop])).rest.tail = []

/-- **A gap ends within the text, or runs on to what stands behind it.** -/
theorem skip_cases (size : Char → Nat) (place : Cursor) (text : List Char) :
    EndsWithin size place text ∨ RunsOut size place text := by
  obtain ⟨gap, rest, rfl, hgap, hrest⟩ := exists_split text
  have hskip (tail : Source) : skip .blank place (sized size (gap ++ rest) ++ tail) =
      skip .blank (place.advanceOver gap) (sized size rest ++ tail) := by
    rw [sized_append, List.append_assoc, skip_append hgap]
  rcases hrest with htrails | ⟨c, more, rfl, hend⟩
  · refine Or.inr ⟨fun message n beyond => ?_, ?_⟩
    · rw [hskip, skip_trails htrails silent_failure, skip_failure, Cursor.advanceOver_append]
    · rw [hskip, skip_trails htrails silent_stop]
      cases Mode.behind (place.advanceOver gap) rest <;> simp [skip]
  · refine Or.inl ⟨gap, c, more, rfl, fun tail htail => ?_⟩
    rw [hskip, skip_of_endsAt (hend.append htail)]

end Gap

/-! ## Two ways to read a text -/

namespace Reader

open Assembly

variable {α : Type} {read again : Reader → Except (Located SyntaxError) α × Reader}
  {result : Except (Located SyntaxError) α} {P : Except (Located SyntaxError) α → Prop}
  {peeked ahead : Bool} {opened : OpenLists}

/-- Whatever stands behind the text, reading takes `front` and leaves the rest of the text. -/
structure StaysWithin (read : Reader → Except (Located SyntaxError) α × Reader)
    (size : Char → Nat) (reader : Reader) (text : List Char)
    (result : Except (Located SyntaxError) α) (front more : List Char) (peeked : Bool) : Prop where
  text_eq : text = front ++ more
  /-- What has been looked at is a character of the text. -/
  more_ne_nil : peeked = true → more ≠ []
  read_eq : ∀ tail : Source, Silent tail → read { reader with rest := sized size text ++ tail } =
    (result, reader.behind front (sized size more ++ tail) peeked)

/-- Reading takes all of the text, and asks for what stands behind it. -/
structure GoesBeyond (read : Reader → Except (Located SyntaxError) α × Reader)
    (size : Char → Nat) (reader : Reader) (text : List Char) : Prop where
  fails : ∀ (message : String) (n : Nat) (beyond : Source),
    read { reader with rest := sized size text ++ .failure message n :: beyond } =
      (.error ⟨.io message, reader.cursor.advanceOver text⟩, reader.behind text beyond false)
  asks : (read { reader with rest := sized size text ++ [.stop] }).2.unread = []

/-- Reading stays within the text, and then it has a result of the form `P`, or it goes
    beyond the text. -/
def WithinOrBeyond (read : Reader → Except (Located SyntaxError) α × Reader)
    (size : Char → Nat) (reader : Reader) (text : List Char)
    (P : Except (Located SyntaxError) α → Prop) : Prop :=
  (∃ result front more peeked, P result ∧
    StaysWithin read size reader text result front more peeked) ∨
  GoesBeyond read size reader text

/-- Behind some characters of the text, reading goes on as `again` does. -/
def GoesOn (read again : Reader → Except (Located SyntaxError) α × Reader) (size : Char → Nat)
    (reader : Reader) (front text : List Char) (ahead : Bool) : Prop :=
  ∀ tail : Source, Silent tail → read { reader with rest := sized size (front ++ text) ++ tail } =
    again (reader.behind front (sized size text ++ tail) ahead)

theorem GoesOn.withinOrBeyond (hread : GoesOn read again size reader front text ahead)
    (h : WithinOrBeyond again size (reader.behind front [] ahead) text P) :
    WithinOrBeyond read size reader (front ++ text) P := by
  rcases h with ⟨result, word, more, peeked, hresult, hstays⟩ | hbeyond
  · refine Or.inl ⟨result, front ++ word, more, peeked, hresult, ?_, hstays.more_ne_nil, ?_⟩
    · rw [hstays.text_eq, List.append_assoc]
    · intro tail htail
      have hagain := hstays.read_eq tail htail
      rw [behind_behind] at hagain
      exact (hread tail htail).trans hagain
  · refine Or.inr ⟨fun message n beyond => ?_, ?_⟩
    · have hagain := hbeyond.fails message n beyond
      rw [behind_behind, cursor_behind, ← Cursor.advanceOver_append] at hagain
      exact (hread _ silent_failure).trans hagain
    · rw [hread _ silent_stop]
      exact hbeyond.asks

/-! ## Tokens -/

/-- A token has been read, and the input has not ended. -/
def IsToken (result : Except (Located SyntaxError) (Located Token)) : Prop :=
  ∃ token, result = .ok token ∧ token.value ≠ .endOfInput

/-- Takes a run of characters, which is complete only where something else begins. -/
def runAhead (p : Char → Bool) (token : List Char → Located Token) (reader : Reader) :
    Except (Located SyntaxError) (Located Token) × Reader :=
  let (word, rest) := run p reader.rest
  (reader.past word rest).lookAhead (token word)

theorem runAhead_cases (p : Char → Bool) {token : List Char → Located Token} (reader : Reader)
    (text : List Char) (htoken : ∀ word, (token word).value ≠ .endOfInput) :
    WithinOrBeyond (runAhead p token) size reader text IsToken := by
  rcases run_cases size p text with ⟨word, c, more, htext, hrun⟩ | hrun
  · refine Or.inl ⟨.ok (token word), word, c :: more, true, ⟨_, rfl, htoken word⟩, htext,
      fun _ => by simp, fun tail _ => ?_⟩
    simp only [runAhead, hrun]
    rfl
  · refine Or.inr ⟨fun message n beyond => ?_, ?_⟩
    · simp only [runAhead, hrun _ silent_failure]
      rfl
    · simp only [runAhead, hrun _ silent_stop]
      rfl

theorem closeString_cases (start : Cursor) (reader : Reader) (text : List Char) :
    WithinOrBeyond (closeString start) size reader text IsToken := by
  rcases quoted_cases size false text with ⟨body, more, htext, hquoted⟩ | hquoted
  · refine Or.inl ⟨.ok ⟨.string (String.ofList body), start⟩, body ++ ['"'], more, false,
      ⟨_, rfl, by simp⟩, by simp [htext], by simp, fun tail _ => ?_⟩
    simp only [closeString, hquoted, sized_cons, List.cons_append, past_eq_behind]
    rw [behind_behind]
    rfl
  · refine Or.inr ⟨fun message n beyond => ?_, ?_⟩
    · simp only [closeString, hquoted _ silent_failure]
      rfl
    · simp only [closeString, hquoted _ silent_stop]
      rfl

/-- **A token is read within the text, or takes all of it and asks for more.** -/
theorem token_cases (size : Char → Nat) (reader : Reader) (text : List Char) :
    WithinOrBeyond Reader.token size reader text IsToken := by
  rcases Gap.skip_cases size reader.cursor text with
    ⟨gap, c, text, rfl, hskip⟩ | ⟨hfails, hasks⟩
  · let start := reader.cursor.advanceOver gap
    have hgap (tail : Source) (htail : Silent tail) :
        ({ reader with rest := sized size (gap ++ [c] ++ text) ++ tail } : Reader).skipGap =
          reader.behind gap (.char c (size c) :: (sized size text ++ tail)) false := by
      have hhere := hskip tail htail
      rw [List.append_cons] at hhere
      simp only [skipGap, hhere, List.append_nil]
      rfl
    rw [List.append_cons]
    by_cases hopen : c = '('
    · refine Or.inl ⟨.ok ⟨.opening, start⟩, gap ++ [c], text, false, ⟨_, rfl, by simp⟩, rfl,
        by simp, ?_⟩
      intro tail htail
      simp only [Reader.token, hgap tail htail, rest_behind, if_pos hopen, past_eq_behind,
        behind_behind]
      rfl
    by_cases hclose : c = ')'
    · refine Or.inl ⟨.ok ⟨.closing, start⟩, gap ++ [c], text, false, ⟨_, rfl, by simp⟩, rfl,
        by simp, ?_⟩
      intro tail htail
      simp only [Reader.token, hgap tail htail, rest_behind, if_neg hopen, if_pos hclose,
        past_eq_behind, behind_behind]
      rfl
    by_cases hquote : c = '"'
    · have hon : GoesOn Reader.token (closeString start) size reader (gap ++ [c]) text false := by
        intro tail htail
        simp only [Reader.token, hgap tail htail, rest_behind, if_neg hopen, if_neg hclose,
          if_pos hquote, past_eq_behind, behind_behind]
        rfl
      exact hon.withinOrBeyond (closeString_cases start _ text)
    by_cases hdigit : c.isDigit = true
    · let int (digits : List Char) : Located Token := ⟨.int (String.ofList (c :: digits)), start⟩
      have hon : GoesOn Reader.token (runAhead Char.isDigit int) size reader (gap ++ [c]) text
          false := by
        intro tail htail
        simp only [Reader.token, hgap tail htail, rest_behind, if_neg hopen, if_neg hclose,
          if_neg hquote, if_pos hdigit, past_eq_behind, behind_behind, runAhead]
        rw [List.append_assoc]
        rfl
      exact hon.withinOrBeyond (runAhead_cases Char.isDigit _ text fun _ => by simp [int])
    · let word (more : List Char) : Located Token := ⟨.ofWord c more, start⟩
      have hon : GoesOn Reader.token (runAhead isWordChar word) size reader (gap ++ [c]) text
          false := by
        intro tail htail
        simp only [Reader.token, hgap tail htail, rest_behind, if_neg hopen, if_neg hclose,
          if_neg hquote, if_neg hdigit, past_eq_behind, behind_behind, runAhead]
        rw [List.append_assoc]
        rfl
      refine hon.withinOrBeyond (runAhead_cases isWordChar _ text fun more => ?_)
      simp only [word, Token.ofWord]
      split <;> simp
  · refine Or.inr ⟨fun message n beyond => ?_, ?_⟩
    · simp only [Reader.token, skipGap, hfails, List.append_nil]
      rfl
    · have hunread := unread_token { reader with rest := sized size text ++ [.stop] }
      rw [skipGap, hasks] at hunread
      exact List.suffix_nil.1 hunread

/-! ## Expressions -/

/-- An expression has been read, or an error of the grammar has been found. -/
def IsParsed (result : Except (Located SyntaxError) (Option Sexp)) : Prop :=
  (∃ x, result = .ok (some x)) ∨ ∃ e, result = .error e ∧ e.value.isLexical = false

theorem not_isLexical_of_refused {token : Token} {cause : SyntaxError}
    (h : step opened token = .refused cause) : cause.isLexical = false := by
  rcases step_eq_refused_iff.1 h with ⟨-, rfl⟩ | ⟨digits, -, -, rfl⟩
  · rfl
  · rfl

/-- **An expression is read within the text, or takes all of it and asks for more.** -/
theorem assemble_cases (size : Char → Nat) (opened : OpenLists) (reader : Reader)
    (text : List Char) :
    WithinOrBeyond (assemble opened) size reader text IsParsed := by
  -- each token shortens the text, and the lists that are open change with it
  induction hlength : text.length using Nat.strong_induction_on generalizing opened reader text with
  | _ n ih =>
  rcases token_cases size reader text with
    ⟨_, front, more, peeked, ⟨token, rfl, hne⟩, hstays⟩ | hbeyond
  · obtain ⟨rfl, hpeeked, htoken⟩ := hstays
    have hless : more.length < n := by
      have hrest := rest_lt_of_token (htoken [] trivial) hne
      simp only [rest_behind, sized, List.append_nil, List.length_map] at hrest
      omega
    cases hstep : step opened token.value with
    | complete x =>
      refine Or.inl ⟨.ok (some x), front, more, peeked, Or.inl ⟨x, rfl⟩, rfl, hpeeked, ?_⟩
      intro tail htail
      rw [assemble_eq_proceed (htoken tail htail), hstep]
      rfl
    | refused cause =>
      refine Or.inl ⟨.error ⟨cause, token.position⟩, front, more, peeked,
        Or.inr ⟨_, rfl, not_isLexical_of_refused hstep⟩, rfl, hpeeked, ?_⟩
      intro tail htail
      rw [assemble_eq_proceed (htoken tail htail), hstep]
      rfl
    | finished => exact absurd (step_eq_finished_iff.1 hstep).2 hne
    | pending opened' =>
      have hon : GoesOn (assemble opened) (assemble opened') size reader front more peeked := by
        intro tail htail
        rw [assemble_eq_proceed (htoken tail htail), hstep]
        rfl
      exact hon.withinOrBeyond (ih _ hless _ _ _ rfl)
  · refine Or.inr ⟨fun message k beyond => assemble_eq_error (hbeyond.fails message k beyond), ?_⟩
    have hunread := unread_assemble opened { reader with rest := sized size text ++ [.stop] }
    rw [hbeyond.asks] at hunread
    exact List.suffix_nil.1 hunread

end Reader

end SmtDialogue
