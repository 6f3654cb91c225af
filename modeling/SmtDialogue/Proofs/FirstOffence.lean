/-
  Where reading a text goes wrong for the first time.

  * `Gap.LeadsTo`: what may stand before a token, and before the end of the input;
  * `GoesWrong`: what a text starts with where reading ends in an error, given the tokens before;
  * `FailsAt`: a text goes wrong at a place, and at none before it;
  * `exists_program_or_failure`: every text holds a program, or goes wrong somewhere;
  * `results_eq_error_iff`: reading ends in an error exactly where the text goes wrong;
  * `first_offence_is_reported`: so the error names the first offence, and the kinds that could
    have stood in its place.
-/
import SmtDialogue.Proofs.Coverage
import SmtDialogue.Proofs.Viability

namespace SmtDialogue

open Source Assembly

variable {text front gap behind trail : List Char} {tokens earlier : List Token}
  {cause : SyntaxError} {e : Located SyntaxError} {start : Cursor}

/-! ## Offences in a text -/

namespace Gap

/-- The gap stands before a token, or before the end of the input, where a comment may be left
    open. -/
inductive LeadsTo : List Char → List Char → Prop
  | token {gap behind : List Char} : Spelled gap → LeadsTo gap behind
  | ending {gap trail : List Char} : Spelled gap → Trails trail → LeadsTo (gap ++ trail) []

theorem LeadsTo.spelled (h : LeadsTo gap behind) (hne : behind ≠ []) : Spelled gap := by
  cases h with
  | token hgap => exact hgap
  | ending => exact absurd rfl hne

theorem LeadsTo.exists_trails (h : LeadsTo gap []) :
    ∃ blank trail, gap = blank ++ trail ∧ Spelled blank ∧ Trails trail := by
  cases h with
  | token hgap => exact ⟨gap, [], by rw [List.append_nil], hgap, .nil⟩
  | ending hgap htrail => exact ⟨_, _, rfl, hgap, htrail⟩

end Gap

/-- Behind these tokens, the text starts with what must not stand there: a token that offends, the
    end of the input where it offends, or a string literal that is left open. -/
inductive GoesWrong (tokens : List Token) : SyntaxError → List Char → Prop
  | token {t : Token} {cause : SyntaxError} {more : List Char} : Offends tokens t cause →
      t.Proper → t.StopsBefore (ofChars more) → GoesWrong tokens cause (t.spelling ++ more)
  | ending {cause : SyntaxError} : Offends tokens .endOfInput cause → GoesWrong tokens cause []
  | string {body : List Char} : IsUnclosed false body →
      GoesWrong tokens .unterminatedString ('"' :: body)

/-- A text that starts at a place goes wrong behind `front` and a gap, and not before: `front` holds
    tokens none of which offends. -/
structure FailsAt (start : Cursor) (tokens : List Token) (front gap behind : List Char)
    (e : Located SyntaxError) : Prop where
  layout : Layout tokens front (ofChars (gap ++ behind))
  leads : Gap.LeadsTo gap behind
  sound : Sound tokens
  wrong : GoesWrong tokens e.value behind
  position : e.position = start.advanceOver (front ++ gap)

/-- `front` holds the tokens of these expressions. A gap stands behind it, and then the text ends,
    maybe in a comment that is left open. -/
structure HoldsProgram (xs : List Sexp) (tokens : List Token) (front gap trail : List Char) :
    Prop where
  flattens : Sexp.FlattensAll xs tokens
  layout : Layout tokens front (ofChars (gap ++ trail))
  gap : Gap.Spelled gap
  trail : Gap.Trails trail

namespace GoesWrong

theorem offends {t : Token} {expected : List Kind}
    (h : GoesWrong tokens (.unexpectedToken t expected) behind) :
    Offends tokens t (.unexpectedToken t expected) := by
  cases h with
  | token hoffends => cases hoffends with
    | stray hdepth => exact .stray hdepth
    | ending hdepth => exact .ending hdepth
  | ending hoffends => cases hoffends with
    | ending hdepth => exact .ending hdepth

theorem digits_eq {digits : String} (h : GoesWrong tokens (.integerOverflow digits) behind) :
    ∃ more, behind = digits.toList ++ more ∧ EndsRun Char.isDigit (ofChars more) := by
  cases h with
  | @token t _ more hoffends _ hstop => cases hoffends with
    | large => exact ⟨more, rfl, hstop⟩
  | ending hoffends => cases hoffends

end GoesWrong

/-- **Every text goes wrong somewhere, or holds the tokens of a program**, whatever tokens stand in
    front of it. -/
theorem exists_ending (text : List Char) (hearlier : Sound earlier) :
    ∃ tokens front gap behind, text = front ++ gap ++ behind ∧
      Layout tokens front (ofChars (gap ++ behind)) ∧ Gap.LeadsTo gap behind ∧
      Sound (earlier ++ tokens) ∧
      (behind = [] ∧ depth (earlier ++ tokens) = 0 ∨
        ∃ cause, GoesWrong (earlier ++ tokens) cause behind) := by
  induction hlength : text.length using Nat.strong_induction_on generalizing text earlier with
  | _ n ih =>
  have hhere : Sound (earlier ++ []) := by rwa [List.append_nil]
  obtain ⟨gap, rest, rfl, hgap, htrail | ⟨c, more, rfl, hend⟩⟩ := Gap.exists_split text
  · refine ⟨[], [], gap ++ rest, [], by simp, .nil, .ending hgap htrail, hhere, ?_⟩
    by_cases hdepth : depth (earlier ++ []) = 0
    · exact Or.inl ⟨rfl, hdepth⟩
    · exact Or.inr ⟨_, .ending (.ending hdepth)⟩
  rcases Token.exists_spelling hend with ⟨t, behind, hspelled, ht, hstop⟩ | ⟨rfl, hbody⟩
  · rw [hspelled] at hlength ⊢
    by_cases hoffends : ∃ cause, Offends (earlier ++ []) t cause
    · obtain ⟨cause, hoffends⟩ := hoffends
      exact ⟨[], [], gap, _, rfl, .nil, .token hgap, hhere,
        Or.inr ⟨cause, .token hoffends ht hstop⟩⟩
    · -- the token joins those before it, and the search goes on in what is left
      rw [List.append_nil] at hoffends
      have hnext : Sound (earlier ++ [t]) :=
        sound_concat_iff.2 ⟨hearlier, fun cause hcause => hoffends ⟨cause, hcause⟩⟩
      have hless : behind.length < n := by
        have hspelling := List.length_pos_of_ne_nil (Token.spelling_ne_nil ht)
        simp only [List.length_append] at hlength
        omega
      obtain ⟨tokens, front, last, rest, rfl, hlayout, hleads, hsound, hrest⟩ :=
        ih _ hless behind hnext rfl
      rw [List.append_assoc earlier, List.singleton_append] at hsound hrest
      refine ⟨t :: tokens, gap ++ t.spelling ++ front, last, rest, by simp,
        .cons hgap ht ?_ hlayout, hleads, hsound, hrest⟩
      simpa [ofChars] using hstop
  · exact ⟨[], [], gap, _, rfl, .nil, .token hgap, hhere, Or.inr ⟨_, .string hbody⟩⟩

/-- **A text holds a program, or goes wrong somewhere.** -/
theorem exists_program_or_failure (start : Cursor) (text : List Char) :
    (∃ xs tokens front gap trail, text = front ++ gap ++ trail ∧
      HoldsProgram xs tokens front gap trail) ∨
    ∃ tokens front gap behind e, text = front ++ gap ++ behind ∧
      FailsAt start tokens front gap behind e := by
  obtain ⟨tokens, front, gap, behind, rfl, hlayout, hleads, hsound, hends⟩ :=
    exists_ending text sound_nil
  rw [List.nil_append] at hsound hends
  rcases hends with ⟨rfl, hdepth⟩ | ⟨cause, hwrong⟩
  · obtain ⟨blank, trail, rfl, hblank, htrail⟩ := hleads.exists_trails
    have hcompletable := completable_iff.2 ⟨hlayout.proper, hsound⟩
    obtain ⟨-, xs, hxs⟩ := (isProgram_iff hcompletable).2 hdepth
    rw [List.append_nil] at hlayout
    exact Or.inl ⟨xs, tokens, front, blank, trail, by simp, hxs, hlayout, hblank, htrail⟩
  · exact Or.inr ⟨tokens, front, gap, behind, ⟨cause, _⟩, rfl, hlayout, hleads, hsound, hwrong, rfl⟩

/-! ## How reading ends -/

namespace Reader

variable {reader middle after : Reader} {xs : List Sexp} {opened : OpenLists}

theorem results_of_end (h : reader.next = (.ok none, after)) : reader.results = ([], after) := by
  rw [results]
  split <;> simp_all

theorem results_of_reads (h : Reads reader xs after) :
    reader.results = (xs.map .ok ++ after.results.1, after.results.2) := by
  induction h with
  | nil => rfl
  | cons hnext _ ih => rw [results_of_some hnext, ih, List.map_cons, List.cons_append]

theorem assemble_of_opened (hopened : Opened opened tokens) (htakes : Takes reader tokens middle) :
    reader.assemble [] = middle.assemble opened := by
  -- from the outermost list inwards: the tokens before a list lead up to its parenthesis
  induction opened generalizing tokens middle with
  | nil =>
    obtain rfl := hopened
    obtain rfl := takes_nil_iff.1 htakes
    rfl
  | cons items outer ih =>
    obtain ⟨before, inner, rfl, houter, hitems⟩ := hopened
    obtain ⟨outside, hbefore, hrest⟩ := takes_append_iff.1 htakes
    obtain ⟨token, inside, htoken, hopening, -, hinner⟩ := takes_cons_iff.1 hrest
    rw [ih houter hbefore, assemble_eq_proceed htoken, hopening, step, proceed,
      assemble_of_flattensAll items.reverse [] outer hitems hinner]
    simp

/-- **Behind tokens that have been taken**, the expressions that they hold have been read, and the
    lists that they leave open are open. -/
theorem exists_between (hheld : Held xs opened tokens) (htakes : Takes reader tokens middle)
    (hdone : reader.done = false) :
    ∃ between, Reads reader xs between ∧ between.done = false ∧
      between.assemble [] = middle.assemble opened := by
  obtain ⟨first, inner, rfl, hxs, hopened⟩ := hheld
  obtain ⟨between, hfirst, hinner⟩ := takes_append_iff.1 htakes
  exact ⟨between, (reads_iff hdone).2 ⟨first, hfirst, hxs⟩, (done_of_takes hfirst).trans hdone,
    assemble_of_opened hopened hinner⟩

/-- **What goes wrong is told**, with its cause and its place. -/
theorem assemble_of_wrong (hheld : Held xs opened tokens) (hwrong : GoesWrong tokens cause behind)
    (hleads : Gap.LeadsTo gap behind) (hrest : reader.rest = ofChars (gap ++ behind)) :
    (reader.assemble opened).1 = .error ⟨cause, reader.cursor.advanceOver gap⟩ := by
  cases hwrong with
  | @token t _ more hoffends ht hstop =>
    have hgap := hleads.spelled (by simp [Token.spelling_ne_nil ht])
    have hsource : reader.rest = sized (fun _ => 1) (gap ++ t.spelling) ++ ofChars more := by
      rw [hrest, ofChars_eq_sized, ofChars_eq_sized, ← List.append_assoc, sized_append]
    rw [assemble_eq_proceed (token_eq_of_spelled hgap ht hstop hsource),
      (hheld.refused_iff fun _ => ht).2 hoffends]
    rfl
  | ending hoffends =>
    obtain ⟨blank, trail, rfl, hblank, htrail⟩ := hleads.exists_trails
    rw [List.append_nil] at hrest
    rw [assemble_eq_proceed (token_eq_of_trails hblank htrail hrest),
      (hheld.refused_iff fun hne => absurd rfl hne).2 hoffends]
    rfl
  | string hbody =>
    have hgap := hleads.spelled (by simp)
    rw [assemble_eq_error (token_eq_of_isUnclosed hgap hbody hrest)]

theorem results_of_failsAt (hdone : reader.done = false)
    (hrest : reader.rest = ofChars (front ++ gap ++ behind))
    (h : FailsAt reader.cursor tokens front gap behind e) :
    ∃ xs : List Sexp, reader.results.1 = xs.map .ok ++ [.error e] := by
  obtain ⟨xs, opened, hheld⟩ := exists_held h.layout.proper h.sound
  have hsource : reader.rest = sized (fun _ => 1) front ++ ofChars (gap ++ behind) := by
    rw [hrest, List.append_assoc, ofChars_eq_sized, ofChars_eq_sized, sized_append]
  obtain ⟨between, hreads, hfresh, hassemble⟩ :=
    exists_between hheld (takes_of_layout h.layout hsource) hdone
  have hmiddle : (reader.behind front (ofChars (gap ++ behind))
      (peeksBehind reader.peeked tokens)).rest = ofChars (gap ++ behind) := rfl
  have hwrong := assemble_of_wrong hheld h.wrong h.leads hmiddle
  have hnext : between.next.1 = .error e := by
    rw [next_fst hfresh, hassemble, hwrong, cursor_behind, ← Cursor.advanceOver_append,
      ← h.position]
  refine ⟨xs, ?_⟩
  rw [results_of_reads hreads, results_of_error hnext]

theorem results_of_trails (hdone : reader.done = false) (hgap : Gap.Spelled gap)
    (htrail : Gap.Trails trail) (hrest : reader.rest = ofChars (gap ++ trail)) :
    reader.results.1 = [] ∧ reader.results.2.unclosed = reader.unclosed ++
      (Gap.Mode.behind (reader.cursor.advanceOver gap) trail).unclosed := by
  have hend : reader.assemble [] = _ :=
    assemble_eq_proceed (token_eq_of_trails hgap htrail hrest)
  have hnext : reader.next = (.ok none, { (reader.assemble []).2 with done := true }) := by
    rw [next, if_neg (by simp [hdone]), hend]
    rfl
  rw [results_of_end hnext, hend]
  exact ⟨rfl, rfl⟩

/-- **Where a text holds a program, its expressions are read.** -/
theorem results_of_program (hdone : reader.done = false)
    (hrest : reader.rest = ofChars (front ++ gap ++ trail))
    (h : HoldsProgram xs tokens front gap trail) :
    reader.results.1 = xs.map .ok ∧ reader.results.2.unclosed = reader.unclosed ++
      (Gap.Mode.behind (reader.cursor.advanceOver (front ++ gap)) trail).unclosed := by
  have hsource : reader.rest = sized (fun _ => 1) front ++ ofChars (gap ++ trail) := by
    rw [hrest, List.append_assoc, ofChars_eq_sized, ofChars_eq_sized, sized_append]
  have hreads := (reads_iff hdone).2 ⟨tokens, takes_of_layout h.layout hsource, h.flattens⟩
  have hfresh : (reader.behind front (ofChars (gap ++ trail))
      (peeksBehind reader.peeked tokens)).done = false := hdone
  obtain ⟨hresults, hunclosed⟩ := results_of_trails hfresh h.gap h.trail rfl
  rw [results_of_reads hreads, hresults, hunclosed, List.append_nil, cursor_behind,
    ← Cursor.advanceOver_append]
  exact ⟨rfl, rfl⟩

theorem error_unique {xs ys : List Sexp} {e e' : Located SyntaxError}
    (h : (xs.map .ok ++ [.error e] : List (Except (Located SyntaxError) Sexp)) =
      ys.map .ok ++ [.error e']) : e = e' := by
  obtain ⟨-, hlast⟩ := List.append_inj' h rfl
  simpa using hlast

/-- **Reading ends in an error exactly where the text goes wrong.** -/
theorem results_eq_error_iff (hdone : reader.done = false) (hrest : reader.rest = ofChars text) :
    (∃ xs : List Sexp, reader.results.1 = xs.map .ok ++ [.error e]) ↔
      ∃ tokens front gap behind, text = front ++ gap ++ behind ∧
        FailsAt reader.cursor tokens front gap behind e := by
  constructor
  · rintro ⟨xs, hresults⟩
    rcases exists_program_or_failure reader.cursor text with
      ⟨ys, tokens, front, gap, trail, rfl, hholds⟩ |
      ⟨tokens, front, gap, behind, e', rfl, hfails⟩
    · obtain ⟨hread, -⟩ := results_of_program hdone hrest hholds
      have herror : .error e ∈ ys.map (Except.ok : Sexp → Except (Located SyntaxError) Sexp) := by
        simp [← hread, hresults]
      simp at herror
    · obtain ⟨ys, hread⟩ := results_of_failsAt hdone hrest hfails
      obtain rfl := error_unique (hresults.symm.trans hread)
      exact ⟨tokens, front, gap, behind, rfl, hfails⟩
  · rintro ⟨tokens, front, gap, behind, rfl, hfails⟩
    exact results_of_failsAt hdone hrest hfails

end Reader

/-! ## The first offence in a text -/

theorem parse_eq_error_iff {text : String} : parse text = .error e ↔
    ∃ xs : List Sexp, (Reader.ofText text).results.1 = xs.map .ok ++ [.error e] := by
  constructor
  · intro h
    obtain ⟨xs, -, -, hresults | ⟨e', hresults⟩⟩ := Reader.results_eq_or (Reader.ofText text)
    · rw [parse, hresults, mapM_ok] at h
      simp at h
    · rw [parse, hresults, mapM_error] at h
      obtain rfl := Except.error.inj h
      exact ⟨xs, hresults⟩
  · rintro ⟨xs, hresults⟩
    rw [parse, hresults, mapM_error]

/-- **A text is refused exactly where it goes wrong.** -/
theorem parse_eq_error_iff_failsAt {text : String} : parse text = .error e ↔
    ∃ tokens front gap behind, text.toList = front ++ gap ++ behind ∧
      FailsAt {} tokens front gap behind e :=
  parse_eq_error_iff.trans (Reader.results_eq_error_iff rfl rfl)

/-- **The first offence is reported, at its place.** The tokens before it do not offend, and it is
    a parenthesis that closes no list, a numeral out of range, a string literal that is left open,
    or the end of the input inside of a list. Where a token is unexpected, the tokens before it
    can be completed to a program, and with it they cannot. The kinds that are named are those of
    all the tokens that could have come instead, each of them once, and so not its own. A numeral
    out of range is told as it is written. -/
theorem first_offence_is_reported {text : String} (h : parse text = .error e) :
    ∃ tokens front gap behind middle, text.toList = front ++ gap ++ behind ∧
      (Reader.ofText text).Takes tokens middle ∧ middle.rest = ofChars (gap ++ behind) ∧
      FailsAt {} tokens front gap behind e ∧
      (∀ t expected, e.value = .unexpectedToken t expected →
        Completable tokens ∧ ¬ Viable tokens t ∧ expected.Nodup ∧
        (∀ kind, kind ∈ expected ↔ ∃ s, s.kind = kind ∧ Viable tokens s) ∧ t.kind ∉ expected) ∧
      ∀ digits, e.value = .integerOverflow digits →
        ∃ more, behind = digits.toList ++ more ∧ EndsRun Char.isDigit (ofChars more) := by
  obtain ⟨tokens, front, gap, behind, htext, hfails⟩ := parse_eq_error_iff_failsAt.1 h
  have hrest : (Reader.ofText text).rest = sized (fun _ => 1) front ++ ofChars (gap ++ behind) := by
    rw [Reader.ofText, htext, List.append_assoc, ofChars_eq_sized, ofChars_eq_sized, sized_append]
  refine ⟨tokens, front, gap, behind, _, htext, Reader.takes_of_layout hfails.layout hrest, rfl,
    hfails, ?_, ?_⟩
  · intro t expected hvalue
    have hcompletable := completable_iff.2 ⟨hfails.layout.proper, hfails.sound⟩
    have hwrong := hfails.wrong
    rw [hvalue] at hwrong
    have hoffends := hwrong.offends
    refine ⟨hcompletable, ?_, (nodup_expected hoffends).1, mem_expected_iff hcompletable hoffends,
      (nodup_expected hoffends).2⟩
    intro hviable
    exact ((viable_iff hcompletable).1 hviable).2 _ hoffends
  · intro digits hvalue
    have hwrong := hfails.wrong
    rw [hvalue] at hwrong
    exact hwrong.digits_eq

/-- A parenthesis that closes no list, behind one in a string literal and one in a comment. -/
theorem first_offence_is_reported_stray :
    let text := "(a 7) \")\" // )\n ) (99999999999999999999"
    let e : Located SyntaxError := ⟨.unexpectedToken .closing programKinds, ⟨1, 1⟩⟩
    parse text = .error e ∧ ∃ tokens front gap behind,
      text.toList = front ++ gap ++ behind ∧ FailsAt {} tokens front gap behind e ∧
      Completable tokens ∧ ¬ Viable tokens .closing ∧
      ∀ kind, kind ∈ programKinds ↔ ∃ s, s.kind = kind ∧ Viable tokens s := by
  intro text e
  have hparse : parse text = .error e := by decide +kernel
  obtain ⟨tokens, front, gap, behind, -, htext, -, -, hfails, hunexpected, -⟩ :=
    first_offence_is_reported hparse
  obtain ⟨hcompletable, hviable, -, hkinds, -⟩ := hunexpected _ _ rfl
  exact ⟨hparse, tokens, front, gap, behind, htext, hfails, hcompletable, hviable, hkinds⟩

end SmtDialogue
