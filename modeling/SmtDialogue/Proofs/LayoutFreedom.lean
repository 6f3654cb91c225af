/-
  The layout of a text is free: gaps may be put around its tokens wherever they do not change
  what a token is, and the tokens stay the same.

  * `Arranged`: tokens in a text, each as a message shows it, with gaps around them;
  * `layout_of_arranged`: no token goes on in the gap or the token behind it;
  * `parse_congr`: what is read of a text depends on its tokens only;
  * `layout_changes_no_token`: tokens are read in whatever way they are arranged, and a comment
    that is left open at the end is worth a warning.
-/
import SmtDialogue.Proofs.Coverage
import SmtDialogue.Proofs.Ending
import SmtDialogue.Proofs.Layout
import SmtDialogue.Session.Event

namespace SmtDialogue

open Source

variable {t next previous : Token} {tokens : List Token} {text gap trail more : List Char}

/-! ## Tokens of texts -/

namespace Token

/-- The token is one of those that some text is read as. -/
def IsRead (t : Token) : Prop :=
  ∃ (text : String) (token : Located Token) (after : Reader),
    (.ok token, after) ∈ (Reader.ofText text).tokens ∧ token.value = t

theorem proper_of_covers {place : Cursor} {token : Located Token} {after : Reader}
    {steps : List (Except (Located SyntaxError) (Located Token) × Reader)}
    (h : Reader.Covers place text steps) (hmem : (.ok token, after) ∈ steps) :
    token.value = .endOfInput ∨ token.value.Proper := by
  induction h with
  | token _ ht _ _ _ _ ih =>
    rcases List.mem_cons.1 hmem with heq | hmem
    · obtain ⟨hvalue, -⟩ := Prod.mk.inj heq
      obtain rfl := Except.ok.inj hvalue
      exact Or.inr ht
    · exact ih hmem
  | finish =>
    obtain ⟨hvalue, -⟩ := Prod.mk.inj (List.mem_singleton.1 hmem)
    obtain rfl := Except.ok.inj hvalue
    exact Or.inl rfl
  | unclosed => simp at hmem

/-- **The tokens of texts are the proper ones**, besides the end of the input. -/
theorem isRead_iff (hne : t ≠ .endOfInput) : t.IsRead ↔ t.Proper := by
  constructor
  · rintro ⟨text, token, after, hmem, rfl⟩
    have hcovers := Reader.covers_tokens (Reader.ofText text) rfl
    exact (proper_of_covers hcovers hmem).resolve_left hne
  · intro ht
    let reader := Reader.ofText (String.ofList t.spelling)
    have hend : EndsRun isWordChar [] := trivial
    have hrest : reader.rest = sized (fun _ => 1) ([] ++ t.spelling) ++ [] := by
      simp [reader, Reader.ofText, ofChars_eq_sized]
    have htoken := Reader.token_eq_of_spelled .nil ht (stopsBefore_of_endsRun hend) hrest
    refine ⟨String.ofList t.spelling, ⟨t, {}⟩, reader.behind ([] ++ t.spelling) [] t.peeks, ?_, rfl⟩
    rw [Reader.tokens_of_token htoken hne]
    exact List.mem_cons_self

theorem toList_display (hne : t ≠ .endOfInput) : t.display.toList = t.spelling := by
  cases t with
  | endOfInput => exact absurd rfl hne
  | opening | closing | int | string | symbol | keyword => simp [display, Token.text, spelling]

end Token

/-! ## Tokens with gaps around them -/

namespace Token

/-- The gap may stand behind the token: behind a word, a gap does not start with a comment. -/
def MayPrecede (t : Token) (gap : List Char) : Prop :=
  t.kind = .symbol ∨ t.kind = .keyword → ∀ c ∈ gap.head?, isBlank c

/-- The tokens need no gap between them. -/
def MayTouch (t next : Token) : Prop :=
  (t.kind = .opening ∨ t.kind = .closing ∨ next.kind = .opening ∨ next.kind = .closing) ∨
    t.kind = .string ∨ t.kind = .int ∧ next.kind ≠ .int

instance (t : Token) (gap : List Char) : Decidable (t.MayPrecede gap) :=
  decidable_of_iff (t.kind = .symbol ∨ t.kind = .keyword → gap.head?.all isBlank)
    (forall_congr' fun _ => Option.all_eq_true _ _)

instance (t next : Token) : Decidable (t.MayTouch next) :=
  inferInstanceAs (Decidable (_ ∨ _))

end Token

/-- The text holds these tokens, each as a message shows it, with a gap before each of them and one
    behind the last. The `previous` token stands in front of the text, `trail` behind it. -/
inductive Arranged (trail : List Char) : Option Token → List Token → List Char → Prop
  | last {previous : Option Token} {gap : List Char} : Gap.Spelled gap →
      (∀ s ∈ previous, s.MayPrecede (gap ++ trail)) → Arranged trail previous [] gap
  | token {previous : Option Token} {gap text : List Char} {t : Token} {tokens : List Token} :
      Gap.Spelled gap → (∀ s ∈ previous, s.MayPrecede gap ∧ (gap = [] → s.MayTouch t)) →
        Arranged trail (some t) tokens text →
        Arranged trail previous (t :: tokens) (gap ++ t.display.toList ++ text)

/-! ### No token goes on -/

theorem Gap.head_of_spelled (hgap : Spelled gap) (htrail : Trails trail) :
    ∀ c ∈ (gap ++ trail).head?, isBlank c ∨ c = '/' := by
  cases hgap with
  | nil => cases htrail <;> simp
  | blank hblank _ => simp [hblank]
  | line | block => simp

namespace Token

theorem stopsBefore_gap (hhead : ∀ c ∈ gap.head?, isBlank c ∨ c = '/') (h : t.MayPrecede gap) :
    t.StopsBefore (ofChars gap) := by
  have hword (hkind : t.kind = .symbol ∨ t.kind = .keyword) :
      EndsRun isWordChar (ofChars gap) := by
    have hblank := h hkind
    cases gap with
    | nil => trivial
    | cons c gap => exact fun hc => (isWordChar_iff.1 hc).2.2 (hblank c rfl)
  cases t with
  | endOfInput | opening | closing | string => trivial
  | symbol => exact hword (Or.inl rfl)
  | keyword => exact hword (Or.inr rfl)
  | int digits =>
    cases gap with
    | nil => trivial
    | cons c gap =>
      intro hdigit
      rcases hhead c rfl with hblank | rfl
      · exact not_isBlank_of_isDigit hdigit hblank
      · exact absurd hdigit (by decide)

theorem stopsBefore_token (hnext : next.Proper) (h : t.MayTouch next) :
    t.StopsBefore (ofChars (next.spelling ++ more)) := by
  cases t with
  | endOfInput | opening | closing | string => trivial
  | symbol | keyword =>
    -- only a parenthesis may touch a word
    cases next <;> simp_all [MayTouch, kind, spelling, StopsBefore, ofChars, EndsRun, isWordChar]
  | int digits =>
    cases next with
    | endOfInput => exact hnext.elim
    | int => simp [MayTouch, kind] at h
    | opening | closing | string | keyword => exact fun hdigit => absurd hdigit (by decide)
    | symbol name =>
      obtain ⟨c, word, hcons⟩ := List.exists_cons_of_ne_nil hnext.ne_nil
      rw [spelling, hcons]
      exact (hnext.head c (by simp [hcons])).1

end Token

/-- **No token goes on in what is arranged behind it**, so that the text holds the tokens, and a gap
    behind them. -/
theorem layout_of_arranged {previous : Option Token} (h : Arranged trail previous tokens text)
    (htrail : Gap.Trails trail) (htokens : ∀ t ∈ tokens, t ≠ .endOfInput ∧ t.Proper) :
    (∀ s ∈ previous, s.StopsBefore (ofChars (text ++ trail))) ∧
      ∃ body gap, text = body ++ gap ∧ Gap.Spelled gap ∧
        Layout tokens body (ofChars (gap ++ trail)) := by
  induction h with
  | @last previous gap hgap hprevious =>
    refine ⟨fun s hs => ?_, [], gap, rfl, hgap, .nil⟩
    exact Token.stopsBefore_gap (Gap.head_of_spelled hgap htrail) (hprevious s hs)
  | @token previous gap text t tokens hgap hprevious _ ih =>
    obtain ⟨hne, ht⟩ := htokens t List.mem_cons_self
    obtain ⟨hstop, body, last, rfl, hlast, hlayout⟩ :=
      ih fun s hs => htokens s (List.mem_cons_of_mem t hs)
    rw [Token.toList_display hne]
    constructor
    · intro s hs
      obtain ⟨hprecede, htouch⟩ := hprevious s hs
      cases gap with
      | nil =>
        rw [List.nil_append, List.append_assoc]
        exact Token.stopsBefore_token ht (htouch rfl)
      | cons c gap =>
        have hhead := Gap.head_of_spelled hgap .nil
        exact Token.stopsBefore_gap (by simpa using hhead) hprecede
    · refine ⟨gap ++ t.spelling ++ body, last, by simp, hlast, .cons hgap ht ?_ hlayout⟩
      have hrest := hstop t rfl
      simpa [ofChars] using hrest

/-! ## What is read depends on the tokens only -/

namespace Reader

variable {reader other after : Reader} {opened : Assembly.OpenLists} {x : Sexp}

theorem token_of_lexes (h : reader.Lexes tokens) (hother : other.Lexes tokens) :
    ∃ token after token' after', reader.token = (.ok token, after) ∧
      other.token = (.ok token', after') ∧ token.value = token'.value ∧
      (token.value ≠ .endOfInput → ∃ more, after.Lexes more ∧ after'.Lexes more) := by
  cases tokens with
  | nil =>
    obtain ⟨token, after, htoken, hend⟩ := lexes_nil_iff.1 h
    obtain ⟨token', after', htoken', hend'⟩ := lexes_nil_iff.1 hother
    exact ⟨token, after, token', after', htoken, htoken', hend.trans hend'.symm,
      fun hne => absurd hend hne⟩
  | cons value tokens =>
    obtain ⟨token, after, htoken, hvalue, -, hafter⟩ := lexes_cons_iff.1 h
    obtain ⟨token', after', htoken', hvalue', -, hafter'⟩ := lexes_cons_iff.1 hother
    exact ⟨token, after, token', after', htoken, htoken', hvalue.trans hvalue'.symm,
      fun _ => ⟨tokens, hafter, hafter'⟩⟩

theorem assemble_congr (opened : Assembly.OpenLists) (h : reader.Lexes tokens)
    (hother : other.Lexes tokens) :
    (reader.assemble opened).1.mapError Located.value =
        (other.assemble opened).1.mapError Located.value ∧
      ∀ x, (reader.assemble opened).1 = .ok (some x) →
        ∃ more, (reader.assemble opened).2.Lexes more ∧ (other.assemble opened).2.Lexes more := by
  induction hlength : reader.rest.length using Nat.strong_induction_on
    generalizing reader other tokens opened with
  | _ n ih =>
  obtain ⟨token, after, token', after', htoken, htoken', hvalue, hmore⟩ := token_of_lexes h hother
  rw [assemble_eq_proceed htoken, assemble_eq_proceed htoken', ← hvalue]
  cases hstep : Assembly.step opened token.value with
  | complete x =>
    obtain ⟨more, hafter, hafter'⟩ := hmore (Assembly.ne_endOfInput_of_complete hstep)
    exact ⟨rfl, fun _ _ => ⟨more, hafter, hafter'⟩⟩
  | pending opened' =>
    have hne : token.value ≠ .endOfInput := Assembly.ne_endOfInput_of_pending hstep
    have hless : after.rest.length < n := by
      rw [← hlength]
      exact rest_lt_of_token htoken hne
    obtain ⟨more, hafter, hafter'⟩ := hmore hne
    exact ih _ hless opened' hafter hafter' rfl
  | finished => exact ⟨rfl, fun x hx => by simp [proceed] at hx⟩
  | refused cause => exact ⟨rfl, fun x hx => by simp [proceed] at hx⟩

theorem results_congr (h : reader.Lexes tokens) (hother : other.Lexes tokens)
    (hdone : reader.done = false) (hdone' : other.done = false) :
    reader.results.1.map (Except.mapError Located.value) =
      other.results.1.map (Except.mapError Located.value) := by
  induction hlength : reader.rest.length using Nat.strong_induction_on
    generalizing reader other tokens with
  | _ n ih =>
  obtain ⟨hresult, hmore⟩ := assemble_congr [] h hother
  have hnext := next_fst hdone
  have hnext' := next_fst hdone'
  -- both calls fail, or reach the end, or read the same expression and go on alike
  rcases hread : reader.assemble [] with ⟨_ | _ | x, after⟩ <;>
    rcases hread' : other.assemble [] with ⟨_ | _ | y, after'⟩ <;>
    simp only [hread, hread', Except.mapError, Except.error.injEq, Except.ok.injEq, reduceCtorEq,
      Option.some.injEq] at hnext hnext' hresult hmore
  · rw [results_of_error hnext, results_of_error hnext', List.map_singleton, List.map_singleton]
    exact congrArg (fun cause => [Except.error cause]) hresult
  · rw [results_of_none hnext, results_of_none hnext']
  · subst hresult
    obtain ⟨more, hafter, hafter'⟩ := hmore x rfl
    have hsome : reader.next = (.ok (some x), after) := next_of_assemble hdone hread
    have hsome' : other.next = (.ok (some x), after') := next_of_assemble hdone' hread'
    have hless : after.rest.length < n := by
      rw [← hlength]
      exact rest_lt_of_next hsome
    rw [results_of_some hsome, results_of_some hsome', List.map_cons, List.map_cons,
      ih _ hless hafter hafter' (not_done_of_next hsome).2 (not_done_of_next hsome').2 rfl]

end Reader

theorem mapM_mapError {α ε ε' : Type} (f : ε → ε') (results : List (Except ε α)) :
    (results.mapM id).mapError f = (results.map (Except.mapError f)).mapM id := by
  induction results with
  | nil => rfl
  | cons result results ih =>
    cases result with
    | error e => rfl
    | ok x =>
      simp only [List.mapM_cons, List.map_cons, ← ih]
      cases results.mapM id <;> rfl

/-- **Texts with the same tokens are read alike**: as the same expressions, or not at all, and then
    for the same cause. -/
theorem parse_congr {text other : String} (h : (Reader.ofText text).Lexes tokens)
    (hother : (Reader.ofText other).Lexes tokens) :
    (parse text).mapError Located.value = (parse other).mapError Located.value := by
  rw [parse, parse, mapM_mapError, mapM_mapError, Reader.results_congr h hother rfl rfl]

/-! ## Arranged tokens are read -/

namespace Reader

variable {reader : Reader}

/-- What is logged while the tokens of a source are read. -/
def logged (reader : Reader) : List Event :=
  (reader.tokens.getLast?.elim [] fun step => step.2.unclosed).map .unclosedComment

theorem logged_of_takes {middle last : Reader} {token : Located Token}
    (h : Takes reader tokens middle) (htoken : middle.token = (.ok token, last))
    (hend : token.value = .endOfInput) : reader.logged = last.unclosed.map .unclosedComment := by
  obtain ⟨steps, hsteps⟩ := tokens_of_takes h
  rw [logged, hsteps, tokens_of_end htoken hend, List.getLast?_concat]
  rfl

/-- **Arranged tokens are read**, and nothing is logged but where a block comment is left open. -/
theorem lexes_of_arranged (hrest : reader.rest = ofChars (text ++ trail))
    (htokens : ∀ t ∈ tokens, t ≠ .endOfInput ∧ t.IsRead) (htrail : Gap.Trails trail)
    (h : Arranged trail none tokens text) :
    reader.Lexes tokens ∧ reader.logged = (reader.unclosed ++
      (Gap.Mode.behind (reader.cursor.advanceOver text) trail).unclosed).map .unclosedComment := by
  have hproper : ∀ t ∈ tokens, t ≠ .endOfInput ∧ t.Proper := fun t ht =>
    ⟨(htokens t ht).1, (Token.isRead_iff (htokens t ht).1).1 (htokens t ht).2⟩
  obtain ⟨-, body, gap, rfl, hgap, hlayout⟩ := layout_of_arranged h htrail hproper
  have hsource : reader.rest = sized (fun _ => 1) body ++ ofChars (gap ++ trail) := by
    rw [hrest, List.append_assoc, ofChars_eq_sized, sized_append]
    rfl
  have htakes := takes_of_layout hlayout hsource
  have hbehind : (reader.behind body (ofChars (gap ++ trail))
      (peeksBehind reader.peeked tokens)).rest = sized (fun _ => 1) (gap ++ trail) := rfl
  have hend := token_eq_of_trails hgap htrail hbehind
  constructor
  · have hlexes : reader.Lexes (tokens ++ []) :=
      (lexes_append_iff htakes).2 (lexes_nil_iff.2 ⟨_, _, hend, rfl⟩)
    rwa [List.append_nil] at hlexes
  · rw [logged_of_takes htakes hend rfl, Cursor.advanceOver_append]
    rfl

end Reader

theorem Gap.Trails.unclosed_eq (h : Trails trail) (start : Cursor) :
    (Mode.behind start trail).unclosed = if ['/', '*'] <+: trail then [start] else [] := by
  cases h with
  | nil => rfl
  | line => rfl
  | block => rfl

/-- **Layout changes no token.** However tokens are arranged, they are read, and then the input
    ends. Nothing is logged, unless the text ends in a block comment that is not closed: then there
    is one warning, which names its place. So texts with the same tokens are read alike. -/
theorem layout_changes_no_token {tokens : List Token} {text trail : List Char}
    (htokens : ∀ t ∈ tokens, t ≠ .endOfInput ∧ t.IsRead) (htrail : Gap.Trails trail)
    (h : Arranged trail none tokens text) :
    (∀ start : Cursor,
      let reader : Reader := { rest := ofChars (text ++ trail), cursor := start }
      let place := start.advanceOver text
      reader.Lexes tokens ∧ reader.logged.map (fun event => (event.level, event.message)) =
        if ['/', '*'] <+: trail then
          [(.warn, "unterminated block comment starting at " ++
            (Nat.repr (place.line + 1) ++ ":" ++ Nat.repr (place.column + 1)))]
        else []) ∧
    ∀ other otherTrail : List Char, Gap.Trails otherTrail →
      Arranged otherTrail none tokens other →
      (parse (String.ofList (text ++ trail))).mapError Located.value =
        (parse (String.ofList (other ++ otherTrail))).mapError Located.value := by
  constructor
  · intro start reader place
    have hrest : reader.rest = ofChars (text ++ trail) := rfl
    obtain ⟨hlexes, hlogged⟩ := Reader.lexes_of_arranged hrest htokens htrail h
    refine ⟨hlexes, ?_⟩
    rw [hlogged, htrail.unclosed_eq]
    split <;> rfl
  · intro other otherTrail hother harranged
    have hrest (chars : List Char) :
        (Reader.ofText (String.ofList chars)).rest = ofChars chars := by
      rw [Reader.ofText, String.toList_ofList]
    exact parse_congr (Reader.lexes_of_arranged (hrest _) htokens htrail h).1
      (Reader.lexes_of_arranged (hrest _) htokens hother harranged).1

/-- Slashes, stars and quotes meet at the ends of tokens. -/
theorem layout_changes_no_token_at_slashes :
    let tokens : List Token :=
      [.symbol "/", .opening, .int "12", .symbol "ab", .string "a\\\"b", .keyword "k", .closing]
    let reader := Reader.ofText "/(12ab\n/***/\"a\\\"b\" :k)/* x"
    reader.Lexes tokens ∧
      reader.logged.map (fun event => (event.level, event.message)) =
        [(.warn, "unterminated block comment starting at 2:16")] ∧
      (parse "/(12ab\n/***/\"a\\\"b\" :k)/* x").mapError Located.value =
        (parse "/ (12/**/ab \"a\\\"b\":k )//").mapError Located.value := by
  intro tokens reader
  have hproper : ∀ t ∈ tokens, t ≠ .endOfInput ∧ t.Proper := by decide
  have htokens : ∀ t ∈ tokens, t ≠ .endOfInput ∧ t.IsRead := fun t ht =>
    ⟨(hproper t ht).1, (Token.isRead_iff (hproper t ht).1).2 (hproper t ht).2⟩
  have hspace : Gap.Spelled [' '] := .blank (by decide) .nil
  have hstar : ¬ ['*', '/'] <:+: ['*'] := by decide
  have hstars : Gap.Spelled "\n/***/".toList := .blank (by decide) (.block hstar .nil)
  have hnone : ¬ ['*', '/'] <:+: ([] : List Char) := by decide
  have hempty : Gap.Spelled "/**/".toList := .block hnone .nil
  have htrail : Gap.Trails "/* x".toList := .block (by decide)
  have hother : Gap.Trails "//".toList := .line (by decide)
  have harranged : Arranged "/* x".toList none tokens "/(12ab\n/***/\"a\\\"b\" :k)".toList :=
    .token .nil (by simp) <| .token .nil (by decide) <| .token .nil (by decide) <|
      .token .nil (by decide) <| .token hstars (by decide) <| .token hspace (by decide) <|
      .token .nil (by decide) <| .last .nil (by decide)
  have hagain : Arranged "//".toList none tokens "/ (12/**/ab \"a\\\"b\":k )".toList :=
    .token .nil (by simp) <| .token hspace (by decide) <| .token .nil (by decide) <|
      .token hempty (by decide) <| .token hspace (by decide) <| .token .nil (by decide) <|
      .token hspace (by decide) <| .last .nil (by decide)
  have htext : String.ofList ("/(12ab\n/***/\"a\\\"b\" :k)".toList ++ "/* x".toList) =
      "/(12ab\n/***/\"a\\\"b\" :k)/* x" := by decide
  have hagaintext : String.ofList ("/ (12/**/ab \"a\\\"b\":k )".toList ++ "//".toList) =
      "/ (12/**/ab \"a\\\"b\":k )//" := by decide
  obtain ⟨hlexes, hparse⟩ := layout_changes_no_token htokens htrail harranged
  have halike := hparse _ _ hother hagain
  rw [htext, hagaintext] at halike
  exact ⟨(hlexes {}).1, (hlexes {}).2, halike⟩

end SmtDialogue
