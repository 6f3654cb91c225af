/-
  Where the error stands that ends the reading of a text.

  * `SyntaxError.StartsAt`: what a text starts with where an error stands;
  * `place_of_error`: the place of an error is where the text starts with what it is about;
  * `parse_of_stray`: a parenthesis that closes no list is such a place.
-/
import SmtDialogue.Proofs.FirstOffence

namespace SmtDialogue

open Source Assembly

variable {text front behind : List Char} {e : Located SyntaxError}

/-- The text starts with what the error is about, and ends there if this is the end of the input. -/
inductive SyntaxError.StartsAt : SyntaxError → List Char → Prop
  | string {body : List Char} : IsUnclosed false body → StartsAt .unterminatedString ('"' :: body)
  | token {t : Token} {expected : List Kind} {more : List Char} : t.Proper →
      StartsAt (.unexpectedToken t expected) (t.spelling ++ more)
  | ending {expected : List Kind} : StartsAt (.unexpectedToken .endOfInput expected) []
  | overflow {digits : String} {more : List Char} : (Token.int digits).Proper →
      StartsAt (.integerOverflow digits) (digits.toList ++ more)

theorem Token.head_spelling {t : Token} (ht : t.Proper) : ∀ c ∈ t.spelling.head?, ¬ isBlank c := by
  have hend : EndsRun isWordChar [] := trivial
  have hstarts : Gap.EndsAt (sized (fun _ => 1) t.spelling ++ []) :=
    Reader.endsAt_of_proper ht (stopsBefore_of_endsRun hend)
  intro c hc
  obtain ⟨more, hmore⟩ := List.head?_eq_some_iff.1 hc
  rw [hmore] at hstarts
  exact hstarts.1

theorem SyntaxError.StartsAt.head {cause : SyntaxError} (h : cause.StartsAt text) :
    ∀ c ∈ text.head?, ¬ isBlank c := by
  have htoken {t : Token} {more : List Char} (ht : t.Proper) :
      ∀ c ∈ (t.spelling ++ more).head?, ¬ isBlank c := by
    rw [List.head?_append_of_ne_nil _ (Token.spelling_ne_nil ht)]
    exact Token.head_spelling ht
  cases h with
  | string => simp; decide
  | token ht => exact htoken ht
  | ending => simp
  | overflow ht => exact htoken ht

theorem GoesWrong.startsAt {tokens : List Token} {cause : SyntaxError}
    (h : GoesWrong tokens cause behind) : cause.StartsAt behind := by
  cases h with
  | token hoffends ht => cases hoffends with
    | stray => exact .token ht
    | ending => exact ht.elim
    | large => exact .overflow ht
  | ending hoffends => cases hoffends with
    | ending => exact .ending
  | string hbody => exact .string hbody

/-- **The place of an error** is where the text starts with what the error is about. -/
theorem place_of_error {text : String} (h : parse text = .error e) :
    ∃ front behind, text.toList = front ++ behind ∧ e.position = Cursor.advanceOver {} front ∧
      e.value.StartsAt behind := by
  obtain ⟨tokens, front, gap, behind, htext, hfails⟩ := parse_eq_error_iff_failsAt.1 h
  exact ⟨front ++ gap, behind, htext, hfails.position, hfails.wrong.startsAt⟩

theorem parse_of_stray {gap : List Char} (hgap : Gap.Spelled gap) (more : List Char) :
    parse (String.ofList (gap ++ ')' :: more)) =
      .error ⟨.unexpectedToken .closing Assembly.programKinds, Cursor.advanceOver {} gap⟩ := by
  refine parse_eq_error_iff_failsAt.2 ⟨[], [], gap, ')' :: more, by simp, ?_⟩
  have hclosing : Token.closing.Proper := trivial
  exact ⟨.nil, .token hgap, sound_nil, .token (.stray rfl) hclosing trivial, rfl⟩

end SmtDialogue
