/-
  A text is covered by its tokens and the gaps between them.

  * `Token.exists_spelling`: where no gap goes on, a token is spelled, or a string literal is left
    open;
  * `token_eq_of_trails`, `token_eq_of_isUnclosed`: how reading tokens ends;
  * `Reader.Covers`: some steps account for a text from its first character to its last, each of
    them at its place;
  * `tokens_cover_text`: so do the steps in which a text is read.
-/
import SmtDialogue.Proofs.Reading
import SmtDialogue.Proofs.TokenText

namespace SmtDialogue

open Source

variable {size : Char → Nat} {text gap trail body : List Char} {reader : Reader}

/-- **Where no gap goes on, a token is spelled**, or a string literal is left open. -/
theorem Token.exists_spelling {c : Char} {more : List Char}
    (h : Gap.EndsAt (ofChars (c :: more))) :
    (∃ (t : Token) (behind : List Char), c :: more = t.spelling ++ behind ∧ t.Proper ∧
        t.StopsBefore (ofChars behind)) ∨
      c = '"' ∧ IsUnclosed false more := by
  by_cases hopen : c = '('
  · exact Or.inl ⟨opening, more, by rw [hopen]; rfl, trivial, trivial⟩
  by_cases hclose : c = ')'
  · exact Or.inl ⟨closing, more, by rw [hclose]; rfl, trivial, trivial⟩
  by_cases hquote : c = '"'
  · by_cases hclosed : ∃ body behind, more = body ++ '"' :: behind ∧ isQuotable false body
    · obtain ⟨body, behind, rfl, hbody⟩ := hclosed
      refine Or.inl ⟨string (String.ofList body), behind, ?_, ?_, trivial⟩
      · simp [hquote, spelling]
      · simpa [Proper] using hbody
    · exact Or.inr ⟨hquote, fun body behind hmore hbody => hclosed ⟨body, behind, hmore, hbody⟩⟩
  by_cases hdigit : c.isDigit = true
  · obtain ⟨digits, behind, rfl, hdigits, hend⟩ := exists_run Char.isDigit more
    refine Or.inl ⟨int (String.ofList (c :: digits)), behind, by simp [spelling], ?_, hend⟩
    simp only [Proper, String.toList_ofList]
    refine ⟨by simp, ?_⟩
    rintro d (_ | ⟨_, hd⟩)
    · exact hdigit
    · exact hdigits d hd
  · obtain ⟨word, behind, rfl, hword, hend⟩ := exists_run isWordChar more
    by_cases hcolon : c = ':'
    · refine Or.inl ⟨keyword (String.ofList word), behind, by simp [hcolon, spelling], ?_, hend⟩
      simpa [Proper] using hword
    · refine Or.inl ⟨symbol (String.ofList (c :: word)), behind, by simp [spelling], ?_, hend⟩
      have hhere : Gap.EndsAt (.char c 1 :: (sized (fun _ => 1) (word ++ behind) ++ [])) := by
        rw [List.append_nil]
        exact h
      simpa [Proper] using
        Reader.isSymbolText_of_run hhere hopen hclose hquote hdigit hcolon hword

namespace Reader

/-! ## How reading tokens ends -/

theorem token_eq_of_trails (hgap : Gap.Spelled gap) (htrail : Gap.Trails trail)
    (hrest : reader.rest = sized size (gap ++ trail)) :
    reader.token = (.ok ⟨.endOfInput, reader.cursor.advanceOver (gap ++ trail)⟩,
      { reader.behind (gap ++ trail) [] true with
        unclosed := reader.unclosed ++
          (Gap.Mode.behind (reader.cursor.advanceOver gap) trail).unclosed }) := by
  have hskip : Gap.skip .blank reader.cursor reader.rest =
      ⟨[], reader.cursor.advanceOver (gap ++ trail),
        (Gap.Mode.behind (reader.cursor.advanceOver gap) trail).unclosed⟩ := by
    have htrails : Gap.skip .blank (reader.cursor.advanceOver gap) (sized size trail ++ []) = _ :=
      Gap.skip_trails htrail dry_nil.silent
    rw [List.append_nil] at htrails
    rw [hrest, sized_append, Gap.skip_append hgap, htrails, Gap.skip_nil,
      Cursor.advanceOver_append]
  unfold Reader.token skipGap lookAhead
  simp only [hskip]
  rfl

theorem token_eq_of_isUnclosed (hgap : Gap.Spelled gap) (hbody : IsUnclosed false body)
    (hrest : reader.rest = sized size (gap ++ '"' :: body)) :
    reader.token = (.error ⟨.unterminatedString, reader.cursor.advanceOver gap⟩,
      reader.behind (gap ++ '"' :: body) [] false) := by
  have hend : Gap.EndsAt (sized size ('"' :: body)) := ⟨by decide, by simp⟩
  have hskip : reader.skipGap = reader.behind gap (sized size ('"' :: body)) false :=
    skipGap_eq hgap hend (by rw [hrest, sized_append])
  have hquoted : quoted false (sized size body ++ []) = (body, []) :=
    quoted_of_isUnclosed hbody dry_nil.silent
  rw [List.append_nil] at hquoted
  unfold Reader.token closeString
  simp only [hskip, cursor_behind, rest_behind, sized_cons, past_eq_behind, hquoted,
    behind_behind]
  rw [if_neg (by decide), if_neg (by decide), if_pos trivial]
  simp

/-! ## Token by token -/

/-- The steps account for all of a text that starts at a place. Each token is spelled behind a gap,
    and does not go on behind its spelling; the last step is the end of the input, behind a gap that
    may end in an open comment, or a string literal that is left open. The places are those that the
    text in front of them leads to. -/
inductive Covers : Cursor → List Char →
    List (Except (Located SyntaxError) (Located Token) × Reader) → Prop
  | token {place : Cursor} {gap text : List Char} {t : Token} {after : Reader}
      {steps : List (Except (Located SyntaxError) (Located Token) × Reader)} :
      Gap.Spelled gap → t.Proper → t.StopsBefore (ofChars text) →
        after.rest = ofChars text → after.cursor = place.advanceOver (gap ++ t.spelling) →
        Covers (place.advanceOver (gap ++ t.spelling)) text steps →
        Covers place (gap ++ t.spelling ++ text) ((.ok ⟨t, place.advanceOver gap⟩, after) :: steps)
  | finish {place : Cursor} {gap trail : List Char} {after : Reader} :
      Gap.Spelled gap → Gap.Trails trail →
        after.rest = [] → after.cursor = place.advanceOver (gap ++ trail) →
        Covers place (gap ++ trail)
          [(.ok ⟨.endOfInput, place.advanceOver (gap ++ trail)⟩, after)]
  | unclosed {place : Cursor} {gap body : List Char} {after : Reader} :
      Gap.Spelled gap → IsUnclosed false body →
        after.rest = [] → after.cursor = place.advanceOver (gap ++ '"' :: body) →
        Covers place (gap ++ '"' :: body)
          [(.error ⟨.unterminatedString, place.advanceOver gap⟩, after)]

theorem covers_tokens (reader : Reader) (hrest : reader.rest = ofChars text) :
    Covers reader.cursor text reader.tokens := by
  -- one gap and one token at a time, so that what is left is shorter
  induction hlength : text.length using Nat.strong_induction_on generalizing reader text with
  | _ n ih =>
  obtain ⟨gap, rest, rfl, hgap, htrail | ⟨c, more, rfl, hend⟩⟩ := Gap.exists_split text
  · rw [tokens_of_end (token_eq_of_trails hgap htrail hrest) rfl]
    exact .finish hgap htrail rfl rfl
  rcases Token.exists_spelling hend with ⟨t, behind, hspelled, ht, hstop⟩ | ⟨rfl, hbody⟩
  · rw [hspelled, ← List.append_assoc] at hrest hlength ⊢
    have hsource : reader.rest = sized (fun _ => 1) (gap ++ t.spelling) ++ ofChars behind := by
      rw [hrest, ofChars_eq_sized, ofChars_eq_sized, sized_append]
    have hne : t ≠ .endOfInput := by
      rintro rfl
      exact ht
    have hless : behind.length < n := by
      have hspelling := List.length_pos_of_ne_nil (Token.spelling_ne_nil ht)
      simp only [List.length_append] at hlength
      omega
    have hmore := ih behind.length hless
      (reader.behind (gap ++ t.spelling) (ofChars behind) t.peeks) rfl rfl
    rw [tokens_of_token (token_eq_of_spelled hgap ht hstop hsource) hne]
    exact .token hgap ht hstop rfl rfl hmore
  · rw [tokens_of_error (token_eq_of_isUnclosed hgap hbody hrest)]
    exact .unclosed hgap hbody rfl rfl

/-- **A text is covered by the tokens that are read of it and the gaps between them**, from any
    place on. Nothing but blanks and comments is skipped, no character belongs to two tokens, and
    each token and the end of the input are found at their places. Reading fails only at a string
    literal that is left open, and there it does. -/
theorem tokens_cover_text (text : List Char) (start : Cursor) :
    Covers start text ({ rest := ofChars text, cursor := start } : Reader).tokens :=
  covers_tokens { rest := ofChars text, cursor := start } rfl

end Reader

end SmtDialogue
