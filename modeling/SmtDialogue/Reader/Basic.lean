/-
  A reader takes tokens from a source, one at a time, and never more of the source
  than it has to: behind a parenthesis or a string literal it has not looked, and
  behind a word or a number it has looked at one character, which is still to be read.

  * `Reader.token` reads one token, `Reader.tokens` all of them;
  * `Reader.unread` is what the source will still give away;
  * `rest_lt_of_token`: a token before the end of the input shortens the rest.
-/
import SmtDialogue.SyntaxError
import SmtDialogue.Text.Quoted
import SmtDialogue.Token.Gap

namespace SmtDialogue

/-- A reader in the middle of its source. -/
structure Reader where
  /-- What is still to be read. -/
  rest : Source
  /-- The place of the next character to be read. -/
  cursor : Cursor := {}
  /-- The source has already given away the head of `rest`. -/
  peeked : Bool := false
  /-- The reader has met the end of the input or an error. -/
  done : Bool := false
  /-- The starts of the block comments found unclosed so far. -/
  unclosed : List Cursor := []
deriving DecidableEq, Repr

namespace Reader

/-- A reader over a text. -/
def ofText (text : String) : Reader :=
  { rest := Source.ofChars text.toList }

/-- What the source has not given away. -/
def unread (reader : Reader) : Source :=
  if reader.peeked then reader.rest.tail else reader.rest

/-- The units that `source` has given away to a reader over it. -/
def pulled (source : Source) (reader : Reader) : Nat :=
  Source.size source - Source.size reader.unread

/-- Skips the gap before the next token. -/
def skipGap (reader : Reader) : Reader :=
  let gap := Gap.skip .blank reader.cursor reader.rest
  { reader with
    rest := gap.rest, cursor := gap.cursor, peeked := false
    unclosed := reader.unclosed ++ gap.unclosed }

/-- Goes behind characters that have been read, up to `rest`. -/
def past (reader : Reader) (chars : List Char) (rest : Source) : Reader :=
  { reader with rest, cursor := reader.cursor.advanceOver chars, peeked := false }

/-- A token that ends only where something else begins is complete once the source has
    been asked for the next character. If the source fails there, the failure is all
    there is to tell. -/
def lookAhead (token : Located Token) (reader : Reader) :
    Except (Located SyntaxError) (Located Token) × Reader :=
  match reader.rest with
  | .failure message _ :: rest => (.error ⟨.io message, reader.cursor⟩, { reader with rest })
  | _ => (.ok token, { reader with peeked := true })

/-- Reads a string literal that starts at `start`, behind its opening quote. -/
def closeString (start : Cursor) (reader : Reader) :
    Except (Located SyntaxError) (Located Token) × Reader :=
  let (text, rest) := Source.quoted false reader.rest
  let reader := reader.past text rest
  match rest with
  | .char c _ :: rest => (.ok ⟨.string (String.ofList text), start⟩, reader.past [c] rest)
  | .failure message _ :: rest => (.error ⟨.io message, reader.cursor⟩, { reader with rest })
  | .stop :: rest => (.error ⟨.unterminatedString, start⟩, { reader with rest })
  | [] => (.error ⟨.unterminatedString, start⟩, reader)

/-- Reads the next token. -/
def token (reader : Reader) : Except (Located SyntaxError) (Located Token) × Reader :=
  let reader := reader.skipGap
  let start := reader.cursor
  match reader.rest with
  | .char c _ :: rest =>
    if c = '(' then (.ok ⟨.opening, start⟩, reader.past [c] rest)
    else if c = ')' then (.ok ⟨.closing, start⟩, reader.past [c] rest)
    else if c = '"' then (reader.past [c] rest).closeString start
    else if c.isDigit then
      let (digits, rest) := Source.run Char.isDigit rest
      (reader.past (c :: digits) rest).lookAhead ⟨.int (String.ofList (c :: digits)), start⟩
    else
      let (word, rest) := Source.run isWordChar rest
      (reader.past (c :: word) rest).lookAhead ⟨.ofWord c word, start⟩
  | _ => reader.lookAhead ⟨.endOfInput, start⟩

theorem length_rest_skipGap_le (reader : Reader) :
    reader.skipGap.rest.length ≤ reader.rest.length :=
  Gap.length_rest_skip_le .blank reader.cursor reader.rest

theorem length_rest_lookAhead_le (token : Located Token) (reader : Reader) :
    (reader.lookAhead token).2.rest.length ≤ reader.rest.length := by
  unfold lookAhead
  split <;> simp_all

theorem length_rest_closeString_le (start : Cursor) (reader : Reader) :
    (reader.closeString start).2.rest.length ≤ reader.rest.length := by
  have h := Source.length_quoted_le false reader.rest
  unfold closeString
  generalize Source.quoted false reader.rest = text at h
  obtain ⟨text, rest⟩ := text
  dsimp only at h ⊢
  split <;> simp_all [past] <;> omega

theorem value_of_lookAhead {token found : Located Token} {reader after : Reader}
    (h : reader.lookAhead token = (.ok found, after)) : found = token := by
  unfold lookAhead at h
  split at h <;> simp_all

/-- A token before the end of the input shortens what is still to be read. -/
theorem rest_lt_of_token {reader after : Reader} {token : Located Token}
    (h : reader.token = (.ok token, after)) (hne : token.value ≠ .endOfInput) :
    after.rest.length < reader.rest.length := by
  have hgap := length_rest_skipGap_le reader
  have hafter : after = reader.token.2 := by rw [h]
  unfold Reader.token at h hafter
  dsimp only at h hafter
  split at h <;> rename_i hrest <;> simp only [hrest] at hafter
  · simp only [hrest, List.length_cons] at hgap
    refine Nat.lt_of_le_of_lt ?_ hgap
    rw [hafter]
    repeat' split
    · exact Nat.le_refl _
    · exact Nat.le_refl _
    · exact length_rest_closeString_le _ _
    · exact Nat.le_trans (length_rest_lookAhead_le _ _) (Source.length_run_le _ _)
    · exact Nat.le_trans (length_rest_lookAhead_le _ _) (Source.length_run_le _ _)
  · exact absurd (by rw [value_of_lookAhead h]) hne

/-- Every token up to the end of the input or to the first error, each with the reader
    behind it. -/
def tokens (reader : Reader) : List (Except (Located SyntaxError) (Located Token) × Reader) :=
  match h : reader.token with
  | (.error e, after) => [(.error e, after)]
  | (.ok token, after) =>
    if hend : token.value = .endOfInput then [(.ok token, after)]
    else
      have := rest_lt_of_token h hend
      (.ok token, after) :: after.tokens
termination_by reader.rest.length

end Reader

end SmtDialogue
