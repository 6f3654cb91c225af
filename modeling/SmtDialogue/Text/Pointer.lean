/-
  Pointing at a place in a text: a message, the line of the text it is about, and
  a caret under the place.

  * `Pointer.lineOf` finds the line of a place, `Pointer.text` shows it;
  * tabs are shown as `Pointer.tabWidth` spaces each, and the caret stands behind
    as many characters of the line as the place has columns. This width is no
    matter of tab stops, by which a cursor moves.
-/
import SmtDialogue.Text.Cursor

namespace SmtDialogue.Pointer

/-- The line with the given number, counted from 0 and split at line feeds only.
    It is empty behind the last line. -/
def lineOf : Nat → List Char → List Char
  | 0, text => text.takeWhile (· ≠ '\n')
  | _ + 1, [] => []
  | number + 1, c :: text => if c = '\n' then lineOf number text else lineOf (number + 1) text

/-- A line without the line feeds and carriage returns that end it. -/
def trimEnd (line : List Char) : List Char :=
  (line.reverse.dropWhile fun c => c = '\n' ∨ c = '\r').reverse

/-- The number of spaces that a tab is shown as. -/
def tabWidth : Nat := 8

/-- How a character of the line is shown. -/
def shown (c : Char) : List Char :=
  if c = '\t' then List.replicate tabWidth ' ' else [c]

/-- The room left of the caret. -/
def margin (column : Nat) (line : List Char) : Nat :=
  ((line.take column).flatMap shown).length

/-- Points at a place in the line that it belongs to. -/
def inLine (message : Located String) (line : List Char) : String :=
  let line := trimEnd line
  message.position.label ++ ": error: " ++ message.value ++ "\n"
    ++ String.ofList (line.flatMap shown) ++ "\n"
    ++ String.ofList (List.replicate (margin message.position.column line) ' ') ++ "^"

/-- Points at a place in a whole text. -/
def inText (message : Located String) (text : List Char) : String :=
  inLine message (lineOf message.position.line text)

example : inText ⟨"oops", ⟨1, 3⟩⟩ "(a)\n(a b))\r\n".toList = "2:4: error: oops\n(a b))\n   ^" := by
  decide +kernel

end SmtDialogue.Pointer
