/-
  Gaps: the blanks and comments between two tokens.

  A line comment runs from `//` up to the line feed that ends its line, a block
  comment from `/*` up to the first `*/` behind it. Block comments do not nest. One
  that is never closed takes the rest of the input, which is worth a warning and no
  error.

  * `Gap.skip` finds the gap at the head of a source;
  * `length_rest_skip_le`: what follows a gap is no longer than what it was cut from.
-/
import SmtDialogue.Text.Blank
import SmtDialogue.Text.Cursor
import SmtDialogue.Text.Source

namespace SmtDialogue

/-- Behind a gap: the source from there on, the place, and the places where a block
    comment starts that is never closed. -/
structure Gap where
  rest : Source
  cursor : Cursor
  unclosed : List Cursor
deriving DecidableEq, Repr

namespace Gap

/-- The gap in front of which a block comment was found unclosed. -/
def withUnclosed (gap : Gap) (start : Cursor) : Gap :=
  { gap with unclosed := start :: gap.unclosed }

@[simp] theorem rest_withUnclosed (gap : Gap) (start : Cursor) :
    (gap.withUnclosed start).rest = gap.rest := rfl

/-- Where in a gap a character stands. -/
inductive Mode where
  /-- Outside of comments. -/
  | blank
  /-- In a line comment. -/
  | line
  /-- In the block comment that starts at `start`. -/
  | block (start : Cursor)

/-- Skips blanks and comments from `place` on. It stops at a token, at a failure, and
    at an end of the source; only inside a block comment the source is asked again
    behind its end. -/
def skip : Mode → Cursor → Source → Gap
  | .blank, place, .char '/' _ :: .char '/' _ :: rest =>
    skip .line (place.advanceOver ['/', '/']) rest
  | .blank, place, .char '/' _ :: .char '*' _ :: rest =>
    skip (.block place) (place.advanceOver ['/', '*']) rest
  | .blank, place, .char c size :: rest =>
    if isBlank c then skip .blank (place.advance c) rest else ⟨.char c size :: rest, place, []⟩
  | .line, place, .char c _ :: rest =>
    skip (if c = '\n' then .blank else .line) (place.advance c) rest
  | .block _, place, .char '*' _ :: .char '/' _ :: rest =>
    skip .blank (place.advanceOver ['*', '/']) rest
  | .block start, place, .char c _ :: rest => skip (.block start) (place.advance c) rest
  | .block start, place, .stop :: rest =>
    (skip .blank place rest).withUnclosed start
  | .block start, place, [] => ⟨[], place, [start]⟩
  | _, place, rest => ⟨rest, place, []⟩

theorem length_rest_skip_le (mode : Mode) (place : Cursor) (source : Source) :
    (skip mode place source).rest.length ≤ source.length := by
  fun_induction skip mode place source <;> simp_all <;> omega

end Gap

end SmtDialogue
