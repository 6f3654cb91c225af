/-
  Places in a text: a line and a column, both counted from 0, and how they move
  over characters.

  Places are those of the library `source_span`, and its documented rules are
  relied on: a line feed starts the next line, a carriage return goes back to
  column 0, a tab goes to the next multiple of 8 columns, another control
  character takes no column, and any other character takes one, however wide it
  is shown.

  * `Cursor.advance` is the rule for one character, `Cursor.advanceOver` for a text;
  * `advanceOver_append`: moving over a text in two parts is moving over all of it;
  * `Located` ties a value to the place where it starts.
-/

namespace SmtDialogue

/-- A place in a text. -/
structure Cursor where
  line : Nat := 0
  column : Nat := 0
deriving DecidableEq, Repr

namespace Cursor

/-- Distance between two tab stops, as `source_span` sets them. -/
def tabWidth : Nat := 8

/-- Control characters are those of the general category Cc. -/
def isControl (c : Char) : Bool :=
  c.toNat < 0x20 || (0x7F ≤ c.toNat && c.toNat ≤ 0x9F)

/-- A line feed goes to the next line, a carriage return to the start of the
    line, and a tab to the next tab stop. Other control characters take no room,
    and all else takes one column. -/
def advance (place : Cursor) (c : Char) : Cursor :=
  if c = '\n' then ⟨place.line + 1, 0⟩
  else if c = '\r' then ⟨place.line, 0⟩
  else if c = '\t' then ⟨place.line, place.column / tabWidth * tabWidth + tabWidth⟩
  else if isControl c then place
  else ⟨place.line, place.column + 1⟩

/-- The place behind a text that starts at `place`. -/
def advanceOver (place : Cursor) (text : List Char) : Cursor :=
  text.foldl advance place

@[simp] theorem advanceOver_nil (place : Cursor) : place.advanceOver [] = place := rfl

@[simp] theorem advanceOver_cons (place : Cursor) (c : Char) (text : List Char) :
    place.advanceOver (c :: text) = (place.advance c).advanceOver text := rfl

theorem advanceOver_append (place : Cursor) (text more : List Char) :
    place.advanceOver (text ++ more) = (place.advanceOver text).advanceOver more :=
  List.foldl_append

example : (⟨0, 3⟩ : Cursor).advanceOver "\ta".toList = ⟨0, 9⟩ := by decide

example : (⟨0, 3⟩ : Cursor).advanceOver "\x1B\r\nb".toList = ⟨1, 1⟩ := by decide

/-- People count lines and columns from 1. -/
def label (place : Cursor) : String :=
  Nat.repr (place.line + 1) ++ ":" ++ Nat.repr (place.column + 1)

end Cursor

/-- A value and the place where it starts. -/
structure Located (α : Type) where
  value : α
  position : Cursor
deriving DecidableEq, Repr

/-- The text of a located value is the text of the value behind its place. -/
def Located.text {α : Type} (describe : α → String) (x : Located α) : String :=
  x.position.label ++ ": " ++ describe x.value

end SmtDialogue
