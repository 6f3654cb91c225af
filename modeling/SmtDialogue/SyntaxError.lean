/-
  Why a text cannot be read.

  * `SyntaxError` lists the causes, `SyntaxError.message` words them;
  * a cause is lexical if no grammar of tokens is needed to see it.
-/
import SmtDialogue.Text.Cursor
import SmtDialogue.Token.Basic

namespace SmtDialogue

/-- A cause for which reading ends. -/
inductive SyntaxError where
  /-- The source failed. -/
  | io (message : String)
  /-- The input ended inside a string literal. -/
  | unterminatedString
  /-- A token that may not stand where it does, and the kinds that may. -/
  | unexpectedToken (found : Token) (expected : List Kind)
  /-- An integer literal that does not fit in 64 bits, as written. -/
  | integerOverflow (digits : String)
deriving DecidableEq, Repr

namespace SyntaxError

/-- The kinds that would have been right, if any are known. -/
def expectedText (expected : List Kind) : String :=
  if expected.isEmpty then ""
  else ", expected " ++ String.intercalate ", " (expected.map Kind.display)

/-- The wording of a cause. -/
def message : SyntaxError → String
  | io message => "io: " ++ message
  | unterminatedString => "unexpected end of file in string literal"
  | unexpectedToken found expected =>
    "unexpected token `" ++ found.display ++ "'" ++ expectedText expected
  | integerOverflow digits => "integer literal `" ++ digits ++ "' is out of range"

/-- The cause lies below the grammar. -/
def isLexical : SyntaxError → Bool
  | io _ | unterminatedString => true
  | unexpectedToken _ _ | integerOverflow _ => false

end SyntaxError

end SmtDialogue
