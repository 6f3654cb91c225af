/-
  Tokens: what a text consists of besides blanks and comments.

  * `Token` and, without the texts, `Kind`;
  * `Token.display` and `Kind.display` are the words of error messages.
-/
import SmtDialogue.Text.Blank

namespace SmtDialogue

/-- Words end at blanks and parentheses only. -/
def isWordChar (c : Char) : Bool :=
  !(c = '(' || c = ')' || isBlank c)

/-- A token. -/
inductive Token where
  /-- Behind the last token of a text. -/
  | endOfInput
  | opening
  | closing
  /-- A run of decimal digits. -/
  | int (digits : String)
  /-- A string literal, without its quotes. -/
  | string (text : String)
  /-- A word that starts like nothing else here. -/
  | symbol (name : String)
  /-- An option name, without the colon before it. -/
  | keyword (name : String)
deriving DecidableEq, Repr

/-- What sort of token may stand at a place. -/
inductive Kind where
  | endOfInput
  | opening
  | closing
  | int
  | string
  | symbol
  | keyword
deriving DecidableEq, Repr

namespace Token

/-- The token that a word starting with `c` spells: an option name behind a colon, else
    a symbol. -/
def ofWord (c : Char) (word : List Char) : Token :=
  if c = ':' then keyword (String.ofList word) else symbol (String.ofList (c :: word))

/-- The kind of a token. -/
def kind : Token → Kind
  | endOfInput => .endOfInput
  | opening => .opening
  | closing => .closing
  | int _ => .int
  | string _ => .string
  | symbol _ => .symbol
  | keyword _ => .keyword

/-- The text that a token holds, its quotes and its colon left out. -/
def text : Token → String
  | endOfInput => ""
  | opening => "("
  | closing => ")"
  | int text | string text | symbol text | keyword text => text

/-- How a message shows a token. -/
def display : Token → String
  | endOfInput => "<end of file>"
  | string text => "\"" ++ text ++ "\""
  | keyword name => ":" ++ name
  | token => token.text

end Token

/-- How a message names the tokens of a kind. -/
def Kind.display : Kind → String
  | endOfInput => "<end of file>"
  | opening => "`('"
  | closing => "`)'"
  | int => "<integer>"
  | string => "<string>"
  | symbol => "<symbol>"
  | keyword => "<keyword>"

end SmtDialogue
