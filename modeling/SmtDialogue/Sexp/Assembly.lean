/-
  Expressions made of tokens: one token at a time is added to the lists that are open,
  until an expression is complete.

  * `Assembly.step` is the grammar: a program is a sequence of expressions, and an
    expression is an atom or a sequence of expressions in parentheses;
  * `ne_endOfInput_of_pending`: nothing is left open at the end of the input.
-/
import SmtDialogue.Sexp.Basic
import SmtDialogue.SyntaxError
import SmtDialogue.Text.Digits

namespace SmtDialogue.Assembly

/-- The lists that are open, the innermost first, each with its items so far, the last
    one first. -/
abbrev OpenLists := List (List Sexp)

/-- The tokens that may stand between two expressions of a program. -/
def programKinds : List Kind :=
  [.opening, .int, .string, .symbol, .keyword, .endOfInput]

/-- The tokens that may stand inside a list. -/
def listKinds : List Kind :=
  [.opening, .closing, .int, .string, .symbol, .keyword]

/-- The tokens that may come next. -/
def expectedKinds (opened : OpenLists) : List Kind :=
  if opened.isEmpty then programKinds else listKinds

/-- What a token brings about. -/
inductive Step where
  /-- An expression outside of all lists is complete. -/
  | complete (x : Sexp)
  /-- These lists are open now. -/
  | pending (opened : OpenLists)
  /-- The program ends here. -/
  | finished
  /-- The token is wrong. -/
  | refused (cause : SyntaxError)

/-- An expression is complete: it is an item of the innermost list, if one is open. -/
def place (x : Sexp) : OpenLists → Step
  | [] => .complete x
  | items :: outer => .pending ((x :: items) :: outer)

/-- The first number that is too large for an integer, 2^63. -/
def intLimit : Nat := 0x8000000000000000

/-- The integer written by a run of decimal digits. -/
def int? (digits : String) : Option Int64 :=
  ((Digits.value? 10 digits.toList).filter (· < intLimit)).map Int64.ofNat

/-- Adds a token. -/
def step (opened : OpenLists) (token : Token) : Step :=
  match token, opened with
  | .opening, _ => .pending ([] :: opened)
  | .closing, items :: outer => place (.list items.reverse) outer
  | .int digits, _ =>
    match int? digits with
    | some n => place (.int n) opened
    | none => .refused (.integerOverflow digits)
  | .string text, _ => place (.str text) opened
  | .symbol name, _ => place (.symbol name) opened
  | .keyword name, _ => place (.keyword name) opened
  | .endOfInput, [] => .finished
  | .closing, [] | .endOfInput, _ :: _ =>
    .refused (.unexpectedToken token (expectedKinds opened))

theorem ne_endOfInput_of_pending {opened after : OpenLists} {token : Token}
    (h : step opened token = .pending after) : token ≠ .endOfInput := by
  rintro rfl
  cases opened <;> simp [step] at h

theorem ne_endOfInput_of_complete {opened : OpenLists} {token : Token} {x : Sexp}
    (h : step opened token = .complete x) : token ≠ .endOfInput := by
  rintro rfl
  cases opened <;> simp [step] at h

end SmtDialogue.Assembly
