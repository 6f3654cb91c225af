/-
  Terms as S-expressions. Every term can be written, and what can be read back are
  literals and constants.

  * `Term.toSexp` encodes a term, `Term.ofSexp` decodes an atom.
-/
import SmtDialogue.Sexp.Printer
import SmtDialogue.Term.Basic

namespace SmtDialogue

namespace Term

mutual
/-- The expression that denotes a term. -/
def toSexp : Term → Sexp
  | string text => .str text
  | int n => .int n
  | bitVec value width => .bitVec value width
  | const id => .symbol id
  | app id args => .list (.symbol id :: toSexps args)
  | letIn id value body =>
    .list [.symbol "let", .list [.list [.symbol id, toSexp value]], toSexp body]

/-- The expressions of some terms. -/
def toSexps : List Term → List Sexp
  | [] => []
  | t :: ts => toSexp t :: toSexps ts
end

end Term

/-- An expression that is read as no term. -/
structure Unparsable where
  sexp : Sexp
deriving DecidableEq

/-- The wording, which shows the expression. -/
def Unparsable.message (e : Unparsable) : String :=
  "unparsable sexp `" ++ e.sexp.render ++ "'"

/-- The literal or constant that an expression denotes. Lists and option names denote
    none. -/
def Term.ofSexp : Sexp → Except Unparsable Term
  | .str text => .ok (.string text)
  | .int n => .ok (.int n)
  | .bitVec value width => .ok (.bitVec value width)
  | .symbol name => .ok (.const name)
  | x => .error ⟨x⟩

end SmtDialogue
