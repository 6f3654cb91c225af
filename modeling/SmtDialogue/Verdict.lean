/-
  What a solver finds out about the assertions made so far.
-/

namespace SmtDialogue

/-- The answer to a satisfiability check. -/
inductive Verdict where
  | sat
  | unsat
  | unknown
deriving DecidableEq, Repr

namespace Verdict

/-- The symbol for a verdict. -/
def symbol : Verdict → String
  | sat => "sat"
  | unsat => "unsat"
  | unknown => "unknown"

/-- The verdict with the given symbol. -/
def ofSymbol? (name : String) : Option Verdict :=
  [sat, unsat, unknown].find? (·.symbol = name)

end Verdict

end SmtDialogue
