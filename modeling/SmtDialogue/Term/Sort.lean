/-
  Sorts, the types of terms, and how they are written as S-expressions.

  * `SortExpr.toSexp` encodes a sort: a bit-vector sort is the indexed identifier
    `(_ BitVec w)`.
-/
import SmtDialogue.Identifier
import SmtDialogue.Sexp.Basic

namespace SmtDialogue

/-- A sort. -/
inductive SortExpr where
  | name (id : Identifier)
  /-- A parametric sort, such as `(Array Int Bool)`. -/
  | app (id : Identifier) (args : List SortExpr)
  | bitVec (width : Int64)

namespace SortExpr

/-- The sort of integers. -/
def int : SortExpr := name "Int"

/-- The sort of truth values. -/
def bool : SortExpr := name "Bool"

mutual
/-- The expression that denotes a sort. -/
def toSexp : SortExpr → Sexp
  | name id => .symbol id
  | app id args => .list (.symbol id :: toSexps args)
  | bitVec width => .list [.symbol "_", .symbol "BitVec", .int width]

/-- The expressions of some sorts. -/
def toSexps : List SortExpr → List Sexp
  | [] => []
  | s :: ss => toSexp s :: toSexps ss
end

end SortExpr

end SmtDialogue
