/-
  Terms of the usual theories: truth, arithmetic and bit-vectors. Each function is applied
  to its arguments as it stands, except that conjunctions and disjunctions stay flat.

  * `Unary` and `Binary` list the functions of one and of two arguments;
  * `Term.and` and `Term.or` splice an operand that is a conjunction, or a disjunction, in
    its place (`Term.operands`).
-/
import SmtDialogue.Term.Basic

namespace SmtDialogue

/-- A function of one argument. -/
inductive Unary where
  | not
  | bvneg
  | bvnot
deriving DecidableEq, Repr

/-- A function of two arguments. -/
inductive Binary where
  | equals
  | implies
  | add
  | sub
  | mul
  | lt
  | gt
  | lte
  | gte
  | bvadd
  | bvsub
  | bvmul
  | bvurem
  | bvsrem
  | bvsmod
  | bvshl
  | bvlshr
  | bvashr
  | bvor
  | bvand
  | bvnand
  | bvnor
  | bvxnor
  | bvudiv
  | bvsdiv
deriving DecidableEq, Repr

/-- The name of a function of one argument. -/
def Unary.id : Unary → Identifier
  | not => "not"
  | bvneg => "bvneg"
  | bvnot => "bvnot"

/-- The name of a function of two arguments. -/
def Binary.id : Binary → Identifier
  | equals => "="
  | implies => "=>"
  | add => "+"
  | sub => "-"
  | mul => "*"
  | lt => "<"
  | gt => ">"
  | lte => "<="
  | gte => ">="
  | bvadd => "bvadd"
  | bvsub => "bvsub"
  | bvmul => "bvmul"
  | bvurem => "bvurem"
  | bvsrem => "bvsrem"
  | bvsmod => "bvsmod"
  | bvshl => "bvshl"
  | bvlshr => "bvlshr"
  | bvashr => "bvashr"
  | bvor => "bvor"
  | bvand => "bvand"
  | bvnand => "bvnand"
  | bvnor => "bvnor"
  | bvxnor => "bvxnor"
  | bvudiv => "bvudiv"
  | bvsdiv => "bvsdiv"

namespace Term

/-- A function applied to its argument. -/
def unary (f : Unary) (t : Term) : Term := app f.id [t]

/-- A function applied to its two arguments. -/
def binary (f : Binary) (t u : Term) : Term := app f.id [t, u]

/-- The terms are pairwise different. -/
def distinct (ts : List Term) : Term := app "distinct" ts

/-- The second term if the first one is true, else the third. -/
def ite (condition t u : Term) : Term := app "ite" [condition, t, u]

/-- What a term contributes to a chain of applications of `f`: its arguments if it is such
    an application, else the term itself. -/
def operands (f : Identifier) : Term → List Term
  | app g args => if g = f then args else [app g args]
  | t => [t]

/-- An application of the associative function `f`. -/
def chain (f : Identifier) (t u : Term) : Term :=
  app f (t.operands f ++ u.operands f)

/-- Both terms are true. -/
protected def and (t u : Term) : Term := chain "and" t u

/-- One of the terms is true. -/
protected def or (t u : Term) : Term := chain "or" t u

end Term

end SmtDialogue
