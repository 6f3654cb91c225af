/-
  S-expressions, the form of everything that is said in a dialogue with a solver.

  Numerals are 64-bit words, as the solver's machine integers are. A text never holds a
  negative integer or a bit-vector value as such: they are written as lists, and a reader
  finds these lists.

  * `Sexp` with its views `symbol?`, `items?` and `head?`;
  * equality of expressions is decidable.
-/

namespace SmtDialogue

/-- An S-expression. -/
inductive Sexp where
  | list (items : List Sexp)
  | symbol (name : String)
  /-- A string literal, without its quotes. -/
  | str (text : String)
  /-- An option name, without the colon before it. -/
  | keyword (name : String)
  | int (n : Int64)
  /-- An unsigned value of a fixed number of bits. -/
  | bitVec (value : UInt64) (width : Int64)

namespace Sexp

/-- The name of a symbol. -/
def symbol? : Sexp → Option String
  | symbol name => some name
  | _ => none

/-- The items of a list. -/
def items? : Sexp → Option (List Sexp)
  | list items => some items
  | _ => none

/-- The symbol that a list starts with. -/
def head? (x : Sexp) : Option String :=
  x.items?.bind fun items => items.head?.bind symbol?

/-- The expression is the symbol with this name. -/
def isSymbol (name : String) (x : Sexp) : Bool :=
  x.symbol? = some name

/-! ## Equality -/

mutual
/-- Compares two expressions. -/
def eqb : Sexp → Sexp → Bool
  | list xs, list ys => eqbItems xs ys
  | symbol a, symbol b | str a, str b | keyword a, keyword b => a = b
  | int m, int n => m = n
  | bitVec v m, bitVec w n => v = w && m = n
  | _, _ => false

/-- Compares the items of two lists one by one. -/
def eqbItems : List Sexp → List Sexp → Bool
  | [], [] => true
  | x :: xs, y :: ys => eqb x y && eqbItems xs ys
  | _, _ => false
end

mutual
theorem eqb_iff : (x y : Sexp) → (eqb x y = true ↔ x = y)
  | list xs, y => by cases y <;> simp [eqb, eqbItems_iff xs]
  | symbol _, y => by cases y <;> simp [eqb]
  | str _, y => by cases y <;> simp [eqb]
  | keyword _, y => by cases y <;> simp [eqb]
  | int _, y => by cases y <;> simp [eqb]
  | bitVec _ _, y => by cases y <;> simp [eqb]

theorem eqbItems_iff : (xs ys : List Sexp) → (eqbItems xs ys = true ↔ xs = ys)
  | [], ys => by cases ys <;> simp [eqbItems]
  | x :: xs, ys => by cases ys <;> simp [eqbItems, eqb_iff x, eqbItems_iff xs]
end

instance : DecidableEq Sexp :=
  fun x y => decidable_of_iff (eqb x y = true) (eqb_iff x y)

end Sexp

end SmtDialogue
