/-
  The canonical text of an expression: the items of a list stand one space apart, and
  there are no line breaks.

  * `Sexp.text` says what the text is, part by part;
  * `Sexp.render` writes it in one pass from left to right, and is what messages and
    requests are made with. Its `Writer` carries the text so far and knows whether the
    next item needs a space before it.
-/
import SmtDialogue.Sexp.Basic

namespace SmtDialogue

namespace Sexp

/-- A number in decimal, with a minus sign if it is negative. -/
def decimal (n : Int) : String :=
  if n < 0 then "-" ++ Nat.repr n.natAbs else Nat.repr n.natAbs

/-- The text of a bit-vector value, an indexed identifier. -/
def bitVecText (value : UInt64) (width : Int64) : String :=
  "(_ bv" ++ Nat.repr value.toNat ++ " " ++ decimal width.toInt ++ ")"

/-! ## The text of an expression -/

mutual
/-- The canonical text. Numerals have no sign, so that a negative integer is written as
    the negation of a numeral. -/
def text : Sexp → String
  | list items => "(" ++ String.intercalate " " (texts items) ++ ")"
  | symbol name => name
  | str text => "\"" ++ text ++ "\""
  | keyword name => ":" ++ name
  | int n =>
    if n.toInt < 0 then "(- " ++ Nat.repr n.toInt.natAbs ++ ")" else Nat.repr n.toInt.natAbs
  | bitVec value width => bitVecText value width

/-- The canonical texts of some items. -/
def texts : List Sexp → List String
  | [] => []
  | x :: xs => text x :: texts xs
end

end Sexp

/-! ## Writing from left to right -/

/-- A text in the making. -/
structure Writer where
  out : String := ""
  /-- What comes next is the first item of its list, or of the text. -/
  fresh : Bool := true

namespace Writer

/-- Makes room for an item. -/
def separate (w : Writer) : Writer :=
  if w.fresh then { w with fresh := false } else { w with out := w.out ++ " " }

/-- Starts a list as the next item. -/
def openList (w : Writer) : Writer :=
  { out := w.separate.out ++ "(", fresh := true }

/-- Ends the innermost list. -/
def closeList (w : Writer) : Writer :=
  { out := w.out ++ ")", fresh := false }

/-- Writes a text as the next item. -/
def atom (text : String) (w : Writer) : Writer :=
  { w.separate with out := w.separate.out ++ text }

mutual
/-- Writes an expression as the next item. -/
def write (w : Writer) : Sexp → Writer
  | .list items => (writeItems w.openList items).closeList
  | .symbol name => w.atom name
  | .str text => w.atom ("\"" ++ text ++ "\"")
  | .keyword name => w.atom (":" ++ name)
  | .int n =>
    if n.toInt < 0 then ((w.openList.atom "-").atom (Nat.repr n.toInt.natAbs)).closeList
    else w.atom (Nat.repr n.toInt.natAbs)
  | .bitVec value width => w.atom (Sexp.bitVecText value width)

/-- Writes some items one after the other. -/
def writeItems (w : Writer) : List Sexp → Writer
  | [] => w
  | x :: xs => writeItems (write w x) xs
end

end Writer

/-- Writes the canonical text. -/
def Sexp.render (x : Sexp) : String :=
  (({} : Writer).write x).out

example : (Sexp.list [.list [], .list [.symbol "a", .keyword "k"]]).render = "(() (a :k))" := by
  decide +kernel

example : (Sexp.list [.int (-7), .bitVec 5 8, .str "a b"]).render =
    "((- 7) (_ bv5 8) \"a b\")" := by
  decide +kernel

end SmtDialogue
