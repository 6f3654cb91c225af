/-
  Names of constants, functions and sorts. Two names are the same if their texts are, and
  names are ordered by the code points of their texts.
-/
import Std.Data.TreeSet

namespace SmtDialogue

/-- A name. -/
abbrev Identifier := String

/-- Names in order, each once. -/
def Identifier.sorted (names : List Identifier) : List Identifier :=
  (Std.TreeSet.ofList names compare).toList

end SmtDialogue
