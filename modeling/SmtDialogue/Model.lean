/-
  Models: the values that a solver gives to the constants.

  A reply to the request for a model is a list of definitions, with or without the symbol
  `model` before them. Kept are definitions of constants whose value is a literal or a
  constant. An entry that is none of these is skipped, so that it costs the rest of the
  model nothing.

  * `Model.ofReply?` reads a reply;
  * `Model.entry` reads one definition, `Model.value` the value in it.
-/
import Std.Data.TreeMap
import SmtDialogue.Term.Encoding
import SmtDialogue.Text.Digits

namespace SmtDialogue

/-- The value of each constant. -/
abbrev Model := Std.TreeMap Identifier Term

/-- Why an entry is skipped. -/
inductive EntryFault where
  /-- It is no list, or a list too short for a definition. -/
  | malformed
  | notDefinition
  | nameNotSymbol
  /-- What it defines is no constant, but a function. -/
  | hasParameters
  | unparsableValue (e : Unparsable)
deriving DecidableEq

/-- An entry that is skipped. -/
structure SkippedEntry where
  entry : Sexp
  fault : EntryFault
deriving DecidableEq

/-- The wording, which shows the entry and says what is wrong with it. -/
def SkippedEntry.message (skipped : SkippedEntry) : String :=
  let entry := "model entry `" ++ skipped.entry.render ++ "'"
  match skipped.fault with
  | .malformed => "skipping malformed " ++ entry
  | .notDefinition => "skipping " ++ entry ++ ": not a definition"
  | .nameNotSymbol => "skipping " ++ entry ++ ": name is not a symbol"
  | .hasParameters => "skipping " ++ entry ++ ": function with parameters"
  | .unparsableValue e => "skipping " ++ entry ++ ": " ++ e.message

/-- What a reply says: the model, and the entries that say nothing, in order. -/
structure ModelReading where
  model : Model := {}
  skipped : List SkippedEntry := []

namespace Model

/-! ## Values -/

/-- An unsigned 64-bit number in decimal, with an optional plus sign. -/
def unsigned? : List Char → Option UInt64
  | '+' :: run => digits? run
  | run => digits? run
where
  digits? (run : List Char) : Option UInt64 :=
    ((Digits.value? 10 run).filter (· < UInt64.size)).map UInt64.ofNat

/-- A hexadecimal or binary literal: the number it denotes, and its width, each digit
    standing for a fixed number of bits. -/
def bitLiteral? : List Char → Option (Nat × Nat)
  | '#' :: 'x' :: run => (Digits.value? 16 run).map (·, 4 * run.length)
  | '#' :: 'b' :: run => (Digits.value? 2 run).map (·, run.length)
  | _ => none

/-- The value in the indexed identifier `(_ bvN W)`. -/
def indexed? : List Char → Option UInt64
  | 'b' :: 'v' :: run => unsigned? run
  | _ => none

/-- The term that a value denotes. Besides atoms there are the negation of a numeral, the
    indexed identifier `(_ bvN W)`, and bit-vector literals of up to 64 significant
    bits. -/
def value (x : Sexp) : Except Unparsable Term :=
  match x with
  | .list [f, .int n] => if f.isSymbol "-" then .ok (.int (-n)) else .error ⟨x⟩
  | .list [f, .symbol name, .int width] =>
    match if f.isSymbol "_" then indexed? name.toList else none with
    | some n => .ok (.bitVec n width)
    | none => .error ⟨x⟩
  | .symbol name =>
    match bitLiteral? name.toList with
    | none => .ok (.const name)
    | some (n, width) =>
      if n < UInt64.size then .ok (.bitVec (UInt64.ofNat n) (Int64.ofNat width)) else .error ⟨x⟩
  | x => Term.ofSexp x

/-! ## Entries -/

/-- Reads `(define-fun name () sort value)`. What follows the value does not matter. -/
def entry (x : Sexp) : Except EntryFault (Identifier × Term) :=
  match x with
  | .list (keyword :: name :: params :: _ :: value :: _) =>
    if !keyword.isSymbol "define-fun" then .error .notDefinition
    else
      match name.symbol? with
      | none => .error .nameNotSymbol
      | some name =>
        if params.items? ≠ some [] then .error .hasParameters
        else
          match Model.value value with
          | .ok term => .ok (name, term)
          | .error e => .error (.unparsableValue e)
  | _ => .error .malformed

/-- The entries of a reply that is a model. -/
def entries? : Sexp → Option (List Sexp)
  | .list [] => some []
  | .list (.list items :: rest) => some (.list items :: rest)
  | .list (first :: rest) => if first.isSymbol "model" then some rest else none
  | _ => none

end Model

/-- Adds an entry: a later definition of a name takes the place of an earlier one. -/
def ModelReading.add (reading : ModelReading) (x : Sexp) : ModelReading :=
  match Model.entry x with
  | .ok (name, term) => { reading with model := reading.model.insert name term }
  | .error fault => { reading with skipped := reading.skipped ++ [⟨x, fault⟩] }

/-- Reads a reply. It may be no model at all. -/
def Model.ofReply? (reply : Sexp) : Option ModelReading :=
  (Model.entries? reply).map (·.foldl ModelReading.add {})

end SmtDialogue
