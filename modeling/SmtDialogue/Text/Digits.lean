/-
  Numbers written as runs of digits in a base from 2 to 16, most significant
  digit first.

  * `Digits.value?` reads a run: it is `none` for an empty run and for one with
    a character that is no digit of the base. Leading zeros change nothing, and
    a run may have any length.
-/

namespace SmtDialogue.Digits

/-- The value of a digit, the letters of either case standing for 10 to 15. -/
def digit? (base : Nat) (c : Char) : Option Nat :=
  let value? :=
    if c.isDigit then some (c.toNat - '0'.toNat)
    else if 'a' ≤ c ∧ c ≤ 'f' then some (c.toNat - 'a'.toNat + 10)
    else if 'A' ≤ c ∧ c ≤ 'F' then some (c.toNat - 'A'.toNat + 10)
    else none
  value?.filter (· < base)

/-- The number with the given digits. -/
def ofDigits (base : Nat) (digits : List Nat) : Nat :=
  digits.foldl (fun number digit => base * number + digit) 0

/-- The number written by a run of digits. -/
def value? (base : Nat) (run : List Char) : Option Nat :=
  if run.isEmpty then none else (run.mapM (digit? base)).map (ofDigits base)

example : value? 10 "007".toList = some 7 := by decide
example : value? 16 "fF".toList = some 255 := by decide
example : value? 2 "102".toList = none := by decide
example : value? 10 [] = none := rfl

end SmtDialogue.Digits
