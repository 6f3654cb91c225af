/-
  Terms. They are made by whoever talks to a solver, and literals and constants are also
  found in the solver's answers.

  * equality of terms is decidable.
-/
import SmtDialogue.Identifier

namespace SmtDialogue

/-- A term. -/
inductive Term where
  | string (text : String)
  | int (n : Int64)
  /-- An unsigned value of a fixed number of bits. -/
  | bitVec (value : UInt64) (width : Int64)
  | const (id : Identifier)
  | app (id : Identifier) (args : List Term)
  /-- A term with one name bound to a value. -/
  | letIn (id : Identifier) (value body : Term)

namespace Term

/-- The truth values are plain constants. -/
def bool (b : Bool) : Term :=
  const (if b then "true" else "false")

/-! ## Equality -/

mutual
/-- Compares two terms. -/
def eqb : Term → Term → Bool
  | string a, string b => a = b
  | int m, int n => m = n
  | bitVec v m, bitVec w n => v = w && m = n
  | const a, const b => a = b
  | app f ts, app g us => f = g && eqbArgs ts us
  | letIn x v b, letIn y w c => x = y && eqb v w && eqb b c
  | _, _ => false

/-- Compares the arguments of two applications one by one. -/
def eqbArgs : List Term → List Term → Bool
  | [], [] => true
  | t :: ts, u :: us => eqb t u && eqbArgs ts us
  | _, _ => false
end

mutual
theorem eqb_iff : (t u : Term) → (eqb t u = true ↔ t = u)
  | string _, u => by cases u <;> simp [eqb]
  | int _, u => by cases u <;> simp [eqb]
  | bitVec _ _, u => by cases u <;> simp [eqb]
  | const _, u => by cases u <;> simp [eqb]
  | app _ ts, u => by cases u <;> simp [eqb, eqbArgs_iff ts]
  | letIn _ v b, u => by cases u <;> simp [eqb, eqb_iff v, eqb_iff b, and_assoc]

theorem eqbArgs_iff : (ts us : List Term) → (eqbArgs ts us = true ↔ ts = us)
  | [], us => by cases us <;> simp [eqbArgs]
  | t :: ts, us => by cases us <;> simp [eqbArgs, eqb_iff t, eqbArgs_iff ts]
end

instance : DecidableEq Term :=
  fun t u => decidable_of_iff (eqb t u = true) (eqb_iff t u)

end Term

end SmtDialogue
