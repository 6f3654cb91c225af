/-
  Numerals in decimal.

  * `Digits.IsDecimal`: a run of digits denotes a number;
  * `value?_ten_eq_some_iff`: exactly the runs of decimal digits are read;
  * `isDecimal_repr`: what is written for a number denotes it.
-/
import Mathlib.Tactic.SplitIfs
import SmtDialogue.Text.Digits

namespace SmtDialogue.Digits

/-- A run of decimal digits for the number `n`, with any number of leading zeros. -/
def IsDecimal (run : List Char) (n : Nat) : Prop :=
  run ≠ [] ∧ (∀ c ∈ run, c.isDigit) ∧ Nat.ofDigitChars 10 run 0 = n

theorem digit?_ten_of_isDigit {c : Char} (h : c.isDigit) :
    digit? 10 c = some (c.toNat - '0'.toNat) := by
  obtain ⟨hlow, hhigh⟩ := Char.isDigit_iff_toNat.1 h
  have h0 : '0'.toNat = 48 := rfl
  have h9 : '9'.toNat = 57 := rfl
  simp only [digit?, h, if_true, Option.filter_some]
  rw [if_pos (by simp; omega)]

theorem digit?_ten_of_not_isDigit {c : Char} (h : ¬ c.isDigit) : digit? 10 c = none := by
  simp only [digit?, h, Bool.false_eq_true, if_false, Option.filter_eq_none_iff]
  intro value hvalue
  split_ifs at hvalue <;> simp_all <;> omega

theorem mapM_digit?_ten {run : List Char} (h : ∀ c ∈ run, c.isDigit) :
    run.mapM (digit? 10) = some (run.map fun c => c.toNat - '0'.toNat) := by
  induction run with
  | nil => rfl
  | cons c run ih =>
    rw [List.mapM_cons, digit?_ten_of_isDigit (h c (by simp)), ih fun d hd => h d (by simp [hd])]
    rfl

theorem mapM_digit?_eq_none {run : List Char} {c : Char} (hc : c ∈ run) (h : ¬ c.isDigit) :
    run.mapM (digit? 10) = none := by
  induction run with
  | nil => simp at hc
  | cons d run ih =>
    rw [List.mapM_cons]
    rcases List.mem_cons.1 hc with rfl | hc
    · rw [digit?_ten_of_not_isDigit h]
      rfl
    · rw [ih hc]
      cases digit? 10 d <;> rfl

theorem value?_ten_eq_some_iff {run : List Char} {n : Nat} :
    value? 10 run = some n ↔ IsDecimal run n := by
  by_cases hempty : run = []
  · simp [hempty, value?, IsDecimal]
  by_cases hdigits : ∀ c ∈ run, c.isDigit
  · have hfold : ofDigits 10 (run.map fun c => c.toNat - '0'.toNat) =
        Nat.ofDigitChars 10 run 0 := by
      rw [ofDigits, List.foldl_map, Nat.ofDigitChars_eq_foldl]
    simp only [value?, List.isEmpty_iff, hempty, if_false, mapM_digit?_ten hdigits,
      Option.map_some, hfold, Option.some.injEq, IsDecimal]
    exact ⟨fun h => ⟨hempty, hdigits, h⟩, fun h => h.2.2⟩
  · obtain ⟨c, hc, hdigit⟩ : ∃ c ∈ run, ¬ c.isDigit := by simpa using hdigits
    simp only [value?, List.isEmpty_iff, hempty, if_false, mapM_digit?_eq_none hc hdigit,
      Option.map_none, reduceCtorEq, false_iff]
    exact fun h => hdigit (h.2.1 c hc)

theorem isDecimal_repr (n : Nat) : IsDecimal n.repr.toList n := by
  rw [Nat.toList_repr]
  exact ⟨Nat.toDigits_ne_nil, fun c hc => Nat.isDigit_of_mem_toDigits (by decide) (by decide) hc,
    Nat.ofDigitChars_ten_toDigits⟩

end SmtDialogue.Digits
