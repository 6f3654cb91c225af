/-
  The terms that the values in a model denote.

  * `Model.Means`: the term that a value denotes, and `value_eq_ok_iff`: values are read as these
    terms;
  * `definition_is_read_exactly`: a definition is read by what its value denotes, or skipped.
-/
import SmtDialogue.Proofs.BitLiteral
import SmtDialogue.Proofs.ModelReading
import SmtDialogue.Proofs.RoundTrip
import SmtDialogue.Proofs.WrittenForm

namespace SmtDialogue

namespace Model

open Digits

variable {x v : Sexp} {t : Term} {name : Identifier}

/-! ## Values -/

/-- The term that a value denotes. All numbers are exact, those of bit-vectors being words of 64
    bits, and a symbol that is no literal is a constant. -/
inductive Means : Sexp → Term → Prop
  | string {text : String} : Means (.str text) (.string text)
  | int {n : Int64} : Means (.int n) (.int n)
  | literal {name : String} {k : Nat} {word : UInt64} {width : Int64} :
      IsLiteral name word.toNat k → width.toInt = k → Means (.symbol name) (.bitVec word width)
  | const {name : String} : (∀ n k, ¬ IsLiteral name n k) → Means (.symbol name) (.const name)
  | indexed {name : String} {run : List Char} {word : UInt64} {width : Int64} :
      name.toList = 'b' :: 'v' :: run → IsUnsigned run word.toNat →
      Means (.list [.symbol "_", .symbol name, .int width]) (.bitVec word width)
  | negation {m n : Int64} : m.toInt = -n.toInt → Means (.list [.symbol "-", .int n]) (.int m)

theorem value_symbol_iff (hshort : name.length < 2 ^ 61) :
    value (.symbol name) = .ok t ↔ Means (.symbol name) t := by
  cases hliteral : bitLiteral? name.toList with
  | none =>
    have hno := bitLiteral?_eq_none_iff.1 hliteral
    simp only [value, hliteral, Except.ok.injEq]
    constructor
    · rintro rfl
      exact .const hno
    · rintro (_ | _ | ⟨hn, -⟩ | _)
      · exact (hno _ _ hn).elim
      · rfl
  | some literal =>
    obtain ⟨n, k⟩ := literal
    have hn : IsLiteral name n k := bitLiteral?_eq_some_iff.1 hliteral
    have hwidth : (Int64.ofNat k).toInt = k := by
      have hle := hn.width_le
      exact Int64.toInt_ofNat_of_lt (by omega)
    simp only [value, hliteral]
    constructor
    · intro h
      split_ifs at h with hfits
      obtain rfl := Except.ok.inj h
      refine .literal ?_ hwidth
      rwa [UInt64.toNat_ofNat_of_lt' hfits]
    · rintro (_ | _ | @⟨_, _, word, width, hword, hk⟩ | hno)
      · obtain ⟨rfl, rfl⟩ := hn.unique hword
        rw [if_pos word.toNat_lt, UInt64.ofNat_toNat, Int64.toInt_inj.1 (hwidth.trans hk.symm)]
      · exact (hno n k hn).elim

theorem toInt_neg_of_nonneg {n : Int64} (h : 0 ≤ n.toInt) : (-n).toInt = -n.toInt := by
  refine Int64.toInt_neg_of_minValue_lt (Int64.lt_iff_toInt_lt.2 ?_)
  rw [Int64.toInt_minValue]
  omega

/-- **A value is read as the term that it denotes.** -/
theorem value_eq_ok_iff (hv : v.Readable)
    (hshort : ∀ name, v = .symbol name → name.length < 2 ^ 61) : value v = .ok t ↔ Means v t := by
  constructor
  · intro h
    rw [value.eq_def] at h
    split at h
    · rename_i f n
      split at h
      · rename_i hf
        obtain ⟨-, hn, -⟩ := hv
        obtain rfl := Except.ok.inj h
        rw [Request.isSymbol_iff.1 hf]
        exact .negation (toInt_neg_of_nonneg hn)
      · cases h
    · rename_i f name width
      split at h
      · rename_i word hword
        split_ifs at hword with hf
        obtain ⟨run, hname, hrun⟩ := indexed?_eq_some_iff.1 hword
        obtain rfl := Except.ok.inj h
        rw [Request.isSymbol_iff.1 hf]
        exact .indexed hname hrun
      · cases h
    · rename_i name
      rw [← value_symbol_iff (hshort name rfl), value]
      exact h
    · rename_i hsymbol
      cases v with
      | list | keyword => cases h
      | symbol name => exact (hsymbol name rfl).elim
      | bitVec => exact hv.elim
      | str =>
        obtain rfl := Except.ok.inj h
        exact .string
      | int =>
        obtain rfl := Except.ok.inj h
        exact .int
  · intro h
    cases h with
    | string | int => rfl
    | literal hn hwidth => exact (value_symbol_iff (hshort _ rfl)).2 (.literal hn hwidth)
    | const hno => exact (value_symbol_iff (hshort _ rfl)).2 (.const hno)
    | @indexed name run word width hname hrun =>
      have hindex : (Sexp.symbol "_").isSymbol "_" = true := rfl
      simp only [value, hindex, if_true, indexed?_eq_some_iff.2 ⟨run, hname, hrun⟩]
    | @negation m n hm =>
      obtain ⟨-, hn, -⟩ := hv
      have hminus : (Sexp.symbol "-").isSymbol "-" = true := rfl
      rw [value, if_pos hminus, Int64.toInt_inj.1 ((toInt_neg_of_nonneg hn).trans hm.symm)]

theorem value_eq_error {e : Unparsable} (h : value v = .error e) : e = ⟨v⟩ := by
  rw [value.eq_def] at h
  split at h
  · split_ifs at h
    exact (Except.error.inj h).symm
  · split at h
    · cases h
    · exact (Except.error.inj h).symm
  · split at h
    · cases h
    · split_ifs at h
      exact (Except.error.inj h).symm
  · cases v with
    | list | keyword => exact (Except.error.inj h).symm
    | symbol | str | int | bitVec => cases h

/-- **A definition whose value is read from a text says what the value denotes**, whatever the size
    of the number, or is skipped if the value denotes no term. The number of a hexadecimal or binary
    literal is below the power of two that its width stands for. -/
theorem definition_is_read_exactly {name : Identifier} (hx : Defines x name v) (hv : v.Readable)
    (hshort : ∀ text, v = .symbol text → text.length < 2 ^ 61) :
    (∀ t, entry x = .ok (name, t) ↔ Means v t) ∧
    ((∀ t, ¬ Means v t) → entry x = .error (.unparsableValue ⟨v⟩)) ∧
    ∀ text word width, v = .symbol text → Means v (.bitVec word width) →
      word.toNat < 2 ^ width.toInt.toNat := by
  have hentry := entry_of_defines hx
  refine ⟨?_, ?_, ?_⟩
  · intro t
    rw [← value_eq_ok_iff hv hshort, hentry]
    cases value v <;> simp
  · intro hno
    cases hvalue : value v with
    | ok t => exact (hno t ((value_eq_ok_iff hv hshort).1 hvalue)).elim
    | error e => rw [hentry, hvalue, value_eq_error hvalue]
  · rintro text word width rfl hmeans
    cases hmeans with
    | literal hword hwidth =>
      rw [hwidth, Int.toNat_natCast]
      exact hword.lt_pow

/-- A literal of 72 bits is read if its number takes no more than 64, and skipped if it takes more.
    A plus sign may stand before the number of an indexed identifier. -/
theorem definition_is_read_exactly_wide :
    let define (v : Sexp) : Sexp :=
      .list [.symbol "define-fun", .symbol "a", .list [], .symbol "s", v]
    entry (define (.symbol "#x0000000000000000fF")) = .ok ("a", .bitVec 255 72) ∧
    entry (define (.symbol "#xff0000000000000000")) =
      .error (.unparsableValue ⟨.symbol "#xff0000000000000000"⟩) ∧
    entry (define (.list [.symbol "_", .symbol "bv+7", .int 3])) = .ok ("a", .bitVec 7 3) := by
  intro define
  have hdefines (v : Sexp) : Defines (define v) "a" v := ⟨_, _, rfl⟩
  refine ⟨?_, ?_, ?_⟩
  · have hn : IsLiteral "#x0000000000000000fF" 255 72 := bitLiteral?_eq_some_iff.1 (by decide)
    have hsymbol : IsSymbolText "#x0000000000000000fF".toList := by decide +kernel
    have hv : Sexp.Readable (.symbol "#x0000000000000000fF") := hsymbol
    refine ((definition_is_read_exactly (hdefines _) hv ?_).1 _).2 (.literal hn rfl)
    rintro _ ⟨rfl⟩
    decide
  · have hn : IsLiteral "#xff0000000000000000" (255 * 2 ^ 64) 72 :=
      bitLiteral?_eq_some_iff.1 (by decide)
    have hsymbol : IsSymbolText "#xff0000000000000000".toList := by decide +kernel
    have hv : Sexp.Readable (.symbol "#xff0000000000000000") := hsymbol
    refine (definition_is_read_exactly (hdefines _) hv ?_).2.1 ?_
    · rintro _ ⟨rfl⟩
      decide
    · rintro t (_ | _ | @⟨_, _, word, _, hword, -⟩ | hno)
      · obtain ⟨hvalue, -⟩ := hword.unique hn
        have hlt := word.toNat_lt
        omega
      · exact hno _ _ hn
  · have hindex : IsUnsigned ['+', '7'] 7 :=
      Or.inr ⟨['7'], rfl, value?_ten_eq_some_iff.1 (by decide)⟩
    have hunderscore : IsSymbolText "_".toList := by decide
    have hname : IsSymbolText "bv+7".toList := by decide
    have hwidth : 0 ≤ (3 : Int64).toInt := by decide
    have hv : Sexp.Readable (.list [.symbol "_", .symbol "bv+7", .int 3]) :=
      ⟨hunderscore, hname, hwidth, trivial⟩
    refine ((definition_is_read_exactly (hdefines _) hv ?_).1 _).2 (.indexed rfl hindex)
    rintro _ ⟨⟩

end Model

end SmtDialogue
