/-
  Literals of bit-vectors: the numbers and the widths that they tell.

  * `Digits.Denotes`: a run of digits denotes a number in some base, and `value?_eq_some_iff`: runs
    of any length are read exactly;
  * `Model.IsLiteral`: a name is a hexadecimal or binary literal, of a number and of a width;
    `bitLiteral?_eq_some_iff`, `bitLiteral?_eq_none_iff`: what is read as one, and what is not;
  * `Model.IsUnsigned`: the numbers in indexed identifiers.
-/
import Mathlib.Data.List.Forall2
import Mathlib.Data.Nat.Digits.Defs
import Mathlib.Tactic.IntervalCases
import SmtDialogue.Model
import SmtDialogue.Proofs.Numeral

namespace SmtDialogue

/-! ## Numbers -/

namespace Digits

variable {base d n : Nat} {c : Char} {run : List Char} {digits : List Nat}

/-- The character is the digit with this value. Those from ten on are letters of either case. -/
def IsDigit (base : Nat) (c : Char) (d : Nat) : Prop :=
  d < base ∧ ("0123456789abcdef".toList[d]? = some c ∨ "0123456789ABCDEF".toList[d]? = some c)

/-- The run of digits denotes the number, its last digit being the least significant one. -/
def Denotes (base : Nat) (run : List Char) (n : Nat) : Prop :=
  run ≠ [] ∧ ∃ digits, List.Forall₂ (IsDigit base) run digits ∧ Nat.ofDigits base digits.reverse = n

/-- The characters from one to another, by their distance from the first. -/
theorem exists_distance {first last : Char} (h : first ≤ c ∧ c ≤ last) :
    ∃ k, k ≤ last.toNat - first.toNat ∧ c = Char.ofNat (first.toNat + k) := by
  have hlow : first.toNat ≤ c.toNat := UInt32.le_iff_toNat_le.1 (Char.le_def.1 h.1)
  have hhigh : c.toNat ≤ last.toNat := UInt32.le_iff_toNat_le.1 (Char.le_def.1 h.2)
  obtain ⟨k, hk⟩ := Nat.exists_eq_add_of_le hlow
  refine ⟨k, by omega, ?_⟩
  rw [← hk, Char.ofNat_toNat]

theorem digit?_sixteen_eq_some_iff : digit? 16 c = some d ↔ IsDigit 16 c d := by
  constructor
  · intro h
    obtain ⟨h, hlt⟩ := Option.filter_eq_some_iff.1 h
    refine ⟨of_decide_eq_true hlt, ?_⟩
    split_ifs at h with hdigit hlower hupper
    · obtain ⟨hlow, hhigh⟩ := Char.isDigit_iff_toNat.1 hdigit
      obtain ⟨k, hk, rfl⟩ : ∃ k, k ≤ '9'.toNat - '0'.toNat ∧ c = Char.ofNat ('0'.toNat + k) :=
        exists_distance ⟨Char.le_def.2 (UInt32.le_iff_toNat_le.2 hlow),
          Char.le_def.2 (UInt32.le_iff_toNat_le.2 hhigh)⟩
      obtain rfl := Option.some.inj h
      have hten : k < 10 := Nat.lt_succ_of_le hk
      interval_cases k <;> exact Or.inl rfl
    · obtain ⟨k, hk, rfl⟩ := exists_distance hlower
      obtain rfl := Option.some.inj h
      have hsix : k < 6 := Nat.lt_succ_of_le hk
      interval_cases k <;> exact Or.inl rfl
    · obtain ⟨k, hk, rfl⟩ := exists_distance hupper
      obtain rfl := Option.some.inj h
      have hsix : k < 6 := Nat.lt_succ_of_le hk
      interval_cases k <;> exact Or.inr rfl
  · rintro ⟨hlt, h | h⟩
    · interval_cases d <;> (obtain rfl := Option.some.inj h; rfl)
    · interval_cases d <;> (obtain rfl := Option.some.inj h; rfl)

theorem digit?_eq_some_iff (hbase : base ≤ 16) : digit? base c = some d ↔ IsDigit base c d := by
  have hsixteen : digit? base c = some d ↔ d < base ∧ digit? 16 c = some d := by
    simp only [digit?, Option.filter_eq_some_iff, decide_eq_true_eq]
    constructor
    · rintro ⟨h, hlt⟩
      exact ⟨hlt, h, Nat.lt_of_lt_of_le hlt hbase⟩
    · rintro ⟨hlt, h, -⟩
      exact ⟨h, hlt⟩
  rw [hsixteen, digit?_sixteen_eq_some_iff]
  constructor
  · rintro ⟨hlt, -, h⟩
    exact ⟨hlt, h⟩
  · rintro ⟨hlt, h⟩
    exact ⟨hlt, Nat.lt_of_lt_of_le hlt hbase, h⟩

theorem mapM_digit?_eq_some_iff (hbase : base ≤ 16) :
    run.mapM (digit? base) = some digits ↔ List.Forall₂ (IsDigit base) run digits := by
  induction run generalizing digits with
  | nil => simp [eq_comm]
  | cons c run ih =>
    rw [List.mapM_cons, List.forall₂_cons_left_iff]
    constructor
    · intro h
      obtain ⟨d, hd, h⟩ := Option.bind_eq_some_iff.1 h
      obtain ⟨ds, hds, h⟩ := Option.bind_eq_some_iff.1 h
      exact ⟨d, ds, (digit?_eq_some_iff hbase).1 hd, ih.1 hds, (Option.some.inj h).symm⟩
    · rintro ⟨d, ds, hd, hds, rfl⟩
      rw [(digit?_eq_some_iff hbase).2 hd, ih.2 hds]
      rfl

theorem ofDigits_eq (base : Nat) (digits : List Nat) :
    ofDigits base digits = Nat.ofDigits base digits.reverse := by
  rw [Nat.ofDigits_eq_foldr, List.foldr_reverse]
  simp only [ofDigits, Nat.cast_id, Nat.add_comm]

/-- **A run of digits is read as the number that it denotes**, however long it is. -/
theorem value?_eq_some_iff (hbase : base ≤ 16) : value? base run = some n ↔ Denotes base run n := by
  by_cases hempty : run = []
  · simp [hempty, value?, Denotes]
  · simp only [value?, List.isEmpty_iff, hempty, if_false, Option.map_eq_some_iff,
      mapM_digit?_eq_some_iff hbase, ofDigits_eq]
    exact ⟨fun h => ⟨hempty, h⟩, fun h => h.2⟩

theorem lt_of_forall₂ (h : List.Forall₂ (IsDigit base) run digits) : ∀ d ∈ digits, d < base := by
  induction h with
  | nil => simp
  | cons hd _ ih =>
    rintro e (_ | ⟨_, he⟩)
    · exact hd.1
    · exact ih e he

theorem Denotes.lt_pow (hbase : 1 < base) (h : Denotes base run n) : n < base ^ run.length := by
  obtain ⟨-, digits, hdigits, rfl⟩ := h
  have hlt : ∀ d ∈ digits.reverse, d < base := by
    intro d hd
    exact lt_of_forall₂ hdigits d (List.mem_reverse.1 hd)
  have hlength : digits.reverse.length = run.length := by
    rw [List.length_reverse, hdigits.length_eq]
  rw [← hlength]
  exact Nat.ofDigits_lt_base_pow_length hbase hlt

end Digits

namespace Model

open Digits

variable {name : String} {run : List Char} {n k : Nat} {word : UInt64}

/-! ## Literals -/

/-- The name is a hexadecimal or binary literal, of a number, and of as many bits as its digits
    stand for. -/
inductive IsLiteral (name : String) : Nat → Nat → Prop
  | hexadecimal {run : List Char} {n : Nat} : name.toList = '#' :: 'x' :: run → Denotes 16 run n →
      IsLiteral name n (4 * run.length)
  | binary {run : List Char} {n : Nat} : name.toList = '#' :: 'b' :: run → Denotes 2 run n →
      IsLiteral name n run.length

theorem bitLiteral?_eq_some_iff : bitLiteral? name.toList = some (n, k) ↔ IsLiteral name n k := by
  constructor
  · intro h
    unfold bitLiteral? at h
    split at h
    · rename_i run hname
      obtain ⟨m, hm, h⟩ := Option.map_eq_some_iff.1 h
      obtain ⟨rfl, rfl⟩ := Prod.mk.inj h
      exact .hexadecimal hname ((value?_eq_some_iff (Nat.le_refl 16)).1 hm)
    · rename_i run hname
      obtain ⟨m, hm, h⟩ := Option.map_eq_some_iff.1 h
      obtain ⟨rfl, rfl⟩ := Prod.mk.inj h
      exact .binary hname ((value?_eq_some_iff (by omega)).1 hm)
    · cases h
  · rintro (⟨hname, hn⟩ | ⟨hname, hn⟩)
    · rw [hname, bitLiteral?, (value?_eq_some_iff (Nat.le_refl 16)).2 hn]
      rfl
    · rw [hname, bitLiteral?, (value?_eq_some_iff (by omega)).2 hn]
      rfl

theorem bitLiteral?_eq_none_iff :
    bitLiteral? name.toList = none ↔ ∀ n k, ¬ IsLiteral name n k := by
  rw [Option.eq_none_iff_forall_ne_some, Prod.forall]
  simp only [ne_eq, bitLiteral?_eq_some_iff]

theorem IsLiteral.unique {n' k' : Nat} (h : IsLiteral name n k) (h' : IsLiteral name n' k') :
    n = n' ∧ k = k' := by
  have heq := (bitLiteral?_eq_some_iff.2 h).symm.trans (bitLiteral?_eq_some_iff.2 h')
  exact Prod.mk.inj (Option.some.inj heq)

/-- **The number of a literal fits its width.** -/
theorem IsLiteral.lt_pow (h : IsLiteral name n k) : n < 2 ^ k := by
  cases h with
  | @hexadecimal run _ hname hn =>
    rw [Nat.pow_mul]
    exact hn.lt_pow (by omega)
  | binary hname hn => exact hn.lt_pow (by omega)

/-- Each digit of a literal stands for four bits at most, and two characters stand before them. -/
theorem IsLiteral.width_le (h : IsLiteral name n k) : k + 8 ≤ 4 * name.length := by
  rw [← String.length_toList]
  cases h with
  | hexadecimal hname hn =>
    rw [hname]
    simp only [List.length_cons]
    omega
  | binary hname hn =>
    rw [hname]
    simp only [List.length_cons]
    omega

/-- The run of decimal digits, maybe behind a plus sign, denotes the number. -/
def IsUnsigned (run : List Char) (n : Nat) : Prop :=
  IsDecimal run n ∨ ∃ digits, run = '+' :: digits ∧ IsDecimal digits n

theorem digits?_eq_some_iff : unsigned?.digits? run = some word ↔ IsDecimal run word.toNat := by
  rw [unsigned?.digits?, Option.map_eq_some_iff]
  simp only [Option.filter_eq_some_iff, decide_eq_true_eq, value?_ten_eq_some_iff]
  constructor
  · rintro ⟨n, ⟨hn, hlt⟩, rfl⟩
    rwa [UInt64.toNat_ofNat_of_lt' hlt]
  · intro h
    exact ⟨word.toNat, ⟨h, word.toNat_lt⟩, UInt64.ofNat_toNat⟩

theorem unsigned?_eq_some_iff : unsigned? run = some word ↔ IsUnsigned run word.toNat := by
  unfold unsigned?
  split
  · rename_i digits
    have hsign : ¬ IsDecimal ('+' :: digits) word.toNat := by
      rintro ⟨-, hdigits, -⟩
      exact absurd (hdigits '+' List.mem_cons_self) (by decide)
    simp [IsUnsigned, hsign, digits?_eq_some_iff]
  · rename_i hsign
    rw [digits?_eq_some_iff]
    refine ⟨Or.inl, ?_⟩
    rintro (h | ⟨digits, rfl, -⟩)
    · exact h
    · exact (hsign digits rfl).elim

theorem indexed?_eq_some_iff : indexed? name.toList = some word ↔
    ∃ run, name.toList = 'b' :: 'v' :: run ∧ IsUnsigned run word.toNat := by
  unfold indexed?
  split
  · rename_i run hname
    simp [hname, unsigned?_eq_some_iff]
  · rename_i hname
    constructor
    · intro h
      cases h
    · rintro ⟨run, hrun, -⟩
      exact (hname run hrun).elim

end Model

end SmtDialogue
