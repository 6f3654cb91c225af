/-
  What a model says, entry by entry.

  * `Model.binding?`: the value that an entry gives to a name, and `Model.skipped?`: the
    entry, if it says nothing;
  * `ModelReading.Tells`: the last value given to each name, and the entries that say nothing;
  * `ofReply?_headed`, `ofReply?_unheaded`: this is what is read from a reply;
  * `Model.Unrepresentable`: the values of which there is no term, and
    `skipped?_of_unrepresentable`: they cost no more than their own entry.
-/
import Mathlib.Data.List.Induction
import SmtDialogue.Proofs.Answer

namespace SmtDialogue

namespace Model

/-! ## Entries -/

/-- The value that an entry gives to a name. -/
def binding? (name : Identifier) (x : Sexp) : Option Term :=
  match entry x with
  | .ok (found, term) => if found = name then some term else none
  | .error _ => none

/-- The entry, if it is skipped. -/
def skipped? (x : Sexp) : Option SkippedEntry :=
  match entry x with
  | .ok _ => none
  | .error fault => some ⟨x, fault⟩

/-- The entry defines the constant with this name by this value. -/
def Defines (x : Sexp) (name : Identifier) (v : Sexp) : Prop :=
  ∃ sort more, x =
    .list (.symbol "define-fun" :: .symbol name :: .list [] :: sort :: v :: more)

theorem entry_of_defines {x v : Sexp} {name : Identifier} (h : Defines x name v) :
    entry x = match value v with
      | .ok term => .ok (name, term)
      | .error e => .error (.unparsableValue e) := by
  obtain ⟨sort, more, rfl⟩ := h
  have hkeyword : (Sexp.symbol "define-fun").isSymbol "define-fun" = true := rfl
  simp only [entry, hkeyword, Sexp.symbol?, Sexp.items?]
  rfl

end Model

namespace ModelReading

open Model

/-- A reading tells what some entries say: of the values given to a name, the last one, and
    which entries say nothing, in order. -/
structure Tells (xs : List Sexp) (reading : ModelReading) : Prop where
  values : ∀ name : Identifier, reading.model[name]? = xs.reverse.findSome? (binding? name)
  skipped : reading.skipped = xs.filterMap skipped?

/-- **One more entry** says what it says, or is skipped. -/
theorem Tells.add {xs : List Sexp} {reading : ModelReading} (h : reading.Tells xs) (x : Sexp) :
    (reading.add x).Tells (xs ++ [x]) := by
  unfold ModelReading.add
  cases hentry : entry x with
  | error fault =>
    refine ⟨fun name => ?_, ?_⟩
    · simp [h.values, binding?, hentry]
    · simp [h.skipped, skipped?, hentry]
  | ok binding =>
    obtain ⟨found, term⟩ := binding
    refine ⟨fun name => ?_, ?_⟩
    · by_cases hname : found = name
      · simp [binding?, hentry, hname]
      · simp [binding?, hentry, hname, Std.TreeMap.getElem?_insert, h.values]
    · simp [h.skipped, skipped?, hentry]

/-- **A reading tells what all entries say.** -/
theorem tells_foldl (xs : List Sexp) : (xs.foldl ModelReading.add {}).Tells xs := by
  induction xs using List.reverseRecOn with
  | nil => exact ⟨fun name => rfl, rfl⟩
  | append_singleton xs x ih =>
    rw [List.foldl_append]
    exact ih.add x

end ModelReading

namespace Model

theorem ofReply?_headed (xs : List Sexp) :
    ∃ reading, ofReply? (.list (.symbol "model" :: xs)) = some reading ∧ reading.Tells xs :=
  ⟨_, rfl, ModelReading.tells_foldl xs⟩

theorem ofReply?_unheaded {xs : List Sexp} (h : ∀ x ∈ xs.head?, ∃ items, x = .list items) :
    ∃ reading, ofReply? (.list xs) = some reading ∧ reading.Tells xs := by
  cases xs with
  | nil => exact ⟨_, rfl, ModelReading.tells_foldl []⟩
  | cons x xs =>
    obtain ⟨items, rfl⟩ := h x rfl
    exact ⟨_, rfl, ModelReading.tells_foldl _⟩

/-! ## Values without a term -/

/-- Expressions that a solver gives as values, and of which there is no term: bit-vector
    values that take more than 64 bits, in any notation, and applications. -/
inductive Unrepresentable : Sexp → Prop
  | hexadecimal {name : String} {run : List Char} {n : Nat} : name.toList = '#' :: 'x' :: run →
      Digits.value? 16 run = some n → UInt64.size ≤ n → Unrepresentable (.symbol name)
  | binary {name : String} {run : List Char} {n : Nat} : name.toList = '#' :: 'b' :: run →
      Digits.value? 2 run = some n → UInt64.size ≤ n → Unrepresentable (.symbol name)
  | indexed {name : String} {run : List Char} {n : Nat} (width : Int64) :
      name.toList = 'b' :: 'v' :: run → Digits.value? 10 run = some n → UInt64.size ≤ n →
      Unrepresentable (.list [.symbol "_", .symbol name, .int width])
  | application {items : List Sexp} : (∀ n, items ≠ [.symbol "-", .int n]) →
      (∀ name width, items ≠ [.symbol "_", .symbol name, .int width]) →
      Unrepresentable (.list items)

theorem digits?_eq_none {run : List Char} {n : Nat} (hvalue : Digits.value? 10 run = some n)
    (hlarge : UInt64.size ≤ n) : unsigned?.digits? run = none := by
  rw [unsigned?.digits?, hvalue, Option.filter_some, if_neg (by simpa using hlarge)]
  rfl

theorem unsigned?_eq_none {run : List Char} {n : Nat} (hvalue : Digits.value? 10 run = some n)
    (hlarge : UInt64.size ≤ n) : unsigned? run = none := by
  unfold unsigned?
  split
  · rename_i more
    have hsign : Digits.value? 10 ('+' :: more) = none := by
      simp [Digits.value?, Digits.digit?]
    simp [hsign] at hvalue
  · exact digits?_eq_none hvalue hlarge

/-- **A value without a term is told as such.** -/
theorem value_of_unrepresentable {x : Sexp} (h : Unrepresentable x) : value x = .error ⟨x⟩ := by
  cases h with
  | hexadecimal hname hvalue hlarge | binary hname hvalue hlarge =>
    simp only [value, hname, bitLiteral?, hvalue, Option.map_some]
    rw [if_neg (Nat.not_lt.2 hlarge)]
  | indexed width hname hvalue hlarge =>
    have hindex : (Sexp.symbol "_").isSymbol "_" = true := rfl
    simp only [value, hindex, if_true, hname, indexed?, unsigned?_eq_none hvalue hlarge]
  | @application items hnegation hindexed =>
    rw [value.eq_def]
    split
    · rename_i f n hform
      obtain rfl := Sexp.list.inj hform
      rw [if_neg]
      intro hf
      exact hnegation n (by rw [Request.isSymbol_iff.1 hf])
    · rename_i f name width hform
      obtain rfl := Sexp.list.inj hform
      have hf : ¬ f.isSymbol "_" := by
        intro hf
        exact hindexed name width (by rw [Request.isSymbol_iff.1 hf])
      rw [if_neg hf]
    · rename_i hform
      simp at hform
    · rfl

/-- **A value without a term costs its own entry.** -/
theorem skipped?_of_unrepresentable {x v : Sexp} {name : Identifier} (hx : Defines x name v)
    (h : Unrepresentable v) : skipped? x = some ⟨x, .unparsableValue ⟨v⟩⟩ := by
  rw [skipped?, entry_of_defines hx, value_of_unrepresentable h]

end Model

end SmtDialogue
