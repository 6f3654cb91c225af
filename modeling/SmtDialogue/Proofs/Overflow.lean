/-
  Well-formed texts in which numerals may have any number of digits.

  * `Balanced`: the tokens of some expressions, but for the range of the numerals in them;
  * `overflow?`: the first numeral that is out of range;
  * `flattensAll_of_balanced`: where there is none, these are the tokens of some expressions;
  * `next_of_overflow`, `parse_of_overflow`: a numeral out of range costs all of the list
    around it.
-/
import SmtDialogue.Proofs.RoundTrip

namespace SmtDialogue

open Assembly Sexp

/-! ## Numerals out of range -/

theorem Assembly.int?_eq_none_iff {digits : String} {k : Nat}
    (h : Digits.IsDecimal digits.toList k) : int? digits = none ↔ intLimit ≤ k := by
  rw [int?, Option.map_eq_none_iff, Digits.value?_ten_eq_some_iff.2 h]
  simp [Option.filter_some]

/-- The token is an atom, in range or not. -/
def Token.IsAtom : Token → Prop
  | int _ | string _ | symbol _ | keyword _ => True
  | endOfInput | opening | closing => False

/-- The digits of a numeral that is out of range. -/
def Token.overflow? : Token → Option String
  | int digits => if (int? digits).isNone then some digits else none
  | _ => none

/-- The first numeral that is out of range. -/
def overflow? (tokens : List Token) : Option String :=
  tokens.findSome? Token.overflow?

theorem overflow?_append (tokens more : List Token) :
    overflow? (tokens ++ more) = (overflow? tokens).or (overflow? more) :=
  List.findSome?_append

theorem overflow?_cons (t : Token) (tokens : List Token) :
    overflow? (t :: tokens) = t.overflow?.or (overflow? tokens) := by
  rw [overflow?, List.findSome?_cons]
  cases t.overflow? <;> rfl

theorem Token.IsAtom.cases {t : Token} (h : t.IsAtom) :
    (t.overflow? = none ∧ ∃ x, atom? t = some x) ∨
    ∃ digits, t = .int digits ∧ t.overflow? = some digits ∧ int? digits = none := by
  cases t with
  | int digits =>
    cases hint : int? digits with
    | some n => exact Or.inl ⟨by simp [overflow?, hint], .int n, by simp [atom?, hint]⟩
    | none => exact Or.inr ⟨digits, rfl, by simp [overflow?, hint], hint⟩
  | string | symbol | keyword => exact Or.inl ⟨rfl, _, rfl⟩
  | endOfInput | opening | closing => exact h.elim

/-! ## Well-formed tokens -/

/-- The tokens of some expressions, but for the range of the numerals. -/
inductive Balanced : List Token → Prop
  | nil : Balanced []
  | atom {t : Token} {tokens : List Token} : t.IsAtom → Balanced tokens → Balanced (t :: tokens)
  | list {inner tokens : List Token} : Balanced inner → Balanced tokens →
      Balanced (.opening :: (inner ++ .closing :: tokens))

variable {tokens inner : List Token} {digits : String} {reader after : Reader}

theorem Balanced.append {more : List Token} (h : Balanced tokens) (hmore : Balanced more) :
    Balanced (tokens ++ more) := by
  induction h with
  | nil => exact hmore
  | atom ht _ ih => exact .atom ht ih
  | list hinner _ _ ih =>
    rw [List.cons_append, List.append_assoc, List.cons_append]
    exact .list hinner ih

mutual
theorem balanced_of_flattens : (x : Sexp) → ∀ {tokens : List Token}, Flattens x tokens →
    Balanced tokens ∧ overflow? tokens = none
  | .list items, tokens, h => by
    obtain ⟨inner, rfl, hitems⟩ := h
    obtain ⟨hinner, hfit⟩ := balanced_of_flattensAll items hitems
    refine ⟨.list hinner .nil, ?_⟩
    rw [overflow?_cons, overflow?_append, hfit]
    rfl
  | .symbol _, tokens, h | .str _, tokens, h | .keyword _, tokens, h => by
    obtain rfl := h
    exact ⟨.atom trivial .nil, rfl⟩
  | .int n, tokens, h => by
    obtain ⟨digits, k, rfl, hk, hn⟩ := h
    refine ⟨.atom trivial .nil, ?_⟩
    rw [overflow?_cons, Token.overflow?, int?_eq_some_iff.2 ⟨k, hk, hn⟩]
    rfl
  | .bitVec _ _, tokens, h => h.elim

theorem balanced_of_flattensAll : (xs : List Sexp) → ∀ {tokens : List Token},
    FlattensAll xs tokens → Balanced tokens ∧ overflow? tokens = none
  | [], tokens, h => by
    obtain rfl := flattensAll_nil.1 h
    exact ⟨.nil, rfl⟩
  | x :: xs, tokens, h => by
    obtain ⟨first, others, rfl, hx, hxs⟩ := flattensAll_cons.1 h
    obtain ⟨hfirst, hfit⟩ := balanced_of_flattens x hx
    obtain ⟨hothers, hmore⟩ := balanced_of_flattensAll xs hxs
    exact ⟨hfirst.append hothers, by rw [overflow?_append, hfit, hmore, Option.none_or]⟩
end

/-- **Well-formed tokens with all numerals in range are the tokens of some expressions.** -/
theorem flattensAll_of_balanced (h : Balanced tokens) (hfit : overflow? tokens = none) :
    ∃ xs, FlattensAll xs tokens := by
  induction h with
  | nil => exact ⟨[], rfl⟩
  | @atom t tokens ht _ ih =>
    rw [overflow?_cons, Option.or_eq_none_iff] at hfit
    obtain ⟨xs, hxs⟩ := ih hfit.2
    rcases ht.cases with ⟨-, x, hx⟩ | ⟨digits, -, hover, -⟩
    · exact ⟨x :: xs, flattensAll_cons.2 ⟨[t], tokens, rfl, flattens_of_atom? hx, hxs⟩⟩
    · simp [hover] at hfit
  | @list inner tokens _ _ ihinner ih =>
    rw [overflow?_cons, overflow?_append, overflow?_cons] at hfit
    simp only [Token.overflow?, Option.none_or, Option.or_eq_none_iff] at hfit
    obtain ⟨items, hitems⟩ := ihinner hfit.1
    obtain ⟨xs, hxs⟩ := ih hfit.2
    exact ⟨.list items :: xs, flattensAll_cons.2
      ⟨.opening :: (inner ++ [.closing]), tokens, by simp, ⟨inner, rfl, hitems⟩, hxs⟩⟩

/-! ## What a numeral out of range costs -/

namespace Reader

/-- Reading comes to the numeral, whatever lists are open around it. -/
theorem assemble_of_overflow (h : Balanced tokens) (hover : overflow? tokens = some digits)
    (htakes : Takes reader tokens after) (items : List Sexp) (outer : OpenLists) :
    ∃ position left,
      reader.assemble (items :: outer) = (.error ⟨.integerOverflow digits, position⟩, left) := by
  -- what stands before the numeral is read, and what it is read into is left open
  induction h generalizing reader after items outer with
  | nil => simp [overflow?] at hover
  | @atom t tokens ht _ ih =>
    obtain ⟨token, middle, htoken, rfl, -, hmore⟩ := takes_cons_iff.1 htakes
    rw [overflow?_cons] at hover
    rcases ht.cases with ⟨hnone, x, hx⟩ | ⟨run, hrun, hsome, hint⟩
    · rw [hnone, Option.none_or] at hover
      rw [assemble_eq_proceed htoken, step_of_atom? hx]
      exact ih hover hmore (x :: items) outer
    · rw [hsome, Option.some_or] at hover
      obtain rfl := Option.some.inj hover
      refine ⟨token.position, middle, ?_⟩
      rw [assemble_eq_proceed htoken, hrun, step, hint]
      rfl
  | @list inner tokens hinner _ ihinner ih =>
    rw [overflow?_cons, overflow?_append, overflow?_cons] at hover
    simp only [Token.overflow?, Option.none_or] at hover
    cases hfit : overflow? inner with
    | some run =>
      rw [hfit, Option.some_or] at hover
      obtain rfl := Option.some.inj hover
      obtain ⟨first, inside, hfirst, hopening, -, hrest⟩ := takes_cons_iff.1 htakes
      obtain ⟨before, hbefore, -⟩ := takes_append_iff.1 hrest
      rw [assemble_eq_proceed hfirst, hopening, step, proceed]
      exact ihinner hfit hbefore [] (items :: outer)
    | none =>
      rw [hfit, Option.none_or] at hover
      -- the inner list can be read, and is one more item
      obtain ⟨xs, hxs⟩ := flattensAll_of_balanced hinner hfit
      have hlist : Flattens (.list xs) (.opening :: (inner ++ [.closing])) := ⟨inner, rfl, hxs⟩
      have hsplit : Takes reader ((.opening :: (inner ++ [.closing])) ++ tokens) after := by
        simpa using htakes
      obtain ⟨middle, hfirst, hmore⟩ := takes_append_iff.1 hsplit
      rw [assemble_of_flattens (.list xs) (items :: outer) {} hlist hfirst, place, proceed]
      exact ih hover hmore (.list xs :: items) outer

/-- **A numeral out of range costs the whole list around it**, and what comes behind. -/
theorem next_of_overflow (hdone : reader.done = false) (h : Balanced inner)
    (hover : overflow? inner = some digits)
    (htakes : Takes reader (.opening :: (inner ++ [.closing])) after) :
    ∃ (position : Cursor) (left : Reader),
      reader.next = (.error ⟨.integerOverflow digits, position⟩, { left with done := true }) := by
  obtain ⟨token, inside, htoken, hopening, -, hrest⟩ := takes_cons_iff.1 htakes
  obtain ⟨before, hinner, -⟩ := takes_append_iff.1 hrest
  obtain ⟨position, left, hassemble⟩ := assemble_of_overflow h hover hinner [] []
  refine ⟨position, left, ?_⟩
  rw [next, if_neg (by simp [hdone]), assemble_eq_proceed htoken, hopening, step, proceed,
    hassemble]

end Reader

theorem parse_of_overflow {text : String} (h : Balanced inner)
    (hover : overflow? inner = some digits)
    (hlayout : Layout (.opening :: (inner ++ [.closing])) text.toList []) :
    ∃ position, parse text = .error ⟨.integerOverflow digits, position⟩ := by
  have hrest : (Reader.ofText text).rest = Source.sized (fun _ => 1) text.toList ++ [] := by
    rw [List.append_nil]
    rfl
  obtain ⟨position, left, hnext⟩ :=
    Reader.next_of_overflow rfl h hover (Reader.takes_of_layout hlayout hrest)
  refine ⟨position, ?_⟩
  rw [parse, Reader.results_of_error (congrArg Prod.fst hnext)]
  rfl

end SmtDialogue
