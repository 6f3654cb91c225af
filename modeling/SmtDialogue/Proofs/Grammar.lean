/-
  The grammar of expressions, and that it is what is assembled from tokens.

  * `Sexp.Flattens`: the tokens of an expression, one after the other;
  * `flattensAll_unique`: no two sequences of expressions have the same tokens;
  * `Assembly.Opened`: the tokens that have been read when some lists are open;
  * `accounts_step`: what one more token brings about.
-/
import SmtDialogue.Proofs.Numeral
import SmtDialogue.Sexp.Assembly

namespace SmtDialogue

/-! ## Atoms -/

namespace Assembly

theorem int?_eq_some_iff {digits : String} {n : Int64} :
    int? digits = some n ↔ ∃ k, Digits.IsDecimal digits.toList k ∧ n.toInt = k := by
  have hlimit : intLimit = 2 ^ 63 := by decide
  simp only [int?, Option.map_eq_some_iff, Option.filter_eq_some_iff, Digits.value?_ten_eq_some_iff,
    decide_eq_true_eq, hlimit]
  constructor
  · rintro ⟨k, ⟨hk, hlt⟩, rfl⟩
    exact ⟨k, hk, Int64.toInt_ofNat_of_lt hlt⟩
  · rintro ⟨k, hk, hn⟩
    have hlt : k < 2 ^ 63 := by
      have := n.toInt_lt
      omega
    exact ⟨k, ⟨hk, hlt⟩, Int64.toInt_inj.1 ((Int64.toInt_ofNat_of_lt hlt).trans hn.symm)⟩

/-- The atom that a token stands for. -/
def atom? : Token → Option Sexp
  | .int digits => (int? digits).map .int
  | .string text => some (.str text)
  | .symbol name => some (.symbol name)
  | .keyword name => some (.keyword name)
  | .opening | .closing | .endOfInput => none

theorem step_of_atom? {token : Token} {x : Sexp} (h : atom? token = some x) (opened : OpenLists) :
    step opened token = place x opened := by
  cases token with
  | int digits =>
    obtain ⟨n, hn, rfl⟩ := Option.map_eq_some_iff.1 h
    rw [step, hn]
  | string text => obtain rfl := Option.some.inj h; rfl
  | symbol name => obtain rfl := Option.some.inj h; rfl
  | keyword name => obtain rfl := Option.some.inj h; rfl
  | opening | closing | endOfInput => simp [atom?] at h

end Assembly

/-! ## The tokens of an expression -/

namespace Sexp

mutual
/-- The tokens of an expression. A numeral may have leading zeros. -/
def Flattens : Sexp → List Token → Prop
  | list items, tokens =>
    ∃ inner, tokens = .opening :: (inner ++ [.closing]) ∧ FlattensAll items inner
  | symbol name, tokens => tokens = [.symbol name]
  | str text, tokens => tokens = [.string text]
  | keyword name, tokens => tokens = [.keyword name]
  | int n, tokens =>
    ∃ digits k, tokens = [.int digits] ∧ Digits.IsDecimal digits.toList k ∧ n.toInt = k
  | bitVec _ _, _ => False

/-- The tokens of some expressions, one after the other. -/
def FlattensAll : List Sexp → List Token → Prop
  | [], tokens => tokens = []
  | x :: xs, tokens =>
    ∃ first others, tokens = first ++ others ∧ Flattens x first ∧ FlattensAll xs others
end

@[simp] theorem flattensAll_nil {tokens : List Token} : FlattensAll [] tokens ↔ tokens = [] := by
  rw [FlattensAll]

theorem flattensAll_cons {x : Sexp} {xs : List Sexp} {tokens : List Token} :
    FlattensAll (x :: xs) tokens ↔
      ∃ first others, tokens = first ++ others ∧ Flattens x first ∧ FlattensAll xs others := by
  rw [FlattensAll]

@[simp] theorem flattensAll_singleton {x : Sexp} {tokens : List Token} :
    FlattensAll [x] tokens ↔ Flattens x tokens := by
  simp [flattensAll_cons]

theorem flattensAll_append {xs ys : List Sexp} {tokens : List Token} :
    FlattensAll (xs ++ ys) tokens ↔
      ∃ first others, tokens = first ++ others ∧ FlattensAll xs first ∧ FlattensAll ys others := by
  induction xs generalizing tokens with
  | nil =>
    constructor
    · exact fun h => ⟨[], tokens, rfl, flattensAll_nil.2 rfl, h⟩
    · rintro ⟨first, others, rfl, hfirst, hothers⟩
      rwa [flattensAll_nil.1 hfirst]
  | cons x xs ih =>
    rw [List.cons_append, flattensAll_cons]
    constructor
    · rintro ⟨first, others, rfl, hx, hothers⟩
      obtain ⟨middle, last, rfl, hxs, hys⟩ := ih.1 hothers
      exact ⟨first ++ middle, last, by rw [List.append_assoc],
        flattensAll_cons.2 ⟨first, middle, rfl, hx, hxs⟩, hys⟩
    · rintro ⟨front, last, rfl, hfront, hys⟩
      obtain ⟨first, middle, rfl, hx, hxs⟩ := flattensAll_cons.1 hfront
      exact ⟨first, middle ++ last, by rw [List.append_assoc], hx,
        ih.2 ⟨middle, last, rfl, hxs, hys⟩⟩

theorem flattens_of_atom? {token : Token} {x : Sexp} (h : Assembly.atom? token = some x) :
    Flattens x [token] := by
  cases token with
  | int digits =>
    obtain ⟨n, hn, rfl⟩ := Option.map_eq_some_iff.1 h
    obtain ⟨k, hk, hnk⟩ := Assembly.int?_eq_some_iff.1 hn
    exact ⟨digits, k, rfl, hk, hnk⟩
  | string text => obtain rfl := Option.some.inj h; rfl
  | symbol name => obtain rfl := Option.some.inj h; rfl
  | keyword name => obtain rfl := Option.some.inj h; rfl
  | opening | closing | endOfInput => simp [Assembly.atom?] at h

theorem flattens_cases {x : Sexp} {tokens : List Token} (h : Flattens x tokens) :
    (∃ items inner, x = .list items ∧ tokens = .opening :: (inner ++ [.closing]) ∧
      FlattensAll items inner) ∨ ∃ token, tokens = [token] ∧ Assembly.atom? token = some x := by
  cases x with
  | list items =>
    obtain ⟨inner, rfl, hitems⟩ := h
    exact Or.inl ⟨items, inner, rfl, rfl, hitems⟩
  | symbol name => exact Or.inr ⟨_, h, rfl⟩
  | str text => exact Or.inr ⟨_, h, rfl⟩
  | keyword name => exact Or.inr ⟨_, h, rfl⟩
  | int n =>
    obtain ⟨digits, k, rfl, hk, hn⟩ := h
    refine Or.inr ⟨_, rfl, ?_⟩
    rw [Assembly.atom?, Assembly.int?_eq_some_iff.2 ⟨k, hk, hn⟩]
    rfl
  | bitVec value width => exact h.elim

/-! ### Uniqueness -/

theorem head_of_flattens {x : Sexp} {tokens : List Token} (h : Flattens x tokens) :
    ∃ token more, tokens = token :: more ∧ token ≠ .closing := by
  rcases flattens_cases h with ⟨items, inner, -, rfl, -⟩ | ⟨token, rfl, hatom⟩
  · exact ⟨_, _, rfl, by simp⟩
  · refine ⟨token, [], rfl, ?_⟩
    rintro rfl
    simp [Assembly.atom?] at hatom

theorem ne_nil_of_flattens {x : Sexp} {tokens : List Token} (h : Flattens x tokens) :
    tokens ≠ [] := by
  obtain ⟨token, more, rfl, -⟩ := head_of_flattens h
  exact List.cons_ne_nil token more

theorem not_flattensAll_cons_closing {x : Sexp} {xs : List Sexp} {tokens more rest : List Token}
    (h : FlattensAll (x :: xs) tokens) : tokens ++ rest ≠ .closing :: more := by
  obtain ⟨first, others, rfl, hx, -⟩ := flattensAll_cons.1 h
  obtain ⟨token, behind, rfl, htoken⟩ := head_of_flattens hx
  intro heq
  exact htoken (List.cons.inj heq).1

theorem flattens_cancel_of_atom? {x y : Sexp} {token : Token} {others rest more : List Token}
    (hx : Assembly.atom? token = some x) (hy : Flattens y others)
    (heq : token :: rest = others ++ more) : x = y ∧ rest = more := by
  rcases flattens_cases hy with ⟨items, inner, -, rfl, -⟩ | ⟨token', rfl, hatom⟩
  · obtain ⟨rfl, -⟩ := List.cons.inj heq
    simp [Assembly.atom?] at hx
  · obtain ⟨rfl, rfl⟩ := List.cons.inj heq
    exact ⟨Option.some.inj (hx.symm.trans hatom), rfl⟩

mutual
theorem flattens_cancel : (x : Sexp) → ∀ {y : Sexp} {first others rest more : List Token},
    Flattens x first → Flattens y others → first ++ rest = others ++ more → x = y ∧ rest = more
  | list items, y, first, others, rest, more, hx, hy, heq => by
    obtain ⟨inner, rfl, hitems⟩ := hx
    rcases flattens_cases hy with ⟨ys, inner', rfl, rfl, hys⟩ | ⟨token, rfl, hatom⟩
    · obtain ⟨rfl, rfl⟩ := flattensAll_cancel items hitems hys (by simpa using heq)
      exact ⟨rfl, rfl⟩
    · obtain ⟨rfl, -⟩ := List.cons.inj heq
      simp [Assembly.atom?] at hatom
  | int n, y, first, others, rest, more, hx, hy, heq
  | symbol name, y, first, others, rest, more, hx, hy, heq
  | str text, y, first, others, rest, more, hx, hy, heq
  | keyword name, y, first, others, rest, more, hx, hy, heq
  | bitVec value width, y, first, others, rest, more, hx, hy, heq => by
    rcases flattens_cases hx with ⟨_, _, hlist, -⟩ | ⟨token, rfl, hatom⟩
    · simp at hlist
    · exact flattens_cancel_of_atom? hatom hy heq

theorem flattensAll_cancel : (xs : List Sexp) →
    ∀ {ys : List Sexp} {first others rest more : List Token}, FlattensAll xs first →
      FlattensAll ys others → first ++ .closing :: rest = others ++ .closing :: more →
        xs = ys ∧ rest = more
  | [], [], first, others, rest, more, hxs, hys, heq => by
    rw [flattensAll_nil] at hxs hys
    simpa [hxs, hys] using heq
  | [], y :: ys, first, others, rest, more, hxs, hys, heq => by
    rw [flattensAll_nil] at hxs
    subst hxs
    exact absurd heq.symm (not_flattensAll_cons_closing hys)
  | x :: xs, [], first, others, rest, more, hxs, hys, heq => by
    rw [flattensAll_nil] at hys
    subst hys
    exact absurd heq (not_flattensAll_cons_closing hxs)
  | x :: xs, y :: ys, first, others, rest, more, hxs, hys, heq => by
    obtain ⟨first, front, rfl, hx, hxs⟩ := flattensAll_cons.1 hxs
    obtain ⟨others, back, rfl, hy, hbehind⟩ := flattensAll_cons.1 hys
    obtain ⟨rfl, heq⟩ := flattens_cancel x hx hy (by simpa using heq)
    obtain ⟨rfl, rfl⟩ := flattensAll_cancel xs hxs hbehind heq
    exact ⟨rfl, rfl⟩
end

/-- **No two sequences of expressions have the same tokens.** -/
theorem flattensAll_unique {xs ys : List Sexp} {tokens : List Token} (hxs : FlattensAll xs tokens)
    (hys : FlattensAll ys tokens) : xs = ys := by
  have hclosed : tokens ++ [.closing] = tokens ++ [.closing] := rfl
  exact (flattensAll_cancel xs hxs hys hclosed).1

end Sexp

/-! ## Assembly -/

namespace Assembly

open Sexp

/-- The tokens that have been read when some lists are open: those before the innermost
    list, its parenthesis, and those of its items so far. -/
def Opened : OpenLists → List Token → Prop
  | [], tokens => tokens = []
  | items :: outer, tokens =>
    ∃ before inner, tokens = before ++ .opening :: inner ∧ Opened outer before ∧
      FlattensAll items.reverse inner

/-- What a step makes of the tokens that have been read. -/
def Step.Accounts (tokens : List Token) : Step → Prop
  | .complete x => Flattens x tokens
  | .pending opened => Opened opened tokens
  | .finished | .refused _ => True

variable {opened : OpenLists} {before tokens : List Token} {x : Sexp} {token : Token}

/-- **What a step can be**: the token is an atom, opens a list, closes one, ends the program,
    or is refused. -/
theorem step_cases (opened : OpenLists) (token : Token) :
    (∃ x, atom? token = some x ∧ step opened token = place x opened) ∨
    (token = .opening ∧ step opened token = .pending ([] :: opened)) ∨
    (∃ items outer, token = .closing ∧ opened = items :: outer ∧
      step opened token = place (.list items.reverse) outer) ∨
    (token = .endOfInput ∧ opened = [] ∧ step opened token = .finished) ∨
    ∃ cause, step opened token = .refused cause := by
  cases hatom : atom? token with
  | some x => exact Or.inl ⟨x, rfl, step_of_atom? hatom opened⟩
  | none =>
    right
    cases token with
    | opening => exact Or.inl ⟨rfl, rfl⟩
    | closing =>
      cases opened with
      | nil => exact Or.inr (Or.inr (Or.inr ⟨_, rfl⟩))
      | cons items outer => exact Or.inr (Or.inl ⟨items, outer, rfl, rfl, rfl⟩)
    | endOfInput =>
      cases opened with
      | nil => exact Or.inr (Or.inr (Or.inl ⟨rfl, rfl, rfl⟩))
      | cons items outer => exact Or.inr (Or.inr (Or.inr ⟨_, rfl⟩))
    | int digits =>
      refine Or.inr (Or.inr (Or.inr ⟨.integerOverflow digits, ?_⟩))
      rw [step, Option.map_eq_none_iff.1 hatom]
    | string | symbol | keyword => simp [atom?] at hatom

theorem accounts_place (hopened : Opened opened before) (hx : Flattens x tokens) :
    (place x opened).Accounts (before ++ tokens) := by
  cases opened with
  | nil =>
    rw [Opened] at hopened
    rw [hopened]
    exact hx
  | cons items outer =>
    obtain ⟨outside, inner, rfl, houter, hitems⟩ := hopened
    refine ⟨outside, inner ++ tokens, by simp, houter, ?_⟩
    rw [List.reverse_cons]
    exact flattensAll_append.2 ⟨inner, tokens, rfl, hitems, flattensAll_singleton.2 hx⟩

/-- **One more token**: an expression is complete with its last token, and lists stay open
    with the tokens that they have. -/
theorem accounts_step (hopened : Opened opened before) :
    (step opened token).Accounts (before ++ [token]) := by
  rcases step_cases opened token with ⟨x, hatom, hstep⟩ | ⟨rfl, hstep⟩ |
    ⟨items, outer, rfl, rfl, hstep⟩ | ⟨rfl, rfl, hstep⟩ | ⟨cause, hstep⟩
  · rw [hstep]
    exact accounts_place hopened (flattens_of_atom? hatom)
  · rw [hstep]
    exact ⟨before, [], rfl, hopened, rfl⟩
  · obtain ⟨outside, inner, rfl, houter, hitems⟩ := hopened
    have hlist : Flattens (.list items.reverse) (.opening :: (inner ++ [.closing])) :=
      ⟨inner, rfl, hitems⟩
    rw [hstep, List.append_assoc]
    exact accounts_place houter hlist
  · rw [hstep]
    trivial
  · rw [hstep]
    trivial

theorem place_ne_pending_nil : place x opened ≠ .pending [] := by
  cases opened <;> simp [place]

theorem place_ne_finished : place x opened ≠ .finished := by
  cases opened <;> simp [place]

theorem step_ne_pending_nil : step opened token ≠ .pending [] := by
  rcases step_cases opened token with ⟨x, -, hstep⟩ | ⟨-, hstep⟩ | ⟨items, outer, -, -, hstep⟩ |
    ⟨-, -, hstep⟩ | ⟨cause, hstep⟩ <;> rw [hstep]
  · exact place_ne_pending_nil
  · simp
  · exact place_ne_pending_nil
  · simp
  · simp

theorem place_ne_refused {cause : SyntaxError} : place x opened ≠ .refused cause := by
  cases opened <;> simp [place]

/-- **What is refused**: a parenthesis that closes no list, the end of the input inside of one, and
    a numeral out of range. -/
theorem step_eq_refused_iff {cause : SyntaxError} : step opened token = .refused cause ↔
    (token = .closing ∧ opened = [] ∨ token = .endOfInput ∧ opened ≠ []) ∧
        cause = .unexpectedToken token (expectedKinds opened) ∨
      ∃ digits, token = .int digits ∧ int? digits = none ∧ cause = .integerOverflow digits := by
  cases token with
  | endOfInput | closing => cases opened <;> simp [step, place_ne_refused, eq_comm]
  | opening | string | symbol | keyword => simp [step, place_ne_refused]
  | int digits => cases hn : int? digits <;> simp [step, hn, place_ne_refused, eq_comm]

theorem step_eq_finished_iff :
    step opened token = .finished ↔ opened = [] ∧ token = .endOfInput := by
  refine ⟨fun h => ?_, by rintro ⟨rfl, rfl⟩; rfl⟩
  rcases step_cases opened token with ⟨x, -, hstep⟩ | ⟨-, hstep⟩ | ⟨items, outer, -, -, hstep⟩ |
    ⟨htoken, hopened, -⟩ | ⟨cause, hstep⟩
  · exact absurd (hstep.symm.trans h) place_ne_finished
  · simp [hstep] at h
  · exact absurd (hstep.symm.trans h) place_ne_finished
  · exact ⟨hopened, htoken⟩
  · simp [hstep] at h

end Assembly

end SmtDialogue
