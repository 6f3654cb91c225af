/-
  How a reader follows the grammar of expressions.

  * `Reader.Takes`: a reader takes tokens from its source, none of them the end, and
    `tokens_of_takes`: behind them it has the same tokens left;
  * `next_eq_some_iff`: an expression is read exactly where its tokens are taken;
  * `Reader.Reads`: a reader reads expressions one by one;
  * `Reader.Lexes`: the tokens of a whole source;
  * `parse_accepts_exactly_grammar`: a text is read exactly as the expressions whose tokens
    it holds.
-/
import Mathlib.Data.List.Basic
import SmtDialogue.Proofs.Grammar
import SmtDialogue.Reader.Expression

namespace SmtDialogue

namespace Reader

open Assembly Sexp

variable {reader middle after : Reader} {token : Located Token} {tokens more : List Token}
  {opened : OpenLists} {x : Sexp}

/-! ## Taking tokens -/

/-- The reader takes these tokens one by one, and there is more before the end. -/
inductive Takes : Reader → List Token → Reader → Prop
  | nil {reader : Reader} : Takes reader [] reader
  | cons {reader middle after : Reader} {token : Located Token} {tokens : List Token} :
      reader.token = (.ok token, middle) → token.value ≠ .endOfInput →
        Takes middle tokens after → Takes reader (token.value :: tokens) after

theorem takes_nil_iff : Takes reader [] after ↔ after = reader := by
  constructor
  · rintro (_ | _)
    rfl
  · rintro rfl
    exact .nil

theorem takes_cons_iff {value : Token} :
    Takes reader (value :: tokens) after ↔ ∃ token middle, reader.token = (.ok token, middle) ∧
      token.value = value ∧ value ≠ .endOfInput ∧ Takes middle tokens after := by
  constructor
  · rintro (_ | ⟨htoken, hne, hmore⟩)
    exact ⟨_, _, htoken, rfl, hne, hmore⟩
  · rintro ⟨token, middle, htoken, rfl, hne, hmore⟩
    exact .cons htoken hne hmore

theorem takes_append_iff : Takes reader (tokens ++ more) after ↔
    ∃ middle, Takes reader tokens middle ∧ Takes middle more after := by
  induction tokens generalizing reader with
  | nil => simp [takes_nil_iff]
  | cons value tokens ih =>
    simp only [List.cons_append, takes_cons_iff, ih]
    constructor
    · rintro ⟨token, next, htoken, hvalue, hne, middle, htokens, hmore⟩
      exact ⟨middle, ⟨token, next, htoken, hvalue, hne, htokens⟩, hmore⟩
    · rintro ⟨middle, ⟨token, next, htoken, hvalue, hne, htokens⟩, hmore⟩
      exact ⟨token, next, htoken, hvalue, hne, middle, htokens, hmore⟩

@[simp] theorem done_token (reader : Reader) : reader.token.2.done = reader.done := by
  have hahead (token : Located Token) (r : Reader) : (r.lookAhead token).2.done = r.done := by
    unfold lookAhead
    split <;> rfl
  unfold Reader.token
  dsimp only
  split
  · split_ifs
    · rfl
    · rfl
    · unfold closeString
      dsimp only
      split <;> rfl
    · exact hahead _ _
    · exact hahead _ _
  · exact hahead _ _

theorem done_of_takes (h : Takes reader tokens after) : after.done = reader.done := by
  induction h with
  | nil => rfl
  | @cons reader _ _ _ _ htoken _ _ ih =>
    have hdone := done_token reader
    rw [htoken] at hdone
    exact ih.trans hdone

/-! ## All tokens of a source -/

theorem tokens_of_token (h : reader.token = (.ok token, after))
    (hne : token.value ≠ .endOfInput) : reader.tokens = (.ok token, after) :: after.tokens := by
  rw [Reader.tokens]
  split <;> simp_all

theorem tokens_of_end (h : reader.token = (.ok token, after))
    (hend : token.value = .endOfInput) : reader.tokens = [(.ok token, after)] := by
  rw [Reader.tokens]
  split <;> simp_all

theorem tokens_of_error {e : Located SyntaxError} (h : reader.token = (.error e, after)) :
    reader.tokens = [(.error e, after)] := by
  rw [Reader.tokens]
  split <;> simp_all

theorem tokens_of_takes (h : Takes reader tokens after) :
    ∃ steps, reader.tokens = steps ++ after.tokens := by
  induction h with
  | nil => exact ⟨[], rfl⟩
  | cons htoken hne _ ih =>
    obtain ⟨steps, hsteps⟩ := ih
    exact ⟨_ :: steps, by rw [tokens_of_token htoken hne, hsteps, List.cons_append]⟩

/-! ## Assembling expressions -/

/-- How the assembly goes on after a step on a token at `position`. -/
def proceed : Step → Cursor → Reader → Except (Located SyntaxError) (Option Sexp) × Reader
  | .complete x, _, after => (.ok (some x), after)
  | .pending opened, _, after => after.assemble opened
  | .finished, _, after => (.ok none, after)
  | .refused cause, position, after => (.error ⟨cause, position⟩, after)

theorem assemble_eq_proceed (h : reader.token = (.ok token, after)) :
    reader.assemble opened = proceed (step opened token.value) token.position after := by
  rw [assemble]
  split
  · simp_all
  · rename_i found behind hfound
    rw [h] at hfound
    obtain ⟨hvalue, rfl⟩ := Prod.mk.inj hfound
    obtain rfl := Except.ok.inj hvalue
    split <;> simp_all [proceed]

theorem assemble_eq_error {e : Located SyntaxError} (h : reader.token = (.error e, after)) :
    reader.assemble opened = (.error e, after) := by
  rw [assemble]
  split
  · simp_all
  · simp_all

/-- Where a complete expression is placed, the position of its last token is forgotten. -/
theorem proceed_place (position other : Cursor) :
    proceed (place x opened) position after = proceed (place x opened) other after := by
  cases opened <;> rfl

mutual
theorem assemble_of_flattens : (x : Sexp) → ∀ {tokens reader after} (opened : OpenLists)
    (position : Cursor), Flattens x tokens → Takes reader tokens after →
      reader.assemble opened = proceed (place x opened) position after
  | list items, tokens, reader, after, opened, position, hx, htakes => by
    obtain ⟨inner, rfl, hitems⟩ := hx
    obtain ⟨first, inside, hfirst, hopening, -, htakes⟩ := takes_cons_iff.1 htakes
    obtain ⟨before, hinner, htakes⟩ := takes_append_iff.1 htakes
    obtain ⟨last, behind, hlast, hclosing, -, hafter⟩ := takes_cons_iff.1 htakes
    obtain rfl := takes_nil_iff.1 hafter
    rw [assemble_eq_proceed hfirst, hopening, step, proceed,
      assemble_of_flattensAll items [] opened hitems hinner, assemble_eq_proceed hlast, hclosing,
      step, List.append_nil, List.reverse_reverse]
    exact proceed_place _ _
  | int n, tokens, reader, after, opened, position, hx, htakes
  | symbol name, tokens, reader, after, opened, position, hx, htakes
  | str text, tokens, reader, after, opened, position, hx, htakes
  | keyword name, tokens, reader, after, opened, position, hx, htakes
  | bitVec value width, tokens, reader, after, opened, position, hx, htakes => by
    rcases flattens_cases hx with ⟨_, _, hlist, -⟩ | ⟨value, rfl, hatom⟩
    · simp at hlist
    · obtain ⟨token, behind, htoken, rfl, -, hafter⟩ := takes_cons_iff.1 htakes
      obtain rfl := takes_nil_iff.1 hafter
      rw [assemble_eq_proceed htoken, step_of_atom? hatom]
      exact proceed_place _ _

theorem assemble_of_flattensAll : (xs : List Sexp) → ∀ {tokens reader after} (items : List Sexp)
    (outer : OpenLists), FlattensAll xs tokens → Takes reader tokens after →
      reader.assemble (items :: outer) = after.assemble ((xs.reverse ++ items) :: outer)
  | [], tokens, reader, after, items, outer, hxs, htakes => by
    rw [flattensAll_nil] at hxs
    subst hxs
    obtain rfl := takes_nil_iff.1 htakes
    rfl
  | x :: xs, tokens, reader, after, items, outer, hxs, htakes => by
    obtain ⟨first, others, rfl, hx, hxs⟩ := flattensAll_cons.1 hxs
    obtain ⟨middle, hfirst, hothers⟩ := takes_append_iff.1 htakes
    rw [assemble_of_flattens x (items :: outer) {} hx hfirst, place, proceed,
      assemble_of_flattensAll xs (x :: items) outer hxs hothers]
    simp
end

/-- What is assembled has the tokens that have been taken for it. -/
theorem flattens_of_assemble {before : List Token} (hopened : Opened opened before)
    (h : reader.assemble opened = (.ok (some x), after)) :
    ∃ tokens, Takes reader tokens after ∧ Flattens x (before ++ tokens) := by
  -- along the run, `before` holds the tokens of the lists that are open
  fun_induction assemble opened reader generalizing before with
  | case1 => simp at h
  | case2 opened reader token behind htoken y hstep =>
    simp only [Prod.mk.injEq, Except.ok.injEq, Option.some.injEq] at h
    obtain ⟨rfl, rfl⟩ := h
    have hflattens : (step opened token.value).Accounts (before ++ [token.value]) :=
      accounts_step hopened
    rw [hstep] at hflattens
    exact ⟨_, .cons htoken (ne_endOfInput_of_complete hstep) .nil, hflattens⟩
  | case3 opened reader token behind htoken opened' hstep _ ih =>
    have hopened' : (step opened token.value).Accounts (before ++ [token.value]) :=
      accounts_step hopened
    rw [hstep] at hopened'
    obtain ⟨tokens, htakes, hflattens⟩ := ih hopened' h
    refine ⟨token.value :: tokens, .cons htoken (ne_endOfInput_of_pending hstep) htakes, ?_⟩
    simpa using hflattens
  | case4 => simp at h
  | case5 => simp at h

/-- The input ends here. -/
def Ends (reader : Reader) : Prop :=
  ∃ token after, reader.token = (.ok token, after) ∧ token.value = .endOfInput

theorem assemble_ne_none (hopened : opened ≠ []) : reader.assemble opened ≠ (.ok none, after) := by
  fun_induction assemble opened reader with
  | case1 => simp
  | case2 => simp
  | case3 opened reader token behind htoken opened' hstep _ ih =>
    refine ih ?_
    rintro rfl
    exact step_ne_pending_nil hstep
  | case4 opened reader token behind htoken hstep =>
    exact absurd (step_eq_finished_iff.1 hstep).1 hopened
  | case5 => simp

theorem ends_of_assemble (h : reader.assemble [] = (.ok none, after)) : reader.Ends := by
  cases htoken : reader.token with
  | mk result behind =>
    cases result with
    | error e => simp [assemble_eq_error htoken] at h
    | ok token =>
      rw [assemble_eq_proceed htoken] at h
      cases hstep : step [] token.value with
      | complete x => simp [hstep, proceed] at h
      | refused cause => simp [hstep, proceed] at h
      | finished => exact ⟨token, behind, htoken, (step_eq_finished_iff.1 hstep).2⟩
      | pending opened =>
        rw [hstep, proceed] at h
        refine absurd h (assemble_ne_none ?_)
        rintro rfl
        exact step_ne_pending_nil hstep

/-! ## Reading expressions -/

theorem next_fst (hdone : reader.done = false) : reader.next.1 = (reader.assemble []).1 := by
  rw [next, if_neg (Bool.eq_false_iff.1 hdone)]
  split
  · rename_i hread
    rw [hread]
  · rename_i hread
    rw [hread]

/-- **An expression is read exactly where its tokens are taken.** -/
theorem next_eq_some_iff (hdone : reader.done = false) :
    reader.next = (.ok (some x), after) ↔
      ∃ tokens, Takes reader tokens after ∧ Flattens x tokens := by
  have hread : ¬ reader.done = true := by simp [hdone]
  rw [next, if_neg hread]
  constructor
  · intro h
    split at h
    · rename_i y behind hassemble
      rw [h] at hassemble
      have hopened : Opened [] [] := rfl
      exact flattens_of_assemble hopened hassemble
    · simp_all
  · rintro ⟨tokens, htakes, hx⟩
    rw [assemble_of_flattens x [] {} hx htakes]
    rfl

theorem not_done_of_next {result : Sexp} (h : reader.next = (.ok (some result), after)) :
    reader.done = false ∧ after.done = false := by
  have hdone : reader.done = false := by
    by_contra hdone
    rw [next, if_pos (by simpa using hdone)] at h
    simp at h
  obtain ⟨tokens, htakes, -⟩ := (next_eq_some_iff hdone).1 h
  exact ⟨hdone, (done_of_takes htakes).trans hdone⟩

theorem next_eq_none_iff (hdone : reader.done = false) :
    reader.next.1 = .ok none ↔ reader.Ends := by
  rw [next_fst hdone]
  constructor
  · intro h
    exact ends_of_assemble (Prod.ext h rfl)
  · rintro ⟨token, behind, htoken, hend⟩
    rw [assemble_eq_proceed htoken, hend]
    rfl

/-! ## Reading one expression after the other -/

/-- The reader reads these expressions, one by one. -/
inductive Reads : Reader → List Sexp → Reader → Prop
  | nil {reader : Reader} : Reads reader [] reader
  | cons {reader middle after : Reader} {x : Sexp} {xs : List Sexp} :
      reader.next = (.ok (some x), middle) → Reads middle xs after → Reads reader (x :: xs) after

theorem reads_iff (hdone : reader.done = false) :
    Reads reader xs after ↔ ∃ tokens, Takes reader tokens after ∧ Sexp.FlattensAll xs tokens := by
  constructor
  · intro h
    induction h with
    | nil => exact ⟨[], .nil, Sexp.flattensAll_nil.2 rfl⟩
    | cons hnext _ ih =>
      obtain ⟨first, hfirst, hx⟩ := (next_eq_some_iff hdone).1 hnext
      obtain ⟨others, hothers, hxs⟩ := ih (not_done_of_next hnext).2
      exact ⟨first ++ others, takes_append_iff.2 ⟨_, hfirst, hothers⟩,
        Sexp.flattensAll_cons.2 ⟨first, others, rfl, hx, hxs⟩⟩
  · rintro ⟨tokens, htakes, hflattens⟩
    induction xs generalizing reader tokens with
    | nil =>
      obtain rfl := Sexp.flattensAll_nil.1 hflattens
      obtain rfl := takes_nil_iff.1 htakes
      exact .nil
    | cons x xs ih =>
      obtain ⟨first, others, rfl, hx, hxs⟩ := Sexp.flattensAll_cons.1 hflattens
      obtain ⟨middle, hfirst, hothers⟩ := takes_append_iff.1 htakes
      have hnext := (next_eq_some_iff hdone).2 ⟨first, hfirst, hx⟩
      exact .cons hnext (ih (not_done_of_next hnext).2 others hothers hxs)

/-! ## Reading a whole source -/

theorem results_of_some (h : reader.next = (.ok (some x), after)) :
    reader.results = (.ok x :: after.results.1, after.results.2) := by
  rw [results]
  split <;> simp_all

theorem results_of_none (h : reader.next.1 = .ok none) : reader.results.1 = [] := by
  rw [results]
  split <;> simp_all

theorem results_of_error {e : Located SyntaxError} (h : reader.next.1 = .error e) :
    reader.results.1 = [.error e] := by
  rw [results]
  split <;> simp_all

theorem results_cases (reader : Reader) :
    (∃ x after, reader.next = (.ok (some x), after) ∧ reader.results.1 = .ok x :: after.results.1) ∨
    (reader.next.1 = .ok none ∧ reader.results.1 = []) ∨ ∃ e, reader.results.1 = [.error e] := by
  cases hnext : reader.next with
  | mk result after =>
    cases result with
    | error e => exact Or.inr (Or.inr ⟨e, results_of_error (congrArg Prod.fst hnext)⟩)
    | ok found =>
      cases found with
      | none => exact Or.inr (Or.inl ⟨rfl, results_of_none (congrArg Prod.fst hnext)⟩)
      | some x => exact Or.inl ⟨x, after, rfl, congrArg Prod.fst (results_of_some hnext)⟩

/-- The source holds these tokens up to its end, and no error. -/
def Lexes (reader : Reader) (tokens : List Token) : Prop :=
  reader.tokens.map (fun step => step.1.map Located.value) = (tokens ++ [Token.endOfInput]).map .ok

theorem ends_of_rest_nil (h : reader.rest = []) : reader.Ends := by
  have hgap : reader.skipGap.rest = [] := by
    simp [skipGap, h, Gap.skip]
  have htoken : reader.token = (.ok ⟨.endOfInput, reader.skipGap.cursor⟩,
      { reader.skipGap with peeked := true }) := by
    unfold Reader.token lookAhead
    simp only [hgap]
  exact ⟨_, _, htoken, rfl⟩

theorem lexes_nil_iff : reader.Lexes [] ↔ reader.Ends := by
  unfold Lexes Ends
  rw [Reader.tokens]
  split
  · simp_all [Except.map]
  · rename_i token after htoken
    split
    · rename_i hend
      simp [htoken, hend, Except.map]
    · rename_i hne
      simp [htoken, hne, Except.map]

theorem lexes_cons_iff {value : Token} :
    reader.Lexes (value :: tokens) ↔ ∃ token middle, reader.token = (.ok token, middle) ∧
      token.value = value ∧ value ≠ .endOfInput ∧ middle.Lexes tokens := by
  unfold Lexes
  rw [Reader.tokens]
  split
  · simp_all [Except.map]
  · rename_i token after htoken
    split
    · rename_i hend
      simp_all [Except.map]
    · rename_i hne
      simp only [htoken, List.map_cons, List.cons_append, List.cons.injEq, Except.map,
        Except.ok.injEq, Prod.mk.injEq]
      constructor
      · rintro ⟨rfl, hmore⟩
        exact ⟨token, after, ⟨rfl, rfl⟩, rfl, hne, hmore⟩
      · rintro ⟨_, _, ⟨rfl, rfl⟩, rfl, -, hmore⟩
        exact ⟨rfl, hmore⟩

theorem lexes_append_iff (h : Takes reader tokens middle) :
    reader.Lexes (tokens ++ more) ↔ middle.Lexes more := by
  induction h with
  | nil => rfl
  | cons htoken hne _ ih =>
    rw [List.cons_append, lexes_cons_iff, ← ih]
    constructor
    · rintro ⟨token, next, hnext, -, -, hmore⟩
      rw [htoken] at hnext
      obtain ⟨-, rfl⟩ := Prod.mk.inj hnext
      exact hmore
    · exact fun hmore => ⟨_, _, htoken, rfl, hne, hmore⟩

theorem takes_of_lexes (h : reader.Lexes (tokens ++ more)) :
    ∃ middle, Takes reader tokens middle ∧ middle.Lexes more := by
  induction tokens generalizing reader with
  | nil => exact ⟨reader, .nil, h⟩
  | cons value tokens ih =>
    obtain ⟨token, next, htoken, rfl, hne, hnext⟩ := lexes_cons_iff.1 h
    obtain ⟨middle, htakes, hmore⟩ := ih hnext
    exact ⟨middle, .cons htoken hne htakes, hmore⟩

/-- **A source is read as some expressions exactly if it holds their tokens.** -/
theorem results_eq_iff (hdone : reader.done = false) {xs : List Sexp} :
    reader.results.1 = xs.map .ok ↔ ∃ tokens, reader.Lexes tokens ∧ FlattensAll xs tokens := by
  induction xs generalizing reader with
  | nil =>
    simp only [flattensAll_nil, exists_eq_right, lexes_nil_iff, ← next_eq_none_iff hdone]
    refine ⟨fun h => ?_, results_of_none⟩
    rcases results_cases reader with ⟨x, after, -, hresults⟩ | ⟨hnone, -⟩ | ⟨e, hresults⟩
    · simp [hresults] at h
    · exact hnone
    · simp [hresults] at h
  | cons x xs ih =>
    constructor
    · intro h
      rcases results_cases reader with ⟨y, after, hnext, hresults⟩ | ⟨-, hresults⟩ | ⟨e, hresults⟩
      · rw [hresults, List.map_cons] at h
        obtain ⟨hy, hafter⟩ := List.cons.inj h
        obtain rfl := Except.ok.inj hy
        obtain ⟨others, hlexes, hxs⟩ := (ih (not_done_of_next hnext).2).1 hafter
        obtain ⟨first, htakes, hx⟩ := (next_eq_some_iff hdone).1 hnext
        exact ⟨first ++ others, (lexes_append_iff htakes).2 hlexes,
          flattensAll_cons.2 ⟨first, others, rfl, hx, hxs⟩⟩
      · simp [hresults] at h
      · simp [hresults] at h
    · rintro ⟨tokens, hlexes, hflattens⟩
      obtain ⟨first, others, rfl, hx, hxs⟩ := flattensAll_cons.1 hflattens
      obtain ⟨middle, htakes, hmore⟩ := takes_of_lexes hlexes
      have hnext := (next_eq_some_iff hdone).2 ⟨first, htakes, hx⟩
      rw [results_of_some hnext, List.map_cons,
        (ih (not_done_of_next hnext).2).2 ⟨others, hmore, hxs⟩]

/-- Reading goes on from one expression to the next, and ends with its first error or with
    none. -/
theorem results_eq_or (reader : Reader) : ∃ xs after, Reads reader xs after ∧
    (reader.results.1 = xs.map .ok ∨ ∃ e, reader.results.1 = xs.map .ok ++ [.error e]) := by
  fun_induction results reader with
  | case1 reader => exact ⟨[], reader, .nil, Or.inl rfl⟩
  | case2 reader e => exact ⟨[], reader, .nil, Or.inr ⟨e, rfl⟩⟩
  | case3 reader x after hnext _ others last hothers ih =>
    obtain ⟨xs, final, hreads, h | ⟨e, h⟩⟩ := ih
    · exact ⟨x :: xs, final, .cons hnext hreads, Or.inl (by simp_all)⟩
    · exact ⟨x :: xs, final, .cons hnext hreads, Or.inr ⟨e, by simp_all⟩⟩

end Reader

/-! ## Reading a text -/

theorem mapM_ok {ε α : Type} (xs : List α) :
    (xs.map Except.ok : List (Except ε α)).mapM id = .ok xs := by
  induction xs with
  | nil => rfl
  | cons x xs ih =>
    rw [List.map_cons, List.mapM_cons, ih]
    rfl

theorem mapM_error {ε α : Type} (xs : List α) (e : ε) :
    (xs.map Except.ok ++ [Except.error e]).mapM id = .error e := by
  induction xs with
  | nil => rfl
  | cons x xs ih =>
    rw [List.map_cons, List.cons_append, List.mapM_cons, ih]
    rfl

theorem parse_eq_ok_iff {text : String} {xs : List Sexp} :
    parse text = .ok xs ↔ (Reader.ofText text).results.1 = xs.map .ok := by
  obtain ⟨ys, -, -, h | ⟨e, h⟩⟩ := Reader.results_eq_or (Reader.ofText text)
  · rw [parse, h, mapM_ok, Except.ok.injEq]
    refine ⟨fun hxs => hxs ▸ rfl, fun hmap => ?_⟩
    exact List.map_injective_iff.2 (fun _ _ => Except.ok.inj) hmap
  · rw [parse, h, mapM_error]
    refine ⟨fun hxs => by simp at hxs, fun hmap => ?_⟩
    have herror : .error e ∈ xs.map (Except.ok : Sexp → Except (Located SyntaxError) Sexp) := by
      simp [← hmap]
    simp at herror

/-- **A text is read exactly as the expressions whose tokens it holds.** They are the only
    ones with these tokens. What is no sequence of expressions is refused with the error
    that reading ends with, whatever was read before it. -/
theorem parse_accepts_exactly_grammar (text : String) :
    (∀ xs, parse text = .ok xs ↔
      ∃ tokens, (Reader.ofText text).Lexes tokens ∧ Sexp.FlattensAll xs tokens) ∧
    (∀ tokens xs ys, Sexp.FlattensAll xs tokens → Sexp.FlattensAll ys tokens → xs = ys) ∧
    ((¬ ∃ xs tokens, (Reader.ofText text).Lexes tokens ∧ Sexp.FlattensAll xs tokens) →
      ∃ e, parse text = .error e ∧
        ∃ before : List Sexp, (Reader.ofText text).results.1 = before.map .ok ++ [.error e]) := by
  have hread (xs : List Sexp) : parse text = .ok xs ↔
      ∃ tokens, (Reader.ofText text).Lexes tokens ∧ Sexp.FlattensAll xs tokens :=
    parse_eq_ok_iff.trans (Reader.results_eq_iff rfl)
  refine ⟨hread, fun tokens xs ys hxs hys => Sexp.flattensAll_unique hxs hys, fun hnone => ?_⟩
  obtain ⟨before, -, -, hresults | ⟨e, hresults⟩⟩ := Reader.results_eq_or (Reader.ofText text)
  · obtain ⟨tokens, hlexes, hflattens⟩ := (hread before).1 (parse_eq_ok_iff.2 hresults)
    exact absurd ⟨before, tokens, hlexes, hflattens⟩ hnone
  · exact ⟨e, by rw [parse, hresults, mapM_error], before, hresults⟩

end SmtDialogue
