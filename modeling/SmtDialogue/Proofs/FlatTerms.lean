/-
  Conjunctions and disjunctions stay flat: what is joined to a chain becomes a part of the chain.

  * `Junction`: the two functions whose applications are chains, and how two terms are joined;
  * `Bracketing.term_node`: terms that are joined two at a time give one application to the
    operands of all of them, in order;
  * `Term.IsFlat`: nowhere in a term a conjunction stands directly in a conjunction, nor a
    disjunction in a disjunction. `isFlat_join` and `Built.isFlat`: joining keeps this, and so does
    every builder;
  * `Term.Interprets`: what holds of terms where conjunctions and disjunctions are what they say,
    and `holds_and`, `holds_or`: so is what is joined;
  * `chains_have_flat_form`: the form of chains, their flatness and their meaning.
-/
import SmtDialogue.Proofs.ModelEntries
import SmtDialogue.Term.Builder

namespace SmtDialogue

variable {f : Identifier} {s t u : Term} {ts us : List Term}

/-! ## Operands -/

namespace Term

/-- A term is spliced, or is the only operand that it gives. -/
theorem operands_cases (f : Identifier) (t : Term) :
    (∃ ts, t = app f ts ∧ t.operands f = ts) ∨ (∀ ts, t ≠ app f ts) ∧ t.operands f = [t] := by
  cases t with
  | app g us =>
    by_cases hg : g = f
    · exact Or.inl ⟨us, by rw [hg], by rw [operands, if_pos hg]⟩
    · refine Or.inr ⟨?_, by rw [operands, if_neg hg]⟩
      rintro ts ⟨⟩
      exact hg rfl
  | string | int | bitVec | const | letIn => exact Or.inr ⟨by simp, rfl⟩

@[simp] theorem operands_app_self (f : Identifier) (ts : List Term) :
    (app f ts).operands f = ts := by
  rw [operands, if_pos rfl]

theorem operands_app_of_ne {g : Identifier} (h : g ≠ f) (ts : List Term) :
    (app g ts).operands f = [app g ts] := by
  rw [operands, if_neg h]

end Term

/-! ## Joining -/

/-- What is kept flat. -/
inductive Junction where
  | conjunction
  | disjunction
deriving DecidableEq

namespace Junction

/-- The function that is applied. -/
def id : Junction → Identifier
  | conjunction => "and"
  | disjunction => "or"

/-- Joins two terms. -/
def join : Junction → Term → Term → Term
  | conjunction => Term.and
  | disjunction => Term.or

theorem join_eq (j : Junction) (t u : Term) :
    j.join t u = .app j.id (t.operands j.id ++ u.operands j.id) := by
  cases j <;> rfl

theorem id_ne_unary (f : Unary) (j : Junction) : j.id ≠ f.id := by
  cases f <;> cases j <;> decide

theorem id_ne_binary (f : Binary) (j : Junction) : j.id ≠ f.id := by
  cases f <;> cases j <;> decide

end Junction

/-- A way of joining terms two at a time. -/
inductive Bracketing where
  | leaf (t : Term)
  | node (left right : Bracketing)

namespace Bracketing

variable {j : Junction} {b c : Bracketing}

/-- The terms that are joined, from left to right. -/
def leaves : Bracketing → List Term
  | leaf t => [t]
  | node l r => l.leaves ++ r.leaves

/-- What comes of joining them. -/
def term (j : Junction) : Bracketing → Term
  | leaf t => t
  | node l r => j.join (l.term j) (r.term j)

theorem leaves_ne_nil (b : Bracketing) : b.leaves ≠ [] := by
  induction b with
  | leaf t => simp [leaves]
  | node l r hl _ => simp [leaves, hl]

/-- All operands of the leaves are operands of the whole, in the order of the leaves. -/
theorem operands_term (j : Junction) (b : Bracketing) :
    (b.term j).operands j.id = b.leaves.flatMap (Term.operands j.id) := by
  induction b with
  | leaf t => simp [term, leaves]
  | node l r hl hr =>
    rw [term, leaves, Junction.join_eq, Term.operands_app_self, hl, hr, List.flatMap_append]

/-- **Terms that are joined give one application to all their operands.** -/
theorem term_node (j : Junction) (l r : Bracketing) :
    (node l r).term j = .app j.id ((node l r).leaves.flatMap (Term.operands j.id)) := by
  rw [term, Junction.join_eq, operands_term, operands_term, leaves, List.flatMap_append]

/-- One leaf is joined with nothing. -/
theorem leaves_node_ne (t : Term) (l r : Bracketing) : (node l r).leaves ≠ (leaf t).leaves := by
  intro h
  have hl := List.length_pos_iff.2 l.leaves_ne_nil
  have hr := List.length_pos_iff.2 r.leaves_ne_nil
  have hlength := congrArg List.length h
  simp only [leaves, List.length_append, List.length_singleton] at hlength
  omega

/-- **Brackets make no difference.** -/
theorem term_congr (j : Junction) (h : b.leaves = c.leaves) : b.term j = c.term j := by
  cases b with
  | leaf t => cases c with
    | leaf u => rw [List.singleton_inj.1 h]
    | node l r => exact absurd h.symm (leaves_node_ne t l r)
  | node l r => cases c with
    | leaf u => exact absurd h (leaves_node_ne u l r)
    | node l' r' => rw [term_node, term_node, h]

end Bracketing

/-! ## Flat terms -/

namespace Term

/-- The first term stands somewhere in the second one, or is all of it. -/
inductive Within : Term → Term → Prop
  | self {t : Term} : Within t t
  | arg {s t : Term} {f : Identifier} {ts : List Term} : t ∈ ts → Within s t → Within s (app f ts)
  | value {s v b : Term} {id : Identifier} : Within s v → Within s (letIn id v b)
  | body {s v b : Term} {id : Identifier} : Within s b → Within s (letIn id v b)

/-- Nowhere in the term a conjunction stands directly in a conjunction, nor a disjunction in a
    disjunction. -/
def IsFlat (t : Term) : Prop :=
  ∀ (j : Junction) ts us, Within (app j.id ts) t → app j.id us ∉ ts

theorem within_app_iff : Within s (app f ts) ↔ s = app f ts ∨ ∃ t ∈ ts, Within s t := by
  constructor
  · rintro (_ | ⟨ht, hs⟩)
    · exact Or.inl rfl
    · exact Or.inr ⟨_, ht, hs⟩
  · rintro (rfl | ⟨t, ht, hs⟩)
    · exact .self
    · exact .arg ht hs

theorem isFlat_app_iff : IsFlat (app f ts) ↔
    (∀ j : Junction, j.id = f → ∀ us, app j.id us ∉ ts) ∧ ∀ t ∈ ts, IsFlat t := by
  constructor
  · intro h
    constructor
    · rintro j rfl us
      exact h j ts us .self
    · intro t ht j vs us hvs
      exact h j vs us (.arg ht hvs)
  · rintro ⟨hhead, hargs⟩ j vs us hvs
    rcases within_app_iff.1 hvs with heq | ⟨t, ht, hvs⟩
    · obtain ⟨hf, rfl⟩ := app.inj heq
      exact hhead j hf us
    · exact hargs t ht j vs us hvs

theorem IsLeaf.isFlat (h : t.IsLeaf) : t.IsFlat := by
  rintro j ts us (_ | _ | _ | _) <;> exact h.elim

theorem isFlat_app (hf : ∀ j : Junction, j.id ≠ f) (hts : ∀ t ∈ ts, IsFlat t) :
    IsFlat (app f ts) :=
  isFlat_app_iff.2 ⟨fun j hj => absurd hj (hf j), hts⟩

theorem IsFlat.operands (h : t.IsFlat) (f : Identifier) : ∀ s ∈ t.operands f, s.IsFlat := by
  rcases operands_cases f t with ⟨ts, rfl, hts⟩ | ⟨-, hts⟩
  · rw [hts]
    exact (isFlat_app_iff.1 h).2
  · rw [hts]
    simpa using h

theorem IsFlat.not_mem_operands (h : t.IsFlat) (j : Junction) (us : List Term) :
    app j.id us ∉ t.operands j.id := by
  rcases operands_cases j.id t with ⟨ts, rfl, hts⟩ | ⟨hne, hts⟩
  · rw [hts]
    exact (isFlat_app_iff.1 h).1 j rfl us
  · rw [hts, List.mem_singleton]
    exact (hne us).symm

/-- **Joining keeps terms flat.** -/
theorem isFlat_join (j : Junction) (ht : t.IsFlat) (hu : u.IsFlat) : (j.join t u).IsFlat := by
  rw [Junction.join_eq, isFlat_app_iff]
  constructor
  · intro k hk us
    rw [hk, List.mem_append, not_or]
    exact ⟨ht.not_mem_operands j us, hu.not_mem_operands j us⟩
  · intro s hs
    rcases List.mem_append.1 hs with hs | hs
    · exact ht.operands j.id s hs
    · exact hu.operands j.id s hs

/-! ### Builders -/

/-- The terms that the builders make of literals and constants. -/
inductive Built : Term → Prop
  | leaf {t : Term} : t.IsLeaf → Built t
  | unary {t : Term} (f : Unary) : Built t → Built (unary f t)
  | binary {t u : Term} (f : Binary) : Built t → Built u → Built (binary f t u)
  | distinct {ts : List Term} : (∀ t ∈ ts, Built t) → Built (distinct ts)
  | ite {s t u : Term} : Built s → Built t → Built u → Built (ite s t u)
  | and {t u : Term} : Built t → Built u → Built (Term.and t u)
  | or {t u : Term} : Built t → Built u → Built (Term.or t u)

/-- **What is built is flat.** -/
theorem Built.isFlat (h : Built t) : t.IsFlat := by
  induction h with
  | leaf ht => exact ht.isFlat
  | unary f _ ht => exact isFlat_app (Junction.id_ne_unary f) (by simpa using ht)
  | binary f _ _ ht hu => exact isFlat_app (Junction.id_ne_binary f) (by simp [ht, hu])
  | distinct _ hts => exact isFlat_app (fun j => by cases j <;> decide) hts
  | ite _ _ _ hs ht hu => exact isFlat_app (fun j => by cases j <;> decide) (by simp [hs, ht, hu])
  | and _ _ ht hu => exact isFlat_join .conjunction ht hu
  | or _ _ ht hu => exact isFlat_join .disjunction ht hu

/-! ## Meaning -/

/-- What holds of terms where a conjunction holds if all its arguments do, and a disjunction if one
    of them does. -/
structure Interprets (holds : Term → Prop) : Prop where
  and_iff : ∀ ts, holds (app "and" ts) ↔ ∀ t ∈ ts, holds t
  or_iff : ∀ ts, holds (app "or" ts) ↔ ∃ t ∈ ts, holds t

namespace Interprets

variable {holds : Term → Prop}

theorem forall_operands (h : Interprets holds) (t : Term) :
    (∀ s ∈ t.operands "and", holds s) ↔ holds t := by
  rcases operands_cases "and" t with ⟨ts, rfl, hts⟩ | ⟨-, hts⟩
  · rw [hts, h.and_iff]
  · simp [hts]

theorem exists_operands (h : Interprets holds) (t : Term) :
    (∃ s ∈ t.operands "or", holds s) ↔ holds t := by
  rcases operands_cases "or" t with ⟨ts, rfl, hts⟩ | ⟨-, hts⟩
  · rw [hts, h.or_iff]
  · simp [hts]

theorem holds_and (h : Interprets holds) (t u : Term) :
    holds (Term.and t u) ↔ holds t ∧ holds u := by
  rw [Term.and, chain, h.and_iff, List.forall_mem_append, h.forall_operands, h.forall_operands]

theorem holds_or (h : Interprets holds) (t u : Term) :
    holds (Term.or t u) ↔ holds t ∨ holds u := by
  simp only [Term.or, chain, h.or_iff, List.mem_append, or_and_right, exists_or, h.exists_operands]

end Interprets

/-- The term is `true`, or is true for being made of such terms. -/
inductive IsTrue : Term → Prop
  | true : IsTrue (const "true")
  | and {ts : List Term} : (∀ t ∈ ts, IsTrue t) → IsTrue (app "and" ts)
  | or {t : Term} {ts : List Term} : t ∈ ts → IsTrue t → IsTrue (app "or" ts)

theorem isTrue_app_iff : IsTrue (app f ts) ↔
    f = "and" ∧ (∀ t ∈ ts, IsTrue t) ∨ f = "or" ∧ ∃ t ∈ ts, IsTrue t := by
  constructor
  · rintro (_ | hts | ⟨ht, h⟩)
    · exact Or.inl ⟨rfl, hts⟩
    · exact Or.inr ⟨rfl, _, ht, h⟩
  · rintro (⟨rfl, hts⟩ | ⟨rfl, t, ht, h⟩)
    · exact .and hts
    · exact .or ht h

theorem interprets_isTrue : Interprets IsTrue := by
  constructor
  · intro ts
    simp [isTrue_app_iff]
  · intro ts
    simp [isTrue_app_iff]

end Term

/-! ## The form of chains -/

open Term

/-- **Conjunctions and disjunctions have one flat form.** Terms that are joined two at a time give
    one application to the arguments of those that are such applications and to the others
    themselves, from left to right, so that brackets make no difference; and a conjunction stays
    whole in a disjunction, as a disjunction does in a conjunction. Joining keeps terms flat, so
    that whatever is built is flat, and it means what it says. -/
theorem chains_have_flat_form :
    (∀ (j : Junction) (l r : Bracketing), (Bracketing.node l r).term j =
      .app j.id ((l.leaves ++ r.leaves).flatMap (operands j.id))) ∧
    (∀ (j : Junction) (t : Term), (∃ ts, t = .app j.id ts ∧ t.operands j.id = ts) ∨
      (∀ ts, t ≠ .app j.id ts) ∧ t.operands j.id = [t]) ∧
    (∀ (j : Junction) (b c : Bracketing), b.leaves = c.leaves → b.term j = c.term j) ∧
    (∀ (ts us : List Term) (t : Term),
      Term.or (.app "and" ts) t = .app "or" (.app "and" ts :: t.operands "or") ∧
      Term.or t (.app "and" ts) = .app "or" (t.operands "or" ++ [.app "and" ts]) ∧
      Term.and (.app "or" us) t = .app "and" (.app "or" us :: t.operands "and") ∧
      Term.and t (.app "or" us) = .app "and" (t.operands "and" ++ [.app "or" us])) ∧
    (∀ t u : Term, t.IsFlat → u.IsFlat → (Term.and t u).IsFlat ∧ (Term.or t u).IsFlat) ∧
    (∀ t : Term, t.Built → t.IsFlat) ∧
    ∀ holds, Interprets holds → ∀ t u : Term,
      (holds (Term.and t u) ↔ holds t ∧ holds u) ∧ (holds (Term.or t u) ↔ holds t ∨ holds u) := by
  have hand (ts : List Term) : (Term.app "and" ts).operands "or" = [.app "and" ts] :=
    operands_app_of_ne (by decide) ts
  have hor (ts : List Term) : (Term.app "or" ts).operands "and" = [.app "or" ts] :=
    operands_app_of_ne (by decide) ts
  refine ⟨Bracketing.term_node, fun j => operands_cases j.id, fun j b c => Bracketing.term_congr j,
    ?_, ?_, fun t => Built.isFlat, ?_⟩
  · intro ts us t
    simp only [Term.and, Term.or, chain, hand, hor, List.singleton_append, and_self]
  · intro t u ht hu
    exact ⟨isFlat_join .conjunction ht hu, isFlat_join .disjunction ht hu⟩
  · intro holds h t u
    exact ⟨h.holds_and t u, h.holds_or t u⟩

/-- A conjunction and a disjunction among four terms that are joined, with brackets set in two
    ways. -/
theorem chains_have_flat_form_mixed :
    let p : Term := .const "p"
    let q : Term := .const "true"
    let both : Term := .app "and" [p, q]
    let either : Term := .app "or" [p, q]
    Term.and (Term.and p both) (Term.and either q) = .app "and" [p, p, q, either, q] ∧
      Term.and p (Term.and (Term.and both either) q) = .app "and" [p, p, q, either, q] ∧
      (Term.or both either).IsFlat ∧ IsTrue (Term.or both either) := by
  intro p q both either
  obtain ⟨hform, -, hbrackets, -, hjoin, hbuilt, hmeans⟩ := chains_have_flat_form
  let halves : Bracketing := .node (.node (.leaf p) (.leaf both)) (.node (.leaf either) (.leaf q))
  let nested : Bracketing := .node (.leaf p) (.node (.node (.leaf both) (.leaf either)) (.leaf q))
  have hhalves : halves.term .conjunction = .app "and" [p, p, q, either, q] := hform _ _ _
  have hp : p.Built := .leaf trivial
  have hq : q.Built := .leaf trivial
  have hboth : both.IsFlat := hbuilt _ (.and hp hq)
  have heither : either.IsFlat := hbuilt _ (.or hp hq)
  have htrue : IsTrue either := ((hmeans _ interprets_isTrue p q).2).2 (Or.inr .true)
  refine ⟨hhalves, (hbrackets .conjunction nested halves rfl).trans hhalves, ?_, ?_⟩
  · exact (hjoin _ _ hboth heither).2
  · exact ((hmeans _ interprets_isTrue both either).2).2 (Or.inr htrue)

end SmtDialogue
