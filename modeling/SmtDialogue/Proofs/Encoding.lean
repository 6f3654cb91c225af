/-
  Terms and sorts can be told from the expressions that are written for them.

  * `Term.toSexp_inj`, `SortExpr.toSexp_inj`: different terms are written differently, and so are
    different sorts;
  * `Term.ofSexp_toSexp`: literals and constants are read back, and the expressions of all other
    terms are told as they are;
  * `encoding_loses_nothing`: both together.
-/
import SmtDialogue.Proofs.ModelEntries
import SmtDialogue.Term.Encoding
import SmtDialogue.Term.Sort

namespace SmtDialogue

namespace Term

variable {x : Sexp} {t : Term}

/-! ## Terms -/

/-- The expression of a term that is a list starts with a symbol. -/
theorem toSexp_ne_nested (t : Term) (xs ys : List Sexp) : t.toSexp ≠ .list (.list xs :: ys) := by
  cases t <;> simp [toSexp]

/-- No function is applied to what a name is bound by. -/
theorem toSexp_app_ne_letIn (f : Identifier) (ts : List Term) (id : Identifier) (v b : Term) :
    (app f ts).toSexp ≠ (letIn id v b).toSexp := by
  intro h
  simp only [toSexp, Sexp.list.injEq, List.cons.injEq] at h
  cases ts with
  | nil => cases h.2
  | cons t ts =>
    simp only [toSexps, List.cons.injEq] at h
    exact toSexp_ne_nested t _ _ h.2.1

mutual
/-- **A term can be told from its expression.** -/
theorem toSexp_inj : (t u : Term) → (t.toSexp = u.toSexp ↔ t = u)
  | string _, u | int _, u | bitVec _ _, u | const _, u => by cases u <;> simp [toSexp]
  | app f ts, u => by
    cases u with
    | app g us => simp [toSexp, toSexps_inj ts us]
    | letIn id v b => simp [toSexp_app_ne_letIn]
    | string | int | bitVec | const => simp [toSexp]
  | letIn id v b, u => by
    cases u with
    | app g us => simp [(toSexp_app_ne_letIn g us id v b).symm]
    | letIn id' v' b' => simp [toSexp, toSexp_inj v v', toSexp_inj b b', and_assoc]
    | string | int | bitVec | const => simp [toSexp]

theorem toSexps_inj : (ts us : List Term) → (toSexps ts = toSexps us ↔ ts = us)
  | [], us => by cases us <;> simp [toSexps]
  | t :: ts, us => by
    cases us with
    | nil => simp [toSexps]
    | cons u us => simp [toSexps, toSexp_inj t u, toSexps_inj ts us]
end

theorem toSexp_of_ofSexp (h : ofSexp x = .ok t) : t.toSexp = x := by
  cases x with
  | list | keyword => cases h
  | int | symbol | str | bitVec =>
    obtain rfl := Except.ok.inj h
    rfl

/-- Literals and constants are read back, and all else is told as it is written. -/
theorem ofSexp_toSexp (t : Term) :
    t.IsLeaf ∧ ofSexp t.toSexp = .ok t ∨ ¬ t.IsLeaf ∧ ofSexp t.toSexp = .error ⟨t.toSexp⟩ := by
  cases t with
  | string | int | bitVec | const => exact Or.inl ⟨trivial, rfl⟩
  | app | letIn => exact Or.inr ⟨id, rfl⟩

/-- **What is read as a term is what is written for it**, if the term is a literal or constant. -/
theorem ofSexp_eq_ok_iff : ofSexp x = .ok t ↔ t.IsLeaf ∧ t.toSexp = x := by
  constructor
  · intro h
    exact ⟨isLeaf_of_ofSexp h, toSexp_of_ofSexp h⟩
  · rintro ⟨hleaf, rfl⟩
    rcases ofSexp_toSexp t with ⟨-, h⟩ | ⟨hnot, -⟩
    · exact h
    · exact absurd hleaf hnot

end Term

namespace SortExpr

/-! ## Sorts -/

theorem toSexp_ne_int (s : SortExpr) (n : Int64) : s.toSexp ≠ .int n := by
  cases s <;> simp [toSexp]

/-- No sort is applied to a width. -/
theorem toSexp_app_ne_bitVec (f : Identifier) (ss : List SortExpr) (width : Int64) :
    (app f ss).toSexp ≠ (bitVec width).toSexp := by
  intro h
  simp only [toSexp, Sexp.list.injEq, List.cons.injEq] at h
  match ss with
  | [] => cases h.2
  | [_] => simp [toSexps] at h
  | _ :: s :: _ =>
    simp only [toSexps, List.cons.injEq] at h
    exact toSexp_ne_int s width h.2.2.1

mutual
/-- **A sort can be told from its expression.** -/
theorem toSexp_inj : (s r : SortExpr) → (s.toSexp = r.toSexp ↔ s = r)
  | name _, r => by cases r <;> simp [toSexp]
  | app f ss, r => by
    cases r with
    | app g rs => simp [toSexp, toSexps_inj ss rs]
    | bitVec width => simp [toSexp_app_ne_bitVec]
    | name => simp [toSexp]
  | bitVec width, r => by
    cases r with
    | app g rs => simp [(toSexp_app_ne_bitVec g rs width).symm]
    | bitVec width' => simp [toSexp]
    | name => simp [toSexp]

theorem toSexps_inj : (ss rs : List SortExpr) → (toSexps ss = toSexps rs ↔ ss = rs)
  | [], rs => by cases rs <;> simp [toSexps]
  | s :: ss, rs => by
    cases rs with
    | nil => simp [toSexps]
    | cons r rs => simp [toSexps, toSexp_inj s r, toSexps_inj ss rs]
end

end SortExpr

/-! ## Both directions -/

/-- **Encoding loses nothing.** Different terms have different expressions, be it a `let` and the
    application of a function of this name, and so have different sorts, be it a bit-vector sort and
    the application of `_`. An expression is read as a term exactly if it is the expression of that
    term and the term is a literal or a constant; the expression of any other term is told to be
    none. -/
theorem encoding_loses_nothing :
    (∀ t u : Term, t.toSexp = u.toSexp ↔ t = u) ∧
    (∀ s r : SortExpr, s.toSexp = r.toSexp ↔ s = r) ∧
    (∀ (x : Sexp) (t : Term), Term.ofSexp x = .ok t ↔ t.IsLeaf ∧ t.toSexp = x) ∧
    ∀ t : Term, t.IsLeaf ∧ Term.ofSexp t.toSexp = .ok t ∨
      ¬ t.IsLeaf ∧ Term.ofSexp t.toSexp = .error ⟨t.toSexp⟩ :=
  ⟨Term.toSexp_inj, SortExpr.toSexp_inj, fun _ _ => Term.ofSexp_eq_ok_iff, Term.ofSexp_toSexp⟩

end SmtDialogue
