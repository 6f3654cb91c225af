/-
  Which entries of a reply make up its model.

  * `Model.Gives`: an entry defines a constant by a value that denotes a term, and
    `entry_eq_ok_iff`: these are the entries that are kept;
  * `Model.HasEntries`: the replies that are a model, and their entries;
  * `ModelReading.Accounts`: the last good entry of a name gives its value, and all that are not
    good are told;
  * `model_foldl_congr`: only good entries make a difference for the model;
  * `each_entry_counts`: how any reply is read.
-/
import SmtDialogue.Proofs.CanonicalText
import SmtDialogue.Proofs.ModelReading

namespace SmtDialogue

variable {x v reply : Sexp} {xs ys : List Sexp} {name : Identifier} {t : Term}
  {reading : ModelReading}

namespace Sexp

theorem symbol?_eq_some_iff {name : String} : x.symbol? = some name ↔ x = .symbol name := by
  cases x <;> simp [symbol?]

theorem items?_eq_some_iff {items : List Sexp} : x.items? = some items ↔ x = .list items := by
  cases x <;> simp [items?]

end Sexp

/-- The term is a literal or a constant. -/
def Term.IsLeaf : Term → Prop
  | string _ | int _ | bitVec _ _ | const _ => True
  | app _ _ | letIn _ _ _ => False

theorem Term.isLeaf_of_ofSexp (h : ofSexp x = .ok t) : t.IsLeaf := by
  cases x with
  | list | keyword => cases h
  | int | symbol | str | bitVec =>
    obtain rfl := Except.ok.inj h
    trivial

namespace Model

/-! ## Good entries -/

theorem isLeaf_of_value (h : value v = .ok t) : t.IsLeaf := by
  rw [value.eq_def] at h
  split at h
  · split at h
    · obtain rfl := Except.ok.inj h
      trivial
    · cases h
  · split at h
    · obtain rfl := Except.ok.inj h
      trivial
    · cases h
  · split at h
    · obtain rfl := Except.ok.inj h
      trivial
    · split at h
      · obtain rfl := Except.ok.inj h
        trivial
      · cases h
  · exact Term.isLeaf_of_ofSexp h

/-- The entry is a definition of the constant, by a value that denotes the term. -/
def Gives (x : Sexp) (name : Identifier) (t : Term) : Prop :=
  ∃ v, Defines x name v ∧ value v = .ok t

/-- The entry defines some constant by a value that denotes a term. -/
def IsGood (x : Sexp) : Prop :=
  ∃ name t, Gives x name t

/-- **Entries that are kept are the good ones.** -/
theorem entry_eq_ok_iff : entry x = .ok (name, t) ↔ Gives x name t := by
  constructor
  · intro h
    unfold entry at h
    split at h
    · rename_i keyword found params sort v more
      split at h
      · cases h
      · rename_i hkeyword
        split at h
        · cases h
        · rename_i found' hfound
          split at h
          · cases h
          · rename_i hparams
            split at h
            · rename_i term hterm
              obtain ⟨rfl, rfl⟩ := Prod.mk.inj (Except.ok.inj h)
              rw [Bool.not_eq_true', Bool.not_eq_false, Request.isSymbol_iff] at hkeyword
              rw [Sexp.symbol?_eq_some_iff] at hfound
              rw [ne_eq, not_not, Sexp.items?_eq_some_iff] at hparams
              exact ⟨v, ⟨sort, more, by rw [hkeyword, hfound, hparams]⟩, hterm⟩
            · cases h
    · cases h
  · rintro ⟨v, hdefines, hvalue⟩
    rw [entry_of_defines hdefines, hvalue]

theorem isGood_iff : IsGood x ↔ ∃ binding, entry x = .ok binding := by
  constructor
  · rintro ⟨name, t, hgives⟩
    exact ⟨(name, t), entry_eq_ok_iff.2 hgives⟩
  · rintro ⟨⟨name, t⟩, hentry⟩
    exact ⟨name, t, entry_eq_ok_iff.1 hentry⟩

theorem not_isGood_of_error {fault : EntryFault} (h : entry x = .error fault) : ¬ IsGood x := by
  rw [isGood_iff, h]
  rintro ⟨binding, hbinding⟩
  cases hbinding

instance decidableIsGood : DecidablePred IsGood := fun x =>
  match h : entry x with
  | .ok binding => isTrue (isGood_iff.2 ⟨binding, h⟩)
  | .error _ => isFalse (not_isGood_of_error h)

theorem binding?_eq_some_iff : binding? name x = some t ↔ Gives x name t := by
  rw [← entry_eq_ok_iff, binding?]
  cases entry x with
  | error fault => simp
  | ok binding =>
    obtain ⟨found, term⟩ := binding
    simp only [Except.ok.injEq, Prod.mk.injEq]
    split_ifs with hname <;> simp [hname]

theorem binding?_eq_none_iff : binding? name x = none ↔ ∀ t, ¬ Gives x name t := by
  simp only [Option.eq_none_iff_forall_not_mem, Option.mem_def, binding?_eq_some_iff]

theorem map_skipped? (x : Sexp) :
    (skipped? x).map (·.entry) = Option.guard (fun x => decide (¬ IsGood x)) x := by
  unfold skipped?
  split
  · rename_i binding hentry
    have hgood : IsGood x := isGood_iff.2 ⟨binding, hentry⟩
    simp [Option.guard, hgood]
  · rename_i fault hentry
    have hgood : ¬ IsGood x := not_isGood_of_error hentry
    simp [Option.guard, hgood]

/-! ## Replies that are models -/

/-- The reply is a model with these entries: all items behind the symbol `model`, or all items of a
    list that starts with a list, if it is not empty. -/
inductive HasEntries : Sexp → List Sexp → Prop
  | headed {xs : List Sexp} : HasEntries (.list (.symbol "model" :: xs)) xs
  | empty : HasEntries (.list []) []
  | unheaded {items xs : List Sexp} : HasEntries (.list (.list items :: xs)) (.list items :: xs)

theorem entries?_eq_some_iff : entries? reply = some xs ↔ HasEntries reply xs := by
  constructor
  · intro h
    unfold entries? at h
    split at h
    · obtain rfl := Option.some.inj h
      exact .empty
    · obtain rfl := Option.some.inj h
      exact .unheaded
    · split at h
      · rename_i hmodel
        obtain rfl := Option.some.inj h
        rw [Request.isSymbol_iff.1 hmodel]
        exact .headed
      · cases h
    · cases h
  · rintro (_ | _ | _) <;> rfl

theorem entries?_cons {first : Sexp} (h : ∀ items, first ≠ .list items) (rest : List Sexp) :
    entries? (.list (first :: rest)) = if first.isSymbol "model" then some rest else none := by
  cases first with
  | list items => exact absurd rfl (h items)
  | symbol | str | keyword | int | bitVec => rfl

theorem entries?_eq_none_iff : entries? reply = none ↔ (∀ items, reply ≠ .list items) ∨
    ∃ first rest, reply = .list (first :: rest) ∧ (∀ items, first ≠ .list items) ∧
      first ≠ .symbol "model" := by
  constructor
  · intro h
    cases reply with
    | list items =>
      cases items with
      | nil => cases h
      | cons first rest =>
        refine Or.inr ⟨first, rest, rfl, ?_, ?_⟩
        · rintro items rfl
          cases h
        · rintro rfl
          cases h
    | symbol | str | keyword | int | bitVec => exact Or.inl nofun
  · rintro (hlist | ⟨first, rest, rfl, hlist, hmodel⟩)
    · cases reply with
      | list items => exact absurd rfl (hlist items)
      | symbol | str | keyword | int | bitVec => rfl
    · rw [entries?_cons hlist, if_neg (Request.isSymbol_iff.not.2 hmodel)]

end Model

/-! ## What a reading tells -/

namespace SkippedEntry

theorem text_infix_message (skipped : SkippedEntry) :
    skipped.entry.text.toList <:+: skipped.message.toList := by
  obtain ⟨x, fault⟩ := skipped
  cases fault with
  | malformed =>
    refine ⟨"skipping malformed model entry `".toList, "'".toList, ?_⟩
    simp [message, Sexp.render_eq_text]
  | notDefinition =>
    refine ⟨"skipping model entry `".toList, "': not a definition".toList, ?_⟩
    simp [message, Sexp.render_eq_text]
  | nameNotSymbol =>
    refine ⟨"skipping model entry `".toList, "': name is not a symbol".toList, ?_⟩
    simp [message, Sexp.render_eq_text]
  | hasParameters =>
    refine ⟨"skipping model entry `".toList, "': function with parameters".toList, ?_⟩
    simp [message, Sexp.render_eq_text]
  | unparsableValue e =>
    refine ⟨"skipping model entry `".toList, "': ".toList ++ e.message.toList, ?_⟩
    simp [message, Sexp.render_eq_text]

end SkippedEntry

namespace ModelReading

open Model

/-- A reading accounts for each entry: the last good one of a name gives its value, and those that
    are not good are told in order, each with its text. -/
structure Accounts (xs : List Sexp) (reading : ModelReading) : Prop where
  bound : ∀ name, name ∈ reading.model ↔ ∃ x ∈ xs, ∃ t, Gives x name t
  last : ∀ (name : Identifier) t, reading.model[name]? = some t ↔ ∃ front x back,
    xs = front ++ x :: back ∧ Gives x name t ∧ ∀ y ∈ back, ∀ u, ¬ Gives y name u
  leaf : ∀ (name : Identifier) t, reading.model[name]? = some t → t.IsLeaf
  told : reading.skipped.map (·.entry) = xs.filter (¬ IsGood ·)
  shown : ∀ skipped ∈ reading.skipped, skipped.entry.text.toList <:+: skipped.message.toList

/-- The value of a name is given by an entry behind which no good one has the name. -/
theorem Tells.last_iff (h : reading.Tells xs) : reading.model[name]? = some t ↔
    ∃ front x back, xs = front ++ x :: back ∧ Gives x name t ∧
      ∀ y ∈ back, ∀ u, ¬ Gives y name u := by
  rw [h.values, List.findSome?_eq_some_iff]
  constructor
  · rintro ⟨back, x, front, hxs, hx, hback⟩
    refine ⟨front.reverse, x, back.reverse, ?_, binding?_eq_some_iff.1 hx, ?_⟩
    · rw [← List.reverse_reverse xs, hxs]
      simp
    · intro y hy
      exact binding?_eq_none_iff.1 (hback y (List.mem_reverse.1 hy))
  · rintro ⟨front, x, back, rfl, hx, hback⟩
    refine ⟨back.reverse, x, front.reverse, by simp, binding?_eq_some_iff.2 hx, ?_⟩
    intro y hy
    exact binding?_eq_none_iff.2 (hback y (List.mem_reverse.1 hy))

/-- **What tells the entries accounts for each of them.** -/
theorem Tells.accounts (h : reading.Tells xs) : reading.Accounts xs where
  bound := by
    intro name
    rw [Std.TreeMap.mem_iff_isSome_getElem?, h.values, List.findSome?_isSome_iff]
    simp only [List.mem_reverse, Option.isSome_iff_exists, binding?_eq_some_iff]
  last := fun _ _ => h.last_iff
  leaf := by
    intro name t hvalue
    obtain ⟨front, x, back, -, ⟨v, -, ht⟩, -⟩ := h.last_iff.1 hvalue
    exact isLeaf_of_value ht
  told := by
    rw [h.skipped, List.map_filterMap, ← List.filterMap_eq_filter]
    exact congrArg (List.filterMap · xs) (funext map_skipped?)
  shown := fun skipped _ => skipped.text_infix_message

theorem model_foldl_filter (xs : List Sexp) (reading reading' : ModelReading)
    (h : reading.model = reading'.model) :
    (xs.foldl add reading).model = ((xs.filter (IsGood ·)).foldl add reading').model := by
  induction xs generalizing reading reading' with
  | nil => exact h
  | cons x xs ih =>
    cases hentry : entry x with
    | ok binding =>
      rw [List.filter_cons_of_pos (by simpa using isGood_iff.2 ⟨binding, hentry⟩)]
      refine ih _ _ ?_
      simp only [add, hentry, h]
    | error fault =>
      rw [List.filter_cons_of_neg (by simpa using not_isGood_of_error hentry)]
      refine ih _ _ ?_
      simp only [add, hentry, h]

/-- **The model is that of the good entries.** -/
theorem model_foldl_congr (h : xs.filter (IsGood ·) = ys.filter (IsGood ·)) :
    (xs.foldl add {}).model = (ys.foldl add {}).model := by
  rw [model_foldl_filter xs {} {} rfl, h, ← model_foldl_filter ys {} {} rfl]

end ModelReading

namespace Model

/-- **Each entry counts for itself.** A reply is no model exactly if it is no list, or a list whose
    first item is neither a list nor the symbol `model`. All entries of a model are accounted for.
    Behind the first item of a reply, entries that are not good make no difference for the model,
    and neither does the symbol `model` before a model without it. -/
theorem each_entry_counts :
    (∀ reply, ofReply? reply = none ↔ (∀ items, reply ≠ .list items) ∨
      ∃ first rest, reply = .list (first :: rest) ∧ (∀ items, first ≠ .list items) ∧
        first ≠ .symbol "model") ∧
    (∀ reply reading, ofReply? reply = some reading →
      ∃ xs, HasEntries reply xs ∧ reading.Accounts xs) ∧
    (∀ (first : Sexp) (rest kept : List Sexp), kept.filter (IsGood ·) = rest.filter (IsGood ·) →
      (ofReply? (.list (first :: kept))).map (·.model) =
        (ofReply? (.list (first :: rest))).map (·.model)) ∧
    ∀ xs, HasEntries (.list xs) xs →
      ofReply? (.list (.symbol "model" :: xs)) = ofReply? (.list xs) := by
  refine ⟨?_, ?_, ?_, ?_⟩
  · intro reply
    rw [ofReply?, Option.map_eq_none_iff, entries?_eq_none_iff]
  · intro reply reading h
    obtain ⟨xs, hxs, rfl⟩ := Option.map_eq_some_iff.1 h
    exact ⟨xs, entries?_eq_some_iff.1 hxs, (ModelReading.tells_foldl xs).accounts⟩
  · intro first rest kept hkept
    by_cases hfirst : ∃ items, first = .list items
    · obtain ⟨items, rfl⟩ := hfirst
      refine congrArg some (ModelReading.model_foldl_congr ?_)
      rw [List.filter_cons, List.filter_cons, hkept]
    · have hitem : ∀ items, first ≠ .list items := fun items heq => hfirst ⟨items, heq⟩
      rw [ofReply?, ofReply?, entries?_cons hitem, entries?_cons hitem]
      split_ifs
      · exact congrArg some (ModelReading.model_foldl_congr hkept)
      · rfl
  · intro xs hxs
    rw [ofReply?, ofReply?, entries?_eq_some_iff.2 hxs, entries?_eq_some_iff.2 .headed]

end Model

end SmtDialogue
