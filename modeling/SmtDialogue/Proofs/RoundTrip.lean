/-
  What can be read back from its canonical text.

  * `Sexp.Readable` are the expressions that a text can hold;
  * `readable_of_flattens`: what is read is readable;
  * `layout_text`: the canonical text of a readable expression holds its tokens;
  * `parse_renders_iff_readable`: the readable expressions are those that are read back.
-/
import SmtDialogue.Proofs.Boundary
import SmtDialogue.Proofs.CanonicalText

namespace SmtDialogue

open Source

variable {text : List Char} {tokens : List Token} {rest : Source} {reader after : Reader} {x : Sexp}
  {xs : List Sexp}

namespace Sexp

mutual
/-- The expression can be read from a text. -/
def Readable : Sexp → Prop
  | list items => AllReadable items
  | symbol name => IsSymbolText name.toList
  | str text => isQuotable false text.toList
  | keyword name => ∀ c ∈ name.toList, isWordChar c
  | int n => 0 ≤ n.toInt
  | bitVec _ _ => False

/-- All the expressions can be read from a text. -/
def AllReadable : List Sexp → Prop
  | [] => True
  | x :: xs => Readable x ∧ AllReadable xs
end

theorem allReadable_iff : AllReadable xs ↔ ∀ x ∈ xs, x.Readable := by
  induction xs with
  | nil => simp [AllReadable]
  | cons x xs ih => simp [AllReadable, ih]

/-! ## What is read is readable -/

mutual
theorem readable_of_flattens : (x : Sexp) → ∀ {tokens : List Token}, Flattens x tokens →
    (∀ t ∈ tokens, t.Proper) → x.Readable
  | list items, tokens, hx, hproper => by
    obtain ⟨inner, rfl, hitems⟩ := hx
    exact allReadable_of_flattensAll items hitems fun t ht => hproper t (by simp [ht])
  | symbol name, tokens, hx, hproper
  | str text, tokens, hx, hproper
  | keyword name, tokens, hx, hproper => by
    obtain rfl := hx
    exact hproper _ List.mem_cons_self
  | int n, tokens, hx, hproper => by
    obtain ⟨digits, k, -, -, hk⟩ := hx
    rw [Readable, hk]
    exact Int.natCast_nonneg k
  | bitVec value width, tokens, hx, hproper => hx

theorem allReadable_of_flattensAll : (xs : List Sexp) → ∀ {tokens : List Token},
    FlattensAll xs tokens → (∀ t ∈ tokens, t.Proper) → AllReadable xs
  | [], tokens, hxs, hproper => trivial
  | x :: xs, tokens, hxs, hproper => by
    obtain ⟨first, others, rfl, hx, hxs⟩ := flattensAll_cons.1 hxs
    exact ⟨readable_of_flattens x hx fun t ht => hproper t (by simp [ht]),
      allReadable_of_flattensAll xs hxs fun t ht => hproper t (by simp [ht])⟩
end

/-! ## Canonical texts are read -/

theorem layout_atom {t : Token} (hx : x.Flattens [t]) (ht : t.Proper)
    (hspelling : x.text.toList = t.spelling) (hrest : EndsRun isWordChar rest) :
    ∃ tokens, x.Flattens tokens ∧ Layout tokens x.text.toList rest :=
  ⟨[t], hx, hspelling ▸ .singleton ht (Token.stopsBefore_of_endsRun hrest)⟩

mutual
/-- **The canonical text of a readable expression holds its tokens.** -/
theorem layout_text : (x : Sexp) → ∀ {rest : Source}, x.Readable → EndsRun isWordChar rest →
    ∃ tokens, x.Flattens tokens ∧ Layout tokens x.text.toList rest
  | list items, rest, hx, hrest => by
    have hclosing : Layout [.closing] [')'] rest := .singleton trivial trivial
    have hparen : ¬ isWordChar ')' := by decide
    have hbefore : EndsRun isWordChar (ofChars [')'] ++ rest) := hparen
    obtain ⟨inner, hitems, hinner⟩ := layout_texts items hx hbefore
    have hbehind := hinner.append hclosing
    have hopening : Layout (.opening :: (inner ++ [.closing])) _ rest :=
      .cons .nil trivial trivial hbehind
    refine ⟨_, ⟨inner, rfl, hitems⟩, ?_⟩
    simpa [Sexp.text, Token.spelling] using hopening
  | symbol name, rest, hx, hrest => layout_atom rfl hx rfl hrest
  | str text, rest, hx, hrest => layout_atom rfl hx (by simp [Sexp.text, Token.spelling]) hrest
  | keyword name, rest, hx, hrest => layout_atom rfl hx (by simp [Sexp.text, Token.spelling]) hrest
  | int n, rest, hx, hrest => by
    have hdecimal := Digits.isDecimal_repr n.toInt.natAbs
    have hn : n.toInt = n.toInt.natAbs := (Int.natAbs_of_nonneg hx).symm
    have hflattens : Flattens (int n) [.int (Nat.repr n.toInt.natAbs)] := ⟨_, _, rfl, hdecimal, hn⟩
    refine layout_atom hflattens ⟨hdecimal.1, hdecimal.2.1⟩ ?_ hrest
    rw [Sexp.text, if_neg (Int.not_lt.2 hx)]
    rfl
  | bitVec value width, rest, hx, hrest => hx.elim

/-- **The canonical texts of readable expressions, one space apart, hold their tokens.** -/
theorem layout_texts : (xs : List Sexp) → ∀ {rest : Source}, AllReadable xs →
    EndsRun isWordChar rest →
      ∃ tokens, FlattensAll xs tokens ∧
        Layout tokens (String.intercalate " " (texts xs)).toList rest
  | [], rest, hxs, hrest => ⟨[], rfl, by simpa [texts] using Layout.nil⟩
  | [x], rest, hxs, hrest => by
    obtain ⟨tokens, hx, hlayout⟩ := layout_text x hxs.1 hrest
    exact ⟨tokens, flattensAll_singleton.2 hx, by simpa [texts] using hlayout⟩
  | x :: y :: ys, rest, hxs, hrest => by
    obtain ⟨others, hothers, hmore⟩ := layout_texts (y :: ys) hxs.2 hrest
    have hne : others ≠ [] := by
      obtain ⟨first, later, rfl, hy, -⟩ := flattensAll_cons.1 hothers
      simp [ne_nil_of_flattens hy]
    have hspace : ¬ isWordChar ' ' := by decide
    have hbefore : EndsRun isWordChar
        (ofChars (' ' :: (String.intercalate " " (texts (y :: ys))).toList) ++ rest) := hspace
    obtain ⟨first, hx, hfirst⟩ := layout_text x hxs.1 hbefore
    have hblank : ∀ c ∈ [' '], isBlank c := List.all_eq_true.1 (by decide)
    have hlayout := hfirst.append (hmore.blanks hblank hne)
    refine ⟨first ++ others, flattensAll_cons.2 ⟨first, others, rfl, hx, hothers⟩, ?_⟩
    simpa [texts] using hlayout
end

end Sexp

/-! ## Reading canonical texts back -/

theorem parse_of_layout {text : String} (hxs : Sexp.FlattensAll xs tokens)
    (h : Layout tokens text.toList []) : parse text = .ok xs := by
  have hrest : (Reader.ofText text).rest = sized (fun _ => 1) text.toList ++ [] := by
    rw [List.append_nil]
    rfl
  have htakes := Reader.takes_of_layout h hrest
  have hlexes : (Reader.ofText text).Lexes (tokens ++ []) :=
    (Reader.lexes_append_iff htakes).2 (Reader.lexes_nil_iff.2 (Reader.ends_of_rest_nil rfl))
  rw [List.append_nil] at hlexes
  exact parse_eq_ok_iff.2 ((Reader.results_eq_iff rfl).2 ⟨tokens, hlexes, hxs⟩)

theorem parse_renders (h : ∀ x ∈ xs, x.Readable) :
    parse (String.intercalate " " (xs.map Sexp.render)) = .ok xs := by
  have hend : EndsRun isWordChar [] := trivial
  obtain ⟨tokens, hxs, hlayout⟩ := Sexp.layout_texts xs (Sexp.allReadable_iff.2 h) hend
  rw [Sexp.texts_eq_map, ← funext Sexp.render_eq_text] at hlayout
  exact parse_of_layout hxs hlayout

theorem readable_of_reads {text : String} (h : Reader.Reads (Reader.ofText text) xs after) :
    ∀ x ∈ xs, x.Readable := by
  obtain ⟨tokens, htakes, hxs⟩ := (Reader.reads_iff rfl).1 h
  obtain ⟨front, more, -, hlayout, -⟩ := Reader.layout_of_takes_ofChars htakes rfl
  exact Sexp.allReadable_iff.1 (Sexp.allReadable_of_flattensAll xs hxs hlayout.proper)

theorem readable_of_results {text : String} (h : .ok x ∈ (Reader.ofText text).results.1) :
    x.Readable := by
  obtain ⟨xs, after, hreads, hresults | ⟨e, hresults⟩⟩ := Reader.results_eq_or (Reader.ofText text)
  · exact readable_of_reads hreads x (by simpa [hresults] using h)
  · exact readable_of_reads hreads x (by simpa [hresults] using h)

/-- **The readable expressions are those that are read back from their canonical texts**, and
    what is read from any text is among them. -/
theorem parse_renders_iff_readable :
    (∀ xs : List Sexp, parse (String.intercalate " " (xs.map Sexp.render)) = .ok xs ↔
      ∀ x ∈ xs, x.Readable) ∧
    (∀ (text : String) (x : Sexp), .ok x ∈ (Reader.ofText text).results.1 →
      x.Readable ∧ parse x.render = .ok [x]) := by
  refine ⟨fun xs => ⟨fun h x hx => ?_, parse_renders⟩, fun text x h => ?_⟩
  · rw [parse_eq_ok_iff] at h
    exact readable_of_results (h ▸ List.mem_map_of_mem hx)
  · have hx : x.Readable := readable_of_results h
    have hall : ∀ y ∈ [x], y.Readable := by simpa using hx
    have hback := parse_renders hall
    rw [List.map_singleton, String.intercalate_singleton] at hback
    exact ⟨hx, hback⟩

end SmtDialogue
