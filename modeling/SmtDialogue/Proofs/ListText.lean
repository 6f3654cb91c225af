/-
  Texts of lists, made from the texts of their items.

  There may be numerals that are out of range in them, so that they are no expressions.

  * `Spells`: a text holds given tokens wherever no word goes on behind it, and
    `Spells.list`: items one space apart, in parentheses;
  * `SpellsWith`: the text holds well-formed tokens, and the first numeral in it that is out
    of range is given;
  * `SpellsWith.list`, `exists_items`: it is the first one in an item.
-/
import SmtDialogue.Proofs.Overflow

namespace SmtDialogue

open Source

/-- The text holds these tokens, whatever stands behind it that is no word. -/
structure Spells (tokens : List Token) (text : String) : Prop where
  ne_nil : tokens ≠ []
  layout : ∀ {rest : Source}, EndsRun isWordChar rest → Layout tokens text.toList rest

variable {tokens : List Token} {text : String}

theorem Spells.token {t : Token} (ht : t.Proper) (htext : text.toList = t.spelling) :
    Spells [t] text := by
  refine ⟨by simp, fun hrest => ?_⟩
  rw [htext]
  exact .singleton ht (Token.stopsBefore_of_endsRun hrest)

theorem Sexp.spells_text {x : Sexp} (hx : x.Readable) :
    ∃ tokens, x.Flattens tokens ∧ Spells tokens x.text := by
  have hend : EndsRun isWordChar [] := trivial
  obtain ⟨tokens, hflattens, hlayout⟩ := Sexp.layout_text x hx hend
  refine ⟨tokens, hflattens, Sexp.ne_nil_of_flattens hflattens, fun hrest => ?_⟩
  exact hlayout.congr fun t _ => Token.stopsBefore_of_endsRun hrest

theorem layout_intercalate {items : List (List Token)} {texts : List String}
    (h : List.Forall₂ Spells items texts) {rest : Source} (hrest : EndsRun isWordChar rest) :
    Layout items.flatten (String.intercalate " " texts).toList rest := by
  induction h with
  | nil => simpa using Layout.nil
  | @cons item text items texts hitem hitems ih =>
    cases hitems with
    | nil => simpa using hitem.layout hrest
    | @cons next other items texts hnext hothers =>
      have hspace : ¬ isWordChar ' ' := by decide
      have hbefore : EndsRun isWordChar
          (ofChars (' ' :: (String.intercalate " " (other :: texts)).toList) ++ rest) := hspace
      have hblank : ∀ c ∈ [' '], isBlank c := List.all_eq_true.1 (by decide)
      have hne : (next :: items).flatten ≠ [] := by simp [hnext.ne_nil]
      simpa using (hitem.layout hbefore).append (ih.blanks hblank hne)

/-- **Items one space apart make a list.** -/
theorem Spells.list {items : List (List Token)} {texts : List String}
    (h : List.Forall₂ Spells items texts) :
    Spells (.opening :: (items.flatten ++ [.closing]))
      ("(" ++ String.intercalate " " texts ++ ")") := by
  refine ⟨by simp, fun {rest} hrest => ?_⟩
  have hclosing : Layout [.closing] [')'] rest := .singleton trivial trivial
  have hparen : ¬ isWordChar ')' := by decide
  have hbefore : EndsRun isWordChar (ofChars [')'] ++ rest) := hparen
  have hlayout : Layout (.opening :: (items.flatten ++ [.closing])) _ rest :=
    .cons .nil trivial trivial ((layout_intercalate h hbefore).append hclosing)
  simpa [Token.spelling] using hlayout

/-! ## Numerals of any length -/

/-- The text holds well-formed tokens, `large` being the first numeral that is out of range. -/
def SpellsWith (large : Option String) (text : String) : Prop :=
  ∃ tokens, Spells tokens text ∧ Balanced tokens ∧ overflow? tokens = large

namespace SpellsWith

theorem symbol {name : String} (h : IsSymbolText name.toList) : SpellsWith none name :=
  ⟨[.symbol name], .token h rfl, .atom trivial .nil, rfl⟩

theorem int {digits : String} (hne : digits.toList ≠ []) (h : ∀ c ∈ digits.toList, c.isDigit) :
    SpellsWith (Token.overflow? (.int digits)) digits := by
  refine ⟨[.int digits], .token ⟨hne, h⟩ rfl, .atom trivial .nil, ?_⟩
  rw [overflow?_cons]
  exact Option.or_none

theorem exists_items (items : List (Option String × String))
    (h : ∀ item ∈ items, SpellsWith item.1 item.2) :
    ∃ tokens : List (List Token), List.Forall₂ Spells tokens (items.map Prod.snd) ∧
      Balanced tokens.flatten ∧ overflow? tokens.flatten = items.findSome? Prod.fst := by
  induction items with
  | nil => exact ⟨[], .nil, .nil, rfl⟩
  | cons item items ih =>
    obtain ⟨first, hfirst, hbalanced, hover⟩ := h item List.mem_cons_self
    obtain ⟨others, hothers, hmore, hrest⟩ :=
      ih fun other hother => h other (List.mem_cons_of_mem item hother)
    refine ⟨first :: others, .cons hfirst hothers, hbalanced.append hmore, ?_⟩
    rw [List.flatten_cons, overflow?_append, hover, hrest, List.findSome?_cons]
    cases item.1 <;> rfl

/-- **Items one space apart make a list**, and the first numeral out of range is the first one
    in an item. -/
theorem list (items : List (Option String × String))
    (h : ∀ item ∈ items, SpellsWith item.1 item.2) :
    SpellsWith (items.findSome? Prod.fst)
      ("(" ++ String.intercalate " " (items.map Prod.snd) ++ ")") := by
  obtain ⟨tokens, hspells, hbalanced, hover⟩ := exists_items items h
  refine ⟨_, .list hspells, .list hbalanced .nil, ?_⟩
  rw [overflow?_cons, overflow?_append, hover]
  exact Option.or_none

end SpellsWith

end SmtDialogue
