/-
  Models as texts: definitions of constants by literals and constants.

  * `Definition.text` and `modelText`: the texts of a definition and of a model, with or
    without its head;
  * `Term.Recoverable`: the values that are read back, and `value_spelledOut`: they are;
  * `tells_definitions`: what is read from definitions of distinct names;
  * `modelText_spells`: the tokens of a model that may hold the least integer, whose
    numeral is out of range;
  * `model_is_read_back`: a model is read back, value by value.
-/
import Mathlib.Data.List.Nodup
import SmtDialogue.Proofs.BitLiteral
import SmtDialogue.Proofs.ListText
import SmtDialogue.Proofs.ModelReading
import SmtDialogue.Proofs.Overflow
import SmtDialogue.Proofs.WrittenForm

namespace SmtDialogue

/-! ## Values that are read back -/

namespace Term

/-- The term is a literal, or a constant that is not written like one, and it is written in a
    way that can be read. -/
def Recoverable : Term → Prop
  | string text => Source.isQuotable false text.toList
  | int n => Int64.minValue < n
  | bitVec _ width => 0 ≤ width
  | const id => IsSymbolText id.toList ∧ ∀ n k, ¬ Model.IsLiteral id n k
  | app _ _ | letIn _ _ _ => False

theorem writable_of_recoverable {t : Term} (h : t.Recoverable) : t.Writable := by
  cases t with
  | string | int | bitVec => exact h
  | const id => exact h.1
  | app | letIn => exact h.elim

end Term

namespace Model

/-- **What is written for a value is read as the value.** -/
theorem value_spelledOut {t : Term} (h : t.Recoverable) :
    value t.toSexp.spelledOut = .ok t := by
  cases t with
  | string text => rfl
  | int n =>
    by_cases hneg : n < 0
    · have hminus : (Sexp.symbol "-").isSymbol "-" = true := rfl
      rw [Term.toSexp, Sexp.spelledOut, if_pos hneg, value, if_pos hminus, Int64.neg_neg]
    · rw [Term.toSexp, Sexp.spelledOut, if_neg hneg]
      rfl
  | bitVec n width =>
    have hindex : (Sexp.symbol "_").isSymbol "_" = true := rfl
    have hname : indexed? ("bv" ++ Nat.repr n.toNat).toList = some n :=
      indexed?_eq_some_iff.2 ⟨_, by simp, Or.inl (Digits.isDecimal_repr _)⟩
    simp only [Term.toSexp, Sexp.spelledOut, value, hindex, if_true, hname]
  | const id =>
    simp only [Term.toSexp, Sexp.spelledOut, value, bitLiteral?_eq_none_iff.2 h.2]
  | app | letIn => exact h.elim

end Model

/-! ## Definitions and models -/

/-- A definition as it stands in a model, given the texts of its parts. -/
def definitionText (name sort value : String) : String :=
  "(" ++ String.intercalate " " ["define-fun", name, "()", sort, value] ++ ")"

/-- The definition of a constant by a value. -/
structure Definition where
  name : Identifier
  sort : SortExpr
  value : Term

namespace Definition

/-- The definition as it stands in a model. -/
def text (d : Definition) : String :=
  definitionText d.name d.sort.toSexp.render d.value.toSexp.render

/-- The expression that the text of the definition is. -/
def toSexp (d : Definition) : Sexp :=
  .list [.symbol "define-fun", .symbol d.name, .list [], d.sort.toSexp, d.value.toSexp]

/-- Name, sort and value are written in a way that can be read, but that the value may be
    the least integer. -/
structure Writable (d : Definition) : Prop where
  name : IsSymbolText d.name.toList
  sort : d.sort.Writable
  value : d.value.Recoverable ∨ d.value = .int Int64.minValue

variable {d : Definition}

theorem render_toSexp (d : Definition) : d.toSexp.render = d.text := by
  have hparams : (Sexp.list []).text = "()" := by decide +kernel
  rw [Sexp.render_eq_text, toSexp, text, Sexp.text, Sexp.texts_eq_map, Sexp.render_eq_text,
    Sexp.render_eq_text]
  simp only [List.map_cons, List.map_nil, hparams]
  rfl

theorem writable_toSexp (hd : d.Writable) (hvalue : d.value.Recoverable) : d.toSexp.Writable := by
  have hkeyword : IsSymbolText "define-fun".toList := by decide
  exact ⟨hkeyword, hd.name, trivial, SortExpr.writable_toSexp d.sort hd.sort,
    Term.writable_toSexp d.value (Term.writable_of_recoverable hvalue), trivial⟩

theorem entry_spelledOut (hvalue : d.value.Recoverable) :
    Model.entry d.toSexp.spelledOut = .ok (d.name, d.value) := by
  have hdefines : Model.Defines d.toSexp.spelledOut d.name d.value.toSexp.spelledOut :=
    ⟨d.sort.toSexp.spelledOut, [], rfl⟩
  rw [Model.entry_of_defines hdefines, Model.value_spelledOut hvalue]

end Definition

variable {headed : Bool} {ds : List Definition}

/-- A model as a text, with or without its head. -/
def modelText (headed : Bool) (ds : List Definition) : String :=
  "(" ++ String.intercalate " "
    ((if headed then ["model"] else []) ++ ds.map Definition.text) ++ ")"

/-- The expression that the text of a model is. -/
def modelSexp (headed : Bool) (ds : List Definition) : Sexp :=
  .list ((if headed then [.symbol "model"] else []) ++ ds.map Definition.toSexp)

theorem render_modelSexp (headed : Bool) (ds : List Definition) :
    (modelSexp headed ds).render = modelText headed ds := by
  have htexts : ds.map (Sexp.text ∘ Definition.toSexp) = ds.map Definition.text := by
    refine List.map_congr_left fun d _ => ?_
    rw [Function.comp_apply, ← Sexp.render_eq_text, Definition.render_toSexp]
  rw [Sexp.render_eq_text, modelSexp, Sexp.text, Sexp.texts_eq_map, List.map_append, List.map_map,
    htexts, modelText]
  cases headed <;> rfl

theorem writable_modelSexp (headed : Bool) (hds : ∀ d ∈ ds, d.Writable)
    (hvalues : ∀ d ∈ ds, d.value.Recoverable) : (modelSexp headed ds).Writable := by
  have hhead : IsSymbolText "model".toList := by decide
  rw [modelSexp, Sexp.writable_list]
  intro x hx
  rcases List.mem_append.1 hx with hx | hx
  · cases headed with
    | true =>
      obtain rfl := List.mem_singleton.1 hx
      exact hhead
    | false => simp at hx
  · obtain ⟨d, hd, rfl⟩ := List.mem_map.1 hx
    exact Definition.writable_toSexp (hds d hd) (hvalues d hd)

theorem ofReply?_modelSexp (headed : Bool) (ds : List Definition) :
    ∃ reading, Model.ofReply? (modelSexp headed ds).spelledOut = some reading ∧
      reading.Tells (ds.map fun d => d.toSexp.spelledOut) := by
  rw [modelSexp, Sexp.spelledOut, Sexp.allSpelledOut_eq_map, List.map_append, List.map_map]
  cases headed with
  | true => exact Model.ofReply?_headed _
  | false =>
    refine Model.ofReply?_unheaded ?_
    cases ds with
    | nil => simp
    | cons d ds =>
      intro x hx
      obtain rfl := Option.some.inj hx
      exact ⟨_, rfl⟩

/-- **Of distinct names, each has the value that its definition gives it.** -/
theorem tells_definitions {reading : ModelReading} (hnames : (ds.map Definition.name).Nodup)
    (hvalues : ∀ d ∈ ds, d.value.Recoverable)
    (h : reading.Tells (ds.map fun d => d.toSexp.spelledOut)) :
    reading.skipped = [] ∧ ∀ name term, reading.model[name]? = some term ↔
      ∃ d ∈ ds, d.name = name ∧ d.value = term := by
  constructor
  · rw [h.skipped, List.filterMap_eq_nil_iff]
    intro x hx
    obtain ⟨d, hd, rfl⟩ := List.mem_map.1 hx
    rw [Model.skipped?, Definition.entry_spelledOut (hvalues d hd)]
  · intro name term
    have hbinding (d : Definition) (hd : d ∈ ds) : Model.binding? name d.toSexp.spelledOut =
        if d.name = name then some d.value else none := by
      rw [Model.binding?, Definition.entry_spelledOut (hvalues d hd)]
    have hfound (found : Term) (hsome : reading.model[name]? = some found) :
        ∃ d ∈ ds, d.name = name ∧ d.value = found := by
      rw [h.values] at hsome
      obtain ⟨x, hx, hsays⟩ := List.exists_of_findSome?_eq_some hsome
      obtain ⟨d, hd, rfl⟩ := List.mem_map.1 (List.mem_reverse.1 hx)
      rw [hbinding d hd, Option.ite_none_right_eq_some, Option.some.injEq] at hsays
      exact ⟨d, hd, hsays⟩
    refine ⟨hfound term, ?_⟩
    rintro ⟨d, hd, rfl, rfl⟩
    cases hvalue : reading.model[d.name]? with
    | some found =>
      obtain ⟨other, hother, hname, rfl⟩ := hfound found hvalue
      rw [List.inj_on_of_nodup_map hnames hother hd hname]
    | none =>
      rw [h.values, List.findSome?_eq_none_iff] at hvalue
      have hsilent := hvalue _ (List.mem_reverse.2 (List.mem_map_of_mem hd))
      rw [hbinding d hd, if_pos rfl] at hsilent
      simp at hsilent

/-! ## The least integer -/

/-- The numeral that is written for the least integer. It is out of range. -/
def leastNumeral : String := "9223372036854775808"

theorem overflow?_leastNumeral : Token.overflow? (.int leastNumeral) = some leastNumeral := by
  have hlimit : Digits.IsDecimal leastNumeral.toList Assembly.intLimit :=
    Digits.value?_ten_eq_some_iff.1 (by decide +kernel)
  rw [Token.overflow?, (Assembly.int?_eq_none_iff hlimit).2 (Nat.le_refl _)]
  rfl

theorem Sexp.spellsWith_render {x : Sexp} (hx : x.Writable) : SpellsWith none x.render := by
  obtain ⟨tokens, hflattens, hspells⟩ := Sexp.spells_text (Sexp.readable_spelledOut x hx)
  rw [Sexp.text_spelledOut x hx, ← Sexp.render_eq_text] at hspells
  exact ⟨tokens, hspells, balanced_of_flattens _ hflattens⟩

theorem spellsWith_definition {name sort value : String} {large : Option String}
    (hname : IsSymbolText name.toList) (hsort : SpellsWith none sort)
    (hvalue : SpellsWith large value) :
    SpellsWith large (definitionText name sort value) := by
  have hkeyword : SpellsWith none "define-fun" := .symbol (by decide)
  have hparams : SpellsWith none "()" := .list [] (by simp)
  have hword : SpellsWith none name := .symbol hname
  have hlist := SpellsWith.list [(none, "define-fun"), (none, name), (none, "()"),
    (none, sort), (large, value)] (by simp [hkeyword, hword, hparams, hsort, hvalue])
  cases large <;> exact hlist

theorem spells_model (items : List (Option String × String))
    (h : ∀ item ∈ items, SpellsWith item.1 item.2) :
    ∃ inner, Spells (.opening :: .symbol "model" :: (inner ++ [.closing]))
        ("(" ++ String.intercalate " " ("model" :: items.map Prod.snd) ++ ")") ∧
      Balanced inner ∧ overflow? inner = items.findSome? Prod.fst := by
  obtain ⟨tokens, hspells, hbalanced, hover⟩ := SpellsWith.exists_items items h
  have hhead : IsSymbolText "model".toList := by decide
  have hmodel : Spells [.symbol "model"] "model" := .token hhead rfl
  exact ⟨tokens.flatten, .list (.cons hmodel hspells), hbalanced, hover⟩

/-- The first numeral out of range in a definition: there is one if the value is the least
    integer. -/
def Definition.overflow? (d : Definition) : Option String :=
  if d.value = .int Int64.minValue then some leastNumeral else none

theorem Definition.spellsWith_text {d : Definition} (hd : d.Writable) :
    SpellsWith d.overflow? d.text := by
  have hsort := Sexp.spellsWith_render (SortExpr.writable_toSexp d.sort hd.sort)
  refine spellsWith_definition hd.name hsort ?_
  rcases hd.value with hvalue | hvalue
  · have hne : d.value ≠ .int Int64.minValue := by
      intro hleast
      rw [hleast] at hvalue
      exact Int64.lt_irrefl hvalue
    rw [overflow?, if_neg hne]
    have hterm := Term.writable_toSexp d.value (Term.writable_of_recoverable hvalue)
    exact Sexp.spellsWith_render hterm
  · have hminus : SpellsWith none "-" := .symbol (by decide)
    have hnumeral : SpellsWith (some leastNumeral) leastNumeral :=
      overflow?_leastNumeral ▸ .int (by decide) (List.all_eq_true.1 (by decide))
    have hlist := SpellsWith.list [(none, "-"), (some leastNumeral, leastNumeral)]
      (by simp [hminus, hnumeral])
    have htext : (Term.int Int64.minValue).toSexp.render =
        "(" ++ String.intercalate " " ["-", leastNumeral] ++ ")" := by decide +kernel
    rw [overflow?, if_pos hvalue, hvalue, htext]
    exact hlist

/-- The first numeral out of range in a model, if there is any, is that of the least integer. -/
theorem findSome?_overflow? {d : Definition} (hd : d ∈ ds)
    (hvalue : d.value = .int Int64.minValue) :
    ds.findSome? Definition.overflow? = some leastNumeral := by
  cases hfound : ds.findSome? Definition.overflow? with
  | none =>
    have hnone := List.findSome?_eq_none_iff.1 hfound d hd
    rw [Definition.overflow?, if_pos hvalue] at hnone
    simp at hnone
  | some digits =>
    obtain ⟨other, -, hsome⟩ := List.exists_of_findSome?_eq_some hfound
    rw [Definition.overflow?, Option.ite_none_right_eq_some] at hsome
    rw [← hsome.2]

theorem modelText_spells (headed : Bool) (hds : ∀ d ∈ ds, d.Writable) :
    ∃ inner, Spells (.opening :: (inner ++ [.closing])) (modelText headed ds) ∧ Balanced inner ∧
      overflow? inner = ds.findSome? Definition.overflow? := by
  have hentries : ∀ item ∈ ds.map fun d => (d.overflow?, d.text), SpellsWith item.1 item.2 := by
    intro item hitem
    obtain ⟨d, hd, rfl⟩ := List.mem_map.1 hitem
    exact Definition.spellsWith_text (hds d hd)
  cases headed with
  | true =>
    obtain ⟨inner, hspells, hbalanced, hover⟩ := spells_model _ hentries
    rw [List.map_map] at hspells
    rw [List.findSome?_map] at hover
    exact ⟨.symbol "model" :: inner, hspells, .atom trivial hbalanced, hover⟩
  | false =>
    obtain ⟨tokens, hspells, hbalanced, hover⟩ := SpellsWith.exists_items _ hentries
    rw [List.map_map] at hspells
    rw [List.findSome?_map] at hover
    exact ⟨tokens.flatten, .list hspells, hbalanced, hover⟩

/-- **A model is read back, value by value**, whether it has a head or not. If there is the
    least integer among the values, whose numeral is out of range, nothing is read. -/
theorem model_is_read_back (headed : Bool) {ds : List Definition}
    (hnames : (ds.map Definition.name).Nodup) (hds : ∀ d ∈ ds, d.Writable) :
    ((∀ d ∈ ds, d.value ≠ .int Int64.minValue) → ∃ reply reading,
      parse (modelText headed ds) = .ok [reply] ∧ Model.ofReply? reply = some reading ∧
      reading.skipped = [] ∧
      ∀ name term, reading.model[name]? = some term ↔
        ∃ d ∈ ds, d.name = name ∧ d.value = term) ∧
    ((∃ d ∈ ds, d.value = .int Int64.minValue) → ∃ position,
      parse (modelText headed ds) =
        .error ⟨.integerOverflow "9223372036854775808", position⟩) := by
  constructor
  · intro hfit
    have hvalues : ∀ d ∈ ds, d.value.Recoverable :=
      fun d hd => (hds d hd).value.resolve_right (hfit d hd)
    obtain ⟨reading, hreply, htells⟩ := ofReply?_modelSexp headed ds
    have hparse := parse_render_spelledOut (writable_modelSexp headed hds hvalues)
    rw [render_modelSexp] at hparse
    exact ⟨_, reading, hparse, hreply, tells_definitions hnames hvalues htells⟩
  · rintro ⟨least, hleast, hvalue⟩
    obtain ⟨inner, hspells, hbalanced, hover⟩ := modelText_spells headed hds
    rw [findSome?_overflow? hleast hvalue] at hover
    exact parse_of_overflow hbalanced hover (hspells.layout trivial)

/-- A negative integer, a bit-vector value, a string and a constant are read back, and nothing
    is read with the least integer beside them. -/
theorem model_is_read_back_literals :
    let ds : List Definition := [⟨"a", .int, .int (-7)⟩, ⟨"b", .bitVec 8, .bitVec 255 8⟩,
      ⟨"s", .name "String", .string "a b"⟩, ⟨"c", .app "Set" [.bool], .const "#xg"⟩]
    (∃ reply reading, parse ("((define-fun a () Int (- 7)) (define-fun b () (_ BitVec 8) " ++
        "(_ bv255 8)) (define-fun s () String \"a b\") (define-fun c () (Set Bool) #xg))") =
          .ok [reply] ∧ Model.ofReply? reply = some reading ∧ reading.skipped = [] ∧
        reading.model["a"]? = some (.int (-7)) ∧ reading.model["c"]? = some (.const "#xg")) ∧
      ∃ position, parse (modelText true (⟨"m", .int, .int Int64.minValue⟩ :: ds)) =
        .error ⟨.integerOverflow "9223372036854775808", position⟩ := by
  intro ds
  have hname (name : Identifier) (h : IsSymbolText name.toList) : (SortExpr.name name).Writable := h
  have hconst : ∀ n k, ¬ Model.IsLiteral "#xg" n k := Model.bitLiteral?_eq_none_iff.1 (by decide)
  have hds : ∀ d ∈ ds, d.Writable := by
    have ha : Definition.Writable ⟨"a", .int, .int (-7)⟩ :=
      ⟨by decide, hname "Int" (by decide), Or.inl (by rw [Term.Recoverable]; decide)⟩
    have hb : Definition.Writable ⟨"b", .bitVec 8, .bitVec 255 8⟩ :=
      ⟨by decide, by rw [SortExpr.Writable]; decide, Or.inl (by rw [Term.Recoverable]; decide)⟩
    have hs : Definition.Writable ⟨"s", .name "String", .string "a b"⟩ :=
      ⟨by decide, hname "String" (by decide), Or.inl (by rw [Term.Recoverable]; decide)⟩
    have hc : Definition.Writable ⟨"c", .app "Set" [.bool], .const "#xg"⟩ := by
      have hset : IsSymbolText "Set".toList := by decide
      exact ⟨by decide, ⟨hset, hname "Bool" (by decide), trivial⟩, Or.inl ⟨by decide, hconst⟩⟩
    simp [ds, ha, hb, hs, hc]
  have hnames : (ds.map Definition.name).Nodup := by decide
  have hmore : ((⟨"m", .int, .int Int64.minValue⟩ :: ds).map Definition.name).Nodup := by decide
  have hm : Definition.Writable ⟨"m", .int, .int Int64.minValue⟩ :=
    ⟨by decide, hname "Int" (by decide), Or.inr rfl⟩
  constructor
  · obtain ⟨reply, reading, hparse, hreply, hskipped, hvalues⟩ :=
      (model_is_read_back false hnames hds).1 (by decide)
    have htext : modelText false ds =
        "((define-fun a () Int (- 7)) (define-fun b () (_ BitVec 8) " ++
          "(_ bv255 8)) (define-fun s () String \"a b\") (define-fun c () (Set Bool) #xg))" := by
      decide +kernel
    rw [htext] at hparse
    refine ⟨reply, reading, hparse, hreply, hskipped, (hvalues _ _).2 ?_, (hvalues _ _).2 ?_⟩
    · exact ⟨⟨"a", .int, .int (-7)⟩, by simp [ds], rfl, rfl⟩
    · exact ⟨⟨"c", .app "Set" [.bool], .const "#xg"⟩, by simp [ds], rfl, rfl⟩
  · exact (model_is_read_back true hmore (List.forall_mem_cons.2 ⟨hm, hds⟩)).2
      ⟨_, List.mem_cons_self, rfl⟩

end SmtDialogue
