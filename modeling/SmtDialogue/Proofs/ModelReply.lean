/-
  Asking for a model.

  A model is one expression, and is read as a whole before its entries are looked at. So an
  entry with a value of which there is no term is skipped, and costs no other entry. But a
  numeral that is out of range is no expression, and costs the whole reply.

  * `perform_getModel`: what is made of a model that can be read;
  * `model_reply_is_read_entry_by_entry`: what comes of a well-formed reply, whatever values
    it holds;
  * `model_with_large_numeral_is_lost`: one large numeral, and no value of any entry.
-/
import SmtDialogue.Proofs.ByteText
import SmtDialogue.Proofs.ModelText
import SmtDialogue.Proofs.Turn

namespace SmtDialogue

open Source

theorem Request.answer_getModel (xs : List Sexp) :
    ∃ reading, getModel.answer (.list (.symbol "model" :: xs)) = .ok (.model reading) ∧
      reading.Tells xs := by
  obtain ⟨reading, hreply, htells⟩ := Model.ofReply?_headed xs
  refine ⟨reading, ?_, htells⟩
  have hnone : getModel.reported? (.list (.symbol "model" :: xs)) = none := by
    refine reported?_eq_none ?_
    simp
  refine answer_of_meaning hnone ?_
  rw [meaning?, hreply]
  rfl

namespace Session

variable {σ : Type} [Sink σ] {R : Sink.Reliable σ} {s : Session σ} {size : Char → Nat}
  {text : List Char} {tail : Source} {tokens inner : List Token} {xs : List Sexp} {x : Sexp}

/-- **A call takes the reply that the text holds**, and the next one is found behind it. -/
theorem perform_of_layout {request : Request} (hs : Speaks R s) (call : Call)
    (hdone : s.replies.done = false) (hx : x.Flattens tokens) (hlayout : Layout tokens text tail)
    (hrest : s.replies.rest = sized size text ++ tail) (hrequest : call.request? = some request) :
    ∃ sink, R.Sound sink ∧ s.perform call = (call.expected x, behind call { s with
      sink, replies := s.replies.behind text tail x.peeks
      log := s.log ++ [.command request.command, .reply x] ++ request.warnings (.ok x) }) := by
  obtain ⟨sink, hsound, -, hperform⟩ :=
    perform_of_next hs call (Reader.next_of_layout hdone hx hlayout hrest) rfl hrequest
  exact ⟨sink, hsound, hperform⟩

/-- A model that can be read is told, with a warning for each entry that is skipped. -/
theorem perform_getModel (hs : Speaks R s) (hdone : s.replies.done = false)
    (hxs : Sexp.FlattensAll xs inner)
    (hlayout : Layout (.opening :: .symbol "model" :: (inner ++ [.closing])) text tail)
    (hrest : s.replies.rest = sized size text ++ tail) :
    ∃ reading after, s.perform (.ask .getModel) = (.answer (.model reading), after) ∧
      reading.Tells xs ∧
      after.log = s.log ++ [.command Request.getModel.command,
        .reply (.list (.symbol "model" :: xs))] ++ reading.skipped.map .skippedEntry ∧
      Speaks R after ∧ after.replies.done = false ∧ after.replies.rest = tail := by
  have hx : Sexp.Flattens (.list (.symbol "model" :: xs))
      (.opening :: .symbol "model" :: (inner ++ [.closing])) :=
    ⟨.symbol "model" :: inner, rfl, [.symbol "model"], inner, rfl, rfl, hxs⟩
  obtain ⟨reading, hanswer, htells⟩ := Request.answer_getModel xs
  obtain ⟨sink, hsound, hperform⟩ :=
    perform_of_layout hs (.ask .getModel) hdone hx hlayout hrest rfl
  have hbind : Except.bind (.ok (.list (.symbol "model" :: xs))) Request.getModel.answer =
      .ok (.model reading) := hanswer
  rw [← Call.outcome_ok, Call.outcome, Request.warnings, hbind] at hperform
  exact ⟨reading, _, hperform, htells, rfl, ⟨hsound, hs.holdsSink, hs.holdsReplies⟩, hdone, rfl⟩

/-- A numeral out of range costs the whole reply, and what would be read behind it. -/
theorem getModel_of_overflow {digits : String} (hs : Speaks R s) (hdone : s.replies.done = false)
    (hinner : Balanced inner) (hover : overflow? inner = some digits)
    (hlayout : Layout (.opening :: .symbol "model" :: (inner ++ [.closing])) text tail)
    (hrest : s.replies.rest = sized size text ++ tail) :
    ∃ position,
      (s.perform (.ask .getModel)).1 = .failure (.malformed ⟨.integerOverflow digits, position⟩) ∧
      (s.perform (.ask .getModel)).2.replies.done = true := by
  have hbalanced : Balanced (.symbol "model" :: inner) := .atom trivial hinner
  have hfirst : overflow? (.symbol "model" :: inner) = some digits := by
    rw [overflow?_cons, hover]
    rfl
  obtain ⟨position, left, hnext⟩ :=
    Reader.next_of_overflow hdone hbalanced hfirst (Reader.takes_of_layout hlayout hrest)
  exact ⟨position, perform_of_next_error hs (.ask .getModel) (congrArg Prod.fst hnext) rfl⟩

/-- **A well-formed reply to the request for a model is read entry by entry, as long as its
    numerals are integers.** The values told are those of the entries that can be read. The
    others are skipped, one warning for each, and those with a value of which there is no term
    are among them. The call after it takes the reply after it. But the first numeral that is
    out of range costs the whole reply, and nothing is read behind it. -/
theorem model_reply_is_read_entry_by_entry (R : Sink.Reliable σ) (hs : Speaks R s)
    (hdone : s.replies.done = false) (hinner : Balanced inner)
    (hlayout : Layout (.opening :: .symbol "model" :: (inner ++ [.closing])) text tail)
    (hrest : s.replies.rest = sized size text ++ tail) :
    (overflow? inner = none → ∃ xs reading after, Sexp.FlattensAll xs inner ∧
      s.perform (.ask .getModel) = (.answer (.model reading), after) ∧
      reading.Tells xs ∧
      (∀ x ∈ xs, ∀ name v, Model.Defines x name v → Model.Unrepresentable v →
        ⟨x, .unparsableValue ⟨v⟩⟩ ∈ reading.skipped) ∧
      after.log = s.log ++ [.command Request.getModel.command,
        .reply (.list (.symbol "model" :: xs))] ++ reading.skipped.map .skippedEntry ∧
      ∀ (y : Sexp) (others : List Token) (more : List Char) (beyond : Source) (call : Call)
        (request : Request), y.Flattens others → Layout others more beyond →
          tail = sized size more ++ beyond → call.request? = some request →
            (after.perform call).1 = call.expected y) ∧
    ∀ digits, overflow? inner = some digits → ∃ position,
      (s.perform (.ask .getModel)).1 = .failure (.malformed ⟨.integerOverflow digits, position⟩) ∧
      (s.perform (.ask .getModel)).2.replies.done = true := by
  constructor
  · intro hfit
    obtain ⟨xs, hxs⟩ := flattensAll_of_balanced hinner hfit
    obtain ⟨reading, after, hperform, htells, hlog, hspeaks, hgoes, hbehind⟩ :=
      perform_getModel hs hdone hxs hlayout hrest
    refine ⟨xs, reading, after, hxs, hperform, htells, ?_, hlog, ?_⟩
    · intro x hx name v hdefines hv
      rw [htells.skipped, List.mem_filterMap]
      exact ⟨x, hx, Model.skipped?_of_unrepresentable hdefines hv⟩
    · intro y others more beyond call request hy hmore htail hrequest
      obtain ⟨sink, -, hnext⟩ :=
        perform_of_layout hspeaks call hgoes hy hmore (hbehind.trans htail) hrequest
      rw [hnext]
  · exact fun digits hover => getModel_of_overflow hs hdone hinner hover hlayout hrest

/-- A value of more than 64 bits is skipped, the constant beside it has its value, and the next
    call takes the next reply. -/
theorem model_reply_is_read_entry_by_entry_wide :
    let s : Session Recorder := { sink := {}, replies := { rest := Source.ofChunks [.bytes
      (Utf8.encode ("(model (define-fun a () Int 3) (define-fun w () (_ BitVec 65) " ++
        "(_ bv18446744073709551616 65)))\nsat\n").toList)] } }
    ∃ reading after, s.perform (.ask .getModel) = (.answer (.model reading), after) ∧
      reading.model["a"]? = some (.int 3) ∧ reading.model["w"]? = none ∧
      reading.skipped.map SkippedEntry.message =
        ["skipping model entry `(define-fun w () (_ BitVec 65) (_ bv18446744073709551616 65))': " ++
          "unparsable sexp `(_ bv18446744073709551616 65)'"] ∧
      (after.perform (.ask .checkSat)).1 = .answer (.verdict .sat) := by
  intro s
  let value : Sexp := .list [.symbol "_", .symbol "bv18446744073709551616", .int 65]
  let sort : Sexp := .list [.symbol "_", .symbol "BitVec", .int 65]
  let xs : List Sexp := [.list [.symbol "define-fun", .symbol "a", .list [], .symbol "Int", .int 3],
    .list [.symbol "define-fun", .symbol "w", .list [], sort, value]]
  have hxs : Sexp.Readable (.list (.symbol "model" :: xs)) := by
    have hmodel : IsSymbolText "model".toList := by decide
    have hkeyword : IsSymbolText "define-fun".toList := by decide
    have ha : IsSymbolText "a".toList := by decide
    have hw : IsSymbolText "w".toList := by decide
    have hint : IsSymbolText "Int".toList := by decide
    have hindex : IsSymbolText "_".toList := by decide
    have hbitVec : IsSymbolText "BitVec".toList := by decide
    have hvalue : IsSymbolText "bv18446744073709551616".toList := by decide
    have hthree : 0 ≤ (3 : Int64).toInt := by decide
    have hwidth : 0 ≤ (65 : Int64).toInt := by decide
    exact ⟨hmodel, ⟨hkeyword, ha, trivial, hint, hthree, trivial⟩, ⟨hkeyword, hw, trivial,
      ⟨hindex, hbitVec, hwidth, trivial⟩, ⟨hindex, hvalue, hwidth, trivial⟩, trivial⟩, trivial⟩
  have hbreak : ¬ isWordChar '\n' := by decide
  have hbehind : EndsRun isWordChar (sized Char.utf8Size "\nsat\n".toList) := hbreak
  obtain ⟨_, ⟨_, rfl, hall⟩, hlayout⟩ := Sexp.layout_text _ hxs hbehind
  obtain ⟨first, inner, rfl, hhead, hinner⟩ := Sexp.flattensAll_cons.1 hall
  obtain rfl : first = [.symbol "model"] := hhead
  obtain ⟨hbalanced, hfit⟩ := balanced_of_flattensAll xs hinner
  have htext : ("(model (define-fun a () Int 3) (define-fun w () (_ BitVec 65) " ++
      "(_ bv18446744073709551616 65)))\nsat\n").toList =
        (Sexp.list (.symbol "model" :: xs)).text.toList ++ "\nsat\n".toList := by
    decide +kernel
  have hrest := Source.ofChunks_eq_sized
    (List.flatten_singleton.trans (congrArg Utf8.encode htext))
  rw [sized_append] at hrest
  have hspeaks : Speaks Recorder.reliable s := ⟨⟨rfl, rfl⟩, rfl, rfl⟩
  obtain ⟨hread, -⟩ :=
    model_reply_is_read_entry_by_entry Recorder.reliable hspeaks rfl hbalanced hlayout hrest
  obtain ⟨found, reading, after, hfound, hperform, htells, -, -, hnext⟩ := hread hfit
  obtain rfl : found = xs := Sexp.flattensAll_unique hfound hinner
  have hsat : IsSymbolText "sat".toList := by decide
  have hend : EndsRun isWordChar (sized Char.utf8Size ['\n']) := hbreak
  have hword : Layout [.symbol "sat"] "sat".toList (sized Char.utf8Size ['\n']) :=
    .singleton hsat hend
  have hblank : ∀ c ∈ ['\n'], isBlank c := List.all_eq_true.1 (by decide)
  have hreply := hnext (.symbol "sat") [.symbol "sat"] ('\n' :: "sat".toList) _ (.ask .checkSat)
    .checkSat rfl (hword.blanks hblank (by simp)) rfl rfl
  refine ⟨reading, after, hperform, ?_, ?_, ?_, hreply⟩
  · rw [htells.values]
    rfl
  · rw [htells.values]
    rfl
  · rw [htells.skipped]
    decide +kernel

/-- The constant beside a numeral out of range has a value, and it is not told. -/
theorem model_with_large_numeral_is_lost :
    let s : Session Recorder := { sink := {}, replies := { rest := Source.ofChunks [.bytes
      (Utf8.encode ("(model (define-fun a () Int 3) " ++
        "(define-fun b () Int 9223372036854775808))\n").toList)] } }
    ∃ position, (s.perform (.ask .getModel)).1 =
      .failure (.malformed ⟨.integerOverflow "9223372036854775808", position⟩) := by
  intro s
  have hint : SpellsWith none "Int" := .symbol (by decide)
  have hthree : SpellsWith none "3" := .int (by decide) (List.all_eq_true.1 (by decide))
  have hlarge : SpellsWith (some leastNumeral) leastNumeral :=
    overflow?_leastNumeral ▸ .int (by decide) (List.all_eq_true.1 (by decide))
  have hfirst : SpellsWith none (definitionText "a" "Int" "3") :=
    spellsWith_definition (by decide) hint hthree
  have hsecond : SpellsWith (some leastNumeral) (definitionText "b" "Int" leastNumeral) :=
    spellsWith_definition (by decide) hint hlarge
  obtain ⟨inner, hspells, hbalanced, hover⟩ := spells_model
    [(none, definitionText "a" "Int" "3"),
      (some leastNumeral, definitionText "b" "Int" leastNumeral)] (by simp [hfirst, hsecond])
  have hbreak : ¬ isWordChar '\n' := by decide
  have hend : EndsRun isWordChar (sized Char.utf8Size ['\n']) := hbreak
  have htext : ("(model (define-fun a () Int 3) " ++
      "(define-fun b () Int 9223372036854775808))\n").toList =
        ("(" ++ String.intercalate " " ["model", definitionText "a" "Int" "3",
          definitionText "b" "Int" leastNumeral] ++ ")").toList ++ ['\n'] := by
    decide +kernel
  have hrest := Source.ofChunks_eq_sized
    (List.flatten_singleton.trans (congrArg Utf8.encode htext))
  rw [sized_append] at hrest
  have hspeaks : Speaks Recorder.reliable s := ⟨⟨rfl, rfl⟩, rfl, rfl⟩
  obtain ⟨position, hfails, -⟩ :=
    getModel_of_overflow hspeaks rfl hbalanced hover (hspells.layout hend) hrest
  exact ⟨position, hfails⟩

end Session

end SmtDialogue
