/-
  What a pointer into a text shows: the line in which an error stands, and a caret under it.

  * `exists_lastLine`, `lineOf_append`: the line of a place, in terms of the text before the place
    and the text behind it;
  * `column_advanceOver`: columns are characters, but for the tabs that are wider;
  * `caret_under_token_iff`: the caret misses a token that stands behind a wide tab;
  * `line_of_error_is_shown`: the line is always that of the error, and the caret stands under the
    token where no control characters are before it.
-/
import Mathlib.Data.List.Basic
import Mathlib.Data.List.DropRight
import SmtDialogue.Proofs.ErrorPlace
import SmtDialogue.Text.Pointer

namespace SmtDialogue

variable {text above before behind line : List Char} {place : Cursor} {e : Located SyntaxError}

/-! ## Lines -/

theorem Cursor.line_advanceOver (place : Cursor) (text : List Char) :
    (place.advanceOver text).line = place.line + text.count '\n' := by
  induction text generalizing place with
  | nil => rfl
  | cons c text ih =>
    rw [advanceOver_cons, ih, List.count_cons, advance]
    split_ifs <;> simp_all
    omega

/-- The text is made of whole lines, each of them closed by a line feed. -/
def ClosesLines (text : List Char) : Prop :=
  ∀ c ∈ text.getLast?, c = '\n'

theorem exists_lastLine (text : List Char) :
    ∃ above before, text = above ++ before ∧ ClosesLines above ∧ '\n' ∉ before := by
  induction text using List.reverseRecOn with
  | nil => exact ⟨[], [], rfl, by simp [ClosesLines], by simp⟩
  | append_singleton text c ih =>
    by_cases hc : c = '\n'
    · exact ⟨text ++ [c], [], by simp, by simp [ClosesLines, hc], by simp⟩
    · obtain ⟨above, before, rfl, habove, hbefore⟩ := ih
      exact ⟨above, before ++ [c], by simp, habove, by simp [hbefore, Ne.symm hc]⟩

theorem ClosesLines.tail {c : Char} (h : ClosesLines (c :: text)) : ClosesLines text := by
  cases text with
  | nil => simp [ClosesLines]
  | cons d text => simpa [ClosesLines, List.getLast?_cons_cons] using h

theorem ClosesLines.mem (h : ClosesLines text) (hne : text ≠ []) : '\n' ∈ text := by
  have hlast : text.getLast hne = '\n' := h _ (List.getLast?_eq_some_getLast hne)
  rw [← hlast]
  exact List.getLast_mem hne

namespace Pointer

theorem lineOf_succ_cons (number : Nat) (c : Char) (text : List Char) :
    lineOf (number + 1) (c :: text) =
      if c = '\n' then lineOf number text else lineOf (number + 1) text := rfl

theorem lineOf_append (h : ClosesLines above) :
    lineOf (above.count '\n') (above ++ text) = lineOf 0 text := by
  induction above with
  | nil => rfl
  | cons c above ih =>
    by_cases hc : c = '\n'
    · rw [hc, List.count_cons_self, List.cons_append, lineOf_succ_cons, if_pos rfl, ih h.tail]
    · have hne : above ≠ [] := by
        rintro rfl
        exact hc (h c rfl)
      -- the line feed that closes the line is still to come
      obtain ⟨n, hn⟩ := Nat.exists_eq_add_one.2 (List.count_pos_iff.2 (h.tail.mem hne))
      rw [List.count_cons_of_ne hc, hn, List.cons_append, lineOf_succ_cons, if_neg hc, ← hn,
        ih h.tail]

theorem lineOf_zero (h : '\n' ∉ before) :
    lineOf 0 (before ++ behind) = before ++ behind.takeWhile (· ≠ '\n') := by
  have hall : ∀ c ∈ before, decide (c ≠ '\n') = true := by
    intro c hc
    rw [decide_eq_true_eq]
    rintro rfl
    exact h hc
  rw [lineOf, List.takeWhile_append_of_pos hall]

/-- A line holds no line feeds that could be cut off. -/
theorem trimEnd_eq_rdropWhile (h : '\n' ∉ line) : trimEnd line = line.rdropWhile (· = '\r') := by
  induction line using List.reverseRecOn with
  | nil => rfl
  | append_singleton line c ih =>
    obtain ⟨hline, hc⟩ : '\n' ∉ line ∧ c ≠ '\n' := by simpa [eq_comm] using h
    have htrim : trimEnd (line ++ [c]) = if c = '\r' then trimEnd line else line ++ [c] := by
      simp [trimEnd, List.dropWhile_cons, hc, apply_ite List.reverse]
    rw [htrim, ih hline, List.rdropWhile_concat]
    simp only [decide_eq_true_eq]

theorem trimEnd_eq (h : ∀ c ∈ line, c ≠ '\n' ∧ c ≠ '\r') : trimEnd line = line := by
  rw [trimEnd_eq_rdropWhile fun hfeed => (h _ hfeed).1 rfl, List.rdropWhile_eq_self_iff]
  intro hne
  rw [decide_eq_true_eq]
  exact (h _ (List.getLast_mem hne)).2

end Pointer

/-! ## Columns -/

namespace Cursor

/-- The text stands in one line and holds no control characters but tabs. -/
def IsPlainLine (text : List Char) : Prop :=
  ∀ c ∈ text, c ≠ '\n' ∧ (isControl c → c = '\t')

/-- Each tab of the text takes one column only, if the text starts at the place. -/
def TabsAreNarrow (place : Cursor) (text : List Char) : Prop :=
  ∀ front back, text = front ++ '\t' :: back →
    (place.advanceOver front).column % tabWidth = tabWidth - 1

theorem tabsAreNarrow_cons {c : Char} : TabsAreNarrow place (c :: text) ↔
    (c = '\t' → place.column % tabWidth = tabWidth - 1) ∧ TabsAreNarrow (place.advance c) text := by
  constructor
  · intro h
    constructor
    · rintro rfl
      exact h [] text rfl
    · rintro front back rfl
      exact h (c :: front) back rfl
  · rintro ⟨hhead, htail⟩ (_ | ⟨d, front⟩) back heq
    · obtain ⟨rfl, rfl⟩ := List.cons.inj heq
      exact hhead rfl
    · obtain ⟨rfl, rfl⟩ := List.cons.inj heq
      exact htail front back rfl

instance decidableTabsAreNarrow :
    (place : Cursor) → (text : List Char) → Decidable (TabsAreNarrow place text)
  | _, [] => isTrue (by simp [TabsAreNarrow])
  | place, c :: text =>
    have := decidableTabsAreNarrow (place.advance c) text
    decidable_of_iff _ tabsAreNarrow_cons.symm

theorem IsPlainLine.ne_return (h : IsPlainLine text) : ∀ c ∈ text, c ≠ '\r' := by
  rintro c hc rfl
  exact absurd ((h _ hc).2 (by decide)) (by decide)

theorem column_advance (place : Cursor) {c : Char} (h : IsPlainLine (c :: text)) :
    (place.advance c).column =
      if c = '\t' then place.column / tabWidth * tabWidth + tabWidth else place.column + 1 := by
  obtain ⟨hfeed, hcontrol⟩ := h c List.mem_cons_self
  rw [advance, if_neg hfeed, if_neg (h.ne_return c List.mem_cons_self)]
  split_ifs with htab hc
  · rfl
  · exact absurd (hcontrol hc) htab
  · rfl

/-- **Columns are characters, but for tabs that are wider.** -/
theorem column_advanceOver (place : Cursor) (h : IsPlainLine text) :
    place.column + text.length ≤ (place.advanceOver text).column ∧
      ((place.advanceOver text).column = place.column + text.length ↔
        TabsAreNarrow place text) := by
  induction text generalizing place with
  | nil => simp [TabsAreNarrow]
  | cons c text ih =>
    have hcolumn := column_advance place h
    obtain ⟨hle, hiff⟩ := ih (place.advance c) fun d hd => h d (List.mem_cons_of_mem c hd)
    rw [advanceOver_cons, tabsAreNarrow_cons, ← hiff, List.length_cons]
    simp only [tabWidth] at hcolumn ⊢
    by_cases htab : c = '\t'
    · rw [if_pos htab] at hcolumn
      simp only [htab, forall_const] at hle hcolumn ⊢
      constructor
      · omega
      · omega
    · rw [if_neg htab] at hcolumn
      simp only [htab, false_imp_iff, true_and]
      constructor
      · omega
      · omega

end Cursor

/-! ## Where an error stands in its line -/

theorem ClosesLines.advanceOver (h : ClosesLines text) :
    Cursor.advanceOver {} text = ⟨text.count '\n', 0⟩ := by
  have hline : (Cursor.advanceOver {} text).line = text.count '\n' := by
    rw [Cursor.line_advanceOver, Nat.zero_add]
  have hcolumn : (Cursor.advanceOver {} text).column = 0 := by
    rcases List.eq_nil_or_concat' text with rfl | ⟨front, c, rfl⟩
    · rfl
    · obtain rfl : c = '\n' := h c (by simp)
      rw [Cursor.advanceOver_append]
      rfl
  exact congrArg₂ Cursor.mk hline hcolumn

/-- The error stands behind the lines `above`, and behind `before` in its own line. -/
structure StandsIn (e : Located SyntaxError) (text above before behind : List Char) : Prop where
  text_eq : text = above ++ before ++ behind
  closesLines : ClosesLines above
  sameLine : '\n' ∉ before
  startsAt : e.value.StartsAt behind
  position_eq : e.position = Cursor.advanceOver ⟨above.count '\n', 0⟩ before

/-- **An error stands in a line**, the one in which the text before it ends. -/
theorem exists_standsIn_of_place {front : List Char} (htext : text = front ++ behind)
    (hposition : e.position = Cursor.advanceOver {} front) (hstarts : e.value.StartsAt behind) :
    ∃ above before, front = above ++ before ∧ StandsIn e text above before behind := by
  obtain ⟨above, before, rfl, habove, hbefore⟩ := exists_lastLine front
  refine ⟨above, before, rfl, htext, habove, hbefore, hstarts, ?_⟩
  rw [hposition, Cursor.advanceOver_append, habove.advanceOver]

theorem exists_standsIn {text : String} (h : parse text = .error e) :
    ∃ above before behind, StandsIn e text.toList above before behind := by
  obtain ⟨front, behind, htext, hposition, hstarts⟩ := place_of_error h
  obtain ⟨above, before, -, hstands⟩ := exists_standsIn_of_place htext hposition hstarts
  exact ⟨above, before, behind, hstands⟩

namespace StandsIn

theorem line_eq (h : StandsIn e text above before behind) : e.position.line = above.count '\n' := by
  rw [h.position_eq, Cursor.line_advanceOver, List.count_eq_zero_of_not_mem h.sameLine]
  rfl

/-- **The line of the error is the one around its place.** -/
theorem lineOf_eq (h : StandsIn e text above before behind) :
    Pointer.lineOf e.position.line text = before ++ behind.takeWhile (· ≠ '\n') := by
  rw [h.line_eq, h.text_eq, List.append_assoc, Pointer.lineOf_append h.closesLines,
    Pointer.lineOf_zero h.sameLine]

theorem not_mem_line (h : StandsIn e text above before behind) :
    '\n' ∉ before ++ behind.takeWhile (· ≠ '\n') := by
  rw [List.mem_append, not_or]
  refine ⟨h.sameLine, fun hfeed => ?_⟩
  simpa using List.all_eq_true.1 List.all_takeWhile '\n' hfeed

/-- What the error is about stands in the same line, unless this is the end of the input. -/
theorem takeWhile_eq_nil_iff (h : StandsIn e text above before behind) :
    behind.takeWhile (· ≠ '\n') = [] ↔ behind = [] := by
  cases behind with
  | nil => simp
  | cons c behind =>
    have hc : c ≠ '\n' := by
      rintro rfl
      exact h.startsAt.head '\n' rfl (by decide)
    simp [hc]

theorem isPlainLine (h : StandsIn e text above before behind)
    (hplain : ∀ c ∈ text, Cursor.isControl c → c = '\n' ∨ c = '\t') :
    Cursor.IsPlainLine (before ++ behind.takeWhile (· ≠ '\n')) := by
  intro c hc
  have hfeed : c ≠ '\n' := by
    rintro rfl
    exact h.not_mem_line hc
  have hmem : c ∈ text := by
    rw [h.text_eq]
    rcases List.mem_append.1 hc with hc | hc
    · simp [hc]
    · simp [(List.takeWhile_sublist _).subset hc]
  exact ⟨hfeed, fun hcontrol => (hplain c hmem hcontrol).resolve_left hfeed⟩

end StandsIn

/-! ## The caret -/

namespace Pointer

/-- The width at which a text is shown. -/
def width (text : List Char) : Nat :=
  (text.flatMap shown).length

theorem width_eq_zero_iff : width text = 0 ↔ text = [] := by
  cases text with
  | nil => simp [width]
  | cons c text =>
    have hc : shown c ≠ [] := by
      unfold shown
      split_ifs <;> simp [tabWidth]
    simp [width, hc]

theorem margin_append {column : Nat} (after : List Char) (h : before.length ≤ column) :
    margin column (before ++ after) =
      width before + width (after.take (column - before.length)) := by
  rw [margin, List.take_append, List.take_of_length_le h, List.flatMap_append, List.length_append]
  rfl

end Pointer

/-- **The caret stands under the token** that the error is about, or behind the line at the end of
    the input, exactly if no tab before it in its line takes more than one column: the caret is
    moved on by one shown character for each column that the tabs take more. -/
theorem caret_under_token_iff {text : String}
    (hplain : ∀ c ∈ text.toList, Cursor.isControl c → c = '\n' ∨ c = '\t')
    (h : parse text = .error e) :
    (∃ above before behind, StandsIn e text.toList above before behind) ∧
    ∀ above before behind, StandsIn e text.toList above before behind →
      let after := behind.takeWhile (· ≠ '\n')
      let caret := Pointer.width before +
        Pointer.width (after.take (e.position.column - before.length))
      Pointer.inText ⟨e.value.message, e.position⟩ text.toList =
          e.position.label ++ ": error: " ++ e.value.message ++ "\n"
            ++ String.ofList ((before ++ after).flatMap Pointer.shown) ++ "\n"
            ++ String.ofList (List.replicate caret ' ') ++ "^" ∧
        (caret = Pointer.width before ↔
          behind = [] ∨ Cursor.TabsAreNarrow ⟨e.position.line, 0⟩ before) := by
  refine ⟨exists_standsIn h, ?_⟩
  intro above before behind hstands after caret
  have hline : Cursor.IsPlainLine (before ++ after) := hstands.isPlainLine hplain
  have hbefore : Cursor.IsPlainLine before := fun c hc => hline c (List.mem_append_left after hc)
  obtain ⟨hle, hiff⟩ := Cursor.column_advanceOver ⟨above.count '\n', 0⟩ hbefore
  rw [← hstands.position_eq, Nat.zero_add] at hle hiff
  constructor
  · have htrim := Pointer.trimEnd_eq fun c hc => ⟨(hline c hc).1, hline.ne_return c hc⟩
    rw [Pointer.inText, hstands.lineOf_eq, Pointer.inLine, htrim, Pointer.margin_append _ hle]
  · rw [hstands.line_eq, ← hiff, ← hstands.takeWhile_eq_nil_iff]
    have hmoved : caret = Pointer.width before ↔
        after.take (e.position.column - before.length) = [] := by
      rw [← Pointer.width_eq_zero_iff]
      omega
    have hwide : e.position.column - before.length = 0 ↔
        e.position.column = before.length := by omega
    rw [hmoved, List.take_eq_nil_iff, hwide, or_comm]

/-- A tab that takes one column leaves the caret under the parenthesis. -/
theorem caret_under_token_iff_narrow :
    let e : Located SyntaxError :=
      ⟨.unexpectedToken .closing Assembly.programKinds, ⟨0, 8⟩⟩
    parse "/*345*/\t)" = .error e ∧
      Pointer.inText ⟨e.value.message, e.position⟩ "/*345*/\t)".toList =
        "1:9: error: " ++ e.value.message ++ "\n/*345*/        )\n               ^" := by
  intro e
  have hcomment : ¬ ['*', '/'] <:+: "345".toList := by decide
  have hgap : Gap.Spelled "/*345*/\t".toList := .block hcomment (.blank (by decide) .nil)
  have htext : String.ofList ("/*345*/\t".toList ++ [')']) = "/*345*/\t)" := by decide
  have hparse := parse_of_stray hgap []
  rw [htext] at hparse
  have hproper : Token.closing.Proper := trivial
  have hstarts : e.value.StartsAt (Token.closing.spelling ++ []) := .token hproper
  have hstands : StandsIn e "/*345*/\t)".toList [] "/*345*/\t".toList [')'] :=
    ⟨by decide, by simp [ClosesLines], by decide, hstarts, by decide⟩
  have hall : "/*345*/\t)".toList.all fun c => !Cursor.isControl c || c = '\n' || c = '\t' := by
    decide
  have hplain : ∀ c ∈ "/*345*/\t)".toList, Cursor.isControl c → c = '\n' ∨ c = '\t' := by
    intro c hc hcontrol
    simpa [hcontrol] using List.all_eq_true.1 hall c hc
  have hnarrow : Cursor.TabsAreNarrow ⟨e.position.line, 0⟩ "/*345*/\t".toList := by decide
  obtain ⟨hshown, hcaret⟩ := (caret_under_token_iff hplain hparse).2 _ _ _ hstands
  rw [hcaret.2 (Or.inr hnarrow)] at hshown
  exact ⟨hparse, hshown.trans (by decide +kernel)⟩

/-- A tab that takes eight columns moves the caret on, behind the parenthesis. -/
theorem caret_beyond_stray_behind_tab :
    let e : Located SyntaxError :=
      ⟨.unexpectedToken .closing Assembly.programKinds, ⟨0, 8⟩⟩
    let shown := Pointer.inText ⟨e.value.message, e.position⟩ "\t)".toList
    parse "\t)" = .error e ∧
      shown = "1:9: error: " ++ e.value.message ++ "\n        )\n         ^" ∧
      shown ≠ "1:9: error: " ++ e.value.message ++ "\n        )\n        ^" := by
  intro e shown
  have hgap : Gap.Spelled ['\t'] := .blank (by decide) .nil
  have htext : String.ofList (['\t'] ++ [')']) = "\t)" := by decide
  have hparse := parse_of_stray hgap []
  rw [htext] at hparse
  exact ⟨hparse, by decide +kernel, by decide +kernel⟩

/-! ## The line -/

/-- What is cut off the end of a text does not reach into a part that holds none of it. -/
theorem prefix_rdropWhile {p : Char → Bool} (h : ∀ c ∈ before, ¬ p c) (after : List Char) :
    before <+: (before ++ after).rdropWhile p := by
  induction after using List.reverseRecOn with
  | nil =>
    rw [List.append_nil, List.rdropWhile_eq_self_iff.2 fun hne => h _ (List.getLast_mem hne)]
  | append_singleton after c ih =>
    rw [← List.append_assoc, List.rdropWhile_concat]
    split_ifs
    · exact ih
    · exact ⟨after ++ [c], by simp⟩

namespace Pointer

theorem width_eq_length (h : ∀ c ∈ text, c ≠ '\t') : width text = text.length := by
  have hshown : ∀ c ∈ text, (shown c).length = 1 := by
    intro c hc
    rw [shown, if_neg (h c hc), List.length_singleton]
  rw [width, List.length_flatMap, List.map_congr_left hshown]
  simp

end Pointer

namespace StandsIn

theorem column_eq (h : StandsIn e text above before behind)
    (hplain : ∀ c ∈ before, ¬ Cursor.isControl c) : e.position.column = before.length := by
  have hline : Cursor.IsPlainLine before := by
    intro c hc
    refine ⟨?_, fun hcontrol => absurd hcontrol (hplain c hc)⟩
    rintro rfl
    exact h.sameLine hc
  have hnarrow : Cursor.TabsAreNarrow ⟨above.count '\n', 0⟩ before := by
    rintro front back rfl
    exact absurd (by decide) (hplain '\t' (by simp))
  rw [h.position_eq, (Cursor.column_advanceOver _ hline).2.2 hnarrow, Nat.zero_add]

/-- **The caret stands behind as many spaces as characters stand before the place**, if none of them
    is a control character. -/
theorem margin_eq (h : StandsIn e text above before behind)
    (hplain : ∀ c ∈ before, ¬ Cursor.isControl c) (after : List Char) :
    Pointer.margin e.position.column ((before ++ after).rdropWhile (· = '\r')) = before.length := by
  have hreturn : ∀ c ∈ before, ¬ decide (c = '\r') := by
    intro c hc
    rw [decide_eq_true_eq]
    rintro rfl
    exact hplain '\r' hc (by decide)
  have htab : ∀ c ∈ before, c ≠ '\t' := by
    rintro c hc rfl
    exact hplain '\t' hc (by decide)
  obtain ⟨rest, hrest⟩ := prefix_rdropWhile hreturn after
  rw [← hrest, Pointer.margin, h.column_eq hplain, List.take_left]
  exact Pointer.width_eq_length htab

theorem before_eq_nil (h : StandsIn e text above before [])
    (hlast : text.getLast? = some '\n') : before = [] := by
  by_contra hne
  rw [h.text_eq, List.append_nil, List.getLast?_append_of_ne_nil _ hne] at hlast
  exact h.sameLine (List.mem_of_getLast? hlast)

end StandsIn

/-- **A pointer shows the line of the error**: behind the line and column, counted from 1, and the
    message comes the line in which the offending token or the end of the input stands, without
    the carriage returns that end it and with eight spaces for each tab. Where no control
    character stands before the token in its line, as many spaces as characters stand before the
    caret. -/
theorem line_of_error_is_shown {text : String} (h : parse text = .error e) :
    (∃ tokens front gap above before behind, FailsAt {} tokens front gap behind e ∧
      front ++ gap = above ++ before ∧ StandsIn e text.toList above before behind) ∧
    ∀ above before behind, StandsIn e text.toList above before behind →
      let line := before ++ behind.takeWhile (· ≠ '\n')
      let shown := (line.rdropWhile (· = '\r')).flatMap fun c =>
        if c = '\t' then List.replicate 8 ' ' else [c]
      (behind = [] → text.toList.getLast? = some '\n' → line = []) ∧
      ∃ spaces,
        Pointer.inText ⟨e.value.message, e.position⟩ text.toList =
          Nat.repr (e.position.line + 1) ++ ":" ++ Nat.repr (e.position.column + 1) ++ ": error: "
            ++ e.value.message ++ "\n" ++ String.ofList shown ++ "\n"
            ++ String.ofList (List.replicate spaces ' ') ++ "^" ∧
        ((∀ c ∈ before, ¬ Cursor.isControl c) → spaces = before.length) := by
  constructor
  · obtain ⟨tokens, front, gap, behind, htext, hfails⟩ := parse_eq_error_iff_failsAt.1 h
    obtain ⟨above, before, hfront, hstands⟩ :=
      exists_standsIn_of_place htext hfails.position hfails.wrong.startsAt
    exact ⟨tokens, front, gap, above, before, behind, hfails, hfront, hstands⟩
  · intro above before behind hstands line shown
    refine ⟨?_, Pointer.margin e.position.column (line.rdropWhile (· = '\r')), ?_, ?_⟩
    · rintro rfl hlast
      exact (List.append_nil before).trans (hstands.before_eq_nil hlast)
    · rw [Pointer.inText, hstands.lineOf_eq, Pointer.inLine,
        Pointer.trimEnd_eq_rdropWhile hstands.not_mem_line]
      rfl
    · intro hplain
      exact hstands.margin_eq hplain _

/-- A line that two carriage returns end, behind a string literal of two lines. -/
theorem line_of_error_is_shown_returns :
    let text := "(\"a\n\" b)\r\n c )\r\r\n(x"
    let e : Located SyntaxError :=
      ⟨.unexpectedToken .closing Assembly.programKinds, ⟨2, 3⟩⟩
    parse text = .error e ∧
      Pointer.inText ⟨e.value.message, e.position⟩ text.toList =
        "3:4: error: " ++ e.value.message ++ "\n c )\n   ^" := by
  intro text e
  have hparse : parse text = .error e := by decide +kernel
  have hproper : Token.closing.Proper := trivial
  have hstarts : e.value.StartsAt (Token.closing.spelling ++ "\r\r\n(x".toList) := .token hproper
  have hstands : StandsIn e text.toList "(\"a\n\" b)\r\n".toList " c ".toList ")\r\r\n(x".toList :=
    ⟨by decide, by simp [ClosesLines], by decide, hstarts, by decide⟩
  have hall : " c ".toList.all fun c => !Cursor.isControl c := by decide
  have hplain : ∀ c ∈ " c ".toList, ¬ Cursor.isControl c := by
    intro c hc
    simpa using List.all_eq_true.1 hall c hc
  obtain ⟨-, spaces, hshown, hspaces⟩ := (line_of_error_is_shown hparse).2 _ _ _ hstands
  rw [hspaces hplain] at hshown
  exact ⟨hparse, hshown.trans (by decide +kernel)⟩

end SmtDialogue
