/-
  Texts that stand one behind the other, with a line feed between them.

  * `Gap.Trails.closed`, `Layout.line`: the line feed ends all that a text may end with, an open
    block comment apart;
  * `HoldsProgram.append`: behind a program, the line feed and another program go on with it;
  * `FailsAt.behind_program`: a text that goes wrong there does so as it does alone, further below;
  * `FailsAt.extended`: what goes wrong before the end of a text does so whatever stands behind it;
  * `parse_joined`: texts that are joined are read one by one.
-/
import SmtDialogue.Proofs.PointerText

namespace SmtDialogue

open Source Assembly

variable {text more front gap trail behind before last joint : List Char}
  {tokens others : List Token} {t : Token} {cause : SyntaxError} {xs ys : List Sexp}
  {place : Cursor} {e : Located SyntaxError}

/-! ## The line feed -/

namespace Gap

theorem Spelled.append (h : Spelled text) (hmore : Spelled more) : Spelled (text ++ more) := by
  induction h with
  | nil => exact hmore
  | blank hc _ ih => exact .blank hc ih
  | @line comment text hcomment _ ih =>
    have hline := Spelled.line hcomment ih
    simpa using hline
  | @block comment text hcomment _ ih =>
    have hblock := Spelled.block hcomment ih
    simpa using hblock

/-- Where no block comment is open, a line feed closes what a text ends with. -/
theorem Trails.closed (h : Trails trail) (hclosed : (Mode.behind place trail).unclosed = []) :
    Spelled (trail ++ ['\n']) := by
  have hfeed : isBlank '\n' := by decide
  cases h with
  | nil => exact .blank hfeed .nil
  | line hcomment => exact .line hcomment .nil
  | block => exact absurd hclosed (List.cons_ne_nil _ _)

theorem LeadsTo.append (hjoint : Spelled joint) (h : LeadsTo gap behind) :
    LeadsTo (joint ++ gap) behind := by
  cases h with
  | token hgap => exact .token (hjoint.append hgap)
  | ending hgap htrail =>
    rw [← List.append_assoc]
    exact .ending (hjoint.append hgap) htrail

end Gap

theorem Token.StopsBefore.line (h : t.StopsBefore (ofChars text)) :
    t.StopsBefore (ofChars (text ++ '\n' :: more)) := by
  cases text with
  | nil =>
    have hfeed : EndsRun isWordChar (ofChars ('\n' :: more)) := by
      change ¬ isWordChar '\n'
      decide
    exact stopsBefore_of_endsRun hfeed
  | cons c text => exact h.of_head

namespace Layout

theorem line (h : Layout tokens front (ofChars text)) :
    Layout tokens front (ofChars (text ++ '\n' :: more)) :=
  h.congr fun t ht => (h.stopsBefore t ht).line

theorem exists_behind_gap (hjoint : Gap.Spelled joint)
    (h : Layout tokens front (ofChars (gap ++ behind))) :
    ∃ inside between, joint ++ front ++ gap = inside ++ between ∧
      (between = gap ∨ between = joint ++ gap) ∧
      Layout tokens inside (ofChars (between ++ behind)) := by
  cases h with
  | nil => exact ⟨[], joint ++ gap, by simp, Or.inr rfl, .nil⟩
  | @cons blank text t tokens _ hblank ht hstop hmore =>
    refine ⟨joint ++ blank ++ t.spelling ++ text, gap, by simp, Or.inl rfl, ?_⟩
    exact .cons (hjoint.append hblank) ht hstop hmore

end Layout

/-! ## Behind a program -/

namespace Assembly

theorem depth_append_of_flattensAll (h : Sexp.FlattensAll xs tokens) :
    depth (tokens ++ others) = depth others := by
  rw [depth, depthFrom_append, depthFrom_of_flattensAll h]
  rfl

theorem Offends.of_depth (hdepth : depth tokens = depth others) (h : Offends tokens t cause) :
    Offends others t cause := by
  cases h with
  | stray hstray => exact .stray (hdepth ▸ hstray)
  | ending hending => exact .ending (hdepth ▸ hending)
  | large hdigits hlarge => exact .large hdigits hlarge

theorem Sound.behind_program (hproper : ∀ t ∈ tokens, t.Proper) (h : Sexp.FlattensAll xs tokens)
    (hothers : Sound others) : Sound (tokens ++ others) := by
  induction others using List.reverseRecOn with
  | nil =>
    rw [List.append_nil]
    exact sound_of_flattensAll hproper h
  | append_singleton others t ih =>
    obtain ⟨hsound, ht⟩ := sound_concat_iff.1 hothers
    rw [← List.append_assoc]
    refine sound_concat_iff.2 ⟨ih hsound, ?_⟩
    intro cause hcause
    exact ht cause (hcause.of_depth (depth_append_of_flattensAll h))

end Assembly

theorem GoesWrong.behind_program (h : Sexp.FlattensAll xs tokens)
    (hwrong : GoesWrong others cause behind) : GoesWrong (tokens ++ others) cause behind := by
  have hdepth : depth others = depth (tokens ++ others) := (depth_append_of_flattensAll h).symm
  cases hwrong with
  | token hoffends ht hstop => exact .token (hoffends.of_depth hdepth) ht hstop
  | ending hoffends => exact .ending (hoffends.of_depth hdepth)
  | string hbody => exact .string hbody

namespace HoldsProgram

/-- **Behind a program and a line feed, a text holds the tokens that it holds alone.** -/
theorem layout_append (h : HoldsProgram xs tokens front gap trail)
    (hclosed : Gap.Spelled (trail ++ ['\n']))
    (hbefore : Layout others before (ofChars (last ++ behind))) :
    ∃ inside between, front ++ gap ++ trail ++ '\n' :: (before ++ last) = inside ++ between ∧
      (between = last ∨ between = gap ++ (trail ++ ['\n']) ++ last) ∧
      Layout (tokens ++ others) inside (ofChars (between ++ behind)) := by
  obtain ⟨inside, between, htext, hbetween, hlayout⟩ :=
    hbefore.exists_behind_gap (h.gap.append hclosed)
  refine ⟨front ++ inside, between, ?_, hbetween, ?_⟩
  · rw [List.append_assoc front inside, ← htext]
    simp
  · have hfront : Layout tokens front
        (ofChars (gap ++ trail ++ '\n' :: (before ++ last ++ behind))) := h.layout.line
    have hsplit : gap ++ trail ++ '\n' :: (before ++ last ++ behind) =
        inside ++ (between ++ behind) := by
      rw [← List.append_assoc inside, ← htext]
      simp
    rw [hsplit, ofChars_eq_sized, sized_append] at hfront
    exact hfront.append hlayout

/-- **Behind a program and a line feed, a program makes a longer one.** -/
theorem append (h : HoldsProgram xs tokens front gap trail)
    (hclosed : Gap.Spelled (trail ++ ['\n'])) (hmore : HoldsProgram ys others before last behind) :
    ∃ inside between,
      front ++ gap ++ trail ++ '\n' :: (before ++ last ++ behind) = inside ++ between ++ behind ∧
      HoldsProgram (xs ++ ys) (tokens ++ others) inside between behind := by
  obtain ⟨inside, between, htext, hbetween, hlayout⟩ := h.layout_append hclosed hmore.layout
  have hgap : Gap.Spelled between := by
    rcases hbetween with rfl | rfl
    · exact hmore.gap
    · exact (h.gap.append hclosed).append hmore.gap
  refine ⟨inside, between, ?_, ?_, hlayout, hgap, hmore.trail⟩
  · rw [← htext]
    simp
  · exact Sexp.flattensAll_append.2 ⟨tokens, others, rfl, h.flattens, hmore.flattens⟩

end HoldsProgram

/-! ## Further below -/

namespace Cursor

/-- The place that is further below by some lines. -/
def below (place : Cursor) (lines : Nat) : Cursor :=
  ⟨place.line + lines, place.column⟩

theorem advance_below (lines : Nat) (c : Char) :
    (place.below lines).advance c = (place.advance c).below lines := by
  unfold advance below
  split_ifs
  · simp only [Nat.add_right_comm]
  · rfl
  · rfl
  · rfl
  · rfl

theorem advanceOver_below (lines : Nat) (text : List Char) :
    (place.below lines).advanceOver text = (place.advanceOver text).below lines := by
  induction text generalizing place with
  | nil => rfl
  | cons c text ih => rw [advanceOver_cons, advance_below, ih, advanceOver_cons]

end Cursor

/-- **Behind a program and a line feed, a text goes wrong where it goes wrong alone**, but further
    below. -/
theorem FailsAt.behind_program (h : HoldsProgram xs tokens front gap trail)
    (hclosed : Gap.Spelled (trail ++ ['\n'])) (hfails : FailsAt {} others before last behind e) :
    ∃ inside between,
      front ++ gap ++ trail ++ '\n' :: (before ++ last ++ behind) = inside ++ between ++ behind ∧
      FailsAt {} (tokens ++ others) inside between behind
        ⟨e.value, e.position.below ((front ++ gap ++ trail).count '\n' + 1)⟩ := by
  obtain ⟨inside, between, htext, hbetween, hlayout⟩ := h.layout_append hclosed hfails.layout
  have hleads : Gap.LeadsTo between behind := by
    rcases hbetween with rfl | rfl
    · exact hfails.leads
    · exact hfails.leads.append (h.gap.append hclosed)
  refine ⟨inside, between, ?_, hlayout, hleads, ?_, hfails.wrong.behind_program h.flattens, ?_⟩
  · rw [← htext]
    simp
  · exact hfails.sound.behind_program h.layout.proper h.flattens
  · -- the line feed takes the place to the start of a line
    have hlines : ClosesLines (front ++ gap ++ trail ++ ['\n']) := by simp [ClosesLines]
    have hstart : Cursor.advanceOver {} (front ++ gap ++ trail ++ ['\n']) =
        Cursor.below {} ((front ++ gap ++ trail).count '\n' + 1) := by
      rw [hlines.advanceOver, List.count_append, List.count_singleton_self, Cursor.below,
        Nat.zero_add]
    rw [hfails.position, ← htext, List.append_cons, Cursor.advanceOver_append {} (_ ++ _), hstart,
      Cursor.advanceOver_below]

/-- **Where a text goes wrong before its end, it does so whatever stands behind it**, a string
    literal that is left open apart. -/
theorem FailsAt.extended (h : FailsAt {} tokens front gap behind e)
    (hinside : (∃ expected, e.value = .unexpectedToken .closing expected) ∨
      ∃ digits, e.value = .integerOverflow digits) (more : List Char) :
    FailsAt {} tokens front gap (behind ++ '\n' :: more) e := by
  have hlayout : Layout tokens front (ofChars (gap ++ (behind ++ '\n' :: more))) := by
    rw [← List.append_assoc]
    exact h.layout.line
  have hwrong := h.wrong
  obtain ⟨value, position⟩ := e
  dsimp only at hinside hwrong
  cases hwrong with
  | @token t _ rest hoffends ht hstop =>
    refine ⟨hlayout, .token (h.leads.spelled (by simp [Token.spelling_ne_nil ht])), h.sound, ?_,
      h.position⟩
    rw [List.append_assoc]
    exact .token hoffends ht hstop.line
  | ending hoffends =>
    cases hoffends with
    | ending => simp at hinside
  | string => simp at hinside

/-! ## Texts that are joined -/

section Parsing

variable {text : String}

theorem results_of_program (htext : text.toList = front ++ gap ++ trail)
    (h : HoldsProgram xs tokens front gap trail) :
    (Reader.ofText text).results.1 = xs.map .ok ∧ (Reader.ofText text).results.2.unclosed =
      (Gap.Mode.behind (Cursor.advanceOver {} (front ++ gap)) trail).unclosed := by
  have hrest : (Reader.ofText text).rest = ofChars (front ++ gap ++ trail) := congrArg ofChars htext
  exact Reader.results_of_program rfl hrest h

theorem parse_of_program (htext : text.toList = front ++ gap ++ trail)
    (h : HoldsProgram xs tokens front gap trail) : parse text = .ok xs :=
  parse_eq_ok_iff.2 (results_of_program htext h).1

theorem exists_program_of_parse (h : parse text = .ok xs) :
    ∃ tokens front gap trail, text.toList = front ++ gap ++ trail ∧
      HoldsProgram xs tokens front gap trail := by
  rcases exists_program_or_failure {} text.toList with
    ⟨ys, tokens, front, gap, trail, htext, hholds⟩ |
    ⟨tokens, front, gap, behind, e, htext, hfails⟩
  · obtain rfl : ys = xs := Except.ok.inj ((parse_of_program htext hholds).symm.trans h)
    exact ⟨tokens, front, gap, trail, htext, hholds⟩
  · rw [parse_eq_error_iff_failsAt.2 ⟨tokens, front, gap, behind, htext, hfails⟩] at h
    cases h

end Parsing

theorem toList_joined (a b : String) :
    (a ++ "\n" ++ b).toList = a.toList ++ '\n' :: b.toList := by
  simp

/-- **Texts that are joined by a line feed are read one by one.** Behind a text that is read without
    a comment being left open, another one is read as it is alone, and so is its error, further
    below by the lines of the first text. A parenthesis that closes no list and a numeral out of
    range are the error at their place, whatever stands behind the line feed. -/
theorem parse_joined (a b : String) :
    (∀ xs, parse a = .ok xs → (Reader.ofText a).results.2.unclosed = [] →
      (∀ ys, parse b = .ok ys → parse (a ++ "\n" ++ b) = .ok (xs ++ ys)) ∧
      ∀ e, parse b = .error e → parse (a ++ "\n" ++ b) =
        .error ⟨e.value, ⟨e.position.line + (1 + a.toList.count '\n'), e.position.column⟩⟩) ∧
    ∀ e, parse a = .error e →
      ((∃ expected, e.value = .unexpectedToken .closing expected) ∨
        ∃ digits, e.value = .integerOverflow digits) →
      parse (a ++ "\n" ++ b) = .error e := by
  refine ⟨?_, ?_⟩
  · intro xs hparse hunclosed
    obtain ⟨tokens, front, gap, trail, ha, hholds⟩ := exists_program_of_parse hparse
    have hclosed : Gap.Spelled (trail ++ ['\n']) :=
      hholds.trail.closed ((results_of_program ha hholds).2.symm.trans hunclosed)
    refine ⟨?_, ?_⟩
    · intro ys hmore
      obtain ⟨others, before, last, rest, hb, hothers⟩ := exists_program_of_parse hmore
      obtain ⟨inside, between, htext, hboth⟩ := hholds.append hclosed hothers
      rw [← ha, ← hb, ← toList_joined] at htext
      exact parse_of_program htext hboth
    · intro e herror
      obtain ⟨others, before, last, behind, hb, hfails⟩ := parse_eq_error_iff_failsAt.1 herror
      obtain ⟨inside, between, htext, hboth⟩ := hfails.behind_program hholds hclosed
      rw [← ha, ← hb, ← toList_joined] at htext
      rw [← ha, Nat.add_comm] at hboth
      exact parse_eq_error_iff_failsAt.2 ⟨_, inside, between, behind, htext, hboth⟩
  · intro e herror hinside
    obtain ⟨tokens, front, gap, behind, ha, hfails⟩ := parse_eq_error_iff_failsAt.1 herror
    have hextended := hfails.extended hinside b.toList
    refine parse_eq_error_iff_failsAt.2 ⟨tokens, front, gap, _, ?_, hextended⟩
    rw [toList_joined, ha, List.append_assoc]

/-- A slash at the end of a text opens no comment with one behind the line feed. -/
theorem parse_joined_slashes :
    parse "(f 1)\n/" = .ok [.list [.symbol "f", .int 1], .symbol "/"] ∧
    parse ("(f 1)\n/" ++ "\n" ++ "/ x // )") =
      .ok [.list [.symbol "f", .int 1], .symbol "/", .symbol "/", .symbol "x"] ∧
    parse ("(f 1)\n/" ++ "\n" ++ " \"a") = .error ⟨.unterminatedString, ⟨2, 1⟩⟩ ∧
    parse ("(f))" ++ "\n" ++ ")") = .error ⟨.unexpectedToken .closing programKinds, ⟨0, 3⟩⟩ := by
  have hparse : parse "(f 1)\n/" = .ok [.list [.symbol "f", .int 1], .symbol "/"] := by
    decide +kernel
  have hunclosed : (Reader.ofText "(f 1)\n/").results.2.unclosed = [] := by decide +kernel
  obtain ⟨hread, -⟩ := (parse_joined "(f 1)\n/" "/ x // )").1 _ hparse hunclosed
  obtain ⟨-, herror⟩ := (parse_joined "(f 1)\n/" " \"a").1 _ hparse hunclosed
  refine ⟨hparse, hread [.symbol "/", .symbol "x"] (by decide +kernel), ?_, ?_⟩
  · exact herror ⟨.unterminatedString, ⟨0, 1⟩⟩ (by decide +kernel)
  · exact (parse_joined "(f))" ")").2 _ (by decide +kernel) (Or.inl ⟨_, rfl⟩)

end SmtDialogue
