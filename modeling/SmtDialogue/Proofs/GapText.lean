/-
  The text of a gap: blanks, line comments and block comments, one after the other.

  * `Gap.Spelled` are the texts that are nothing but a gap, all comments closed;
  * `Gap.EndsAt`: no gap goes on at the head of a source;
  * `skip_append`: a gap is skipped as a whole;
  * `Gap.Trails`: what a gap may end with at the end of a text, and `skip_trails`: it is skipped
    as well;
  * `exists_split`: every text starts with a gap, and `skip_sized`: what is skipped before a
    character is this gap.
-/
import Mathlib.Data.List.Infix
import SmtDialogue.Proofs.SourceText
import SmtDialogue.Token.Gap

namespace SmtDialogue.Gap

open Source

variable {size : Char → Nat} {text : List Char} {place : Cursor} {rest tail : Source}

/-- Blanks and closed comments. A line comment is closed by a line feed, a block comment
    by the first `*/` in it. -/
inductive Spelled : List Char → Prop
  | nil : Spelled []
  | blank {c text} : isBlank c → Spelled text → Spelled (c :: text)
  | line {comment text} : '\n' ∉ comment → Spelled text →
      Spelled ('/' :: '/' :: comment ++ '\n' :: text)
  | block {comment text} : ¬ ['*', '/'] <:+: comment → Spelled text →
      Spelled ('/' :: '*' :: comment ++ '*' :: '/' :: text)

theorem Spelled.blanks {blanks : List Char} (hblanks : ∀ c ∈ blanks, isBlank c) (h : Spelled text) :
    Spelled (blanks ++ text) := by
  induction blanks with
  | nil => exact h
  | cons c blanks ih =>
    exact .blank (hblanks c List.mem_cons_self)
      (ih fun d hd => hblanks d (List.mem_cons_of_mem c hd))

/-- Behind a slash, the head of the source makes the slash the start of a comment. -/
def OpensComment : Source → Prop
  | .char c _ :: _ => c = '/' ∨ c = '*'
  | _ => False

/-- Neither a blank nor a comment stands at the head of the source. -/
def EndsAt : Source → Prop
  | .char c _ :: rest => ¬ isBlank c ∧ (c = '/' → ¬ OpensComment rest)
  | _ => True

/-! ## Gaps are skipped -/

theorem slash_not_blank : ¬ isBlank '/' := by decide

theorem skip_blank {c : Char} {n : Nat} (h : isBlank c) :
    skip .blank place (.char c n :: rest) = skip .blank (place.advance c) rest := by
  have hc : c ≠ '/' := by
    rintro rfl
    exact slash_not_blank h
  rw [skip, if_pos h]
  · simp_all
  · simp_all

theorem skip_of_endsAt (h : EndsAt rest) : skip .blank place rest = ⟨rest, place, []⟩ := by
  cases rest with
  | nil => rw [skip] <;> simp
  | cons pull rest =>
    cases pull with
    | failure => rw [skip] <;> simp
    | stop => rw [skip] <;> simp
    | char c n =>
      obtain ⟨hblank, hcomment⟩ := h
      rw [skip, if_neg hblank]
      · rintro m more rfl hc
        exact hcomment hc (Or.inl rfl)
      · rintro m more rfl hc
        exact hcomment hc (Or.inr rfl)

theorem skip_line {comment : List Char} (h : '\n' ∉ comment) :
    skip .line place (sized size (comment ++ ['\n']) ++ rest) =
      skip .blank (place.advanceOver (comment ++ ['\n'])) rest := by
  induction comment generalizing place with
  | nil => simp [skip]
  | cons c comment ih =>
    simp only [List.mem_cons, not_or] at h
    rw [List.cons_append, sized_cons, List.cons_append, skip, if_neg (Ne.symm h.1), ih h.2]
    rfl

theorem skip_block {start : Cursor} {comment : List Char} (h : ¬ ['*', '/'] <:+: comment) :
    skip (.block start) place (sized size (comment ++ ['*', '/']) ++ rest) =
      skip .blank (place.advanceOver (comment ++ ['*', '/'])) rest := by
  induction comment generalizing place with
  | nil => simp [skip]
  | cons c comment ih =>
    rw [List.infix_cons_iff, not_or] at h
    obtain ⟨hhead, htail⟩ := h
    rw [List.cons_append, sized_cons, List.cons_append, skip, ih htail]
    · rfl
    · -- the comment does not close at its first character
      rintro n more hmore rfl
      cases comment with
      | nil => simp at hmore
      | cons d comment =>
        simp only [List.cons_append, sized_cons, List.cons.injEq, Pull.char.injEq] at hmore
        exact hhead ⟨comment, by rw [hmore.1.1]; rfl⟩

/-- **A gap is skipped as a whole**, and skipping goes on behind it. -/
theorem skip_append (h : Spelled text) :
    skip .blank place (sized size text ++ rest) = skip .blank (place.advanceOver text) rest := by
  induction h generalizing place with
  | nil => rfl
  | blank hc _ ih => rw [sized_cons, List.cons_append, skip_blank hc, ih]; rfl
  | @line comment text hcomment _ ih =>
    have hsplit : '/' :: '/' :: comment ++ '\n' :: text =
        ['/', '/'] ++ ((comment ++ ['\n']) ++ text) := by simp
    rw [hsplit, sized_append, sized_append]
    simp only [sized_cons, sized_nil, List.cons_append, List.nil_append, List.append_assoc]
    rw [skip, skip_line hcomment, ih]
    simp [Cursor.advanceOver_append]
  | @block comment text hcomment _ ih =>
    have hsplit : '/' :: '*' :: comment ++ '*' :: '/' :: text =
        ['/', '*'] ++ ((comment ++ ['*', '/']) ++ text) := by simp
    rw [hsplit, sized_append, sized_append]
    simp only [sized_cons, sized_nil, List.cons_append, List.nil_append, List.append_assoc]
    rw [skip, skip_block hcomment, ih]
    simp [Cursor.advanceOver_append]

/-! ## Where a text ends in a gap -/

/-- What a gap may end with where a text ends: nothing, or a comment that is not closed. -/
inductive Trails : List Char → Prop
  | nil : Trails []
  | line {comment} : '\n' ∉ comment → Trails ('/' :: '/' :: comment)
  | block {comment} : ¬ ['*', '/'] <:+: comment → Trails ('/' :: '*' :: comment)

namespace Mode

/-- Behind a text that a gap ends with: it may be inside of the comment that it starts with. -/
def behind (start : Cursor) : List Char → Mode
  | '/' :: '/' :: _ => line
  | '/' :: '*' :: _ => block start
  | _ => blank

/-- The start of the block comment that is open. -/
def unclosed : Mode → List Cursor
  | block start => [start]
  | blank | line => []

end Mode

theorem skip_nil (mode : Mode) (place : Cursor) :
    skip mode place [] = ⟨[], place, mode.unclosed⟩ := by
  cases mode <;> simp [skip, Mode.unclosed]

theorem skip_failure (mode : Mode) (place : Cursor) (message : String) (n : Nat) (beyond : Source) :
    skip mode place (.failure message n :: beyond) =
      ⟨.failure message n :: beyond, place, []⟩ := by
  cases mode <;> simp [skip]

theorem skip_openLine {comment : List Char} (h : '\n' ∉ comment) :
    skip .line place (sized size comment ++ tail) =
      skip .line (place.advanceOver comment) tail := by
  induction comment generalizing place with
  | nil => rfl
  | cons c comment ih =>
    simp only [List.mem_cons, not_or] at h
    rw [sized_cons, List.cons_append, skip, if_neg (Ne.symm h.1), ih h.2]
    rfl

theorem skip_openBlock {start : Cursor} {comment : List Char} (h : ¬ ['*', '/'] <:+: comment)
    (htail : Silent tail) : skip (.block start) place (sized size comment ++ tail) =
      skip (.block start) (place.advanceOver comment) tail := by
  induction comment generalizing place with
  | nil => rfl
  | cons c comment ih =>
    rw [List.infix_cons_iff, not_or] at h
    obtain ⟨hhead, hrest⟩ := h
    rw [sized_cons, List.cons_append, skip, ih hrest]
    · rfl
    · -- neither the comment nor what stands behind it closes the comment here
      rintro n more hmore rfl
      cases comment with
      | nil =>
        rw [sized_nil, List.nil_append] at hmore
        rw [hmore] at htail
        exact htail
      | cons d comment =>
        simp only [List.cons_append, sized_cons, List.cons.injEq, Pull.char.injEq] at hmore
        exact hhead ⟨comment, by rw [hmore.1.1]; rfl⟩

/-- **What a gap ends with is skipped to the end of the text**, and skipping goes on inside of the
    comment, if one is open. -/
theorem skip_trails (h : Trails text) (htail : Silent tail) :
    skip .blank place (sized size text ++ tail) =
      skip (.behind place text) (place.advanceOver text) tail := by
  cases h with
  | nil => rfl
  | line hcomment =>
    rw [sized_cons, sized_cons, List.cons_append, List.cons_append, skip, skip_openLine hcomment]
    rfl
  | block hcomment =>
    rw [sized_cons, sized_cons, List.cons_append, List.cons_append, skip,
      skip_openBlock hcomment htail]
    rfl

/-! ## The gap at the head of a text -/

/-- What is to close a comment closes it where it stands first. -/
theorem exists_of_infix {text : List Char} (h : ['*', '/'] <:+: text) :
    ∃ comment more, text = comment ++ '*' :: '/' :: more ∧ ¬ ['*', '/'] <:+: comment := by
  induction text with
  | nil => simp at h
  | cons c text ih =>
    by_cases hhead : ['*', '/'] <+: c :: text
    · obtain ⟨more, hmore⟩ := hhead
      exact ⟨[], more, hmore.symm, by simp⟩
    · have hrest : ['*', '/'] <:+: text := (List.infix_cons_iff.1 h).resolve_left hhead
      obtain ⟨comment, more, rfl, hcomment⟩ := ih hrest
      refine ⟨c :: comment, more, rfl, ?_⟩
      rw [List.infix_cons_iff, not_or]
      refine ⟨?_, hcomment⟩
      intro hopens
      exact hhead (hopens.trans (List.prefix_append (c :: comment) _))

/-- **Every text starts with a gap**, behind which it ends, but for an open comment, or a token
    starts. -/
theorem exists_split (text : List Char) : ∃ gap rest, text = gap ++ rest ∧ Spelled gap ∧
    (Trails rest ∨ ∃ c more, rest = c :: more ∧ EndsAt (ofChars rest)) := by
  induction hlength : text.length using Nat.strong_induction_on generalizing text with
  | _ n ih =>
  rcases text with _ | ⟨c, text⟩
  · exact ⟨[], [], rfl, .nil, Or.inl .nil⟩
  rw [List.length_cons] at hlength
  by_cases hblank : isBlank c = true
  · obtain ⟨gap, rest, rfl, hgap, hrest⟩ := ih text.length (by omega) text rfl
    exact ⟨c :: gap, rest, rfl, .blank hblank hgap, hrest⟩
  -- a comment that is closed is a part of the gap, and another one takes the rest of the text
  by_cases hopens : c = '/' ∧ OpensComment (ofChars text)
  · obtain ⟨rfl, hopens⟩ := hopens
    obtain ⟨d, comment, rfl⟩ : ∃ d comment, text = d :: comment := by
      cases text with
      | nil => exact hopens.elim
      | cons d comment => exact ⟨d, comment, rfl⟩
    rw [List.length_cons] at hlength
    rcases hopens with rfl | rfl
    · by_cases hclosed : '\n' ∈ comment
      · obtain ⟨comment, more, rfl, hcomment⟩ := List.eq_append_cons_of_mem hclosed
        rw [List.length_append, List.length_cons] at hlength
        obtain ⟨gap, rest, rfl, hgap, hrest⟩ := ih more.length (by omega) more rfl
        exact ⟨'/' :: '/' :: comment ++ '\n' :: gap, rest, by simp, .line hcomment hgap, hrest⟩
      · exact ⟨[], '/' :: '/' :: comment, rfl, .nil, Or.inl (.line hclosed)⟩
    · by_cases hclosed : ['*', '/'] <:+: comment
      · obtain ⟨comment, more, rfl, hcomment⟩ := exists_of_infix hclosed
        rw [List.length_append, List.length_cons, List.length_cons] at hlength
        obtain ⟨gap, rest, rfl, hgap, hrest⟩ := ih more.length (by omega) more rfl
        exact ⟨'/' :: '*' :: comment ++ '*' :: '/' :: gap, rest, by simp, .block hcomment hgap,
          hrest⟩
      · exact ⟨[], '/' :: '*' :: comment, rfl, .nil, Or.inl (.block hclosed)⟩
  · exact ⟨[], c :: text, rfl, .nil, Or.inr ⟨c, text, rfl, hblank, fun hc ho => hopens ⟨hc, ho⟩⟩⟩

theorem EndsAt.append {c : Char} {more : List Char} (h : EndsAt (ofChars (c :: more)))
    (htail : Silent tail) : EndsAt (sized size (c :: more) ++ tail) := by
  obtain ⟨hblank, hcomment⟩ := h
  refine ⟨hblank, ?_⟩
  intro hc hopens
  cases more with
  | cons d more => exact hcomment hc hopens
  | nil =>
    rcases tail with _ | ⟨_ | _ | _, tail⟩
    · exact hopens
    · exact htail
    · exact hopens
    · exact hopens

/-- **What is skipped before a character is a gap**, and the character belongs to none. -/
theorem skip_sized {c : Char} {n : Nat} (htail : Dry tail)
    (h : (skip .blank place (sized size text ++ tail)).rest = .char c n :: rest) :
    ∃ gap more, text = gap ++ c :: more ∧ Spelled gap ∧ n = size c ∧
      rest = sized size more ++ tail ∧ EndsAt (.char c n :: rest) := by
  obtain ⟨gap, behind, rfl, hgap, hbehind⟩ := exists_split text
  rw [sized_append, List.append_assoc, skip_append hgap] at h
  rcases hbehind with htrails | ⟨d, more, rfl, hend⟩
  · rw [skip_trails htrails htail.silent] at h
    rcases tail with _ | ⟨_ | _ | _, tail⟩
    · simp [skip_nil] at h
    · exact htail.elim
    · simp [skip_failure] at h
    · exact htail.elim
  · have hhere : EndsAt (sized size (d :: more) ++ tail) := hend.append htail.silent
    rw [skip_of_endsAt hhere] at h
    simp only [sized_cons, List.cons_append, List.cons.injEq, Pull.char.injEq] at h
    obtain ⟨⟨rfl, rfl⟩, rfl⟩ := h
    exact ⟨gap, more, rfl, hgap, rfl, rfl, hhere⟩

end SmtDialogue.Gap
