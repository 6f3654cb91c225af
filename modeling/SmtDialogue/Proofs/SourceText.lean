/-
  Sources that deliver a text.

  * `Source.sized size text` delivers the characters of `text`, giving away `size c` units
    for each character `c`: one for a source of characters, the length of the encoding for
    a source of bytes;
  * `Source.Dry`: a source that has nothing more to give, as it may stand behind a text, and
    `Source.Silent`: one that has no character at its head;
  * `Source.EndsRun`: a run of characters is known to end here;
  * `run_append`, `run_sized`: in terms of texts, what a run is, and `exists_run`: every text
    starts with one;
  * `quoted_append`, `quoted_sized`: what a quote closes, and `Source.IsUnclosed`: texts in which
    none does.
-/
import Mathlib.Data.List.Basic
import SmtDialogue.Text.Quoted

namespace SmtDialogue

namespace Source

/-- The characters of a text, each with the units that are given away for it. -/
def sized (size : Char → Nat) (text : List Char) : Source :=
  text.map fun c => .char c (size c)

variable {size : Char → Nat} {text more : List Char} {c : Char} {n : Nat} {rest tail : Source}

@[simp] theorem sized_nil : sized size [] = [] := rfl

@[simp] theorem sized_cons : sized size (c :: text) = .char c (size c) :: sized size text := rfl

@[simp] theorem sized_append : sized size (text ++ more) = sized size text ++ sized size more :=
  List.map_append

theorem ofChars_eq_sized (text : List Char) : ofChars text = sized (fun _ => 1) text := rfl

theorem size_append (front back : Source) :
    Source.size (front ++ back) = front.size + back.size := by
  induction front with
  | nil => simp
  | cons pull front ih => simp [ih, Nat.add_assoc]

theorem size_ofChars (text : List Char) : Source.size (ofChars text) = text.length := by
  induction text with
  | nil => rfl
  | cons c text ih =>
    rw [ofChars_eq_sized] at ih ⊢
    rw [sized_cons, size_cons, ih]
    simp [Pull.size, Nat.add_comm]

/-! ## Behind a text -/

/-- Nothing can be read: the source has run empty, or it fails. -/
def Dry : Source → Prop
  | [] | .failure _ _ :: _ => True
  | .char _ _ :: _ | .stop :: _ => False

@[simp] theorem dry_nil : Dry [] := trivial

/-- No character stands at the head of the source. -/
def Silent : Source → Prop
  | .char _ _ :: _ => False
  | _ => True

theorem silent_failure {message : String} {n : Nat} : Silent (.failure message n :: tail) := trivial

theorem silent_stop : Silent (.stop :: tail) := trivial

theorem Dry.silent (h : Dry tail) : Silent tail := by
  cases tail with
  | nil => trivial
  | cons pull tail =>
    cases pull with
    | char c n => exact h.elim
    | failure | stop => trivial

theorem Dry.not_char (h : Dry tail) : tail ≠ .char c n :: rest := by
  rintro rfl
  exact h

/-! ## Runs -/

/-- A run of characters of the class `p` ends here: another character follows, or the end. -/
def EndsRun (p : Char → Bool) : Source → Prop
  | [] | .stop :: _ => True
  | .char c _ :: _ => ¬ p c
  | .failure _ _ :: _ => False

theorem EndsRun.not_failure {p : Char → Bool} (h : EndsRun p rest) (message : String) (n : Nat)
    (more : Source) : rest ≠ .failure message n :: more := by
  rintro rfl
  exact h

theorem run_cons_of_pos {p : Char → Bool} (h : p c) :
    run p (.char c n :: rest) = (c :: (run p rest).1, (run p rest).2) := by
  simp [run, Pull.isIn, Pull.char?, h]

theorem run_of_silent (p : Char → Bool) (h : Silent tail) : run p tail = ([], tail) := by
  rcases tail with _ | ⟨_ | _ | _, tail⟩
  · rfl
  · exact h.elim
  · simp [run, Pull.isIn, Pull.char?]
  · simp [run, Pull.isIn, Pull.char?]

theorem run_of_endsRun {p : Char → Bool} (h : EndsRun p rest) : run p rest = ([], rest) := by
  cases rest with
  | nil => rfl
  | cons pull rest => cases pull <;> simp_all [run, EndsRun, Pull.isIn, Pull.char?]

theorem run_sized_append {p : Char → Bool} (hp : ∀ c ∈ text, p c) :
    run p (sized size text ++ rest) = (text ++ (run p rest).1, (run p rest).2) := by
  induction text with
  | nil => rfl
  | cons c text ih =>
    rw [sized_cons, List.cons_append, run_cons_of_pos (hp c (by simp)),
      ih fun d hd => hp d (by simp [hd])]
    rfl

theorem run_append {p : Char → Bool} (hp : ∀ c ∈ text, p c) (h : EndsRun p rest) :
    run p (sized size text ++ rest) = (text, rest) := by
  rw [run_sized_append hp, run_of_endsRun h, List.append_nil]

/-- Every text starts with a run, be it empty. -/
theorem exists_run (p : Char → Bool) (text : List Char) :
    ∃ word more, text = word ++ more ∧ (∀ c ∈ word, p c) ∧ EndsRun p (ofChars more) := by
  induction text with
  | nil => exact ⟨[], [], rfl, by simp, trivial⟩
  | cons c text ih =>
    by_cases hc : p c = true
    · obtain ⟨word, more, rfl, hword, hmore⟩ := ih
      refine ⟨c :: word, more, rfl, ?_, hmore⟩
      rintro d (_ | ⟨_, hd⟩)
      · exact hc
      · exact hword d hd
    · exact ⟨[], c :: text, rfl, by simp, hc⟩

theorem run_sized {p : Char → Bool} (h : Dry tail) {word : List Char}
    (hrun : run p (sized size text ++ tail) = (word, rest)) :
    ∃ more, text = word ++ more ∧ rest = sized size more ++ tail ∧ ∀ c ∈ word, p c := by
  obtain ⟨front, more, rfl, hfront, hend⟩ := exists_run p text
  have hstop : run p (sized size more ++ tail) = ([], sized size more ++ tail) := by
    cases more with
    | nil => exact run_of_silent p h.silent
    | cons c more => exact run_of_endsRun hend
  rw [sized_append, List.append_assoc, run_sized_append hfront, hstop, List.append_nil] at hrun
  obtain ⟨rfl, rfl⟩ := Prod.mk.inj hrun
  exact ⟨more, rfl, rfl, hfront⟩

/-! ## Quoted text -/

/-- Read from left to right, a backslash making the character behind it a plain one, the
    text meets no quote and does not end behind a backslash. Its head is plain if it is
    `escaped`. -/
def isQuotable (escaped : Bool) : List Char → Bool
  | [] => !escaped
  | c :: text => (escaped || c ≠ '"') && isQuotable (c = '\\' && !escaped) text

example : isQuotable false "a\\\"b".toList := by decide
example : ¬ isQuotable false "a\\".toList := by decide

theorem quoted_append {escaped : Bool} (h : isQuotable escaped text) :
    quoted escaped (sized size text ++ .char '"' n :: rest) = (text, .char '"' n :: rest) := by
  induction text generalizing escaped with
  | nil => simp_all [quoted, isQuotable]
  | cons c text ih =>
    simp only [isQuotable, Bool.and_eq_true, Bool.or_eq_true, decide_eq_true_eq] at h
    obtain ⟨hc, htext⟩ := h
    have hplain : ¬ (c = '"' ∧ (!escaped) = true) := by
      rintro ⟨rfl, hescaped⟩
      simp_all
    rw [sized_cons, List.cons_append, quoted, if_neg hplain, ih htext]

/-- No quote in the text closes it. -/
def IsUnclosed (escaped : Bool) (text : List Char) : Prop :=
  ∀ body more, text = body ++ '"' :: more → ¬ isQuotable escaped body

theorem quoted_of_isUnclosed {escaped : Bool} (h : IsUnclosed escaped text) (htail : Silent tail) :
    quoted escaped (sized size text ++ tail) = (text, tail) := by
  induction text generalizing escaped with
  | nil =>
    rcases tail with _ | ⟨_ | _ | _, tail⟩
    · simp [quoted]
    · exact htail.elim
    · simp [quoted]
    · simp [quoted]
  | cons c text ih =>
    have hplain : ¬ (c = '"' ∧ (!escaped) = true) := by
      rintro ⟨rfl, hescaped⟩
      exact h [] text rfl hescaped
    have hmore : IsUnclosed (c = '\\' && !escaped) text := by
      rintro body more rfl hbody
      refine h (c :: body) more rfl ?_
      cases escaped <;> simp_all [isQuotable]
    rw [sized_cons, List.cons_append, quoted, if_neg hplain, ih hmore]

theorem quoted_sized {escaped : Bool} (h : Dry tail) {body : List Char}
    (hquoted : quoted escaped (sized size text ++ tail) = (body, .char c n :: rest)) :
    ∃ more, text = body ++ '"' :: more ∧ c = '"' ∧ n = size c ∧
      rest = sized size more ++ tail ∧ isQuotable escaped body := by
  by_cases hclosed : ∃ body more, text = body ++ '"' :: more ∧ isQuotable escaped body
  · obtain ⟨front, more, rfl, hfront⟩ := hclosed
    rw [sized_append, List.append_assoc, sized_cons, List.cons_append, quoted_append hfront]
      at hquoted
    simp only [Prod.mk.injEq, List.cons.injEq, Pull.char.injEq] at hquoted
    obtain ⟨rfl, ⟨rfl, rfl⟩, rfl⟩ := hquoted
    exact ⟨more, rfl, rfl, rfl, rfl, hfront⟩
  · have hopen : IsUnclosed escaped text := fun front more htext hfront =>
      hclosed ⟨front, more, htext, hfront⟩
    rw [quoted_of_isUnclosed hopen h.silent] at hquoted
    exact absurd (Prod.mk.inj hquoted).2 h.not_char

end Source

end SmtDialogue
