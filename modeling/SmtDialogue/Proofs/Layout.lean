/-
  Texts that hold given tokens: the spellings of the tokens in order, with a gap before
  each.

  * `Layout tokens text rest`: `text` holds `tokens`, and the last of them does not go on in
    `rest`;
  * `takes_of_layout`: a reader takes the tokens that a text holds;
  * `layout_of_takes`: the tokens that a reader has taken are held by a text;
  * `Layout.append`, `Layout.congr`: texts may follow one another, and what follows a text
    matters no more than it has to.
-/
import SmtDialogue.Proofs.Reading
import SmtDialogue.Proofs.TokenText

namespace SmtDialogue

open Source

/-- The text holds these tokens, each behind a gap, and the source behind the text does not
    continue the last one. -/
inductive Layout : List Token → List Char → Source → Prop
  | nil {rest : Source} : Layout [] [] rest
  | cons {gap text : List Char} {t : Token} {tokens : List Token} {rest : Source} :
      Gap.Spelled gap → t.Proper → t.StopsBefore (ofChars text ++ rest) →
        Layout tokens text rest → Layout (t :: tokens) (gap ++ t.spelling ++ text) rest

/-- The end of the last token is only seen on the character behind it. -/
def peeksBehind (peeked : Bool) (tokens : List Token) : Bool :=
  tokens.foldl (fun _ t => t.peeks) peeked

@[simp] theorem peeksBehind_cons (peeked : Bool) (t : Token) (tokens : List Token) :
    peeksBehind peeked (t :: tokens) = peeksBehind t.peeks tokens := rfl

variable {size : Char → Nat} {text more : List Char} {tokens others : List Token} {t : Token}
  {rest tail : Source} {reader after : Reader}

theorem Source.endsRun_sized {p : Char → Bool} :
    EndsRun p (sized size text ++ rest) ↔ EndsRun p (ofChars text ++ rest) := by
  cases text <;> rfl

theorem Token.stopsBefore_sized :
    t.StopsBefore (sized size text ++ rest) ↔ t.StopsBefore (ofChars text ++ rest) := by
  cases t with
  | int | symbol | keyword => exact endsRun_sized
  | endOfInput | opening | closing | string => rfl

namespace Layout

theorem singleton (ht : t.Proper) (hstop : t.StopsBefore rest) : Layout [t] t.spelling rest := by
  have hlayout : Layout [t] ([] ++ t.spelling ++ []) rest := .cons .nil ht hstop .nil
  simpa using hlayout

theorem blanks {blanks : List Char} (hblanks : ∀ c ∈ blanks, isBlank c) (hne : tokens ≠ [])
    (h : Layout tokens text rest) : Layout tokens (blanks ++ text) rest := by
  cases h with
  | nil => exact absurd rfl hne
  | @cons gap text t tokens _ hgap ht hstop hmore =>
    have hlayout : Layout (t :: tokens) (blanks ++ gap ++ t.spelling ++ text) rest :=
      .cons (hgap.blanks hblanks) ht hstop hmore
    simpa using hlayout

theorem proper (h : Layout tokens text rest) : ∀ t ∈ tokens, t.Proper := by
  induction h with
  | nil => simp
  | cons _ ht _ _ ih =>
    rintro t (_ | ⟨_, hmem⟩)
    · exact ht
    · exact ih t hmem

theorem ne_nil (h : Layout tokens text rest) (hne : tokens ≠ []) : text ≠ [] := by
  cases h with
  | nil => exact absurd rfl hne
  | cons hgap ht hstop hmore => simp [Token.spelling_ne_nil ht]

theorem stopsBefore (h : Layout tokens text rest) : ∀ t ∈ tokens.getLast?, t.StopsBefore rest := by
  induction h with
  | nil => simp
  | @cons gap text t tokens rest hgap ht hstop hmore ih =>
    cases tokens with
    | nil =>
      cases hmore
      simpa [ofChars] using hstop
    | cons next tokens => simpa [List.getLast?_cons_cons] using ih

theorem congr (h : Layout tokens text rest) (hlast : ∀ t ∈ tokens.getLast?, t.StopsBefore tail) :
    Layout tokens text tail := by
  induction h with
  | nil => exact .nil
  | @cons gap text t tokens rest hgap ht hstop hmore ih =>
    cases tokens with
    | nil =>
      cases hmore
      exact .cons hgap ht (by simpa [ofChars] using hlast t (by simp)) .nil
    | cons next tokens =>
      refine .cons hgap ht ?_ (ih (by simpa [List.getLast?_cons_cons] using hlast))
      -- the next token is spelled there, so that nothing has changed for this one
      obtain ⟨c, text, rfl⟩ := List.exists_cons_of_ne_nil (hmore.ne_nil (by simp))
      cases t <;> exact hstop

theorem append (h : Layout tokens text (ofChars more ++ rest)) (hmore : Layout others more rest) :
    Layout (tokens ++ others) (text ++ more) rest := by
  induction tokens generalizing text with
  | nil =>
    cases h
    exact hmore
  | cons t tokens ih =>
    cases h with
    | @cons gap text _ _ _ hgap ht hstop htokens =>
      rw [List.append_assoc, List.cons_append]
      refine .cons hgap ht ?_ (ih htokens)
      simpa [ofChars] using hstop

end Layout

namespace Reader

/-- **The tokens that a text holds are taken one by one.** -/
theorem takes_of_layout (h : Layout tokens text rest)
    (hrest : reader.rest = sized size text ++ rest) :
    Takes reader tokens (reader.behind text rest (peeksBehind reader.peeked tokens)) := by
  induction h generalizing reader with
  | nil =>
    rw [sized_nil, List.nil_append] at hrest
    subst hrest
    exact .nil
  | @cons gap text t tokens rest hgap ht hstop _ ih =>
    have htoken : reader.token = (.ok ⟨t, reader.cursor.advanceOver gap⟩,
        reader.behind (gap ++ t.spelling) (sized size text ++ rest) t.peeks) :=
      token_eq_of_spelled hgap ht (Token.stopsBefore_sized.2 hstop)
        (by rw [hrest, sized_append, List.append_assoc])
    have hne : t ≠ .endOfInput := by
      rintro rfl
      exact ht
    have hmore : Takes (reader.behind (gap ++ t.spelling) (sized size text ++ rest) t.peeks) tokens
        _ := ih rfl
    rw [behind_behind] at hmore
    exact .cons htoken hne hmore

/-- **The tokens that a reader takes are held by the text that it takes them from.** -/
theorem layout_of_takes (htail : Dry tail) (h : Takes reader tokens after)
    (hrest : reader.rest = sized size text ++ tail) :
    ∃ front more, text = front ++ more ∧ Layout tokens front (ofChars more ++ tail) ∧
      after = reader.behind front (sized size more ++ tail) (peeksBehind reader.peeked tokens) := by
  induction h generalizing text with
  | nil => exact ⟨[], text, rfl, .nil, by rw [← hrest]; rfl⟩
  | @cons reader middle after token tokens htoken hne _ ih =>
    obtain ⟨gap, behind, rfl, hgap, hproper, hstop⟩ := spelled_of_token htail hrest htoken hne
    have hmiddle : middle = reader.behind (gap ++ token.value.spelling)
        (sized size behind ++ tail) token.value.peeks := by
      have heq := token_eq_of_spelled hgap hproper hstop
        (by rw [hrest, sized_append, List.append_assoc])
      exact (Prod.mk.inj (htoken.symm.trans heq)).2
    have hbehind : middle.rest = sized size behind ++ tail := by
      rw [hmiddle]
      rfl
    obtain ⟨front, more, rfl, hlayout, rfl⟩ := ih hbehind
    refine ⟨gap ++ token.value.spelling ++ front, more, by simp, .cons hgap hproper ?_ hlayout, ?_⟩
    · have hsplit := Token.stopsBefore_sized.1 hstop
      simpa [ofChars] using hsplit
    · rw [hmiddle, behind_behind]
      rfl

theorem layout_of_takes_ofChars (h : Takes reader tokens after)
    (hrest : reader.rest = ofChars text) :
    ∃ front more, text = front ++ more ∧ Layout tokens front (ofChars more) ∧
      after = reader.behind front (ofChars more) (peeksBehind reader.peeked tokens) := by
  have hsized : reader.rest = sized (fun _ => 1) text ++ [] := by
    rw [hrest, ofChars_eq_sized, List.append_nil]
  simpa [ofChars_eq_sized] using layout_of_takes dry_nil h hsized

end Reader

end SmtDialogue
