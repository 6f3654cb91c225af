/-
  Tokens as they are spelled in a text.

  * `Token.spelling` is a token with its quotes or its colon, `Token.Proper` are the tokens
    that a text can hold;
  * `Token.StopsBefore`: what may follow a token, so that it does not go on;
  * `token_eq_of_spelled`: a gap and the spelling of a proper token are read as this token;
  * `spelled_of_token`: all that is read as a token is the spelling of a proper one behind
    a gap.
-/
import SmtDialogue.Proofs.GapText
import SmtDialogue.Reader.Basic

namespace SmtDialogue

/-! ## Spellings -/

/-- A word that is a symbol: it starts neither like another token nor like a comment. -/
structure IsSymbolText (name : List Char) : Prop where
  ne_nil : name ≠ []
  word : ∀ c ∈ name, isWordChar c
  head : ∀ c ∈ name.head?, ¬ c.isDigit ∧ c ≠ ':' ∧ c ≠ '"'
  noComment : ¬ ['/', '/'] <+: name ∧ ¬ ['/', '*'] <+: name

instance (name : List Char) : Decidable (IsSymbolText name) :=
  decidable_of_iff (name ≠ [] ∧ name.all isWordChar ∧
      name.head?.all (fun c => decide (¬ c.isDigit ∧ c ≠ ':' ∧ c ≠ '"')) ∧
      ¬ ['/', '/'] <+: name ∧ ¬ ['/', '*'] <+: name) <| by
    simp only [List.all_eq_true, Option.all_eq_true, decide_eq_true_eq]
    exact ⟨fun ⟨hne, hword, hhead, hcomment⟩ => ⟨hne, hword, hhead, hcomment⟩,
      fun h => ⟨h.ne_nil, h.word, h.head, h.noComment⟩⟩

namespace Token

/-- The text of a token as it stands in an input. -/
def spelling : Token → List Char
  | endOfInput => []
  | opening => ['(']
  | closing => [')']
  | int digits => digits.toList
  | string text => '"' :: text.toList ++ ['"']
  | symbol name => name.toList
  | keyword name => ':' :: name.toList

/-- The token can be spelled in an input. -/
def Proper : Token → Prop
  | endOfInput => False
  | opening | closing => True
  | int digits => digits.toList ≠ [] ∧ ∀ c ∈ digits.toList, c.isDigit
  | string text => Source.isQuotable false text.toList
  | symbol name => IsSymbolText name.toList
  | keyword name => ∀ c ∈ name.toList, isWordChar c

instance : (t : Token) → Decidable t.Proper
  | endOfInput => inferInstanceAs (Decidable False)
  | opening | closing => inferInstanceAs (Decidable True)
  | int digits =>
    decidable_of_iff (digits.toList ≠ [] ∧ digits.toList.all Char.isDigit)
      (and_congr_right' List.all_eq_true)
  | string text => inferInstanceAs (Decidable (Source.isQuotable false text.toList))
  | symbol name => inferInstanceAs (Decidable (IsSymbolText name.toList))
  | keyword name => decidable_of_iff (name.toList.all isWordChar) List.all_eq_true

/-- The end of the token is only seen on the character behind it. -/
def peeks : Token → Bool
  | int _ | symbol _ | keyword _ => true
  | endOfInput | opening | closing | string _ => false

/-- The token does not go on at the head of the source. -/
def StopsBefore : Token → Source → Prop
  | int _, rest => rest.EndsRun Char.isDigit
  | symbol _, rest | keyword _, rest => rest.EndsRun isWordChar
  | endOfInput, _ | opening, _ | closing, _ | string _, _ => True

theorem spelling_ne_nil {t : Token} (h : t.Proper) : t.spelling ≠ [] := by
  cases t with
  | endOfInput => exact h.elim
  | int digits => exact h.1
  | symbol name => exact h.ne_nil
  | opening | closing | string | keyword => simp [spelling]

end Token

theorem not_isBlank_of_isDigit {c : Char} (h : c.isDigit) : ¬ isBlank c := by
  obtain ⟨hlow, hhigh⟩ := Char.isDigit_iff_toNat.1 h
  have h0 : '0'.toNat = 48 := rfl
  have h9 : '9'.toNat = 57 := rfl
  simp [isBlank, blankRanges]
  omega

theorem isWordChar_iff {c : Char} : isWordChar c ↔ c ≠ '(' ∧ c ≠ ')' ∧ ¬ isBlank c := by
  simp [isWordChar, and_assoc]

theorem isWordChar_of_isDigit {c : Char} (h : c.isDigit) : isWordChar c := by
  refine isWordChar_iff.2 ⟨?_, ?_, not_isBlank_of_isDigit h⟩ <;> rintro rfl <;> simp at h

theorem Token.stopsBefore_of_endsRun {t : Token} {rest : Source}
    (h : rest.EndsRun isWordChar) : t.StopsBefore rest := by
  cases t with
  | endOfInput | opening | closing | string => trivial
  | symbol | keyword => exact h
  | int digits =>
    cases rest with
    | nil => trivial
    | cons pull rest =>
      cases pull with
      | char c n => exact fun hdigit => h (isWordChar_of_isDigit hdigit)
      | failure => exact h
      | stop => trivial

namespace Reader

open Source

variable {size : Char → Nat} {text gap : List Char} {t : Token} {rest tail : Source}
  {reader after : Reader}

theorem endsAt_of_proper (ht : t.Proper) (hstop : t.StopsBefore rest) :
    Gap.EndsAt (sized size t.spelling ++ rest) := by
  cases t with
  | endOfInput => exact ht.elim
  | opening => exact ⟨by decide, by simp⟩
  | closing => exact ⟨by decide, by simp⟩
  | string text => exact ⟨by decide, by simp⟩
  | keyword name => exact ⟨by decide, by simp⟩
  | int digits =>
    obtain ⟨hne, hdigits⟩ := ht
    obtain ⟨c, more, hcons⟩ := List.exists_cons_of_ne_nil hne
    have hc : c.isDigit := hdigits c (by simp [hcons])
    rw [Token.spelling, hcons]
    refine ⟨not_isBlank_of_isDigit hc, ?_⟩
    rintro rfl
    exact absurd hc (by decide)
  | symbol name =>
    obtain ⟨c, more, hcons⟩ := List.exists_cons_of_ne_nil ht.ne_nil
    have hc : isWordChar c := ht.word c (by simp [hcons])
    obtain ⟨hline, hblock⟩ := ht.noComment
    rw [Token.spelling, hcons]
    rw [hcons] at hline hblock
    refine ⟨(isWordChar_iff.1 hc).2.2, ?_⟩
    rintro rfl hopens
    cases more with
    | cons d more =>
      rcases hopens with rfl | rfl
      · exact hline ⟨more, rfl⟩
      · exact hblock ⟨more, rfl⟩
    | nil =>
      -- the slash is the whole symbol, and what follows is no word character
      cases rest with
      | nil => exact hopens
      | cons pull rest =>
        cases pull with
        | char d n => rcases hopens with rfl | rfl <;> exact hstop (by decide)
        | failure => exact hopens
        | stop => exact hopens

/-! ## Spellings are read as tokens -/

/-- The reader once it has read a text. -/
def behind (reader : Reader) (text : List Char) (rest : Source) (peeked : Bool) : Reader :=
  { reader with rest, cursor := reader.cursor.advanceOver text, peeked }

@[simp] theorem rest_behind (peeked : Bool) : (reader.behind text rest peeked).rest = rest := rfl

@[simp] theorem cursor_behind (peeked : Bool) :
    (reader.behind text rest peeked).cursor = reader.cursor.advanceOver text := rfl

@[simp] theorem behind_behind (more : List Char) (tail : Source) (peeked ahead : Bool) :
    (reader.behind text rest peeked).behind more tail ahead =
      reader.behind (text ++ more) tail ahead := by
  simp [behind, Cursor.advanceOver_append]

theorem past_eq_behind : reader.past text rest = reader.behind text rest false := rfl

theorem skipGap_eq (hgap : Gap.Spelled gap) (hend : Gap.EndsAt rest)
    (hrest : reader.rest = sized size gap ++ rest) :
    reader.skipGap = reader.behind gap rest false := by
  simp only [skipGap, behind, hrest, Gap.skip_append hgap, Gap.skip_of_endsAt hend,
    List.append_nil]

theorem lookAhead_behind {p : Char → Bool} (token : Located Token) (h : EndsRun p rest) :
    (reader.behind text rest false).lookAhead token =
      (.ok token, reader.behind text rest true) := by
  unfold lookAhead
  split
  · rename_i hfailure
    exact absurd hfailure (h.not_failure _ _ _)
  · rfl

theorem closeString_eq {start : Cursor} (htext : isQuotable false text)
    (hrest : reader.rest = sized size (text ++ ['"']) ++ rest) :
    reader.closeString start =
      (.ok ⟨.string (String.ofList text), start⟩, reader.behind (text ++ ['"']) rest false) := by
  have hquoted : quoted false reader.rest = (text, .char '"' (size '"') :: rest) := by
    rw [hrest, sized_append, List.append_assoc]
    exact quoted_append htext
  unfold closeString
  simp only [hquoted, past_eq_behind, behind_behind]

/-- **A gap and the spelling of a proper token are read as this token.** -/
theorem token_eq_of_spelled (hgap : Gap.Spelled gap) (ht : t.Proper) (hstop : t.StopsBefore rest)
    (hrest : reader.rest = sized size (gap ++ t.spelling) ++ rest) :
    reader.token = (.ok ⟨t, reader.cursor.advanceOver gap⟩,
      reader.behind (gap ++ t.spelling) rest t.peeks) := by
  have hskip : reader.skipGap = reader.behind gap (sized size t.spelling ++ rest) false :=
    skipGap_eq hgap (endsAt_of_proper ht hstop) (by rw [hrest, sized_append, List.append_assoc])
  unfold token
  simp only [hskip, cursor_behind, past_eq_behind]
  cases t with
  | endOfInput => exact ht.elim
  | opening => simp [Token.spelling, Token.peeks]
  | closing => simp [Token.spelling, Token.peeks]
  | string text =>
    simp only [Token.spelling, sized_cons, List.cons_append, rest_behind, behind_behind]
    rw [if_neg (by decide), if_neg (by decide), if_pos trivial, closeString_eq ht rfl]
    simp [Token.peeks]
  | keyword name =>
    simp only [Token.spelling, sized_cons, List.cons_append, rest_behind, behind_behind]
    rw [if_neg (by decide), if_neg (by decide), if_neg (by decide), if_neg (by decide),
      run_append ht hstop, lookAhead_behind _ hstop]
    simp [Token.peeks, Token.ofWord]
  | int digits =>
    obtain ⟨hne, hdigits⟩ := ht
    obtain ⟨c, more, hcons⟩ := List.exists_cons_of_ne_nil hne
    rw [hcons] at hdigits
    have hc : c.isDigit := hdigits c List.mem_cons_self
    have hmore : ∀ d ∈ more, d.isDigit := fun d hd => hdigits d (List.mem_cons_of_mem c hd)
    have hparen : c ≠ '(' ∧ c ≠ ')' ∧ c ≠ '"' := by
      refine ⟨?_, ?_, ?_⟩ <;> rintro rfl <;> exact absurd hc (by decide)
    simp only [Token.spelling, hcons, sized_cons, List.cons_append, rest_behind, behind_behind]
    rw [if_neg hparen.1, if_neg hparen.2.1, if_neg hparen.2.2, if_pos hc,
      run_append hmore hstop, lookAhead_behind _ hstop]
    simp [Token.peeks, ← hcons]
  | symbol name =>
    obtain ⟨c, more, hcons⟩ := List.exists_cons_of_ne_nil ht.ne_nil
    obtain ⟨hdigit, hcolon, hquote⟩ := ht.head c (by simp [hcons])
    have hword := ht.word
    rw [hcons] at hword
    obtain ⟨hopen, hclose, -⟩ := isWordChar_iff.1 (hword c List.mem_cons_self)
    have hmore : ∀ d ∈ more, isWordChar d := fun d hd => hword d (List.mem_cons_of_mem c hd)
    simp only [Token.spelling, hcons, sized_cons, List.cons_append, rest_behind, behind_behind]
    rw [if_neg hopen, if_neg hclose, if_neg hquote, if_neg hdigit,
      run_append hmore hstop, lookAhead_behind _ hstop]
    simp [Token.peeks, Token.ofWord, hcolon, ← hcons]

/-! ## What is read as a token is its spelling -/

theorem endsRun_of_lookAhead {p : Char → Bool} {token found : Located Token}
    (hhead : ∀ c n more, rest = .char c n :: more → ¬ p c)
    (h : (reader.behind text rest false).lookAhead token = (.ok found, after)) :
    EndsRun p rest := by
  cases rest with
  | nil => trivial
  | cons pull rest =>
    cases pull with
    | char c n => exact hhead c n rest rfl
    | failure message n => simp [lookAhead] at h
    | stop => trivial

theorem run_of_lookAhead {p : Char → Bool} {token found : Located Token} {word : List Char}
    {front : List Char} (htail : Dry tail)
    (hrun : run p (sized size text ++ tail) = (word, rest))
    (h : (reader.behind front rest false).lookAhead token = (.ok found, after)) :
    found = token ∧ (∀ c ∈ word, p c) ∧
      ∃ more, text = word ++ more ∧ EndsRun p (sized size more ++ tail) := by
  obtain ⟨more, hmore, hrest, hword⟩ := run_sized htail hrun
  refine ⟨value_of_lookAhead h, hword, more, hmore, ?_⟩
  rw [← hrest]
  refine endsRun_of_lookAhead (fun c n behind hhead => ?_) h
  exact head_run (by rw [hrun]; exact hhead)

theorem isSymbolText_of_run {c : Char} {word more : List Char}
    (hend : Gap.EndsAt (.char c (size c) :: (sized size (word ++ more) ++ tail)))
    (hopen : c ≠ '(') (hclose : c ≠ ')') (hquote : c ≠ '"') (hdigit : ¬ c.isDigit)
    (hcolon : c ≠ ':') (hword : ∀ d ∈ word, isWordChar d) : IsSymbolText (c :: word) := by
  obtain ⟨hblank, hcomment⟩ := hend
  refine ⟨by simp, ?_, ?_, ?_, ?_⟩
  · rintro d (_ | ⟨_, hd⟩)
    · exact isWordChar_iff.2 ⟨hopen, hclose, hblank⟩
    · exact hword d hd
  · rintro d hd
    obtain rfl := Option.mem_some_iff.1 hd
    exact ⟨hdigit, hcolon, hquote⟩
  · rintro ⟨behind, hprefix⟩
    obtain ⟨rfl, rfl⟩ := List.cons.inj hprefix
    exact hcomment rfl (Or.inl rfl)
  · rintro ⟨behind, hprefix⟩
    obtain ⟨rfl, rfl⟩ := List.cons.inj hprefix
    exact hcomment rfl (Or.inr rfl)

theorem closeString_spelled {start : Cursor} {token : Located Token} (htail : Dry tail)
    (hrest : reader.rest = sized size text ++ tail)
    (h : reader.closeString start = (.ok token, after)) :
    ∃ body more, text = body ++ '"' :: more ∧ token.value = .string (String.ofList body) ∧
      isQuotable false body := by
  unfold closeString at h
  rw [hrest] at h
  dsimp only at h
  split at h
  · rename_i c n rest hquoted
    obtain ⟨more, hmore, -, -, -, hbody⟩ := quoted_sized htail (Prod.ext rfl hquoted)
    simp only [Prod.mk.injEq, Except.ok.injEq] at h
    obtain ⟨rfl, -⟩ := h
    exact ⟨_, more, hmore, rfl, hbody⟩
  · simp at h
  · simp at h
  · simp at h

/-- **What is read as a token is a gap and the spelling of a proper token**, and the token
    does not go on behind it. -/
theorem spelled_of_token {token : Located Token} (htail : Dry tail)
    (hrest : reader.rest = sized size text ++ tail) (h : reader.token = (.ok token, after))
    (hne : token.value ≠ .endOfInput) :
    ∃ gap more, text = gap ++ token.value.spelling ++ more ∧ Gap.Spelled gap ∧
      token.value.Proper ∧ token.value.StopsBefore (sized size more ++ tail) := by
  unfold Reader.token at h
  dsimp only at h
  split at h
  · rename_i c n rest hskip
    obtain ⟨gap, more, rfl, hgap, rfl, rfl, hend⟩ :=
      Gap.skip_sized htail (by rw [← hrest]; exact hskip)
    suffices hhere : ∃ behind, c :: more = token.value.spelling ++ behind ∧
        token.value.Proper ∧ token.value.StopsBefore (sized size behind ++ tail) by
      obtain ⟨behind, hbehind, hproper, hstop⟩ := hhere
      exact ⟨gap, behind, by rw [hbehind, List.append_assoc], hgap, hproper, hstop⟩
    simp only [past_eq_behind] at h
    split_ifs at h with hopen hclose hquote hdigit
    · simp only [Prod.mk.injEq, Except.ok.injEq] at h
      obtain ⟨rfl, -⟩ := h
      exact ⟨more, by rw [hopen]; rfl, trivial, trivial⟩
    · simp only [Prod.mk.injEq, Except.ok.injEq] at h
      obtain ⟨rfl, -⟩ := h
      exact ⟨more, by rw [hclose]; rfl, trivial, trivial⟩
    · obtain ⟨body, behind, rfl, htext, hbody⟩ := closeString_spelled htail rfl h
      rw [htext]
      exact ⟨behind, by simp [hquote, Token.spelling], by simpa [Token.Proper] using hbody, trivial⟩
    · generalize hrun : run Char.isDigit (sized size more ++ tail) = digits at h
      obtain ⟨digits, rest⟩ := digits
      obtain ⟨rfl, hdigits, behind, rfl, hstop⟩ := run_of_lookAhead htail hrun h
      refine ⟨behind, by simp [Token.spelling], ?_, hstop⟩
      simp only [Token.Proper, String.toList_ofList, ne_eq, reduceCtorEq, not_false_eq_true,
        true_and]
      rintro d (_ | ⟨_, hd⟩)
      · exact hdigit
      · exact hdigits d hd
    · generalize hrun : run isWordChar (sized size more ++ tail) = word at h
      obtain ⟨word, rest⟩ := word
      obtain ⟨rfl, hword, behind, rfl, hstop⟩ := run_of_lookAhead htail hrun h
      by_cases hcolon : c = ':'
      · simp only [Token.ofWord, if_pos hcolon]
        exact ⟨behind, by simp [Token.spelling, hcolon], by simpa [Token.Proper] using hword, hstop⟩
      · simp only [Token.ofWord, if_neg hcolon]
        refine ⟨behind, by simp [Token.spelling], ?_, hstop⟩
        simpa [Token.Proper] using
          isSymbolText_of_run hend hopen hclose hquote hdigit hcolon hword
  · exact absurd (by rw [value_of_lookAhead h]) hne

end Reader

end SmtDialogue
