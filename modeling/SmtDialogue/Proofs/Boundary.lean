/-
  How far a reader goes for an expression.

  * `Sexp.Spelled`: a text that is an expression from its first character to its last;
  * `next_of_layout`: an expression is read off the text that holds it;
  * `next_keeps_boundary`: what is pulled from the source for an expression, where the
    reader stands behind it, and what the result depends on.
-/
import SmtDialogue.Proofs.Layout

namespace SmtDialogue

open Source

/-! ## The end of an expression -/

namespace Sexp

/-- The end of the expression is only seen on the character behind it. -/
def peeks : Sexp → Bool
  | int _ | symbol _ | keyword _ => true
  | list _ | str _ | bitVec _ _ => false

/-- The text is the expression: it starts with the first token of the expression and ends
    with the last one, which does not go on in the source behind the text. -/
def Spelled (x : Sexp) (body : List Char) (rest : Source) : Prop :=
  ∃ t tokens text, x.Flattens (t :: tokens) ∧ body = t.spelling ++ text ∧
    t.Proper ∧ t.StopsBefore (ofChars text ++ rest) ∧ Layout tokens text rest

end Sexp

variable {size : Char → Nat} {text more gap body : List Char} {tokens others : List Token}
  {rest tail : Source} {reader middle after : Reader} {x : Sexp} {xs ys : List Sexp}

@[simp] theorem peeksBehind_append (peeked : Bool) (tokens others : List Token) :
    peeksBehind peeked (tokens ++ others) = peeksBehind (peeksBehind peeked tokens) others :=
  List.foldl_append

theorem peeksBehind_of_flattens (hx : x.Flattens tokens) (peeked : Bool) :
    peeksBehind peeked tokens = x.peeks := by
  rcases Sexp.flattens_cases hx with ⟨items, inner, rfl, rfl, -⟩ | ⟨token, rfl, hatom⟩
  · rw [peeksBehind_cons, peeksBehind_append]
    rfl
  · cases token with
    | int digits =>
      obtain ⟨n, -, rfl⟩ := Option.map_eq_some_iff.1 hatom
      rfl
    | string text => obtain rfl := Option.some.inj hatom; rfl
    | symbol name => obtain rfl := Option.some.inj hatom; rfl
    | keyword name => obtain rfl := Option.some.inj hatom; rfl
    | opening | closing | endOfInput => simp [Assembly.atom?] at hatom

theorem getLast?_of_flattens (hx : x.Flattens tokens) :
    ∃ t, tokens.getLast? = some t ∧ t.peeks = x.peeks := by
  have hpeeks := peeksBehind_of_flattens hx false
  obtain ⟨t, more, rfl, -⟩ := Sexp.head_of_flattens hx
  obtain ⟨front, last, hlast⟩ : ∃ front last, t :: more = front ++ [last] :=
    ⟨_, _, (List.dropLast_append_getLast (List.cons_ne_nil t more)).symm⟩
  rw [hlast] at hpeeks ⊢
  rw [peeksBehind_append] at hpeeks
  exact ⟨last, List.getLast?_concat, hpeeks⟩

theorem Token.stopsBefore_of_not_peeks {t : Token} (h : t.peeks = false) : t.StopsBefore rest := by
  cases t with
  | endOfInput | opening | closing | string => trivial
  | int | symbol | keyword => simp [Token.peeks] at h

theorem Token.StopsBefore.of_head {t : Token} {c : Char} {n : Nat}
    (h : t.StopsBefore (.char c n :: rest)) : t.StopsBefore (.char c n :: tail) := by
  cases t <;> exact h

/-! ## Reading from a text -/

namespace Reader

theorem next_peeked (hdone : reader.done = false) (peeked : Bool) :
    { reader with peeked }.next = reader.next := by
  have htoken : { reader with peeked }.token = reader.token := rfl
  have hassemble : { reader with peeked }.assemble [] = reader.assemble [] := by
    cases hread : reader.token with
    | mk result after =>
      rw [hread] at htoken
      cases result with
      | error e => rw [assemble_eq_error hread, assemble_eq_error htoken]
      | ok token => rw [assemble_eq_proceed hread, assemble_eq_proceed htoken]
  rw [next, next, hassemble]
  simp [hdone]

/-- **An expression is read off the text that holds it**, and the reader stands behind it. -/
theorem next_of_layout (hdone : reader.done = false) (hx : x.Flattens tokens)
    (h : Layout tokens text rest) (hrest : reader.rest = sized size text ++ rest) :
    reader.next = (.ok (some x), reader.behind text rest x.peeks) := by
  have htakes := takes_of_layout h hrest
  rw [peeksBehind_of_flattens hx] at htakes
  exact (next_eq_some_iff hdone).2 ⟨tokens, htakes, hx⟩

/-! ## The boundary behind an expression -/

/-- A text that holds the tokens of an expression is a gap and the expression. -/
theorem exists_spelled (hx : x.Flattens tokens) (h : Layout tokens text rest) :
    ∃ gap body, text = gap ++ body ∧ Gap.Spelled gap ∧ x.Spelled body rest := by
  cases h with
  | nil => exact absurd rfl (Sexp.ne_nil_of_flattens hx)
  | @cons gap text t tokens _ hgap ht hstop hmore =>
    exact ⟨gap, t.spelling ++ text, by simp, hgap, t, tokens, text, hx, rfl, ht, hstop, hmore⟩

/-- The parts of a text that expressions have been read off, the last one apart. -/
theorem layouts_of_next {chars : List Char} (hreads : Reads { rest := ofChars chars } xs reader)
    (hnext : reader.next = (.ok (some x), after)) :
    ∃ before inside behind others tokens, chars = before ++ inside ++ behind ∧
      Sexp.FlattensAll xs others ∧ Layout others before (ofChars (inside ++ behind)) ∧
      x.Flattens tokens ∧ Layout tokens inside (ofChars behind) ∧
      reader.rest = ofChars (inside ++ behind) ∧
      after = Reader.mk (ofChars behind) (Cursor.advanceOver {} (before ++ inside)) x.peeks
        false [] := by
  obtain ⟨others, hothers, hxs⟩ := (reads_iff rfl).1 hreads
  obtain ⟨before, more, rfl, hbefore, rfl⟩ := layout_of_takes_ofChars hothers rfl
  obtain ⟨tokens, htokens, hx⟩ := (next_eq_some_iff rfl).1 hnext
  obtain ⟨inside, behind, rfl, hinside, rfl⟩ := layout_of_takes_ofChars htokens rfl
  refine ⟨before, inside, behind, others, tokens, by simp, hxs, hbefore, hx, hinside, rfl, ?_⟩
  rw [behind_behind, peeksBehind_of_flattens hx]
  rfl

theorem reads_of_layouts {before inside behind : List Char} (hxs : Sexp.FlattensAll xs others)
    (hbefore : Layout others before (ofChars (inside ++ behind))) (hx : x.Flattens tokens)
    (hinside : Layout tokens inside (ofChars behind))
    (hlast : ∀ t ∈ tokens.getLast?, t.StopsBefore tail) :
    ∃ middle, Reads { rest := ofChars (before ++ inside) ++ tail } xs middle ∧
      middle.next = (.ok (some x), ⟨tail, Cursor.advanceOver {} (before ++ inside), x.peeks,
        false, []⟩) := by
  have hthere : Layout tokens inside tail := hinside.congr hlast
  have hfront : Layout others before (ofChars inside ++ tail) := by
    -- what stood behind the former expressions still does, up to its first character
    obtain ⟨c, inside, rfl⟩ :=
      List.exists_cons_of_ne_nil (hinside.ne_nil (Sexp.ne_nil_of_flattens hx))
    exact hbefore.congr fun t ht => (hbefore.stopsBefore t ht).of_head
  have hsource : ofChars (before ++ inside) ++ tail =
      sized (fun _ => 1) before ++ (ofChars inside ++ tail) := by
    simp [ofChars_eq_sized]
  have htakes : Takes { rest := ofChars (before ++ inside) ++ tail } others _ :=
    takes_of_layout hfront hsource
  refine ⟨_, (reads_iff rfl).2 ⟨others, htakes, hxs⟩, ?_⟩
  rw [next_of_layout rfl hx hthere rfl, behind_behind]
  rfl

/-- The character behind an expression that tells its end, if one does. -/
theorem exists_kept {behind : List Char} (hx : x.Flattens tokens)
    (h : Layout tokens text (ofChars behind)) (hmore : ¬ (x.peeks ∧ behind = [])) :
    ∃ kept later, behind = kept ++ later ∧ kept.length = (if x.peeks then 1 else 0) ∧
      ∀ tail : Source, ∀ t ∈ tokens.getLast?, t.StopsBefore (ofChars kept ++ tail) := by
  obtain ⟨t, hlast, hpeeks⟩ := getLast?_of_flattens hx
  have hstop : t.StopsBefore (ofChars behind) := h.stopsBefore t hlast
  rw [hlast]
  cases hx' : x.peeks with
  | false =>
    refine ⟨[], behind, rfl, rfl, ?_⟩
    rintro tail _ ⟨rfl⟩
    exact Token.stopsBefore_of_not_peeks (hpeeks.trans hx')
  | true =>
    obtain ⟨c, later, rfl⟩ := List.exists_cons_of_ne_nil fun hnil => hmore ⟨hx', hnil⟩
    refine ⟨[c], later, rfl, rfl, ?_⟩
    rintro tail _ ⟨rfl⟩
    exact hstop.of_head

theorem pulled_of_rest (front behind : List Char) (h : after.rest = ofChars behind) :
    pulled (ofChars (front ++ behind)) after =
      if after.peeked then min (front.length + 1) (front ++ behind).length else front.length := by
  cases hpeeked : after.peeked with
  | false => simp [pulled, unread, hpeeked, h, size_ofChars]
  | true =>
    have htail : (ofChars behind).tail = ofChars behind.tail := List.map_tail.symm
    simp only [pulled, unread, hpeeked, h, htail, size_ofChars, List.length_append,
      List.length_tail, if_true]
    omega

theorem pulled_of_kept (front kept : List Char) (h : after.rest = ofChars kept ++ tail)
    (hkept : kept.length = if after.peeked then 1 else 0) :
    pulled (ofChars (front ++ kept) ++ tail) after = (front ++ kept).length := by
  have hunread : after.unread = tail := by
    cases hpeeked : after.peeked with
    | false =>
      obtain rfl : kept = [] := by simpa [hpeeked] using hkept
      simp [unread, hpeeked, h, ofChars]
    | true =>
      obtain ⟨c, rfl⟩ : ∃ c, kept = [c] := by simpa [hpeeked, List.length_eq_one_iff] using hkept
      simp [unread, hpeeked, h, ofChars]
  rw [pulled, hunread, size_append, size_ofChars, Nat.add_sub_cancel]

/-- **A reader stops at the end of an expression.** However many expressions it has read
    off a text, the next one is a part of the text, behind a gap. Up to its end the source
    has been pulled, and one character more only if the end is not seen earlier. The reader
    stands at the end, and goes on from there. What the source would have given away later
    makes no difference, an expression apart that ends with the text. -/
theorem next_keeps_boundary {text : String}
    (hreads : Reads (ofText text) xs reader) (hnext : reader.next = (.ok (some x), after)) :
    ∃ before gap body behind : List Char,
      text.toList = before ++ gap ++ body ++ behind ∧
      reader.rest = ofChars (gap ++ body ++ behind) ∧
      Gap.Spelled gap ∧ x.Spelled body (ofChars behind) ∧
      let source := ofChars text.toList
      let stop := (before ++ gap ++ body).length
      pulled source after = (if x.peeks then min (stop + 1) text.length else stop) ∧
      after.cursor = Cursor.advanceOver {} (text.toList.take stop) ∧
      after.next = ({ rest := source.drop stop, cursor := after.cursor } : Reader).next ∧
      (¬ (x.peeks ∧ stop = text.length) → ∀ tail : Source,
        let replaced := source.take (pulled source after) ++ tail
        ∃ middle last, Reads { rest := replaced } xs middle ∧
          middle.next = (.ok (some x), last) ∧
          last.cursor = after.cursor ∧ pulled replaced last = pulled source after) := by
  obtain ⟨before, inside, behind, others, tokens, htext, hxs, hbefore, hx, hinside, hrest,
    hafter⟩ := layouts_of_next hreads hnext
  obtain ⟨gap, body, rfl, hgap, hbody⟩ := exists_spelled hx hinside
  rw [← List.append_assoc before] at htext hafter
  have hlength : text.length = (before ++ gap ++ body ++ behind).length := by
    rw [← String.length_toList, htext]
  have hpulled : pulled (ofChars text.toList) after =
      if x.peeks then min ((before ++ gap ++ body).length + 1) text.length
      else (before ++ gap ++ body).length := by
    rw [htext, pulled_of_rest _ _ (by rw [hafter]), hafter, hlength]
  refine ⟨before, gap, body, behind, htext, hrest, hgap, hbody, hpulled, ?_, ?_, ?_⟩
  · rw [htext, List.take_left, hafter]
  · have hdrop : (ofChars text.toList).drop (before ++ gap ++ body).length = ofChars behind := by
      rw [ofChars, ← List.map_drop, htext, List.drop_left]
      rfl
    have hdone : after.done = false := by rw [hafter]
    rw [hdrop, ← next_peeked hdone false, hafter]
  · intro hmore tail
    have hbehind : ¬ (x.peeks ∧ behind = []) := by
      rintro ⟨hpeeks, rfl⟩
      exact hmore ⟨hpeeks, by simpa using hlength.symm⟩
    obtain ⟨kept, later, rfl, hkept, hlast⟩ := exists_kept hx hinside hbehind
    have hunits : pulled (ofChars text.toList) after = (before ++ gap ++ body ++ kept).length := by
      rw [hpulled, hlength]
      simp only [List.length_append, hkept]
      split <;> omega
    have htake : (ofChars text.toList).take (before ++ gap ++ body ++ kept).length =
        ofChars (before ++ gap ++ body ++ kept) := by
      rw [ofChars, ← List.map_take, htext, ← List.append_assoc _ kept later, List.take_left]
      rfl
    have hsplit : ofChars (before ++ gap ++ body ++ kept) ++ tail =
        ofChars (before ++ (gap ++ body)) ++ (ofChars kept ++ tail) := by
      simp [ofChars]
    obtain ⟨middle, hmiddle, hnext'⟩ := reads_of_layouts hxs hbefore hx hinside (hlast tail)
    rw [hunits, htake, hsplit]
    refine ⟨middle, _, hmiddle, hnext', by simp [hafter], ?_⟩
    rw [← hsplit]
    exact pulled_of_kept _ _ rfl hkept

/-- The number is known to end on the parenthesis behind it. -/
theorem next_keeps_boundary_number : ∃ reader after,
    Reads (ofText "(a) 12)") [.list [.symbol "a"]] reader ∧
      reader.next = (.ok (some (.int 12)), after) ∧
      ∃ before gap body behind : List Char,
        "(a) 12)".toList = before ++ gap ++ body ++ behind ∧ Gap.Spelled gap ∧
        (Sexp.int 12).Spelled body (ofChars behind) ∧
        pulled (ofChars "(a) 12)".toList) after = min ((before ++ gap ++ body).length + 1) 7 := by
  have hreads : Reads (ofText "(a) 12)") [.list [.symbol "a"]]
      ⟨ofChars " 12)".toList, ⟨0, 3⟩, false, false, []⟩ := .cons (by decide +kernel) .nil
  have hnext : Reader.next ⟨ofChars " 12)".toList, ⟨0, 3⟩, false, false, []⟩ =
      (.ok (some (.int 12)), ⟨ofChars ")".toList, ⟨0, 6⟩, true, false, []⟩) := by
    decide +kernel
  obtain ⟨before, gap, body, behind, htext, -, hgap, hbody, hpulled, -⟩ :=
    next_keeps_boundary hreads hnext
  exact ⟨_, _, hreads, hnext, before, gap, body, behind, htext, hgap, hbody, hpulled⟩

end Reader

end SmtDialogue
