/-
  Replies of a solver as they stand in its output.

  * `Reply` is an expression with the blanks behind it, `Reply.texts` an output made of
    replies;
  * `next_of_reply`: a reader gets the next reply, and has not seen more than one of the
    blanks behind it, and `next_two`: it gets the one after that;
  * `pulled_of_reply`: what the source has given away by then.
-/
import SmtDialogue.Proofs.ByteText
import SmtDialogue.Proofs.RoundTrip

namespace SmtDialogue

open Source

/-- A reply: the canonical text of an expression that can be read, with blanks behind it. -/
structure Reply where
  value : Sexp
  blanks : List Char
  readable : value.Readable
  blanks_ne_nil : blanks ≠ []
  isBlank_of_mem : ∀ c ∈ blanks, isBlank c

namespace Reply

/-- The reply as it is written. -/
def text (reply : Reply) : List Char :=
  reply.value.render.toList ++ reply.blanks

/-- The output that consists of some replies. -/
def texts (replies : List Reply) : List Char :=
  replies.flatMap text

@[simp] theorem texts_cons (reply : Reply) (replies : List Reply) :
    texts (reply :: replies) = reply.text ++ texts replies :=
  List.flatMap_cons

@[simp] theorem texts_append (replies more : List Reply) :
    texts (replies ++ more) = texts replies ++ texts more :=
  List.flatMap_append

/-- A word on a line of its own. -/
def word (name : String) (h : IsSymbolText name.toList) : Reply where
  value := .symbol name
  blanks := ['\n']
  readable := h
  blanks_ne_nil := by simp
  isBlank_of_mem := List.all_eq_true.1 (by decide)

/-- The blanks that have to be seen to know that the reply has ended. -/
def seen (reply : Reply) : List Char :=
  if reply.value.peeks then reply.blanks.take 1 else []

/-- **A reader gets the next reply**, whatever blanks are left in front of it. -/
theorem next_of_reply {size : Char → Nat} {reader : Reader} {reply : Reply}
    {blanks more : List Char} (hdone : reader.done = false) (hblanks : ∀ c ∈ blanks, isBlank c)
    (hrest : reader.rest = sized size (blanks ++ reply.text ++ more)) :
    reader.next = (.ok (some reply.value), reader.behind (blanks ++ reply.value.render.toList)
      (sized size (reply.blanks ++ more)) reply.value.peeks) := by
  have hend : EndsRun isWordChar (sized size (reply.blanks ++ more)) := by
    obtain ⟨c, behind, hcons⟩ := List.exists_cons_of_ne_nil reply.blanks_ne_nil
    have hc : isBlank c := reply.isBlank_of_mem c (by simp [hcons])
    rw [hcons]
    exact fun hword => (isWordChar_iff.1 hword).2.2 hc
  obtain ⟨tokens, hx, hlayout⟩ := Sexp.layout_text reply.value reply.readable hend
  have hne := Sexp.ne_nil_of_flattens hx
  rw [← Sexp.render_eq_text] at hlayout
  have hsource : reader.rest = sized size (blanks ++ reply.value.render.toList) ++
      sized size (reply.blanks ++ more) := by
    rw [hrest, text, ← sized_append]
    simp only [List.append_assoc]
  exact Reader.next_of_layout hdone hx (hlayout.blanks hblanks hne) hsource

theorem next_two {size : Char → Nat} {reader : Reader} {first second : Reply} {more : List Char}
    (hdone : reader.done = false)
    (hrest : reader.rest = sized size (first.text ++ (second.text ++ more))) :
    ∃ middle last, reader.next = (.ok (some first.value), middle) ∧
      middle.unclosed = reader.unclosed ∧ middle.next = (.ok (some second.value), last) ∧
      last.unclosed = middle.unclosed := by
  have hblanks : ∀ c ∈ ([] : List Char), isBlank c := by simp
  have hfirst := next_of_reply hdone hblanks hrest
  have hopen : reader.next.2.done = false := by
    rw [hfirst]
    exact hdone
  have hbehind : reader.next.2.rest = sized size (first.blanks ++ second.text ++ more) := by
    rw [hfirst, List.append_assoc]
    rfl
  have hsecond := next_of_reply hopen first.isBlank_of_mem hbehind
  rw [hfirst] at hsecond
  exact ⟨_, _, hfirst, rfl, hsecond, rfl⟩

/-- By then the source has given away the text of the reply, and the blank that had to be
    seen. -/
theorem pulled_of_reply {front more : List Char} {reader : Reader} {reply : Reply}
    (hrest : reader.rest = sized Char.utf8Size (reply.blanks ++ more))
    (hpeeked : reader.peeked = reply.value.peeks) :
    Reader.pulled (sized Char.utf8Size (front ++ reply.text ++ more)) reader =
      (Utf8.encode (front ++ reply.value.render.toList ++ reply.seen)).length := by
  have hunread : ∃ unseen, reply.blanks = reply.seen ++ unseen ∧
      reader.unread = sized Char.utf8Size (unseen ++ more) := by
    cases hpeeks : reply.value.peeks with
    | false =>
      exact ⟨reply.blanks, by simp [seen, hpeeks],
        by simp [Reader.unread, hpeeked, hpeeks, hrest]⟩
    | true =>
      obtain ⟨c, unseen, hcons⟩ := List.exists_cons_of_ne_nil reply.blanks_ne_nil
      exact ⟨unseen, by simp [seen, hpeeks, hcons],
        by simp [Reader.unread, hpeeked, hpeeks, hrest, hcons]⟩
  obtain ⟨unseen, hblanks, hunread⟩ := hunread
  have hsplit : front ++ reply.text ++ more =
      (front ++ reply.value.render.toList ++ reply.seen) ++ (unseen ++ more) := by
    simp [text, hblanks]
  rw [Reader.pulled, hunread, hsplit, sized_append, size_append, Nat.add_sub_cancel,
    Utf8.size_sized_utf8Size]

end Reply

end SmtDialogue
