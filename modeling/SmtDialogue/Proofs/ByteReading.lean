/-
  Reading bytes is reading text.

  A reader never looks at how many units a character has cost. So a source of bytes is read as
  the source of characters that it decodes to, character by character.

  * `Source.resize`, `Reader.resize`: the same characters, at another cost;
  * `token_resize`, `next_resize`, `later_resize`: reading goes on alike;
  * `bytes_are_read_as_text`: the results, the places and the warnings are the same, and the
    bytes that have been taken are those of the characters that have been taken.
-/
import SmtDialogue.Proofs.ByteText
import SmtDialogue.Proofs.Ending

namespace SmtDialogue

variable {size : Char → Nat} {source rest : Source} {reader : Reader} {c : Char} {n : Nat}

/-- The same answer, with `size c` units given away for a character `c`. -/
def Pull.resize (size : Char → Nat) : Pull → Pull
  | .char c _ => .char c (size c)
  | .failure message n => .failure message n
  | .stop => .stop

@[simp] theorem Pull.char?_resize (pull : Pull) : (pull.resize size).char? = pull.char? := by
  cases pull <;> rfl

@[simp] theorem Pull.isIn_resize (p : Char → Bool) (pull : Pull) :
    (pull.resize size).isIn p = pull.isIn p := by
  simp [isIn]

namespace Source

/-- The same answers, with `size c` units given away for a character `c`. -/
def resize (size : Char → Nat) (source : Source) : Source :=
  source.map (Pull.resize size)

@[simp] theorem resize_nil : resize size [] = [] := rfl

@[simp] theorem resize_cons (pull : Pull) :
    resize size (pull :: source) = pull.resize size :: resize size source := rfl

theorem forall_head_resize {p : Prop} (h : ∀ n rest, source = .char c n :: rest → p) (n : Nat)
    (rest : Source) (hresize : resize size source = .char c n :: rest) : p := by
  cases source with
  | nil => simp at hresize
  | cons pull source =>
    cases pull with
    | failure | stop => simp [Pull.resize] at hresize
    | char d m =>
      obtain rfl : d = c := (Pull.char.inj (List.cons.inj hresize).1).1
      exact h m source rfl

theorem resize_ofChars (text : List Char) : resize size (ofChars text) = sized size text := by
  simp [resize, ofChars, sized, Pull.resize]

theorem run_resize (p : Char → Bool) (source : Source) :
    run p (resize size source) = ((run p source).1, resize size (run p source).2) := by
  have hclass : Pull.isIn p ∘ Pull.resize size = Pull.isIn p := funext (Pull.isIn_resize p)
  have hchar : Pull.char? ∘ Pull.resize size = Pull.char? := funext Pull.char?_resize
  rw [run, resize, List.takeWhile_map, List.dropWhile_map, List.filterMap_map, hclass, hchar]
  rfl

theorem quoted_resize (escaped : Bool) (source : Source) :
    quoted escaped (resize size source) =
      ((quoted escaped source).1, resize size (quoted escaped source).2) := by
  fun_induction quoted escaped source with
  | case1 => simp_all [quoted, Pull.resize]
  | case2 => simp_all [quoted, Pull.resize]
  | case3 escaped source hchar =>
    rcases source with _ | ⟨⟨c, n⟩ | _ | _, source⟩
    · rfl
    · exact (hchar c n source rfl).elim
    · rfl
    · rfl

end Source

namespace Gap

theorem skip_resize (mode : Mode) (place : Cursor) (source : Source) :
    skip mode place (source.resize size) =
      { skip mode place source with rest := (skip mode place source).rest.resize size } := by
  fun_induction skip mode place source with
  | case1 | case2 | case5 | case6 | case9 => simp_all [skip, Pull.resize]
  | case8 => simp_all [skip, Pull.resize, withUnclosed]
  | case3 place c n source hline hblock hblank ih =>
    rw [Source.resize_cons, Pull.resize, skip, if_pos hblank, ih]
    · exact Source.forall_head_resize hline
    · exact Source.forall_head_resize hblock
  | case4 place c n source hline hblock hblank =>
    rw [Source.resize_cons, Pull.resize, skip, if_neg hblank]
    · exact Source.forall_head_resize hline
    · exact Source.forall_head_resize hblock
  | case7 start place c n source hclose ih =>
    rw [Source.resize_cons, Pull.resize, skip, ih]
    exact Source.forall_head_resize hclose
  | case10 mode place source _ _ hblank hline _ hblock _ _ =>
    rcases source with _ | ⟨⟨c, n⟩ | _ | _, source⟩
    · cases mode <;> simp_all [skip]
    · cases mode with
      | blank => exact (hblank c n source rfl rfl).elim
      | line => exact (hline c n source rfl rfl).elim
      | block start => exact (hblock start c n source rfl rfl).elim
    · cases mode <;> simp [skip, Pull.resize]
    · cases mode <;> simp_all [skip, Pull.resize]

end Gap

namespace Reader

/-- The reader of the same source at another cost. -/
def resize (size : Char → Nat) (reader : Reader) : Reader :=
  { reader with rest := reader.rest.resize size }

@[simp] theorem rest_resize : (reader.resize size).rest = reader.rest.resize size := rfl

@[simp] theorem cursor_resize : (reader.resize size).cursor = reader.cursor := rfl

@[simp] theorem past_resize (text : List Char) :
    (reader.resize size).past text (rest.resize size) = (reader.past text rest).resize size := rfl

theorem unread_resize (reader : Reader) :
    (reader.resize size).unread = reader.unread.resize size := by
  cases hpeeked : reader.peeked <;> simp [unread, resize, hpeeked, Source.resize]

theorem skipGap_resize (reader : Reader) :
    (reader.resize size).skipGap = reader.skipGap.resize size := by
  simp only [skipGap, resize, Gap.skip_resize]

theorem lookAhead_resize (token : Located Token) (reader : Reader) :
    (reader.resize size).lookAhead token =
      ((reader.lookAhead token).1, (reader.lookAhead token).2.resize size) := by
  rcases hrest : reader.rest with _ | ⟨⟨c, n⟩ | _ | _, rest⟩ <;>
    simp [lookAhead, resize, hrest, Pull.resize]

theorem closeString_resize (start : Cursor) (reader : Reader) :
    (reader.resize size).closeString start =
      ((reader.closeString start).1, (reader.closeString start).2.resize size) := by
  simp only [closeString, resize, Source.quoted_resize]
  rcases (Source.quoted false reader.rest) with ⟨text, _ | ⟨⟨c, n⟩ | _ | _, rest⟩⟩ <;>
    rfl

theorem token_resize (reader : Reader) :
    (reader.resize size).token = (reader.token.1, reader.token.2.resize size) := by
  unfold Reader.token
  rw [skipGap_resize]
  generalize reader.skipGap = reader
  rcases hrest : reader.rest with _ | ⟨⟨c, n⟩ | _ | _, rest⟩
  · simp only [rest_resize, cursor_resize, hrest, Source.resize_nil, lookAhead_resize]
  · simp only [rest_resize, cursor_resize, hrest, Source.resize_cons, Pull.resize]
    split_ifs
    · rfl
    · rfl
    · rw [past_resize, closeString_resize]
    · simp only [Source.run_resize, past_resize, lookAhead_resize]
    · simp only [Source.run_resize, past_resize, lookAhead_resize]
  · simp only [rest_resize, cursor_resize, hrest, Source.resize_cons, Pull.resize, lookAhead_resize]
  · simp only [rest_resize, cursor_resize, hrest, Source.resize_cons, Pull.resize, lookAhead_resize]

theorem token_resize_of {result : Except (Located SyntaxError) (Located Token)} {after : Reader}
    (h : reader.token = (result, after)) :
    (reader.resize size).token = (result, after.resize size) := by
  rw [token_resize, h]

theorem assemble_resize (opened : Assembly.OpenLists) (reader : Reader) :
    (reader.resize size).assemble opened =
      ((reader.assemble opened).1, (reader.assemble opened).2.resize size) := by
  fun_induction assemble opened reader with
  | case1 _ _ _ _ htoken => exact assemble_eq_error (token_resize_of htoken)
  | case2 _ _ _ _ htoken _ hstep | case4 _ _ _ _ htoken hstep | case5 _ _ _ _ htoken _ hstep =>
    rw [assemble_eq_proceed (token_resize_of htoken), hstep]
    rfl
  | case3 _ _ _ _ htoken _ hstep _ ih =>
    rw [assemble_eq_proceed (token_resize_of htoken), hstep]
    exact ih

/-- **A reader does not look at what a character has cost.** -/
theorem next_resize (reader : Reader) :
    (reader.resize size).next = (reader.next.1, reader.next.2.resize size) := by
  cases hdone : reader.done with
  | true =>
    rw [next_of_done hdone]
    exact next_of_done hdone
  | false =>
    have hopen : (reader.resize size).done = false := hdone
    rw [next, next, if_neg (Bool.eq_false_iff.1 hopen), if_neg (Bool.eq_false_iff.1 hdone),
      assemble_resize]
    rcases reader.assemble [] with ⟨_ | _ | _, after⟩ <;> rfl

theorem later_resize (reader : Reader) (k : Nat) :
    (reader.resize size).later k = (reader.later k).resize size := by
  induction k with
  | zero => rfl
  | succ k ih => rw [later_succ, later_succ, ih, next_resize]

/-! ## Reading bytes -/

theorem exists_front (text : List Char) (k : Nat) :
    ∃ front more, text = front ++ more ∧
      (({ rest := Source.ofChars text } : Reader).later k).unread = Source.ofChars more := by
  have hunread : _ <:+ Source.ofChars text := unread_later { rest := Source.ofChars text } k
  obtain ⟨taken, htaken⟩ := hunread
  obtain ⟨front, more, htext, -, hmore⟩ := List.append_eq_map_iff.1 htaken
  exact ⟨front, more, htext, hmore.symm⟩

/-- **Bytes are read as the text that they encode**, however they are cut. Behind `k` calls the
    next result is the same, so are the place and the warnings, and the bytes that have been
    taken are those of the characters that have been taken from the text. -/
theorem bytes_are_read_as_text {text : String} {chunks : List (List UInt8)}
    (h : chunks.flatten = Utf8.encode text.toList) (k : Nat) :
    let bytes := Source.ofChunks (chunks.map .bytes)
    let chars := Source.ofChars text.toList
    let byByte := ({ rest := bytes } : Reader).later k
    let byChar := (ofText text).later k
    byByte.next.1 = byChar.next.1 ∧ byByte.cursor = byChar.cursor ∧
      byByte.unclosed = byChar.unclosed ∧
      pulled bytes byByte = (Utf8.encode (text.toList.take (pulled chars byChar))).length := by
  intro bytes chars byByte byChar
  have hbytes : bytes = Source.sized Char.utf8Size text.toList := Source.ofChunks_eq_sized h
  have hlater : byByte = byChar.resize Char.utf8Size := by
    rw [← later_resize, resize, ofText, Source.resize_ofChars, ← hbytes]
  refine ⟨?_, ?_, ?_, ?_⟩
  · rw [hlater, next_resize]
  · rw [hlater, cursor_resize]
  · rw [hlater]
    rfl
  · obtain ⟨front, more, htext, hunread⟩ := exists_front text.toList k
    have hmore : byByte.unread = Source.sized Char.utf8Size more := by
      rw [hlater, unread_resize]
      exact (congrArg _ hunread).trans (Source.resize_ofChars more)
    have hchars : pulled chars byChar = front.length := by
      rw [pulled, show byChar.unread = _ from hunread, Source.size_ofChars, Source.size_ofChars,
        htext, List.length_append, Nat.add_sub_cancel]
    rw [hchars, pulled, hmore, hbytes, Utf8.size_sized_utf8Size, Utf8.size_sized_utf8Size, htext,
      List.take_left, Utf8.encode, List.flatMap_append, List.length_append, Utf8.encode,
      Nat.add_sub_cancel]
    rfl

/-- The second character is cut in two. -/
theorem bytes_are_read_as_text_cut :
    let chunks : List (List UInt8) := [[0x28, 0xC3], [0xA9, 0x29, 0x20]]
    let bytes := Source.ofChunks (chunks.map .bytes)
    chunks.flatten = Utf8.encode "(é) ".toList ∧
      ({ rest := bytes } : Reader).next.1 = .ok (some (.list [.symbol "é"])) ∧
      pulled bytes ({ rest := bytes } : Reader).next.2 = 4 := by
  intro chunks bytes
  have hflatten : chunks.flatten = Utf8.encode "(é) ".toList := by decide +kernel
  have hnext : (ofText "(é) ").next = (.ok (some (.list [.symbol "é"])),
      ⟨Source.ofChars [' '], ⟨0, 3⟩, false, false, []⟩) := by decide +kernel
  obtain ⟨hresult, -⟩ := bytes_are_read_as_text hflatten 0
  obtain ⟨-, -, -, hpulled⟩ := bytes_are_read_as_text hflatten 1
  refine ⟨hflatten, ?_, ?_⟩
  · rw [later_zero, later_zero, hnext] at hresult
    exact hresult
  · rw [later_succ, later_succ, later_zero, later_zero, hnext] at hpulled
    rw [hpulled]
    decide +kernel

end Reader

end SmtDialogue
