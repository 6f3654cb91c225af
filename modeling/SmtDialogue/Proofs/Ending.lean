/-
  Reading on and on: what a reader answers call by call, and how that ends.

  * `Reader.later`: the reader behind some calls;
  * `exists_end`: sooner or later a call reads no expression;
  * `later_of_done`, `ends_once`: from then on nothing changes;
  * `unread_later`: whatever is read, what the source has not given away stays as it is but
    for a part at its head.
-/
import Mathlib.Data.List.Infix
import Mathlib.Data.Nat.Find
import Mathlib.Tactic.Push
import SmtDialogue.Proofs.Reading

namespace SmtDialogue

open Source

variable {source : Source} {reader : Reader} {n k : Nat}

namespace Reader

/-- The reader behind `k` calls. -/
def later (reader : Reader) : Nat → Reader
  | 0 => reader
  | k + 1 => (reader.later k).next.2

@[simp] theorem later_zero (reader : Reader) : reader.later 0 = reader := rfl

theorem later_succ (reader : Reader) (k : Nat) :
    reader.later (k + 1) = (reader.later k).next.2 := rfl

/-! ## The end of reading -/

theorem next_of_done (h : reader.done = true) : reader.next = (.ok none, reader) := by
  rw [next, if_pos h]

theorem next_of_assemble {x : Sexp} {after : Reader} (hdone : reader.done = false)
    (h : reader.assemble [] = (.ok (some x), after)) : reader.next = (.ok (some x), after) := by
  rw [next, if_neg (Bool.eq_false_iff.1 hdone), h]

theorem next_of_assemble_error {e : Located SyntaxError} {after : Reader}
    (hdone : reader.done = false) (h : reader.assemble [] = (.error e, after)) :
    reader.next = (.error e, { after with done := true }) := by
  rw [next, if_neg (Bool.eq_false_iff.1 hdone), h]

theorem done_of_next_ne (h : ∀ x, reader.next.1 ≠ .ok (some x)) : reader.next.2.done = true := by
  by_cases hdone : reader.done = true
  · rw [next_of_done hdone]
    exact hdone
  · rw [next, if_neg hdone] at h ⊢
    split
    · rename_i x after hassemble
      exact absurd (by rw [hassemble]) (h x)
    · rfl

/-- **Behind the end nothing changes**: nothing is pulled, and the reader stays where it is. -/
theorem later_of_done (h : (reader.later n).done = true) (hk : n ≤ k) :
    reader.later k = reader.later n := by
  induction k, hk using Nat.le_induction with
  | base => rfl
  | succ k _ ih => rw [later_succ, ih, next_of_done h]

theorem length_rest_later (h : ∀ k < n, ∃ x, (reader.later k).next.1 = .ok (some x)) :
    (reader.later n).rest.length + n ≤ reader.rest.length := by
  induction n with
  | zero => exact Nat.le_refl _
  | succ n ih =>
    obtain ⟨x, hx⟩ := h n (Nat.lt_succ_self n)
    have hless : (reader.later (n + 1)).rest.length < (reader.later n).rest.length :=
      rest_lt_of_next (Prod.ext hx rfl)
    have hrest := ih fun k hk => h k (Nat.lt_succ_of_lt hk)
    omega

/-- **Sooner or later a call reads no expression**, since each expression shortens the rest. -/
theorem exists_end (reader : Reader) : ∃ n, (∀ k < n, ∃ x, (reader.later k).next.1 = .ok (some x)) ∧
    ∀ x, (reader.later n).next.1 ≠ .ok (some x) := by
  classical
  have hex : ∃ n, ∀ x, (reader.later n).next.1 ≠ .ok (some x) := by
    -- else more expressions would be read than there are characters
    by_contra hall
    push Not at hall
    have hrest := length_rest_later (n := reader.rest.length + 1) fun k _ => hall k
    omega
  refine ⟨Nat.find hex, ?_, Nat.find_spec hex⟩
  intro k hk
  have hsome := Nat.find_min hex hk
  push Not at hsome
  exact hsome

/-- **Reading ends once**: some calls read an expression, the next one does not, and from then
    on there is none, and the reader stays as it is. -/
theorem ends_once (reader : Reader) : ∃ n,
    (∀ k < n, ∃ x, (reader.later k).next.1 = .ok (some x)) ∧
    (∀ x, (reader.later n).next.1 ≠ .ok (some x)) ∧
    ∀ k, n < k → (reader.later k).next.1 = .ok none ∧ reader.later k = reader.later (n + 1) := by
  obtain ⟨n, hbefore, hend⟩ := exists_end reader
  have hdone : (reader.later (n + 1)).done = true := done_of_next_ne hend
  refine ⟨n, hbefore, hend, fun k hk => ?_⟩
  have hstays : reader.later k = reader.later (n + 1) := later_of_done hdone hk
  refine ⟨?_, hstays⟩
  rw [hstays, next_of_done hdone]

theorem not_done_of_before (hdone : reader.done = false)
    (h : ∀ k < n, ∃ x, (reader.later k).next.1 = .ok (some x)) : (reader.later n).done = false := by
  cases n with
  | zero => exact hdone
  | succ n =>
    obtain ⟨x, hx⟩ := h n (Nat.lt_succ_self n)
    exact (not_done_of_next (Prod.ext hx rfl)).2

end Reader

/-! ## What the source has not given away -/

theorem tail_suffix_tail {xs ys : Source} (h : xs <:+ ys) : xs.tail <:+ ys.tail := by
  obtain ⟨front, rfl⟩ := h
  cases front with
  | nil => exact List.suffix_rfl
  | cons pull front => exact (List.tail_suffix xs).trans (List.suffix_append front xs)

namespace Gap

theorem rest_skip_suffix (mode : Mode) (place : Cursor) (source : Source) :
    (skip mode place source).rest <:+ source := by
  fun_induction skip mode place source with
  | case1 _ _ _ source ih | case2 _ _ _ source ih | case6 _ _ _ _ source ih =>
    exact (ih.trans (List.suffix_cons _ source)).trans (List.suffix_cons _ _)
  | case3 _ _ _ source _ _ _ ih | case5 _ _ _ source ih | case7 _ _ _ _ source _ ih
  | case8 _ _ source ih =>
    exact ih.trans (List.suffix_cons _ source)
  | case4 | case9 | case10 => exact List.suffix_rfl

end Gap

theorem Source.quoted_suffix (escaped : Bool) (source : Source) :
    (quoted escaped source).2 <:+ source := by
  fun_induction quoted escaped source with
  | case1 => exact List.suffix_rfl
  | case2 _ _ _ rest _ _ _ hquoted ih =>
    rw [hquoted] at ih
    exact ih.trans (List.suffix_cons _ rest)
  | case3 => exact List.suffix_rfl

namespace Reader

theorem tail_suffix_unread (reader : Reader) : reader.rest.tail <:+ reader.unread := by
  unfold unread
  split
  · exact List.suffix_rfl
  · exact List.tail_suffix _

/-- The next answer of the source has been looked at, and taken if it is a failure. -/
theorem unread_lookAhead (token : Located Token) (h : reader.peeked = false) :
    (reader.lookAhead token).2.unread = reader.rest.tail := by
  unfold lookAhead
  split
  · rename_i hrest
    simp [unread, h, hrest]
  · rfl

theorem unread_closeString (start : Cursor) (reader : Reader) :
    (reader.closeString start).2.unread <:+ reader.rest := by
  have hquoted := Source.quoted_suffix false reader.rest
  unfold closeString
  generalize Source.quoted false reader.rest = text at hquoted
  obtain ⟨text, rest⟩ := text
  dsimp only at hquoted ⊢
  split
  · exact (List.suffix_cons _ _).trans hquoted
  · exact (List.suffix_cons _ _).trans hquoted
  · exact (List.suffix_cons _ _).trans hquoted
  · exact hquoted

theorem unread_token (reader : Reader) : reader.token.2.unread <:+ reader.skipGap.rest.tail := by
  unfold Reader.token
  dsimp only
  split
  · rename_i c n rest hrest
    rw [hrest, List.tail_cons]
    split_ifs
    · exact List.suffix_rfl
    · exact List.suffix_rfl
    · exact unread_closeString _ _
    · rw [unread_lookAhead _ rfl]
      exact (List.tail_suffix _).trans (List.dropWhile_suffix _)
    · rw [unread_lookAhead _ rfl]
      exact (List.tail_suffix _).trans (List.dropWhile_suffix _)
  · rw [unread_lookAhead _ rfl]

theorem unread_token_suffix (reader : Reader) : reader.token.2.unread <:+ reader.unread :=
  ((unread_token reader).trans (tail_suffix_tail (Gap.rest_skip_suffix _ _ _))).trans
    (tail_suffix_unread reader)

theorem unread_assemble (opened : Assembly.OpenLists) (reader : Reader) :
    (reader.assemble opened).2.unread <:+ reader.token.2.unread := by
  fun_induction assemble opened reader with
  | case1 _ _ _ _ htoken | case2 _ _ _ _ htoken | case4 _ _ _ _ htoken
  | case5 _ _ _ _ htoken =>
    rw [htoken]
  | case3 _ reader _ after htoken _ _ _ ih =>
    rw [htoken]
    exact ih.trans (unread_token_suffix after)

theorem unread_next_eq (hdone : reader.done = false) :
    reader.next.2.unread = (reader.assemble []).2.unread := by
  rw [next, if_neg (Bool.eq_false_iff.1 hdone)]
  split
  · rename_i hread
    rw [hread]
  · rename_i hread
    rw [hread]
    rfl

theorem unread_next (reader : Reader) : reader.next.2.unread <:+ reader.unread := by
  cases hdone : reader.done with
  | true => rw [next_of_done hdone]
  | false =>
    rw [unread_next_eq hdone]
    exact (unread_assemble [] reader).trans (unread_token_suffix reader)

/-- **What the source has not given away is taken from the front only.** -/
theorem unread_later (reader : Reader) (k : Nat) : (reader.later k).unread <:+ reader.unread := by
  induction k with
  | zero => exact List.suffix_rfl
  | succ k ih => exact (unread_next _).trans ih

end Reader

end SmtDialogue
