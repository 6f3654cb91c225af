/-
  The writer writes the canonical text.

  * `write_eq_atom`: an expression is written like an atom with the text of the expression;
  * `render_eq_text`: what is written from left to right is the text that is made of parts;
  * `render_is_compositional`: so the text of an expression is made of the texts of its parts, and
    it is the same wherever it is written.
-/
import SmtDialogue.Sexp.Printer

namespace SmtDialogue

namespace Sexp

theorem texts_eq_map (xs : List Sexp) : texts xs = xs.map text := by
  induction xs with
  | nil => rfl
  | cons x xs ih => rw [texts, List.map_cons, ih]

end Sexp

namespace Writer

variable {w : Writer}

@[simp] theorem fresh_openList (w : Writer) : w.openList.fresh = true := rfl

theorem atom_of_fresh (h : w.fresh = true) (text : String) :
    w.atom text = ⟨w.out ++ text, false⟩ := by
  simp [atom, separate, h]

theorem atom_of_not_fresh (h : w.fresh = false) (text : String) :
    w.atom text = ⟨w.out ++ " " ++ text, false⟩ := by
  simp [atom, separate, h]

theorem foldl_atom_behind (out first : String) (items : List String) :
    (items.foldl (fun w item => atom item w) ⟨out ++ first, false⟩).out =
      out ++ String.intercalate " " (first :: items) := by
  induction items generalizing out first with
  | nil => simp
  | cons second items ih =>
    rw [List.foldl_cons, atom_of_not_fresh rfl, ih, String.intercalate_cons_cons]
    simp only [String.append_assoc]

theorem foldl_atom (h : w.fresh = true) (items : List String) :
    (items.foldl (fun w item => atom item w) w).out = w.out ++ String.intercalate " " items := by
  cases items with
  | nil => simp
  | cons first items => rw [List.foldl_cons, atom_of_fresh h, foldl_atom_behind]

theorem closeList_foldl_atom (items : List String) (w : Writer) :
    (items.foldl (fun w item => atom item w) w.openList).closeList =
      w.atom ("(" ++ String.intercalate " " items ++ ")") := by
  rw [closeList, foldl_atom (fresh_openList w)]
  cases w with
  | mk out fresh =>
    cases fresh <;> simp [openList, atom, separate, ← String.append_assoc]

mutual
/-- **An expression is written like an atom with its canonical text.** -/
theorem write_eq_atom : (x : Sexp) → ∀ w : Writer, w.write x = w.atom x.text
  | .list items, w => by
    rw [write, writeItems_eq_foldl items, closeList_foldl_atom, Sexp.text]
  | .int n, w => by
    rw [write, Sexp.text]
    split
    · exact closeList_foldl_atom ["-", Nat.repr n.toInt.natAbs] w
    · rfl
  | .symbol name, w | .str text, w | .keyword name, w | .bitVec value width, w => rfl

theorem writeItems_eq_foldl : (xs : List Sexp) → ∀ w : Writer,
    w.writeItems xs = (Sexp.texts xs).foldl (fun w item => atom item w) w
  | [], w => rfl
  | x :: xs, w => by
    rw [writeItems, write_eq_atom x, writeItems_eq_foldl xs]
    rfl
end

end Writer

/-- **What is written from left to right is the canonical text.** -/
theorem Sexp.render_eq_text (x : Sexp) : x.render = x.text := by
  rw [Sexp.render, Writer.write_eq_atom, Writer.atom_of_fresh rfl]
  exact String.empty_append

theorem Sexp.decimal_eq_repr (n : Int) : decimal n = Int.repr n := by
  cases n with
  | ofNat k => simp [decimal, Int.repr]
  | negSucc k => simp [decimal, Int.repr, Int.negSucc_lt_zero]

/-- Behind what has been written an expression appears as it does on its own, one space apart unless
    it is the first item of its list. -/
theorem Writer.write_eq (w : Writer) (x : Sexp) :
    w.write x = ⟨w.out ++ (if w.fresh then "" else " ") ++ x.render, false⟩ := by
  rw [write_eq_atom, Sexp.render_eq_text]
  cases hfresh : w.fresh
  · rw [atom_of_not_fresh hfresh]
    rfl
  · rw [atom_of_fresh hfresh, if_pos rfl, String.append_empty]

/-- **The text of an expression is made of the texts of its parts**: the items of a list in
    parentheses with one space between them, the texts of symbols as they are, those of strings in
    quotes and those of option names behind a colon, and numbers in decimal, a negative one as a
    list. What was written before, at whatever depth, makes no difference for it. -/
theorem Sexp.render_is_compositional :
    (∀ items : List Sexp,
      (list items).render = "(" ++ String.intercalate " " (items.map render) ++ ")") ∧
    (∀ name, (symbol name).render = name) ∧
    (∀ text, (str text).render = "\"" ++ text ++ "\"") ∧
    (∀ name, (keyword name).render = ":" ++ name) ∧
    (∀ n : Int64, (int n).render =
      if 0 ≤ n.toInt then Nat.repr n.toInt.toNat else "(- " ++ Nat.repr (-n.toInt).toNat ++ ")") ∧
    (∀ (value : UInt64) (width : Int64), (bitVec value width).render =
      "(_ bv" ++ Nat.repr value.toNat ++ " " ++ Int.repr width.toInt ++ ")") ∧
    ∀ (w : Writer) (x : Sexp),
      w.write x = ⟨w.out ++ (if w.fresh then "" else " ") ++ x.render, false⟩ := by
  have hrender : render = text := funext render_eq_text
  refine ⟨?_, ?_, ?_, ?_, ?_, ?_, Writer.write_eq⟩
  · intro items
    rw [hrender, text, texts_eq_map]
  · intro name
    rw [hrender, text]
  · intro text
    rw [hrender, Sexp.text]
  · intro name
    rw [hrender, text]
  · intro n
    rw [hrender, text]
    by_cases hn : 0 ≤ n.toInt
    · have habs : n.toInt.natAbs = n.toInt.toNat := by omega
      rw [if_pos hn, if_neg (Int.not_lt.2 hn), habs]
    · have habs : n.toInt.natAbs = (-n.toInt).toNat := by omega
      rw [if_neg hn, if_pos (Int.not_le.1 hn), habs]
  · intro value width
    rw [hrender, text, bitVecText, decimal_eq_repr]

end SmtDialogue
