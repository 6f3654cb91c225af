/-
  Expressions that are read back in another form than they were written in.

  Numerals have no sign and bit-vector values no notation of their own, so that both are
  written as lists. A reader finds these lists.

  * `Sexp.Writable`: the expression is written in a way that can be read;
  * `Sexp.spelledOut`: its negative integers and bit-vector values are the lists that are
    written for them;
  * `text_spelledOut`, `readable_spelledOut`: this changes nothing in the text, and what
    comes of it can be read;
  * `parse_render_spelledOut`: so it is what is read;
  * `Term.Writable` and `SortExpr.Writable`: what this asks of terms and sorts.
-/
import SmtDialogue.Proofs.RoundTrip
import SmtDialogue.Term.Encoding
import SmtDialogue.Term.Sort

namespace SmtDialogue

open Source

theorem Int64.toInt_neg_of_minValue_lt {n : Int64} (h : Int64.minValue < n) :
    (-n).toInt = -n.toInt := by
  have hlow := Int64.lt_iff_toInt_lt.1 h
  have hhigh := n.toInt_lt
  rw [Int64.toInt_minValue] at hlow
  rw [Int64.toInt_neg]
  exact Int.bmod_eq_of_le (by omega) (by omega)

namespace Sexp

/-! ## Spelling out -/

mutual
/-- The expression is written in a way that can be read. No numeral can be read for the
    negative of the least integer. -/
def Writable : Sexp → Prop
  | list items => AllWritable items
  | symbol name => IsSymbolText name.toList
  | str text => isQuotable false text.toList
  | keyword name => ∀ c ∈ name.toList, isWordChar c
  | int n => Int64.minValue < n
  | bitVec _ width => 0 ≤ width

/-- All the expressions are written in a way that can be read. -/
def AllWritable : List Sexp → Prop
  | [] => True
  | x :: xs => Writable x ∧ AllWritable xs
end

mutual
/-- The expression with its negative integers and bit-vector values spelled out as
    lists. -/
def spelledOut : Sexp → Sexp
  | list items => list (allSpelledOut items)
  | symbol name => symbol name
  | str text => str text
  | keyword name => keyword name
  | int n => if n < 0 then list [symbol "-", int (-n)] else int n
  | bitVec value width => list [symbol "_", symbol ("bv" ++ Nat.repr value.toNat), int width]

/-- Some expressions, each spelled out. -/
def allSpelledOut : List Sexp → List Sexp
  | [] => []
  | x :: xs => spelledOut x :: allSpelledOut xs
end

variable {x : Sexp} {xs ys : List Sexp}

theorem allSpelledOut_eq_map (xs : List Sexp) : allSpelledOut xs = xs.map spelledOut := by
  induction xs with
  | nil => rfl
  | cons x xs ih => rw [allSpelledOut, List.map_cons, ih]

theorem allWritable_iff : AllWritable xs ↔ ∀ x ∈ xs, x.Writable := by
  induction xs with
  | nil => simp [AllWritable]
  | cons x xs ih => simp [AllWritable, ih]

theorem writable_list : (list xs).Writable ↔ ∀ x ∈ xs, x.Writable := by
  rw [Writable, allWritable_iff]

/-! ## The text stays -/

theorem text_spelledOut_int {n : Int64} (h : Int64.minValue < n) :
    (spelledOut (int n)).text = (int n).text := by
  by_cases hneg : n < 0
  · have hn : n.toInt < 0 := Int64.lt_iff_toInt_lt.1 hneg
    obtain ⟨k, habs, hpos⟩ : ∃ k : Nat, n.toInt.natAbs = k ∧ (-n).toInt = k := by
      rw [Int64.toInt_neg_of_minValue_lt h]
      exact ⟨n.toInt.natAbs, rfl, by omega⟩
    have hnumeral : ¬ (k : Int) < 0 := by omega
    rw [spelledOut, if_pos hneg]
    apply String.toList_inj.1
    simp [text, texts, hn, habs, hpos, hnumeral]
  · rw [spelledOut, if_neg hneg]

theorem text_spelledOut_bitVec (value : UInt64) {width : Int64} (h : 0 ≤ width) :
    (spelledOut (bitVec value width)).text = (bitVec value width).text := by
  have hw : ¬ width.toInt < 0 := Int.not_lt.2 (Int64.le_iff_toInt_le.1 h)
  apply String.toList_inj.1
  simp [spelledOut, text, texts, bitVecText, decimal, hw]

mutual
/-- **Spelling out changes nothing in the text.** -/
theorem text_spelledOut : (x : Sexp) → x.Writable → x.spelledOut.text = x.text
  | list items, h => by rw [spelledOut, text, text, texts_allSpelledOut items h]
  | int n, h => text_spelledOut_int h
  | bitVec value width, h => text_spelledOut_bitVec value h
  | symbol name, _ | str text, _ | keyword name, _ => by rw [spelledOut]

theorem texts_allSpelledOut : (xs : List Sexp) → AllWritable xs →
    texts (allSpelledOut xs) = texts xs
  | [], _ => rfl
  | x :: xs, h => by
    rw [allSpelledOut, texts, texts, text_spelledOut x h.1, texts_allSpelledOut xs h.2]
end

theorem render_spelledOut (h : x.Writable) : x.spelledOut.render = x.render := by
  rw [render_eq_text, render_eq_text, text_spelledOut x h]

/-! ## What is spelled out can be read -/

theorem readable_int {n : Int64} (h : 0 ≤ n) : (int n).Readable :=
  Int64.le_iff_toInt_le.1 h

theorem isSymbolText_bv (value : UInt64) :
    IsSymbolText ("bv" ++ Nat.repr value.toNat).toList := by
  have hdigits := (Digits.isDecimal_repr value.toNat).2.1
  have hprefix : ∀ c ∈ "bv".toList, isWordChar c := List.all_eq_true.1 (by decide)
  refine ⟨by simp, ?_, by simp, by simp⟩
  intro c hc
  simp only [String.toList_append, List.mem_append] at hc
  rcases hc with hc | hc
  · exact hprefix c hc
  · exact isWordChar_of_isDigit (hdigits c hc)

theorem readable_spelledOut_int {n : Int64} (h : Int64.minValue < n) :
    (spelledOut (int n)).Readable := by
  by_cases hneg : n < 0
  · have hn : n.toInt < 0 := Int64.lt_iff_toInt_lt.1 hneg
    have hnumeral : 0 ≤ -n := by
      rw [Int64.le_iff_toInt_le, Int64.toInt_neg_of_minValue_lt h]
      have hzero : (0 : Int64).toInt = 0 := rfl
      omega
    rw [spelledOut, if_pos hneg]
    have hminus : IsSymbolText "-".toList := by decide
    exact ⟨hminus, readable_int hnumeral, trivial⟩
  · rw [spelledOut, if_neg hneg]
    exact readable_int (Int64.not_lt.1 hneg)

mutual
/-- **What is spelled out can be read.** -/
theorem readable_spelledOut : (x : Sexp) → x.Writable → x.spelledOut.Readable
  | list items, h => by
    rw [spelledOut]
    exact allReadable_allSpelledOut items h
  | int n, h => readable_spelledOut_int h
  | bitVec value width, h => by
    have hindex : IsSymbolText "_".toList := by decide
    exact ⟨hindex, isSymbolText_bv value, readable_int h, trivial⟩
  | symbol name, h | str text, h | keyword name, h => h

theorem allReadable_allSpelledOut : (xs : List Sexp) → AllWritable xs →
    AllReadable (allSpelledOut xs)
  | [], _ => trivial
  | x :: xs, h => ⟨readable_spelledOut x h.1, allReadable_allSpelledOut xs h.2⟩
end

end Sexp

/-- **What is written is read back spelled out.** -/
theorem parse_render_spelledOut {x : Sexp} (h : x.Writable) :
    parse x.render = .ok [x.spelledOut] := by
  have hall : ∀ y ∈ [x.spelledOut], y.Readable := by
    simpa using Sexp.readable_spelledOut x h
  have hback := parse_renders hall
  rwa [List.map_singleton, String.intercalate_singleton, Sexp.render_spelledOut h] at hback

/-! ## Terms and sorts -/

namespace Term

mutual
/-- The term is written in a way that can be read. -/
def Writable : Term → Prop
  | string text => isQuotable false text.toList
  | int n => Int64.minValue < n
  | bitVec _ width => 0 ≤ width
  | const id => IsSymbolText id.toList
  | app id args => IsSymbolText id.toList ∧ AllWritable args
  | letIn id value body => IsSymbolText id.toList ∧ Writable value ∧ Writable body

/-- All the terms are written in a way that can be read. -/
def AllWritable : List Term → Prop
  | [] => True
  | t :: ts => Writable t ∧ AllWritable ts
end

mutual
theorem writable_toSexp : (t : Term) → t.Writable → t.toSexp.Writable
  | string _, h | int _, h | bitVec _ _, h | const _, h => h
  | app _ args, h => ⟨h.1, allWritable_toSexps args h.2⟩
  | letIn _ value body, h => by
    have hname : IsSymbolText "let".toList := by decide
    exact ⟨hname, ⟨⟨h.1, writable_toSexp value h.2.1, trivial⟩, trivial⟩,
      writable_toSexp body h.2.2, trivial⟩

theorem allWritable_toSexps : (ts : List Term) → AllWritable ts → Sexp.AllWritable (toSexps ts)
  | [], _ => trivial
  | t :: ts, h => ⟨writable_toSexp t h.1, allWritable_toSexps ts h.2⟩
end

end Term

namespace SortExpr

mutual
/-- The sort is written in a way that can be read. -/
def Writable : SortExpr → Prop
  | name id => IsSymbolText id.toList
  | app id args => IsSymbolText id.toList ∧ AllWritable args
  | bitVec width => Int64.minValue < width

/-- All the sorts are written in a way that can be read. -/
def AllWritable : List SortExpr → Prop
  | [] => True
  | s :: ss => Writable s ∧ AllWritable ss
end

mutual
theorem writable_toSexp : (s : SortExpr) → s.Writable → s.toSexp.Writable
  | name _, h => h
  | app _ args, h => ⟨h.1, allWritable_toSexps args h.2⟩
  | bitVec _, h => by
    have hindex : IsSymbolText "_".toList := by decide
    have hname : IsSymbolText "BitVec".toList := by decide
    exact ⟨hindex, hname, h, trivial⟩

theorem allWritable_toSexps : (ss : List SortExpr) → AllWritable ss →
    Sexp.AllWritable (toSexps ss)
  | [], _ => trivial
  | s :: ss, h => ⟨writable_toSexp s h.1, allWritable_toSexps ss h.2⟩
end

end SortExpr

end SmtDialogue
