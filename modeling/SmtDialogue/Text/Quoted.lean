/-
  Quoted text: what stands between two quotes, a backslash making the character
  behind it a plain one. Text is kept as written, the backslashes included.

  * `Source.quoted` splits a source at the quote that closes the text;
  * `length_quoted_le`: nothing is added.
-/
import SmtDialogue.Text.Source

namespace SmtDialogue.Source

/-- The text up to the quote that closes it, and the source from that quote on. The
    head is plain if it is `escaped`. -/
def quoted (escaped : Bool) : Source → List Char × Source
  | .char c size :: rest =>
    if c = '"' ∧ !escaped then ([], .char c size :: rest)
    else
      let (text, rest) := quoted (c = '\\' && !escaped) rest
      (c :: text, rest)
  | source => ([], source)

theorem length_quoted_le (escaped : Bool) (source : Source) :
    (quoted escaped source).2.length ≤ source.length := by
  fun_induction quoted escaped source with
  | case1 => exact Nat.le_refl _
  | case2 _ c size rest _ text _ _ ih => exact Nat.le_succ_of_le (by simpa [*] using ih)
  | case3 => exact Nat.le_refl _

end SmtDialogue.Source
