/-
  Reading expressions from a source, one at a time.

  The first error ends the reading, and so does the end of the input: a reader that is
  done takes nothing more from its source.

  * `Reader.next` reads one expression;
  * `Reader.results` reads on to the end, and `parse` reads a whole text;
  * `rest_lt_of_next`: an expression shortens what is still to be read.
-/
import SmtDialogue.Reader.Basic
import SmtDialogue.Sexp.Assembly

namespace SmtDialogue

namespace Reader

/-- Reads tokens until the outermost of the open lists is complete, or one expression if
    no list is open. There is none at the end of a program. -/
def assemble (opened : Assembly.OpenLists) (reader : Reader) :
    Except (Located SyntaxError) (Option Sexp) × Reader :=
  match h : reader.token with
  | (.error e, after) => (.error e, after)
  | (.ok token, after) =>
    match hstep : Assembly.step opened token.value with
    | .complete x => (.ok (some x), after)
    | .pending opened =>
      have := rest_lt_of_token h (Assembly.ne_endOfInput_of_pending hstep)
      assemble opened after
    | .finished => (.ok none, after)
    | .refused cause => (.error ⟨cause, token.position⟩, after)
termination_by reader.rest.length

/-- Reads the next expression. There is none behind the end of the input or an error. -/
def next (reader : Reader) : Except (Located SyntaxError) (Option Sexp) × Reader :=
  if reader.done then (.ok none, reader)
  else
    match reader.assemble [] with
    | (.ok (some x), after) => (.ok (some x), after)
    | (result, after) => (result, { after with done := true })

theorem rest_lt_of_assemble {opened : Assembly.OpenLists} {reader after : Reader} {x : Sexp}
    (h : reader.assemble opened = (.ok (some x), after)) :
    after.rest.length < reader.rest.length := by
  fun_induction assemble opened reader with
  | case1 => simp at h
  | case2 opened reader token behind htoken x hstep =>
    obtain ⟨-, rfl⟩ := Prod.mk.inj h
    exact rest_lt_of_token htoken (Assembly.ne_endOfInput_of_complete hstep)
  | case3 opened reader token behind htoken opened' hstep hlt ih => exact Nat.lt_trans (ih h) hlt
  | case4 => simp at h
  | case5 => simp at h

theorem rest_lt_of_next {reader after : Reader} {x : Sexp}
    (h : reader.next = (.ok (some x), after)) : after.rest.length < reader.rest.length := by
  unfold next at h
  split at h
  · simp at h
  · split at h
    · rename_i hassemble
      obtain ⟨-, rfl⟩ := Prod.mk.inj h
      exact rest_lt_of_assemble hassemble
    · simp_all

/-- Everything that is read up to the end of the input, and the reader at the end. An
    error comes last. -/
def results (reader : Reader) : List (Except (Located SyntaxError) Sexp) × Reader :=
  match h : reader.next with
  | (.ok none, after) => ([], after)
  | (.error e, after) => ([.error e], after)
  | (.ok (some x), after) =>
    have := rest_lt_of_next h
    let (others, last) := after.results
    (.ok x :: others, last)
termination_by reader.rest.length

end Reader

/-- Reads all expressions of a text, or finds the first error in it. -/
def parse (text : String) : Except (Located SyntaxError) (List Sexp) :=
  (Reader.ofText text).results.1.mapM id

end SmtDialogue
