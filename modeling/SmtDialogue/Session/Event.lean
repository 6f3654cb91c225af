/-
  What a session keeps record of.

  * `Event.message` words an event, `Event.level` says how much it matters.
-/
import SmtDialogue.Model
import SmtDialogue.Text.Cursor

namespace SmtDialogue

/-- How much an event matters. -/
inductive Level where
  | debug
  | warn
deriving DecidableEq, Repr

/-- Something worth a record. -/
inductive Event where
  /-- A block comment that is never closed. -/
  | unclosedComment (start : Cursor)
  | skippedEntry (skipped : SkippedEntry)
  /-- A command is about to be sent. -/
  | command (x : Sexp)
  /-- A reply has been read. -/
  | reply (x : Sexp)
deriving DecidableEq

namespace Event

/-- What was found wrong is a warning, and the dialogue itself a matter of debugging. -/
def level : Event → Level
  | unclosedComment _ | skippedEntry _ => .warn
  | command _ | reply _ => .debug

/-- The wording of an event. -/
def message : Event → String
  | unclosedComment start => "unterminated block comment starting at " ++ start.label
  | skippedEntry skipped => skipped.message
  | command x => "> " ++ x.render
  | reply x => "< " ++ x.render

end Event

end SmtDialogue
