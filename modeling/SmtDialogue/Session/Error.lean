/-
  Why a request to a solver fails.

  * `SessionError` lists the causes, `SessionError.message` words them;
  * `SessionError.ofSyntax` takes up the error of a reader: a failure of the source stays
    a failure, all else is a malformed reply.
-/
import SmtDialogue.Sexp.Printer
import SmtDialogue.SyntaxError

namespace SmtDialogue

/-- A cause for which a request fails. -/
inductive SessionError where
  /-- The solver could not be started. -/
  | spawn (program message : String)
  /-- A request could not be written, or a reply not be read. -/
  | io (message : String)
  /-- The replies have ended, or the session is closed. -/
  | closed
  /-- The reply is no expression. -/
  | malformed (e : Located SyntaxError)
  /-- The reply has not the form that the command calls for. -/
  | protocol (command reply : Sexp)
  /-- The solver reports an error. -/
  | server (message : String)
deriving DecidableEq

namespace SessionError

/-- The wording of a cause. -/
def message : SessionError → String
  | spawn program message => "unable to start `" ++ program ++ "': " ++ message
  | io message => "io: " ++ message
  | closed => "solver output closed"
  | malformed e => "syntax error in the solver response: " ++ e.text SyntaxError.message
  | protocol command reply =>
    "unexpected reply `" ++ reply.render ++ "' to `" ++ command.render ++ "'"
  | server message => "solver responded with an error: " ++ message

/-- What an error of the reader means for the request whose reply was to be read. -/
def ofSyntax (e : Located SyntaxError) : SessionError :=
  match e.value with
  | .io message => io message
  | _ => malformed e

end SessionError

end SmtDialogue
