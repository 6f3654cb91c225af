/-
  Requests to a solver, and what their replies mean.

  * `Request.command` is the expression that is sent;
  * `Request.answer` reads a reply: a solver may report an error instead of answering any
    request, a raw command apart, whose reply is handed on as it is.
-/
import SmtDialogue.Model
import SmtDialogue.Session.Error
import SmtDialogue.Term.Sort
import SmtDialogue.Verdict

namespace SmtDialogue

/-- What a solver can be asked for. -/
inductive Request where
  /-- A command as it stands, whatever the reply. -/
  | raw (x : Sexp)
  | declareConst (id : Identifier) (sort : SortExpr)
  | declareFun (id : Identifier) (params : List SortExpr) (result : SortExpr)
  | assertTerm (t : Term)
  | checkSat
  /-- The values of the constants in the last satisfiable context. -/
  | getModel
  /-- Open an assertion scope. -/
  | push
  /-- Close the innermost assertion scope. -/
  | pop
  | setLogic (name : String)
  | setOption (name : String) (value : Sexp)
  | exit

/-- What a solver answers. -/
inductive Answer where
  /-- The request is carried out. -/
  | done
  | verdict (v : Verdict)
  | model (reading : ModelReading)
  /-- The reply to a command as it stands. -/
  | reply (x : Sexp)

namespace Request

/-- The expression that is sent. -/
def command : Request → Sexp
  | raw x => x
  | declareConst id sort => .list [.symbol "declare-const", .symbol id, sort.toSexp]
  | declareFun id params result =>
    .list [.symbol "declare-fun", .symbol id, .list (params.map SortExpr.toSexp), result.toSexp]
  | assertTerm t => .list [.symbol "assert", t.toSexp]
  | checkSat => .list [.symbol "check-sat"]
  | getModel => .list [.symbol "get-model"]
  | push => .list [.symbol "push"]
  | pop => .list [.symbol "pop"]
  | setLogic name => .list [.symbol "set-logic", .symbol name]
  | setOption name value => .list [.symbol "set-option", .keyword name, value]
  | exit => .list [.symbol "exit"]

/-- The message of an error that a solver reports. -/
def serverError? : Sexp → Option String
  | .list [head, .str message] => if head.isSymbol "error" then some message else none
  | _ => none

/-- What a reply without an error means. Requests that ask for nothing are acknowledged
    with `success`. -/
def meaning? (request : Request) (reply : Sexp) : Option Answer :=
  match request with
  | raw _ => some (.reply reply)
  | checkSat => (reply.symbol?.bind Verdict.ofSymbol?).map .verdict
  | getModel => (Model.ofReply? reply).map .model
  | _ => if reply.isSymbol "success" then some .done else none

/-- The error that a solver reports instead of answering. The reply to a raw command
    is no concern of ours. -/
def reported? (request : Request) (reply : Sexp) : Option String :=
  match request with
  | raw _ => none
  | _ => serverError? reply

/-- What a reply means. -/
def answer (request : Request) (reply : Sexp) : Except SessionError Answer :=
  match request.reported? reply, request.meaning? reply with
  | some message, _ => .error (.server message)
  | none, some answer => .ok answer
  | none, none => .error (.protocol request.command reply)

end Request

end SmtDialogue
