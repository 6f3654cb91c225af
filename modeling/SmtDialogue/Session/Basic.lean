/-
  Sessions with a solver: requests go out on a sink, replies come back through a reader.

  Each request is one line, and gets one reply. A session relies on the solver to
  acknowledge what asks for no answer, and turns that on first of all.

  * `Session.start` opens a session;
  * `Session.perform` carries out a call, and `Session.run` a sequence of them;
  * `Session.exchange` is the dialogue itself: one command out, one reply in.
-/
import SmtDialogue.Reader.Expression
import SmtDialogue.Session.Event
import SmtDialogue.Session.Request
import SmtDialogue.Session.Sink

namespace SmtDialogue

/-- A session, with all that has passed in it. -/
structure Session (σ : Type) where
  sink : σ
  replies : Reader
  /-- The session may still write on the sink. -/
  holdsSink : Bool := true
  /-- The session may still read replies. -/
  holdsReplies : Bool := true
  log : List Event := []

/-- What can be done in a session. -/
inductive Call where
  /-- Make a request. -/
  | ask (request : Request)
  /-- Open an assertion scope, and give up if that fails: what is asserted next would end
      up in the wrong scope. -/
  | push
  /-- Ask the solver to leave, and close. -/
  | exit
  /-- Leave. -/
  | close

/-- How a call ends. -/
inductive Outcome where
  | answer (a : Answer)
  | failure (e : SessionError)
  /-- The caller may not go on. -/
  | abort (message : String)

/-- A call ends as the request that it makes. -/
def Outcome.ofResult : Except SessionError Answer → Outcome
  | .ok a => .answer a
  | .error e => .failure e

namespace Session

variable {σ : Type} [Sink σ]

/-- A closed session takes no more requests. -/
def isClosed (s : Session σ) : Bool :=
  !s.holdsSink

/-- Adds events to the log. -/
def record (s : Session σ) (events : List Event) : Session σ :=
  { s with log := s.log ++ events }

/-- Lets go of both streams. -/
def close (s : Session σ) : Session σ :=
  { s with holdsSink := false, holdsReplies := false }

/-- Writes a command on a line of its own. -/
def send (command : Sexp) (s : Session σ) : Except String Unit × Session σ :=
  if s.holdsSink then
    match Sink.write (command.render ++ "\n") s.sink with
    | (.error e, sink) => (.error e, { s with sink })
    | (.ok (), sink) =>
      let (result, sink) := Sink.flush sink
      (result, { s with sink })
  else (.error "solver input closed", s)

/-- Reads the next reply. -/
def receive (s : Session σ) : Except SessionError Sexp × Session σ :=
  if s.holdsReplies then
    let (result, replies) := s.replies.next
    let unclosed := replies.unclosed.drop s.replies.unclosed.length
    let s := { s with replies }.record (unclosed.map .unclosedComment)
    match result with
    | .error e => (.error (.ofSyntax e), s)
    | .ok none => (.error .closed, s)
    | .ok (some reply) => (.ok reply, s.record [.reply reply])
  else (.error .closed, s)

/-- Sends a command and reads the reply to it. Nothing is read if the command could not be
    sent. -/
def exchange (command : Sexp) (s : Session σ) : Except SessionError Sexp × Session σ :=
  if s.isClosed then (.error .closed, s)
  else
    match (s.record [.command command]).send command with
    | (.error e, s) => (.error (.io e), s)
    | (.ok (), s) => s.receive

/-- The entries that were skipped to get an answer. -/
def skippedEvents : Answer → List Event
  | .model reading => reading.skipped.map .skippedEntry
  | _ => []

/-- Makes a request. -/
def ask (request : Request) (s : Session σ) : Except SessionError Answer × Session σ :=
  match s.exchange request.command with
  | (.error e, s) => (.error e, s)
  | (.ok reply, s) =>
    match request.answer reply with
    | .error e => (.error e, s)
    | .ok answer => (.ok answer, s.record (skippedEvents answer))

/-- Carries out a call. A solver may leave without a word when it is asked to. -/
def perform (call : Call) (s : Session σ) : Outcome × Session σ :=
  match call with
  | .ask request =>
    let (result, s) := s.ask request
    (.ofResult result, s)
  | .push =>
    match s.ask .push with
    | (.ok a, s) => (.answer a, s)
    | (.error e, s) => (.abort ("unable to push an assertion scope: " ++ e.message), s)
  | .exit =>
    match s.ask .exit with
    | (.error .closed, s) => (.answer .done, s.close)
    | (result, s) => (.ofResult result, s.close)
  | .close => (.answer .done, s.close)

/-- Opens a session over two streams. It is closed if the solver does not acknowledge that
    it will acknowledge. -/
def start (sink : σ) (replies : Reader) : Outcome × Session σ :=
  let s : Session σ := { sink, replies }
  match s.ask (.setOption "print-success" (.symbol "true")) with
  | (.ok a, s) => (.answer a, s)
  | (.error e, s) => (.failure e, s.close)

/-- Carries out calls in order, each with what the session is behind it. -/
def run (s : Session σ) : List Call → List (Outcome × Session σ)
  | [] => []
  | call :: calls =>
    let (outcome, after) := s.perform call
    (outcome, after) :: after.run calls

end Session

end SmtDialogue
