/-
  How a solver is started: a program, its arguments, and the time it is given to leave on
  its own once its input is closed.

  * `Launch.z3` and `Launch.cvc4` are ready to use;
  * `Launch.text` is the command line as people write it, `Launch.command` what the
    operating system gets.
-/

namespace SmtDialogue

/-- How a solver is started. -/
structure Launch where
  program : String
  args : List String := []
  /-- In milliseconds. -/
  gracePeriod : Nat := 500
deriving DecidableEq, Repr

namespace Launch

/-- Reads commands from its standard input. -/
def z3 : Launch :=
  { program := "z3", args := ["-in", "-smt2"] }

/-- Works incrementally, with models. -/
def cvc4 : Launch :=
  { program := "cvc4", args := ["--lang", "smt2", "--incremental", "--produce-models"] }

/-- Adds arguments behind those that are there. -/
def addArgs (launch : Launch) (args : List String) : Launch :=
  { launch with args := launch.args ++ args }

/-- Changes the time that the solver is given to leave. -/
def withGracePeriod (launch : Launch) (milliseconds : Nat) : Launch :=
  { launch with gracePeriod := milliseconds }

/-- The program and its arguments, a space before each argument. -/
def text (launch : Launch) : String :=
  String.intercalate " " (launch.program :: launch.args)

/-- A text as it is passed to a process. Such texts end at a null character, so that one
    that holds a null character cannot be passed, and a mark stands in its place. -/
def passed (text : String) : String :=
  if text.toList.contains '\x00' then "<string-with-nul>" else text

/-- The program and its arguments as they are passed to a process. -/
def command (launch : Launch) : String × List String :=
  (passed launch.program, launch.args.map passed)

end Launch

end SmtDialogue
