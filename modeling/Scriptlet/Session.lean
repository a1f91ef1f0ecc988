import Scriptlet.Interpreter.Execution
import Scriptlet.Report
import Scriptlet.Syntax.PrefixForm
import Scriptlet.Syntax.Statement

/-!
# Sessions

A session runs one source after another over the same global names. A source with an error is
reported and not run at all. A line typed by a user may leave out its last semicolon, and the value
of a lone expression is printed.
-/

namespace Scriptlet

inductive Status where
  | success
  | compileError
  | runtimeError
deriving DecidableEq

/-- The exit code that tells how a script ended. -/
def Status.exitCode : Status → Nat
  | success => 0
  | compileError => 65
  | runtimeError => 70

/-- Errors in the source come first: a source with errors is not run. -/
def Diagnostics.status (d : Diagnostics) : Status :=
  if d.hadError then .compileError else if d.hadFault then .runtimeError else .success

/-- What reading a source gives: its statements without those that cannot be read, and the reports
of its errors. -/
structure Compilation where
  program : List Stmt
  reports : List Report

def Compilation.ofSource (source : String) : Compilation :=
  let scan := Scan.ofSource source
  let parsed := scan.stream.program
  { program := parsed.value
    reports := scan.errors.map Report.ofLexicalError
      ++ parsed.errors.map (Report.ofSyntaxError scan.stream.final) }

/-- The global names and the reports of the last source. -/
structure Session where
  interpreter : Interpreter
  diagnostics : Diagnostics

/-- The answer of a session to a source: the session after it, how it ended, the lines printed, and
the statements read. -/
structure Answer where
  session : Session
  status : Status
  printed : List String
  program : List Stmt

def Answer.reports (a : Answer) : List Report :=
  a.session.diagnostics.reports

namespace Session

def fresh : Session :=
  ⟨.fresh, {}⟩

/-! ### Running what was read -/

/-- Executes a program and reports the fault that ended it, if one did. The lines printed come
second. -/
def interpret (s : Session) (program : List Stmt) : Session × List String :=
  let run := Stmt.execAll program s.interpreter
  match run.fault with
  | none => (⟨run.after, s.diagnostics⟩, run.printed)
  | some fault => (⟨run.after, s.diagnostics.addFault (.ofFault fault)⟩, run.printed)

/-- Evaluates an expression. It has no value if a fault ended it, which is reported. -/
def evaluate (s : Session) (e : Expr) : Session × Option Value :=
  match e.eval.run s.interpreter with
  | .ok value after => (⟨after, s.diagnostics⟩, some value)
  | .error fault after => (⟨after, s.diagnostics.addFault (.ofFault fault)⟩, none)

/-- The lines that tell of a value. -/
def echo (value : Value) : List String :=
  [value.display]

/-- Evaluates a lone expression and tells of its value; executes any other program. -/
def respond (s : Session) : List Stmt → Session × List String
  | [.expression e] =>
    match s.evaluate e with
    | (s', some value) => (s', echo value)
    | (s', none) => (s', [])
  | program => s.interpret program

/-! ### Sources and lines -/

/-- Reads a source and goes on with its program, unless there are errors. What was reported before
is discarded first. -/
def runWith (s : Session) (goOn : Session → List Stmt → Session × List String) (source : String) :
    Answer :=
  let compilation := Compilation.ofSource source
  let compiled : Session :=
    { s with diagnostics := s.diagnostics.reset.addErrors compilation.reports }
  if compiled.diagnostics.hadError then
    { session := compiled
      status := .compileError
      printed := []
      program := compilation.program }
  else
    let (after, printed) := goOn compiled compilation.program
    { session := after
      status := after.diagnostics.status
      printed
      program := compilation.program }

def run (s : Session) (source : String) : Answer :=
  s.runWith interpret source

/-- The line with a semicolon on a line of its own, so that a comment cannot swallow it, if the
line's last token closes no statement. -/
def closeLine (line : String) : String :=
  match (Scan.ofSource line).stream.ahead.getLast? with
  | none => line
  | some last =>
    if last.kind = .semicolon ∨ last.kind = .rightBrace then line else line ++ "\n;"

/-- Runs a line typed by a user. -/
def runLine (s : Session) (line : String) : Answer :=
  s.runWith respond (closeLine line)

end Session

end Scriptlet
