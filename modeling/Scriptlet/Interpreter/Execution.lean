import Scriptlet.Interpreter.Evaluation

/-!
# Execution of statements

Statements are executed in order until one ends in a fault. A block has a scope of its own, which
is closed however the block ends.
-/

namespace Scriptlet

/-- What executing statements did: the fault that ended it, if one did, the lines printed, and the
interpreter after it. -/
structure Run where
  fault : Option Fault
  printed : List String
  after : Interpreter

namespace Run

def start (s : Interpreter) : Run :=
  ⟨none, [], s⟩

/-- Uses the value of an expression, unless there is a fault. -/
def ofEvaluation (e : Expr) (s : Interpreter) (use : Value → Interpreter → Run) : Run :=
  match e.eval.run s with
  | .ok value s' => use value s'
  | .error fault s' => ⟨some fault, [], s'⟩

/-- Goes on after a run that ended in no fault. -/
def andThen (r : Run) (next : Interpreter → Run) : Run :=
  match r.fault with
  | some _ => r
  | none =>
    let r' := next r.after
    ⟨r'.fault, r.printed ++ r'.printed, r'.after⟩

end Run

mutual

def Stmt.exec : Stmt → Interpreter → Run
  | .expression e, s => Run.ofEvaluation e s fun _ s' => .start s'
  | .print e, s => Run.ofEvaluation e s fun value s' => ⟨none, [value.display], s'⟩
  | .block body, s =>
    let outer := s.current
    let r := Stmt.execAll body s.enter
    { r with after := r.after.leave outer }
  | .declare name none, s => .start (s.define name.lexeme .nil)
  | .declare name (some e), s =>
    Run.ofEvaluation e s fun value s' => .start (s'.define name.lexeme value)

def Stmt.execAll : List Stmt → Interpreter → Run
  | [], s => .start s
  | stmt :: rest, s => (stmt.exec s).andThen fun s' => Stmt.execAll rest s'

end

theorem Stmt.execAll_singleton (stmt : Stmt) (s : Interpreter) :
    execAll [stmt] s = stmt.exec s := by
  rw [execAll]
  rcases stmt.exec s with ⟨fault | fault, printed, after⟩
  · simp [execAll, Run.andThen, Run.start]
  · rfl

end Scriptlet
