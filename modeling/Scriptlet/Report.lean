import Scriptlet.Fault
import Scriptlet.Source.Scan
import Scriptlet.Syntax.Reading

/-!
# Reports

Errors in a source and faults of a program are reported to the user in one form, each with its
line. `Diagnostics` keeps the reports since the last reset, with a flag for each sort of them.
-/

namespace Scriptlet

/-- Where a report comes from: the segments of a source, its syntax, or a running program. -/
inductive Report.Kind where
  | lexical
  | syntactic
  | runtime
deriving DecidableEq

/-- What a report points at beside its line. -/
inductive Report.Location where
  | nowhere
  | atEnd
  | atLexeme (lexeme : String)
deriving DecidableEq

def Report.Location.text : Report.Location → String
  | nowhere => ""
  | atEnd => " at end"
  | atLexeme lexeme => " at '" ++ lexeme ++ "'"

/-- What the user is told about an error. -/
structure Report where
  kind : Report.Kind
  line : Nat
  location : Report.Location
  message : String
deriving DecidableEq

namespace Report

def text (r : Report) : String :=
  match r.kind with
  | .lexical | .syntactic => s!"[line {r.line}] Error{r.location.text}: {r.message}"
  | .runtime => s!"{r.message}\n[line {r.line}]"

def lexical (line : Nat) (message : String) : Report :=
  ⟨.lexical, line, .nowhere, message⟩

def syntactic (t : Token) (message : String) : Report :=
  ⟨.syntactic, t.line, if t.kind = .eof then .atEnd else .atLexeme t.lexeme, message⟩

def runtime (t : Token) (message : String) : Report :=
  ⟨.runtime, t.line, .nowhere, message⟩

def ofLexicalError (e : LexicalError) : Report :=
  lexical e.line e.cause.message

/-- The report of a syntax error in a source that ends with `final`. -/
def ofSyntaxError (final : Token) (e : SyntaxError) : Report :=
  syntactic (e.site.head?.getD final) e.cause.message

def ofFault (f : Fault) : Report :=
  runtime f.token f.message

end Report

/-- The reports since the last reset, and whether an error in a source or a fault of a program was
among them. -/
structure Diagnostics where
  hadError : Bool := false
  hadFault : Bool := false
  reports : List Report := []
deriving DecidableEq

namespace Diagnostics

def addError (d : Diagnostics) (r : Report) : Diagnostics :=
  { d with hadError := true, reports := d.reports ++ [r] }

def addErrors (d : Diagnostics) (rs : List Report) : Diagnostics :=
  rs.foldl addError d

def addFault (d : Diagnostics) (r : Report) : Diagnostics :=
  { d with hadFault := true, reports := d.reports ++ [r] }

def reset (d : Diagnostics) : Diagnostics :=
  { d with hadError := false, hadFault := false, reports := [] }

end Diagnostics

end Scriptlet
