import Scriptlet.Scopes
import Scriptlet.Syntax.Tree

/-!
# The interpreter's state

The open scopes and the one where names are looked up now. A fresh interpreter has one scope, the
global one.
-/

namespace Scriptlet

/-- What a running program can see and change. -/
structure Interpreter where
  scopes : Scopes
  current : ScopeId

namespace Interpreter

def globalScope : ScopeId :=
  0

/-- Only the global scope, with nothing bound. -/
def fresh : Interpreter :=
  ⟨Scopes.empty.openGlobal, globalScope⟩

def read (s : Interpreter) (name : Token) : Except Fault Value :=
  s.scopes.read s.current name

def write (s : Interpreter) (name : Token) (value : Value) : Except Fault Interpreter :=
  (s.scopes.write s.current name value).map fun scopes => { s with scopes }

def define (s : Interpreter) (name : String) (value : Value) : Interpreter :=
  { s with scopes := s.scopes.define s.current name value }

/-- Opens a scope within the current one and goes into it. -/
def enter (s : Interpreter) : Interpreter :=
  ⟨s.scopes.openWithin s.current, s.scopes.next⟩

/-- Closes the current scope and goes back to `outer`. -/
def leave (s : Interpreter) (outer : ScopeId) : Interpreter :=
  ⟨s.scopes.close, outer⟩

end Interpreter

end Scriptlet
