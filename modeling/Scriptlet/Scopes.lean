import Scriptlet.Fault
import Std.Data.ExtHashMap

/-!
# Scopes

A scope binds names to values and lies within other scopes, its chain. A name is looked up and
assigned in the nearest scope of the chain that binds it (`Scopes.owner?`); a definition always
binds it in the scope itself.
-/

namespace Scriptlet

-- What maps from names ask of texts, found once for all of them.
instance equivBEqString : EquivBEq String :=
  inferInstance

instance lawfulHashableString : LawfulHashable String :=
  inferInstance

abbrev Bindings : Type :=
  Std.ExtHashMap String Value

/-- A scope is named by its place in the order of opening. -/
abbrev ScopeId : Type :=
  Nat

/-- The names bound in a scope, and the scopes around it, the innermost first. -/
structure Scope where
  enclosing : List ScopeId
  names : Bindings

structure Scopes where
  all : Array Scope

namespace Scopes

def empty : Scopes :=
  ⟨#[]⟩

/-- The name of the next scope to be opened. -/
def next (s : Scopes) : ScopeId :=
  s.all.size

/-- The scope and those around it, the innermost first. -/
def chain (s : Scopes) (i : ScopeId) : List ScopeId :=
  match s.all[i]? with
  | some scope => i :: scope.enclosing
  | none => []

/-- Opens a scope with none around it. -/
def openGlobal (s : Scopes) : Scopes :=
  ⟨s.all.push ⟨[], ∅⟩⟩

def openWithin (s : Scopes) (i : ScopeId) : Scopes :=
  ⟨s.all.push ⟨s.chain i, ∅⟩⟩

def close (s : Scopes) : Scopes :=
  ⟨s.all.pop⟩

/-- The value that a scope itself binds a name to. -/
def here? (s : Scopes) (i : ScopeId) (name : String) : Option Value :=
  s.all[i]?.bind fun scope => scope.names[name]?

/-- Binds a name in a scope, in place of what it was bound to there. -/
def define (s : Scopes) (i : ScopeId) (name : String) (value : Value) : Scopes :=
  ⟨s.all.modify i fun scope => { scope with names := scope.names.insert name value }⟩

/-- The nearest scope of a chain that binds a name. -/
def owner? (s : Scopes) (i : ScopeId) (name : String) : Option ScopeId :=
  (s.chain i).find? fun j => (s.here? j name).isSome

/-- The value of a name as seen from a scope. -/
def get? (s : Scopes) (i : ScopeId) (name : String) : Option Value :=
  (s.owner? i name).bind fun j => s.here? j name

/-- Gives a name a new value where it is bound; a name that is bound nowhere stays so. -/
def assign? (s : Scopes) (i : ScopeId) (name : String) (value : Value) : Option Scopes :=
  (s.owner? i name).map fun j => s.define j name value

/-- Looks up the name that a token writes. -/
def read (s : Scopes) (i : ScopeId) (name : Token) : Except Fault Value :=
  match s.get? i name.lexeme with
  | some value => .ok value
  | none => .error ⟨name, .undefinedName⟩

/-- Assigns to the name that a token writes. -/
def write (s : Scopes) (i : ScopeId) (name : Token) (value : Value) : Except Fault Scopes :=
  match s.assign? i name.lexeme value with
  | some s' => .ok s'
  | none => .error ⟨name, .undefinedName⟩

end Scopes

end Scriptlet
