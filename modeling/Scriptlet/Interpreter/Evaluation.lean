import Scriptlet.Interpreter.Basic
import Scriptlet.Interpreter.Operators

/-!
# Evaluation of expressions

Operands are evaluated from left to right, all of them before their operator looks at the values,
and an assigned value before its name is looked up. A fault ends the evaluation, and what was
assigned before it stays.
-/

namespace Scriptlet

/-- A computation that may assign to names and may end in a fault. -/
abbrev Evaluation : Type → Type :=
  EStateM Fault Interpreter

namespace Evaluation

/-- The value, or a fault at a token. -/
def faultAt (token : Token) : Except Fault.Cause Value → Evaluation Value
  | .ok value => pure value
  | .error cause => throw ⟨token, cause⟩

def read (name : Token) : Evaluation Value := fun s =>
  match s.read name with
  | .ok value => .ok value s
  | .error fault => .error fault s

def write (name : Token) (value : Value) : Evaluation Unit := fun s =>
  match s.write name value with
  | .ok s' => .ok () s'
  | .error fault => .error fault s

variable {α β : Type} {s s' : Interpreter}

theorem bind_of_ok {x : Evaluation α} {a : α} (h : x s = .ok a s') (f : α → Evaluation β) :
    (x >>= f) s = f a s' := by
  simp only [bind, EStateM.bind, h]

theorem bind_of_error {x : Evaluation α} {fault : Fault} (h : x s = .error fault s')
    (f : α → Evaluation β) : (x >>= f) s = .error fault s' := by
  simp only [bind, EStateM.bind, h]

end Evaluation

def Expr.eval : Expr → Evaluation Value
  | literal value => pure value
  | group inner => inner.eval
  | unary operator right => do
    let value ← right.eval
    Evaluation.faultAt operator (Value.unary operator.kind value)
  | binary left operator right => do
    let leftValue ← left.eval
    let rightValue ← right.eval
    Evaluation.faultAt operator (Value.binary operator.kind leftValue rightValue)
  | name token => Evaluation.read token
  | assign target e => do
    let value ← e.eval
    Evaluation.write target value
    pure value

end Scriptlet
