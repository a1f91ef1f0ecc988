import Scriptlet.Fault

/-!
# Operators on values

What each operator gives for the values of its operands, or why it gives nothing.
-/

namespace Scriptlet

namespace Value

/-- Two numbers are added, two texts are joined. -/
def add : Value → Value → Except Fault.Cause Value
  | number x, number y => .ok (number (x + y))
  | string s, string t => .ok (string (s ++ t))
  | _, _ => .error .notAddable

/-- Applies a function of two numbers. -/
def onNumbers (f : Float → Float → Except Fault.Cause Value) :
    Value → Value → Except Fault.Cause Value
  | number x, number y => f x y
  | _, _ => .error .notNumbers

/-- The quotient; either zero divides nothing. -/
def divide (x y : Float) : Except Fault.Cause Value :=
  if y == 0 then .error .zeroDivisor else .ok (number (x / y))

def binary (operator : Kind) (left right : Value) : Except Fault.Cause Value :=
  match operator with
  | .plus => add left right
  | .minus => onNumbers (fun x y => .ok (number (x - y))) left right
  | .star => onNumbers (fun x y => .ok (number (x * y))) left right
  | .slash => onNumbers divide left right
  | .greater => onNumbers (fun x y => .ok (bool (x > y))) left right
  | .greaterEqual => onNumbers (fun x y => .ok (bool (x ≥ y))) left right
  | .less => onNumbers (fun x y => .ok (bool (x < y))) left right
  | .lessEqual => onNumbers (fun x y => .ok (bool (x ≤ y))) left right
  | .bangEqual => .ok (bool (!left.equals right))
  | .equalEqual => .ok (bool (left.equals right))
  | _ => .error .unknownBinary

def unary (operator : Kind) (right : Value) : Except Fault.Cause Value :=
  match operator, right with
  | .minus, number x => .ok (number (-x))
  | .minus, _ => .error .notNumber
  | .bang, value => .ok (bool (!value.truthy))
  | _, _ => .error .unknownUnary

end Value

end Scriptlet
