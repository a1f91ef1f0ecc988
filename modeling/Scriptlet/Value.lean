import Scriptlet.Decimal.Display
import Scriptlet.Text.Quoted

/-!
# Values

What a literal stands for and what an expression gives: nil, a truth value, a number or a text.
-/

namespace Scriptlet

inductive Value where
  | nil
  | bool (b : Bool)
  | number (x : Float)
  | string (s : String)
deriving DecidableEq

namespace Value

/-- Nil and false are the values that count as false. -/
def truthy : Value → Bool
  | nil => false
  | bool b => b
  | number _ => true
  | string _ => true

/-- Equality as programs see it: values of two kinds differ, the two zeros are equal, and a number
that is none differs from itself. -/
def equals : Value → Value → Bool
  | nil, nil => true
  | bool a, bool b => a == b
  | number x, number y => x == y
  | string s, string t => s == t
  | _, _ => false

/-- The text that a program prints for a value. -/
def display : Value → String
  | nil => "nil"
  | bool b => if b then "true" else "false"
  | number x => Decimal.display .plain x
  | string s => s

/-- The text that shows a value together with its kind. -/
def describe : Value → String
  | nil => "None"
  | bool b => "Bool(" ++ (if b then "true" else "false") ++ ")"
  | number x => "Number(" ++ Decimal.display .detailed x ++ ")"
  | string s => "String(" ++ Text.quoted s ++ ")"

end Value

end Scriptlet
