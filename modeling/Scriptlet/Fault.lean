import Scriptlet.Token.Basic

/-!
# Faults of a running program

A fault stops a program. It belongs to a token: an operator whose operands do not suit it, or a
name that is bound nowhere.
-/

namespace Scriptlet

inductive Fault.Cause where
  | undefinedName
  | notAddable
  | notNumbers
  | notNumber
  | zeroDivisor
  | unknownBinary
  | unknownUnary
deriving DecidableEq

structure Fault where
  token : Token
  cause : Fault.Cause
deriving DecidableEq

def Fault.message (f : Fault) : String :=
  match f.cause with
  | .undefinedName => "Undefined variable '" ++ f.token.lexeme ++ "'."
  | .notAddable => "Operands must be two numbers or two strings."
  | .notNumbers => "Operands must be numbers."
  | .notNumber => "Operand must be a number."
  | .zeroDivisor => "Division by zero."
  | .unknownBinary => "Unknown binary operator '" ++ f.token.lexeme ++ "'."
  | .unknownUnary => "Unknown unary operator '" ++ f.token.lexeme ++ "'."

end Scriptlet
