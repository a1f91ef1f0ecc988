import Scriptlet.Token.Basic

/-!
# Syntax trees

Expressions and statements. Operators and names are kept as the tokens that wrote them, so that a
fault can name its place.
-/

namespace Scriptlet

inductive Expr where
  | literal (value : Value)
  | group (inner : Expr)
  | unary (operator : Token) (right : Expr)
  | binary (left : Expr) (operator : Token) (right : Expr)
  | name (token : Token)
  | assign (target : Token) (value : Expr)
deriving DecidableEq

inductive Stmt where
  | expression (e : Expr)
  | print (e : Expr)
  | block (body : List Stmt)
  | declare (name : Token) (initial : Option Expr)

end Scriptlet
