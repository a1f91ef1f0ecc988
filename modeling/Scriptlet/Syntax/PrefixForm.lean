import Scriptlet.Syntax.Tree

/-!
# The prefix form of a tree

Every node is written in parentheses, its operator first: `(* (- 123) (group 45.67))`.
-/

namespace Scriptlet

def Expr.prefixForm : Expr → String
  | literal value => value.display
  | group inner => "(group " ++ inner.prefixForm ++ ")"
  | unary operator right => "(" ++ operator.lexeme ++ " " ++ right.prefixForm ++ ")"
  | binary left operator right =>
    "(" ++ operator.lexeme ++ " " ++ left.prefixForm ++ " " ++ right.prefixForm ++ ")"
  | name token => token.lexeme
  | assign target value => "(= " ++ target.lexeme ++ " " ++ value.prefixForm ++ ")"

mutual

def Stmt.prefixForm : Stmt → String
  | .expression e => "(; " ++ e.prefixForm ++ ")"
  | .print e => "(print " ++ e.prefixForm ++ ")"
  | .block body => "(block" ++ Stmt.prefixForms body ++ ")"
  | .declare name none => "(var " ++ name.lexeme ++ ")"
  | .declare name (some e) => "(var " ++ name.lexeme ++ " " ++ e.prefixForm ++ ")"

/-- The prefix forms of statements, a space before each. -/
def Stmt.prefixForms : List Stmt → String
  | [] => ""
  | s :: rest => " " ++ s.prefixForm ++ Stmt.prefixForms rest

end

end Scriptlet
