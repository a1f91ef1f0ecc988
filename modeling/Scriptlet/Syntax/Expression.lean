import Scriptlet.Syntax.Reading
import Scriptlet.Syntax.Tree

/-!
# Reading expressions

An expression is an assignment, or binary operators over operands, by levels of precedence
(`Expr.levels`): an operator of one level takes operands of the tighter levels and associates to
the left. An assignment associates to the right; a left side that is no name is reported at the
`=` once the right side is read, and stands for the whole.
-/

namespace Scriptlet

namespace Expr

/-- The binary operators by level, the loosest first. -/
def levels : List (List Kind) :=
  [[.bangEqual, .equalEqual], [.greater, .greaterEqual, .less, .lessEqual], [.minus, .plus],
   [.slash, .star]]

/-- The tree of an assignment, with an error at the `=` if its left side is no name. -/
def assignTo (target : Expr) (equals : Token) (after : List Token) (value : Expr)
    {rest : List Token} : Attempt rest Expr :=
  match target with
  | .name token => .done (.assign token value)
  | other => ⟨.ok other, [⟨.assignmentTarget, equals :: after⟩], rest, List.suffix_rfl⟩

mutual

def parse (tokens : List Token) : Attempt tokens Expr :=
  (parseLevels levels tokens).andThen fun target rest _ =>
    match rest with
    | [] => .done target
    | equals :: after =>
      if equals.kind = .equal then
        ((parse after).andThen fun value _ _ => assignTo target equals after value).past
      else .done target
termination_by (tokens.length, 2 * levels.length + 4)
decreasing_by
  · exact Prod.Lex.right _ (by omega)
  · have hlength := List.IsSuffix.length_le ‹_ <:+ tokens›
    exact Prod.Lex.left _ _ hlength

/-- Reads operators of the given levels over operands. -/
def parseLevels (ops : List (List Kind)) (tokens : List Token) : Attempt tokens Expr :=
  match ops with
  | [] => parseOperand tokens
  | level :: tighter =>
    (parseLevels tighter tokens).andThen fun left rest _ => parseMore level tighter left rest
termination_by (tokens.length, 2 * ops.length + 1)
decreasing_by
  all_goals simp_wf
  all_goals try have := List.IsSuffix.length_le ‹_ <:+ tokens›
  all_goals simp [Prod.lex_def]
  all_goals omega

/-- Reads further operators of one level, each with its right operand, onto a left operand. -/
def parseMore (level : List Kind) (tighter : List (List Kind)) (left : Expr)
    (tokens : List Token) : Attempt tokens Expr :=
  match tokens with
  | [] => .done left
  | operator :: after =>
    if operator.kind ∈ level then
      ((parseLevels tighter after).andThen fun right rest _ =>
        parseMore level tighter (.binary left operator right) rest).past
    else .done left
termination_by (tokens.length, 2 * tighter.length + 2)
decreasing_by
  all_goals simp_wf
  all_goals try have := List.IsSuffix.length_le ‹_ <:+ after›
  all_goals simp [Prod.lex_def]
  all_goals omega

/-- Reads an operand: a literal, a name, an expression in parentheses, or one of these after unary
operators. -/
def parseOperand (tokens : List Token) : Attempt tokens Expr :=
  match tokens with
  | [] => .fail .expression
  | t :: after =>
    match t.kind with
    | .bang | .minus =>
      ((parseOperand after).andThen fun right _ _ => .done (.unary t right)).past
    | .kwFalse => (Reading.done (.literal (.bool false))).past
    | .kwTrue => (Reading.done (.literal (.bool true))).past
    | .kwNil => (Reading.done (.literal .nil)).past
    | .number | .string => (Reading.done (.literal t.literal)).past
    | .identifier => (Reading.done (.name t)).past
    | .leftParen =>
      ((parse after).andThen fun inner rest _ =>
        (Reading.expect .rightParen .closingParen rest).andThen fun _ _ _ =>
          .done (.group inner)).past
    | _ => .fail .expression
termination_by (tokens.length, 0)

end

end Expr

end Scriptlet
