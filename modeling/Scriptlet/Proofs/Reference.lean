import Scriptlet.Scopes
import Scriptlet.Syntax.Tree

/-!
# Reference semantics

What programs mean, by rules over a list of maps from names to values, the innermost first. The
rules of operators (`Reference.Unary`, `Reference.Binary`) and of names say where a program fails,
and with which words; those of expressions and statements only pass failures on.
-/

namespace Scriptlet

namespace Reference

/-- The maps of the scopes around a place, the innermost first. -/
abbrev Env : Type :=
  List Bindings

/-- Why a program stopped: the token at fault, and the words for it. -/
structure Failure where
  token : Token
  message : String

/-! ### Names -/

/-- The value of a name in the first map that holds it. -/
def lookup? : Env → String → Option Value
  | [], _ => none
  | names :: env, x => if x ∈ names then names[x]? else lookup? env x

/-- The maps with a new value for a name in the first map that holds it. -/
def assign? : Env → String → Value → Option Env
  | [], _, _ => none
  | names :: env, x, v =>
    if x ∈ names then some (names.insert x v :: env) else (assign? env x v).map (names :: ·)

/-- The maps with a value for a name in the head. -/
def define : Env → String → Value → Env
  | [], _, _ => []
  | names :: env, x, v => names.insert x v :: env

/-- A name that no map holds. -/
def undefined (name : Token) : Failure :=
  ⟨name, "Undefined variable '" ++ name.lexeme ++ "'."⟩

/-! ### Operators -/

/-- The operators that take two numbers, and what they make of them. -/
def onNumbers? : Kind → Option (Float → Float → Value)
  | .minus => some fun x y => .number (x - y)
  | .star => some fun x y => .number (x * y)
  | .slash => some fun x y => .number (x / y)
  | .greater => some fun x y => .bool (x > y)
  | .greaterEqual => some fun x y => .bool (x ≥ y)
  | .less => some fun x y => .bool (x < y)
  | .lessEqual => some fun x y => .bool (x ≤ y)
  | _ => none

/-- The value is a number. -/
def IsNumber (v : Value) : Prop :=
  ∃ x, v = .number x

/-- The value is a text. -/
def IsString (v : Value) : Prop :=
  ∃ s, v = .string s

/-- What a unary operator gives, or the words for why it gives nothing. -/
inductive Unary (operator : Token) : Value → Except String Value → Prop
  | minus (x : Float) (h : operator.kind = .minus) :
      Unary operator (.number x) (.ok (.number (-x)))
  | notNumber {v : Value} (h : operator.kind = .minus) (hv : ¬ IsNumber v) :
      Unary operator v (.error "Operand must be a number.")
  | bang (v : Value) (h : operator.kind = .bang) :
      Unary operator v (.ok (.bool (!v.truthy)))
  | unknown (v : Value) (h : operator.kind ∉ [.minus, .bang]) :
      Unary operator v (.error ("Unknown unary operator '" ++ operator.lexeme ++ "'."))

/-- What a binary operator gives, or the words for why it gives nothing. -/
inductive Binary (operator : Token) : Value → Value → Except String Value → Prop
  | add (x y : Float) (h : operator.kind = .plus) :
      Binary operator (.number x) (.number y) (.ok (.number (x + y)))
  | join (s t : String) (h : operator.kind = .plus) :
      Binary operator (.string s) (.string t) (.ok (.string (s ++ t)))
  | notAddable {v w : Value} (h : operator.kind = .plus) (hn : ¬ (IsNumber v ∧ IsNumber w))
      (hs : ¬ (IsString v ∧ IsString w)) :
      Binary operator v w (.error "Operands must be two numbers or two strings.")
  | numbers (x y : Float) {f : Float → Float → Value} (h : onNumbers? operator.kind = some f)
      (hz : ¬ (operator.kind = .slash ∧ (y == 0) = true)) :
      Binary operator (.number x) (.number y) (.ok (f x y))
  | zeroDivisor (x y : Float) (h : operator.kind = .slash) (hz : (y == 0) = true) :
      Binary operator (.number x) (.number y) (.error "Division by zero.")
  | notNumbers {v w : Value} (h : (onNumbers? operator.kind).isSome)
      (hn : ¬ (IsNumber v ∧ IsNumber w)) :
      Binary operator v w (.error "Operands must be numbers.")
  | equal (v w : Value) (h : operator.kind = .equalEqual) :
      Binary operator v w (.ok (.bool (v.equals w)))
  | notEqual (v w : Value) (h : operator.kind = .bangEqual) :
      Binary operator v w (.ok (.bool (!v.equals w)))
  | unknown (v w : Value) (h : operator.kind ∉ [.plus, .equalEqual, .bangEqual])
      (hn : onNumbers? operator.kind = none) :
      Binary operator v w (.error ("Unknown binary operator '" ++ operator.lexeme ++ "'."))

/-- What an operator gives, where the operator is the token at fault. -/
def blame (operator : Token) (r : Except String Value) : Except Failure Value :=
  r.mapError fun message => ⟨operator, message⟩

/-! ### Expressions and statements -/

/-- In the first maps an expression gives an outcome and leaves the second maps. -/
inductive Evaluates : Env → Expr → Except Failure Value → Env → Prop
  | literal {env : Env} (v : Value) : Evaluates env (.literal v) (.ok v) env
  | group {env env' : Env} {e : Expr} {r : Except Failure Value} (h : Evaluates env e r env') :
      Evaluates env (.group e) r env'
  | name {env : Env} {x : Token} {v : Value} (h : lookup? env x.lexeme = some v) :
      Evaluates env (.name x) (.ok v) env
  | undefinedName {env : Env} {x : Token} (h : lookup? env x.lexeme = none) :
      Evaluates env (.name x) (.error (undefined x)) env
  | unary {env env' : Env} {o : Token} {e : Expr} {v : Value} {r : Except String Value}
      (h : Evaluates env e (.ok v) env') (ho : Unary o v r) :
      Evaluates env (.unary o e) (blame o r) env'
  | unaryFails {env env' : Env} {o : Token} {e : Expr} {f : Failure}
      (h : Evaluates env e (.error f) env') : Evaluates env (.unary o e) (.error f) env'
  | binary {env env' env'' : Env} {o : Token} {left right : Expr} {v w : Value}
      {r : Except String Value} (hl : Evaluates env left (.ok v) env')
      (hr : Evaluates env' right (.ok w) env'') (ho : Binary o v w r) :
      Evaluates env (.binary left o right) (blame o r) env''
  | leftFails {env env' : Env} {o : Token} {left right : Expr} {f : Failure}
      (hl : Evaluates env left (.error f) env') :
      Evaluates env (.binary left o right) (.error f) env'
  | rightFails {env env' env'' : Env} {o : Token} {left right : Expr} {v : Value} {f : Failure}
      (hl : Evaluates env left (.ok v) env') (hr : Evaluates env' right (.error f) env'') :
      Evaluates env (.binary left o right) (.error f) env''
  | assign {env env' env'' : Env} {x : Token} {e : Expr} {v : Value}
      (h : Evaluates env e (.ok v) env') (ha : assign? env' x.lexeme v = some env'') :
      Evaluates env (.assign x e) (.ok v) env''
  | assignUndefined {env env' : Env} {x : Token} {e : Expr} {v : Value}
      (h : Evaluates env e (.ok v) env') (ha : assign? env' x.lexeme v = none) :
      Evaluates env (.assign x e) (.error (undefined x)) env'
  | assignFails {env env' : Env} {x : Token} {e : Expr} {f : Failure}
      (h : Evaluates env e (.error f) env') : Evaluates env (.assign x e) (.error f) env'

mutual

/-- In the first maps a statement ends in a failure or none, prints lines, and leaves the second
maps. -/
inductive Executes : Env → Stmt → Option Failure → List String → Env → Prop
  | expression {env env' : Env} {e : Expr} {v : Value} (h : Evaluates env e (.ok v) env') :
      Executes env (.expression e) none [] env'
  | expressionFails {env env' : Env} {e : Expr} {f : Failure}
      (h : Evaluates env e (.error f) env') : Executes env (.expression e) (some f) [] env'
  | print {env env' : Env} {e : Expr} {v : Value} (h : Evaluates env e (.ok v) env') :
      Executes env (.print e) none [v.display] env'
  | printFails {env env' : Env} {e : Expr} {f : Failure} (h : Evaluates env e (.error f) env') :
      Executes env (.print e) (some f) [] env'
  | declareNil {env : Env} (x : Token) :
      Executes env (.declare x none) none [] (define env x.lexeme .nil)
  | declare {env env' : Env} (x : Token) {e : Expr} {v : Value}
      (h : Evaluates env e (.ok v) env') :
      Executes env (.declare x (some e)) none [] (define env' x.lexeme v)
  | declareFails {env env' : Env} (x : Token) {e : Expr} {f : Failure}
      (h : Evaluates env e (.error f) env') :
      Executes env (.declare x (some e)) (some f) [] env'
  | block {env env' : Env} {names : Bindings} {body : List Stmt}
      {f : Option Failure} {printed : List String}
      (h : ExecutesAll (∅ :: env) body f printed (names :: env')) :
      Executes env (.block body) f printed env'

/-- The same for statements in order, up to the first that fails. -/
inductive ExecutesAll : Env → List Stmt → Option Failure → List String → Env → Prop
  | nil {env : Env} : ExecutesAll env [] none [] env
  | cons {env env' env'' : Env} {stmt : Stmt} {rest : List Stmt} {f : Option Failure}
      {printed printed' : List String} (h : Executes env stmt none printed env')
      (hr : ExecutesAll env' rest f printed' env'') :
      ExecutesAll env (stmt :: rest) f (printed ++ printed') env''
  | fails {env env' : Env} {stmt : Stmt} {rest : List Stmt} {f : Failure}
      {printed : List String} (h : Executes env stmt (some f) printed env') :
      ExecutesAll env (stmt :: rest) (some f) printed env'

end

end Reference

end Scriptlet
