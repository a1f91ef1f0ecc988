import Scriptlet.Syntax.Expression
import Scriptlet.Syntax.Recovery

/-!
# Reading statements

A statement is a declaration, a print, a block, or an expression. A statement that cannot be read
is reported and left out; whatever happens, at least its first token is read, so that a program is
read to its end (`Stmt.parseAll`).
-/

namespace Scriptlet

namespace Stmt

/-- Reads the initial value of a declaration, if there is one. -/
def parseInitial : (tokens : List Token) → Attempt tokens (Option Expr)
  | [] => .done none
  | t :: after =>
    if t.kind = .equal then
      ((Expr.parse after).andThen fun e _ _ => .done (some e)).past
    else .done none

/-- Reads a declaration after its `var`. -/
def parseDeclaration (tokens : List Token) : Attempt tokens Stmt :=
  (Reading.expect .identifier .variableName tokens).andThen fun name rest _ =>
    (parseInitial rest).andThen fun initial rest _ =>
      (Reading.expect .semicolon .semicolonAfterDeclaration rest).andThen fun _ _ _ =>
        .done (.declare name initial)

/-- Reads a print statement after its `print`. -/
def parsePrint (tokens : List Token) : Attempt tokens Stmt :=
  (Expr.parse tokens).andThen fun e rest _ =>
    (Reading.expect .semicolon .semicolonAfterValue rest).andThen fun _ _ _ =>
      .done (.print e)

def parseExpression (tokens : List Token) : Attempt tokens Stmt :=
  (Expr.parse tokens).andThen fun e rest _ =>
    (Reading.expect .semicolon .semicolonAfterExpression rest).andThen fun _ _ _ =>
      .done (.expression e)

theorem length_rest_parseExpression {tokens : List Token} {s : Stmt}
    (h : (parseExpression tokens).value = .ok s) :
    (parseExpression tokens).rest.length < tokens.length := by
  unfold parseExpression at h ⊢
  rcases he : (Expr.parse tokens).value with cause | e
  · simp [Reading.andThen_of_error he] at h
  rw [Reading.andThen_of_ok he] at h ⊢
  simp only [Reading.bind] at h ⊢
  have hr := (Expr.parse tokens).suffix.length_le
  generalize (Expr.parse tokens).rest = rest at h hr ⊢
  rcases hs : (Reading.expect .semicolon .semicolonAfterExpression rest).value with cause | t
  · simp [Reading.andThen_of_error hs] at h
  rw [Reading.andThen_of_ok hs] at h ⊢
  have := Reading.length_rest_expect hs
  simp only [Reading.bind, Reading.done, Reading.rest_here]
  omega

/-- Unless it starts a `var` or `print` statement, the first token is read with the expression
statement there, or dropped. -/
theorem rest_recover_parseExpression {t : Token} {after : List Token} (hv : t.kind ≠ .kwVar)
    (hp : t.kind ≠ .kwPrint) : (parseExpression (t :: after)).recover.rest <:+ after := by
  have hs := (parseExpression (t :: after)).suffix
  rcases h : (parseExpression (t :: after)).value with cause | s
  · rw [Reading.recover_of_error h]
    rcases List.suffix_cons_iff.1 hs with hr | hr
    · simpa only [hr] using Reading.resume_cons_suffix hv hp
    · exact (Reading.resume_suffix _).trans hr
  · rw [Reading.recover_of_ok h]
    have hl := length_rest_parseExpression h
    rcases List.suffix_cons_iff.1 hs with hr | hr
    · simp [hr] at hl
    · exact hr

mutual

/-- Reads the statement that starts with `t`; nothing is given for one that cannot be read. -/
def parse (t : Token) (after : List Token) : Reading after (Option Stmt) :=
  if hv : t.kind = .kwVar then (parseDeclaration after).recover
  else if hp : t.kind = .kwPrint then (parsePrint after).recover
  else if t.kind = .leftBrace then
    ((parseBlock after).andThen fun body _ _ => .done (.block body)).recover
  else
    let r := (parseExpression (t :: after)).recover
    ⟨r.value, r.errors, r.rest, rest_recover_parseExpression hv hp⟩
termination_by (after.length, 1)

/-- Reads the statements of a block and the brace that closes it. -/
def parseBlock (tokens : List Token) : Attempt tokens (List Stmt) :=
  match tokens with
  | [] => .fail .closingBrace
  | t :: after =>
    if t.kind = .rightBrace then (Reading.done []).past
    else
      ((parse t after).bind fun s rest _ =>
        (parseBlock rest).andThen fun body _ _ => .done (s.toList ++ body)).past
termination_by (tokens.length, 0)
decreasing_by
  all_goals simp_wf
  all_goals try have := List.IsSuffix.length_le ‹_ <:+ after›
  all_goals simp [Prod.lex_def]
  all_goals omega

end

def parseAll (tokens : List Token) : Reading tokens (List Stmt) :=
  match tokens with
  | [] => .here []
  | t :: after =>
    ((parse t after).bind fun s rest _ =>
      (parseAll rest).bind fun program _ _ => .here (s.toList ++ program)).past
termination_by tokens.length
decreasing_by
  have := List.IsSuffix.length_le ‹_ <:+ after›
  simp
  omega

end Stmt

/-- What reading from a stream gives: a value, the errors in order, and the stream after it. -/
structure Parsed (α : Type) where
  value : α
  errors : List SyntaxError
  stream : TokenStream

namespace TokenStream

/-- Reads the rest of a stream as a program; statements that cannot be read are left out. -/
def program (s : TokenStream) : Parsed (List Stmt) :=
  let r := Stmt.parseAll s.ahead
  ⟨r.value, r.errors, { s with ahead := r.rest }⟩

/-- Reads the rest of a stream as one expression. On an error the stream stays where it is. -/
def expression (s : TokenStream) : Parsed (Option Expr) :=
  let r := Expr.parse s.ahead
  let stream := { s with ahead := r.rest }
  match r.value with
  | .error cause => ⟨none, r.errors ++ [⟨cause, r.rest⟩], stream⟩
  | .ok e =>
    if r.rest = [] then ⟨some e, r.errors, stream⟩
    else ⟨none, r.errors ++ [⟨.endOfExpression, r.rest⟩], stream⟩

end TokenStream

end Scriptlet
