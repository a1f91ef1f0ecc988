import Scriptlet.Session

/-!
# Other lines

Lines serve reports only. Tokens whose lines are changed by a function `g` are read alike, into
trees and errors with lines changed by `g` (`Relining.relined_parseAll`), and a program with changed
lines runs alike, up to the line of its fault (`Relining.execAll_reline`).
-/

namespace Scriptlet

variable (g : Nat → Nat)

/-- The token on another line. -/
def Token.reline (t : Token) : Token :=
  { t with line := g t.line }

def Expr.reline : Expr → Expr
  | literal value => literal value
  | group inner => group inner.reline
  | unary operator right => unary (operator.reline g) right.reline
  | binary left operator right => binary left.reline (operator.reline g) right.reline
  | name token => name (token.reline g)
  | assign target value => assign (target.reline g) value.reline

mutual

def Stmt.reline : Stmt → Stmt
  | expression e => expression (e.reline g)
  | print e => print (e.reline g)
  | block body => block (Stmt.relineAll body)
  | declare name initial => declare (name.reline g) (initial.map (Expr.reline g))

def Stmt.relineAll : List Stmt → List Stmt
  | [] => []
  | stmt :: rest => stmt.reline :: Stmt.relineAll rest

end

def SyntaxError.reline (e : SyntaxError) : SyntaxError :=
  { e with site := e.site.map (Token.reline g) }

def Fault.reline (f : Fault) : Fault :=
  { f with token := f.token.reline g }

def Report.reline (r : Report) : Report :=
  { r with line := g r.line }

namespace Relining

open Reading

variable {g : Nat → Nat} {α α' β β' : Type} {tokens tokens' : List Token}

/-- The second reading is the first one with other lines, where `m` changes the lines of values. -/
def Relined (g : Nat → Nat) (m : α → α') (r : Reading tokens α) (r' : Reading tokens' α') : Prop :=
  r'.value = m r.value ∧ r'.errors = r.errors.map (SyntaxError.reline g)
    ∧ r'.rest = r.rest.map (Token.reline g)

theorem relined_here (h : tokens' = tokens.map (Token.reline g)) (m : α → α') (a : α) :
    Relined g m (here a : Reading tokens α) (here (m a) : Reading tokens' α') :=
  ⟨rfl, rfl, h⟩

theorem relined_done (h : tokens' = tokens.map (Token.reline g)) (m : α → α') (a : α) :
    Relined g (Except.map m) (done a : Attempt tokens α) (done (m a) : Attempt tokens' α') :=
  ⟨rfl, rfl, h⟩

theorem relined_fail (h : tokens' = tokens.map (Token.reline g)) (m : α → α')
    (cause : SyntaxError.Cause) :
    Relined g (Except.map m) (fail cause : Attempt tokens α) (fail cause : Attempt tokens' α') :=
  ⟨rfl, rfl, h⟩

theorem Relined.past {m : α → α'} {r : Reading tokens α} {r' : Reading tokens' α'} {t t' : Token}
    (h : Relined g m r r') :
    Relined g m (r.past : Reading (t :: tokens) α) (r'.past : Reading (t' :: tokens') α') :=
  h

theorem Relined.bind {m : α → α'} {n : β → β'} {r : Reading tokens α} {r' : Reading tokens' α'}
    {f : α → (rest : List Token) → rest <:+ tokens → Reading rest β}
    {f' : α' → (rest : List Token) → rest <:+ tokens' → Reading rest β'} (h : Relined g m r r')
    (hf : ∀ a rest (hs : rest <:+ tokens) (hs' : rest.map (Token.reline g) <:+ tokens'),
      Relined g n (f a rest hs) (f' (m a) (rest.map (Token.reline g)) hs')) :
    Relined g n (r.bind f) (r'.bind f') := by
  obtain ⟨value, errors, rest, hs⟩ := r'
  obtain ⟨rfl, rfl, rfl⟩ := h
  obtain ⟨hv, he, hr⟩ := hf r.value r.rest r.suffix hs
  refine ⟨hv, ?_, hr⟩
  simp only [Reading.bind, he, List.map_append]

theorem Relined.andThen {m : α → α'} {n : β → β'} {r : Attempt tokens α}
    {r' : Attempt tokens' α'} {f : α → (rest : List Token) → rest <:+ tokens → Attempt rest β}
    {f' : α' → (rest : List Token) → rest <:+ tokens' → Attempt rest β'}
    (h : Relined g (Except.map m) r r')
    (hf : ∀ a rest (hs : rest <:+ tokens) (hs' : rest.map (Token.reline g) <:+ tokens'),
      Relined g (Except.map n) (f a rest hs) (f' (m a) (rest.map (Token.reline g)) hs')) :
    Relined g (Except.map n) (r.andThen f) (r'.andThen f') := by
  refine h.bind fun a rest hs hs' => ?_
  cases a with
  | ok a => exact hf a rest hs hs'
  | error cause => exact relined_fail rfl n cause

theorem relined_expect (kind : Kind) (cause : SyntaxError.Cause) (tokens : List Token) :
    Relined g (Except.map (Token.reline g)) (expect kind cause tokens)
      (expect kind cause (tokens.map (Token.reline g))) := by
  cases tokens with
  | nil => exact relined_fail rfl _ cause
  | cons t after =>
    show Relined g _ (expect kind cause (t :: after))
      (expect kind cause (t.reline g :: after.map (Token.reline g)))
    have hkind : (t.reline g).kind = t.kind := rfl
    simp only [expect, hkind]
    split
    · exact (relined_done rfl _ t).past
    · exact relined_fail rfl _ cause

/-! ### Recovery -/

theorem skip_map : ∀ (dropped : Token) (tokens : List Token),
    skip (dropped.reline g) (tokens.map (Token.reline g))
      = (skip dropped tokens).map (Token.reline g)
  | _, [] => rfl
  | dropped, t :: after => by
    have hkind : (t.reline g).kind = t.kind := rfl
    have hdropped : (dropped.reline g).kind = dropped.kind := rfl
    simp only [List.map_cons, skip, hkind, hdropped, skip_map t after]
    split <;> rfl

theorem resume_map (tokens : List Token) :
    resume (tokens.map (Token.reline g)) = (resume tokens).map (Token.reline g) := by
  cases tokens with
  | nil => rfl
  | cons t after =>
    have hkind : (t.reline g).kind = t.kind := rfl
    simp only [List.map_cons, resume, hkind, skip_map]
    split <;> rfl

theorem Relined.recover {m : α → α'} {r : Attempt tokens α} {r' : Attempt tokens' α'}
    (h : Relined g (Except.map m) r r') : Relined g (Option.map m) r.recover r'.recover := by
  obtain ⟨hv, he, hr⟩ := h
  cases hvalue : r.value with
  | ok a =>
    rw [hvalue] at hv
    rw [recover_of_ok hvalue, recover_of_ok hv]
    exact ⟨rfl, he, hr⟩
  | error cause =>
    rw [hvalue] at hv
    rw [recover_of_error hvalue, recover_of_error hv]
    refine ⟨rfl, ?_, ?_⟩
    · simp only [he, hr, List.map_append]
      rfl
    · show resume r'.rest = _
      rw [hr, resume_map]

/-! ### Expressions -/

theorem relined_assignTo (target value : Expr) (equals : Token) (after rest : List Token) :
    Relined g (Except.map (Expr.reline g))
      (Expr.assignTo target equals after value : Attempt rest Expr)
      (Expr.assignTo (target.reline g) (equals.reline g) (after.map (Token.reline g))
        (value.reline g) : Attempt (rest.map (Token.reline g)) Expr) := by
  cases target <;> exact ⟨rfl, rfl, rfl⟩

mutual

theorem relined_parse (tokens : List Token) :
    Relined g (Except.map (Expr.reline g)) (Expr.parse tokens)
      (Expr.parse (tokens.map (Token.reline g))) := by
  rw [Expr.parse, Expr.parse]
  refine (relined_parseLevels Expr.levels tokens).andThen fun target rest hs hs' => ?_
  have hle := hs.length_le
  match rest, hle with
  | [], _ => exact relined_done rfl _ target
  | equals :: after, hle =>
    show Relined g _ (if equals.kind = .equal then _ else _) (if equals.kind = .equal then _ else _)
    split
    · have hlt : after.length < tokens.length := hle
      refine Relined.past ((relined_parse after).andThen fun value rest _ _ => ?_)
      exact relined_assignTo target value equals after rest
    · exact relined_done rfl _ target
termination_by (tokens.length, 2 * Expr.levels.length + 4)

theorem relined_parseLevels : ∀ (ops : List (List Kind)) (tokens : List Token),
    Relined g (Except.map (Expr.reline g)) (Expr.parseLevels ops tokens)
      (Expr.parseLevels ops (tokens.map (Token.reline g)))
  | [], tokens => by
    rw [Expr.parseLevels, Expr.parseLevels]
    exact relined_parseOperand tokens
  | level :: tighter, tokens => by
    rw [Expr.parseLevels, Expr.parseLevels]
    refine (relined_parseLevels tighter tokens).andThen fun left rest hs _ => ?_
    have hle := hs.length_le
    exact relined_parseMore level tighter left rest
termination_by ops tokens => (tokens.length, 2 * ops.length + 1)
decreasing_by
  all_goals simp_wf
  all_goals simp [Prod.lex_def]
  all_goals omega

theorem relined_parseMore (level : List Kind) (tighter : List (List Kind)) :
    ∀ (left : Expr) (tokens : List Token),
    Relined g (Except.map (Expr.reline g)) (Expr.parseMore level tighter left tokens)
      (Expr.parseMore level tighter (left.reline g) (tokens.map (Token.reline g)))
  | left, [] => by
    show Relined g _ (Expr.parseMore _ _ _ []) (Expr.parseMore _ _ _ [])
    rw [Expr.parseMore, Expr.parseMore]
    exact relined_done rfl _ left
  | left, operator :: after => by
    show Relined g _ (Expr.parseMore _ _ _ (operator :: after))
      (Expr.parseMore _ _ _ (operator.reline g :: after.map (Token.reline g)))
    have hkind : (operator.reline g).kind = operator.kind := rfl
    rw [Expr.parseMore, Expr.parseMore, hkind]
    split
    · refine Relined.past ((relined_parseLevels tighter after).andThen fun right rest hs _ => ?_)
      have hlt : rest.length < (operator :: after).length := Nat.lt_succ_of_le hs.length_le
      exact relined_parseMore level tighter (.binary left operator right) rest
    · exact relined_done rfl _ left
termination_by _ tokens => (tokens.length, 2 * tighter.length + 2)

theorem relined_parseOperand : ∀ tokens : List Token,
    Relined g (Except.map (Expr.reline g)) (Expr.parseOperand tokens)
      (Expr.parseOperand (tokens.map (Token.reline g)))
  | [] => by
    show Relined g _ (Expr.parseOperand []) (Expr.parseOperand [])
    rw [Expr.parseOperand]
    exact relined_fail rfl _ _
  | t :: after => by
    show Relined g _ (Expr.parseOperand (t :: after))
      (Expr.parseOperand (t.reline g :: after.map (Token.reline g)))
    have hkind : (t.reline g).kind = t.kind := rfl
    rw [Expr.parseOperand, Expr.parseOperand, hkind]
    split
    case h_1 | h_2 =>
      exact ((relined_parseOperand after).andThen fun right _ _ _ =>
        relined_done rfl _ (Expr.unary t right)).past
    case h_3 => exact (relined_done rfl _ (Expr.literal (.bool false))).past
    case h_4 => exact (relined_done rfl _ (Expr.literal (.bool true))).past
    case h_5 => exact (relined_done rfl _ (Expr.literal Value.nil)).past
    case h_6 | h_7 => exact (relined_done rfl _ (Expr.literal t.literal)).past
    case h_8 => exact (relined_done rfl _ (Expr.name t)).past
    case h_9 =>
      refine Relined.past ((relined_parse after).andThen fun inner rest _ _ => ?_)
      exact (relined_expect _ _ rest).andThen fun _ _ _ _ => relined_done rfl _ (Expr.group inner)
    case h_10 => exact relined_fail rfl _ _
termination_by tokens => (tokens.length, 0)

end

/-! ### Statements -/

theorem relined_parseInitial (tokens : List Token) :
    Relined g (Except.map (Option.map (Expr.reline g))) (Stmt.parseInitial tokens)
      (Stmt.parseInitial (tokens.map (Token.reline g))) := by
  cases tokens with
  | nil => exact relined_done rfl _ none
  | cons equals after =>
    show Relined g _ (if equals.kind = .equal then _ else _) (if equals.kind = .equal then _ else _)
    split
    · exact ((relined_parse after).andThen fun e _ _ _ => relined_done rfl _ (some e)).past
    · exact relined_done rfl _ none

theorem relined_parseDeclaration (tokens : List Token) :
    Relined g (Except.map (Stmt.reline g)) (Stmt.parseDeclaration tokens)
      (Stmt.parseDeclaration (tokens.map (Token.reline g))) := by
  rw [Stmt.parseDeclaration, Stmt.parseDeclaration]
  refine (relined_expect _ _ tokens).andThen fun name rest _ _ => ?_
  refine (relined_parseInitial rest).andThen fun initial rest _ _ => ?_
  exact (relined_expect _ _ rest).andThen fun _ _ _ _ =>
    relined_done rfl _ (Stmt.declare name initial)

theorem relined_parsePrint (tokens : List Token) :
    Relined g (Except.map (Stmt.reline g)) (Stmt.parsePrint tokens)
      (Stmt.parsePrint (tokens.map (Token.reline g))) := by
  rw [Stmt.parsePrint, Stmt.parsePrint]
  refine (relined_parse tokens).andThen fun e rest _ _ => ?_
  exact (relined_expect _ _ rest).andThen fun _ _ _ _ => relined_done rfl _ (Stmt.print e)

theorem relined_parseExpression (tokens : List Token) :
    Relined g (Except.map (Stmt.reline g)) (Stmt.parseExpression tokens)
      (Stmt.parseExpression (tokens.map (Token.reline g))) := by
  rw [Stmt.parseExpression, Stmt.parseExpression]
  refine (relined_parse tokens).andThen fun e rest _ _ => ?_
  exact (relined_expect _ _ rest).andThen fun _ _ _ _ => relined_done rfl _ (Stmt.expression e)

theorem relineAll_toList_append (o : Option Stmt) (program : List Stmt) :
    Stmt.relineAll g (o.toList ++ program)
      = (o.map (Stmt.reline g)).toList ++ Stmt.relineAll g program := by
  cases o <;> rfl

mutual

theorem relined_parseStmt (t : Token) (after : List Token) :
    Relined g (Option.map (Stmt.reline g)) (Stmt.parse t after)
      (Stmt.parse (t.reline g) (after.map (Token.reline g))) := by
  have hkind : (t.reline g).kind = t.kind := rfl
  rw [Stmt.parse, Stmt.parse]
  by_cases hv : t.kind = .kwVar
  · rw [dif_pos hv, dif_pos (hkind.trans hv)]
    exact (relined_parseDeclaration after).recover
  rw [dif_neg hv, dif_neg (fun h => hv (hkind.symm.trans h))]
  by_cases hp : t.kind = .kwPrint
  · rw [dif_pos hp, dif_pos (hkind.trans hp)]
    exact (relined_parsePrint after).recover
  rw [dif_neg hp, dif_neg (fun h => hp (hkind.symm.trans h))]
  by_cases hb : t.kind = .leftBrace
  · rw [if_pos hb, if_pos (hkind.trans hb)]
    exact Relined.recover ((relined_parseBlock after).andThen fun body _ _ _ =>
      relined_done rfl _ (Stmt.block body))
  · rw [if_neg hb, if_neg (fun h => hb (hkind.symm.trans h))]
    exact (relined_parseExpression (t :: after)).recover
termination_by (after.length, 1)

theorem relined_parseBlock : ∀ tokens : List Token,
    Relined g (Except.map (Stmt.relineAll g)) (Stmt.parseBlock tokens)
      (Stmt.parseBlock (tokens.map (Token.reline g)))
  | [] => by
    show Relined g _ (Stmt.parseBlock []) (Stmt.parseBlock [])
    rw [Stmt.parseBlock]
    exact relined_fail rfl _ _
  | t :: after => by
    show Relined g _ (Stmt.parseBlock (t :: after))
      (Stmt.parseBlock (t.reline g :: after.map (Token.reline g)))
    have hkind : (t.reline g).kind = t.kind := rfl
    rw [Stmt.parseBlock, Stmt.parseBlock, hkind]
    split
    · exact (relined_done rfl _ []).past
    · refine Relined.past ((relined_parseStmt t after).bind fun o rest hs _ => ?_)
      have hlt : rest.length < (t :: after).length := Nat.lt_succ_of_le hs.length_le
      refine (relined_parseBlock rest).andThen fun body rest _ _ => ?_
      rw [← relineAll_toList_append]
      exact relined_done rfl _ (o.toList ++ body)
termination_by tokens => (tokens.length, 0)

end

/-- Whole programs on other lines are read alike. -/
theorem relined_parseAll : ∀ tokens : List Token,
    Relined g (Stmt.relineAll g) (Stmt.parseAll tokens)
      (Stmt.parseAll (tokens.map (Token.reline g)))
  | [] => by
    show Relined g _ (Stmt.parseAll []) (Stmt.parseAll [])
    rw [Stmt.parseAll]
    exact relined_here rfl _ []
  | t :: after => by
    show Relined g _ (Stmt.parseAll (t :: after))
      (Stmt.parseAll (t.reline g :: after.map (Token.reline g)))
    rw [Stmt.parseAll, Stmt.parseAll]
    refine Relined.past ((relined_parseStmt t after).bind fun o rest hs _ => ?_)
    have hlt : rest.length < (t :: after).length := Nat.lt_succ_of_le hs.length_le
    refine (relined_parseAll rest).bind fun program rest _ _ => ?_
    rw [← relineAll_toList_append]
    exact relined_here rfl _ (o.toList ++ program)
termination_by tokens => tokens.length
decreasing_by exact hlt

end Relining

/-! ### Running -/

namespace Relining

variable {g : Nat → Nat} {α β : Type}

/-- The result with its fault on another line. -/
def relineResult (g : Nat → Nat) :
    EStateM.Result Fault Interpreter α → EStateM.Result Fault Interpreter α
  | .ok a s => .ok a s
  | .error fault s => .error (fault.reline g) s

/-- The run with its fault on another line. -/
def relineRun (g : Nat → Nat) (r : Run) : Run :=
  { r with fault := r.fault.map (Fault.reline g) }

/-- The second evaluation is the first one with its faults on other lines. -/
def Alike (g : Nat → Nat) (x x' : Evaluation α) : Prop :=
  ∀ s, x' s = relineResult g (x s)

theorem alike_pure (a : α) : Alike g (pure a) (pure a) :=
  fun _ => rfl

theorem Alike.bind {x x' : Evaluation α} {f f' : α → Evaluation β} (h : Alike g x x')
    (hf : ∀ a, Alike g (f a) (f' a)) : Alike g (x >>= f) (x' >>= f') := by
  intro s
  cases hx : x s with
  | ok a s' =>
    have hx' : x' s = .ok a s' := by rw [h, hx]; rfl
    rw [Evaluation.bind_of_ok hx, Evaluation.bind_of_ok hx', hf]
  | error fault s' =>
    have hx' : x' s = .error (fault.reline g) s' := by rw [h, hx]; rfl
    rw [Evaluation.bind_of_error hx, Evaluation.bind_of_error hx']
    rfl

theorem alike_faultAt (o : Token) (r : Except Fault.Cause Value) :
    Alike g (Evaluation.faultAt o r) (Evaluation.faultAt (o.reline g) r) := by
  cases r <;> exact fun _ => rfl

theorem alike_read (x : Token) :
    Alike g (Evaluation.read x) (Evaluation.read (x.reline g)) := by
  intro s
  have hlexeme : (x.reline g).lexeme = x.lexeme := rfl
  simp only [Evaluation.read, Interpreter.read, Scopes.read, hlexeme]
  cases s.scopes.get? s.current x.lexeme <;> rfl

theorem alike_write (x : Token) (v : Value) :
    Alike g (Evaluation.write x v) (Evaluation.write (x.reline g) v) := by
  intro s
  have hlexeme : (x.reline g).lexeme = x.lexeme := rfl
  simp only [Evaluation.write, Interpreter.write, Scopes.write, hlexeme]
  cases s.scopes.assign? s.current x.lexeme v <;> rfl

theorem alike_eval (e : Expr) : Alike g e.eval (e.reline g).eval := by
  induction e with
  | literal value => exact alike_pure value
  | group inner ih => exact ih
  | unary o right ih => exact ih.bind fun v => alike_faultAt o (Value.unary o.kind v)
  | binary left o right ihl ihr =>
    exact ihl.bind fun v => ihr.bind fun w => alike_faultAt o (Value.binary o.kind v w)
  | name x => exact alike_read x
  | assign x e ih => exact ih.bind fun v => (alike_write x v).bind fun _ => alike_pure v

theorem ofEvaluation_reline (e : Expr) (s : Interpreter) {use use' : Value → Interpreter → Run}
    (h : ∀ v s', use' v s' = relineRun g (use v s')) :
    Run.ofEvaluation (e.reline g) s use' = relineRun g (Run.ofEvaluation e s use) := by
  rw [Run.ofEvaluation, Run.ofEvaluation, EStateM.run, EStateM.run, alike_eval e s]
  cases e.eval s with
  | ok v s' => exact h v s'
  | error fault s' => rfl

theorem andThen_reline (r : Run) {next next' : Interpreter → Run}
    (h : ∀ s, next' s = relineRun g (next s)) :
    (relineRun g r).andThen next' = relineRun g (r.andThen next) := by
  obtain ⟨fault, printed, after⟩ := r
  cases fault with
  | some fault => rfl
  | none =>
    simp only [Run.andThen, relineRun, Option.map_none, h]

mutual

theorem exec_reline : ∀ (stmt : Stmt) (s : Interpreter),
    (stmt.reline g).exec s = relineRun g (stmt.exec s)
  | .expression e, s => ofEvaluation_reline e s fun _ _ => rfl
  | .print e, s => ofEvaluation_reline e s fun _ _ => rfl
  | .block body, s => by
    rw [Stmt.reline, Stmt.exec, Stmt.exec, execAll_reline body s.enter]
    rfl
  | .declare name none, s => rfl
  | .declare name (some e), s => ofEvaluation_reline e s fun _ _ => rfl

/-- Statements on other lines run alike, up to the line of their fault. -/
theorem execAll_reline : ∀ (program : List Stmt) (s : Interpreter),
    Stmt.execAll (Stmt.relineAll g program) s = relineRun g (Stmt.execAll program s)
  | [], s => rfl
  | stmt :: rest, s => by
    rw [Stmt.relineAll, Stmt.execAll, Stmt.execAll, exec_reline stmt s]
    exact andThen_reline _ fun s' => execAll_reline rest s'

end

end Relining

end Scriptlet
