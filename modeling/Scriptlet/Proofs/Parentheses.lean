import Scriptlet.Proofs.GrammarComplete
import Scriptlet.Proofs.Infix
import Scriptlet.Proofs.SameTokens
import Scriptlet.Proofs.Supported

/-!
# Parentheses make every tree expressible

A tree is written with parentheses around its operands and assigned values, but for some that are
atomic (`Expr.written`). Whatever is nested in what, these tokens are read as the tree that has a
group for each pair of parentheses (`Expr.enclosed`), and groups mean nothing: without them it is
the tree that was written, and it is evaluated alike (`Expr.expression_written`).
-/

namespace Scriptlet

namespace Expr

/-! ### Writing in parentheses -/

/-- The names are names, and the operators are those of the language. -/
def Grammatical : Expr → Prop
  | literal _ => True
  | group inner => inner.Grammatical
  | unary operator right => operator.kind ∈ Kind.unaryOperators ∧ right.Grammatical
  | binary left operator right =>
    left.Grammatical ∧ operator.kind ∈ Kind.binaryOperators ∧ right.Grammatical
  | name token => token.kind = .identifier
  | assign target value => target.kind = .identifier ∧ value.Grammatical

/-- A literal, a name, or what stands in parentheses of its own. -/
def isAtomic : Expr → Bool
  | literal _ | group _ | name _ => true
  | unary _ _ | binary _ _ _ | assign _ _ => false

def parenthesized (tokens : List Token) : List Token :=
  ⟨.leftParen, "(", .nil, 1⟩ :: (tokens ++ [⟨.rightParen, ")", .nil, 1⟩])

/-- The tokens of an operand that may stand without parentheses. -/
def operandTokens (bare : Bool) (tokens : List Token) : List Token :=
  if bare then tokens else parenthesized tokens

/-- The tokens that write an expression, in parentheses at its groups and around all operands and
assigned values but the bare ones. -/
def written (bare : Expr → Bool) : Expr → List Token
  | literal value => [value.token]
  | group inner => parenthesized (inner.written bare)
  | unary operator right => operator :: operandTokens (bare right) (right.written bare)
  | binary left operator right =>
    operandTokens (bare left) (left.written bare)
      ++ operator :: operandTokens (bare right) (right.written bare)
  | name token => [token]
  | assign target value =>
    target :: ⟨.equal, "=", .nil, 1⟩ :: operandTokens (bare value) (value.written bare)

/-- The expression without its groups. -/
def ungrouped : Expr → Expr
  | literal value => literal value
  | group inner => inner.ungrouped
  | unary operator right => unary operator right.ungrouped
  | binary left operator right => binary left.ungrouped operator right.ungrouped
  | name token => name token
  | assign target value => assign target value.ungrouped

theorem ungrouped_reline (g : Nat → Nat) (e : Expr) :
    (e.reline g).ungrouped = e.ungrouped.reline g := by
  induction e with
  | literal value => rfl
  | group inner ih => exact ih
  | unary operator right ih => rw [reline, ungrouped, ungrouped, reline, ih]
  | binary left operator right ihl ihr => rw [reline, ungrouped, ungrouped, reline, ihl, ihr]
  | name token => rfl
  | assign target value ih => rw [reline, ungrouped, ungrouped, reline, ih]

/-- Groups mean nothing. -/
theorem eval_ungrouped (e : Expr) : e.ungrouped.eval = e.eval := by
  induction e with
  | literal value => rfl
  | group inner ih => exact ih
  | unary operator right ih => rw [ungrouped, eval, eval, ih]
  | binary left operator right ihl ihr => rw [ungrouped, eval, eval, ihl, ihr]
  | name token => rfl
  | assign target value ih => rw [ungrouped, eval, eval, ih]

/-! ### The groups that are written -/

/-- An operand with a group for its parentheses. -/
def operand (bare : Bool) (e : Expr) : Expr :=
  if bare then e else group e

/-- The expression with a group for each pair of parentheses that it is written with. -/
def enclosed (bare : Expr → Bool) : Expr → Expr
  | literal value => literal value
  | group inner => group (inner.enclosed bare)
  | unary operator right => unary operator (operand (bare right) (right.enclosed bare))
  | binary left operator right =>
    binary (operand (bare left) (left.enclosed bare)) operator
      (operand (bare right) (right.enclosed bare))
  | name token => name token
  | assign target value => assign target (operand (bare value) (value.enclosed bare))

theorem tokens_operand (bare : Bool) (e : Expr) :
    (operand bare e).tokens = operandTokens bare e.tokens := by
  cases bare <;> rfl

theorem ungrouped_operand (bare : Bool) (e : Expr) : (operand bare e).ungrouped = e.ungrouped := by
  cases bare <;> rfl

theorem Ordered.operand {e : Expr} (h : e.Ordered) (bare : Bool) : (e.operand bare).Ordered := by
  cases bare <;> exact h

variable {bare : Expr → Bool} {e : Expr}

theorem tokens_enclosed (bare : Expr → Bool) (e : Expr) :
    (e.enclosed bare).tokens = e.written bare := by
  induction e with
  | literal value => rfl
  | group inner ih => rw [enclosed, tokens, ih, written, parenthesized]
  | unary operator right ih => rw [enclosed, tokens, tokens_operand, ih, written]
  | binary left operator right ihl ihr =>
    rw [enclosed, tokens, tokens_operand, tokens_operand, ihl, ihr, written]
  | name token => rfl
  | assign target value ih => rw [enclosed, tokens, tokens_operand, ih, written]

theorem ungrouped_enclosed (bare : Expr → Bool) (e : Expr) :
    (e.enclosed bare).ungrouped = e.ungrouped := by
  induction e with
  | literal value => rfl
  | group inner ih => exact ih
  | unary operator right ih => rw [enclosed, ungrouped, ungrouped_operand, ih, ungrouped]
  | binary left operator right ihl ihr =>
    rw [enclosed, ungrouped, ungrouped_operand, ungrouped_operand, ihl, ihr, ungrouped]
  | name token => rfl
  | assign target value ih => rw [enclosed, ungrouped, ungrouped_operand, ih, ungrouped]

/-- Operands bind as tightly as can be, in parentheses or atomic. -/
theorem binding_operand_enclosed (hbare : ∀ e, bare e → e.isAtomic) (e : Expr) :
    (operand (bare e) (e.enclosed bare)).binding = 7 := by
  cases hb : bare e with
  | false => rfl
  | true =>
    have hatomic := hbare e hb
    cases e with
    | literal _ | group _ | name _ => rfl
    | unary _ _ | binary _ _ _ | assign _ _ => cases hatomic

theorem exists_binding_of_mem {kind : Kind} (h : kind ∈ Kind.binaryOperators) :
    ∃ k < 7, kind.binding? = some k :=
  (by decide : ∀ kind ∈ Kind.binaryOperators, ∃ k < 7, kind.binding? = some k) kind h

/-- With a group for each operand, no level of operators regroups anything. -/
theorem ordered_enclosed (hbare : ∀ e, bare e → e.isAtomic) (h : e.Grammatical) :
    (e.enclosed bare).Ordered := by
  induction e with
  | literal value => trivial
  | group inner ih => exact ih h
  | unary operator right ih =>
    refine ⟨h.1, (ih h.2).operand _, ?_⟩
    rw [binding_operand_enclosed hbare]
    decide
  | binary left operator right ihl ihr =>
    obtain ⟨hl, ho, hr⟩ := h
    obtain ⟨k, hk, hbinding⟩ := exists_binding_of_mem ho
    refine ⟨(ihl hl).operand _, (ihr hr).operand _, k, hbinding, ?_, ?_⟩
    · rw [binding_operand_enclosed hbare]
      exact Nat.le_of_lt hk
    · rw [binding_operand_enclosed hbare]
      exact hk
  | name token => exact h
  | assign target value ih => exact ⟨h.1, (ih h.2).operand _⟩

/-! ### Reading what is written -/

theorem Ordered.kind_ne_eof (h : e.Ordered) : ∀ t ∈ e.tokens, t.kind ≠ .eof := by
  induction e with
  | literal value =>
    rw [tokens, List.forall_mem_singleton]
    exact (by decide : ∀ k ∈ [Kind.number, .string, .kwTrue, .kwFalse, .kwNil], k ≠ .eof) _
      value.kind_token_mem
  | group inner ih =>
    rw [tokens, List.forall_mem_cons, List.forall_mem_append, List.forall_mem_singleton]
    exact ⟨nofun, ih h, nofun⟩
  | unary operator right ih =>
    rw [tokens, List.forall_mem_cons]
    exact ⟨(by decide : ∀ k ∈ [Kind.bang, .minus], k ≠ .eof) _ h.1, ih h.2.1⟩
  | binary left operator right ihl ihr =>
    obtain ⟨hl, hr, k, hk, -⟩ := h
    rw [tokens, List.forall_mem_append, List.forall_mem_cons]
    refine ⟨ihl hl, fun heof => ?_, ihr hr⟩
    rw [heof] at hk
    cases hk
  | name token =>
    rw [tokens, List.forall_mem_singleton, h]
    nofun
  | assign target value ih =>
    rw [tokens, List.forall_mem_cons, List.forall_mem_cons, h.1]
    exact ⟨nofun, nofun, ih h.2⟩

/-- What is written is read back with all its parentheses. -/
theorem gives_parse_written (hbare : ∀ e, bare e → e.isAtomic) (h : e.Grammatical) :
    (parse (e.written bare)).Gives (.ok (e.enclosed bare)) [] := by
  obtain ⟨p, hp, htokens⟩ := Grammar.exists_expression (ordered_enclosed hbare h)
  have hends : Grammar.Ends [] := ⟨nofun, nofun⟩
  have hgives := p.gives_expression hends
  rwa [List.append_nil, htokens, hp, tokens_enclosed] at hgives

end Expr

/-! ### Other lines -/

/-- Both results are the same value, or faults that say the same at tokens that differ in their
lines at most. The scopes are the same after both. -/
inductive Evaluation.EndsAlike : EStateM.Result Fault Interpreter Value →
    EStateM.Result Fault Interpreter Value → Prop
  | value (v : Value) (s : Interpreter) : EndsAlike (.ok v s) (.ok v s)
  | fault {fault fault' : Fault} (s : Interpreter) (ht : fault.token.Alike fault'.token)
      (hm : fault.message = fault'.message) : EndsAlike (.error fault s) (.error fault' s)

theorem Evaluation.endsAlike_of_reline {r r' : EStateM.Result Fault Interpreter Value}
    (h : Relining.relineResult (fun _ => 1) r = Relining.relineResult (fun _ => 1) r') :
    EndsAlike r r' := by
  cases r with
  | ok v s =>
    cases r' with
    | ok v' s' =>
      cases h
      exact .value v s
    | error fault' s' => cases h
  | error fault s =>
    cases r' with
    | ok v' s' => cases h
    | error fault' s' =>
      obtain ⟨token, cause⟩ := fault
      obtain ⟨token', cause'⟩ := fault'
      simp only [Relining.relineResult, Fault.reline, EStateM.Result.error.injEq,
        Fault.mk.injEq] at h
      obtain ⟨⟨htoken, rfl⟩, rfl⟩ := h
      have halike := (Token.alike_iff token token').2 htoken
      refine .fault s halike ?_
      simp only [Fault.message, halike.lexeme]

namespace Expr

/-- Tokens that differ in their lines at most are read alike. -/
theorem exists_gives_of_alike {tokens tokens' : List Token} {e : Expr}
    (h : List.Forall₂ Token.Alike tokens' tokens) (hgives : (parse tokens).Gives (.ok e) []) :
    ∃ e', (parse tokens').Gives (.ok e') []
      ∧ e'.reline (fun _ => 1) = e.reline (fun _ => 1) := by
  obtain ⟨hvalue, herrors, hrest⟩ := hgives
  obtain ⟨hv, he, hr⟩ := Relining.relined_parse (g := fun _ => 1) tokens
  obtain ⟨hv', he', hr'⟩ := Relining.relined_parse (g := fun _ => 1) tokens'
  rw [(forall₂_iff_map_eq Token.alike_iff).1 h] at hv' he' hr'
  rw [hv, hvalue] at hv'
  rw [he, herrors] at he'
  rw [hr, hrest] at hr'
  cases hread : (parse tokens').value with
  | error cause =>
    rw [hread] at hv'
    cases hv'
  | ok e' =>
    rw [hread] at hv'
    exact ⟨e', ⟨hread, List.map_eq_nil_iff.1 he'.symm, List.map_eq_nil_iff.1 hr'.symm⟩,
      (Except.ok.inj hv').symm⟩

/-- Expressions that are the same without their groups, but for lines, are evaluated alike. -/
theorem endsAlike_eval {e e' : Expr}
    (h : e'.ungrouped.reline (fun _ => 1) = e.ungrouped.reline (fun _ => 1)) (s : Interpreter) :
    Evaluation.EndsAlike (e'.eval s) (e.eval s) := by
  refine Evaluation.endsAlike_of_reline ?_
  rw [← eval_ungrouped e', ← eval_ungrouped e, ← Relining.alike_eval e'.ungrouped s,
    ← Relining.alike_eval e.ungrouped s, h]

/-- Every expression can be written with parentheses around its operands and assigned values, all
but some that are atomic. The tokens, on whatever lines, are read without an error as an expression
that is the written one if groups and lines are left out, and is evaluated alike in all scopes. -/
theorem expression_written {e : Expr} (he : e.Grammatical) {bare : Expr → Bool}
    (hbare : ∀ e, bare e → e.isAtomic) {tokens : List Token}
    (htokens : List.Forall₂ Token.Alike tokens (e.written bare)) {final : Token}
    (hfinal : final.kind = .eof) :
    ∃ s e', TokenStream.ofList? (tokens ++ [final]) = some s
      ∧ s.expression.value = some e' ∧ s.expression.errors = []
      ∧ e'.ungrouped.reline (fun _ => 1) = e.ungrouped.reline (fun _ => 1)
      ∧ ∀ i : Interpreter, Evaluation.EndsAlike (e'.eval i) (e.eval i) := by
  -- What is read has a group for each pair of parentheses, and the lines of the tokens.
  obtain ⟨e', ⟨hvalue, herrors, hrest⟩, hlines⟩ :=
    exists_gives_of_alike htokens (gives_parse_written hbare he)
  have heof : ∀ t ∈ tokens, t.kind ≠ .eof := by
    intro t ht
    have hmem := List.mem_map_of_mem (f := Token.reline fun _ => 1) ht
    rw [(forall₂_iff_map_eq Token.alike_iff).1 htokens, ← tokens_enclosed] at hmem
    obtain ⟨u, hu, halike⟩ := List.mem_map.1 hmem
    rw [← ((Token.alike_iff u t).2 halike).kind]
    exact (ordered_enclosed hbare he).kind_ne_eof u hu
  have hungrouped : e'.ungrouped.reline (fun _ => 1) = e.ungrouped.reline (fun _ => 1) := by
    rw [← ungrouped_reline, hlines, ungrouped_reline, ungrouped_enclosed]
  refine ⟨⟨tokens, final⟩, e', TokenStream.ofList?_append_end heof hfinal, ?_, ?_, hungrouped,
    endsAlike_eval hungrouped⟩
  · simp only [TokenStream.expression, hvalue, hrest, if_true]
  · simp only [TokenStream.expression, hvalue, hrest, if_true, herrors]

/-- Written on one line: `(a = b) - (c - (-(a + b)))`. -/
theorem expression_written_difference :
    let a := name (.ident "a" 1)
    let b := name (.ident "b" 1)
    let minus : Token := ⟨.minus, "-", .nil, 1⟩
    let e := binary (assign (.ident "a" 1) b) minus (binary (name (.ident "c" 1)) minus
      (unary minus (binary a ⟨.plus, "+", .nil, 1⟩ b)))
    let opening : Token := ⟨.leftParen, "(", .nil, 2⟩
    let closing : Token := ⟨.rightParen, ")", .nil, 2⟩
    let tokens := [opening, .ident "a" 2, ⟨.equal, "=", .nil, 2⟩, .ident "b" 2, closing,
      ⟨.minus, "-", .nil, 2⟩, opening, .ident "c" 2, ⟨.minus, "-", .nil, 2⟩, opening,
      ⟨.minus, "-", .nil, 2⟩, opening, .ident "a" 2, ⟨.plus, "+", .nil, 2⟩, .ident "b" 2, closing,
      closing, closing]
    e.Grammatical ∧ (∀ e, isAtomic e → e.isAtomic)
      ∧ List.Forall₂ Token.Alike tokens (e.written isAtomic) ∧ (Token.atEnd 2).kind = .eof
      ∧ ∃ s e', TokenStream.ofList? (tokens ++ [.atEnd 2]) = some s
        ∧ s.expression.value = some e' ∧ s.expression.errors = []
        ∧ e'.ungrouped.reline (fun _ => 1) = e
        ∧ ∀ i : Interpreter, Evaluation.EndsAlike (e'.eval i) (e.eval i) := by
  intro a b minus e opening closing tokens
  have he : e.Grammatical :=
    ⟨⟨rfl, rfl⟩, by decide, rfl, by decide, by decide, rfl, by decide, rfl⟩
  have htokens : List.Forall₂ Token.Alike tokens (e.written isAtomic) :=
    (forall₂_iff_map_eq Token.alike_iff).2 rfl
  have hfinal : (Token.atEnd 2).kind = .eof := rfl
  exact ⟨he, fun _ h => h, htokens, hfinal,
    expression_written he (fun _ h => h) htokens hfinal⟩

end Expr

end Scriptlet
