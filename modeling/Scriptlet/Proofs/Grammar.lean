import Scriptlet.Syntax.Tree

/-!
# The grammar

The derivations of the grammar, as data. A `Phrase` derives an expression and a `Sentence` a
declaration or a statement; the leaves are tokens, of which a derivation constrains the kinds only.
Each derives its tokens and stands for its tree. A chain of operands `operand (operator operand)*`
is taken apart at its last operator, so that its tree associates to the left.
-/

namespace Scriptlet

namespace Grammar

/-- A token of one of some kinds. -/
structure Terminal (kinds : List Kind) where
  token : Token
  kind_mem : token.kind ∈ kinds

/-- A token of one kind. -/
def Terminal.one {k : Kind} (t : Token) (h : t.kind = k) : Terminal [k] :=
  ⟨t, List.mem_singleton.2 h⟩

@[simp] theorem Terminal.token_one {k : Kind} (t : Token) (h : t.kind = k) :
    (Terminal.one t h).token = t := rfl

/-- The symbols that derive expressions, the loosest first. -/
inductive Symbol where
  | expression
  | assignment
  | equality
  | comparison
  | addition
  | multiplication
  | unary
  | primary

/-- The chains: the first symbol derives `operand (operator operand)*` for the operators of the
listed kinds and the operands of the second symbol. -/
inductive Chain : Symbol → List Kind → Symbol → Prop
  | equality : Chain .equality [.bangEqual, .equalEqual] .comparison
  | comparison : Chain .comparison [.greater, .greaterEqual, .less, .lessEqual] .addition
  | addition : Chain .addition [.minus, .plus] .multiplication
  | multiplication : Chain .multiplication [.slash, .star] .unary

/-- The derivations of a symbol. -/
inductive Phrase : Symbol → Type
  | expression (e : Phrase .assignment) : Phrase .expression
  | assign (target : Terminal [.identifier]) (equals : Terminal [.equal])
      (value : Phrase .assignment) : Phrase .assignment
  | equality (e : Phrase .equality) : Phrase .assignment
  | operand {s t : Symbol} {operators : List Kind} (h : Chain s operators t) (e : Phrase t) :
      Phrase s
  | operation {s t : Symbol} {operators : List Kind} (h : Chain s operators t) (left : Phrase s)
      (operator : Terminal operators) (right : Phrase t) : Phrase s
  | unary (operator : Terminal [.bang, .minus]) (right : Phrase .unary) : Phrase .unary
  | primary (e : Phrase .primary) : Phrase .unary
  | literal (t : Terminal [.number, .string, .kwTrue, .kwFalse, .kwNil]) : Phrase .primary
  | name (t : Terminal [.identifier]) : Phrase .primary
  | group (opening : Terminal [.leftParen]) (inner : Phrase .expression)
      (closing : Terminal [.rightParen]) : Phrase .primary

/-- The derivations of declarations and statements. -/
inductive Sentence where
  | declare (keyword : Terminal [.kwVar]) (name : Terminal [.identifier])
      (initial : Option (Terminal [.equal] × Phrase .expression))
      (semicolon : Terminal [.semicolon])
  | print (keyword : Terminal [.kwPrint]) (e : Phrase .expression)
      (semicolon : Terminal [.semicolon])
  | block (opening : Terminal [.leftBrace]) (body : List Sentence)
      (closing : Terminal [.rightBrace])
  | expression (e : Phrase .expression) (semicolon : Terminal [.semicolon])

/-! ### What is derived -/

namespace Phrase

/-- The tokens that are derived. -/
def tokens {s : Symbol} : Phrase s → List Token
  | expression e => e.tokens
  | assign target equals value => target.token :: equals.token :: value.tokens
  | equality e => e.tokens
  | operand _ e => e.tokens
  | operation _ left operator right => left.tokens ++ operator.token :: right.tokens
  | unary operator right => operator.token :: right.tokens
  | primary e => e.tokens
  | literal t => [t.token]
  | name t => [t.token]
  | group opening inner closing => opening.token :: inner.tokens ++ [closing.token]

/-- The tree of the derivation: each name and operator is its token, and a number or a text is the
value of its token. -/
def tree {s : Symbol} : Phrase s → Expr
  | expression e => e.tree
  | assign target _ value => .assign target.token value.tree
  | equality e => e.tree
  | operand _ e => e.tree
  | operation _ left operator right => .binary left.tree operator.token right.tree
  | unary operator right => .unary operator.token right.tree
  | primary e => e.tree
  | literal t =>
    match t.token.kind with
    | .kwTrue => .literal (.bool true)
    | .kwFalse => .literal (.bool false)
    | .kwNil => .literal .nil
    | _ => .literal t.token.literal
  | name t => .name t.token
  | group _ inner _ => .group inner.tree

end Phrase

namespace Sentence

/-- The tokens of an initial value with its `=`. -/
def initialTokens : Option (Terminal [.equal] × Phrase .expression) → List Token
  | none => []
  | some (equals, e) => equals.token :: e.tokens

mutual

/-- The tokens that are derived. -/
def tokens : Sentence → List Token
  | declare keyword name initial semicolon =>
    keyword.token :: name.token :: (initialTokens initial ++ [semicolon.token])
  | print keyword e semicolon => keyword.token :: (e.tokens ++ [semicolon.token])
  | block opening body closing => opening.token :: (allTokens body ++ [closing.token])
  | expression e semicolon => e.tokens ++ [semicolon.token]

/-- The tokens of sentences in order. -/
def allTokens : List Sentence → List Token
  | [] => []
  | d :: rest => d.tokens ++ allTokens rest

end

mutual

/-- The tree of the derivation. -/
def tree : Sentence → Stmt
  | declare _ name initial _ => .declare name.token (initial.map fun i => i.2.tree)
  | print _ e _ => .print e.tree
  | block _ body _ => .block (trees body)
  | expression e _ => .expression e.tree

/-- The trees of sentences in order. -/
def trees : List Sentence → List Stmt
  | [] => []
  | d :: rest => d.tree :: trees rest

end

end Sentence

/-! ### Terminals and levels -/

theorem Terminal.kind_eq {k : Kind} (t : Terminal [k]) : t.token.kind = k :=
  List.mem_singleton.1 t.kind_mem

theorem Terminal.ext {kinds : List Kind} {t u : Terminal kinds} (h : t.token = u.token) :
    t = u := by
  cases t
  cases u
  simp only at h
  subst h
  rfl

namespace Symbol

/-- The levels of operators in the chains below a symbol, the loosest first. -/
def levels : Symbol → List (List Kind)
  | equality => [[.bangEqual, .equalEqual], [.greater, .greaterEqual, .less, .lessEqual],
      [.minus, .plus], [.slash, .star]]
  | comparison => [[.greater, .greaterEqual, .less, .lessEqual], [.minus, .plus], [.slash, .star]]
  | addition => [[.minus, .plus], [.slash, .star]]
  | multiplication => [[.slash, .star]]
  | expression | assignment | unary | primary => []

/-- The symbols of chains, and that of their last operands. -/
inductive IsLevel : Symbol → Prop
  | unary : IsLevel unary
  | chain {s t : Symbol} {operators : List Kind} (h : Chain s operators t) (ht : IsLevel t) :
      IsLevel s

theorem isLevel_equality : IsLevel equality :=
  .chain .equality (.chain .comparison (.chain .addition (.chain .multiplication .unary)))

end Symbol

namespace Chain

variable {s t : Symbol} {operators : List Kind}

theorem levels_eq (h : Chain s operators t) : s.levels = operators :: t.levels := by
  cases h <;> rfl

theorem length_levels (h : Chain s operators t) : s.levels.length = t.levels.length + 1 := by
  rw [h.levels_eq, List.length_cons]

theorem isLevel (h : Chain s operators t) : t.IsLevel := by
  cases h with
  | equality => exact .chain .comparison (.chain .addition (.chain .multiplication .unary))
  | comparison => exact .chain .addition (.chain .multiplication .unary)
  | addition => exact .chain .multiplication .unary
  | multiplication => exact .unary

theorem unique {t' : Symbol} {operators' : List Kind} (h : Chain s operators t)
    (h' : Chain s operators' t') : operators = operators' ∧ t = t' := by
  cases h <;> cases h' <;> exact ⟨rfl, rfl⟩

/-- An operator of a chain is in none of the tighter levels. -/
theorem not_mem_tighter (h : Chain s operators t) :
    ∀ k ∈ operators, ∀ level ∈ t.levels, k ∉ level := by
  cases h <;> decide

end Chain

namespace Phrase

/-- The kinds of the tokens that phrases start with. -/
def starters : List Kind :=
  [.identifier, .number, .string, .kwTrue, .kwFalse, .kwNil, .bang, .minus, .leftParen]

theorem exists_tokens_eq_cons {s : Symbol} (e : Phrase s) :
    ∃ t after, e.tokens = t :: after ∧ t.kind ∈ starters := by
  induction e with
  | expression e ih => exact ih
  | assign target equals value => exact ⟨_, _, rfl, by rw [target.kind_eq]; decide⟩
  | equality e ih => exact ih
  | operand h e ih => exact ih
  | operation h left operator right ih =>
    obtain ⟨t, after, ht, hk⟩ := ih
    exact ⟨t, after ++ operator.token :: right.tokens, by rw [tokens, ht, List.cons_append], hk⟩
  | unary operator right =>
    exact ⟨_, _, rfl, (by decide : ∀ k ∈ [Kind.bang, .minus], k ∈ starters) _ operator.kind_mem⟩
  | primary e ih => exact ih
  | literal t =>
    exact ⟨_, _, rfl, (by decide : ∀ k ∈ [Kind.number, .string, .kwTrue, .kwFalse, .kwNil],
      k ∈ starters) _ t.kind_mem⟩
  | name t => exact ⟨_, _, rfl, by rw [t.kind_eq]; decide⟩
  | group opening inner closing => exact ⟨_, _, rfl, by rw [opening.kind_eq]; decide⟩

theorem length_tokens_pos {s : Symbol} (e : Phrase s) : 0 < e.tokens.length := by
  obtain ⟨t, after, ht, -⟩ := e.exists_tokens_eq_cons
  rw [ht]
  exact Nat.succ_pos _

end Phrase

theorem Sentence.length_tokens_pos (d : Sentence) : 0 < d.tokens.length := by
  cases d <;> simp [Sentence.tokens]

/-- A phrase of a chain is its last operand, or has a last operator. -/
theorem Phrase.chain_cases {s t : Symbol} {operators : List Kind} (h : Chain s operators t)
    (e : Phrase s) :
    (∃ e' : Phrase t, e = .operand h e')
      ∨ ∃ (left : Phrase s) (operator : Terminal operators) (right : Phrase t),
        e = .operation h left operator right := by
  cases e with
  | operand h' e =>
    obtain ⟨rfl, rfl⟩ := h.unique h'
    exact .inl ⟨e, rfl⟩
  | operation h' left operator right =>
    obtain ⟨rfl, rfl⟩ := h.unique h'
    exact .inr ⟨left, operator, right, rfl⟩
  | _ => cases h

/-- The first of the tokens, if there is one, is of none of the kinds of the levels. -/
def Free (levels : List (List Kind)) (tokens : List Token) : Prop :=
  ∀ t ∈ tokens.head?, ∀ level ∈ levels, t.kind ∉ level

theorem Chain.free {s t : Symbol} {operators : List Kind} (h : Chain s operators t)
    (operator : Terminal operators) (rest : List Token) :
    Free t.levels (operator.token :: rest) := by
  intro u hu
  obtain rfl : operator.token = u := by simpa using hu
  exact h.not_mem_tighter _ operator.kind_mem

theorem Free.tail {level : List Kind} {levels : List (List Kind)} {tokens : List Token}
    (h : Free (level :: levels) tokens) : Free levels tokens :=
  fun t ht level' hl => h t ht level' (List.mem_cons_of_mem level hl)

end Grammar

end Scriptlet
