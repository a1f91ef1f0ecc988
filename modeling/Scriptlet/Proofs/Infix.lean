import Scriptlet.Proofs.Grammar

/-!
# The infix form of a tree

A tree is written as tokens with its operators between their operands and with parentheses at its
groups only (`Stmt.tokensAll`). If the operands of each operator bind as tightly as its level asks
(`Stmt.OrderedAll`), then the grammar derives these tokens with this tree
(`Grammar.exists_sentences_of_ordered`).
-/

namespace Scriptlet

/-! ### Writing a tree -/

/-- The token that writes a value. -/
def Value.token : Value → Token
  | nil => ⟨.kwNil, "nil", .nil, 1⟩
  | bool true => ⟨.kwTrue, "true", .nil, 1⟩
  | bool false => ⟨.kwFalse, "false", .nil, 1⟩
  | number x => ⟨.number, Decimal.display .plain x, .number x, 1⟩
  | string s => ⟨.string, "\"" ++ s ++ "\"", .string s, 1⟩

theorem Value.kind_token_mem (v : Value) :
    v.token.kind ∈ [.number, .string, .kwTrue, .kwFalse, .kwNil] := by
  rcases v with _ | (_ | _) | _ | _ <;> simp [token]

/-- The tokens that write an expression. -/
def Expr.tokens : Expr → List Token
  | literal value => [value.token]
  | group inner => ⟨.leftParen, "(", .nil, 1⟩ :: (inner.tokens ++ [⟨.rightParen, ")", .nil, 1⟩])
  | unary operator right => operator :: right.tokens
  | binary left operator right => left.tokens ++ operator :: right.tokens
  | name token => [token]
  | assign target value => target :: ⟨.equal, "=", .nil, 1⟩ :: value.tokens

mutual

/-- The tokens that write a statement. -/
def Stmt.tokens : Stmt → List Token
  | expression e => e.tokens ++ [⟨.semicolon, ";", .nil, 1⟩]
  | print e => ⟨.kwPrint, "print", .nil, 1⟩ :: (e.tokens ++ [⟨.semicolon, ";", .nil, 1⟩])
  | block body =>
    ⟨.leftBrace, "\x7b", .nil, 1⟩ :: (Stmt.tokensAll body ++ [⟨.rightBrace, "\x7d", .nil, 1⟩])
  | declare name none => [⟨.kwVar, "var", .nil, 1⟩, name, ⟨.semicolon, ";", .nil, 1⟩]
  | declare name (some e) =>
    ⟨.kwVar, "var", .nil, 1⟩ :: name :: ⟨.equal, "=", .nil, 1⟩
      :: (e.tokens ++ [⟨.semicolon, ";", .nil, 1⟩])

def Stmt.tokensAll : List Stmt → List Token
  | [] => []
  | stmt :: rest => stmt.tokens ++ Stmt.tokensAll rest

end

/-! ### Trees that need no further parentheses -/

/-- How tightly a binary operator binds. -/
def Kind.binding? : Kind → Option Nat
  | bangEqual | equalEqual => some 2
  | greater | greaterEqual | less | lessEqual => some 3
  | minus | plus => some 4
  | slash | star => some 5
  | _ => none

/-- How tightly an expression binds, its groups being closed. -/
def Expr.binding : Expr → Nat
  | assign _ _ => 1
  | binary _ operator _ => operator.kind.binding?.getD 0
  | unary _ _ => 6
  | literal _ | group _ | name _ => 7

/-- The operators and names are of the kinds of the grammar, and all operands bind tightly enough:
the left one of a binary operator as tightly as the operator, the right one more so. -/
def Expr.Ordered : Expr → Prop
  | literal _ => True
  | group inner => inner.Ordered
  | unary operator right => operator.kind ∈ [.bang, .minus] ∧ right.Ordered ∧ 6 ≤ right.binding
  | binary left operator right =>
    left.Ordered ∧ right.Ordered ∧ ∃ k, operator.kind.binding? = some k ∧ k ≤ left.binding
      ∧ k < right.binding
  | name token => token.kind = .identifier
  | assign target value => target.kind = .identifier ∧ value.Ordered

mutual

/-- The names are names, and all expressions are ordered. -/
def Stmt.Ordered : Stmt → Prop
  | expression e => e.Ordered
  | print e => e.Ordered
  | block body => Stmt.OrderedAll body
  | declare name none => name.kind = .identifier
  | declare name (some e) => name.kind = .identifier ∧ e.Ordered

def Stmt.OrderedAll : List Stmt → Prop
  | [] => True
  | stmt :: rest => stmt.Ordered ∧ Stmt.OrderedAll rest

end

namespace Grammar

/-! ### Looser symbols -/

namespace Symbol

/-- How tightly the phrases of a symbol bind at least. -/
def rank : Symbol → Nat
  | expression => 0
  | assignment => 1
  | equality => 2
  | comparison => 3
  | addition => 4
  | multiplication => 5
  | unary => 6
  | primary => 7

/-- The symbol of the next looser phrases. -/
def looser : Symbol → Symbol
  | expression | assignment => expression
  | equality => assignment
  | comparison => equality
  | addition => comparison
  | multiplication => addition
  | unary => multiplication
  | primary => unary

theorem rank_looser (s : Symbol) : s.looser.rank = s.rank - 1 := by
  cases s <;> rfl

theorem eq_of_rank {s t : Symbol} (h : s.rank = t.rank) : s = t := by
  cases s <;> cases t <;> first | rfl | cases h

end Symbol

theorem Chain.rank_eq {s t : Symbol} {operators : List Kind} (h : Chain s operators t) :
    t.rank = s.rank + 1 := by
  cases h <;> rfl

theorem exists_chain_of_binding {kind : Kind} {k : Nat} (h : kind.binding? = some k) :
    ∃ s t operators, Chain s operators t ∧ kind ∈ operators ∧ s.rank = k := by
  unfold Kind.binding? at h
  split at h <;> cases h <;> first
    | exact ⟨_, _, _, .equality, by decide, rfl⟩
    | exact ⟨_, _, _, .comparison, by decide, rfl⟩
    | exact ⟨_, _, _, .addition, by decide, rfl⟩
    | exact ⟨_, _, _, .multiplication, by decide, rfl⟩

/-! ### Derivations of what is written -/

/-- The symbol derives the tokens of a tree with this tree. -/
def Derives (s : Symbol) (e : Expr) : Prop :=
  ∃ p : Phrase s, p.tree = e ∧ p.tokens = e.tokens

namespace Derives

variable {s t : Symbol} {e : Expr}

theorem looser (h : Derives s e) : Derives s.looser e := by
  obtain ⟨p, hp⟩ := h
  cases s with
  | expression => exact ⟨p, hp⟩
  | assignment => exact ⟨.expression p, hp⟩
  | equality => exact ⟨.equality p, hp⟩
  | comparison => exact ⟨.operand .equality p, hp⟩
  | addition => exact ⟨.operand .comparison p, hp⟩
  | multiplication => exact ⟨.operand .addition p, hp⟩
  | unary => exact ⟨.operand .multiplication p, hp⟩
  | primary => exact ⟨.primary p, hp⟩

theorem of_le {s : Symbol} : ∀ {t : Symbol}, Derives t e → s.rank ≤ t.rank → Derives s e := by
  intro t h hle
  by_cases heq : s.rank = t.rank
  · rwa [Symbol.eq_of_rank heq]
  · have hrank := t.rank_looser
    exact of_le h.looser (by omega)
termination_by t => t.rank
decreasing_by omega

theorem literal (value : Value) : Derives .primary (.literal value) := by
  refine ⟨.literal ⟨value.token, value.kind_token_mem⟩, ?_, rfl⟩
  rcases value with _ | (_ | _) | _ | _ <;> rfl

theorem name {token : Token} (h : token.kind = .identifier) : Derives .primary (.name token) :=
  ⟨.name (.one token h), rfl, rfl⟩

theorem group (h : Derives .expression e) : Derives .primary (.group e) := by
  obtain ⟨p, rfl, hp⟩ := h
  refine ⟨.group (.one ⟨.leftParen, "(", .nil, 1⟩ rfl) p (.one ⟨.rightParen, ")", .nil, 1⟩ rfl),
    rfl, ?_⟩
  rw [Phrase.tokens, hp]
  rfl

theorem unary {operator : Token} (ho : operator.kind ∈ [.bang, .minus]) (h : Derives .unary e) :
    Derives .unary (.unary operator e) := by
  obtain ⟨p, rfl, hp⟩ := h
  exact ⟨.unary ⟨operator, ho⟩ p, rfl, congrArg (operator :: ·) hp⟩

theorem binary {operators : List Kind} (hc : Chain s operators t) {left right : Expr}
    {operator : Token} (ho : operator.kind ∈ operators) (hl : Derives s left)
    (hr : Derives t right) : Derives s (.binary left operator right) := by
  obtain ⟨p, rfl, hp⟩ := hl
  obtain ⟨q, rfl, hq⟩ := hr
  refine ⟨.operation hc p ⟨operator, ho⟩ q, rfl, ?_⟩
  rw [Phrase.tokens, hp, hq]
  rfl

theorem assign {target : Token} (ht : target.kind = .identifier) (h : Derives .assignment e) :
    Derives .assignment (.assign target e) := by
  obtain ⟨p, rfl, hp⟩ := h
  refine ⟨.assign (.one target ht) (.one ⟨.equal, "=", .nil, 1⟩ rfl) p, rfl, ?_⟩
  rw [Phrase.tokens, hp]
  rfl

end Derives

theorem one_le_binding {e : Expr} (h : e.Ordered) : 1 ≤ e.binding := by
  cases e with
  | binary left operator right =>
    obtain ⟨-, -, k, hk, -, -⟩ := h
    obtain ⟨s, t, operators, hc, -, rfl⟩ := exists_chain_of_binding hk
    rw [Expr.binding, hk]
    cases hc <;> decide
  | _ => simp [Expr.binding]

/-- An ordered expression is derived by each symbol whose phrases bind no tighter. -/
theorem derives_of_ordered : ∀ {e : Expr} {s : Symbol}, e.Ordered → s.rank ≤ e.binding →
    Derives s e
  | .literal value, _, _, hs => (Derives.literal value).of_le hs
  | .name _, _, h, hs => (Derives.name h).of_le hs
  | .group inner, _, h, hs => by
    have hinner : Derives .expression inner := derives_of_ordered h (Nat.zero_le _)
    exact hinner.group.of_le hs
  | .unary _ right, _, ⟨ho, hr, hbinding⟩, hs => by
    have hright : Derives .unary right := derives_of_ordered hr hbinding
    exact (hright.unary ho).of_le hs
  | .binary left operator right, s, ⟨hl, hr, k, hk, hleft, hright⟩, hs => by
    obtain ⟨s', t, operators, hc, ho, rfl⟩ := exists_chain_of_binding hk
    have hle : s.rank ≤ s'.rank := by
      rw [Expr.binding, hk] at hs
      exact hs
    have ht : t.rank ≤ right.binding := by
      rw [hc.rank_eq]
      exact hright
    exact (Derives.binary hc ho (derives_of_ordered hl hleft) (derives_of_ordered hr ht)).of_le hle
  | .assign target value, _, ⟨ht, hv⟩, hs => by
    have hvalue : Derives .assignment value :=
      derives_of_ordered hv (one_le_binding hv)
    exact (hvalue.assign ht).of_le hs

theorem exists_expression {e : Expr} (h : e.Ordered) :
    ∃ p : Phrase .expression, p.tree = e ∧ p.tokens = e.tokens :=
  derives_of_ordered h (Nat.zero_le _)

mutual

theorem exists_sentence_of_ordered : ∀ {stmt : Stmt}, stmt.Ordered →
    ∃ d : Sentence, d.tree = stmt ∧ d.tokens = stmt.tokens
  | .expression e, h => by
    obtain ⟨p, rfl, hp⟩ := exists_expression h
    refine ⟨.expression p (.one ⟨.semicolon, ";", .nil, 1⟩ rfl), rfl, ?_⟩
    rw [Sentence.tokens, hp]
    rfl
  | .print e, h => by
    obtain ⟨p, rfl, hp⟩ := exists_expression h
    refine ⟨.print (.one ⟨.kwPrint, "print", .nil, 1⟩ rfl) p (.one ⟨.semicolon, ";", .nil, 1⟩ rfl),
      rfl, ?_⟩
    rw [Sentence.tokens, hp]
    rfl
  | .block body, h => by
    obtain ⟨ds, rfl, hds⟩ := exists_sentences_of_ordered h
    refine ⟨.block (.one ⟨.leftBrace, "\x7b", .nil, 1⟩ rfl) ds
      (.one ⟨.rightBrace, "\x7d", .nil, 1⟩ rfl), rfl, ?_⟩
    rw [Sentence.tokens, hds]
    rfl
  | .declare name none, h =>
    ⟨.declare (.one ⟨.kwVar, "var", .nil, 1⟩ rfl) (.one name h) none
      (.one ⟨.semicolon, ";", .nil, 1⟩ rfl), rfl, rfl⟩
  | .declare name (some e), ⟨hn, h⟩ => by
    obtain ⟨p, rfl, hp⟩ := exists_expression h
    refine ⟨.declare (.one ⟨.kwVar, "var", .nil, 1⟩ rfl) (.one name hn)
      (some (.one ⟨.equal, "=", .nil, 1⟩ rfl, p)) (.one ⟨.semicolon, ";", .nil, 1⟩ rfl), rfl, ?_⟩
    rw [Sentence.tokens, Sentence.initialTokens, hp]
    rfl

/-- The grammar derives the tokens of an ordered program with this program as the trees. -/
theorem exists_sentences_of_ordered : ∀ {program : List Stmt}, Stmt.OrderedAll program →
    ∃ ds : List Sentence, Sentence.trees ds = program
      ∧ Sentence.allTokens ds = Stmt.tokensAll program
  | [], _ => ⟨[], rfl, rfl⟩
  | _ :: _, ⟨h, hr⟩ => by
    obtain ⟨d, rfl, hd⟩ := exists_sentence_of_ordered h
    obtain ⟨ds, rfl, hds⟩ := exists_sentences_of_ordered hr
    refine ⟨d :: ds, rfl, ?_⟩
    rw [Sentence.allTokens, hd, hds]
    rfl

end

end Grammar

end Scriptlet
