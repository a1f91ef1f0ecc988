import Scriptlet.Proofs.CleanReading
import Scriptlet.Proofs.Grammar

/-!
# What the grammar derives is read

Where the tokens of a phrase stand before tokens that cannot go on with it, reading gives its tree
and leaves them (`Grammar.Phrase.gives_expression`). A sentence is closed by its last token, so its
tokens are read alike before any others (`Grammar.Sentence.gives`).
-/

namespace Scriptlet

namespace Grammar

open Reading

/-- The first of the tokens, if there is one, goes on with no expression. -/
def Ends (tokens : List Token) : Prop :=
  Free Symbol.equality.levels tokens ∧ ∀ t ∈ tokens.head?, t.kind ≠ .equal

theorem ends_of_kind {t : Token} {rest : List Token} {k : Kind} (h : t.kind = k)
    (hk : (∀ level ∈ Symbol.equality.levels, k ∉ level) ∧ k ≠ .equal) : Ends (t :: rest) := by
  subst h
  refine ⟨fun u hu => ?_, fun u hu => ?_⟩
  · obtain rfl : t = u := by simpa using hu
    exact hk.1
  · obtain rfl : t = u := by simpa using hu
    exact hk.2

theorem constant?_literal (t : Terminal [.number, .string, .kwTrue, .kwFalse, .kwNil]) :
    ∃ value, Expr.constant? t.token = some value ∧ (Phrase.literal t).tree = .literal value := by
  have h := t.kind_mem
  simp only [List.mem_cons, List.not_mem_nil, or_false] at h
  rcases h with h | h | h | h | h <;> simp [Expr.constant?, Phrase.tree, h]

/-- A name before what is no operator of the levels. -/
theorem gives_parseLevels_name {t : Token} (ht : t.kind = .identifier) {rest : List Token} :
    ∀ {levels : List (List Kind)}, Free levels rest →
      (Expr.parseLevels levels (t :: rest)).Gives (.ok (.name t)) rest
  | [], _ => by
    rw [Expr.parseLevels]
    exact Expr.gives_parseOperand.2 (.inr (.inr (.inl ⟨ht, rfl, rfl⟩)))
  | level :: tighter, hr =>
    Expr.gives_parseLevels_cons.2 ⟨.name t, rest, gives_parseLevels_name ht hr.tail,
      Expr.gives_parseMore.2 (.inl ⟨fun u hu => hr u hu _ List.mem_cons_self, rfl, rfl⟩)⟩

namespace Phrase

mutual

theorem gives_expression : ∀ (e : Phrase .expression) {rest : List Token}, Ends rest →
    (Expr.parse (e.tokens ++ rest)).Gives (.ok e.tree) rest
  | .expression e, _, hr => gives_assignment e hr
termination_by e => (sizeOf e, 0)

theorem gives_assignment : ∀ (e : Phrase .assignment) {rest : List Token}, Ends rest →
    (Expr.parse (e.tokens ++ rest)).Gives (.ok e.tree) rest
  | .assign target equals value, rest, hr => by
    have hfree : Free Symbol.equality.levels (equals.token :: (value.tokens ++ rest)) := by
      intro u hu
      obtain rfl : equals.token = u := by simpa using hu
      rw [equals.kind_eq]
      decide
    have hname := gives_parseLevels_name target.kind_eq hfree
    exact Expr.gives_parse.2 (.inr ⟨target.token, equals.token, value.tokens ++ rest, value.tree,
      hname, equals.kind_eq, gives_assignment value hr, rfl⟩)
  | .equality e, rest, hr =>
    Expr.gives_parse.2 (.inl ⟨gives_level Symbol.isLevel_equality e hr.1, hr.2⟩)
termination_by e => (sizeOf e, 0)

/-- The phrases of a level before what is no operator of it or of a tighter one. -/
theorem gives_level : ∀ {s : Symbol}, s.IsLevel → ∀ (e : Phrase s) {rest : List Token},
    Free s.levels rest → (Expr.parseLevels s.levels (e.tokens ++ rest)).Gives (.ok e.tree) rest
  | _, .unary, e, rest, _ => by
    rw [Symbol.levels, Expr.parseLevels]
    exact gives_unary e
  | _, .chain h _, e, rest, hr => by
    rw [h.levels_eq] at hr
    refine gives_chain h e hr.tail (Expr.gives_parseMore.2 (.inl ⟨fun u hu => ?_, rfl, rfl⟩))
    exact hr u hu _ List.mem_cons_self
termination_by _ _ e => (sizeOf e, 1)

/-- Operators of a chain that follow its operands are read with it. -/
theorem gives_chain {s t : Symbol} {operators : List Kind} (h : Chain s operators t) :
    ∀ (e : Phrase s) {rest rest' : List Token} {e' : Expr}, Free t.levels rest →
      (Expr.parseMore operators t.levels e.tree rest).Gives (.ok e') rest' →
      (Expr.parseLevels s.levels (e.tokens ++ rest)).Gives (.ok e') rest' := by
  intro e rest rest' e' hr hm
  -- A phrase is taken apart at its last operator but read from its first one on, so `hm` says what
  -- is read after the operators that are still to be taken off.
  rcases e.chain_cases h with ⟨e, rfl⟩ | ⟨left, operator, right, rfl⟩
  · rw [h.levels_eq]
    exact Expr.gives_parseLevels_cons.2 ⟨e.tree, rest, gives_level h.isLevel e hr, hm⟩
  · rw [tokens, List.append_assoc, List.cons_append]
    exact gives_chain h left (h.free operator _) (Expr.gives_parseMore.2 (.inr ⟨operator.token,
      right.tokens ++ rest, right.tree, rest, rfl, operator.kind_mem,
      gives_level h.isLevel right hr, hm⟩))
termination_by e => (sizeOf e, 0)

theorem gives_unary : ∀ (e : Phrase .unary) {rest : List Token},
    (Expr.parseOperand (e.tokens ++ rest)).Gives (.ok e.tree) rest
  | .unary operator right, rest =>
    Expr.gives_parseOperand.2 (.inl ⟨operator.kind_mem, right.tree, gives_unary right, rfl⟩)
  | .primary e, rest => gives_primary e
termination_by e => (sizeOf e, 0)

theorem gives_primary : ∀ (e : Phrase .primary) {rest : List Token},
    (Expr.parseOperand (e.tokens ++ rest)).Gives (.ok e.tree) rest
  | .literal t, rest => by
    obtain ⟨value, hv, ht⟩ := constant?_literal t
    rw [ht]
    exact Expr.gives_parseOperand.2 (.inr (.inl ⟨value, hv, rfl, rfl⟩))
  | .name t, rest => Expr.gives_parseOperand.2 (.inr (.inr (.inl ⟨t.kind_eq, rfl, rfl⟩)))
  | .group opening inner closing, rest => by
    have hclose : Ends (closing.token :: rest) := ends_of_kind closing.kind_eq (by decide)
    rw [tokens, List.append_assoc, List.cons_append]
    refine Expr.gives_parseOperand.2 (.inr (.inr (.inr ⟨opening.kind_eq, inner.tree,
      closing.token, ?_, closing.kind_eq, rfl⟩)))
    exact gives_expression inner hclose
termination_by e => (sizeOf e, 0)

end

end Phrase

namespace Sentence

/-- An initial value before tokens that cannot go on with it. -/
theorem gives_initial (initial : Option (Terminal [.equal] × Phrase .expression))
    {rest : List Token} (h : Ends rest) :
    (Stmt.parseInitial (initialTokens initial ++ rest)).Gives
      (.ok (initial.map fun i => i.2.tree)) rest := by
  rcases initial with _ | ⟨equals, e⟩
  · exact Stmt.gives_parseInitial.2 (.inl ⟨h.2, rfl, rfl⟩)
  · exact Stmt.gives_parseInitial.2 (.inr ⟨equals.token, e.tokens ++ rest, e.tree, rfl,
      equals.kind_eq, e.gives_expression h, rfl⟩)

mutual

/-- The tokens of a sentence are read before any others. -/
theorem gives : ∀ (d : Sentence) (rest : List Token),
    ∃ t after, d.tokens ++ rest = t :: after ∧ t.kind ≠ .rightBrace
      ∧ (Stmt.parse t after).Gives (some d.tree) rest
  | .declare keyword name initial semicolon, rest => by
    refine ⟨_, _, rfl, by rw [keyword.kind_eq]; decide,
      Stmt.gives_parse.2 ⟨_, rfl, .inl ⟨keyword.kind_eq, ?_⟩⟩⟩
    refine Stmt.gives_parseDeclaration.2 ⟨name.token, _, _, semicolon.token, rfl, name.kind_eq, ?_,
      semicolon.kind_eq, rfl⟩
    rw [List.append_eq, List.append_assoc]
    exact gives_initial initial (ends_of_kind semicolon.kind_eq (by decide))
  | .print keyword e semicolon, rest => by
    refine ⟨_, _, rfl, by rw [keyword.kind_eq]; decide,
      Stmt.gives_parse.2 ⟨_, rfl, .inr (.inl ⟨keyword.kind_eq, ?_⟩)⟩⟩
    refine Stmt.gives_parsePrint.2 ⟨e.tree, semicolon.token, ?_, semicolon.kind_eq, rfl⟩
    rw [List.append_eq, List.append_assoc]
    exact e.gives_expression (ends_of_kind semicolon.kind_eq (by decide))
  | .block opening body closing, rest => by
    refine ⟨_, _, rfl, by rw [opening.kind_eq]; decide,
      Stmt.gives_parse.2 ⟨_, rfl, .inr (.inr (.inl ⟨opening.kind_eq, trees body, ?_, rfl⟩))⟩⟩
    rw [List.append_eq, List.append_assoc]
    exact gives_body body closing.kind_eq rest
  | .expression e semicolon, rest => by
    obtain ⟨t, after, ht, hk⟩ := e.exists_tokens_eq_cons
    have hkeyword := (by decide : ∀ k ∈ Phrase.starters, k ∉ Stmt.keywords) _ hk
    have hbrace := (by decide : ∀ k ∈ Phrase.starters, k ≠ .rightBrace) _ hk
    have happ : (expression e semicolon).tokens ++ rest
        = t :: (after ++ semicolon.token :: rest) := by
      rw [tokens, ht, List.append_assoc]
      rfl
    refine ⟨t, _, happ, hbrace, Stmt.gives_parse.2 ⟨_, rfl, .inr (.inr (.inr ⟨hkeyword, ?_⟩))⟩⟩
    rw [← happ, tokens, List.append_assoc]
    exact Stmt.gives_parseExpression.2 ⟨e.tree, semicolon.token,
      e.gives_expression (ends_of_kind semicolon.kind_eq (by decide)), semicolon.kind_eq, rfl⟩

/-- The tokens of sentences are read as a block before a brace that closes it. -/
theorem gives_body : ∀ (body : List Sentence) {closing : Token} (_ : closing.kind = .rightBrace)
    (rest : List Token),
    (Stmt.parseBlock (allTokens body ++ closing :: rest)).Gives (.ok (trees body)) rest
  | [], _, hc, _ => Stmt.gives_parseBlock.2 (.inl ⟨hc, rfl, rfl⟩)
  | d :: body, closing, hc, rest => by
    obtain ⟨t, after, ht, hk, hd⟩ := gives d (allTokens body ++ closing :: rest)
    rw [allTokens, List.append_assoc, ht]
    exact Stmt.gives_parseBlock.2
      (.inr ⟨hk, d.tree, _, trees body, hd, gives_body body hc rest, rfl⟩)

end

/-- The tokens of sentences are read as a program before any others, which are read as if they
stood alone. -/
theorem parseAll_append : ∀ (ds : List Sentence) (rest : List Token),
    (Stmt.parseAll (allTokens ds ++ rest)).value = trees ds ++ (Stmt.parseAll rest).value
      ∧ (Stmt.parseAll (allTokens ds ++ rest)).errors = (Stmt.parseAll rest).errors
      ∧ (Stmt.parseAll (allTokens ds ++ rest)).rest = (Stmt.parseAll rest).rest
  | [], rest => ⟨rfl, rfl, rfl⟩
  | d :: ds, rest => by
    obtain ⟨t, after, ht, -, hd⟩ := gives d (allTokens ds ++ rest)
    obtain ⟨hv, he, hr⟩ := Stmt.parseAll_of_gives hd
    obtain ⟨hv', he', hr'⟩ := parseAll_append ds rest
    rw [allTokens, List.append_assoc, ht, hv, he, hr, hv', he', hr']
    exact ⟨rfl, rfl, rfl⟩

theorem gives_parseAll (ds : List Sentence) :
    (Stmt.parseAll (allTokens ds)).Gives (trees ds) [] := by
  have h := parseAll_append ds []
  rw [List.append_nil] at h
  obtain ⟨hv, he, hr⟩ := Stmt.gives_parseAll_nil.2 ⟨rfl, rfl⟩
  rw [hv, he, hr, List.append_nil] at h
  exact h

end Sentence

end Grammar

end Scriptlet
