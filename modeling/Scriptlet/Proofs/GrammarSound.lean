import Scriptlet.Proofs.CleanReading
import Scriptlet.Proofs.Grammar

/-!
# What is read without errors is derived

A reading of an expression that reports nothing has read the tokens of a phrase whose tree it gives
(`Grammar.exists_phrase`), and one of statements the tokens of sentences
(`Grammar.exists_sentences`).
-/

namespace Scriptlet

namespace Grammar

open Reading

namespace Phrase

theorem tokens_of_tree_eq_name {s : Symbol} {t : Token} :
    ∀ {e : Phrase s}, e.tree = .name t → e.tokens = [t] ∧ t.kind = .identifier
  | .expression e, h => tokens_of_tree_eq_name (e := e) h
  | .assign _ _ _, h => by cases h
  | .equality e, h => tokens_of_tree_eq_name (e := e) h
  | .operand _ e, h => tokens_of_tree_eq_name (e := e) h
  | .operation _ _ _ _, h => by cases h
  | .unary _ _, h => by cases h
  | .primary e, h => tokens_of_tree_eq_name (e := e) h
  | .literal t, h => by
    simp only [tree] at h
    split at h <;> cases h
  | .name t, h => by
    cases h
    exact ⟨rfl, t.kind_eq⟩
  | .group _ _ _, h => by cases h

theorem exists_literal {t : Token} {value : Value} (h : Expr.constant? t = some value) :
    ∃ e : Phrase .primary, e.tokens = [t] ∧ e.tree = .literal value := by
  have hk : t.kind ∈ [Kind.number, .string, .kwTrue, .kwFalse, .kwNil] := by
    unfold Expr.constant? at h
    split at h <;> simp_all
  refine ⟨.literal ⟨t, hk⟩, rfl, ?_⟩
  unfold Expr.constant? at h
  split at h <;> simp_all [tree]

end Phrase

mutual

theorem exists_assignment {tokens rest : List Token} {e : Expr}
    (h : (Expr.parse tokens).Gives (.ok e) rest) :
    ∃ p : Phrase .assignment, p.tokens ++ rest = tokens ∧ p.tree = e := by
  rcases Expr.gives_parse.1 h with ⟨hl, -⟩ | ⟨target, equals, after, value, ht, hk, hv, rfl⟩
  · obtain ⟨p, hp, ht⟩ := exists_level Symbol.isLevel_equality hl
    exact ⟨.equality p, hp, ht⟩
  · obtain ⟨p, hp, hpt⟩ := exists_level Symbol.isLevel_equality ht
    obtain ⟨hname, hident⟩ := Phrase.tokens_of_tree_eq_name hpt
    have hlt : after.length < tokens.length := by
      rw [← hp, hname, List.length_append, List.length_cons, List.length_cons]
      omega
    obtain ⟨q, hq, hqt⟩ := exists_assignment hv
    refine ⟨.assign (.one target hident) (.one equals hk) q, ?_, by rw [← hqt]; rfl⟩
    rw [← hp, hname, ← hq]
    rfl
termination_by (tokens.length, 2 * Symbol.equality.levels.length + 2)

theorem exists_level : ∀ {s : Symbol}, s.IsLevel → ∀ {tokens rest : List Token} {e : Expr},
    (Expr.parseLevels s.levels tokens).Gives (.ok e) rest →
    ∃ p : Phrase s, p.tokens ++ rest = tokens ∧ p.tree = e
  | _, .unary, tokens, rest, e, h => by
    rw [Symbol.levels, Expr.parseLevels] at h
    exact exists_unary h
  | s, .chain hc ht, tokens, rest, e, h => by
    have hlen := hc.length_levels
    rw [hc.levels_eq] at h
    obtain ⟨left, mid, hl, hm⟩ := Expr.gives_parseLevels_cons.1 h
    obtain ⟨p, hp, rfl⟩ := exists_level ht hl
    have hlt : mid.length < tokens.length := by
      have := p.length_tokens_pos
      rw [← hp, List.length_append]
      omega
    obtain ⟨q, hq, hqt⟩ := exists_chain hc (.operand hc p) hm
    exact ⟨q, hq.trans hp, hqt⟩
termination_by s _ tokens => (tokens.length, 2 * s.levels.length + 1)

theorem exists_chain {s t : Symbol} {operators : List Kind} (hc : Chain s operators t)
    (left : Phrase s) {tokens rest : List Token} {e : Expr}
    (h : (Expr.parseMore operators t.levels left.tree tokens).Gives (.ok e) rest) :
    ∃ p : Phrase s, p.tokens ++ rest = left.tokens ++ tokens ∧ p.tree = e := by
  -- What is read so far is the phrase `left`, which each further operator makes longer.
  rcases Expr.gives_parseMore.1 h with
    ⟨-, rfl, rfl⟩ | ⟨operator, after, right, mid, rfl, hk, hr, hm⟩
  · exact ⟨left, rfl, rfl⟩
  · obtain ⟨p, hp, rfl⟩ := exists_level hc.isLevel hr
    obtain ⟨q, hq, hqt⟩ := exists_chain hc (.operation hc left ⟨operator, hk⟩ p) hm
    refine ⟨q, ?_, hqt⟩
    rw [hq, Phrase.tokens, List.append_assoc, List.cons_append, hp]
termination_by (tokens.length, 2 * t.levels.length + 2)

theorem exists_unary : ∀ {tokens rest : List Token} {e : Expr},
    (Expr.parseOperand tokens).Gives (.ok e) rest →
    ∃ p : Phrase .unary, p.tokens ++ rest = tokens ∧ p.tree = e
  | [], _, _, h => absurd h Expr.not_gives_parseOperand_nil
  | t :: after, rest, e, h => by
    rcases Expr.gives_parseOperand.1 h with ⟨hk, right, hr, rfl⟩ | ⟨value, hv, rfl, rfl⟩
      | ⟨hk, rfl, rfl⟩ | ⟨hk, inner, closing, hi, hc, rfl⟩
    · obtain ⟨p, hp, rfl⟩ := exists_unary hr
      exact ⟨.unary ⟨t, hk⟩ p, congrArg (t :: ·) hp, rfl⟩
    · obtain ⟨p, hp, hpt⟩ := Phrase.exists_literal hv
      exact ⟨.primary p, by rw [Phrase.tokens, hp]; rfl, hpt⟩
    · exact ⟨.primary (.name (.one t hk)), rfl, rfl⟩
    · obtain ⟨p, hp, rfl⟩ := exists_assignment hi
      refine ⟨.primary (.group (.one t hk) (.expression p) (.one closing hc)), ?_, rfl⟩
      simp [Phrase.tokens, hp]
termination_by tokens => (tokens.length, 0)

end

/-- An expression that is read without errors is derived. -/
theorem exists_phrase {tokens rest : List Token} {e : Expr}
    (h : (Expr.parse tokens).Gives (.ok e) rest) :
    ∃ p : Phrase .expression, p.tokens ++ rest = tokens ∧ p.tree = e := by
  obtain ⟨p, hp, ht⟩ := exists_assignment h
  exact ⟨.expression p, hp, ht⟩

theorem exists_initial {tokens rest : List Token} {initial : Option Expr}
    (h : (Stmt.parseInitial tokens).Gives (.ok initial) rest) :
    ∃ i : Option (Terminal [.equal] × Phrase .expression),
      Sentence.initialTokens i ++ rest = tokens ∧ (i.map fun i => i.2.tree) = initial := by
  rcases Stmt.gives_parseInitial.1 h with ⟨-, rfl, rfl⟩ | ⟨equals, after, e, rfl, hk, he, rfl⟩
  · exact ⟨none, rfl, rfl⟩
  · obtain ⟨p, rfl, rfl⟩ := exists_phrase he
    exact ⟨some (.one equals hk, p), rfl, rfl⟩

mutual

theorem exists_sentence {t : Token} {after rest : List Token} {s : Stmt}
    (h : (Stmt.parse t after).Gives (some s) rest) :
    ∃ d : Sentence, d.tokens ++ rest = t :: after ∧ d.tree = s := by
  obtain ⟨s', hs, hcases⟩ := Stmt.gives_parse.1 h
  cases hs
  rcases hcases with ⟨hk, hr⟩ | ⟨hk, hr⟩ | ⟨hk, body, hr, rfl⟩ | ⟨-, hr⟩
  · obtain ⟨name, after, initial, semicolon, rfl, hn, hi, hs, rfl⟩ :=
      Stmt.gives_parseDeclaration.1 hr
    obtain ⟨i, hit, rfl⟩ := exists_initial hi
    refine ⟨.declare (.one t hk) (.one name hn) i (.one semicolon hs), ?_, rfl⟩
    simp [Sentence.tokens, hit]
  · obtain ⟨e, semicolon, he, hs, rfl⟩ := Stmt.gives_parsePrint.1 hr
    obtain ⟨p, hp, rfl⟩ := exists_phrase he
    refine ⟨.print (.one t hk) p (.one semicolon hs), ?_, rfl⟩
    simp [Sentence.tokens, hp]
  · obtain ⟨ds, closing, hc, hd, rfl⟩ := exists_body hr
    refine ⟨.block (.one t hk) ds (.one closing hc), ?_, rfl⟩
    simp [Sentence.tokens, hd]
  · obtain ⟨e, semicolon, he, hs, rfl⟩ := Stmt.gives_parseExpression.1 hr
    obtain ⟨p, hp, rfl⟩ := exists_phrase he
    refine ⟨.expression p (.one semicolon hs), ?_, rfl⟩
    simp [Sentence.tokens, hp]
termination_by (after.length, 1)

theorem exists_body : ∀ {tokens rest : List Token} {body : List Stmt},
    (Stmt.parseBlock tokens).Gives (.ok body) rest →
    ∃ (ds : List Sentence) (closing : Token), closing.kind = .rightBrace
      ∧ Sentence.allTokens ds ++ closing :: rest = tokens ∧ Sentence.trees ds = body
  | [], _, _, h => absurd h Stmt.not_gives_parseBlock_nil
  | t :: after, rest, body, h => by
    rcases Stmt.gives_parseBlock.1 h with ⟨hk, rfl, rfl⟩ | ⟨-, s, mid, body, hs, hb, rfl⟩
    · exact ⟨[], t, hk, rfl, rfl⟩
    · obtain ⟨d, hd, rfl⟩ := exists_sentence hs
      have hlt : mid.length < (t :: after).length := by
        have := d.length_tokens_pos
        rw [← hd, List.length_append]
        omega
      obtain ⟨ds, closing, hc, hds, rfl⟩ := exists_body hb
      refine ⟨d :: ds, closing, hc, ?_, rfl⟩
      rw [← hd, ← hds, Sentence.allTokens, List.append_assoc]
termination_by tokens => (tokens.length, 0)

end

/-- A program that is read without errors is derived. -/
theorem exists_sentences : ∀ {tokens rest : List Token} {program : List Stmt},
    (Stmt.parseAll tokens).Gives program rest →
    ∃ ds : List Sentence, Sentence.allTokens ds = tokens ∧ Sentence.trees ds = program
  | [], _, _, h => by
    obtain ⟨rfl, -⟩ := Stmt.gives_parseAll_nil.1 h
    exact ⟨[], rfl, rfl⟩
  | t :: after, rest, program, h => by
    obtain ⟨s, mid, program, hs, hp, rfl⟩ := Stmt.gives_parseAll.1 h
    obtain ⟨d, hd, rfl⟩ := exists_sentence hs
    have hlt : mid.length < (t :: after).length := by
      have := d.length_tokens_pos
      rw [← hd, List.length_append]
      omega
    obtain ⟨ds, hds, rfl⟩ := exists_sentences hp
    exact ⟨d :: ds, by rw [← hd, ← hds, Sentence.allTokens], rfl⟩
termination_by tokens => tokens.length
decreasing_by exact hlt

end Grammar

end Scriptlet
