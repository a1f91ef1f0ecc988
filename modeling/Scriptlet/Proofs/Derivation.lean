import Scriptlet.Proofs.GrammarComplete
import Scriptlet.Proofs.GrammarSound

/-!
# A program is its derivation

Tokens are read without errors exactly if the grammar derives them, in one way only, and what is
read is the tree of that derivation (`Grammar.program_iff_derived`). The tokens alone give the
tree, as it is what is read from them; the derivation is found again from its tree and its tokens
(`Grammar.Phrase.eq_of_tree`).
-/

namespace Scriptlet

namespace Grammar

open Reading

/-- The number of tokens that an expression is written with. -/
def width : Expr → Nat
  | .literal _ => 1
  | .group inner => width inner + 2
  | .unary _ right => width right + 1
  | .binary left _ right => width left + width right + 1
  | .name _ => 1
  | .assign _ value => width value + 2

/-- What a symbol allows at the top of a tree. -/
def Fits (s : Symbol) : Expr → Prop
  | .assign _ _ => s = .expression ∨ s = .assignment
  | .binary _ operator _ =>
    s = .expression ∨ s = .assignment ∨ ∃ level ∈ s.levels, operator.kind ∈ level
  | .unary _ _ => s ≠ .primary
  | _ => True

theorem Fits.operand {s t : Symbol} {operators : List Kind} (h : Chain s operators t) {e : Expr}
    (he : Fits t e) : Fits s e := by
  cases e with
  | assign => cases h <;> simp [Fits] at he
  | binary =>
    rcases he with rfl | rfl | ⟨level, hl, hk⟩
    · cases h
    · cases h
    · exact .inr (.inr ⟨level, h.levels_eq ▸ List.mem_cons_of_mem _ hl, hk⟩)
  | unary => cases h <;> simp [Fits]
  | _ => trivial

namespace Phrase

/-! ### The phrases of each symbol -/

theorem expression_cases (e : Phrase .expression) : ∃ e', e = .expression e' := by
  cases e with
  | expression e => exact ⟨e, rfl⟩
  | operand h => cases h
  | operation h => cases h

theorem assignment_cases (e : Phrase .assignment) :
    (∃ target equals value, e = .assign target equals value) ∨ ∃ e', e = .equality e' := by
  cases e with
  | assign target equals value => exact .inl ⟨target, equals, value, rfl⟩
  | equality e => exact .inr ⟨e, rfl⟩
  | operand h => cases h
  | operation h => cases h

theorem unary_cases (e : Phrase .unary) :
    (∃ operator right, e = .unary operator right) ∨ ∃ e', e = .primary e' := by
  cases e with
  | unary operator right => exact .inl ⟨operator, right, rfl⟩
  | primary e => exact .inr ⟨e, rfl⟩
  | operand h => cases h
  | operation h => cases h

theorem primary_cases (e : Phrase .primary) :
    (∃ t, e = .literal t) ∨ (∃ t, e = .name t)
      ∨ ∃ opening inner closing, e = .group opening inner closing := by
  cases e with
  | literal t => exact .inl ⟨t, rfl⟩
  | name t => exact .inr (.inl ⟨t, rfl⟩)
  | group opening inner closing => exact .inr (.inr ⟨opening, inner, closing, rfl⟩)
  | operand h => cases h
  | operation h => cases h

/-! ### The tree and the tokens -/

theorem exists_tree_literal (t : Terminal [.number, .string, .kwTrue, .kwFalse, .kwNil]) :
    ∃ value, (Phrase.literal t).tree = .literal value := by
  obtain ⟨value, -, h⟩ := constant?_literal t
  exact ⟨value, h⟩

theorem width_tree {s : Symbol} (e : Phrase s) : width e.tree = e.tokens.length := by
  induction e with
  | expression e ih => exact ih
  | assign target equals value ih => simp only [tree, tokens, width, ih, List.length_cons]
  | equality e ih => exact ih
  | operand h e ih => exact ih
  | operation h left operator right ihl ihr =>
    simp only [tree, tokens, width, ihl, ihr, List.length_append, List.length_cons]
    omega
  | unary operator right ih => simp only [tree, tokens, width, ih, List.length_cons]
  | primary e ih => exact ih
  | literal t =>
    obtain ⟨value, h⟩ := exists_tree_literal t
    rw [h]
    rfl
  | name t => rfl
  | group opening inner closing ih =>
    simp only [tree, tokens, width, ih, List.length_append, List.length_cons, List.length_nil]

theorem fits_tree {s : Symbol} (e : Phrase s) : Fits s e.tree := by
  induction e with
  | expression e => cases h : e.tree <;> simp [tree, h, Fits]
  | assign target equals value => exact .inr rfl
  | equality e => cases h : e.tree <;> simp [tree, h, Fits]
  | operand h e ih => exact ih.operand h
  | operation h left operator right =>
    exact .inr (.inr ⟨_, h.levels_eq ▸ List.mem_cons_self, operator.kind_mem⟩)
  | unary operator right => exact Symbol.noConfusion
  | primary e ih =>
    cases h : e.tree with
    | assign => simp [h, Fits] at ih
    | binary => simp [h, Fits, Symbol.levels] at ih
    | _ => simp [tree, h, Fits]
  | literal t =>
    obtain ⟨value, h⟩ := exists_tree_literal t
    rw [h]
    trivial
  | name t => trivial
  | group opening inner closing => trivial

theorem tree_ne_assign (e : Phrase .equality) (target : Token) (value : Expr) :
    e.tree ≠ .assign target value := by
  intro h
  have hfits := e.fits_tree
  rw [h] at hfits
  simp [Fits] at hfits

theorem tree_ne_unary (e : Phrase .primary) (operator : Token) (right : Expr) :
    e.tree ≠ .unary operator right := by
  intro h
  have hfits := e.fits_tree
  rw [h] at hfits
  exact hfits rfl

/-- An operator of a chain is at the top of none of its operands. -/
theorem tree_ne_binary {s t : Symbol} {operators : List Kind} (e : Phrase t)
    (h : Chain s operators t) (left : Expr) (operator : Terminal operators) (right : Expr) :
    e.tree ≠ .binary left operator.token right := by
  intro htree
  have hfits := e.fits_tree
  rw [htree] at hfits
  rcases hfits with rfl | rfl | ⟨level, hl, hk⟩
  · cases h
  · cases h
  · exact h.not_mem_tighter _ operator.kind_mem level hl hk

/-- A phrase is found again from its tree and its tokens. -/
theorem eq_of_tree {s : Symbol} {e e' : Phrase s} (htree : e.tree = e'.tree)
    (htokens : e.tokens = e'.tokens) : e = e' := by
  induction e with
  | expression e ih =>
    obtain ⟨e', rfl⟩ := e'.expression_cases
    rw [ih htree htokens]
  | assign target equals value ih =>
    rcases e'.assignment_cases with ⟨target', equals', value', rfl⟩ | ⟨e', rfl⟩
    · simp only [tokens, List.cons.injEq] at htokens
      obtain ⟨ht, he, hv⟩ := htokens
      rw [ih (Expr.assign.inj htree).2 hv, Terminal.ext ht, Terminal.ext he]
    · exact absurd htree.symm (e'.tree_ne_assign _ _)
  | equality e ih =>
    rcases e'.assignment_cases with ⟨target', equals', value', rfl⟩ | ⟨e', rfl⟩
    · exact absurd htree (e.tree_ne_assign _ _)
    · rw [ih htree htokens]
  | operand hc e ih =>
    rcases e'.chain_cases hc with ⟨e', rfl⟩ | ⟨left', operator', right', rfl⟩
    · rw [ih htree htokens]
    · exact absurd htree (e.tree_ne_binary hc _ _ _)
  | operation hc left operator right ihl ihr =>
    rcases e'.chain_cases hc with ⟨e', rfl⟩ | ⟨left', operator', right', rfl⟩
    · exact absurd htree.symm (e'.tree_ne_binary hc _ _ _)
    · obtain ⟨hl, -, hr⟩ := Expr.binary.inj htree
      -- Both left operands are written with as many tokens, so the tokens split alike.
      have hlen : left.tokens.length = left'.tokens.length := by
        rw [← width_tree, ← width_tree, hl]
      obtain ⟨hlt, hrest⟩ := List.append_inj htokens hlen
      obtain ⟨ho, hrt⟩ := List.cons.inj hrest
      rw [ihl hl hlt, ihr hr hrt, Terminal.ext ho]
  | unary operator right ih =>
    rcases e'.unary_cases with ⟨operator', right', rfl⟩ | ⟨e', rfl⟩
    · obtain ⟨ho, hr⟩ := List.cons.inj htokens
      rw [ih (Expr.unary.inj htree).2 hr, Terminal.ext ho]
    · exact absurd htree.symm (e'.tree_ne_unary _ _)
  | primary e ih =>
    rcases e'.unary_cases with ⟨operator', right', rfl⟩ | ⟨e', rfl⟩
    · exact absurd htree (e.tree_ne_unary _ _)
    · rw [ih htree htokens]
  | literal t =>
    obtain ⟨value, ht⟩ := exists_tree_literal t
    rw [ht] at htree
    rcases e'.primary_cases with ⟨t', rfl⟩ | ⟨t', rfl⟩ | ⟨opening', inner', closing', rfl⟩
    · rw [Terminal.ext (List.cons.inj htokens).1]
    · cases htree
    · cases htree
  | name t =>
    rcases e'.primary_cases with ⟨t', rfl⟩ | ⟨t', rfl⟩ | ⟨opening', inner', closing', rfl⟩
    · obtain ⟨value, ht⟩ := exists_tree_literal t'
      rw [ht] at htree
      cases htree
    · rw [Terminal.ext (List.cons.inj htokens).1]
    · cases htree
  | group opening inner closing ih =>
    rcases e'.primary_cases with ⟨t', rfl⟩ | ⟨t', rfl⟩ | ⟨opening', inner', closing', rfl⟩
    · obtain ⟨value, ht⟩ := exists_tree_literal t'
      rw [ht] at htree
      cases htree
    · cases htree
    · obtain ⟨ho, hrest⟩ := List.cons.inj htokens
      obtain ⟨hi, hc⟩ := List.append_inj' hrest rfl
      rw [ih (Expr.group.inj htree) hi, Terminal.ext ho, Terminal.ext (List.cons.inj hc).1]

/-- The tokens of an expression have one derivation. -/
theorem eq_of_tokens {e e' : Phrase .expression} (h : e.tokens = e'.tokens) : e = e' := by
  have hends : Ends [] := by simp [Ends, Free]
  have hread := e.gives_expression hends
  have hread' := e'.gives_expression hends
  rw [h] at hread
  obtain ⟨htree, -⟩ := hread.unique hread'
  exact eq_of_tree (Except.ok.inj htree) h

end Phrase

namespace Sentence

theorem eq_of_initialTokens :
    ∀ {i i' : Option (Terminal [.equal] × Phrase .expression)},
      initialTokens i = initialTokens i' → i = i'
  | none, none, _ => rfl
  | none, some _, h => by cases h
  | some _, none, h => by cases h
  | some (equals, e), some (equals', e'), h => by
    obtain ⟨he, ht⟩ := List.cons.inj h
    rw [Terminal.ext he, Phrase.eq_of_tokens ht]

/-- What stands before any tokens has one tree, and ends at one place. -/
theorem tree_eq {d d' : Sentence} {rest rest' : List Token}
    (h : d.tokens ++ rest = d'.tokens ++ rest') : d.tree = d'.tree ∧ rest = rest' := by
  obtain ⟨t, after, ht, -, hd⟩ := d.gives rest
  obtain ⟨t', after', ht', -, hd'⟩ := d'.gives rest'
  rw [h, ht'] at ht
  obtain ⟨rfl, rfl⟩ := List.cons.inj ht
  obtain ⟨htree, hrest⟩ := hd.unique hd'
  exact ⟨Option.some.inj htree, hrest⟩

mutual

/-- Sentences of the same tree and tokens are the same. -/
theorem eq_of_tree : ∀ {d d' : Sentence}, d.tree = d'.tree → d.tokens = d'.tokens → d = d'
  | .declare k n i s, d', htree, h => by
    cases d' with
    | declare k' n' i' s' =>
      simp only [tokens, List.cons.injEq] at h
      obtain ⟨hk, hn, h⟩ := h
      obtain ⟨hi, hs⟩ := List.append_inj' h rfl
      rw [Terminal.ext hk, Terminal.ext hn, eq_of_initialTokens hi,
        Terminal.ext (List.cons.inj hs).1]
    | _ => cases htree
  | .print k e s, d', htree, h => by
    cases d' with
    | print k' e' s' =>
      obtain ⟨hk, h⟩ := List.cons.inj h
      obtain ⟨he, hs⟩ := List.append_inj' h rfl
      rw [Terminal.ext hk, Phrase.eq_of_tokens he, Terminal.ext (List.cons.inj hs).1]
    | _ => cases htree
  | .block o body c, d', htree, h => by
    cases d' with
    | block o' body' c' =>
      obtain ⟨ho, h⟩ := List.cons.inj h
      obtain ⟨hb, hc⟩ := List.append_inj' h rfl
      rw [Terminal.ext ho, eq_of_allTokens hb, Terminal.ext (List.cons.inj hc).1]
    | _ => cases htree
  | .expression e s, d', htree, h => by
    cases d' with
    | expression e' s' =>
      obtain ⟨he, hs⟩ := List.append_inj' h rfl
      rw [Phrase.eq_of_tokens he, Terminal.ext (List.cons.inj hs).1]
    | _ => cases htree

/-- The tokens of sentences have one derivation. -/
theorem eq_of_allTokens : ∀ {ds ds' : List Sentence}, allTokens ds = allTokens ds' → ds = ds'
  | [], [], _ => rfl
  | [], d' :: ds', h => absurd (congrArg List.length h) (by
    have := d'.length_tokens_pos
    simp only [allTokens, List.length_append, List.length_nil]
    omega)
  | d :: ds, [], h => absurd (congrArg List.length h) (by
    have := d.length_tokens_pos
    simp only [allTokens, List.length_append, List.length_nil]
    omega)
  | d :: ds, d' :: ds', h => by
    obtain ⟨htree, hrest⟩ := tree_eq h
    rw [allTokens, allTokens, hrest] at h
    rw [eq_of_tree htree (List.append_cancel_right h), eq_of_allTokens hrest]

end

end Sentence

/-! ### Programs -/

theorem errors_parseAll_iff {tokens : List Token} :
    (Stmt.parseAll tokens).errors = [] ↔ ∃ ds, Sentence.allTokens ds = tokens := by
  constructor
  · intro h
    obtain ⟨ds, hds, -⟩ := exists_sentences ⟨rfl, h, rfl⟩
    exact ⟨ds, hds⟩
  · rintro ⟨ds, rfl⟩
    exact (Sentence.gives_parseAll ds).2.1

/-- A program is read without errors exactly if the grammar derives its tokens. It is then the tree
of the derivation, and there is no other derivation. -/
theorem program_iff_derived {tokens : List Token} {final : Token}
    (ht : ∀ t ∈ tokens, t.kind ≠ .eof) (hf : final.kind = .eof) :
    ∃ s, TokenStream.ofList? (tokens ++ [final]) = some s
      ∧ (s.program.errors = [] ↔ ∃ ds, Sentence.allTokens ds = tokens)
      ∧ ∀ ds, Sentence.allTokens ds = tokens →
        s.program.value = Sentence.trees ds ∧ ∀ ds', Sentence.allTokens ds' = tokens → ds' = ds := by
  refine ⟨⟨tokens, final⟩, TokenStream.ofList?_append_end ht hf, errors_parseAll_iff, ?_⟩
  rintro ds rfl
  exact ⟨(Sentence.gives_parseAll ds).1, fun ds' h => Sentence.eq_of_allTokens h⟩

/-- A name as an operand of sums. -/
def nameOperand (lexeme : String) : Phrase .multiplication :=
  .operand .multiplication (.primary (.name (.one (Token.ident lexeme 1) rfl)))

/-- The minus sign. -/
def minus : Terminal [.minus, .plus] :=
  ⟨⟨.minus, "-", .nil, 1⟩, List.mem_cons_self⟩

/-- The derivation of `print a - b - c;`. -/
def printDifference : Sentence :=
  .print (.one ⟨.kwPrint, "print", .nil, 1⟩ rfl)
    (.expression (.equality (.operand .equality (.operand .comparison
      (.operation .addition (.operation .addition (.operand .addition (nameOperand "a")) minus
        (nameOperand "b")) minus (nameOperand "c"))))))
    (.one ⟨.semicolon, ";", .nil, 1⟩ rfl)

theorem program_derived_printDifference :
    ∃ s, TokenStream.ofList? (printDifference.tokens ++ [Token.atEnd 1]) = some s
      ∧ s.program.errors = []
      ∧ s.program.value = [.print (.binary (.binary (.name (Token.ident "a" 1)) minus.token
        (.name (Token.ident "b" 1))) minus.token (.name (Token.ident "c" 1)))] := by
  have happ : Sentence.allTokens [printDifference] = printDifference.tokens := List.append_nil _
  obtain ⟨s, hs, hread, htree⟩ :=
    @program_iff_derived printDifference.tokens (Token.atEnd 1) (by decide) rfl
  exact ⟨s, hs, hread.2 ⟨_, happ⟩, (htree _ happ).1⟩

end Grammar

end Scriptlet
