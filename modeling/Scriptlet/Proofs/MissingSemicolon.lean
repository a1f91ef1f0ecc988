import Scriptlet.Proofs.Draft
import Scriptlet.Proofs.Derivation
import Scriptlet.Report

/-!
# Missing semicolons before a keyword

A sentence that lacks its semicolon and stands before a `var` or `print` costs itself and nothing
else: its error is at that keyword, and reading goes on there as if the sentence were not
(`Grammar.Draft.yields`). So a program with any number of such sentences, at any depth, is read as
the program without them (`Grammar.program_of_recoverable`).
-/

namespace Scriptlet

namespace Grammar

open Reading

/-- The first of the tokens starts a `var` or `print` statement. -/
def KeywordFirst (tokens : List Token) : Prop :=
  ∃ t ∈ tokens.head?, t.kind = .kwVar ∨ t.kind = .kwPrint

theorem keywordFirst_cons {t : Token} {after : List Token} :
    KeywordFirst (t :: after) ↔ t.kind = .kwVar ∨ t.kind = .kwPrint := by
  simp [KeywordFirst]

namespace KeywordFirst

variable {tokens : List Token}

theorem append (h : KeywordFirst tokens) (rest : List Token) : KeywordFirst (tokens ++ rest) := by
  obtain ⟨t, ht, hk⟩ := h
  exact ⟨t, by rw [List.head?_append, ht]; rfl, hk⟩

theorem kind_ne {k : Kind} (h : KeywordFirst tokens) (hk : k ≠ .kwVar ∧ k ≠ .kwPrint) :
    ∀ t ∈ tokens.head?, t.kind ≠ k := by
  obtain ⟨t, ht, hkeyword⟩ := h
  intro u hu heq
  obtain rfl : t = u := Option.mem_unique ht hu
  rw [heq] at hkeyword
  exact hkeyword.elim hk.1 hk.2

theorem ends (h : KeywordFirst tokens) : Ends tokens := by
  obtain ⟨t, ht, hk | hk⟩ := h <;> obtain ⟨rest, rfl⟩ := List.head?_eq_some_iff.1 ht
  · exact ends_of_kind hk (by decide)
  · exact ends_of_kind hk (by decide)

/-- Nothing is dropped before a keyword. -/
theorem resume_eq (h : KeywordFirst tokens) : resume tokens = tokens := by
  obtain ⟨t, ht, hk⟩ := h
  obtain ⟨rest, rfl⟩ := List.head?_eq_some_iff.1 ht
  rw [resume, if_pos hk]

end KeywordFirst

namespace Clause

def HasKeyword : Clause → Prop
  | declare .. => True
  | print .. => True
  | expression _ => False

/-- What the user is told if no semicolon follows. -/
def complaint : Clause → String
  | declare .. => "Expect ';' after variable declaration."
  | print .. => "Expect ';' after value."
  | expression _ => "Expect ';' after expression."

theorem message_cause (c : Clause) : c.cause.message = c.complaint := by
  cases c <;> rfl

/-- The report of a clause that no semicolon follows, at the first token of what does. -/
theorem ofSyntaxError_cause (c : Clause) {final t : Token} {rest : List Token}
    (ht : t ∈ rest.head?) (hne : t.kind ≠ .eof) :
    Report.ofSyntaxError final ⟨c.cause, rest⟩
      = ⟨.syntactic, t.line, .atLexeme t.lexeme, c.complaint⟩ := by
  rw [Report.ofSyntaxError, Option.mem_def.1 ht, Option.getD_some, Report.syntactic, if_neg hne,
    message_cause]

theorem HasKeyword.keywordFirst {c : Clause} (h : c.HasKeyword) : KeywordFirst c.tokens := by
  cases c with
  | declare keyword name initial => exact ⟨keyword.token, rfl, .inl keyword.kind_eq⟩
  | print keyword e => exact ⟨keyword.token, rfl, .inr keyword.kind_eq⟩
  | expression e => exact h.elim

end Clause

namespace Draft

/-- The draft is a `var` or `print` sentence. -/
def HasKeyword : Draft → Prop
  | simple c _ _ => c.HasKeyword
  | block .. => False

/-- The draft is a simple sentence without its semicolon. -/
def Lacks : Draft → Prop
  | simple _ _ lacking => lacking = true
  | block .. => False

theorem HasKeyword.keywordFirst {d : Draft} (h : d.HasKeyword) : KeywordFirst d.tokens := by
  cases d with
  | simple c semicolon lacking =>
    cases lacking with
    | false => exact (Clause.HasKeyword.keywordFirst h).append _
    | true => exact Clause.HasKeyword.keywordFirst h
  | block opening body closing => exact h.elim

mutual

/-- In the blocks of the draft, what lacks its semicolon stands before a `var` or `print`. -/
def Recoverable : Draft → Prop
  | simple .. => True
  | block _ body _ => AllRecoverable body

/-- What lacks its semicolon is followed by a `var` or `print` sentence in its own list. -/
def AllRecoverable : List Draft → Prop
  | [] => True
  | d :: ds => d.Recoverable ∧ (d.Lacks → ∃ next ∈ ds.head?, next.HasKeyword) ∧ AllRecoverable ds

end

theorem not_lacks_of_gaps {d : Draft} (h : d.gaps = 0) : ¬ d.Lacks := by
  cases d with
  | simple c semicolon lacking =>
    rintro rfl
    cases h
  | block opening body closing => exact id

mutual

theorem recoverable_of_gaps : ∀ {d : Draft}, d.gaps = 0 → d.Recoverable
  | simple .., _ => trivial
  | block _ _ _, h => allRecoverable_of_gapsAll h

/-- Where no semicolon is lacking, nothing is to be recovered from. -/
theorem allRecoverable_of_gapsAll : ∀ {ds : List Draft}, gapsAll ds = 0 → AllRecoverable ds
  | [], _ => trivial
  | d :: ds, h => by
    rw [gapsAll, Nat.add_eq_zero_iff] at h
    refine ⟨recoverable_of_gaps h.1, fun hl => ?_, allRecoverable_of_gapsAll h.2⟩
    exact absurd hl (not_lacks_of_gaps h.1)

end

/-- What follows a sentence that lacks its semicolon starts with a keyword. -/
theorem keywordFirst_allTokens {ds : List Draft} (h : ∃ next ∈ ds.head?, next.HasKeyword)
    (rest : List Token) : KeywordFirst (allTokens ds ++ rest) := by
  obtain ⟨next, hnext, hk⟩ := h
  obtain ⟨ds, rfl⟩ := List.head?_eq_some_iff.1 hnext
  rw [allTokens, List.append_assoc]
  exact hk.keywordFirst.append _

mutual

/-- A draft is read up to its end, and what is kept of it is its tree. -/
theorem yields : ∀ (d : Draft) {rest : List Token}, d.Recoverable →
    (d.Lacks → KeywordFirst rest) →
    ∃ t after, d.tokens ++ rest = t :: after ∧ t.kind ≠ .rightBrace
      ∧ (Stmt.parse t after).Yields d.kept? (d.errors rest) rest
  | simple c semicolon false, rest, _, _ => by
    obtain ⟨t, after, ht, hk, h⟩ := (c.close semicolon).gives rest
    rw [c.tokens_close] at ht
    exact ⟨t, after, ht, hk, h.yields⟩
  | simple c semicolon true, rest, _, hrest => by
    -- The error is at a keyword, where recovery drops nothing.
    have hkeyword := hrest rfl
    obtain ⟨t, after, ht, hk, h⟩ := c.yields hkeyword.ends (hkeyword.kind_ne (by decide))
    rw [hkeyword.resume_eq] at h
    exact ⟨t, after, ht, hk, h⟩
  | block opening body closing, rest, hbody, _ => by
    have hvar : opening.token.kind ≠ .kwVar := by rw [opening.kind_eq]; decide
    have hprint : opening.token.kind ≠ .kwPrint := by rw [opening.kind_eq]; decide
    have hclose : (Stmt.parseBlock (closing.token :: rest)).Yields (.ok []) [] rest :=
      (Stmt.gives_parseBlock.2 (.inl ⟨closing.kind_eq, rfl, rfl⟩)).yields
    have h := yields_parseBlock body hbody hclose
    refine ⟨opening.token, allTokens body ++ closing.token :: rest, ?_,
      by rw [opening.kind_eq]; decide, ?_⟩
    · simp [tokens]
    · rw [Stmt.parse, dif_neg hvar, dif_neg hprint, if_pos opening.kind_eq]
      rw [Except.map, List.append_nil, List.append_nil] at h
      exact h.andThen_done.recover_ok

/-- The drafts at the front of a block are read, and then the others as if they stood alone. -/
theorem yields_parseBlock : ∀ (ds : List Draft) {rest rest' : List Token}
    {value : Except SyntaxError.Cause (List Stmt)} {errors : List SyntaxError}, AllRecoverable ds →
    (Stmt.parseBlock rest).Yields value errors rest' →
    (Stmt.parseBlock (allTokens ds ++ rest)).Yields (value.map (keptAll ds ++ ·))
      (allErrors ds rest ++ errors) rest'
  | [], _, _, value, _, _, h => by
    cases value <;> exact h
  -- The front of the block is taken apart draft by draft, and `h` stays as it is.
  | d :: ds, rest, rest', value, errors, ⟨hd, hnext, hds⟩, h => by
    obtain ⟨t, after, ht, hk, hread⟩ := d.yields hd fun hl => keywordFirst_allTokens (hnext hl) rest
    have hall := Stmt.yields_parseBlock hk hread (yields_parseBlock ds hds h)
    rw [allTokens, List.append_assoc, ht, allErrors, List.append_assoc, keptAll]
    cases value with
    | error cause => exact hall
    | ok body => simpa only [Except.map, List.append_assoc] using hall

end

/-- The drafts at the front of a program are read, and then what follows as if it stood alone. -/
theorem yields_parseAll : ∀ (ds : List Draft) {rest rest' : List Token} {program : List Stmt}
    {errors : List SyntaxError}, AllRecoverable ds →
    (Stmt.parseAll rest).Yields program errors rest' →
    (Stmt.parseAll (allTokens ds ++ rest)).Yields (keptAll ds ++ program)
      (allErrors ds rest ++ errors) rest'
  | [], _, _, _, _, _, h => h
  | d :: ds, rest, rest', program, errors, ⟨hd, hnext, hds⟩, h => by
    obtain ⟨t, after, ht, -, hread⟩ := d.yields hd fun hl => keywordFirst_allTokens (hnext hl) rest
    have hall := Stmt.yields_parseAll hread (yields_parseAll ds hds h)
    rw [allTokens, List.append_assoc, ht, allErrors, List.append_assoc, keptAll, List.append_assoc]
    exact hall

/-! ### The reports -/

mutual

/-- One report for each semicolon that is lacking, where `next` is the first token of what
follows. -/
def reports : Draft → Option Token → List Report
  | simple _ _ false, _ => []
  | simple c _ true, next =>
    next.toList.map fun t => ⟨.syntactic, t.line, .atLexeme t.lexeme, c.complaint⟩
  | block _ body _, _ => allReports body

def allReports : List Draft → List Report
  | [] => []
  | d :: ds => d.reports (ds.head?.bind fun next => next.tokens.head?) ++ allReports ds

end

mutual

theorem map_errors (final : Token) : ∀ (d : Draft) (next : List Draft) (rest : List Token),
    d.Recoverable → (d.Lacks → ∃ d' ∈ next.head?, d'.HasKeyword) →
    (d.errors (allTokens next ++ rest)).map (Report.ofSyntaxError final)
      = d.reports (next.head?.bind fun d' => d'.tokens.head?)
  | simple _ _ false, _, _, _, _ => rfl
  | simple c _ true, next, rest, _, hnext => by
    obtain ⟨d', hd', hk⟩ := hnext rfl
    obtain ⟨ds, rfl⟩ := List.head?_eq_some_iff.1 hd'
    obtain ⟨t, ht, hkind⟩ := hk.keywordFirst
    have hne : t.kind ≠ .eof := by
      intro heof
      rw [heof] at hkind
      exact absurd hkind (by decide)
    have hfirst : t ∈ (allTokens (d' :: ds) ++ rest).head? := by
      rw [allTokens, List.append_assoc, List.head?_append, Option.mem_def.1 ht]
      rfl
    rw [errors, reports, List.map_singleton, c.ofSyntaxError_cause hfirst hne, List.head?_cons,
      Option.bind_some, Option.mem_def.1 ht]
    rfl
  | block _ body closing, next, rest, hbody, _ =>
    map_allErrors final body (closing.token :: (allTokens next ++ rest)) hbody

/-- The errors are reported as what each clause lacks, at the sentence that follows it. -/
theorem map_allErrors (final : Token) : ∀ (ds : List Draft) (rest : List Token),
    AllRecoverable ds →
    (allErrors ds rest).map (Report.ofSyntaxError final) = allReports ds
  | [], _, _ => rfl
  | d :: ds, rest, ⟨hd, hnext, hds⟩ => by
    rw [allErrors, allReports, List.map_append, map_errors final d ds rest hd hnext,
      map_allErrors final ds rest hds]

end

end Draft

/-- From a program without errors, semicolons are left out of any of its simple sentences that are
followed by a `var` or `print` sentence in their own list. What is read is the program less those
sentences, with one report for each of them, in order, at the sentence that follows. -/
theorem program_of_recoverable {s : TokenStream} (h : s.program.errors = []) :
    ∃ ds, Sentence.allTokens ds = s.ahead ∧ Sentence.trees ds = s.program.value
      ∧ ∀ drafts, Draft.meantAll drafts = ds → Draft.AllRecoverable drafts →
        ∀ p, p = { s with ahead := Draft.allTokens drafts }.program →
          p.value = Draft.keptAll drafts
            ∧ p.errors = Draft.allErrors drafts []
            ∧ p.errors.map (Report.ofSyntaxError s.final) = Draft.allReports drafts
            ∧ p.errors.length = Draft.gapsAll drafts := by
  obtain ⟨ds, htokens, htrees⟩ := exists_sentences ⟨rfl, h, rfl⟩
  refine ⟨ds, htokens, htrees, ?_⟩
  rintro drafts - hdrafts p rfl
  have hnil : (Stmt.parseAll []).Yields [] [] [] := (Stmt.gives_parseAll_nil.2 ⟨rfl, rfl⟩).yields
  obtain ⟨hvalue, herrors, -⟩ := Draft.yields_parseAll drafts hdrafts hnil
  rw [List.append_nil] at hvalue herrors
  rw [List.append_nil] at hvalue herrors
  refine ⟨hvalue, herrors, ?_, ?_⟩
  · rw [← Draft.map_allErrors s.final drafts [] hdrafts, ← herrors]
    rfl
  · rw [← Draft.length_allErrors drafts [], ← herrors]
    rfl

/-- A token of one kind, on the first line. -/
def Terminal.word (k : Kind) (lexeme : String) : Terminal [k] :=
  .one ⟨k, lexeme, .nil, 1⟩ rfl

/-- The literal `nil`. -/
def nilLiteral : Phrase .expression :=
  .expression (.equality (.operand .equality (.operand .comparison (.operand .addition
    (.operand .multiplication (.primary (.literal ⟨⟨.kwNil, "nil", .nil, 1⟩, by decide⟩)))))))

/-- The clause `print nil`. -/
def printNil : Clause :=
  .print (.word .kwPrint "print") nilLiteral

namespace Draft

/-- Drafts as a block. -/
def inBraces (body : List Draft) : Draft :=
  .block (.word .leftBrace "\x7b") body (.word .rightBrace "\x7d")

/-- The block of `nil print nil var a;`. -/
def nilTwice : Draft :=
  inBraces [.simple (.expression nilLiteral) (.word .semicolon ";") true,
    .simple printNil (.word .semicolon ";") true,
    .simple (.declare (.word .kwVar "var") (.word .identifier "a") none) (.word .semicolon ";")
      false]

end Draft

theorem program_of_recoverable_nilTwice :
    ∃ p, p = (TokenStream.mk (Draft.allTokens [Draft.nilTwice]) (Token.atEnd 1)).program
      ∧ p.value = [.block [.declare (Token.ident "a" 1) none]]
      ∧ (p.errors.map fun e => (Report.ofSyntaxError (Token.atEnd 1) e).text)
        = ["[line 1] Error at 'print': Expect ';' after expression.",
          "[line 1] Error at 'var': Expect ';' after value."] := by
  have hmeant := (Sentence.gives_parseAll (Draft.meantAll [Draft.nilTwice])).2.1
  obtain ⟨ds, htokens, -, hread⟩ := @program_of_recoverable
    ⟨Sentence.allTokens (Draft.meantAll [Draft.nilTwice]), Token.atEnd 1⟩ hmeant
  have hrecoverable : Draft.AllRecoverable [Draft.nilTwice] := by
    simp [Draft.AllRecoverable, Draft.Recoverable, Draft.nilTwice, Draft.inBraces, Draft.Lacks,
      Draft.HasKeyword, Clause.HasKeyword, printNil]
  obtain ⟨hvalue, -, hreports, -⟩ :=
    hread [Draft.nilTwice] (Sentence.eq_of_allTokens htokens.symm) hrecoverable _ rfl
  refine ⟨_, rfl, hvalue, ?_⟩
  have htexts := congrArg (List.map Report.text) hreports
  rw [List.map_map] at htexts
  exact htexts.trans (by decide)

end Grammar

end Scriptlet
